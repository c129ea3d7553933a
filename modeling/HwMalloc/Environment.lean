import HwMalloc.HeapConfig
import HwMalloc.Lib.Lists

/-!
# HwMalloc.Environment

The environment variables of the default configuration. `get_env` parses the
string that a variable holds with `std::stoul`, and returns the default value
when this throws.

`std::stoul` converts the longest prefix that is a number: what follows the
digits is not looked at, and a minus sign negates modulo `2 ^ 64`. So it throws
for a string that does not start with a number, or with one that overflows, and
accepts everything else. `takenWhole_iff` says for which strings the result is
what the string denotes, or the default.

A string is the list of its characters. The white space is that of the "C"
locale.
-/

namespace HwMalloc

/-! ### `std::stoul` -/

/-- `std::isspace`: the blank, and the control characters from `\t` to `\r`. -/
def isSpace (c : Char) : Bool := c.toNat == 32 || 9 ≤ c.toNat && c.toNat ≤ 13

/-- What may stand before the digits. -/
inductive Sign
  | none
  | plus
  | minus
  deriving Repr, DecidableEq

namespace Sign

def chars : Sign → List Char
  | none => []
  | plus => ['+']
  | minus => ['-']

/-- The number `n` with this sign, as an `unsigned long`. -/
def apply (n : Nat) : Sign → Nat
  | none => n
  | plus => n
  | minus => subSize 0 n

end Sign

/-- The optional sign at the start of a string. -/
def splitSign : List Char → Sign × List Char
  | '+' :: s => (.plus, s)
  | '-' :: s => (.minus, s)
  | s => (.none, s)

/-- The exceptions that `std::stoul` throws. -/
inductive StoulError
  | invalidArgument
  | outOfRange
  deriving Repr, DecidableEq

/-- `std::stoul`. -/
def stoul (s : List Char) : Except StoulError Nat :=
  let signed := splitSign (s.dropWhile isSpace)
  let digits := signed.2.takeWhile Char.isDigit
  if digits = [] then .error .invalidArgument
  else if sizeMod ≤ Nat.ofDigitChars 10 digits 0 then .error .outOfRange
  else .ok (signed.1.apply (Nat.ofDigitChars 10 digits 0))

/-! ### `detail::get_env` -/

/-- `std::getenv`. -/
abbrev Environment := String → Option (List Char)

/-- `parse_value<std::size_t>`. -/
def parseSize (s : List Char) : Except StoulError Nat := stoul s

/-- `parse_value<bool>`. -/
def parseBool (s : List Char) : Except StoulError Bool := (stoul s).map fun n => n != 0

/-- `get_env`, with the `parse_value` of its type. -/
def getEnv {α : Type} (parseValue : List Char → Except StoulError α) (env : Environment)
    (name : String) (defaultValue : α) : α :=
  match env name with
  | some s =>
    match parseValue s with
    | .ok v => v
    | .error _ => defaultValue
  | none => defaultValue

/-- The arguments that `get_default_heap_config` passes. -/
def defaultHeapConfigArgs (env : Environment) : HeapConfigArgs where
  neverFree := getEnv parseBool env "HWMALLOC_NEVER_FREE" defaultArgs.neverFree
  numReserveSegments :=
    getEnv parseSize env "HWMALLOC_NUM_RESERVE_SEGMENTS" defaultArgs.numReserveSegments
  tinyLimit := getEnv parseSize env "HWMALLOC_TINY_LIMIT" defaultArgs.tinyLimit
  smallLimit := getEnv parseSize env "HWMALLOC_SMALL_LIMIT" defaultArgs.smallLimit
  largeLimit := getEnv parseSize env "HWMALLOC_LARGE_LIMIT" defaultArgs.largeLimit
  tinySegmentSize := getEnv parseSize env "HWMALLOC_TINY_SEGMENT_SIZE" defaultArgs.tinySegmentSize
  smallSegmentSize :=
    getEnv parseSize env "HWMALLOC_SMALL_SEGMENT_SIZE" defaultArgs.smallSegmentSize
  largeSegmentSize :=
    getEnv parseSize env "HWMALLOC_LARGE_SEGMENT_SIZE" defaultArgs.largeSegmentSize

/-- `get_default_heap_config`. -/
def getDefaultHeapConfig (env : Environment) : Except String HeapConfig :=
  heapConfig (defaultHeapConfigArgs env)

/-! ### How a string reads

Every string has one reading: white space, a sign or none, digits, and the rest. -/

/-- After white space, the string has a number, and goes on with `rest`. -/
structure Reads (s : List Char) (sign : Sign) (digits rest : List Char) : Prop where
  eq : ∃ space, (∀ c ∈ space, isSpace c = true) ∧ s = space ++ (sign.chars ++ (digits ++ rest))
  digits_ne_nil : digits ≠ []
  isDigit : ∀ c ∈ digits, c.isDigit = true
  stop : ∀ c ∈ rest.head?, c.isDigit = false

/-- The whole string, up to leading white space, is a decimal numeral for `v`. A
numeral may have a plus sign. -/
def Denotes (s : List Char) (v : Nat) : Prop :=
  ∃ sign digits, Reads s sign digits [] ∧ sign ≠ .minus ∧ Nat.ofDigitChars 10 digits 0 = v

theorem isDigit_toNat {c : Char} (h : c.isDigit = true) : 48 ≤ c.toNat ∧ c.toNat ≤ 57 := by
  simp [Char.isDigit, UInt32.le_iff_toNat_le] at h
  exact h

theorem isSpace_of_isDigit {c : Char} (h : c.isDigit = true) : isSpace c = false := by
  have hrange := isDigit_toNat h
  simp only [isSpace, Bool.or_eq_false_iff, Bool.and_eq_false_iff, beq_eq_false_iff_ne,
    decide_eq_false_iff_not]
  omega

theorem splitSign_spec (s : List Char) : s = (splitSign s).1.chars ++ (splitSign s).2 := by
  unfold splitSign
  split <;> rfl

/-- A digit is no sign. -/
theorem splitSign_chars {c : Char} (h : c.isDigit = true) (sign : Sign) (s : List Char) :
    splitSign (sign.chars ++ c :: s) = (sign, c :: s) := by
  cases sign with
  | none =>
    rw [Sign.chars, List.nil_append, splitSign]
    · rintro s' ⟨⟩
      exact absurd h (by decide)
    · rintro s' ⟨⟩
      exact absurd h (by decide)
  | plus => rfl
  | minus => rfl

/-- Neither a sign nor a digit is white space. -/
theorem dropWhile_isSpace_chars {c : Char} (h : c.isDigit = true) (sign : Sign) (s : List Char) :
    (sign.chars ++ c :: s).dropWhile isSpace = sign.chars ++ c :: s := by
  cases sign with
  | none =>
    rw [Sign.chars, List.nil_append, List.dropWhile_cons, isSpace_of_isDigit h,
      if_neg Bool.false_ne_true]
  | plus => rfl
  | minus => rfl

namespace Reads

variable {s digits rest : List Char} {sign : Sign}

/-- The parts of a string are those that `stoul` finds. -/
theorem parts (h : Reads s sign digits rest) :
    splitSign (s.dropWhile isSpace) = (sign, digits ++ rest) ∧
      Lib.Longest Char.isDigit (digits ++ rest) digits rest := by
  refine ⟨?_, rfl, h.isDigit, h.stop⟩
  obtain ⟨space, hspace, rfl⟩ := h.eq
  rw [List.dropWhile_append_of_pos hspace]
  cases digits with
  | nil => exact absurd rfl h.digits_ne_nil
  | cons c digits =>
    have hc := h.isDigit c List.mem_cons_self
    rw [List.cons_append, dropWhile_isSpace_chars hc, splitSign_chars hc]

theorem stoul_eq (h : Reads s sign digits rest) :
    stoul s =
      if sizeMod ≤ Nat.ofDigitChars 10 digits 0 then .error .outOfRange
      else .ok (sign.apply (Nat.ofDigitChars 10 digits 0)) := by
  obtain ⟨hsplit, hdigits⟩ := h.parts
  rw [stoul, hsplit, hdigits.takeWhile_eq, if_neg h.digits_ne_nil]

/-- A string reads in one way. -/
theorem unique {sign' : Sign} {digits' rest' : List Char} (h : Reads s sign digits rest)
    (h' : Reads s sign' digits' rest') : sign' = sign ∧ digits' = digits ∧ rest' = rest := by
  obtain ⟨hsplit, hdigits⟩ := h.parts
  obtain ⟨hsplit', hdigits'⟩ := h'.parts
  obtain ⟨hsign, htail⟩ := Prod.mk.inj (hsplit'.symm.trans hsplit)
  rw [htail] at hdigits'
  exact ⟨hsign, hdigits'.takeWhile_eq.symm.trans hdigits.takeWhile_eq,
    hdigits'.dropWhile_eq.symm.trans hdigits.dropWhile_eq⟩

end Reads

/-- `stoul` accepts the strings that start with a number that fits. -/
theorem stoul_ok_iff {s : List Char} {v : Nat} :
    stoul s = .ok v ↔ ∃ sign digits rest, Reads s sign digits rest ∧
      Nat.ofDigitChars 10 digits 0 < sizeMod ∧ sign.apply (Nat.ofDigitChars 10 digits 0) = v := by
  constructor
  · intro h
    rw [stoul] at h
    split at h
    · cases h
    · next hne =>
      split at h
      · cases h
      · next hlt =>
        have hspace := Lib.longest_span isSpace s
        have hdigits := Lib.longest_span Char.isDigit (splitSign (s.dropWhile isSpace)).2
        refine ⟨_, _, _, ⟨⟨_, hspace.all, ?_⟩, hne, hdigits.all, hdigits.stop⟩, not_le.mp hlt,
          Except.ok.inj h⟩
        rw [← hdigits.eq, ← splitSign_spec]
        exact hspace.eq
  · intro h
    obtain ⟨sign, digits, rest, hreads, hlt, rfl⟩ := h
    rw [hreads.stoul_eq, if_neg (not_le.mpr hlt)]

/-! ### Whole values

What the string denotes, if it is a number and nothing else. -/

/-- A variable that holds `s` gives a value other than the default value only if
`s` denotes it, and otherwise the default value. -/
def TakenWhole (s : List Char) (defaultValue : Nat) : Prop :=
  ∀ (env : Environment) (name : String), env name = some s →
    (∀ v, getEnv parseSize env name defaultValue = v → v ≠ defaultValue → Denotes s v) ∧
      ((∀ v, ¬Denotes s v) → getEnv parseSize env name defaultValue = defaultValue)

/-- The string starts with a number that is not the default value, and there is
more to it than this number, or a minus sign. -/
def Misread (s : List Char) (defaultValue : Nat) : Prop :=
  ∃ sign digits rest, Reads s sign digits rest ∧ (sign = .minus ∨ rest ≠ []) ∧
    Nat.ofDigitChars 10 digits 0 < sizeMod ∧
    sign.apply (Nat.ofDigitChars 10 digits 0) ≠ defaultValue

/-- A string that is not misread, and gives another value than the default one,
denotes this value. -/
theorem denotes_of_stoul {s : List Char} {defaultValue v : Nat} (h : ¬Misread s defaultValue)
    (hok : stoul s = .ok v) (hne : v ≠ defaultValue) : Denotes s v := by
  obtain ⟨sign, digits, rest, hreads, hlt, rfl⟩ := stoul_ok_iff.mp hok
  have hplain : ¬(sign = .minus ∨ rest ≠ []) := fun hmore =>
    h ⟨sign, digits, rest, hreads, hmore, hlt, hne⟩
  rw [not_or, not_not] at hplain
  obtain ⟨hsign, rfl⟩ := hplain
  refine ⟨sign, digits, hreads, hsign, ?_⟩
  cases sign with
  | none => rfl
  | plus => rfl
  | minus => exact absurd rfl hsign

theorem Misread.not_denotes {s : List Char} {defaultValue : Nat} (h : Misread s defaultValue)
    (v : Nat) : ¬Denotes s v := by
  obtain ⟨sign, digits, rest, hreads, hmore, -⟩ := h
  intro hdenotes
  obtain ⟨sign', digits', hreads', hsign, -⟩ := hdenotes
  obtain ⟨rfl, rfl, rfl⟩ := hreads.unique hreads'
  rcases hmore with hminus | hrest
  · exact hsign hminus
  · exact hrest rfl

/-- What `get_env` returns for a string that is set. -/
theorem getEnv_of_some {env : Environment} {name : String} {s : List Char} {defaultValue : Nat}
    (h : env name = some s) :
    getEnv parseSize env name defaultValue = (stoul s).toOption.getD defaultValue := by
  rw [getEnv, h]
  dsimp only [parseSize]
  cases stoul s <;> rfl

/-- A string that `std::stoul` rejects leaves the default value in force. -/
theorem getEnv_of_rejected {α : Type} {parseValue : List Char → Except StoulError α}
    {env : Environment} {name : String}
    (h : ∀ s, env name = some s → ∃ e, parseValue s = .error e) (defaultValue : α) :
    getEnv parseValue env name defaultValue = defaultValue := by
  rw [getEnv]
  cases hname : env name with
  | none => rfl
  | some s =>
    obtain ⟨e, he⟩ := h s hname
    simp only [he]

/-- An environment whose strings are all rejected gives the default arguments. -/
theorem defaultHeapConfigArgs_of_rejected {env : Environment}
    (h : ∀ name s, env name = some s → ∃ e, stoul s = .error e) :
    defaultHeapConfigArgs env = defaultArgs := by
  have hsize : ∀ name d, getEnv parseSize env name d = d := fun name =>
    getEnv_of_rejected (h name)
  have hbool : ∀ name d, getEnv parseBool env name d = d := fun name =>
    getEnv_of_rejected fun s hs => by
      obtain ⟨e, he⟩ := h name s hs
      exact ⟨e, by rw [parseBool, he]; rfl⟩
  simp only [defaultHeapConfigArgs, hsize, hbool]

/-- A string is taken whole, or not at all, exactly when it is not misread. -/
theorem takenWhole_iff (s : List Char) (defaultValue : Nat) :
    TakenWhole s defaultValue ↔ ¬Misread s defaultValue := by
  constructor
  · intro h hmisread
    have hdefault := (h (fun _ => some s) "HWMALLOC_TINY_LIMIT" rfl).2 hmisread.not_denotes
    obtain ⟨sign, digits, rest, hreads, -, hlt, hne⟩ := hmisread
    rw [getEnv_of_some rfl, stoul_ok_iff.mpr ⟨sign, digits, rest, hreads, hlt, rfl⟩] at hdefault
    exact hne hdefault
  · intro h env name hname
    rw [getEnv_of_some hname]
    cases hstoul : stoul s with
    | error e => exact ⟨fun v hv hne => absurd hv.symm hne, fun _ => rfl⟩
    | ok w =>
      refine ⟨fun v hv hne => ?_, fun hnone => ?_⟩
      · obtain rfl : w = v := hv
        exact denotes_of_stoul h hstoul hne
      · by_contra hne
        exact hnone w (denotes_of_stoul h hstoul hne)

/-- A numeral that fits is taken. -/
theorem getEnv_of_denotes {env : Environment} {name : String} {s : List Char} {v : Nat}
    (hname : env name = some s) (h : Denotes s v) (hlt : v < sizeMod) (defaultValue : Nat) :
    getEnv parseSize env name defaultValue = v := by
  obtain ⟨sign, digits, hreads, hsign, rfl⟩ := h
  have hok := stoul_ok_iff.mpr ⟨sign, digits, [], hreads, hlt, rfl⟩
  rw [getEnv_of_some hname, hok]
  cases sign with
  | none => rfl
  | plus => rfl
  | minus => exact absurd rfl hsign

/-- A tiny limit with a unit. -/
def unitSuffix : List Char := ['6', '4', 'k']

/-- The unit is not looked at. -/
theorem unitSuffix_misread :
    getEnv parseSize (fun _ => some unitSuffix) "HWMALLOC_TINY_LIMIT" defaultArgs.tinyLimit = 64 ∧
      (∀ v, ¬Denotes unitSuffix v) ∧ ¬TakenWhole unitSuffix defaultArgs.tinyLimit := by
  have hreads : Reads unitSuffix .none ['6', '4'] ['k'] :=
    ⟨⟨[], List.forall_mem_nil _, rfl⟩, by decide, List.all_eq_true.mp rfl,
      fun c hc => by cases hc; rfl⟩
  have hmisread : Misread unitSuffix defaultArgs.tinyLimit :=
    ⟨_, _, _, hreads, Or.inr (by decide), by decide, by decide⟩
  have hread : getEnv parseSize (fun _ => some unitSuffix) "HWMALLOC_TINY_LIMIT"
      defaultArgs.tinyLimit = 64 := by decide
  exact ⟨hread, hmisread.not_denotes, fun h =>
    hmisread.not_denotes 64 ((h _ "HWMALLOC_TINY_LIMIT" rfl).1 64 hread (by decide))⟩

end HwMalloc
