import HwMalloc.SizeT

/-!
# HwMalloc.HeapConfig

`heap_config`: the size limits of the heap, rounded to powers of two, the
counts derived from them, and the validation that rejects a configuration.

The constructor rounds six arguments with `roundToPowOf2` and then checks two
conditions: the first reads the rounded members, the second the raw
parameters. `heapConfig` keeps that order and the texts of both exceptions.

Every rounded value is a power of two below `2 ^ 32`, whatever the argument,
so an accepted configuration always has the form `HeapConfig.Shape`; this is
what the table of size classes is computed from. That a rounded value is at
least its argument holds only up to `2 ^ 31`, where the shift fits.
-/

namespace HwMalloc

/-! ### `detail::log2_c` and `detail::round_to_pow_of_2` -/

/-- `detail::log2_c`: the bit length of `n`, with `log2_c(0) = 1`. -/
def log2C (n : Nat) : Nat :=
  if n < 2 then 1 else 1 + log2C (n >>> 1)
termination_by n
decreasing_by
  rw [Nat.shiftRight_eq_div_pow]
  omega

/-- `detail::round_to_pow_of_2`. -/
def roundToPowOf2 (n : Nat) : Nat := shlOneU (log2C (subSize n 1))

theorem log2C_eq (n : Nat) : log2C n = Nat.log2 n + 1 := by
  induction n using Nat.strongRecOn with
  | ind n ih =>
    rw [log2C, Nat.log2_def]
    by_cases h : n < 2
    · rw [if_pos h, if_neg (by omega)]
    · rw [if_neg h, if_pos (by omega), Nat.shiftRight_eq_div_pow, Nat.pow_one,
        ih (n / 2) (by omega)]
      omega

@[simp] theorem log2C_two_pow (k : Nat) : log2C (2 ^ k) = k + 1 := by
  rw [log2C_eq, Nat.log2_two_pow]

theorem roundToPowOf2_two_pow_form (n : Nat) : ∃ k, k < 32 ∧ roundToPowOf2 n = 2 ^ k :=
  ⟨_, Nat.mod_lt _ (by omega), rfl⟩

/-- Up to `2 ^ 31` the shift count stays below 32. -/
theorem roundToPowOf2_eq {n : Nat} (h1 : 1 ≤ n) (h2 : n ≤ 2 ^ 31) :
    roundToPowOf2 n = 2 ^ (Nat.log2 (n - 1) + 1) := by
  have hlog : Nat.log2 (n - 1) < 31 := Lib.log2_lt_of_lt (by omega) (by omega)
  rw [roundToPowOf2, subSize_of_le h1 (by unfold sizeMod; omega), log2C_eq,
    shlOneU_of_lt (by omega)]

theorem roundToPowOf2_leastPow {n : Nat} (h1 : 2 ≤ n) (h2 : n ≤ 2 ^ 31) :
    Lib.LeastPow (roundToPowOf2 n) n := by
  rw [roundToPowOf2_eq (by omega) h2]
  exact Lib.leastPow_log2 h1

theorem roundToPowOf2_mono {m n : Nat} (h1 : 1 ≤ m) (hmn : m ≤ n) (h2 : n ≤ 2 ^ 31) :
    roundToPowOf2 m ≤ roundToPowOf2 n := by
  rw [roundToPowOf2_eq h1 (by omega), roundToPowOf2_eq (by omega) h2]
  have := Lib.log2_mono (m := m - 1) (n := n - 1) (by omega)
  exact Nat.pow_le_pow_right (by omega) (by omega)

/-- A positive power of two is its own rounding. -/
theorem roundToPowOf2_two_pow {k : Nat} (h1 : 1 ≤ k) (h2 : k < 32) :
    roundToPowOf2 (2 ^ k) = 2 ^ k := by
  obtain ⟨j, rfl⟩ : ∃ j, k = j + 1 := ⟨k - 1, by omega⟩
  have hle : 2 ^ (j + 1) ≤ 2 ^ 31 := Nat.pow_le_pow_right (by omega) (by omega)
  rw [roundToPowOf2_eq Nat.one_le_two_pow hle, Lib.log2_two_pow_sub_one]

/-! ### The configuration -/

/-- The arguments of the `heap_config` constructor. -/
structure HeapConfigArgs where
  neverFree : Bool
  numReserveSegments : Nat
  tinyLimit : Nat
  smallLimit : Nat
  largeLimit : Nat
  tinySegmentSize : Nat
  smallSegmentSize : Nat
  largeSegmentSize : Nat
  deriving Repr, DecidableEq

/-- The six arguments that are sizes. -/
def HeapConfigArgs.sizes (a : HeapConfigArgs) : List Nat :=
  [a.tinyLimit, a.smallLimit, a.largeLimit, a.tinySegmentSize, a.smallSegmentSize,
    a.largeSegmentSize]

/-- Every size argument lies between `lo` and `hi`. -/
def HeapConfigArgs.SizesIn (lo hi : Nat) (a : HeapConfigArgs) : Prop :=
  ∀ n ∈ a.sizes, lo ≤ n ∧ n ≤ hi

instance (lo hi : Nat) (a : HeapConfigArgs) : Decidable (a.SizesIn lo hi) :=
  inferInstanceAs (Decidable (∀ n ∈ a.sizes, lo ≤ n ∧ n ≤ hi))

theorem HeapConfigArgs.sizesIn_iff {lo hi : Nat} {a : HeapConfigArgs} :
    a.SizesIn lo hi ↔
      (lo ≤ a.tinyLimit ∧ a.tinyLimit ≤ hi) ∧ (lo ≤ a.smallLimit ∧ a.smallLimit ≤ hi) ∧
      (lo ≤ a.largeLimit ∧ a.largeLimit ≤ hi) ∧
      (lo ≤ a.tinySegmentSize ∧ a.tinySegmentSize ≤ hi) ∧
      (lo ≤ a.smallSegmentSize ∧ a.smallSegmentSize ≤ hi) ∧
      (lo ≤ a.largeSegmentSize ∧ a.largeSegmentSize ≤ hi) := by
  simp [SizesIn, sizes]

/-- The members of `heap_config`. -/
structure HeapConfig where
  neverFree : Bool
  numReserveSegments : Nat
  tinyLimit : Nat
  smallLimit : Nat
  largeLimit : Nat
  bucketShift : Nat
  tinySegmentSize : Nat
  smallSegmentSize : Nat
  largeSegmentSize : Nat
  numTinyHeaps : Nat
  numSmallHeaps : Nat
  numLargeHeaps : Nat
  deriving Repr, DecidableEq

/-- `heap_config::m_tiny_increment_shift`. -/
def tinyIncrementShift : Nat := 3

/-- `heap_config::m_tiny_increment`. -/
def tinyIncrement : Nat := shlOneU tinyIncrementShift

@[simp] theorem tinyIncrement_eq : tinyIncrement = 8 := by decide

/-- The member initializers of `heap_config`, in declaration order: the default
initializers of the derived members read the rounded limits. -/
def HeapConfig.init (a : HeapConfigArgs) : HeapConfig :=
  let tinyLimit := roundToPowOf2 a.tinyLimit
  let smallLimit := roundToPowOf2 a.smallLimit
  let largeLimit := roundToPowOf2 a.largeLimit
  { neverFree := a.neverFree
    numReserveSegments := a.numReserveSegments
    tinyLimit := tinyLimit
    smallLimit := smallLimit
    largeLimit := largeLimit
    bucketShift := subSize (log2C tinyLimit) 1
    tinySegmentSize := roundToPowOf2 a.tinySegmentSize
    smallSegmentSize := roundToPowOf2 a.smallSegmentSize
    largeSegmentSize := roundToPowOf2 a.largeSegmentSize
    numTinyHeaps := tinyLimit / tinyIncrement
    numSmallHeaps := subSize (log2C smallLimit) (log2C tinyLimit)
    numLargeHeaps := subSize (log2C largeLimit) (log2C smallLimit) }

/-- The text of the exception for limits that are not increasing. -/
def limitOrderError (c : HeapConfig) : String :=
  "Invalid heap size configuration: HWMALLOC_TINY_LIMIT < HWMALLOC_SMALL_LIMIT < " ++
    "HWMALLOC_LARGE_LIMIT must hold. " ++
    "Got HWMALLOC_TINY_LIMIT=" ++ toString c.tinyLimit ++
    ", HWMALLOC_SMALL_LIMIT=" ++ toString c.smallLimit ++
    ", HWMALLOC_LARGE_LIMIT=" ++ toString c.largeLimit ++ "."

/-- The text of the exception for a limit above its segment size. -/
def segmentSizeError (c : HeapConfig) : String :=
  "Invalid heap size configuration: Limits must be at most segment sizes. " ++
    "Got HWMALLOC_TINY_LIMIT=" ++ toString c.tinyLimit ++
    ", HWMALLOC_TINY_SEGMENT_SIZE=" ++ toString c.tinySegmentSize ++
    ", HWMALLOC_SMALL_LIMIT=" ++ toString c.smallLimit ++
    ", HWMALLOC_SMALL_SEGMENT_SIZE=" ++ toString c.smallSegmentSize ++
    ", HWMALLOC_LARGE_LIMIT=" ++ toString c.largeLimit ++
    ", HWMALLOC_LARGE_SEGMENT_SIZE=" ++ toString c.largeSegmentSize ++ "."

/-- `heap_config::heap_config`. The first check reads the rounded members, the
second one the raw parameters. -/
def heapConfig (a : HeapConfigArgs) : Except String HeapConfig :=
  let c := HeapConfig.init a
  if ¬(c.tinyLimit < c.smallLimit ∧ c.smallLimit < c.largeLimit) then
    .error (limitOrderError c)
  else if ¬(a.tinyLimit ≤ a.tinySegmentSize ∧ a.smallLimit ≤ a.smallSegmentSize ∧
      a.largeLimit ≤ a.largeSegmentSize) then
    .error (segmentSizeError c)
  else .ok c

/-- The arguments made of the default values of `heap_config`. -/
def defaultArgs : HeapConfigArgs :=
  { neverFree := false
    numReserveSegments := 16
    tinyLimit := 128
    smallLimit := 4096
    largeLimit := 2097152
    tinySegmentSize := 65536
    smallSegmentSize := 65536
    largeSegmentSize := 2097152 }

/-- The configuration that the tests expect from the default arguments. -/
def defaultConfig : HeapConfig :=
  { neverFree := false
    numReserveSegments := 16
    tinyLimit := 128
    smallLimit := 4096
    largeLimit := 2097152
    bucketShift := 7
    tinySegmentSize := 65536
    smallSegmentSize := 65536
    largeSegmentSize := 2097152
    numTinyHeaps := 16
    numSmallHeaps := 5
    numLargeHeaps := 9 }

/-! ### What an accepted configuration looks like -/

/-- What the constructor checked, and what it then returns. -/
theorem heapConfig_ok_iff {a : HeapConfigArgs} {c : HeapConfig} :
    heapConfig a = .ok c ↔
      c = HeapConfig.init a ∧ (c.tinyLimit < c.smallLimit ∧ c.smallLimit < c.largeLimit) ∧
        a.tinyLimit ≤ a.tinySegmentSize ∧ a.smallLimit ≤ a.smallSegmentSize ∧
        a.largeLimit ≤ a.largeSegmentSize := by
  unfold heapConfig
  dsimp only
  split
  · next h =>
    constructor
    · intro h'
      cases h'
    · rintro ⟨rfl, h', -⟩
      exact absurd h' h
  · next h =>
    split
    · next h2 =>
      constructor
      · intro h'
        cases h'
      · rintro ⟨-, -, h'⟩
        exact absurd h' h2
    · next h2 =>
      constructor
      · intro h'
        obtain rfl := Except.ok.inj h'
        exact ⟨rfl, not_not.mp h, not_not.mp h2⟩
      · rintro ⟨rfl, -, -⟩
        rfl

theorem heapConfig_default : heapConfig defaultArgs = .ok defaultConfig := by
  refine heapConfig_ok_iff.mpr ⟨?_, by decide, by decide⟩
  simp only [HeapConfig.init, roundToPowOf2, log2C_eq]
  decide

/-- The limits of a configuration are `2 ^ t < 2 ^ s < 2 ^ l`, and the derived
members are the differences of these exponents. -/
structure HeapConfig.Shape (c : HeapConfig) (t s l : Nat) : Prop where
  tinyLimit : c.tinyLimit = 2 ^ t
  smallLimit : c.smallLimit = 2 ^ s
  largeLimit : c.largeLimit = 2 ^ l
  tiny_lt_small : t < s
  small_lt_large : s < l
  large_lt : l < 32
  bucketShift : c.bucketShift = t
  numSmallHeaps : c.numSmallHeaps = s - t
  numLargeHeaps : c.numLargeHeaps = l - s

theorem HeapConfig.Shape.tiny_lt {c : HeapConfig} {t s l : Nat} (h : c.Shape t s l) : t < 32 :=
  (h.tiny_lt_small.trans h.small_lt_large).trans h.large_lt

/-- Every accepted configuration has this shape, from any arguments at all. -/
theorem heapConfig_shape {a : HeapConfigArgs} {c : HeapConfig} (h : heapConfig a = .ok c) :
    ∃ t s l, c.Shape t s l := by
  obtain ⟨rfl, ⟨hts, hsl⟩, -⟩ := heapConfig_ok_iff.mp h
  obtain ⟨t, ht, htE⟩ := roundToPowOf2_two_pow_form a.tinyLimit
  obtain ⟨s, hs, hsE⟩ := roundToPowOf2_two_pow_form a.smallLimit
  obtain ⟨l, hl, hlE⟩ := roundToPowOf2_two_pow_form a.largeLimit
  simp only [HeapConfig.init, htE, hsE, hlE] at hts hsl
  have hts' : t < s := (Nat.pow_lt_pow_iff_right (by omega)).mp hts
  have hsl' : s < l := (Nat.pow_lt_pow_iff_right (by omega)).mp hsl
  have hmod : l + 1 < sizeMod := by
    unfold sizeMod
    omega
  have hcount : ∀ {i j : Nat}, i ≤ j → j ≤ l → subSize (j + 1) (i + 1) = j - i := by
    intro i j hij hj
    rw [subSize_of_le (by omega) (by omega)]
    omega
  exact ⟨t, s, l,
    { tinyLimit := htE
      smallLimit := hsE
      largeLimit := hlE
      tiny_lt_small := hts'
      small_lt_large := hsl'
      large_lt := hl
      bucketShift := by
        simp only [HeapConfig.init, htE, log2C_two_pow]
        exact hcount (Nat.zero_le t) (by omega)
      numSmallHeaps := by
        simp only [HeapConfig.init, htE, hsE, log2C_two_pow]
        exact hcount (by omega) (by omega)
      numLargeHeaps := by
        simp only [HeapConfig.init, hsE, hlE, log2C_two_pow]
        exact hcount (by omega) (by omega) }⟩

/-- With size arguments that the shift can represent, the check of the raw
limits against the raw segment sizes survives the rounding. -/
theorem heapConfig_segments_le {a : HeapConfigArgs} {c : HeapConfig}
    (h : heapConfig a = .ok c) (hr : a.SizesIn 1 (2 ^ 31)) :
    c.tinyLimit ≤ c.tinySegmentSize ∧ c.smallLimit ≤ c.smallSegmentSize ∧
      c.largeLimit ≤ c.largeSegmentSize := by
  obtain ⟨rfl, -, ht, hs, hl⟩ := heapConfig_ok_iff.mp h
  obtain ⟨h1, h2, h3, h4, h5, h6⟩ := HeapConfigArgs.sizesIn_iff.mp hr
  exact ⟨roundToPowOf2_mono h1.1 ht h4.2, roundToPowOf2_mono h2.1 hs h5.2,
    roundToPowOf2_mono h3.1 hl h6.2⟩

end HwMalloc
