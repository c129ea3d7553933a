import HwMalloc.HeapConfig

/-!
# HwMalloc.ConfigValidity

Which arguments the constructor of `heap_config` accepts, seen from the values
that are in force afterwards. These are the rounded ones: they are stored, and
they are printed when a configuration is rejected. The first check reads them;
the second one compares the raw limits with the raw segment sizes.

The rounding is monotone, so the second check never lets a rounded limit above
its rounded segment size. But it also rejects a raw limit above its segment size
when both round to the same power of two. `validity_of_rounded_iff` says that
this is the only difference.
-/

namespace HwMalloc

namespace HeapConfigArgs

/-- The values in force. -/
def rounded (a : HeapConfigArgs) : HeapConfigArgs :=
  { a with
    tinyLimit := roundToPowOf2 a.tinyLimit
    smallLimit := roundToPowOf2 a.smallLimit
    largeLimit := roundToPowOf2 a.largeLimit
    tinySegmentSize := roundToPowOf2 a.tinySegmentSize
    smallSegmentSize := roundToPowOf2 a.smallSegmentSize
    largeSegmentSize := roundToPowOf2 a.largeSegmentSize }

/-- The limits are increasing. -/
def LimitsIncrease (a : HeapConfigArgs) : Prop :=
  a.tinyLimit < a.smallLimit ∧ a.smallLimit < a.largeLimit

/-- Each limit is at most its segment size. -/
def LimitsFit (a : HeapConfigArgs) : Prop :=
  a.tinyLimit ≤ a.tinySegmentSize ∧ a.smallLimit ≤ a.smallSegmentSize ∧
    a.largeLimit ≤ a.largeSegmentSize

/-- The constructor does not throw. -/
def Accepted (a : HeapConfigArgs) : Prop := ∃ c, heapConfig a = .ok c

/-- Every size rounds to the same power of two. -/
def SameRounding (a b : HeapConfigArgs) : Prop :=
  a.sizes.map roundToPowOf2 = b.sizes.map roundToPowOf2

instance (a : HeapConfigArgs) : Decidable a.LimitsFit :=
  inferInstanceAs (Decidable (_ ∧ _))

end HeapConfigArgs

/-- The arguments that rebuild a configuration from its own fields. -/
def HeapConfig.args (c : HeapConfig) : HeapConfigArgs where
  neverFree := c.neverFree
  numReserveSegments := c.numReserveSegments
  tinyLimit := c.tinyLimit
  smallLimit := c.smallLimit
  largeLimit := c.largeLimit
  tinySegmentSize := c.tinySegmentSize
  smallSegmentSize := c.smallSegmentSize
  largeSegmentSize := c.largeSegmentSize

/-! ### What is accepted

A configuration can be rebuilt from its own members: the rounding does nothing to what
is rounded already, and both checks hold of it. -/

variable {a b : HeapConfigArgs} {c d : HeapConfig}

/-- The first check reads the rounded limits, the second one the raw ones. -/
theorem accepted_iff : a.Accepted ↔ a.rounded.LimitsIncrease ∧ a.LimitsFit := by
  constructor
  · intro h
    obtain ⟨c, hc⟩ := h
    obtain ⟨rfl, hincrease, hfit⟩ := heapConfig_ok_iff.mp hc
    exact ⟨hincrease, hfit⟩
  · intro h
    exact ⟨HeapConfig.init a, heapConfig_ok_iff.mpr ⟨rfl, h.1, h.2⟩⟩

/-- An accepted configuration stores the values in force. -/
theorem args_of_ok (h : heapConfig a = .ok c) : c.args = a.rounded := by
  obtain ⟨rfl, -⟩ := heapConfig_ok_iff.mp h
  rfl

/-- Rounded limits fit if the raw ones do. -/
theorem rounded_limitsFit (hr : a.SizesIn 1 (2 ^ 31)) (h : a.LimitsFit) :
    a.rounded.LimitsFit := by
  obtain ⟨ht, hs, hl, hts, hss, hls⟩ := HeapConfigArgs.sizesIn_iff.mp hr
  exact ⟨roundToPowOf2_mono ht.1 h.1 hts.2, roundToPowOf2_mono hs.1 h.2.1 hss.2,
    roundToPowOf2_mono hl.1 h.2.2 hls.2⟩

/-- A rounded size is its own rounding. -/
theorem roundToPowOf2_idem {n : Nat} (h1 : 1 ≤ n) (h2 : n ≤ 2 ^ 31) :
    roundToPowOf2 (roundToPowOf2 n) = roundToPowOf2 n := by
  have hlog : Nat.log2 (n - 1) < 31 := Lib.log2_lt_of_lt (by omega) (by omega)
  rw [roundToPowOf2_eq h1 h2]
  exact roundToPowOf2_two_pow (Nat.le_add_left 1 _) (by omega)

theorem rounded_rounded (hr : a.SizesIn 1 (2 ^ 31)) : a.rounded.rounded = a.rounded := by
  obtain ⟨ht, hs, hl, hts, hss, hls⟩ := HeapConfigArgs.sizesIn_iff.mp hr
  simp only [HeapConfigArgs.rounded, roundToPowOf2_idem ht.1 ht.2, roundToPowOf2_idem hs.1 hs.2,
    roundToPowOf2_idem hl.1 hl.2, roundToPowOf2_idem hts.1 hts.2, roundToPowOf2_idem hss.1 hss.2,
    roundToPowOf2_idem hls.1 hls.2]

/-- The members are computed from the values in force. -/
theorem init_congr (h : a.rounded = b.rounded) : HeapConfig.init a = HeapConfig.init b := by
  simp only [HeapConfigArgs.rounded, HeapConfigArgs.mk.injEq] at h
  obtain ⟨hnever, hreserve, ht, hs, hl, hts, hss, hls⟩ := h
  simp only [HeapConfig.init, hnever, hreserve, ht, hs, hl, hts, hss, hls]

/-- A configuration is rebuilt from its own fields. -/
theorem rebuild_of_ok (hr : a.SizesIn 1 (2 ^ 31)) (h : heapConfig a = .ok c) :
    heapConfig c.args = .ok c := by
  obtain ⟨hinit, hincrease, hfit⟩ := heapConfig_ok_iff.mp h
  rw [args_of_ok h]
  refine heapConfig_ok_iff.mpr ⟨?_, hincrease, rounded_limitsFit hr hfit⟩
  rw [hinit, init_congr (rounded_rounded hr)]

/-! ### The values in force

The first check is one of the rounded values as it stands; so the question is about the
second one. -/

/-- The limit is above the segment size, and both round to the same power of two. -/
def ExceedsUnseen (limit segmentSize : Nat) : Prop :=
  segmentSize < limit ∧ roundToPowOf2 limit = roundToPowOf2 segmentSize

/-- The values in force are in order, and one of the limits is above its segment size
where the rounding does not show it. -/
def HeapConfigArgs.Masked (a : HeapConfigArgs) : Prop :=
  a.rounded.LimitsIncrease ∧ a.rounded.LimitsFit ∧
    (ExceedsUnseen a.tinyLimit a.tinySegmentSize ∨ ExceedsUnseen a.smallLimit a.smallSegmentSize ∨
      ExceedsUnseen a.largeLimit a.largeSegmentSize)

/-- Under rounded values in order, a limit above its segment size is one that the
rounding does not show. -/
theorem exceedsUnseen_iff {m n : Nat} (hn : 1 ≤ n) (hm : m ≤ 2 ^ 31)
    (hfit : roundToPowOf2 m ≤ roundToPowOf2 n) : ExceedsUnseen m n ↔ ¬m ≤ n := by
  rw [not_le]
  exact ⟨And.left, fun hlt => ⟨hlt, hfit.antisymm (roundToPowOf2_mono hn hlt.le hm)⟩⟩

/-- A masked tuple is one that only the second check rejects. -/
theorem masked_iff (hr : a.SizesIn 1 (2 ^ 31)) :
    a.Masked ↔ a.rounded.LimitsIncrease ∧ a.rounded.LimitsFit ∧ ¬a.LimitsFit := by
  obtain ⟨ht, hs, hl, hts, hss, hls⟩ := HeapConfigArgs.sizesIn_iff.mp hr
  refine and_congr_right fun _ => and_congr_right fun hfit => ?_
  rw [HeapConfigArgs.LimitsFit, not_and_or, not_and_or, exceedsUnseen_iff hts.1 ht.2 hfit.1,
    exceedsUnseen_iff hss.1 hs.2 hfit.2.1, exceedsUnseen_iff hls.1 hl.2 hfit.2.2]

/-- Whether `a` and `b` are accepted, and as what, is decided by the values in
force. -/
structure DecidedByRounded (a b : HeapConfigArgs) : Prop where
  left : a.Accepted ↔ a.rounded.LimitsIncrease ∧ a.rounded.LimitsFit
  right : b.Accepted ↔ b.rounded.LimitsIncrease ∧ b.rounded.LimitsFit
  both : a.Accepted ↔ b.Accepted
  equal : a.neverFree = b.neverFree → a.numReserveSegments = b.numReserveSegments →
    ∀ c d, heapConfig a = .ok c → heapConfig b = .ok d → c = d
  rebuild_left : ∀ c, heapConfig a = .ok c → heapConfig c.args = .ok c
  rebuild_right : ∀ c, heapConfig b = .ok c → heapConfig c.args = .ok c

/-- Without masking, the two views of the arguments agree. -/
theorem accepted_iff_rounded (hr : a.SizesIn 1 (2 ^ 31)) :
    (a.Accepted ↔ a.rounded.LimitsIncrease ∧ a.rounded.LimitsFit) ↔ ¬a.Masked := by
  rw [accepted_iff, masked_iff hr]
  constructor
  · intro h hmasked
    obtain ⟨hincrease, hfit, hraw⟩ := hmasked
    exact hraw (h.mpr ⟨hincrease, hfit⟩).2
  · intro h
    refine and_congr_right fun hincrease => ⟨rounded_limitsFit hr, fun hfit => ?_⟩
    by_contra hraw
    exact h ⟨hincrease, hfit, hraw⟩

/-- Sizes with the same rounding put the same values in force. -/
theorem HeapConfigArgs.SameRounding.rounded_eq (h : a.SameRounding b) :
    b.rounded = { a.rounded with
      neverFree := b.neverFree
      numReserveSegments := b.numReserveSegments } := by
  simp only [SameRounding, sizes, List.map_cons, List.map_nil, List.cons.injEq] at h
  obtain ⟨ht, hs, hl, hts, hss, hls, -⟩ := h
  simp only [rounded, ht, hs, hl, hts, hss, hls]

theorem limits_congr (h : a.SameRounding b) :
    (a.rounded.LimitsIncrease ∧ a.rounded.LimitsFit ↔
      b.rounded.LimitsIncrease ∧ b.rounded.LimitsFit) := by
  rw [h.rounded_eq]
  exact Iff.rfl

theorem rounded_congr (h : a.SameRounding b) (hnever : a.neverFree = b.neverFree)
    (hreserve : a.numReserveSegments = b.numReserveSegments) : a.rounded = b.rounded := by
  rw [h.rounded_eq, ← hnever, ← hreserve]
  rfl

/-- For any two tuples of sizes that round to the same powers of two, the values
in force decide exactly when neither of them is masked. -/
theorem validity_of_rounded_iff (ha : a.SizesIn 1 (2 ^ 31)) (hb : b.SizesIn 1 (2 ^ 31))
    (hround : a.SameRounding b) : DecidedByRounded a b ↔ ¬a.Masked ∧ ¬b.Masked := by
  constructor
  · intro h
    exact ⟨(accepted_iff_rounded ha).mp h.left, (accepted_iff_rounded hb).mp h.right⟩
  · intro h
    have hleft := (accepted_iff_rounded ha).mpr h.1
    have hright := (accepted_iff_rounded hb).mpr h.2
    refine ⟨hleft, hright, hleft.trans ((limits_congr hround).trans hright.symm),
      fun hnever hreserve c d hc hd => ?_, fun c => rebuild_of_ok ha, fun c => rebuild_of_ok hb⟩
    obtain ⟨rfl, -⟩ := heapConfig_ok_iff.mp hc
    obtain ⟨rfl, -⟩ := heapConfig_ok_iff.mp hd
    exact init_congr (rounded_congr hround hnever hreserve)

/-- Sizes that are no powers of two. -/
def unevenArgs : HeapConfigArgs :=
  { neverFree := false
    numReserveSegments := 17
    tinyLimit := 200
    smallLimit := 500
    largeLimit := 20000
    tinySegmentSize := 1000
    smallSegmentSize := 3000
    largeSegmentSize := 100000 }

/-- What they round to. -/
def evenArgs : HeapConfigArgs :=
  { unevenArgs with
    tinyLimit := 256
    smallLimit := 512
    largeLimit := 32768
    tinySegmentSize := 1024
    smallSegmentSize := 4096
    largeSegmentSize := 131072 }

theorem sameRounding_uneven : unevenArgs.SameRounding evenArgs := by
  simp only [HeapConfigArgs.SameRounding, HeapConfigArgs.sizes, List.map_cons, List.map_nil,
    roundToPowOf2, log2C_eq]
  decide

theorem validity_of_rounded_iff_uneven :
    DecidedByRounded unevenArgs evenArgs ↔ ¬unevenArgs.Masked ∧ ¬evenArgs.Masked :=
  validity_of_rounded_iff (by decide) (by decide) sameRounding_uneven

/-- Tiny limit 70 and tiny segments of 100 bytes. -/
def unmaskedArgs : HeapConfigArgs :=
  { defaultArgs with tinyLimit := 70, tinySegmentSize := 100 }

/-- The same numbers, exchanged. -/
def maskedArgs : HeapConfigArgs :=
  { defaultArgs with tinyLimit := 100, tinySegmentSize := 70 }

theorem sameRounding_masked : unmaskedArgs.SameRounding maskedArgs := by
  simp only [HeapConfigArgs.SameRounding, HeapConfigArgs.sizes, List.map_cons, List.map_nil,
    roundToPowOf2, log2C_eq]
  decide

/-- Both tiny values round to 128, and only the first tuple is accepted. -/
theorem masked_rejected :
    unmaskedArgs.SizesIn 1 (2 ^ 31) ∧ maskedArgs.SizesIn 1 (2 ^ 31) ∧
      unmaskedArgs.SameRounding maskedArgs ∧
      unmaskedArgs.Accepted ∧ ¬maskedArgs.Accepted ∧
      ¬DecidedByRounded unmaskedArgs maskedArgs := by
  have haccepted : unmaskedArgs.Accepted := by
    refine accepted_iff.mpr ⟨?_, by decide⟩
    simp only [HeapConfigArgs.LimitsIncrease, HeapConfigArgs.rounded, roundToPowOf2, log2C_eq]
    decide
  have hrejected : ¬maskedArgs.Accepted := fun h => absurd (accepted_iff.mp h).2 (by decide)
  exact ⟨by decide, by decide, sameRounding_masked, haccepted, hrejected,
    fun h => hrejected (h.both.mp haccepted)⟩

end HwMalloc
