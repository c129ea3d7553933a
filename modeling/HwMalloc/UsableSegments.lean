import HwMalloc.HeapTables
import HwMalloc.Pool

/-!
# HwMalloc.UsableSegments

The loop of `allocate` ends because a segment holds a block. Whether it does is
a matter of the configuration, and the three places that decide it look at different
numbers: the constructor of the configuration compares the arguments, the heaps use the
rounded values, and `add_segment` rounds up to whole pages.

A heap is usable if a block fits in a segment of whole pages (`FixedSizeHeap.Usable`).
For a table this is a condition on its largest class, since the segment size is the
same in each range of classes and the blocks grow. `segments_usable_iff` says which
accepted arguments give heaps that can all be served.
-/

namespace HwMalloc

/-! ### Whole pages

The product of the pages and their size may wrap, and is then too small for the block. -/

/-- A block of `limit` bytes fits in a segment of `segment` bytes, rounded up to
whole pages without overflow. -/
def SegmentFits (page limit segment : Nat) : Prop :=
  page + segment ≤ 2 ^ 64 ∧ limit ≤ (segment + page - 1) / page * page

/-- The bytes of one segment: the sum in `num_pages` overflows for the largest
page sizes, and the segment then has no page at all. -/
theorem segmentBytes_eq {sys : System} {segment : Nat} (hpage : 0 < sys.pageSize)
    (hpage' : sys.pageSize < 2 ^ 64) (hseg : 0 < segment) (hseg' : segment < 2 ^ 32) :
    segmentBytes sys segment =
      if sys.pageSize + segment ≤ 2 ^ 64 then
        (segment + sys.pageSize - 1) / sys.pageSize * sys.pageSize
      else 0 := by
  unfold segmentBytes numPages
  by_cases hsum : sys.pageSize + segment ≤ 2 ^ 64
  · have hup : subSize (addSize segment sys.pageSize) 1 = segment + sys.pageSize - 1 := by
      unfold subSize addSize sizeMod
      omega
    have hle := Nat.div_mul_le_self (segment + sys.pageSize - 1) sys.pageSize
    rw [if_pos hsum, hup, mulSize_of_lt (by unfold sizeMod; omega)]
  · have hup : subSize (addSize segment sys.pageSize) 1 < sys.pageSize := by
      unfold subSize addSize sizeMod
      omega
    rw [if_neg hsum, Nat.div_eq_of_lt hup, mulSize, Nat.zero_mul, Nat.zero_mod]

theorem le_segmentBytes_iff {sys : System} {limit segment : Nat} (hpage : 0 < sys.pageSize)
    (hpage' : sys.pageSize < 2 ^ 64) (hlimit : 0 < limit) (hseg : 0 < segment)
    (hseg' : segment < 2 ^ 32) :
    limit ≤ segmentBytes sys segment ↔ SegmentFits sys.pageSize limit segment := by
  rw [segmentBytes_eq hpage hpage' hseg hseg', SegmentFits]
  by_cases hsum : sys.pageSize + segment ≤ 2 ^ 64
  · rw [if_pos hsum]
    exact ⟨fun h => ⟨hsum, h⟩, fun h => h.2⟩
  · rw [if_neg hsum]
    exact iff_of_false (by omega) fun h => hsum h.1

/-! ### The loop

With a block in the segment the loop ends after the first segment, for one thread. -/

variable {C : Context}

/-- With at least one block in each segment, the loop ends once its first
`add_segment` has succeeded, and calls it at most once. -/
theorem growLoop_ends {sys : System} {grow : Nat → GrowEnv C} {w w₁ : World C} {p p₁ : Pool C}
    (hN : 1 ≤ segmentBlocks sys p.toPoolParams)
    (hadd : addSegment sys (grow 0) w p = (.ok (), w₁, p₁)) {fuel : Nat} (hfuel : 2 ≤ fuel) :
    ∃ b counter w' p', growLoop sys grow fuel 0 w p = some (.ok (b, counter), w', p') ∧
      counter ≤ 1 := by
  obtain ⟨fuel, rfl⟩ : ∃ k, fuel = k + 2 := ⟨fuel - 2, by omega⟩
  rw [growLoop]
  cases hpop : p.popFree with
  | some bp => exact ⟨_, _, _, _, rfl, by omega⟩
  | none =>
    obtain ⟨g, hnew, hgrown⟩ := addSegment_ok hadd
    dsimp only
    rw [if_pos rfl, Nat.zero_div, hadd]
    dsimp only
    rw [growLoop]
    cases hpop₁ : p₁.popFree with
    | some bp => exact ⟨_, _, _, _, rfl, by omega⟩
    | none =>
      -- The new segment has blocks, so this pop does not fail.
      have hlen := congrArg List.length (popFree_eq_none.mp hpop₁)
      rw [hgrown.pool] at hlen
      simp only [List.length_append, Segment.blocks_length, List.length_nil,
        hnew.numBlocks] at hlen
      omega

/-- The pools of a heap have its block size and its segment size. -/
theorem FixedSizeHeap.pools_sizes {topo : Topology} {b g : Nat} {never : Bool} {r : Nat}
    {p : PoolParams}
    (hp : some p ∈ (fixedSizeHeap topo b g never r).pools ∨
      some p ∈ (fixedSizeHeap topo b g never r).devicePools) :
    p.blockSize = b ∧ p.segmentSize = g := by
  rcases hp with hp | hp
  · obtain ⟨i, hi⟩ := Lib.exists_write_of_mem_fill hp
    obtain ⟨n, -, hn⟩ := List.mem_map.mp hi
    cases hn
    exact ⟨rfl, rfl⟩
  · obtain ⟨i, hi⟩ := Lib.exists_write_of_mem_fill hp
    obtain ⟨n, -, hn⟩ := List.mem_flatMap.mp hi
    obtain ⟨j, -, hj⟩ := List.mem_map.mp hn
    cases hj
    exact ⟨rfl, rfl⟩

/-- The segments of a heap hold at least one block, and the loop of `allocate`
ends for all its pools, after at most one `add_segment`. -/
def FixedSizeHeap.Usable (C : Context) (sys : System) (f : FixedSizeHeap) : Prop :=
  1 ≤ segmentBytes sys f.segmentSize / f.blockSize ∧
    ∀ p : Pool C, some p.toPoolParams ∈ f.pools ∨ some p.toPoolParams ∈ f.devicePools →
      ∀ (grow : Nat → GrowEnv C) (w w₁ : World C) (p₁ : Pool C),
        addSegment sys (grow 0) w p = (.ok (), w₁, p₁) → ∀ fuel, 2 ≤ fuel →
          ∃ b counter w' p', growLoop sys grow fuel 0 w p = some (.ok (b, counter), w', p') ∧
            counter ≤ 1

theorem makeFixedSizeHeap_usable_iff {topo : Topology} {c : HeapConfig} {sys : System}
    {b g : Nat} (hb : 0 < b) :
    (makeFixedSizeHeap topo c b g).Usable C sys ↔ b ≤ segmentBytes sys g := by
  have hdiv : 1 ≤ segmentBytes sys g / b ↔ b ≤ segmentBytes sys g :=
    ⟨fun h => (Nat.div_pos_iff.mp h).2, fun h => Nat.div_pos h hb⟩
  rw [← hdiv]
  refine ⟨fun h => h.1, fun h => ⟨h, ?_⟩⟩
  intro p hp grow w w₁ p₁ hadd fuel hfuel
  obtain ⟨hblock, hseg⟩ := FixedSizeHeap.pools_sizes hp
  have hN : 1 ≤ segmentBlocks sys p.toPoolParams := by rwa [segmentBlocks, hblock, hseg]
  exact growLoop_ends hN hadd hfuel

/-! ### The tables

Every entry of the two tables, by its number, and what the largest one decides. -/

section

variable {topo : Topology} {c : HeapConfig} {t s l : Nat}

theorem mem_tinyHeaps_iff {f : FixedSizeHeap} :
    some f ∈ tinyHeaps topo c ↔ ∃ i < numTinySlots c,
      f = makeFixedSizeHeap topo c (mulSize tinyIncrement (i + 1)) c.tinySegmentSize := by
  rw [List.mem_iff_getElem?]
  constructor
  · rintro ⟨i, hi⟩
    have hlt : i < numTinySlots c := by
      simpa [tinyHeaps] using (List.getElem?_eq_some_iff.mp hi).1
    rw [tinyHeaps_getElem? hlt] at hi
    exact ⟨i, hlt, by simpa using hi.symm⟩
  · rintro ⟨i, hlt, hf⟩
    exact ⟨i, by rw [tinyHeaps_getElem? hlt, hf]⟩

theorem mem_heaps_iff (h : c.Shape t s l) {f : FixedSizeHeap} :
    some f ∈ heaps topo c ↔ ∃ i < numSlots c, f = sizedHeap topo c t i := by
  rw [List.mem_iff_getElem?]
  constructor
  · rintro ⟨i, hi⟩
    have hlt : i < numSlots c := by
      simpa [heaps] using (List.getElem?_eq_some_iff.mp hi).1
    rw [heaps_getElem? h hlt] at hi
    exact ⟨i, hlt, by simpa using hi.symm⟩
  · rintro ⟨i, hlt, hf⟩
    exact ⟨i, by rw [heaps_getElem? h hlt, hf]⟩

/-- A property of all tiny classes, by their block sizes. -/
theorem tinyHeaps_forall_iff (h : c.Shape t s l) {P : FixedSizeHeap → Prop} :
    (∀ f, some f ∈ tinyHeaps topo c → P f) ↔
      ∀ i < numTinySlots c, P (makeFixedSizeHeap topo c (8 * (i + 1)) c.tinySegmentSize) := by
  constructor
  · intro hall i hi
    have hP := hall _ (mem_tinyHeaps_iff.mpr ⟨i, hi, rfl⟩)
    rwa [tinyBlockSize_eq h hi] at hP
  · intro hall f hf
    obtain ⟨i, hi, rfl⟩ := mem_tinyHeaps_iff.mp hf
    rw [tinyBlockSize_eq h hi]
    exact hall i hi

/-- A property of all classes above the tiny ones: of the small ones, of the large
ones, and of the one above them, if there is one. -/
theorem heaps_forall_iff (h : c.Shape t s l) {P : FixedSizeHeap → Prop} :
    (∀ f, some f ∈ heaps topo c → P f) ↔
      (∀ k, t < k → k ≤ s → P (makeFixedSizeHeap topo c (2 ^ k) c.smallSegmentSize)) ∧
        (∀ k, s < k → k ≤ l → P (makeFixedSizeHeap topo c (2 ^ k) c.largeSegmentSize)) ∧
        (c.largeLimit < 2 ^ 31 →
          P (makeFixedSizeHeap topo c (2 * c.largeLimit) (2 * c.largeLimit))) := by
  have hts := h.tiny_lt_small
  have hsl := h.small_lt_large
  have hl := h.large_lt
  have hslots := numSlots_eq h
  have hpow : 2 ^ l < 2 ^ 31 ↔ l < 31 := Nat.pow_lt_pow_iff_right (by omega)
  have hdouble : 2 * c.largeLimit = 2 ^ (l + 1) := by
    rw [h.largeLimit, Nat.pow_succ, Nat.mul_comm]
  rw [hdouble, h.largeLimit, hpow]
  constructor
  · intro hall
    have hslot : ∀ k, t < k → k - (t + 1) < numSlots c →
        P (makeFixedSizeHeap topo c (2 ^ k) (if k - (t + 1) < s - t then c.smallSegmentSize
          else if k - (t + 1) < l - t then c.largeSegmentSize else 2 ^ k)) := by
      intro k hk hi
      have hP := hall _ ((mem_heaps_iff h).mpr ⟨k - (t + 1), hi, rfl⟩)
      rwa [sizedHeap, segmentSizeFor_slot h, Nat.add_sub_cancel' hk] at hP
    refine ⟨fun k htk hks => ?_, fun k hsk hkl => ?_, fun hl31 => ?_⟩
    · have hP := hslot k htk (by omega)
      rwa [if_pos (by omega)] at hP
    · have hP := hslot k (by omega) (by omega)
      rwa [if_neg (by omega), if_pos (by omega)] at hP
    · have hP := hslot (l + 1) (by omega) (by omega)
      rwa [if_neg (by omega), if_neg (by omega)] at hP
  · intro hall f hf
    obtain ⟨hsmall, hlarge, htop⟩ := hall
    obtain ⟨i, hi, rfl⟩ := (mem_heaps_iff h).mp hf
    rw [sizedHeap, segmentSizeFor_slot h]
    by_cases his : i < s - t
    · rw [if_pos his]
      exact hsmall _ (by omega) (by omega)
    · rw [if_neg his]
      by_cases hil : i < l - t
      · rw [if_pos hil]
        exact hlarge _ (by omega) (by omega)
      · have heq : t + 1 + i = l + 1 := by omega
        rw [if_neg hil, heq]
        exact htop (by omega)

/-- Of the tiny classes the one with the largest blocks decides. -/
theorem tinyHeaps_usable_iff {sys : System} (h : c.Shape t s l) :
    (∀ f, some f ∈ tinyHeaps topo c → f.Usable C sys) ↔
      (8 ≤ c.tinyLimit → c.tinyLimit ≤ segmentBytes sys c.tinySegmentSize) := by
  have hslots : numTinySlots c = c.tinyLimit / 8 := by rw [numTinySlots, tinyIncrement_eq]
  rw [tinyHeaps_forall_iff h]
  constructor
  · intro hall hle
    have hdvd := h.tinyLimit_dvd (by rw [tinyIncrement_eq]; exact hle)
    have husable := hall (numTinySlots c - 1) (by omega)
    rw [makeFixedSizeHeap_usable_iff (by omega)] at husable
    omega
  · intro hle i hi
    rw [makeFixedSizeHeap_usable_iff (by omega)]
    have hlimit := hle (by omega)
    omega

/-- Of the small and of the large classes the one with the largest blocks
decides; there is at most one class above them. -/
theorem heaps_usable_iff {sys : System} (h : c.Shape t s l) :
    (∀ f, some f ∈ heaps topo c → f.Usable C sys) ↔
      c.smallLimit ≤ segmentBytes sys c.smallSegmentSize ∧
        c.largeLimit ≤ segmentBytes sys c.largeSegmentSize ∧
        (c.largeLimit < 2 ^ 31 →
          2 * c.largeLimit ≤ segmentBytes sys (2 * c.largeLimit)) := by
  have hpos : 0 < c.largeLimit := by
    rw [h.largeLimit]
    exact Nat.two_pow_pos l
  -- Of the blocks up to `2 ^ j` the largest decides.
  have hlast : ∀ i j g : Nat, i < j →
      ((∀ k, i < k → k ≤ j → (makeFixedSizeHeap topo c (2 ^ k) g).Usable C sys) ↔
        2 ^ j ≤ segmentBytes sys g) := by
    intro i j g hij
    simp only [makeFixedSizeHeap_usable_iff (Nat.two_pow_pos _)]
    refine ⟨fun hall => hall j hij le_rfl, fun hle k _ hkj => ?_⟩
    exact (Nat.pow_le_pow_right (by omega) hkj).trans hle
  rw [heaps_forall_iff h, hlast t s _ h.tiny_lt_small, hlast s l _ h.small_lt_large,
    makeFixedSizeHeap_usable_iff (by omega), ← h.smallLimit, ← h.largeLimit]

end

/-! ### The condition on the arguments

In terms of what is passed to `heap_config`, and of the size of a page. -/

/-- After rounding, each limit fits in its segment size, rounded up to whole
pages; a tiny limit below 8 has no classes, and the class above the large limit,
whose segments are as large as its blocks, exists for large limits below
`2 ^ 31`. -/
def RoundedLimitsFit (page : Nat) (a : HeapConfigArgs) : Prop :=
  (8 ≤ roundToPowOf2 a.tinyLimit →
      SegmentFits page (roundToPowOf2 a.tinyLimit) (roundToPowOf2 a.tinySegmentSize)) ∧
    SegmentFits page (roundToPowOf2 a.smallLimit) (roundToPowOf2 a.smallSegmentSize) ∧
    SegmentFits page (roundToPowOf2 a.largeLimit) (roundToPowOf2 a.largeSegmentSize) ∧
    (roundToPowOf2 a.largeLimit < 2 ^ 31 →
      page + 2 * roundToPowOf2 a.largeLimit ≤ 2 ^ 64)

theorem roundToPowOf2_range (n : Nat) : 0 < roundToPowOf2 n ∧ roundToPowOf2 n < 2 ^ 32 := by
  obtain ⟨k, hk, hround⟩ := roundToPowOf2_two_pow_form n
  rw [hround]
  exact ⟨Nat.two_pow_pos k, Nat.pow_lt_pow_right (by omega) hk⟩

/-- All heaps of an accepted configuration can be served exactly when the
rounded limits fit. -/
theorem segments_usable_iff {a : HeapConfigArgs} {c : HeapConfig} {sys : System}
    (h : heapConfig a = .ok c) (hpage : 0 < sys.pageSize) (hpage' : sys.pageSize < 2 ^ 64) :
    (∀ f, some f ∈ tinyHeaps sys.topo c ∨ some f ∈ heaps sys.topo c → f.Usable C sys) ↔
      RoundedLimitsFit sys.pageSize a := by
  obtain ⟨t, s, l, hc⟩ := heapConfig_shape h
  have hinit := (heapConfig_ok_iff.mp h).1
  have hfits : ∀ m n : Nat, roundToPowOf2 m ≤ segmentBytes sys (roundToPowOf2 n) ↔
      SegmentFits sys.pageSize (roundToPowOf2 m) (roundToPowOf2 n) := fun m n =>
    le_segmentBytes_iff hpage hpage' (roundToPowOf2_range m).1 (roundToPowOf2_range n).1
      (roundToPowOf2_range n).2
  have htop : roundToPowOf2 a.largeLimit < 2 ^ 31 →
      (2 * roundToPowOf2 a.largeLimit ≤ segmentBytes sys (2 * roundToPowOf2 a.largeLimit) ↔
        sys.pageSize + 2 * roundToPowOf2 a.largeLimit ≤ 2 ^ 64) := by
    intro hlt
    have hpos := (roundToPowOf2_range a.largeLimit).1
    rw [le_segmentBytes_iff hpage hpage' (by omega) (by omega) (by omega), SegmentFits]
    exact and_iff_left (Lib.le_div_mul_of_pos hpage)
  simp only [or_imp, forall_and]
  rw [tinyHeaps_usable_iff hc, heaps_usable_iff hc, RoundedLimitsFit, hinit]
  simp only [HeapConfig.init, hfits]
  exact and_congr_right' (and_congr_right' (and_congr_right' (imp_congr_right htop)))

theorem segments_usable_iff_default :
    (∀ f, some f ∈ tinyHeaps stubSystem.topo defaultConfig ∨
        some f ∈ heaps stubSystem.topo defaultConfig → f.Usable rangeContext stubSystem) ↔
      RoundedLimitsFit 4096 defaultArgs :=
  segments_usable_iff heapConfig_default (by decide) (by decide)

/-- Large segments of 4 GiB. -/
def hugeSegmentArgs : HeapConfigArgs :=
  { defaultArgs with largeSegmentSize := 2 ^ 32 }

theorem heapConfig_hugeSegment :
    heapConfig hugeSegmentArgs = .ok (HeapConfig.init hugeSegmentArgs) := by
  refine heapConfig_ok_iff.mpr ⟨rfl, ?_, by decide⟩
  simp only [HeapConfig.init, roundToPowOf2, log2C_eq]
  decide

/-- The segment size rounds to 1, so a large segment is one page, which holds no
block of the large limit. -/
theorem hugeSegment_not_usable :
    heapConfig hugeSegmentArgs = .ok (HeapConfig.init hugeSegmentArgs) ∧
      segmentBytes stubSystem (HeapConfig.init hugeSegmentArgs).largeSegmentSize = 4096 ∧
      ¬∀ f, some f ∈ tinyHeaps stubSystem.topo (HeapConfig.init hugeSegmentArgs) ∨
        some f ∈ heaps stubSystem.topo (HeapConfig.init hugeSegmentArgs) →
          f.Usable rangeContext stubSystem := by
  have hsize : (HeapConfig.init hugeSegmentArgs).largeSegmentSize = 1 ∧
      (HeapConfig.init hugeSegmentArgs).largeLimit = 2 ^ 21 := by
    simp only [HeapConfig.init, roundToPowOf2, log2C_eq]
    decide
  have hbytes : segmentBytes stubSystem 1 = 4096 := by decide
  refine ⟨heapConfig_hugeSegment, by rw [hsize.1, hbytes], fun hall => ?_⟩
  obtain ⟨t, s, l, hc⟩ := heapConfig_shape heapConfig_hugeSegment
  have hlarge := ((heaps_usable_iff hc).mp fun f hf => hall f (Or.inr hf)).2.1
  rw [hsize.1, hsize.2, hbytes] at hlarge
  omega

end HwMalloc
