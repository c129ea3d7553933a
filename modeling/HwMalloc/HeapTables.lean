import HwMalloc.FixedSizeHeap

/-!
# HwMalloc.HeapTables

The tables of size classes in `heap`: the writer side is the heap constructor,
whose loops compute block sizes from shifted limits, and the reader side is the
pair of index functions that `heap::allocate` uses.

The two sides have no line in common: the writer counts up from shifts of the limits,
and the reader computes an index from the bit length of the request. That they agree
is proved in three steps:

* the three loops over `m_heaps` are brought to one form (`heapWrites_eq`): slot `i`
  holds the block size `2 ^ (t + 1 + i)`, where `2 ^ t` is the rounded tiny limit, and
  every slot is written once;
* the reader side is one fact about bit lengths (`bucketIndex_eq`);
* the limits of an accepted configuration are ordered, and their shifts do not wrap
  (`HeapConfig.Shape`), so that the slots of the classes follow upon each other without
  a gap.

The lookup follows: the slot of a size holds the least power of two that is large
enough, with the segment size of its class.
-/

namespace HwMalloc

/-! ### The index functions

In `std::size_t`, so that the index of the size 0 wraps. -/

/-- `heap::tiny_bucket_index`. -/
def tinyBucketIndex (n increment incrementShift : Nat) : Nat :=
  subSize (subSize (addSize n increment) 1 >>> incrementShift) 1

/-- `heap::bucket_index`. -/
def bucketIndex (n bucketShift : Nat) : Nat :=
  subSize (log2C (subSize n 1 >>> bucketShift)) 1

/-! ### The constructor

Each loop is a list of writes, of a slot and what is written to it; the tables are what
is left after all of them. -/

/-- `m_max_size`. Above `2 ^ 30` the doubled large limit does not survive the
rounding, which is what the outer maximum is for. -/
def maxSize (c : HeapConfig) : Nat :=
  max (roundToPowOf2 (mulSize c.largeLimit 2)) c.largeLimit

/-- The number of slots of `m_tiny_heaps`. -/
def numTinySlots (c : HeapConfig) : Nat := c.tinyLimit / tinyIncrement

/-- The number of slots of `m_heaps`. -/
def numSlots (c : HeapConfig) : Nat := addSize (bucketIndex (maxSize c) c.bucketShift) 1

/-- The number of iterations of the third loop over `m_heaps`. -/
def numHugeSlots (c : HeapConfig) : Nat :=
  subSize (numSlots c) (addSize c.numSmallHeaps c.numLargeHeaps)

variable (topo : Topology)

/-- `std::make_unique<fixed_size_heap_type>` as every loop calls it. -/
def makeFixedSizeHeap (c : HeapConfig) (blockSize segmentSize : Nat) : FixedSizeHeap :=
  fixedSizeHeap topo blockSize segmentSize c.neverFree c.numReserveSegments

/-- The loop over `m_tiny_heaps`. -/
def tinyWrites (c : HeapConfig) : List (Nat × FixedSizeHeap) :=
  (List.range (numTinySlots c)).map fun i =>
    (i, makeFixedSizeHeap topo c (mulSize tinyIncrement (i + 1)) c.tinySegmentSize)

/-- The first loop over `m_heaps`. -/
def smallWrites (c : HeapConfig) : List (Nat × FixedSizeHeap) :=
  (List.range c.numSmallHeaps).map fun i =>
    (i, makeFixedSizeHeap topo c (shlSize c.tinyLimit (i + 1)) c.smallSegmentSize)

/-- The second loop over `m_heaps`. -/
def largeWrites (c : HeapConfig) : List (Nat × FixedSizeHeap) :=
  (List.range c.numLargeHeaps).map fun i =>
    (i + c.numSmallHeaps,
      makeFixedSizeHeap topo c (shlSize c.smallLimit (i + 1)) c.largeSegmentSize)

/-- The third loop over `m_heaps`: the segments are as large as the blocks. -/
def hugeWrites (c : HeapConfig) : List (Nat × FixedSizeHeap) :=
  (List.range (numHugeSlots c)).map fun i =>
    (i + c.numSmallHeaps + c.numLargeHeaps,
      makeFixedSizeHeap topo c (shlSize c.largeLimit (i + 1)) (shlSize c.largeLimit (i + 1)))

/-- All writes to `m_heaps`, in order. -/
def heapWrites (c : HeapConfig) : List (Nat × FixedSizeHeap) :=
  smallWrites topo c ++ largeWrites topo c ++ hugeWrites topo c

/-- `m_tiny_heaps` after the constructor. -/
def tinyHeaps (c : HeapConfig) : List (Option FixedSizeHeap) :=
  Lib.fill (numTinySlots c) (tinyWrites topo c)

/-- `m_heaps` after the constructor. -/
def heaps (c : HeapConfig) : List (Option FixedSizeHeap) :=
  Lib.fill (numSlots c) (heapWrites topo c)

/-! ### The writer side

The logarithms of the limits stand for the limits. -/

variable {topo}

@[simp] theorem makeFixedSizeHeap_blockSize (c : HeapConfig) (b g : Nat) :
    (makeFixedSizeHeap topo c b g).blockSize = b := rfl

@[simp] theorem makeFixedSizeHeap_segmentSize (c : HeapConfig) (b g : Nat) :
    (makeFixedSizeHeap topo c b g).segmentSize = g := rfl

/-- The segment size of the class with block size `b` above the tiny limit. -/
def segmentSizeFor (c : HeapConfig) (b : Nat) : Nat :=
  if b ≤ c.smallLimit then c.smallSegmentSize
  else if b ≤ c.largeLimit then c.largeSegmentSize
  else b

/-- The heap in slot `i` of `m_heaps`, for a rounded tiny limit `2 ^ t`. -/
def sizedHeap (topo : Topology) (c : HeapConfig) (t i : Nat) : FixedSizeHeap :=
  makeFixedSizeHeap topo c (2 ^ (t + 1 + i)) (segmentSizeFor c (2 ^ (t + 1 + i)))

section Shape

variable {c : HeapConfig} {t s l : Nat} (h : c.Shape t s l)
include h

/-- The largest size with an entry in `m_heaps` is twice the large limit, as
long as the shift can represent it. -/
theorem maxSize_eq : maxSize c = 2 ^ min (l + 1) 31 := by
  have hl := h.large_lt
  have hle : 2 ^ l * 2 ≤ 2 ^ 31 * 2 :=
    Nat.mul_le_mul_right 2 (Nat.pow_le_pow_right (by omega) (by omega))
  have hmul : mulSize (2 ^ l) 2 = 2 ^ (l + 1) := by
    rw [mulSize_of_lt (by unfold sizeMod; omega), Nat.pow_succ]
  rw [maxSize, h.largeLimit, hmul]
  by_cases hl31 : l = 31
  · subst hl31
    -- `1u << 32` yields 1 here; the large limit itself is the maximum
    have hround : roundToPowOf2 (2 ^ (31 + 1)) = 1 := by
      rw [roundToPowOf2, subSize_of_le (by omega) (by unfold sizeMod; omega), log2C_eq,
        Lib.log2_two_pow_sub_one]
      rfl
    rw [hround]
    decide
  · have hlt : 2 ^ l < 2 ^ (l + 1) := Nat.pow_lt_pow_right (by omega) (by omega)
    rw [roundToPowOf2_two_pow (by omega) (by omega), max_eq_left (by omega),
      Nat.min_eq_left (by omega)]

/-- Above the tiny limit the index is a difference of bit lengths. -/
theorem bucketIndex_eq {size : Nat} (hlo : c.tinyLimit < size) (hhi : size < sizeMod) :
    bucketIndex size c.bucketShift + t + 1 = Nat.log2 (size - 1) + 1 := by
  have hpos : 0 < 2 ^ t := Nat.two_pow_pos t
  rw [h.tinyLimit] at hlo
  have hlog : Nat.log2 ((size - 1) / 2 ^ t) + t = Nat.log2 (size - 1) :=
    Lib.log2_div_two_pow (by omega)
  have hbits : Nat.log2 ((size - 1) / 2 ^ t) < 64 :=
    Lib.log2_lt_of_lt (by omega) (Nat.lt_of_le_of_lt (Nat.div_le_self _ _)
      (by unfold sizeMod at hhi; omega))
  rw [bucketIndex, h.bucketShift, subSize_of_le (by omega) hhi, Nat.shiftRight_eq_div_pow,
    log2C_eq, subSize_of_le (by omega) (by unfold sizeMod; omega)]
  omega

/-- `m_heaps` has a slot for every power of two above the tiny limit and up to
`m_max_size`. -/
theorem numSlots_eq : numSlots c = min (l + 1) 31 - t := by
  have hts := h.tiny_lt_small
  have hsl := h.small_lt_large
  have hl := h.large_lt
  obtain ⟨m, hm⟩ : ∃ m, min (l + 1) 31 = m + 1 := ⟨min (l + 1) 31 - 1, by omega⟩
  have htm : t < m + 1 := by omega
  have hlo : c.tinyLimit < 2 ^ (m + 1) := by
    rw [h.tinyLimit]
    exact Nat.pow_lt_pow_right (by omega) htm
  have hhi : 2 ^ (m + 1) < sizeMod := Nat.pow_lt_pow_right (by omega) (by omega)
  have hidx := bucketIndex_eq h hlo hhi
  rw [Lib.log2_two_pow_sub_one] at hidx
  rw [numSlots, maxSize_eq h, hm, addSize_of_lt (by unfold sizeMod; omega)]
  omega

/-- The subtraction in the bound of the third loop does not underflow. -/
theorem counts_le_numSlots : c.numSmallHeaps + c.numLargeHeaps ≤ numSlots c := by
  have hts := h.tiny_lt_small
  have hsl := h.small_lt_large
  have hl := h.large_lt
  rw [numSlots_eq h, h.numSmallHeaps, h.numLargeHeaps]
  omega

theorem numHugeSlots_eq : numHugeSlots c = min (l + 1) 31 - l := by
  have hts := h.tiny_lt_small
  have hsl := h.small_lt_large
  have hl := h.large_lt
  have hle := counts_le_numSlots h
  rw [numSlots_eq h, h.numSmallHeaps, h.numLargeHeaps] at hle
  rw [numHugeSlots, numSlots_eq h, h.numSmallHeaps, h.numLargeHeaps,
    addSize_of_lt (by unfold sizeMod; omega), subSize_of_le hle (by unfold sizeMod; omega)]
  omega

omit h in
private theorem shlSize_two_pow {k i : Nat} (hk : k + i < 64) :
    shlSize (2 ^ k) i = 2 ^ (k + i) := by
  rw [shlSize_of_lt]
  · rw [Nat.pow_add]
  · rw [← Nat.pow_add]
    exact Nat.pow_lt_pow_right (by omega) hk

omit h in
private theorem two_pow_le_iff {m n : Nat} : 2 ^ m ≤ 2 ^ n ↔ m ≤ n :=
  Nat.pow_le_pow_iff_right (by omega)

/-- Which loop fills slot `i` is decided by its block size. -/
theorem segmentSizeFor_slot (i : Nat) :
    segmentSizeFor c (2 ^ (t + 1 + i)) =
      if i < s - t then c.smallSegmentSize
      else if i < l - t then c.largeSegmentSize
      else 2 ^ (t + 1 + i) := by
  have hts := h.tiny_lt_small
  have hsl := h.small_lt_large
  have hsmall : t + 1 + i ≤ s ↔ i < s - t := by omega
  have hlarge : t + 1 + i ≤ l ↔ i < l - t := by omega
  simp only [segmentSizeFor, h.smallLimit, h.largeLimit, two_pow_le_iff, hsmall, hlarge]

theorem smallWrites_eq :
    smallWrites topo c = (List.range (s - t)).map fun i => (i, sizedHeap topo c t i) := by
  have hsl := h.small_lt_large
  have hl := h.large_lt
  rw [smallWrites, h.numSmallHeaps, h.tinyLimit]
  refine List.map_congr_left fun i hi => ?_
  rw [List.mem_range] at hi
  rw [sizedHeap, segmentSizeFor_slot h, if_pos hi, shlSize_two_pow (by omega),
    show t + (i + 1) = t + 1 + i by omega]

theorem largeWrites_eq :
    largeWrites topo c =
      (List.range (l - s)).map fun i => (s - t + i, sizedHeap topo c t (s - t + i)) := by
  have hts := h.tiny_lt_small
  have hl := h.large_lt
  rw [largeWrites, h.numLargeHeaps, h.numSmallHeaps, h.smallLimit]
  refine List.map_congr_left fun i hi => ?_
  rw [List.mem_range] at hi
  rw [sizedHeap, segmentSizeFor_slot h, if_neg (by omega), if_pos (by omega),
    shlSize_two_pow (by omega), Nat.add_comm i, show s + (i + 1) = t + 1 + (s - t + i) by omega]

theorem hugeWrites_eq :
    hugeWrites topo c =
      (List.range (numHugeSlots c)).map fun i =>
        (s - t + (l - s) + i, sizedHeap topo c t (s - t + (l - s) + i)) := by
  have hts := h.tiny_lt_small
  have hsl := h.small_lt_large
  have hl := h.large_lt
  have hhuge := numHugeSlots_eq h
  rw [hugeWrites, h.numLargeHeaps, h.numSmallHeaps, h.largeLimit]
  refine List.map_congr_left fun i hi => ?_
  rw [List.mem_range] at hi
  rw [sizedHeap, segmentSizeFor_slot h, if_neg (by omega), if_neg (by omega),
    shlSize_two_pow (by omega), show l + (i + 1) = t + 1 + (s - t + (l - s) + i) by omega,
    show i + (s - t) + (l - s) = s - t + (l - s) + i by omega]

/-- The three loops over `m_heaps` are one loop. -/
theorem heapWrites_eq :
    heapWrites topo c = (List.range (numSlots c)).map fun i => (i, sizedHeap topo c t i) := by
  have hts := h.tiny_lt_small
  have hsl := h.small_lt_large
  have hslots : numSlots c = s - t + (l - s) + numHugeSlots c := by
    rw [numSlots_eq h, numHugeSlots_eq h]
    have hl := h.large_lt
    omega
  rw [heapWrites, smallWrites_eq h, largeWrites_eq h, hugeWrites_eq h, hslots,
    Lib.range_loop_append (s - t) (l - s) fun i => (i, sizedHeap topo c t i),
    Lib.range_loop_append (s - t + (l - s)) (numHugeSlots c) fun i => (i, sizedHeap topo c t i)]

theorem heapWrites_filledOnce : Lib.FilledOnce (numSlots c) (heapWrites topo c) := by
  rw [heapWrites_eq h]
  exact Lib.filledOnce_range _ _

theorem heaps_getElem? {i : Nat} (hi : i < numSlots c) :
    (heaps topo c)[i]? = some (some (sizedHeap topo c t i)) := by
  refine (heapWrites_filledOnce h).getElem? ?_
  rw [heapWrites_eq h]
  exact List.mem_map.mpr ⟨i, List.mem_range.mpr hi, rfl⟩

/-- What a lookup in `m_heaps` finds for a size above the tiny limit. -/
theorem heaps_bucketIndex {size : Nat} (hlo : c.tinyLimit < size) (hhi : size ≤ maxSize c) :
    ∃ f, (heaps topo c)[bucketIndex size c.bucketShift]? = some (some f) ∧
      Lib.LeastPow f.blockSize size ∧
      f = makeFixedSizeHeap topo c f.blockSize (segmentSizeFor c f.blockSize) := by
  have hts := h.tiny_lt_small
  have hsl := h.small_lt_large
  have hl := h.large_lt
  have hpos : 0 < 2 ^ t := Nat.two_pow_pos t
  have hlo' := hlo
  rw [h.tinyLimit] at hlo'
  rw [maxSize_eq h] at hhi
  have hmax : 2 ^ min (l + 1) 31 < sizeMod := Nat.pow_lt_pow_right (by omega) (by omega)
  have hidx := bucketIndex_eq h hlo (by omega)
  have hbits : Nat.log2 (size - 1) < min (l + 1) 31 :=
    Lib.log2_lt_of_lt (by omega) (by omega)
  have hi : bucketIndex size c.bucketShift < numSlots c := by
    rw [numSlots_eq h]
    omega
  refine ⟨_, heaps_getElem? h hi, ?_, rfl⟩
  rw [sizedHeap, makeFixedSizeHeap_blockSize,
    show t + 1 + bucketIndex size c.bucketShift = Nat.log2 (size - 1) + 1 by omega]
  exact Lib.leastPow_log2 (by omega)

end Shape

/-! ### The two sides agree above the tiny limit

The slot of a size is the one that the class of the size was written to. -/

/-- The heap constructor fills `m_heaps` exactly once, and `heap::allocate`
finds there, for every size above the tiny limit, the class of the least power
of two that is not smaller. -/
theorem sized_lookup_agrees {a : HeapConfigArgs} {c : HeapConfig} (h : heapConfig a = .ok c)
    (hr : a.SizesIn 1 (2 ^ 31)) :
    Lib.FilledOnce (numSlots c) (heapWrites topo c) ∧
      c.numSmallHeaps + c.numLargeHeaps ≤ numSlots c ∧
      ∀ size, c.tinyLimit < size → size ≤ maxSize c →
        bucketIndex size c.bucketShift < (heaps topo c).length ∧
        ∃ f, (heaps topo c)[bucketIndex size c.bucketShift]? = some (some f) ∧
          Lib.LeastPow f.blockSize size ∧
          (f.blockSize ≤ c.smallLimit → f.segmentSize = c.smallSegmentSize) ∧
          (c.smallLimit < f.blockSize → f.blockSize ≤ c.largeLimit →
            f.segmentSize = c.largeSegmentSize) ∧
          (c.largeLimit < f.blockSize → f.segmentSize = f.blockSize) ∧
          f.blockSize ≤ f.segmentSize := by
  obtain ⟨t, s, l, hc⟩ := heapConfig_shape h
  obtain ⟨-, hsmall, hlarge⟩ := heapConfig_segments_le h hr
  obtain ⟨-, ⟨-, hsl⟩, -⟩ := heapConfig_ok_iff.mp h
  refine ⟨heapWrites_filledOnce hc, counts_le_numSlots hc, fun size hlo hhi => ?_⟩
  obtain ⟨f, hget, hpow, hf⟩ := @heaps_bucketIndex topo _ _ _ _ hc _ hlo hhi
  have hseg : f.segmentSize = segmentSizeFor c f.blockSize := by rw [hf]; rfl
  refine ⟨(List.getElem?_eq_some_iff.mp hget).1, f, hget, hpow, ?_, ?_, ?_, ?_⟩
  · intro hle
    rw [hseg, segmentSizeFor, if_pos hle]
  · intro hlt hle
    rw [hseg, segmentSizeFor, if_neg (by omega), if_pos hle]
  · intro hlt
    rw [hseg, segmentSizeFor, if_neg (by omega), if_neg (by omega)]
  · rw [hseg, segmentSizeFor]
    split
    · omega
    · split
      · omega
      · exact Nat.le_refl _

/-- The default configuration is one such. -/
theorem sized_lookup_agrees_default :
    Lib.FilledOnce (numSlots defaultConfig) (heapWrites stubTopology defaultConfig) ∧
      bucketIndex 129 defaultConfig.bucketShift < (heaps stubTopology defaultConfig).length := by
  obtain ⟨hfill, -, hlookup⟩ :=
    @sized_lookup_agrees stubTopology _ _ heapConfig_default (by decide)
  have hmax : 129 ≤ maxSize defaultConfig := le_trans (by decide) (le_max_right _ _)
  exact ⟨hfill, (hlookup 129 (by decide) hmax).1⟩

/-! ### The tiny classes

The number of tiny heaps is a quotient that the constructor does not check: a
limit below the increment gives an empty table, although sizes up to the limit
are still looked up in it. -/

theorem tinyWrites_filledOnce (c : HeapConfig) :
    Lib.FilledOnce (numTinySlots c) (tinyWrites topo c) :=
  Lib.filledOnce_range _ _

theorem tinyHeaps_getElem? {c : HeapConfig} {i : Nat} (hi : i < numTinySlots c) :
    (tinyHeaps topo c)[i]? =
      some (some (makeFixedSizeHeap topo c (mulSize tinyIncrement (i + 1)) c.tinySegmentSize)) :=
  (tinyWrites_filledOnce c).getElem? (List.mem_map.mpr ⟨i, List.mem_range.mpr hi, rfl⟩)

/-- The block sizes of the tiny classes do not overflow. -/
theorem tinyBlockSize_eq {c : HeapConfig} {t s l : Nat} (h : c.Shape t s l) {i : Nat}
    (hi : i < numTinySlots c) : mulSize tinyIncrement (i + 1) = 8 * (i + 1) := by
  have hpow : c.tinyLimit < 2 ^ 32 := by
    rw [h.tinyLimit]
    exact Nat.pow_lt_pow_right (by omega) h.tiny_lt
  rw [numTinySlots, tinyIncrement_eq] at hi
  rw [tinyIncrement_eq, mulSize_of_lt (by unfold sizeMod; omega)]

theorem tinyBucketIndex_eq {size : Nat} (h1 : 1 ≤ size) (h2 : size ≤ 2 ^ 32) :
    tinyBucketIndex size tinyIncrement tinyIncrementShift + 1 = (size + 8 - 1) / 8 := by
  have hmod : sizeMod = 2 ^ 64 := rfl
  have hup : subSize (size + 8) 1 = size + 8 - 1 := subSize_of_le (by omega) (by omega)
  rw [tinyBucketIndex, tinyIncrement_eq, addSize_of_lt (by omega), hup, tinyIncrementShift,
    Nat.shiftRight_eq_div_pow, show 2 ^ 3 = 8 from rfl, subSize_of_le (by omega) (by omega)]
  omega

/-- A tiny request finds a heap whose block is the least multiple of the
increment that holds it. -/
def TinyFits (topo : Topology) (c : HeapConfig) (size : Nat) : Prop :=
  tinyBucketIndex size tinyIncrement tinyIncrementShift < (tinyHeaps topo c).length ∧
    ∃ f, (tinyHeaps topo c)[tinyBucketIndex size tinyIncrement tinyIncrementShift]? =
        some (some f) ∧
      Lib.LeastMul f.blockSize tinyIncrement size

/-- A limit that is at least the increment is a multiple of it. -/
theorem HeapConfig.Shape.tinyLimit_dvd {c : HeapConfig} {t s l : Nat} (h : c.Shape t s l)
    (hle : tinyIncrement ≤ c.tinyLimit) : c.tinyLimit = numTinySlots c * 8 := by
  rw [tinyIncrement_eq, h.tinyLimit, show 8 = 2 ^ 3 from rfl] at hle
  have ht : 3 ≤ t := (Nat.pow_le_pow_iff_right (by omega)).mp hle
  obtain ⟨k, rfl⟩ : ∃ k, t = k + 3 := ⟨t - 3, by omega⟩
  rw [numTinySlots, tinyIncrement_eq, h.tinyLimit, Nat.pow_add]
  omega

theorem tinyFits_of_le {c : HeapConfig} {t s l : Nat} (h : c.Shape t s l)
    (hle : tinyIncrement ≤ c.tinyLimit) {size : Nat} (h1 : 1 ≤ size) (h2 : size ≤ c.tinyLimit) :
    TinyFits topo c size := by
  have hdvd := h.tinyLimit_dvd hle
  have hlimit : c.tinyLimit ≤ 2 ^ 32 := by
    rw [h.tinyLimit]
    have hts := h.tiny_lt_small
    have hsl := h.small_lt_large
    have hl := h.large_lt
    exact Nat.pow_le_pow_right (by omega) (by omega)
  have hidx := tinyBucketIndex_eq h1 (by omega)
  have hi : tinyBucketIndex size tinyIncrement tinyIncrementShift < numTinySlots c := by omega
  refine ⟨by rwa [tinyHeaps, Lib.fill_length], _, tinyHeaps_getElem? hi, ?_⟩
  have hmod : sizeMod = 2 ^ 64 := rfl
  rw [makeFixedSizeHeap_blockSize, hidx, tinyIncrement_eq, mulSize_of_lt (by omega),
    Nat.mul_comm]
  exact Lib.leastMul_div (by omega)

theorem not_tinyFits_of_lt {c : HeapConfig} (hlt : c.tinyLimit < tinyIncrement) (size : Nat) :
    ¬TinyFits topo c size := by
  intro hfit
  have hlen := hfit.1
  rw [tinyHeaps, Lib.fill_length, numTinySlots, Nat.div_eq_of_lt hlt] at hlen
  omega

theorem roundToPowOf2_ge_eight_iff {n : Nat} (h1 : 1 ≤ n) (h2 : n ≤ 2 ^ 31) :
    8 ≤ roundToPowOf2 n ↔ 4 < n := by
  rw [roundToPowOf2_eq h1 h2, show 8 = 2 ^ 3 from rfl,
    Nat.pow_le_pow_iff_right (by omega : 1 < 2)]
  constructor
  · intro h
    by_contra hn
    have : Nat.log2 (n - 1) < 2 := Lib.log2_lt_of_lt (by omega) (by omega)
    omega
  · intro h
    have : 2 ≤ Nat.log2 (n - 1) := (Nat.le_log2 (by omega)).mpr (by omega)
    omega

/-- Tiny requests find their heap exactly when the limit argument is above 4,
that is, when the rounded limit is at least the increment. -/
theorem tinyFits_iff {a : HeapConfigArgs} {c : HeapConfig} (h : heapConfig a = .ok c)
    (hr : a.SizesIn 1 (2 ^ 31)) {size : Nat} (h1 : 1 ≤ size) (h2 : size ≤ c.tinyLimit) :
    TinyFits topo c size ↔ 4 < a.tinyLimit := by
  obtain ⟨t, s, l, hc⟩ := heapConfig_shape h
  have harg : 1 ≤ a.tinyLimit ∧ a.tinyLimit ≤ 2 ^ 31 := hr _ (by simp [HeapConfigArgs.sizes])
  have hlimit : c.tinyLimit = roundToPowOf2 a.tinyLimit := by
    rw [(heapConfig_ok_iff.mp h).1]
    rfl
  rw [← roundToPowOf2_ge_eight_iff harg.1 harg.2, ← hlimit, ← tinyIncrement_eq]
  constructor
  · intro hfit
    by_contra hlt
    exact not_tinyFits_of_lt (by omega) size hfit
  · intro hle
    exact tinyFits_of_le hc hle h1 h2

theorem tinyFits_iff_default : TinyFits stubTopology defaultConfig 24 ↔ 4 < 128 :=
  tinyFits_iff heapConfig_default (by decide) (by decide) (by decide)

/-- Arguments that the constructor accepts although no tiny request can be
served. -/
def smallTinyArgs : HeapConfigArgs :=
  { defaultArgs with tinyLimit := 4 }

theorem heapConfig_smallTiny :
    heapConfig smallTinyArgs = .ok (HeapConfig.init smallTinyArgs) := by
  refine heapConfig_ok_iff.mpr ⟨rfl, ?_, by decide⟩
  simp only [HeapConfig.init, roundToPowOf2, log2C_eq]
  decide

/-- With a tiny limit of 4 the table is empty, and a request for one byte reads
outside it. -/
theorem smallTiny_not_fits :
    smallTinyArgs.SizesIn 1 (2 ^ 31) ∧
      heapConfig smallTinyArgs = .ok (HeapConfig.init smallTinyArgs) ∧
      1 ≤ (HeapConfig.init smallTinyArgs).tinyLimit ∧
      ¬TinyFits stubTopology (HeapConfig.init smallTinyArgs) 1 := by
  have hlimit : (HeapConfig.init smallTinyArgs).tinyLimit = 4 := by
    simp only [HeapConfig.init, roundToPowOf2, log2C_eq]
    decide
  refine ⟨by decide, heapConfig_smallTiny, by omega, ?_⟩
  exact not_tinyFits_of_lt (by rw [hlimit]; decide) 1

end HwMalloc
