import HwMalloc.UsableSegments

/-!
# HwMalloc.StackLimit

The freed stack of a segment has a fixed size, one node for each block, and such
a stack links its nodes by 16-bit indices: it can be made for at most
`maxStackSize` elements, and its constructor throws when more are asked for.

The validation of a configuration does not look at the number of blocks, although the
segment sizes alone can make it too large: the number is that of the smallest blocks
of a class in a segment of the class, in whole pages. `stacks_indexable_iff` says which
accepted arguments keep to the limit; of each class it is the heap with the smallest
blocks that decides. Within it `add_segment` never fails where the stack is made, since
the constructor of the stack is the only thing that can throw there
(`addSegment_ne_freedStack`).
-/

namespace HwMalloc

variable {C : Context}

/-- The largest size of a `boost::lockfree::stack` with `fixed_sized<true>`. -/
def maxStackSize : Nat := 65535

/-! ### Where the stack is made

In the segment constructor, before the first block is pushed, on both branches of
`add_segment`. The other failures of `add_segment` have other reasons. -/

theorem pushBlocks_failAt {failAt : Nat → Option FailurePoint} {blockAt : Nat → Block C}
    {e : FailurePoint} {stack' : List (Block C)} {n : Nat} :
    ∀ {stack : List (Block C)}, pushBlocks failAt blockAt n stack = (some e, stack') →
      ∃ i, failAt i = some e := by
  induction n with
  | zero =>
    intro stack h
    cases h
  | succ n ih =>
    intro stack h
    rw [pushBlocks] at h
    cases hf : failAt n with
    | some e' =>
      rw [hf] at h
      cases h
      exact ⟨n, hf⟩
    | none =>
      rw [hf] at h
      exact ih h

theorem constructSegment_ne_freedStack {env : GrowEnv C} {g : Segment C} {w w' : World C}
    {p p' : Pool C} (hstack : env.freedStackThrows = false) :
    constructSegment env g w p ≠ (.error .freedStack, w', p') := by
  intro h
  unfold constructSegment at h
  rw [hstack, if_neg Bool.false_ne_true] at h
  split at h
  · next hpush =>
    cases h
    obtain ⟨i, hi⟩ := pushBlocks_failAt hpush
    unfold handleFailure at hi
    split at hi
    · cases hi
    · split at hi <;> cases hi
  · cases h

theorem registerBoth_ne_freedStack {env : GrowEnv C} {w w' : World C} :
    registerBoth env w ≠ (.error .freedStack, w') := by
  intro h
  unfold registerBoth at h
  cases hfirst : env.deviceFirst <;> cases hd : env.registerDeviceMemory <;>
    cases hr : env.registerMemory <;> simp [hfirst, hd, hr] at h

/-- `add_segment` fails in the constructor of the stack only if that throws. -/
theorem addSegment_ne_freedStack {sys : System} {env : GrowEnv C} {w w' : World C} {p p' : Pool C}
    (hstack : env.freedStackThrows = false) :
    addSegment sys env w p ≠ (.error .freedStack, w', p') := by
  intro h
  rw [addSegment] at h
  dsimp only at h
  split at h
  · next hcheck =>
    cases h
    unfold checkAllocation at hcheck
    split at hcheck
    · cases hcheck
    · split at hcheck <;> cases hcheck
  · next a w₁ hcheck =>
    cases hdev : p.allocateOnDevice with
    | false =>
      rw [hdev, if_neg Bool.false_ne_true] at h
      unfold addHostSegment at h
      split at h
      · cases h
      · exact constructSegment_ne_freedStack hstack h
    | true =>
      rw [hdev, if_pos rfl] at h
      unfold addDeviceSegment at h
      dsimp only at h
      split at h
      · cases h
      · split at h
        · next hreg =>
          cases h
          exact registerBoth_ne_freedStack hreg
        · split at h
          · next hcons =>
            cases h
            exact constructSegment_ne_freedStack hstack hcons
          · cases h

/-! ### The tables

As for the usable segments, but for the smallest class of each range. -/

/-- The segments of a heap have no more blocks than their stacks can index, so
with a stack that throws above its limit only, none of them fails to be made for
that reason. -/
structure FixedSizeHeap.Indexable (C : Context) (sys : System) (f : FixedSizeHeap) : Prop where
  blocks_le : segmentBytes sys f.segmentSize / f.blockSize ≤ maxStackSize
  made_le : ∀ p : Pool C, some p.toPoolParams ∈ f.pools ∨ some p.toPoolParams ∈ f.devicePools →
    ∀ env w w' p', addSegment sys env w p = (.ok (), w', p') →
      (w'.segmentAt w.nextSegment).numBlocks ≤ maxStackSize
  never_throws : ∀ p : Pool C, some p.toPoolParams ∈ f.pools ∨ some p.toPoolParams ∈ f.devicePools →
    ∀ env : GrowEnv C,
      (env.freedStackThrows = true → maxStackSize < segmentBlocks sys p.toPoolParams) →
        ∀ w w' p', addSegment sys env w p ≠ (.error .freedStack, w', p')

theorem makeFixedSizeHeap_indexable_iff {topo : Topology} {c : HeapConfig} {sys : System}
    {b g : Nat} (hb : 0 < b) :
    (makeFixedSizeHeap topo c b g).Indexable C sys ↔ segmentBytes sys g < 65536 * b := by
  have hdiv : segmentBytes sys g / b ≤ maxStackSize ↔ segmentBytes sys g < 65536 * b := by
    rw [← Nat.div_lt_iff_lt_mul hb]
    exact Nat.lt_succ_iff.symm
  rw [← hdiv]
  refine ⟨fun h => h.blocks_le, fun h => ?_⟩
  have hblocks : ∀ {p : PoolParams},
      (some p ∈ (makeFixedSizeHeap topo c b g).pools ∨
        some p ∈ (makeFixedSizeHeap topo c b g).devicePools) →
      segmentBlocks sys p ≤ maxStackSize := by
    intro p hp
    obtain ⟨hblock, hseg⟩ := FixedSizeHeap.pools_sizes hp
    rw [segmentBlocks, hblock, hseg]
    exact h
  refine ⟨h, ?_, ?_⟩
  · intro p hp env w w' p' hadd
    obtain ⟨g', hnew, hgrown⟩ := addSegment_ok hadd
    rw [hgrown.segmentAt_new, hnew.numBlocks]
    exact hblocks hp
  · intro p hp env hboost w w' p'
    refine addSegment_ne_freedStack (Bool.eq_false_iff.mpr fun hthrows => ?_)
    exact absurd (hboost hthrows) (not_lt.mpr (hblocks hp))

section

variable {topo : Topology} {c : HeapConfig} {t s l : Nat} {sys : System}

/-- Of the tiny classes the first one decides. -/
theorem tinyHeaps_indexable_iff (h : c.Shape t s l) :
    (∀ f, some f ∈ tinyHeaps topo c → f.Indexable C sys) ↔
      (8 ≤ c.tinyLimit → segmentBytes sys c.tinySegmentSize < 65536 * 8) := by
  have hslots : numTinySlots c = c.tinyLimit / 8 := by rw [numTinySlots, tinyIncrement_eq]
  rw [tinyHeaps_forall_iff h]
  constructor
  · intro hall hle
    have hindexable := hall 0 (by omega)
    rwa [makeFixedSizeHeap_indexable_iff (by omega)] at hindexable
  · intro hlt i hi
    rw [makeFixedSizeHeap_indexable_iff (by omega)]
    have hfirst := hlt (by omega)
    omega

/-- Of the small and of the large classes the first one decides; there is at
most one class above them. -/
theorem heaps_indexable_iff (h : c.Shape t s l) :
    (∀ f, some f ∈ heaps topo c → f.Indexable C sys) ↔
      segmentBytes sys c.smallSegmentSize < 65536 * (2 * c.tinyLimit) ∧
        segmentBytes sys c.largeSegmentSize < 65536 * (2 * c.smallLimit) ∧
        (c.largeLimit < 2 ^ 31 →
          segmentBytes sys (2 * c.largeLimit) < 65536 * (2 * c.largeLimit)) := by
  have hpos : 0 < c.largeLimit := by
    rw [h.largeLimit]
    exact Nat.two_pow_pos l
  have hdouble : ∀ {x k : Nat}, x = 2 ^ k → 2 * x = 2 ^ (k + 1) := fun hx => by
    rw [hx, Nat.pow_succ, Nat.mul_comm]
  -- Of the blocks above `2 ^ i` the smallest decides.
  have hfirst : ∀ i j g : Nat, i < j →
      ((∀ k, i < k → k ≤ j → (makeFixedSizeHeap topo c (2 ^ k) g).Indexable C sys) ↔
        segmentBytes sys g < 65536 * 2 ^ (i + 1)) := by
    intro i j g hij
    simp only [makeFixedSizeHeap_indexable_iff (Nat.two_pow_pos _)]
    refine ⟨fun hall => hall (i + 1) (Nat.lt_succ_self i) hij, fun hlt k hik _ => ?_⟩
    have hle : 2 ^ (i + 1) ≤ 2 ^ k := Nat.pow_le_pow_right (by omega) hik
    exact hlt.trans_le (Nat.mul_le_mul_left _ hle)
  rw [heaps_forall_iff h, hfirst t s _ h.tiny_lt_small, hfirst s l _ h.small_lt_large,
    makeFixedSizeHeap_indexable_iff (by omega), ← hdouble h.tinyLimit, ← hdouble h.smallLimit]

end

/-! ### The condition on the arguments

One bound for the tiny segments, one for the small and one for the large ones. -/

/-- The bytes of a segment: its size, rounded up to whole pages. -/
def wholePages (page segment : Nat) : Nat := (segment + page - 1) / page * page

/-- After rounding, each segment size is less than 65536 times the smallest block
size of its class. -/
def SegmentsIndexable (page : Nat) (a : HeapConfigArgs) : Prop :=
  (8 ≤ roundToPowOf2 a.tinyLimit →
      wholePages page (roundToPowOf2 a.tinySegmentSize) < 65536 * 8) ∧
    wholePages page (roundToPowOf2 a.smallSegmentSize) < 65536 * (2 * roundToPowOf2 a.tinyLimit) ∧
    wholePages page (roundToPowOf2 a.largeSegmentSize) < 65536 * (2 * roundToPowOf2 a.smallLimit)

theorem segmentBytes_eq_wholePages {sys : System} {segment : Nat} (hpage : 0 < sys.pageSize)
    (hpage' : sys.pageSize < 2 ^ 63) (hseg : 0 < segment) (hseg' : segment < 2 ^ 32) :
    segmentBytes sys segment = wholePages sys.pageSize segment := by
  rw [segmentBytes_eq hpage (by omega) hseg hseg', if_pos (by omega), wholePages]

/-- Whole pages are at least one page. -/
theorem page_le_wholePages {page segment : Nat} (hpage : 0 < page) (hseg : 0 < segment) :
    page ≤ wholePages page segment := by
  have hdiv : 1 ≤ (segment + page - 1) / page := Nat.div_pos (by omega) hpage
  exact Nat.le_mul_of_pos_left page hdiv

/-- A segment is smaller than twice its size, or it is one page. -/
theorem wholePages_lt {page segment bound : Nat} (hpage : page < bound) (hseg : 0 < segment)
    (hbound : 2 * segment ≤ bound) : wholePages page segment < bound := by
  have hle := Nat.div_mul_le_self (segment + page - 1) page
  by_cases h : page ≤ segment
  · rw [wholePages]
    omega
  · have hone : (segment + page - 1) / page < 2 :=
      (Nat.div_lt_iff_lt_mul (by omega)).mpr (by omega)
    have hmul := Nat.mul_le_mul_right page (Nat.lt_succ_iff.mp hone)
    rw [wholePages]
    omega

/-- The stacks of all segments can be made exactly when the segment sizes are
small enough. The page size is a positive `long`. -/
theorem stacks_indexable_iff {topo : Topology} {a : HeapConfigArgs} {c : HeapConfig} {sys : System}
    (h : heapConfig a = .ok c) (hpage : 0 < sys.pageSize) (hpage' : sys.pageSize < 2 ^ 63) :
    (∀ f, some f ∈ tinyHeaps topo c ∨ some f ∈ heaps topo c → f.Indexable C sys) ↔
      SegmentsIndexable sys.pageSize a := by
  obtain ⟨t, s, l, hc⟩ := heapConfig_shape h
  obtain ⟨hinit, ⟨-, hsl⟩, -⟩ := heapConfig_ok_iff.mp h
  have hbytes : ∀ n : Nat, segmentBytes sys (roundToPowOf2 n) =
      wholePages sys.pageSize (roundToPowOf2 n) := fun n =>
    segmentBytes_eq_wholePages hpage hpage' (roundToPowOf2_range n).1 (roundToPowOf2_range n).2
  simp only [or_imp, forall_and]
  rw [tinyHeaps_indexable_iff hc, heaps_indexable_iff hc, SegmentsIndexable, hinit]
  rw [hinit] at hsl
  simp only [HeapConfig.init, hbytes] at hsl ⊢
  refine and_congr_right' (and_congr_right' (and_iff_left_of_imp fun hlarge hlt => ?_))
  -- The class above the large limit has one block in each segment, or its segment is
  -- one page, and so no larger than a large segment.
  have hpos := (roundToPowOf2_range a.largeLimit).1
  have hle := page_le_wholePages hpage (roundToPowOf2_range a.largeSegmentSize).1
  rw [segmentBytes_eq_wholePages hpage hpage' (by omega) (by omega)]
  exact wholePages_lt (by omega) (by omega) (by omega)

theorem stacks_indexable_iff_default :
    (∀ f, some f ∈ tinyHeaps stubTopology defaultConfig ∨
        some f ∈ heaps stubTopology defaultConfig → f.Indexable rangeContext stubSystem) ↔
      SegmentsIndexable 4096 defaultArgs :=
  stacks_indexable_iff heapConfig_default (by decide) (by decide)

/-- Tiny segments of 1 MiB. -/
def largeTinySegmentArgs : HeapConfigArgs :=
  { defaultArgs with tinySegmentSize := 2 ^ 20 }

theorem heapConfig_largeTinySegment :
    heapConfig largeTinySegmentArgs = .ok (HeapConfig.init largeTinySegmentArgs) := by
  refine heapConfig_ok_iff.mpr ⟨rfl, ?_, by decide⟩
  simp only [HeapConfig.init, roundToPowOf2, log2C_eq]
  decide

/-- A segment of the first tiny class has 131072 blocks of 8 bytes. -/
theorem largeTinySegment_not_indexable :
    heapConfig largeTinySegmentArgs = .ok (HeapConfig.init largeTinySegmentArgs) ∧
      segmentBytes stubSystem (HeapConfig.init largeTinySegmentArgs).tinySegmentSize / 8 =
        131072 ∧
      ¬∀ f, some f ∈ tinyHeaps stubTopology (HeapConfig.init largeTinySegmentArgs) ∨
        some f ∈ heaps stubTopology (HeapConfig.init largeTinySegmentArgs) →
          f.Indexable rangeContext stubSystem := by
  have hsize : (HeapConfig.init largeTinySegmentArgs).tinySegmentSize = 2 ^ 20 ∧
      (HeapConfig.init largeTinySegmentArgs).tinyLimit = 128 := by
    simp only [HeapConfig.init, roundToPowOf2, log2C_eq]
    decide
  have hbytes : segmentBytes stubSystem (2 ^ 20) = 2 ^ 20 := by decide
  refine ⟨heapConfig_largeTinySegment, by rw [hsize.1, hbytes]; rfl, fun hall => ?_⟩
  obtain ⟨t, s, l, hc⟩ := heapConfig_shape heapConfig_largeTinySegment
  have htiny := (tinyHeaps_indexable_iff hc).mp fun f hf => hall f (Or.inl hf)
  rw [hsize.1, hsize.2, hbytes] at htiny
  exact absurd (htiny (by decide)) (by decide)

end HwMalloc
