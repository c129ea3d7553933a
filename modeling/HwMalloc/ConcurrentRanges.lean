import HwMalloc.HeapLifetime

/-!
# HwMalloc.ConcurrentRanges

The blocks of the heap as memory, under any interleaving: on an honest machine no
two blocks overlap, wherever they are, whether with a client, on the way inside
a call of some thread, or in a stack.

The argument about one state is that of `HwMalloc.LiveRanges`, for the state in
which all blocks are with the clients (`allHandedOut`). The ranges of the blocks do
not depend on who has them, so nothing is lost by this, and blocks on the way are
covered as well.

What is left for the threads is about segments only (`SegmentsApart`): that their
memory is outstanding, which the account of `HwMalloc.HeapLifetime` gives, and that a
new segment is disjoint from the others, which the machine promises for what is
outstanding (`HonestGrowth`). The promise is about the step that registers a segment,
whichever thread takes it, and so needs no word about the calls in progress.
-/

namespace HwMalloc

variable {C : Context} {Tid : Type}

/-- The regions of a segment hand out handles for ranges inside its memory. -/
structure Segment.HandlesTrue (M : HandleRanges C) (g : Segment C) : Prop where
  handle : ∀ o s, o + s ≤ g.allocation.size →
    M.host (g.region.getHandle o s) = (g.allocation.ptr + o, s)
  deviceHandle : ∀ r, g.deviceRegion = some r → ∀ o s, o + s ≤ g.allocation.size →
    M.device (r.getHandle o s) = (g.devicePtr + o, s)

/-- The memory of a segment that the step registers does not overlap any that was
outstanding, and its regions are true to it. -/
def HonestGrowth (M : HandleRanges C) (st st' : HeapState C) : Prop :=
  ∀ s, st'.Registered s → ¬st.Registered s →
    (st'.world.segmentAt s).HandlesTrue M ∧
      ∀ a : Allocation, a.resource ∈ st.world.outstanding →
        Disjoint (st'.world.segmentAt s).allocation.addrs a.addrs

/-- The steps on an honest machine. -/
def HonestStep [DecidableEq Tid] (M : HandleRanges C) (sys : System) (st : ConcHeap C Tid)
    (l : Label Tid) (st' : ConcHeap C Tid) : Prop :=
  ConcHeapStepOk sys st l st' ∧ HonestGrowth M st.toHeapState st'.toHeapState

/-- The memory of the segments of all pools. -/
structure SegmentsApart (M : HandleRanges C) (st : HeapState C) : Prop where
  handles : ∀ s, st.Registered s → (st.world.segmentAt s).HandlesTrue M
  disjoint : ∀ s s', st.Registered s → st.Registered s' → s ≠ s' →
    Disjoint (st.world.segmentAt s).allocation.addrs (st.world.segmentAt s').allocation.addrs

/-! ### The segments stay apart

A segment that stays keeps its memory and its regions. A new one is the only new one, as
a step registers one at most. -/

theorem Segment.HandlesTrue.of_fixed {M : HandleRanges C} {g g' : Segment C}
    (h : g.HandlesTrue M) (hfixed : g'.fixed = g.fixed) : g'.HandlesTrue M := by
  have htrue : g.fixed.HandlesTrue M := ⟨h.handle, h.deviceHandle⟩
  rw [← hfixed] at htrue
  exact ⟨htrue.handle, htrue.deviceHandle⟩

namespace ConcHeapInv

variable [Fintype Tid] {sys : System} {c : HeapConfig} {st st' : ConcHeap C Tid}
  {M : HandleRanges C} {w₀ : World C}

/-- The segments of a pool are made by it. -/
theorem made (h : ConcHeapInv sys c st) {id : PoolId} {params : PoolParams} {s : Nat}
    (hparams : st.heap.params? id = some params) (hs : s ∈ (st.data id).segments) :
    (st.world.segmentAt s).MadeBy sys id params :=
  (h.pool id params hparams).made s hs

/-- The memory of every segment is outstanding. -/
theorem allocation_outstanding (h : ConcHeapInv sys c st) (hacc : st.Accounted w₀) {s : Nat}
    (hs : st.Registered s) :
    (st.world.segmentAt s).allocation.resource ∈ st.world.outstanding := by
  obtain ⟨id, hmem⟩ := hs
  obtain ⟨params, hparams⟩ := h.params?_of_segment hmem
  refine hacc.outstanding.mem_iff.mpr (List.mem_append_left _ ?_)
  refine List.mem_flatMap.mpr ⟨s, h.segmentsOwned.mem_segments.mpr ⟨id, hmem⟩, ?_⟩
  simp [Segment.resources, (h.made hparams hmem).ptr_ne_zero]

variable [DecidableEq Tid]

/-- Every step on an honest machine keeps the segments apart. -/
theorem segmentsApart_step {l : Label Tid} (h : ConcHeapInv sys c st) (hacc : st.Accounted w₀)
    (hapart : SegmentsApart M st.toHeapState) (hstep : HonestStep M sys st l st') :
    SegmentsApart M st'.toHeapState := by
  obtain ⟨hsegs, hfixed⟩ := h.heapStep_segments hstep.1
  have halloc : ∀ s, st.Registered s →
      (st'.world.segmentAt s).allocation = (st.world.segmentAt s).allocation := fun s hs =>
    Segment.allocation_of_fixed (hfixed s hs)
  -- A segment that is new lies apart from one that is not.
  have hnew : ∀ s s', st'.Registered s → ¬st.Registered s → st.Registered s' →
      Disjoint (st'.world.segmentAt s).allocation.addrs
        (st'.world.segmentAt s').allocation.addrs := fun s s' hs hnot hs' => by
    rw [halloc s' hs']
    exact (hstep.2 s hs hnot).2 _ (h.allocation_outstanding hacc hs')
  have hunique : ∀ s s', st'.Registered s → ¬st.Registered s → st'.Registered s' →
      ¬st.Registered s' → s = s' := by
    intro s s' hs hnot hs' hnot'
    cases hsegs with
    | kept hreg => exact absurd ((hreg s).mp hs) hnot
    | grown env owner params g _ hreg =>
      exact (((hreg s).mp hs).resolve_right hnot).trans
        (((hreg s').mp hs').resolve_right hnot').symm
    | erased k _ hreg => exact absurd ((hreg s).mp hs).2 hnot
  refine ⟨fun s hs => ?_, fun s s' hs hs' hne => ?_⟩
  · by_cases hold : st.Registered s
    · exact (hapart.handles s hold).of_fixed (hfixed s hold)
    · exact (hstep.2 s hs hold).1
  · -- As for one thread: both are old, or one is new, or they are the same.
    by_cases hold : st.Registered s <;> by_cases hold' : st.Registered s'
    · rw [halloc s hold, halloc s' hold']
      exact hapart.disjoint s s' hold hold' hne
    · exact (hnew s' s hs' hold' hold).symm
    · exact hnew s s' hs hold hold'
    · exact absurd (hunique s s' hs hold hs' hold') hne

end ConcHeapInv

/-! ### All blocks of one state

A state of one thread is made up in which the clients hold everything: the stacks are
empty, and so are the counters. It need not be reachable; it satisfies the invariant,
and that is all that `RangesInv.correctState` asks for. Segments too small for a block
are left out, since their memory may be empty. -/

/-- The segments of a pool that have blocks. -/
def HeapState.blockSegments (st : HeapState C) (id : PoolId) : List Nat :=
  (st.data id).segments.filter fun s => 1 ≤ (st.world.segmentAt s).numBlocks

/-- The same segments, with all their blocks with the clients. -/
def HeapState.allHandedOut (st : HeapState C) : HeapState C where
  heap := st.heap
  world := { st.world with segmentAt := fun s => (st.world.segmentAt s).fixed }
  data := fun id => ⟨[], st.blockSegments id⟩
  live := fun id =>
    match st.heap.params? id with
    | some params =>
      (st.blockSegments id).flatMap fun s => (st.world.segmentAt s).blocks s params.deviceId
    | none => []

theorem HeapState.mem_blockSegments {st : HeapState C} {id : PoolId} {s : Nat} :
    s ∈ st.blockSegments id ↔
      s ∈ (st.data id).segments ∧ 1 ≤ (st.world.segmentAt s).numBlocks := by
  simp [blockSegments]

theorem Segment.MadeBy.fixed {sys : System} {owner : PoolId} {params : PoolParams}
    {g : Segment C} (h : g.MadeBy sys owner params) : g.fixed.MadeBy sys owner params :=
  ⟨h.pool, h.blockSize, h.numBlocks, h.ptr_ne_zero, h.size, h.node, h.onDevice⟩

section

variable [Fintype Tid] {sys : System} {c : HeapConfig} {st : ConcHeap C Tid}
  {M : HandleRanges C} {w₀ : World C}

/-- That is a state of one thread. -/
theorem ConcHeapInv.allHandedOut (h : ConcHeapInv sys c st) :
    HeapInv sys c st.toHeapState.allHandedOut where
  heap := h.heap
  nextSegment_pos := h.nextSegment_pos
  segment_pos := fun id s hs => h.segment_pos id s (HeapState.mem_blockSegments.mp hs).1
  absent := fun id hnone => by
    have hnone : st.heap.params? id = none := hnone
    refine ⟨?_, by simp [HeapState.allHandedOut, hnone]⟩
    simp [HeapState.allHandedOut, HeapState.blockSegments, (h.absent id hnone).1]
  pool := fun id params hsome => by
    have hsome : st.heap.params? id = some params := hsome
    have hinv := h.pool id params hsome
    have hmem : ∀ s ∈ st.blockSegments id, s ∈ (st.data id).segments := fun s hs =>
      (HeapState.mem_blockSegments.mp hs).1
    have hlive : st.toHeapState.allHandedOut.live id =
        (st.blockSegments id).flatMap fun s =>
          (st.world.segmentAt s).blocks s params.deviceId := by
      simp [HeapState.allHandedOut, hsome]
    refine ⟨hinv.segments_nodup.filter _, fun s hs => hinv.segments_lt s (hmem s hs),
      fun s hs => (h.made hsome (hmem s hs)).fixed, fun s _ => rfl, fun s _ b hb => ?_, ?_⟩
    · cases hb
    · have hnone : Pool.freed st.toHeapState.allHandedOut.world
          (st.toHeapState.allHandedOut.poolAt id params) = [] :=
        List.flatMap_eq_nil_iff.mpr fun s _ => rfl
      rw [hlive, hnone]
      exact .refl _

/-- And its memory is in order. -/
theorem ConcHeapInv.allHandedOut_ranges (h : ConcHeapInv sys c st) (hacc : st.Accounted w₀)
    (hapart : SegmentsApart M st.toHeapState) :
    RangesInv M sys c st.toHeapState.allHandedOut := by
  have hreg : ∀ {s}, st.toHeapState.allHandedOut.Registered s → st.Registered s :=
    fun ⟨id, hs⟩ => ⟨id, (HeapState.mem_blockSegments.mp hs).1⟩
  refine ⟨h.allHandedOut, fun s hs => ?_, fun s s' hs hs' hne => ?_⟩
  · obtain ⟨htrue, hdevice⟩ := hapart.handles s (hreg hs)
    refine ⟨h.allocation_outstanding hacc (hreg hs), ?_, htrue, hdevice⟩
    obtain ⟨id, hmem⟩ := hs
    obtain ⟨hmem, hblocks⟩ := HeapState.mem_blockSegments.mp hmem
    obtain ⟨params, hparams⟩ := h.params?_of_segment hmem
    have hmade := h.made hparams hmem
    -- A segment with a block is not empty.
    refine Nat.pos_of_ne_zero fun hzero => ?_
    have hzero : (st.world.segmentAt s).allocation.size = 0 := hzero
    rw [hmade.size] at hzero
    rw [hmade.numBlocks, segmentBlocks, hzero, Nat.zero_div] at hblocks
    omega
  · exact hapart.disjoint s s' (hreg hs) (hreg hs') hne

/-- A block that is somewhere is with a client there. -/
theorem ConcHeapInv.mem_allHandedOut (h : ConcHeapInv sys c st) {id : PoolId}
    {params : PoolParams} {b : Block C} (hparams : st.heap.params? id = some params)
    (hb : 0 < (st.view id params).places b) : b ∈ st.toHeapState.allHandedOut.live id := by
  obtain ⟨hs, hmem⟩ := (h.pool id params hparams).isBlock_of_places hb
  have hpos : 1 ≤ (st.world.segmentAt b.segment).numBlocks := by
    obtain ⟨i, hi, -⟩ := Segment.mem_blocks.mp hmem
    exact Nat.one_le_of_lt hi
  show b ∈ match st.heap.params? id with
    | some params =>
      (st.blockSegments id).flatMap fun s => (st.world.segmentAt s).blocks s params.deviceId
    | none => []
  rw [hparams]
  exact List.mem_flatMap.mpr ⟨_, HeapState.mem_blockSegments.mpr ⟨hs, hpos⟩, hmem⟩

end

/-- Whatever any number of threads do on an honest machine, as long as nothing throws:
a block that is somewhere, with a client, inside a call or in a stack, is in this one
place only; it is a range of its size class, inside the memory of its own segment, and
its handles stand for it; and no two blocks overlap. -/
theorem heap_blocks_disjoint [Fintype Tid] [DecidableEq Tid] {M : HandleRanges C} {sys : System}
    {c : HeapConfig} {st : ConcHeap C Tid}
    (hreach : Lib.Reachable (ConcHeap.Init sys c) (HonestStep M sys) st)
    {id : PoolId} {params : PoolParams} {b : Block C}
    (hparams : st.heap.params? id = some params) (hb : 0 < (st.view id params).places b) :
    (st.view id params).places b = 1 ∧ OwnsRange M st.toHeapState id b ∧
      ∀ id' params' b', st.heap.params? id' = some params' →
        0 < (st.view id' params').places b' → b' ≠ b → Disjoint (st.addrs b) (st.addrs b') := by
  obtain ⟨st₀, ls, hinit, hrun⟩ := hreach
  have hstep : ∀ (st : ConcHeap C Tid) l st',
      (ConcHeapInv sys c st ∧ st.Accounted st₀.world ∧ SegmentsApart M st.toHeapState) →
        HonestStep M sys st l st' →
          ConcHeapInv sys c st' ∧ st'.Accounted st₀.world ∧ SegmentsApart M st'.toHeapState := by
    rintro st l st' ⟨hinv, hacc, hapart⟩ hstep
    exact ⟨hinv.step hstep.1, hinv.accounted_step hacc hstep.1,
      hinv.segmentsApart_step hacc hapart hstep⟩
  have hnone : ∀ s, ¬st₀.Registered s := fun s ⟨id, hs⟩ => by
    rw [hinit.data] at hs
    cases hs
  obtain ⟨hinv, hacc, hapart⟩ := hrun.invariant hstep
    ⟨.init hinit, ConcHeapInv.accounted_init hinit,
      fun s hs => absurd hs (hnone s), fun s _ hs => absurd hs (hnone s)⟩
  have hranges := hinv.allHandedOut_ranges hacc hapart
  have hcorrect := hranges.correctState
  have hmem := hinv.mem_allHandedOut hparams hb
  refine ⟨?_, ?_, fun id' params' b' hparams' hb' hne => ?_⟩
  · exact le_antisymm ((hinv.pool id params hparams).places_le_one b) hb
  · have howns := hcorrect.owned id b hmem
    exact ⟨(HeapState.mem_blockSegments.mp howns.segment).1, howns.blockSize, howns.inside,
      howns.handle, howns.device⟩
  · exact hcorrect.disjoint id id' b b' hmem (hinv.mem_allHandedOut hparams' hb')
      fun heq => hne (Prod.mk.inj heq).2.symm

/-! ### A run

A machine that grants each new segment memory above all that is outstanding keeps the
promise. Only the steps of `add_segment` have to be looked at. -/

section

variable [DecidableEq Tid] {sys : System} {st st' : ConcHeap C Tid}

/-- A step that makes no segment object registers none. -/
theorem honestGrowth_of_nextSegment (M : HandleRanges C) {l : Label Tid}
    (h : ConcHeapStepOk sys st l st')
    (hsame : st'.world.nextSegment = st.world.nextSegment) :
    HonestGrowth M st.toHeapState st'.toHeapState := by
  obtain ⟨⟨t, rfl⟩, h⟩ := h
  have hsub : ∀ s, st'.Registered s → st.Registered s := by
    cases h with
    | @inPool _ id x params st₁ hx hne hparams hstep =>
      intro s hs
      rw [HeapState.registered_split _ id]
      rcases ConcHeap.registered_put.mp hs with hs | hs
      · left
        rcases concStep_segments ⟨⟨t, rfl⟩, hstep⟩ with
          ⟨hsegs, -⟩ | ⟨_, _, _, hgrown⟩ | ⟨k, -, herased⟩
        · rwa [hsegs] at hs
        · exact absurd (hgrown.nextSegment.symm.trans hsame) (Nat.succ_ne_self _)
        · rw [herased.pool] at hs
          exact List.mem_of_mem_erase hs
      · exact Or.inr hs
    | _ => exact fun _ hs => hs
  exact fun s hs hnot => absurd (hsub s hs) hnot

/-- A step is honest if the next segment object is, in case it makes one. -/
theorem ConcHeapInv.honestGrowth_of_new [Fintype Tid] {M : HandleRanges C} {c : HeapConfig}
    {l : Label Tid} (hinv : ConcHeapInv sys c st) (h : ConcHeapStepOk sys st l st')
    (htrue : (st'.world.segmentAt st.world.nextSegment).HandlesTrue M)
    (hapart : ∀ a : Allocation, a.resource ∈ st.world.outstanding →
      Disjoint (st'.world.segmentAt st.world.nextSegment).allocation.addrs a.addrs) :
    HonestGrowth M st.toHeapState st'.toHeapState := by
  intro s hs hnot
  cases (hinv.heapStep_segments h).1 with
  | kept hreg => exact absurd ((hreg s).mp hs) hnot
  | grown _ _ _ _ _ hreg =>
    rw [((hreg s).mp hs).resolve_right hnot]
    exact ⟨htrue, hapart⟩
  | erased _ _ hreg => exact absurd ((hreg s).mp hs).2 hnot

/-- A schedule without `add_segment` is a run on an honest machine. -/
theorem honestRun_of_schedule (M : HandleRanges C) {es : List (Tid × HeapChoice C)}
    (h : Lib.exec (fun st e => (ConcHeap.advance sys st e.1 e.2).filter fun st' =>
      st'.world.nextSegment = st.world.nextSegment) es st = some st') :
    Lib.Run (HonestStep M sys) st (es.map fun e => .normal e.1) st' := by
  refine (Lib.run_of_exec h).map fun st e st' hstep => ?_
  obtain ⟨hadvance, hsame⟩ := Option.filter_eq_some_iff.mp hstep
  have hok := ConcHeap.advance_sound hadvance
  exact ⟨hok, honestGrowth_of_nextSegment M hok (by simpa using hsame)⟩

end

/-- The machine grants memory above all that is outstanding, and the handles of the new
segment stand for it: the step is honest, and so is the schedule before it. -/
theorem reachable_grown [Fintype Tid] [DecidableEq Tid] {sys : System} {c : HeapConfig}
    {st st₁ st₂ : ConcHeap rangeContext Tid} {es : List (Tid × HeapChoice rangeContext)} {t : Tid}
    {e : HeapChoice rangeContext} {g : Segment rangeContext}
    (h : Lib.Reachable (ConcHeap.Init sys c) (HonestStep rangeHandles sys) st)
    (hbefore : Lib.exec (fun st e => (ConcHeap.advance sys st e.1 e.2).filter fun st' =>
      st'.world.nextSegment = st.world.nextSegment) es st = some st₁)
    (hgrow : ConcHeap.advance sys st₁ t e = some st₂)
    (hg : st₂.world.segmentAt st₁.world.nextSegment = g)
    (hregion : g.region = rangeRegion g.allocation.ptr) (hdevice : g.deviceRegion = none)
    (hbelow : st₁.world.outstanding.all (Resource.below g.allocation.ptr) = true) :
    Lib.Reachable (ConcHeap.Init sys c) (HonestStep rangeHandles sys) st₂ := by
  obtain ⟨st₀, ls, hinit, hrun⟩ := h
  have hrun₁ := hrun.append (honestRun_of_schedule rangeHandles hbefore)
  have hinv : ConcHeapInv sys c st₁ := by
    refine reachable_concHeapInv ⟨st₀, _, hinit, hrun₁.map (g := id) fun _ _ _ h => h.1⟩
  have hstep := ConcHeap.advance_sound hgrow
  refine ⟨st₀, _, hinit, hrun₁.snoc ⟨hstep, hinv.honestGrowth_of_new hstep ?_ fun a ha => ?_⟩⟩
  · rw [hg]
    refine ⟨fun o s _ => ?_, fun r hr => ?_⟩
    · rw [hregion]
      rfl
    · rw [hdevice] at hr
      cases hr
  · rw [hg]
    exact disjoint_of_below (List.all_eq_true.mp hbelow _ ha)

/-- Two pools have a segment, clients hold a block of each, and another block of the first
one is being returned. -/
theorem heap_blocks_disjoint_twoPoolsReturn :
    ∃ (st : ConcHeap rangeContext Bool) (b : Block rangeContext),
      st.live ⟨.tiny 7, false, 0⟩ = [smallBlock 1] ∧ st.live ⟨.tiny 2, false, 0⟩ = [b] ∧
      st.pc true = .inPool ⟨.tiny 7, false, 0⟩ (.freeInc (smallBlock 0)) ∧
      OwnsRange rangeHandles st.toHeapState ⟨.tiny 7, false, 0⟩ (smallBlock 1) ∧
      Disjoint (st.addrs (smallBlock 1)) (st.addrs b) ∧
      Disjoint (st.addrs (smallBlock 1)) (st.addrs (smallBlock 0)) := by
  -- The schedule of `twoPoolsReturn`, with the two calls of `add_segment` set apart.
  obtain ⟨st₁, st₂, st₃, st₄, st, g, g', b, ⟨hbefore, hgrow, hg, hbelow⟩,
      ⟨hbefore', hgrow', hg', hbelow'⟩, ⟨hregion, hdevice, hregion', hdevice'⟩, hafter,
      hlive, hlive', hpc, hfreed, hparams, hparams', hne⟩ : ∃ st₁ st₂ st₃ st₄ st g g' b,
      (Lib.exec (fun st e => (ConcHeap.advance smallPages st e.1 e.2).filter fun st' =>
          st'.world.nextSegment = st.world.nextSegment)
          (heapAllocate false 64 :: heapAdvanceBy false 6 4096) smallHeapStart = some st₁ ∧
        ConcHeap.advance smallPages st₁ false (.go (.go [] (grantAt 4096) false)) = some st₂ ∧
        st₂.world.segmentAt st₁.world.nextSegment = g ∧
        st₁.world.outstanding.all (Resource.below g.allocation.ptr) = true) ∧
      (Lib.exec (fun st e => (ConcHeap.advance smallPages st e.1 e.2).filter fun st' =>
          st'.world.nextSegment = st.world.nextSegment)
          (heapAdvanceBy false 3 4096 ++ heapAllocate true 24 :: heapAdvanceBy true 6 8192) st₂ =
            some st₃ ∧
        ConcHeap.advance smallPages st₃ true (.go (.go [] (grantAt 8192) false)) = some st₄ ∧
        st₄.world.segmentAt st₃.world.nextSegment = g' ∧
        st₃.world.outstanding.all (Resource.below g'.allocation.ptr) = true) ∧
      (g.region = rangeRegion g.allocation.ptr ∧ g.deviceRegion = none ∧
        g'.region = rangeRegion g'.allocation.ptr ∧ g'.deviceRegion = none) ∧
      Lib.exec (fun st e => (ConcHeap.advance smallPages st e.1 e.2).filter fun st' =>
          st'.world.nextSegment = st.world.nextSegment)
          (heapAdvanceBy true 3 8192 ++ heapAllocate false 64 :: heapAdvanceBy false 3 4096 ++
            (true, .free ⟨.tiny 7, false, 0⟩ (smallBlock 0)) :: heapAdvanceBy true 1 4096) st₄ =
            some st ∧
      st.live ⟨.tiny 7, false, 0⟩ = [smallBlock 1] ∧ st.live ⟨.tiny 2, false, 0⟩ = [b] ∧
      st.pc true = .inPool ⟨.tiny 7, false, 0⟩ (.freeInc (smallBlock 0)) ∧
      0 < (st.view ⟨.tiny 7, false, 0⟩ (pool 64 128 0 false 16)).freedCount (smallBlock 0) ∧
      st.heap.params? ⟨.tiny 7, false, 0⟩ = some (pool 64 128 0 false 16) ∧
      st.heap.params? ⟨.tiny 2, false, 0⟩ = some (pool 24 128 0 false 16) ∧ b.ptr = 8192 :=
    ⟨_, _, _, _, _, _, _, _, ⟨rfl, rfl, rfl, rfl⟩, ⟨rfl, rfl, rfl, rfl⟩, ⟨rfl, rfl, rfl, rfl⟩, rfl,
      rfl, rfl, rfl, by decide, rfl, rfl, rfl⟩
  have hreach₂ := reachable_grown (.of_init smallHeapStart_init) hbefore hgrow hg hregion hdevice
    hbelow
  obtain ⟨st₀, ls, hinit, hrun⟩ := reachable_grown hreach₂ hbefore' hgrow' hg' hregion' hdevice'
    hbelow'
  have hreach : Lib.Reachable (ConcHeap.Init smallPages smallSegmentConfig)
      (HonestStep rangeHandles smallPages) st :=
    ⟨st₀, _, hinit, hrun.append (honestRun_of_schedule rangeHandles hafter)⟩
  have hplaces : ∀ {id : PoolId} {params : PoolParams} {b : Block rangeContext}, b ∈ st.live id →
      0 < (st.view id params).places b := by
    intro id params b hb
    have hpos : 0 < (st.view id params).live.count b := List.count_pos_iff.mpr hb
    rw [ConcState.places]
    omega
  obtain ⟨-, howns, hapart⟩ := heap_blocks_disjoint hreach hparams
    (hplaces (by rw [hlive]; exact List.mem_singleton.mpr rfl))
  refine ⟨st, b, hlive, hlive', hpc, howns, hapart _ _ b hparams' (hplaces (by simp [hlive'])) ?_,
    hapart _ _ (smallBlock 0) hparams ?_ (by decide)⟩
  · rintro rfl
    exact absurd hne (by decide)
  · rw [ConcState.places]
    omega

end HwMalloc
