import HwMalloc.HeapProgress
import HwMalloc.Lib.Progress
import HwMalloc.UsableSegments

/-!
# HwMalloc.CallsEnd

The calls of the heap end: without new calls no schedule of the threads goes on
for ever, and none stops before all calls have returned, unless `add_segment` throws.

Neither is clear from one call on its own. A thread that collects may find a freed
stack full again, because others have returned blocks meanwhile, and a thread in the
loop of `allocate` may be robbed of the block it has just pushed. What bounds both is
what the other threads still have to do, so that the measure is one of all threads.

## The measure

Three sums over the threads, in lexicographic order (`Lib.lex₃`):

* **stages** drops with every block that is popped from `m_free_stack` or pushed to a
  freed stack. A block that one thread takes from another is a call that gets on.
* **starved** counts the threads that wait for a block of a pool that has none. It
  drops when a segment is added, because a segment has blocks (`segmentBlocks_pos`):
  this is where the limits of the configuration come in.
* **rank** bounds the steps of each thread to its next pop or push. The collect loops
  empty the freed stacks, which nobody fills while `stages` stays the same.

`concStep_progresses` says of one step in one pool which of the three it decreases,
and `todo_put_lt` lifts this to the heap. That the threads do not stop early is the
progress of `HwMalloc.HeapProgress`.
-/

namespace HwMalloc

variable {C : Context} {Tid : Type}

/-! ### Pools with blocks

A pool whose segments have no block would let its `allocate` add segments for ever.
With limits that fit, every segment has at least one, whatever the pool: the keys of
`m_huge_heaps` are powers of two, for which the segment is sized to the block. -/

/-- The keys of `m_huge_heaps` are rounded sizes. -/
def Heap.KeysRounded (h : Heap) : Prop :=
  ∀ key f, h.hugeHeaps.lookup key = some f → ∃ size, key = roundToPowOf2 size

theorem Heap.KeysRounded.hugeEntry {h : Heap} (hk : h.KeysRounded) (size : Nat) :
    (h.hugeEntry (roundToPowOf2 size)).KeysRounded := by
  intro key f hf
  unfold Heap.hugeEntry at hf
  cases hlookup : h.hugeHeaps.lookup (roundToPowOf2 size) with
  | some f' =>
    rw [hlookup] at hf
    exact hk key f hf
  | none =>
    rw [hlookup] at hf
    by_cases heq : key = roundToPowOf2 size
    · exact ⟨size, heq⟩
    · dsimp only at hf
      rw [List.lookup_cons, beq_eq_false_iff_ne.mpr heq] at hf
      exact hk key f hf

/-- Each class of a configuration whose limits fit has blocks in its segments. -/
theorem segmentBlocks_pos {sys : System} {a : HeapConfigArgs} {c : HeapConfig}
    (hc : heapConfig a = .ok c) (hfit : RoundedLimitsFit sys.pageSize a)
    (hpage : 0 < sys.pageSize) (hpage' : sys.pageSize + 2 ^ 31 ≤ 2 ^ 64) {h : Heap}
    (hw : h.WellFormed sys.topo c) (hkeys : h.KeysRounded) {id : PoolId} {params : PoolParams}
    (hparams : h.params? id = some params) : 1 ≤ segmentBlocks sys params := by
  obtain ⟨t, s, l, hshape⟩ := heapConfig_shape hc
  have hinit := (heapConfig_ok_iff.mp hc).1
  have hfits : ∀ m n : Nat, roundToPowOf2 m ≤ segmentBytes sys (roundToPowOf2 n) ↔
      SegmentFits sys.pageSize (roundToPowOf2 m) (roundToPowOf2 n) := fun m n =>
    le_segmentBytes_iff hpage (by omega) (roundToPowOf2_range m).1 (roundToPowOf2_range n).1
      (roundToPowOf2_range n).2
  -- Segments that are as large as their blocks.
  have hself : ∀ b : Nat, 0 < b → b ≤ 2 ^ 31 → b ≤ segmentBytes sys b := by
    intro b hb hb'
    rw [le_segmentBytes_iff hpage (by omega) hb hb (by omega), SegmentFits]
    exact ⟨by omega, Lib.le_div_mul_of_pos hpage⟩
  obtain ⟨f, hf, hslot⟩ := Option.bind_eq_some_iff.mp hparams
  have husable : 1 ≤ segmentBytes sys f.segmentSize / f.blockSize := by
    obtain ⟨htiny, hsmall, hlarge, htop⟩ := hfit
    cases hid : id.heap with
    | tiny i =>
      rw [hid, Heap.find?, hw.tinyHeaps_eq] at hf
      refine ((tinyHeaps_usable_iff (C := rangeContext) hshape).mpr ?_ f
        (List.mem_of_getElem? (Option.join_eq_some_iff.mp hf))).1
      rw [hinit]
      exact fun hle => (hfits _ _).mpr (htiny hle)
    | sized i =>
      rw [hid, Heap.find?, hw.heaps_eq] at hf
      refine ((heaps_usable_iff (C := rangeContext) hshape).mpr ?_ f
        (List.mem_of_getElem? (Option.join_eq_some_iff.mp hf))).1
      rw [hinit]
      refine ⟨(hfits _ _).mpr hsmall, (hfits _ _).mpr hlarge, fun hlt => hself _ ?_ ?_⟩
      · exact Nat.mul_pos (by omega) (roundToPowOf2_range a.largeLimit).1
      · obtain ⟨k, hk, hround⟩ := roundToPowOf2_two_pow_form a.largeLimit
        simp only [HeapConfig.init] at hlt ⊢
        rw [hround] at hlt ⊢
        have hk' : k < 31 := (Nat.pow_lt_pow_iff_right (by omega)).mp hlt
        rw [← Nat.pow_succ']
        exact Nat.pow_le_pow_right (by omega) hk'
    | huge key =>
      rw [hid, Heap.find?] at hf
      obtain ⟨size, rfl⟩ := hkeys key f hf
      obtain rfl := hw.huge _ f hf
      have hrange := roundToPowOf2_range size
      refine (Nat.one_le_div_iff hrange.1).mpr (hself _ hrange.1 ?_)
      obtain ⟨k, hk, hround⟩ := roundToPowOf2_two_pow_form size
      rw [hround]
      exact Nat.pow_le_pow_right (by omega) (by omega)
  obtain ⟨b, g, rfl⟩ := Heap.find?_eq_some hw hf
  obtain ⟨n, d, rfl, -⟩ := poolAt_eq_some hslot
  cases d <;> exact husable

/-! ### What a thread has left to do

The numbers of `rank` count the steps of the longest way from a place in the code to
the next pop or push, with 2 steps for each freed block that is collected and 3 for
each segment that the loop visits. They are not tight, and need not be: what matters
is that every step goes down, whatever the other threads have done before it. -/

namespace Pc

/-- The block that is still to be popped, or to be pushed. -/
def unmet : Pc C → Nat
  | allocPop | allocLock | allocPopLocked | collectPop _ _ _ | collectPush _ _ _ _
  | collectSub _ _ _ | allocPopCollected | growPop _ | grow _ | freePush _ => 1
  | _ => 0

/-- A bound for the steps to the next pop or push, if the segments hold `freed`
freed blocks and there are `segs` of them. -/
def rank (freed segs : Nat) : Pc C → Nat
  | allocPop => 2 * freed + 3 * segs + 9
  | allocLock => 2 * freed + 3 * segs + 8
  | allocPopLocked => 2 * freed + 3 * segs + 7
  | collectPop _ todo _ => 2 * freed + 3 * todo.length + 6
  | collectPush _ _ todo _ => 2 * freed + 3 * todo.length + 7
  | collectSub _ todo _ => 2 * freed + 3 * todo.length + 5
  | allocPopCollected => 4
  | growPop counter => if counter % 2 = 0 then 2 else 3
  | grow _ => 1
  | allocUnlock _ => 2
  | allocReturn _ => 1
  | freePush _ => 0
  | freeInc _ => 6
  | freeTest _ => 5
  | freeLock _ => 4
  | freeRecheck _ => 3
  | freeErase _ => 2
  | freeUnlock => 1
  | idle => 0

theorem rank_mono {freed freed' segs segs' : Nat} (hfreed : freed' ≤ freed) (hsegs : segs' ≤ segs)
    (x : Pc C) : x.rank freed' segs' ≤ x.rank freed segs := by
  cases x <;> simp only [rank] <;> omega

/-- A pop meets the demand. -/
theorem unmet_of_onPop {x : Pc C} {next : Block C → Pc C} (h : x.onPop = some next)
    (b : Block C) : (next b).unmet < x.unmet := by
  cases x <;> simp only [onPop, Option.some.injEq, reduceCtorEq] at h
  all_goals
    subst h
    simp [unmet]

theorem unmet_collectNext (todo : List Nat) : (collectNext todo : Pc C).unmet = 1 := by
  cases todo <;> rfl

theorem rank_collectNext (freed segs : Nat) (todo : List Nat) :
    (collectNext todo : Pc C).rank freed segs ≤ 2 * freed + 3 * todo.length + 4 := by
  cases todo with
  | nil => simp only [collectNext, rank]; omega
  | cons s todo => simp only [collectNext, rank, List.length_cons]; omega

/-- A pop that fails leads on, and to `add_segment` only from a pop. -/
theorem onEmpty_rank {x y : Pc C} {order : List Nat} (h : x.onEmpty order = some y)
    (freed : Nat) : y.unmet = x.unmet ∧ y.rank freed order.length < x.rank freed order.length := by
  cases x <;> simp only [onEmpty, Option.some.injEq, reduceCtorEq] at h
  case allocPop =>
    -- On to the mutex.
    subst h
    simp [unmet, rank]
  case allocPopLocked =>
    -- On to the collect loop, over all segments.
    subst h
    refine ⟨unmet_collectNext order, (rank_collectNext freed order.length order).trans_lt ?_⟩
    show _ < 2 * freed + 3 * order.length + 7
    omega
  case allocPopCollected =>
    subst h
    simp [unmet, rank]
  case growPop counter =>
    -- The loop of `allocate` tries twice before it adds a segment.
    subst h
    by_cases heven : counter % 2 = 0
    · simp [unmet, rank, heven]
    · have hodd : (counter + 1) % 2 = 0 := by omega
      simp [unmet, rank, heven, hodd]

end Pc

/-- The freed blocks of the segments `segs`. -/
def freedTotal (w : World C) (segs : List Nat) : Nat :=
  ∑ s ∈ segs.toFinset, (w.segmentAt s).freedStack.length

/-- There is no block to pop, or a thread has found none and adds a segment. -/
def ConcState.Starving (st : ConcState C Tid) : Prop :=
  st.pool.freeStack = [] ∨ ∃ t n, st.pc t = .grow n

/-- What thread `t` has left to do in the pool. -/
def ConcState.rank (st : ConcState C Tid) (x : Pc C) : Nat :=
  x.rank (freedTotal st.world st.pool.segments) st.pool.segments.length

/-- What a step of thread `t` achieves. -/
inductive Progresses (st st' : ConcState C Tid) (t : Tid) : Prop
  /-- A block is popped or pushed. -/
  | met : (st'.pc t).unmet < (st.pc t).unmet → Progresses st st' t
  /-- The pool gets blocks. -/
  | fed : (st'.pc t).unmet = (st.pc t).unmet → 0 < (st.pc t).unmet →
      st.Starving → ¬st'.Starving → Progresses st st' t
  /-- The thread goes on, and no other thread gets more to do. -/
  | walks : (st'.pc t).unmet ≤ (st.pc t).unmet → (st'.Starving → st.Starving) →
      (∀ x, st'.rank x ≤ st.rank x) → st'.rank (st'.pc t) < st.rank (st.pc t) →
      Progresses st st' t

theorem freedTotal_le {w w' : World C} {segs segs' : List Nat} (hsub : segs' ⊆ segs)
    (hle : ∀ s ∈ segs', (w'.segmentAt s).freedStack.length ≤ (w.segmentAt s).freedStack.length) :
    freedTotal w' segs' ≤ freedTotal w segs := by
  refine (Finset.sum_le_sum fun s hs => hle s (List.mem_toFinset.mp hs)).trans ?_
  refine Finset.sum_le_sum_of_subset fun s hs => ?_
  exact List.mem_toFinset.mpr (hsub (List.mem_toFinset.mp hs))

/-- A write to a segment that does not lengthen its freed stack. -/
theorem freedTotal_modifySegment_le {w : World C} {segs : List Nat} {s : Nat}
    {f : Segment C → Segment C} (hf : ∀ g, (f g).freedStack.length ≤ g.freedStack.length) :
    freedTotal (w.modifySegment s f) segs ≤ freedTotal w segs := by
  refine freedTotal_le (List.Subset.refl _) fun s' _ => ?_
  rw [World.modifySegment_segmentAt]
  split
  · next heq => exact heq ▸ hf _
  · exact le_rfl

/-- A pop from a freed stack of the pool. -/
theorem freedTotal_popFreed {w : World C} {segs : List Nat} {s : Nat} {b : Block C}
    {rest : List (Block C)} (hs : s ∈ segs) (hfreed : (w.segmentAt s).freedStack = b :: rest) :
    freedTotal (w.modifySegment s Segment.popFreed) segs < freedTotal w segs := by
  refine Finset.sum_lt_sum (fun s' _ => ?_) ⟨s, List.mem_toFinset.mpr hs, ?_⟩
  · rw [World.modifySegment_segmentAt]
    split
    · next heq => simp [heq, Segment.popFreed]
    · exact le_rfl
  · rw [World.modifySegment_segmentAt, if_pos rfl]
    simp [Segment.popFreed, hfreed]

variable [DecidableEq Tid]

/-- A thread walks, and the pool gets nothing to collect. -/
theorem Progresses.of_setPc {st st₁ : ConcState C Tid} {t : Tid} {x y : Pc C}
    (hx : st.pc t = x) (hpc : st₁.pc = st.pc)
    (hfree : st₁.pool.freeStack = [] → st.pool.freeStack = []) (hgrow : ∀ n, y ≠ .grow n)
    (hfreed : freedTotal st₁.world st₁.pool.segments ≤ freedTotal st.world st.pool.segments)
    (hsegs : st₁.pool.segments.length ≤ st.pool.segments.length) (hunmet : y.unmet ≤ x.unmet)
    (hrank : st₁.rank y < st.rank x) : Progresses st (st₁.setPc t y) t := by
  refine .walks ?_ ?_ (Pc.rank_mono hfreed hsegs) ?_
  · rw [ConcState.setPc_pc_self, hx]
    exact hunmet
  · rintro (hempty | ⟨u, n, hu⟩)
    · exact Or.inl (hfree hempty)
    · refine Or.inr ⟨u, n, ?_⟩
      by_cases hut : u = t
      · rw [hut, ConcState.setPc_pc_self] at hu
        exact absurd hu (hgrow n)
      · rwa [ConcState.setPc_pc_ne _ _ _ hut, hpc] at hu
  · rw [ConcState.setPc_pc_self, hx]
    exact hrank

/-- A thread walks, and touches neither the pool nor a segment. -/
theorem Progresses.of_move {st : ConcState C Tid} {m : Option Tid} {live : List (Block C)}
    {t : Tid} {x y : Pc C} (hx : st.pc t = x) (hgrow : ∀ n, y ≠ .grow n)
    (hunmet : y.unmet ≤ x.unmet) (hrank : ∀ freed segs, y.rank freed segs < x.rank freed segs) :
    Progresses st ({ st with mutex := m, live := live }.setPc t y) t :=
  .of_setPc hx rfl id hgrow le_rfl le_rfl hunmet (hrank _ _)

/-- Each step of a call without exception achieves something, if the segments of
the pool have blocks. -/
theorem concStep_progresses [Fintype Tid] {sys : System} {st st' : ConcState C Tid} {t : Tid}
    (hinv : ConcInv sys st) (hblocks : 1 ≤ segmentBlocks sys st.pool.toPoolParams)
    (hbusy : st.pc t ≠ .idle) (h : ConcStep sys st (.normal t) st') : Progresses st st' t := by
  cases h with
  | callAllocate hx => exact absurd hx hbusy
  | callFree hx _ => exact absurd hx hbusy
  | pop hx _ =>
    refine .met ?_
    rw [ConcState.setPc_pc_self]
    exact Pc.unmet_of_onPop hx _
  | @popEmpty _ order y hy hfree horder =>
    have hlen := horder.length_eq
    obtain ⟨hunmet, hrank⟩ := Pc.onEmpty_rank hy (freedTotal st.world st.pool.segments)
    rw [hlen] at hrank
    refine .walks ?_ (fun _ => Or.inl (popFree_eq_none.mp hfree)) (fun _ => le_rfl) ?_
    · rw [ConcState.setPc_pc_self, hunmet]
    · rw [ConcState.setPc_pc_self]
      exact hrank
  | allocLock hx => exact .of_move hx (by simp) (by simp [Pc.unmet]) (by simp [Pc.rank])
  | @collectPop _ s todo n b rest hx hfreed =>
    -- The freed block pays for the two steps to the next turn of the loop.
    have hs : s ∈ st.pool.segments := hinv.uses t s (by rw [hx]; exact List.mem_cons_self)
    have hlt := freedTotal_popFreed hs hfreed
    refine .of_setPc hx rfl id (by simp) hlt.le le_rfl (by simp [Pc.unmet]) ?_
    show 2 * freedTotal (st.world.modifySegment s Segment.popFreed) st.pool.segments +
      3 * todo.length + 7 < 2 * freedTotal st.world st.pool.segments + 3 * todo.length + 6
    omega
  | collectEmpty hx _ => exact .of_move hx (by simp) (by simp [Pc.unmet]) (by simp [Pc.rank])
  | collectPush hx =>
    refine .of_setPc hx rfl (by simp) (by simp) le_rfl le_rfl (by simp [Pc.unmet]) ?_
    simp [ConcState.rank, Pc.rank]
  | @collectSub _ s todo n hx =>
    have hle : freedTotal (st.world.modifySegment s (Segment.addFreed (-n))) st.pool.segments ≤
        freedTotal st.world st.pool.segments := freedTotal_modifySegment_le fun _ => le_rfl
    refine .of_setPc hx rfl id (fun _ => ?_) hle le_rfl (Pc.unmet_collectNext todo).le ?_
    · cases todo <;> simp [Pc.collectNext]
    · refine (Pc.rank_collectNext _ _ todo).trans_lt ?_
      show _ < 2 * freedTotal st.world st.pool.segments + 3 * todo.length + 5
      exact Nat.lt_succ_of_le (Nat.add_le_add_right
        (Nat.add_le_add_right (Nat.mul_le_mul_left 2 hle) _) 4)
  | @grow _ counter env w p hx hadd =>
    -- Nobody else can be in `add_segment`, so that the new blocks end the starvation.
    obtain ⟨g, hnew, hgrown⟩ := addSegment_ok hadd
    refine .fed ?_ (by simp [hx, Pc.unmet]) (Or.inr ⟨t, counter, hx⟩) ?_
    · rw [ConcState.setPc_pc_self, hx]
      rfl
    · rintro (hempty | ⟨u, n, hu⟩)
      · have hlen := congrArg List.length hempty
        simp only [ConcState.setPc_pool, hgrown.pool, List.length_append, Segment.blocks_length,
          hnew.numBlocks, List.length_nil] at hlen
        omega
      · by_cases hut : u = t
        · rw [hut, ConcState.setPc_pc_self] at hu
          cases hu
        · rw [ConcState.setPc_pc_ne _ _ _ hut] at hu
          have hcrit : (st.pc u).Critical := by
            rw [show st.pc u = .grow n from hu]
            trivial
          exact hut (hinv.critical_unique (by rw [hx]; trivial) hcrit)
  | allocUnlock hx => exact .of_move hx (by simp) (by simp [Pc.unmet]) (by simp [Pc.rank])
  | allocReturn hx => exact .of_move hx (by simp) (by simp [Pc.unmet]) (by simp [Pc.rank])
  | freePush hx =>
    refine .met ?_
    rw [ConcState.setPc_pc_self, hx]
    simp [Pc.unmet]
  | @freeInc _ b hx =>
    have hle : freedTotal (st.world.modifySegment b.segment (Segment.addFreed 1))
        st.pool.segments ≤ freedTotal st.world st.pool.segments :=
      freedTotal_modifySegment_le fun _ => le_rfl
    refine .of_setPc hx rfl id (fun _ => ?_) hle le_rfl ?_ ?_
    · split <;> simp
    · split <;> simp [Pc.unmet]
    · split <;> simp [ConcState.rank, Pc.rank]
  | freeTest hx _ =>
    refine .of_move hx (fun _ => ?_) ?_ fun _ _ => ?_
    · split <;> simp
    · split <;> simp [Pc.unmet]
    · split <;> simp [Pc.rank]
  | freeLock hx _ => exact .of_move hx (by simp) (by simp [Pc.unmet]) (by simp [Pc.rank])
  | freeRecheck hx _ =>
    refine .of_move hx (fun _ => ?_) ?_ fun _ _ => ?_
    · split <;> simp
    · split <;> simp [Pc.unmet]
    · split <;> simp [Pc.rank]
  | @freeErase _ b hx =>
    -- The segment may be gone already, in which case nothing is erased.
    by_cases hs : b.segment ∈ st.pool.segments
    · have herased : Erased b.segment st.world st.pool _ _ := eraseSegment_erased hs
      have hle : freedTotal (st.pool.eraseSegment b.segment st.world).1
          (st.pool.segments.erase b.segment) ≤ freedTotal st.world st.pool.segments := by
        refine freedTotal_le List.erase_subset fun s hs' => ?_
        rw [herased.segmentAt s ((hinv.segments_nodup.mem_erase_iff).mp hs').1]
      have hsegs : (st.pool.eraseSegment b.segment st.world).2.segments =
          st.pool.segments.erase b.segment := by rw [herased.pool]
      refine .of_setPc hx rfl ?_ (by simp) ?_ ?_ (by simp [Pc.unmet]) ?_
      · simp [herased.pool]
      · rwa [hsegs]
      · rw [hsegs]
        exact List.length_erase_le
      · simp [ConcState.rank, Pc.rank]
    · rw [eraseSegment_of_not_mem hs]
      exact .of_move hx (by simp) (by simp [Pc.unmet]) (by simp [Pc.rank])
  | freeUnlock hx => exact .of_move hx (by simp) (by simp [Pc.unmet]) (by simp [Pc.rank])

/-! ### The whole heap

The same three numbers, for threads that may be in different pools or in the search of
`m_huge_heaps`. A step in one pool leaves the numbers of the others as they are: it
touches no segment of theirs, and its thread does not count there. -/

/-- What is still to be done before the block is popped or pushed. -/
def HeapPc.stages : HeapPc C → Nat
  | .idle => 0
  | .hugeLock _ => 5
  | .hugeFind _ => 4
  | .hugeUnlock _ => 3
  | .dispatch _ _ => 2
  | .inPool _ x => x.unmet

theorem HeapPc.stages_ofPool (id : PoolId) (x : Pc C) : (ofPool id x).stages = x.unmet := by
  cases x <;> rfl

namespace ConcHeap

/-- The pool `id` has no block to pop, or a thread has found none and adds a
segment. -/
def Starving (st : ConcHeap C Tid) (id : PoolId) : Prop :=
  (st.data id).freeStack = [] ∨ ∃ t n, (st.pc t).within id = .grow n

open Classical in
/-- A thread that is in a pool that starves. -/
noncomputable def starved (st : ConcHeap C Tid) : HeapPc C → Nat
  | .inPool id x => if st.Starving id then x.unmet else 0
  | _ => 0

/-- What a thread at `x` has left to do in its pool. -/
def rank (st : ConcHeap C Tid) : HeapPc C → Nat
  | .inPool id x => x.rank (freedTotal st.world (st.data id).segments) (st.data id).segments.length
  | _ => 0

/-- The three measures. -/
noncomputable def todo [Fintype Tid] (st : ConcHeap C Tid) : ℕ ×ₗ ℕ ×ₗ ℕ :=
  Lib.lex₃ (∑ t, (st.pc t).stages) (∑ t, st.starved (st.pc t)) (∑ t, st.rank (st.pc t))

omit [DecidableEq Tid] in
theorem starved_ofPool (st : ConcHeap C Tid) (id : PoolId) (x : Pc C) :
    st.starved (.ofPool id x) = st.starved (.inPool id x) := by
  cases x <;> simp [HeapPc.ofPool, starved, Pc.unmet]

omit [DecidableEq Tid] in
theorem rank_ofPool (st : ConcHeap C Tid) (id : PoolId) (x : Pc C) :
    st.rank (.ofPool id x) = st.rank (.inPool id x) := by
  cases x <;> simp [HeapPc.ofPool, rank, Pc.rank]

omit [DecidableEq Tid] in
theorem starved_mono {st st' : ConcHeap C Tid} (h : ∀ id, st'.Starving id → st.Starving id)
    (x : HeapPc C) : st'.starved x ≤ st.starved x := by
  cases x with
  | inPool id x =>
    by_cases hst : st'.Starving id
    · simp [starved, hst, h id hst]
    · simp [starved, hst]
  | _ => exact le_rfl

end ConcHeap

/-- One thread moves from `x` to `y`, the others contribute no more than before. -/
theorem sum_setPc_lt [Fintype Tid] {pc : Tid → HeapPc C} {f g : HeapPc C → Nat} {t : Tid}
    {y : HeapPc C} (hle : ∀ u, u ≠ t → f (pc u) ≤ g (pc u)) (hlt : f y < g (pc t)) :
    ∑ u, f (Function.update pc t y u) < ∑ u, g (pc u) := by
  refine Finset.sum_lt_sum (fun u _ => ?_) ⟨t, Finset.mem_univ t, by simpa using hlt⟩
  by_cases hu : u = t
  · subst hu
    simpa using hlt.le
  · simpa [hu] using hle u hu

theorem sum_setPc_le [Fintype Tid] {pc : Tid → HeapPc C} {f g : HeapPc C → Nat} {t : Tid}
    {y : HeapPc C} (hle : ∀ u, u ≠ t → f (pc u) ≤ g (pc u)) (hself : f y ≤ g (pc t)) :
    ∑ u, f (Function.update pc t y u) ≤ ∑ u, g (pc u) := by
  refine Finset.sum_le_sum fun u _ => ?_
  by_cases hu : u = t
  · subst hu
    simpa using hself
  · simpa [hu] using hle u hu

section

variable [Fintype Tid] {sys : System} {c : HeapConfig} {st : ConcHeap C Tid} {t : Tid}

/-- A step outside the pools brings the thread closer to its block. -/
theorem todo_setPc_lt {heap : Heap} {m : Option Tid} {y : HeapPc C}
    (hlt : y.stages < (st.pc t).stages) :
    ({ st with heap := heap, mutex := m }.setPc t y).todo < st.todo :=
  Lib.lex₃_lt_of_fst (sum_setPc_lt (fun _ _ => le_rfl) hlt)

omit [Fintype Tid] in
/-- The other pools starve as before. -/
theorem starving_put_ne {id id' : PoolId} {st₁ : ConcState C Tid} (hne : id' ≠ id)
    (hidle : (st.pc t).within id' = .idle) :
    (st.put id t st₁).Starving id' ↔ st.Starving id' := by
  have hdata : (st.put id t st₁).data id' = st.data id' := by simp [ConcHeap.put, hne]
  have hpc : ∀ u, ((st.put id t st₁).pc u).within id' = (st.pc u).within id' := by
    intro u
    by_cases hu : u = t
    · subst hu
      simp [ConcHeap.put, HeapPc.within_ofPool_ne hne, hidle]
    · simp [ConcHeap.put, hu]
  simp only [ConcHeap.Starving, hdata, hpc]

/-- The threads of the other pools have as much to do as before. -/
theorem rank_put_ne (h : ConcHeapInv sys c st) {id : PoolId} {segs : List Nat}
    {st₁ : ConcState C Tid} (hsegs : segs = (st.data id).segments)
    (huntouched : Untouched segs st.world st₁.world) {y : HeapPc C}
    (hy : ∀ id' x, y = .inPool id' x → id' ≠ id) : (st.put id t st₁).rank y ≤ st.rank y := by
  cases y with
  | inPool id' x =>
    have hne := hy id' x rfl
    have hdata : (st.put id t st₁).data id' = st.data id' := by simp [ConcHeap.put, hne]
    rw [ConcHeap.rank, ConcHeap.rank, hdata]
    refine Pc.rank_mono (freedTotal_le (List.Subset.refl _) fun s hs => ?_) le_rfl x
    obtain ⟨hlt, hpool⟩ := h.segment_pool hs
    show (st₁.world.segmentAt s).freedStack.length ≤ _
    rw [huntouched.others s hlt fun hs' => hne ?_]
    exact hpool.symm.trans (h.segment_pool (hsegs ▸ hs')).2
  | _ => exact le_rfl

/-- A step in the pool `id` decreases the measure. -/
theorem todo_put_lt (h : ConcHeapInv sys c st) {id : PoolId} {x : Pc C} {params : PoolParams}
    {st₁ : ConcState C Tid} (hx : st.pc t = .inPool id x) (hne : x ≠ .idle)
    (hparams : st.heap.params? id = some params) (hblocks : 1 ≤ segmentBlocks sys params)
    (hstep : ConcStep sys (st.view id params) (.normal t) st₁) :
    (st.put id t st₁).todo < st.todo := by
  have hinv := h.pool id params hparams
  have hok : ConcStepOk sys (st.view id params) (.normal t) st₁ := ⟨⟨t, rfl⟩, hstep⟩
  have hwithin : (st.view id params).pc t = x := by
    show (st.pc t).within id = x
    rw [hx]
    exact if_pos rfl
  have hview : (st.put id t st₁).view id params = st₁ :=
    ConcHeap.view_put _ _ _ _ (concStep_params hok) (concStep_self hok)
      fun u hu => concStep_pc_ne hstep hu
  have hstarving : (st.put id t st₁).Starving id ↔ st₁.Starving := by
    show ((st.put id t st₁).view id params).Starving ↔ st₁.Starving
    rw [hview]
  have hrank : ∀ y, (st.put id t st₁).rank (.inPool id y) = st₁.rank y := by
    intro y
    show ((st.put id t st₁).view id params).rank y = st₁.rank y
    rw [hview]
  have hothers : ∀ id', id' ≠ id → ((st.put id t st₁).Starving id' ↔ st.Starving id') := by
    intro id' hid
    refine starving_put_ne hid ?_
    rw [hx]
    simp [HeapPc.within, hid.symm]
  have hunmet : (st.pc t).stages = x.unmet := by
    rw [hx]
    rfl
  cases concStep_progresses hinv hblocks (hwithin ▸ hne) hstep with
  | met hlt =>
    -- `stages` of the thread drops, and that of the others is theirs.
    rw [hwithin] at hlt
    refine Lib.lex₃_lt_of_fst (sum_setPc_lt (fun _ _ => le_rfl) ?_)
    rwa [HeapPc.stages_ofPool, hunmet]
  | fed heq hpos hst hnot =>
    -- The thread itself waited for a block of this pool, and does so no more.
    rw [hwithin] at heq hpos
    refine Lib.lex₃_lt_of_snd (sum_setPc_le (fun _ _ => le_rfl) ?_)
      (sum_setPc_lt (fun u _ => ConcHeap.starved_mono (fun id' hid' => ?_) _) ?_)
    · rw [HeapPc.stages_ofPool, hunmet, heq]
    · by_cases hid : id' = id
      · subst hid
        exact absurd (hstarving.mp hid') hnot
      · exact (hothers id' hid).mp hid'
    · rw [ConcHeap.starved_ofPool, hx, ConcHeap.starved, ConcHeap.starved,
        if_neg fun hst' => hnot (hstarving.mp hst'), if_pos (show st.Starving id from hst)]
      exact hpos
  | walks hle hst hothers' hlt =>
    -- No pool starves that has not before, and no other thread has more to do.
    rw [hwithin] at hle hlt
    have hstarving' : ∀ id', (st.put id t st₁).Starving id' → st.Starving id' := by
      intro id' hid'
      by_cases hid : id' = id
      · subst hid
        exact hst (hstarving.mp hid')
      · exact (hothers id' hid).mp hid'
    refine Lib.lex₃_lt_of_trd (sum_setPc_le (fun _ _ => le_rfl) ?_)
      (sum_setPc_le (fun u _ => ConcHeap.starved_mono hstarving' _) ?_)
      (sum_setPc_lt (fun u _ => ?_) ?_)
    · rwa [HeapPc.stages_ofPool, hunmet]
    · rw [ConcHeap.starved_ofPool, hx]
      refine (ConcHeap.starved_mono hstarving' _).trans ?_
      rw [ConcHeap.starved, ConcHeap.starved]
      split
      · exact hle
      · exact le_rfl
    · -- The others, in the same pool and elsewhere.
      by_cases hin : ∃ y, st.pc u = .inPool id y
      · obtain ⟨y, hy⟩ := hin
        rw [hy, hrank y]
        exact hothers' y
      · refine rank_put_ne h rfl (concStep_untouched hinv hok).1 fun id' y hy hid => hin ⟨y, ?_⟩
        rw [hy, hid]
    · rw [ConcHeap.rank_ofPool, hrank, hx]
      exact hlt

end

/-! ### The calls end

The measure rules out infinite runs, and progress rules out that all wait. What is left
is a thread whose only way on is an exception. The collect loop is no such place: where
its push could throw, it can also go through. -/

/-- A step of a thread in a call of the heap, without exception. -/
def CallStep (sys : System) : ConcHeap C Tid → Label Tid → ConcHeap C Tid → Prop :=
  Lib.Guarded (fun st l => st.pc l.thread ≠ .idle) (ConcHeapStepOk sys)

/-- What the end of the calls rests on. -/
structure Draining [Fintype Tid] (sys : System) (c : HeapConfig) (st : ConcHeap C Tid) : Prop
    extends ConcHeapLive sys c st where
  keys : st.heap.KeysRounded

section

variable [Fintype Tid] {sys : System} {c : HeapConfig} {st st' : ConcHeap C Tid} {l : Label Tid}

omit [DecidableEq Tid] [Fintype Tid] in
theorem keysRounded_init (h : st.Init sys c) : st.heap.KeysRounded := by
  intro key f hf
  rw [h.heap] at hf
  cases hf

omit [Fintype Tid] in
/-- Only the search in `m_huge_heaps` changes the tables. -/
theorem keysRounded_step (hk : st.heap.KeysRounded) (hstep : ConcHeapStepOk sys st l st') :
    st'.heap.KeysRounded := by
  obtain ⟨-, hstep⟩ := hstep
  cases hstep with
  | @hugeFind _ q _ => exact hk.hugeEntry q.size
  | _ => exact hk

omit [DecidableEq Tid] in
theorem Draining.init (h : st.Init sys c) : Draining sys c st where
  toConcHeapLive := ConcHeapLive.init h
  keys := keysRounded_init h

theorem Draining.step (h : Draining sys c st) (hstep : ConcHeapStepOk sys st l st') :
    Draining sys c st' where
  toConcHeapLive := h.toConcHeapLive.step hstep
  keys := keysRounded_step h.keys hstep

theorem reachable_draining
    (h : Lib.Reachable (ConcHeap.Init sys c) (ConcHeapStepOk sys) st) : Draining sys c st :=
  h.invariant (fun _ => Draining.init) fun _ _ _ => Draining.step

/-- Each step of a call decreases the measure. -/
theorem callStep_todo_lt (h : Draining sys c st)
    (hblocks : ∀ id params, st.heap.params? id = some params → 1 ≤ segmentBlocks sys params)
    (hstep : CallStep sys st l st') : st'.todo < st.todo := by
  obtain ⟨hbusy, ⟨t, rfl⟩, hstep⟩ := hstep
  cases hstep with
  | callAllocate hx _ => exact absurd hx hbusy
  | callFree hx _ _ => exact absurd hx hbusy
  | hugeLock hx _ => exact todo_setPc_lt (by rw [hx]; simp [HeapPc.stages])
  | hugeFind hx => exact todo_setPc_lt (by rw [hx]; simp [HeapPc.stages])
  | hugeUnlock hx => exact todo_setPc_lt (by rw [hx]; simp [HeapPc.stages])
  | dispatch hx _ _ => exact todo_setPc_lt (by rw [hx]; simp [HeapPc.stages, Pc.unmet])
  | inPool hx hne hparams hstep =>
    exact todo_put_lt h.toConcHeapInv hx hne hparams (hblocks _ _ hparams) hstep

/-- As long as a thread is in a call, a thread in a call has a step. -/
theorem Draining.exists_step (h : Draining sys c st) {t : Tid} (hbusy : st.pc t ≠ .idle) :
    ∃ l st', st.pc (Label.thread l) ≠ .idle ∧ ConcHeapStep sys st l st' := by
  rcases h.canStep_or_waits hbusy with ⟨l, st', rfl, hstep⟩ | ⟨u, hw⟩
  · exact ⟨l, st', hbusy, hstep⟩
  · -- The owner of the mutex is in a call as well, and has a step.
    obtain ⟨l, st', rfl, hstep⟩ := h.canStep_of_waitsFor hw
    refine ⟨l, st', fun hidle => ?_, hstep⟩
    cases hw with
    | heap _ hm =>
      have hcrit := h.mutex_inside _ hm
      rwa [hidle] at hcrit
    | @pool id _ _ _ hm =>
      have hcrit := h.mutexes_inside id _ hm
      rwa [hidle] at hcrit

end

/-- Where the collect loop can throw, it can also go on. -/
theorem exists_collectStep {sys : System} {st : ConcState C Tid} {t : Tid}
    (hx : (st.pc t).Collecting) : ∃ st', ConcStep sys st (.normal t) st' := by
  cases hpc : st.pc t <;> rw [hpc] at hx <;> try exact hx.elim
  case collectPop s todo n =>
    cases hfreed : (st.world.segmentAt s).freedStack with
    | nil => exact ⟨_, .collectEmpty hpc hfreed⟩
    | cons b rest => exact ⟨_, .collectPop hpc hfreed⟩
  case collectPush b s todo n => exact ⟨_, .collectPush hpc⟩
  case collectSub s todo n => exact ⟨_, .collectSub hpc⟩

/-- A thread for which an exception is the only way on is in `add_segment`. -/
theorem growing_of_throws {sys : System} {st st' : ConcHeap C Tid} {t : Tid}
    (hstep : ConcHeapStep sys st (.throws t) st') :
    (∃ st'', ConcHeapStep sys st (.normal t) st'') ∨
      ∃ id counter, st.pc t = .inPool id (.grow counter) := by
  cases hstep with
  | @inPool _ id x params _ hx hne hparams hpool =>
    have hwithin : (st.view id params).pc t = x := by
      show (st.pc t).within id = x
      rw [show st.pc t = .inPool id x from hx]
      exact if_pos rfl
    cases hpool with
    | collectThrows hcollect =>
      obtain ⟨st₁, hnext⟩ := exists_collectStep hcollect
      exact Or.inl ⟨_, .inPool hx hne hparams hnext⟩
    | growThrows hgrow _ => exact Or.inr ⟨id, _, hx.trans (by rw [← hwithin, hgrow])⟩

/-- If the limits of the configuration fit in its segments, then, from any moment of a
run without exceptions and without new calls from then on, the threads do not go on for
ever, under any schedule, and they do not stop before all calls have returned, unless
`add_segment` throws. -/
theorem heap_calls_end [Fintype Tid] {sys : System} {a : HeapConfigArgs} {c : HeapConfig}
    (hc : heapConfig a = .ok c) (hfit : RoundedLimitsFit sys.pageSize a)
    (hpage : 0 < sys.pageSize) (hpage' : sys.pageSize + 2 ^ 31 ≤ 2 ^ 64) {st : ConcHeap C Tid}
    (h : Lib.Reachable (ConcHeap.Init sys c) (ConcHeapStepOk sys) st) :
    IsEmpty (Lib.InfiniteRun (CallStep sys) st) ∧
      (∃ ls st', Lib.Run (CallStep sys) st ls st' ∧ Lib.Stuck (CallStep sys) st') ∧
      ∀ ls st', Lib.Run (CallStep sys) st ls st' → Lib.Stuck (CallStep sys) st' →
        (∀ t, st'.pc t = .idle) ∨ ∃ t id counter st'',
          st'.pc t = .inPool id (.grow counter) ∧ ConcHeapStep sys st' (.throws t) st'' := by
  have hstep : ∀ (st : ConcHeap C Tid) l st', Draining sys c st → CallStep sys st l st' →
      Draining sys c st' := fun _ _ _ hdrain hstep => hdrain.step hstep.2
  have hdec : ∀ (st : ConcHeap C Tid) l st', Draining sys c st → CallStep sys st l st' →
      st'.todo < st.todo := fun _ _ _ hdrain hstep =>
    callStep_todo_lt hdrain
      (fun _ _ hp => segmentBlocks_pos hc hfit hpage hpage' hdrain.heap hdrain.keys hp) hstep
  have hdrain := reachable_draining h
  refine ⟨Lib.isEmpty_infiniteRun hstep hdec hdrain, Lib.exists_run_stuck hstep hdec hdrain, ?_⟩
  intro ls st' hrun hstuck
  have hdrain' : Draining sys c st' := hrun.invariant hstep hdrain
  by_cases hidle : ∀ t, st'.pc t = .idle
  · exact Or.inl hidle
  · obtain ⟨t, ht⟩ := not_forall.mp hidle
    obtain ⟨l, st'', hbusy, hnext⟩ := hdrain'.exists_step ht
    cases l with
    | normal u => exact absurd ⟨hbusy, ⟨u, rfl⟩, hnext⟩ (hstuck _ _)
    | throws u =>
      rcases growing_of_throws hnext with ⟨st₁, hok⟩ | ⟨id, counter, hgrow⟩
      · have hcall : CallStep sys st' (.normal u) st₁ := ⟨hbusy, ⟨u, rfl⟩, hok⟩
        exact absurd hcall (hstuck _ _)
      · exact Or.inr ⟨u, id, counter, st'', hgrow, hnext⟩

/-- Both threads are in a call, and one of them holds a mutex. -/
theorem heap_calls_end_contention :
    ∃ st : ConcHeap rangeContext Bool,
      st.pc false ≠ .idle ∧ st.mutexes ⟨.tiny 2, false, 0⟩ = some true ∧
      IsEmpty (Lib.InfiniteRun (CallStep smallPages) st) := by
  obtain ⟨st, hexec, hpc, hmutex⟩ : ∃ st,
      Lib.exec (fun st e => ConcHeap.advance smallPages st e.1 e.2) contention smallHeapStart =
        some st ∧ st.pc false = .inPool ⟨.tiny 2, false, 0⟩ .allocLock ∧
          st.mutexes ⟨.tiny 2, false, 0⟩ = some true := ⟨_, rfl, rfl, rfl⟩
  have hfit : RoundedLimitsFit 64 smallSegmentArgs := by
    have hlimits : roundToPowOf2 smallSegmentArgs.tinyLimit = 128 ∧
        roundToPowOf2 smallSegmentArgs.tinySegmentSize = 128 ∧
        roundToPowOf2 smallSegmentArgs.smallLimit = 4096 ∧
        roundToPowOf2 smallSegmentArgs.smallSegmentSize = 65536 ∧
        roundToPowOf2 smallSegmentArgs.largeLimit = 2097152 ∧
        roundToPowOf2 smallSegmentArgs.largeSegmentSize = 2097152 := by
      simp only [roundToPowOf2, log2C_eq]
      decide
    simp only [RoundedLimitsFit, SegmentFits, hlimits]
    decide
  refine ⟨st, by simp [hpc], hmutex, ?_⟩
  exact (heap_calls_end heapConfig_smallSegment hfit (by decide) (by decide)
    ⟨_, _, smallHeapStart_init, heapRun_of_schedule hexec⟩).1

end HwMalloc
