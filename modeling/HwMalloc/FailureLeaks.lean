import HwMalloc.FailureIsolation
import HwMalloc.FrozenPool
import HwMalloc.HeapLifetime

/-!
# HwMalloc.FailureLeaks

What exceptions can cost over the lifetime of a heap.

A failed `add_segment` leaves the memory of at most one segment behind
(`addSegment_failed`), and the exception freezes its pool, so that no second one is
thrown in it. Over a whole run each pool loses the memory of one segment at most,
whatever fails and however often the others are used; all else is given back by the
destructor of the heap (`failure_leaks`).

The invariant has a part for each pool (`ThrowsOnce`) and one for the heap. The record
of what was lost is kept beside the run, as a list of pools with what each has left
behind. A pool that is in the record is frozen, so a step that throws is in a pool that
is not, and the record never has a pool twice. What is outstanding is then accounted
for as in `HwMalloc.HeapLifetime`, with the record added.
-/

namespace HwMalloc

variable {C : Context} {Tid : Type}

/-- Whether the step is an exception. -/
def Label.isThrows : Label Tid → Bool
  | normal _ => false
  | throws _ => true

/-! ### An exception in one pool

The pool keeps its segments. What is lost is what `add_segment` had obtained and had
not yet put into the members of the segment. -/

section

variable [DecidableEq Tid] {sys : System} {st st' : ConcState C Tid} {t : Tid}

/-- An exception changes no segment, and what it leaves behind is the memory of at
most one. -/
theorem concStep_throws (h : ConcStep sys st (.throws t) st') :
    st'.pool.segments = st.pool.segments ∧ st'.world.misreleases = st.world.misreleases ∧
      ∃ lost, LostMemory sys st.pool.toPoolParams lost ∧
        st'.world.outstanding.Perm (lost ++ st.world.outstanding) := by
  cases h with
  | collectThrows _ => exact ⟨rfl, rfl, [], .nothing, .refl _⟩
  | growThrows _ hadd =>
    obtain ⟨lost, -, hpool, hmem, hout, hmis⟩ := addSegment_failed hadd
    refine ⟨?_, hmis, lost, hmem, hout⟩
    rw [ConcState.setPc_pool, hpool]

/-- No segment is registered twice. -/
theorem concStep_segments_nodup {l : Label Tid}
    (hlt : ∀ s ∈ st.pool.segments, s < st.world.nextSegment)
    (hnodup : st.pool.segments.Nodup) (h : ConcStep sys st l st') : st'.pool.segments.Nodup := by
  cases l with
  | throws t => rwa [(concStep_throws h).1]
  | normal t =>
    rcases concStep_segments ⟨⟨t, rfl⟩, h⟩ with ⟨hsegs, -⟩ | ⟨env, g, -, hgrown⟩ | ⟨k, -, herased⟩
    · rwa [hsegs]
    · rw [hgrown.pool]
      exact List.nodup_cons.mpr ⟨fun hmem => lt_irrefl _ (hlt _ hmem), hnodup⟩
    · rw [herased.pool]
      exact hnodup.erase k

end

/-! ### The account of a heap

The runs are those in which any pool may fail, those of `HwMalloc.FailureIsolation`
with no pool that is spared. -/

/-- The record of what was lost: the pools in which an exception was thrown, and what
it left behind. -/
abbrev LossRecord := List (PoolId × List Resource)

/-- A pool that throws at most once. -/
structure ThrowsOnce (sys : System) (lost : LossRecord) (id : PoolId) (st : ConcState C Tid) :
    Prop where
  nodup : st.pool.segments.Nodup
  exclusive : st.mutexState.Exclusive
  lost : ∀ r, (id, r) ∈ lost → LostMemory sys st.pool.toPoolParams r ∧ ∃ t, Frozen t st

namespace ThrowsOnce

variable {sys : System} {lost : LossRecord} {id : PoolId} {st st' : ConcState C Tid}

theorem init {params : PoolParams} (h : st.Init params) (hnone : ∀ r, (id, r) ∉ lost) :
    ThrowsOnce sys lost id st where
  nodup := by
    rw [h.1]
    exact List.nodup_nil
  exclusive := fun t ht => by
    obtain ⟨-, -, hpc, -⟩ := h
    simp [ConcState.mutexState, hpc, Pc.Critical] at ht
  lost := fun r hr => absurd hr (hnone r)

/-- A step of another pool. -/
theorem frame (h : ThrowsOnce sys lost id st) (w : World C) :
    ThrowsOnce sys lost id { st with world := w } where
  nodup := h.nodup
  exclusive := h.exclusive
  lost := fun r hr => by
    obtain ⟨hmem, t, hfrozen⟩ := h.lost r hr
    exact ⟨hmem, t, hfrozen.mutex, hfrozen.outside⟩

/-- What another pool has lost is another pool's matter. -/
theorem cons (h : ThrowsOnce sys lost id st) {id' : PoolId} (hid : id ≠ id') (r : List Resource) :
    ThrowsOnce sys ((id', r) :: lost) id st where
  nodup := h.nodup
  exclusive := h.exclusive
  lost := fun r' hr' => by
    rcases List.mem_cons.mp hr' with heq | hr'
    · exact absurd (congrArg Prod.fst heq) hid
    · exact h.lost r' hr'

variable [DecidableEq Tid]

theorem step {l : Label Tid} (h : ThrowsOnce sys lost id st) (howned : st.Owned)
    (hstep : ConcStep sys st l st') (hparams : st'.pool.toPoolParams = st.pool.toPoolParams) :
    ThrowsOnce sys lost id st' where
  nodup := concStep_segments_nodup (fun s hs => howned.lt s (.segment hs)) h.nodup hstep
  exclusive := by
    obtain ⟨m, -, hm⟩ := concStep_mutex hstep
    exact h.exclusive.step hm
  lost := fun r hr => by
    obtain ⟨hmem, t, hfrozen⟩ := h.lost r hr
    rw [hparams]
    exact ⟨hmem, t, (hfrozen.step hstep).2.1⟩

/-- Where an exception was thrown, no second one is. -/
theorem not_mem_of_throws (h : ThrowsOnce sys lost id st) {t : Tid}
    (hstep : ConcStep sys st (.throws t) st') (r : List Resource) : (id, r) ∉ lost := by
  intro hr
  obtain ⟨-, u, hfrozen⟩ := h.lost r hr
  obtain ⟨⟨u', hu'⟩, -⟩ := hfrozen.step hstep
  cases hu'

/-- The first exception freezes the pool. -/
theorem throws (h : ThrowsOnce sys lost id st) (howned : st.Owned) {t : Tid}
    (hstep : ConcStep sys st (.throws t) st')
    (hparams : st'.pool.toPoolParams = st.pool.toPoolParams) {r : List Resource}
    (hr : LostMemory sys st.pool.toPoolParams r) : ThrowsOnce sys ((id, r) :: lost) id st' where
  nodup := (h.step howned hstep hparams).nodup
  exclusive := (h.step howned hstep hparams).exclusive
  lost := fun r' hr' => by
    rcases List.mem_cons.mp hr' with heq | hr'
    · obtain ⟨-, rfl⟩ := Prod.mk.inj heq
      rw [hparams]
      exact ⟨hr, t, .of_throws h.exclusive hstep⟩
    · exact absurd hr' (h.not_mem_of_throws hstep r')

end ThrowsOnce

/-- The invariant of a heap that was constructed in the world `w₀`: what is
outstanding is what the segments own, what was lost, and what was outstanding
before. -/
structure LossInv [Fintype Tid] (sys : System) (c : HeapConfig) (w₀ : World C) (lost : LossRecord)
    (st : ConcHeap C Tid) : Prop extends FailureInv sys c ∅ st where
  keys : st.heap.KeysNodup
  once : st.Pools (ThrowsOnce sys lost)
  lost_nodup : (lost.map Prod.fst).Nodup
  lost_pool : ∀ e ∈ lost, ∃ params, st.heap.params? e.1 = some params
  outstanding : st.world.outstanding.Perm
    (st.resources ++ (lost.flatMap Prod.snd ++ w₀.outstanding))
  misreleases : st.world.misreleases = w₀.misreleases

namespace LossInv

variable [Fintype Tid] {sys : System} {c : HeapConfig} {w₀ : World C} {lost : LossRecord}
  {st st' : ConcHeap C Tid}

theorem init (h : st.Init sys c) : LossInv sys c st.world [] st where
  toFailureInv := .init h
  keys := by
    rw [h.heap]
    exact List.nodup_nil
  once := .init h fun _ _ _ hinit => .init hinit (by simp)
  lost_nodup := List.nodup_nil
  lost_pool := by simp
  outstanding := (ConcHeapInv.accounted_init h).outstanding
  misreleases := rfl

theorem segmentsOwned (h : FailureInv sys c ∅ st) (honce : st.Pools (ThrowsOnce sys lost)) :
    st.SegmentsOwned := by
  have hpool : ∀ id, ∀ s ∈ (st.data id).segments, ∃ params, st.heap.params? id = some params := by
    intro id s hs
    cases hparams : st.heap.params? id with
    | some params => exact ⟨params, rfl⟩
    | none =>
      rw [(h.absent id hparams).1] at hs
      cases hs
  refine ⟨fun id s hs => ?_, fun id => ?_, hpool⟩
  · obtain ⟨params, hparams⟩ := hpool id s hs
    have howned := (h.pool id params hparams).owned
    exact ⟨howned.lt s (.segment hs), howned.pool s (.segment hs)⟩
  · cases hparams : st.heap.params? id with
    | some params => exact (honce.pool id params hparams).nodup
    | none =>
      rw [(h.absent id hparams).1]
      exact List.nodup_nil

variable [DecidableEq Tid]

/-- A step outside the pools. -/
theorem moved (h : LossInv sys c w₀ lost st) {heap : Heap} {m : Option Tid} {t : Tid} {x : HeapPc C}
    (hheap : heap = st.heap ∨ ∃ key, heap = st.heap.hugeEntry key)
    (hold : ∀ id, (st.pc t).within id = .idle) (hnew : ∀ id, x.within id = .idle)
    (hinv : FailureInv sys c ∅ ({ st with heap := heap, mutex := m }.setPc t x))
    (hkeys : heap.KeysNodup) :
    LossInv sys c w₀ lost ({ st with heap := heap, mutex := m }.setPc t x) where
  toFailureInv := hinv
  keys := hkeys
  once := h.once.moved hheap hold hnew fun id _ _ hnone hinit => .init hinit fun r hr => by
    obtain ⟨params, hparams⟩ := h.lost_pool (id, r) hr
    cases hnone.symm.trans hparams
  lost_nodup := h.lost_nodup
  lost_pool := fun e he => by
    obtain ⟨params, hparams⟩ := h.lost_pool e he
    rcases hheap with rfl | ⟨key, rfl⟩
    · exact ⟨params, hparams⟩
    · exact ⟨params, st.heap.params?_hugeEntry key hparams⟩
  outstanding := h.outstanding
  misreleases := h.misreleases

/-- A step of a pool that does not throw. -/
theorem put (h : LossInv sys c w₀ lost st) {t : Tid} {id : PoolId} {params : PoolParams}
    {st₁ : ConcState C Tid} (hparams : st.heap.params? id = some params)
    (hout : ∀ id', id' ≠ id → (st.pc t).within id' = .idle)
    (hstep : ConcStep sys (st.view id params) (.normal t) st₁)
    (hinv : FailureInv sys c ∅ (st.put id t st₁)) : LossInv sys c w₀ lost (st.put id t st₁) := by
  have howned := (h.pool id params hparams).owned
  have hregistry := segmentsOwned h.toFailureInv h.once
  obtain ⟨-, hself, hparams₁, segs, hsegs, hu⟩ := howned.step hstep (by simp)
  have honce : (st.put id t st₁).Pools (ThrowsOnce sys lost) :=
    h.once.put hparams hout hparams₁ hself (fun u hu => concStep_pc_ne hstep hu)
      ((h.once.pool id params hparams).step howned hstep hparams₁)
      fun id' params' _ hsome => (h.once.pool id' params' hsome).frame _
  obtain ⟨hout', hmis⟩ := (hregistry.put_segments ⟨⟨t, rfl⟩, hstep⟩).outstanding hregistry
    (segmentsOwned hinv honce) (fun s hs => hu.fixed s (hregistry.registered_iff.mp hs).1)
    h.outstanding
  exact ⟨hinv, h.keys, honce, h.lost_nodup, h.lost_pool, hout', hmis.trans h.misreleases⟩

/-- An exception. -/
theorem throws (h : LossInv sys c w₀ lost st) {t : Tid} {id : PoolId} {params : PoolParams}
    {st₁ : ConcState C Tid} (hparams : st.heap.params? id = some params)
    (hout : ∀ id', id' ≠ id → (st.pc t).within id' = .idle)
    (hstep : ConcStep sys (st.view id params) (.throws t) st₁)
    (hstack : st₁.pool.freeStack = (st.data id).freeStack)
    (hinv : FailureInv sys c ∅ (st.put id t st₁)) :
    ∃ r, LossInv sys c w₀ ((id, r) :: lost) (st.put id t st₁) := by
  have howned := (h.pool id params hparams).owned
  have hregistry := segmentsOwned h.toFailureInv h.once
  obtain ⟨-, hself, hparams₁, segs, hsegs, hu⟩ := howned.step hstep fun _ _ => hstack
  obtain ⟨hsame, hmis, r, hr, hnew⟩ := concStep_throws hstep
  have hbefore := h.once.pool id params hparams
  have honce : (st.put id t st₁).Pools (ThrowsOnce sys ((id, r) :: lost)) :=
    h.once.put hparams hout hparams₁ hself (fun u hu => concStep_pc_ne hstep hu)
      (hbefore.throws howned hstep hparams₁ hr)
      fun id' params' hid hsome => ((h.once.pool id' params' hsome).frame _).cons hid r
  have hreg : ∀ s, (st.put id t st₁).Registered s ↔ st.Registered s := by
    intro s
    rw [ConcHeap.registered_put, hsame, HeapState.registered_split st.toHeapState id]
    exact Iff.rfl
  have hres := HeapState.resources_perm hregistry (segmentsOwned hinv honce) hreg fun s hs =>
    hu.fixed s (hregistry.registered_iff.mp (hregistry.mem_segments.mp hs)).1
  refine ⟨r, hinv, h.keys, honce, List.nodup_cons.mpr ⟨fun hmem => ?_, h.lost_nodup⟩,
    fun e he => ?_, ?_, hmis.trans h.misreleases⟩
  · -- A pool in the record is frozen, and this one was not.
    obtain ⟨e, he, rfl⟩ := List.mem_map.mp hmem
    exact hbefore.not_mem_of_throws hstep e.2 he
  · rcases List.mem_cons.mp he with rfl | he
    · exact ⟨params, hparams⟩
    · exact h.lost_pool e he
  · -- What is new among the outstanding resources is the new entry.
    refine hnew.trans ((h.outstanding.append_left r).trans ?_)
    refine List.perm_append_comm_assoc .. |>.trans ?_
    rw [List.flatMap_cons, List.append_assoc]
    exact hres.symm.append_right _

/-- Every step keeps the invariant, with one entry more for an exception. -/
theorem step {l : Label Tid} (h : LossInv sys c w₀ lost st)
    (hstep : FailsOutside sys ∅ st l st') :
    ∃ lost', lost'.length = lost.length + (if l.isThrows then 1 else 0) ∧
      LossInv sys c w₀ lost' st' := by
  have hinv := h.toFailureInv.step hstep
  have hkeys := keysNodup_step h.keys hstep.1
  rcases concHeapStep_cases hstep.1 fun id b hb => h.toFailureInv.live_segment hb with
    ⟨heap, m, x, ⟨t, rfl⟩, hheap, hold, hnew, rfl⟩ | ⟨id, params, st₁, hparams, hout, hpool, rfl⟩
  · exact ⟨lost, rfl, h.moved hheap hold hnew hinv hkeys⟩
  · cases l with
    | normal t => exact ⟨lost, rfl, h.put hparams hout hpool hinv⟩
    | throws t =>
      have hstack := (hstep.2 t rfl).2 id
      obtain ⟨r, hr⟩ := h.throws hparams hout hpool (by simpa [ConcHeap.put] using hstack) hinv
      exact ⟨_, rfl, hr⟩

/-- The invariant along a run. -/
theorem run {ls : List (Label Tid)} (h : LossInv sys c w₀ lost st)
    (hrun : Lib.Run (FailsOutside sys ∅) st ls st') :
    ∃ lost', lost'.length = lost.length + ls.countP Label.isThrows ∧
      LossInv sys c w₀ lost' st' := by
  induction hrun with
  | refl => exact ⟨lost, rfl, h⟩
  | @snoc st₁ st₂ ls l _ hlast ih =>
    obtain ⟨lost₁, hlength, hinv⟩ := ih
    obtain ⟨lost₂, hlength', hinv'⟩ := hinv.step hlast
    refine ⟨lost₂, ?_, hinv'⟩
    rw [List.countP_append, List.countP_singleton, hlength', hlength, Nat.add_assoc]

end LossInv

/-- Whatever fails, and whatever any number of threads do then: the destructor of the
heap leaves what was outstanding before its construction and what exceptions have
lost. Each pool throws at most once, and loses the memory of one segment at most; it
is frozen from then on. -/
theorem failure_leaks [Fintype Tid] [DecidableEq Tid] {sys : System} {c : HeapConfig}
    {st₀ st : ConcHeap C Tid} {ls : List (Label Tid)} (hinit : st₀.Init sys c)
    (hrun : Lib.Run (FailsOutside sys ∅) st₀ ls st) {order : PoolId → List Nat}
    (horder : ∀ id, (order id).Perm (st.data id).segments) :
    ∃ lost : LossRecord, lost.length = ls.countP Label.isThrows ∧ (lost.map Prod.fst).Nodup ∧
      (∀ e ∈ lost, ∃ params, st.heap.params? e.1 = some params ∧ LostMemory sys params e.2 ∧
        ∃ t, Frozen t (st.view e.1 params)) ∧
      (st.destroy order).outstanding.Perm (lost.flatMap Prod.snd ++ st₀.world.outstanding) ∧
      (st.destroy order).misreleases = st₀.world.misreleases := by
  obtain ⟨lost, hlength, hinv⟩ := (LossInv.init hinit).run hrun
  obtain ⟨hout, hmis, -⟩ := (LossInv.segmentsOwned hinv.toFailureInv hinv.once).destroy_spec
    hinv.keys hinv.outstanding horder
  refine ⟨lost, by simpa using hlength, hinv.lost_nodup, fun e he => ?_, hout,
    hmis.trans hinv.misreleases⟩
  obtain ⟨params, hparams⟩ := hinv.lost_pool e he
  exact ⟨params, hparams, (hinv.once.pool e.1 params hparams).lost e.2 he⟩

/-- After the failed registration, one of the two pools has lost memory. -/
theorem failure_leaks_brokenPool :
    ∃ (st : ConcHeap rangeContext Bool) (lost : LossRecord),
      st.mutexes ⟨.tiny 7, false, 0⟩ = some false ∧ lost.length = 1 ∧
      (st.destroy fun id => (st.data id).segments).outstanding.Perm (lost.flatMap Prod.snd) := by
  obtain ⟨st, x, hrun, hmutex, -⟩ := exists_brokenPool_run
  have hany := hrun.map (g := id) fun _ _ _ => FailsOutside.mono (Set.empty_subset _)
  obtain ⟨lost, hlength, -, -, hout, -⟩ := failure_leaks smallHeapStart_init hany fun _ => .refl _
  exact ⟨st, lost, hmutex, hlength, hout.trans (.of_eq (List.append_nil _))⟩

end HwMalloc
