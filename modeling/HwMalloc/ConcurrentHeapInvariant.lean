import HwMalloc.ConcurrentHeap
import HwMalloc.Lib.Threads
import HwMalloc.LiveRanges
import HwMalloc.MissedRelease

/-!
# HwMalloc.ConcurrentHeapInvariant

Block conservation over the whole heap, under any interleaving.

The invariant of one pool (`ConcInv`) is lifted to all of them:

* **Frame.** A step in one pool moves no other thread, and touches no segment of
  another pool (`concStep_untouched`), so that the other pools see only a larger number
  of segments (`ConcInv.frame`).
* **Views.** A pool sees of the heap its own data and, of each thread, the place within
  its own code (`ConcHeap.view`). A step in the pool `id` is a step of its view, and
  leaves the other views as they are up to the world. A step outside the pools is seen
  by none.
* **New pools.** A new entry of `m_huge_heaps` brings pools where there were none.
  Nobody can be inside of them, and they have no segments and no blocks, so that they
  satisfy what an initial state does.

`ConcHeap.Pools` says this for any property of the pools, so that the runs in which
pools fail (`HwMalloc.FailureIsolation`) use it as well. That `free` reaches the pool a
block came from is a consequence: a segment that is registered with a pool knows this
pool.
-/

namespace HwMalloc

variable {C : Context} {Tid : Type}

/-! ### What a step in one pool leaves alone

As in `HwMalloc.HeapRuns`, but for one step and not for a whole call. -/

section

variable [DecidableEq Tid] {sys : System} {st st' : ConcState C Tid} {l : Label Tid}

/-- No other thread moves. -/
theorem concStep_pc_ne (h : ConcStep sys st l st') {u : Tid} (hu : u ≠ l.thread) :
    st'.pc u = st.pc u := by
  cases h <;> exact ConcState.setPc_pc_ne _ _ _ hu

/-- The pool stays the same object. -/
theorem concStep_self (h : ConcStepOk sys st l st') : st'.pool.self = st.pool.self := by
  obtain ⟨⟨t, rfl⟩, h⟩ := h
  cases h with
  | pop _ hpop => rw [ConcState.setPc_pool, (popFree_eq_some hpop).pool]
  | grow _ hadd =>
    obtain ⟨g, -, hgrown⟩ := addSegment_ok hadd
    rw [ConcState.setPc_pool, hgrown.pool]
  | @freeErase _ b _ =>
    by_cases hs : b.segment ∈ st.pool.segments
    · rw [ConcState.setPc_pool, (eraseSegment_erased hs).pool]
    · rw [ConcState.setPc_pool, eraseSegment_of_not_mem hs]
  | _ => rfl

/-- A write to a segment of the pool that keeps what is fixed in it. -/
theorem Untouched.of_modifySegment {w : World C} {segs : List Nat} {s : Nat}
    {f : Segment C → Segment C} (hs : s ∈ segs) (hf : ∀ g, (f g).fixed = g.fixed) :
    Untouched segs w (w.modifySegment s f) where
  nextSegment := le_rfl
  others := fun s' _ hs' => by
    rw [World.modifySegment_segmentAt, if_neg fun heq : s' = s => hs' (heq ▸ hs)]
  fixed := fun s' _ => by
    rw [World.modifySegment_segmentAt]
    split
    · next heq =>
      subst heq
      exact hf _
    · rfl

/-- The segments of other pools are not touched, and the pool gets at most one new
segment, the next one. -/
theorem concStep_untouched [Fintype Tid] (hinv : ConcInv sys st) (h : ConcStepOk sys st l st') :
    Untouched st.pool.segments st.world st'.world ∧
      ∀ s ∈ st'.pool.segments, s ∈ st.pool.segments ∨ s = st.world.nextSegment := by
  obtain ⟨⟨t, rfl⟩, h⟩ := h
  have huses : ∀ {x : Pc C} {s : Nat}, st.pc t = x → s ∈ x.uses → s ∈ st.pool.segments :=
    fun hx hs => hinv.uses t _ (hx ▸ hs)
  cases h with
  | pop _ hpop =>
    -- A pop is from the stack of the pool itself.
    refine ⟨.refl _ _, fun s hs => Or.inl ?_⟩
    rwa [ConcState.setPc_pool, (popFree_eq_some hpop).pool] at hs
  -- The collect loop visits segments of the pool.
  | collectPop hx _ =>
    exact ⟨.of_modifySegment (huses hx List.mem_cons_self) fun _ => rfl, fun s hs => Or.inl hs⟩
  | collectSub hx =>
    exact ⟨.of_modifySegment (huses hx List.mem_cons_self) fun _ => rfl, fun s hs => Or.inl hs⟩
  | grow _ hadd =>
    obtain ⟨g, -, hgrown⟩ := addSegment_ok hadd
    exact ⟨.of_grown hgrown, fun s hs => (hgrown.mem_segments.mp hs).symm⟩
  -- So does `free`: the block that it returns is one of the pool.
  | freePush hx =>
    have hblock := hinv.isBlock_of_held (t := t) (by rw [hx]; rfl)
    exact ⟨.of_modifySegment hblock.1 fun _ => rfl, fun s hs => Or.inl hs⟩
  | freeInc hx =>
    exact ⟨.of_modifySegment (huses hx List.mem_cons_self) fun _ => rfl, fun s hs => Or.inl hs⟩
  | @freeErase _ b _ =>
    by_cases hs : b.segment ∈ st.pool.segments
    · refine ⟨.of_eraseSegment hs, fun s hs' => Or.inl ?_⟩
      rw [ConcState.setPc_pool, (eraseSegment_erased hs).pool] at hs'
      exact List.mem_of_mem_erase hs'
    · rw [eraseSegment_of_not_mem hs]
      exact ⟨.refl _ _, fun s hs' => Or.inl hs'⟩
  | _ => exact ⟨.refl _ _, fun s hs => Or.inl hs⟩

end

/-! ### What the other pools see of a step

Only that numbers of segments are used up. Where a block of another pool is does not
depend on anything that has changed. -/

section

variable [Fintype Tid] {sys : System} {st : ConcState C Tid}

/-- Only the pool's own segments matter, and that the numbers of new ones stay
fresh. -/
theorem ConcInv.frame (h : ConcInv sys st) {w : World C}
    (hnext : st.world.nextSegment ≤ w.nextSegment)
    (hseg : ∀ s ∈ st.pool.segments, w.segmentAt s = st.world.segmentAt s) :
    ConcInv sys { st with world := w } where
  segments_nodup := h.segments_nodup
  segments_lt := fun s hs => lt_of_lt_of_le (h.segments_lt s hs) hnext
  made := fun s hs => by
    show (w.segmentAt s).MadeBy _ _ _
    rw [hseg s hs]
    exact h.made s hs
  freed_own := fun s hs => by
    show ∀ b ∈ (w.segmentAt s).freedStack, _
    rw [hseg s hs]
    exact h.freed_own s hs
  places := fun b => by
    have hplaces := h.places b
    by_cases hs : b.segment ∈ st.pool.segments
    · obtain ⟨hblock, hcount⟩ := ConcState.isBlock_congr st { st with world := w } (b := b)
        Iff.rfl (hseg _ hs) rfl
      simp only [ConcState.places, hcount, hblock] at hplaces ⊢
      exact hplaces
    · have hnone : ¬st.IsBlock b := fun hb => hs hb.1
      have hnone' : ¬({ st with world := w } : ConcState C Tid).IsBlock b := fun hb => hs hb.1
      have hcount : ({ st with world := w } : ConcState C Tid).freedCount b = st.freedCount b := by
        rw [ConcState.freedCount, ConcState.freedCount, if_neg hs, if_neg hs]
      rw [if_neg hnone] at hplaces
      rw [if_neg hnone']
      simp only [ConcState.places, hcount] at hplaces ⊢
      exact hplaces
  counter := fun s hs => by
    have hcounter := h.counter s hs
    rw [← hseg s hs] at hcounter
    exact hcounter
  mutex := h.mutex
  uses := h.uses
  erasing := fun t b hb hs => by
    have herasing := h.erasing t b hb hs
    rw [← hseg _ hs] at herasing
    exact herasing

end

/-- A new entry of `m_huge_heaps` leaves the heaps there are. -/
theorem Heap.find?_hugeEntry (h : Heap) (key : Nat) {ref : HeapRef} {f : FixedSizeHeap}
    (hf : h.find? ref = some f) : (h.hugeEntry key).find? ref = some f := by
  unfold hugeEntry
  cases hkey : h.hugeHeaps.lookup key with
  | some f' => exact hf
  | none =>
    cases ref with
    | tiny i => exact hf
    | sized i => exact hf
    | huge key' =>
      have hne : key' ≠ key := by
        rintro rfl
        rw [find?, hkey] at hf
        cases hf
      show (((key, _) :: h.hugeHeaps).lookup key') = some f
      rw [List.lookup_cons, beq_eq_false_iff_ne.mpr hne]
      exact hf

/-! ### Views

How the moves of threads look from one pool. A thread that is elsewhere is idle to it. -/

namespace ConcHeap

section

variable [DecidableEq Tid] (st : ConcHeap C Tid) (t : Tid) (id : PoolId) (params : PoolParams)

/-- A pool sees of a move of a thread what the move means for it. -/
theorem view_setPc (x : HeapPc C) :
    (st.setPc t x).view id params = (st.view id params).setPc t (x.within id) := by
  have hpc : (fun u => (Function.update st.pc t x u).within id) =
      Function.update (fun u => (st.pc u).within id) t (x.within id) := by
    funext u
    by_cases hu : u = t
    · subst hu
      simp
    · simp [hu]
  simp only [view, setPc, ConcState.setPc, hpc]

/-- A move outside the pool is not seen. -/
theorem view_setPc_same {x : HeapPc C} (hx : x.within id = (st.pc t).within id) :
    (st.setPc t x).view id params = st.view id params := by
  rw [view_setPc, hx]
  exact congrArg (fun pc => (⟨st.world, st.poolAt id params, st.mutexes id, pc, st.live id⟩ :
    ConcState C Tid)) (Function.update_eq_self t (st.view id params).pc)

/-- After a step in the pool, the pool sees the result of the step. -/
theorem view_put {st₁ : ConcState C Tid} (hparams : st₁.pool.toPoolParams = params)
    (hself : st₁.pool.self = id) (hpc : ∀ u ≠ t, st₁.pc u = (st.pc u).within id) :
    (st.put id t st₁).view id params = st₁ := by
  have hpc' : (fun u => ((st.put id t st₁).pc u).within id) = st₁.pc := by
    funext u
    by_cases hu : u = t
    · subst hu
      simp [put]
    · simp [put, hu, hpc u hu]
  have hpool : (st.put id t st₁).poolAt id params = st₁.pool := by
    simp [HeapState.poolAt, put, ← hparams, ← hself]
  show (⟨_, (st.put id t st₁).poolAt id params, _, _, _⟩ : ConcState C Tid) = st₁
  rw [hpool, hpc']
  simp [put]

/-- The step by which a thread enters the pool. -/
theorem put_enter (live : List (Block C)) {x : Pc C} (hx : x ≠ .idle) :
    st.put id t ({ st.view id params with live := live }.setPc t x) =
      { st with live := Function.update st.live id live }.setPc t (.inPool id x) := by
  have hpc : HeapPc.ofPool id x = .inPool id x := by
    cases x <;> simp [HeapPc.ofPool] at hx ⊢
  simp [put, setPc, view, HeapState.poolAt, hpc]

/-- The other pools see the new world. -/
theorem view_put_ne {st₁ : ConcState C Tid} {id' : PoolId} (hne : id' ≠ id)
    (hpc : (st.pc t).within id' = .idle) :
    (st.put id t st₁).view id' params = { st.view id' params with world := st₁.world } := by
  have hpc' : (fun u => ((st.put id t st₁).pc u).within id') =
      fun u => (st.pc u).within id' := by
    funext u
    by_cases hu : u = t
    · subst hu
      simp [put, HeapPc.within_ofPool_ne hne, hpc]
    · simp [put, hu]
  show (⟨_, (st.put id t st₁).poolAt id' params, _, _, _⟩ : ConcState C Tid) = _
  rw [hpc']
  simp [put, HeapState.poolAt, view, hne]

end

end ConcHeap

/-! ### What a step is

Either a step outside the pools, with at most one new entry in `m_huge_heaps`, or a step
of one pool. The entry into a pool by `allocate` and by `free` is one of the latter. -/

/-- The mutex of the heap, as the protocol of `HwMalloc.Lib.Threads` sees it. -/
def ConcHeap.mutexState (st : ConcHeap C Tid) : Lib.MutexState Tid where
  owner := st.mutex
  inside := fun t => (st.pc t).Critical

section

variable [DecidableEq Tid] {sys : System} {st st' : ConcHeap C Tid} {l : Label Tid}

theorem ConcHeap.mutexState_setPc (st : ConcHeap C Tid) (t : Tid) (x : HeapPc C) :
    (st.setPc t x).mutexState =
      ⟨st.mutex, Function.update st.mutexState.inside t x.Critical⟩ := by
  refine Lib.MutexState.ext rfl (funext fun u => ?_)
  by_cases hu : u = t
  · subst hu
    simp [ConcHeap.mutexState, ConcHeap.setPc]
  · simp [ConcHeap.mutexState, ConcHeap.setPc, hu]

/-- Every step is a step of the mutex protocol, and none abandons the mutex. -/
theorem concHeapStep_mutex (h : ConcHeapStep sys st l st') :
    ∃ m, (∀ t, m ≠ .abandon t) ∧ Lib.MutexStep st.mutexState m st'.mutexState := by
  -- Only the way to `m_huge_heaps` leads into the critical section.
  have hkeep : ∀ {st₁ : ConcHeap C Tid} {t : Tid} {x : HeapPc C}, st₁.pc = st.pc →
      st₁.mutex = st.mutex → (x.Critical ↔ (st.pc t).Critical) →
      ∃ m, (∀ t, m ≠ .abandon t) ∧ Lib.MutexStep st.mutexState m (st₁.setPc t x).mutexState := by
    intro st₁ t x hpc hmutex hx
    have hsame : (st₁.setPc t x).mutexState = st.mutexState := by
      rw [ConcHeap.mutexState_setPc, hmutex, propext hx]
      simp only [ConcHeap.mutexState, hpc]
      exact congrArg (Lib.MutexState.mk st.mutex) (Function.update_eq_self t _)
    rw [hsame]
    exact ⟨.keep, by simp, .keep⟩
  cases h with
  | callAllocate hx _ =>
    refine hkeep rfl rfl (iff_of_false ?_ (by simp [hx, HeapPc.Critical]))
    split <;> simp [HeapPc.Critical]
  | @hugeLock t q hx hfree =>
    have hin : (HeapPc.hugeFind q : HeapPc C).Critical := trivial
    refine ⟨.acquire t, by simp, ?_⟩
    rw [ConcHeap.mutexState_setPc, eq_true hin]
    exact .acquire hfree (by simp [ConcHeap.mutexState, hx, HeapPc.Critical])
  | hugeFind hx => exact hkeep rfl rfl (iff_of_true trivial (by rw [hx]; trivial))
  | @hugeUnlock t q hx =>
    have hout : ¬(HeapPc.dispatch q (.huge (roundToPowOf2 q.size)) : HeapPc C).Critical := by
      simp [HeapPc.Critical]
    refine ⟨.release t, by simp, ?_⟩
    rw [ConcHeap.mutexState_setPc, eq_false hout]
    exact .release (by simp [ConcHeap.mutexState, hx, HeapPc.Critical])
  | dispatch hx _ _ =>
    exact hkeep rfl rfl (iff_of_false (by simp [HeapPc.Critical]) (by simp [hx, HeapPc.Critical]))
  | callFree hx _ _ =>
    exact hkeep rfl rfl (iff_of_false (by simp [HeapPc.Critical]) (by simp [hx, HeapPc.Critical]))
  | inPool hx _ _ _ =>
    exact hkeep rfl rfl
      (iff_of_false (HeapPc.not_critical_ofPool _ _) (by simp [hx, HeapPc.Critical]))

/-- A step is one outside the pools, or one of a pool. -/
theorem concHeapStep_cases (h : ConcHeapStep sys st l st')
    (hlive : ∀ id, ∀ b ∈ st.live id, (∃ params, st.heap.params? id = some params) ∧
      (st.world.segmentAt b.segment).pool = id) :
    (∃ heap m x, (∃ t, l = .normal t) ∧ (heap = st.heap ∨ ∃ key, heap = st.heap.hugeEntry key) ∧
        (∀ id, (st.pc l.thread).within id = .idle) ∧ (∀ id, x.within id = .idle) ∧
        st' = { st with heap := heap, mutex := m }.setPc l.thread x) ∨
      ∃ id params st₁, st.heap.params? id = some params ∧
        (∀ id', id' ≠ id → (st.pc l.thread).within id' = .idle) ∧
        ConcStep sys (st.view id params) l st₁ ∧ st' = st.put id l.thread st₁ := by
  cases h with
  -- The call and the search of `m_huge_heaps` are outside the pools.
  | @callAllocate t q hx _ =>
    refine .inl ⟨st.heap, st.mutex, _, ⟨t, rfl⟩, .inl rfl, fun id => ?_, fun id => ?_, rfl⟩
    · show (st.pc t).within id = .idle
      rw [hx]
      rfl
    · split <;> rfl
  | @hugeLock t q hx _ =>
    exact .inl ⟨st.heap, some t, _, ⟨t, rfl⟩, .inl rfl,
      fun id => by simp [Label.thread, hx, HeapPc.within], fun _ => rfl, rfl⟩
  | @hugeFind t q hx =>
    exact .inl ⟨_, st.mutex, _, ⟨t, rfl⟩, .inr ⟨_, rfl⟩,
      fun id => by simp [Label.thread, hx, HeapPc.within], fun _ => rfl, rfl⟩
  | @hugeUnlock t q hx =>
    exact .inl ⟨st.heap, none, _, ⟨t, rfl⟩, .inl rfl,
      fun id => by simp [Label.thread, hx, HeapPc.within], fun _ => rfl, rfl⟩
  | @dispatch t q ref slot hx _ hsome =>
    -- The pool that was chosen exists, and to it this is the call of `allocate`.
    obtain ⟨params, hparams⟩ := Option.isSome_iff_exists.mp hsome
    have hout : ∀ id, (st.pc t).within id = .idle := fun id => by rw [hx]; rfl
    refine .inr ⟨_, params, _, hparams, fun id' _ => hout id', .callAllocate (hout _), ?_⟩
    have hput := st.put_enter t ⟨ref, slot.1, slot.2⟩ params
      (st.live ⟨ref, slot.1, slot.2⟩) (x := .allocPop) (by simp)
    rw [Function.update_eq_self] at hput
    exact hput.symm
  | @callFree t id b hx hb _ =>
    -- The segment of the block leads to the pool that the block is held under.
    obtain ⟨⟨params, hparams⟩, hpool⟩ := hlive id b hb
    have hout : ∀ id, (st.pc t).within id = .idle := fun id => by rw [hx]; rfl
    rw [hpool]
    exact .inr ⟨id, params, _, hparams, fun id' _ => hout id', .callFree (hout _) hb,
      (st.put_enter t id params _ (by simp)).symm⟩
  | @inPool _ id x params st₁ hx _ hparams hstep =>
    refine .inr ⟨id, params, st₁, hparams, fun id' hid => ?_, hstep, rfl⟩
    rw [hx]
    simp [HeapPc.within, hid.symm]

end

/-! ### The invariant

All pools that exist satisfy theirs, and where none exists there is nothing. -/

/-- A new entry of `m_huge_heaps` changes no pool. -/
theorem Heap.params?_hugeEntry (h : Heap) (key : Nat) {id : PoolId} {params : PoolParams}
    (hp : h.params? id = some params) : (h.hugeEntry key).params? id = some params := by
  obtain ⟨f, hf, hslot⟩ := Option.bind_eq_some_iff.mp hp
  rw [params?, find?_hugeEntry h key hf]
  exact hslot

/-- The pools after a step that may have made a new entry of `m_huge_heaps`. -/
theorem Heap.params?_cases (h : Heap) {heap : Heap} {id : PoolId} {params : PoolParams}
    (hheap : heap = h ∨ ∃ key, heap = h.hugeEntry key) (hp : heap.params? id = some params) :
    h.params? id = some params ∨ h.params? id = none := by
  rcases hheap with rfl | ⟨key, rfl⟩
  · exact .inl hp
  · cases hparams : h.params? id with
    | none => exact .inr rfl
    | some params' => exact .inl ((h.params?_hugeEntry key hparams).symm.trans hp)

theorem Heap.params?_eq_none (h : Heap) {heap : Heap} {id : PoolId}
    (hheap : heap = h ∨ ∃ key, heap = h.hugeEntry key) (hnone : heap.params? id = none) :
    h.params? id = none := by
  rcases hheap with rfl | ⟨key, rfl⟩
  · exact hnone
  · cases hparams : h.params? id with
    | none => rfl
    | some params => cases (h.params?_hugeEntry key hparams).symm.trans hnone

/-- Each pool `id` has the property `P id`. -/
structure ConcHeap.Pools (P : PoolId → ConcState C Tid → Prop) (st : ConcHeap C Tid) : Prop where
  /-- Where there is no pool object there is nothing, and nobody. -/
  absent : ∀ id, st.heap.params? id = none →
    st.data id = ⟨[], []⟩ ∧ st.live id = [] ∧ st.mutexes id = none ∧
      ∀ t, (st.pc t).within id = .idle
  pool : ∀ id params, st.heap.params? id = some params → P id (st.view id params)

namespace ConcHeap.Pools

variable {P Q : PoolId → ConcState C Tid → Prop} {st : ConcHeap C Tid}

theorem view_init {id : PoolId} (h : st.data id = ⟨[], []⟩ ∧ st.live id = [] ∧
    st.mutexes id = none ∧ ∀ t, (st.pc t).within id = .idle) (params : PoolParams) :
    (st.view id params).Init params := by
  obtain ⟨hdata, hlive, hmutex, hpc⟩ := h
  have hpool : st.poolAt id params = Pool.new params id := by
    simp [HeapState.poolAt, hdata, Pool.new]
  exact ⟨hpool, hmutex, hpc, hlive⟩

theorem init {sys : System} {c : HeapConfig} (h : st.Init sys c)
    (hinit : ∀ id params (st₁ : ConcState C Tid), st₁.Init params → P id st₁) : st.Pools P := by
  have hempty : ∀ id, st.data id = ⟨[], []⟩ ∧ st.live id = [] ∧ st.mutexes id = none ∧
      ∀ t, (st.pc t).within id = .idle := fun id =>
    ⟨h.data id, h.live id, h.mutexes id, fun t => by rw [h.pc t]; rfl⟩
  exact ⟨fun id _ => hempty id, fun id params _ => hinit id params _ (view_init (hempty id) params)⟩

variable [DecidableEq Tid]

/-- A step outside the pools. A new entry of `m_huge_heaps` brings new pools, which
are empty. -/
theorem moved (h : st.Pools P) {heap : Heap} {m : Option Tid} {t : Tid} {x : HeapPc C}
    (hheap : heap = st.heap ∨ ∃ key, heap = st.heap.hugeEntry key)
    (hold : ∀ id, (st.pc t).within id = .idle) (hnew : ∀ id, x.within id = .idle)
    (hinit : ∀ id params (st₁ : ConcState C Tid), st.heap.params? id = none → st₁.Init params →
      P id st₁) :
    ({ st with heap := heap, mutex := m }.setPc t x).Pools P where
  absent := fun id hnone => by
    obtain ⟨hdata, hlive, hmutexes, hpc⟩ := h.absent id (st.heap.params?_eq_none hheap hnone)
    refine ⟨hdata, hlive, hmutexes, fun u => ?_⟩
    by_cases hu : u = t
    · subst hu
      simp [setPc, hnew]
    · simp [setPc, hu, hpc]
  pool := fun id params hsome => by
    have hview := view_setPc_same { st with heap := heap, mutex := m } t id params
      ((hnew id).trans (hold id).symm)
    rw [hview]
    rcases st.heap.params?_cases hheap hsome with hparams | hnone
    · exact h.pool id params hparams
    · exact hinit id params _ hnone (view_init (h.absent id hnone) params)

/-- A step in the pool `id`, of which the others see the new world only. -/
theorem put (h : st.Pools P) {t : Tid} {id : PoolId} {params : PoolParams}
    {st₁ : ConcState C Tid} (hparams : st.heap.params? id = some params)
    (hout : ∀ id', id' ≠ id → (st.pc t).within id' = .idle)
    (hparams₁ : st₁.pool.toPoolParams = params) (hself : st₁.pool.self = id)
    (hpc : ∀ u ≠ t, st₁.pc u = (st.pc u).within id) (hstep : Q id st₁)
    (hframe : ∀ id' params', id' ≠ id → st.heap.params? id' = some params' →
      Q id' { st.view id' params' with world := st₁.world }) : (st.put id t st₁).Pools Q where
  absent := fun id' hnone => by
    have hid : id' ≠ id := by
      rintro rfl
      cases hparams.symm.trans hnone
    obtain ⟨hdata, hlive, hmutexes, hpc⟩ := h.absent id' hnone
    refine ⟨by simp [ConcHeap.put, hid, hdata], by simp [ConcHeap.put, hid, hlive],
      by simp [ConcHeap.put, hid, hmutexes], fun u => ?_⟩
    by_cases hu : u = t
    · subst hu
      simp [ConcHeap.put, HeapPc.within_ofPool_ne hid]
    · simp [ConcHeap.put, hu, hpc]
  pool := fun id' params' hsome => by
    by_cases hid : id' = id
    · subst hid
      obtain rfl := Option.some.inj (hparams.symm.trans hsome)
      rw [view_put _ _ _ _ hparams₁ hself hpc]
      exact hstep
    · rw [view_put_ne _ _ _ _ hid (hout id' hid)]
      exact hframe id' params' hid hsome

end ConcHeap.Pools

theorem Heap.WellFormed.of_hugeEntry {topo : Topology} {c : HeapConfig} {h heap : Heap}
    (hw : h.WellFormed topo c) (hheap : heap = h ∨ ∃ key, heap = h.hugeEntry key) :
    heap.WellFormed topo c := by
  rcases hheap with rfl | ⟨key, rfl⟩
  · exact hw
  · exact Heap.hugeEntry_wellFormed hw key

/-- The invariant of a heap with the configuration `c`, under any number of
threads. -/
structure ConcHeapInv [Fintype Tid] (sys : System) (c : HeapConfig) (st : ConcHeap C Tid) :
    Prop where
  heap : st.heap.WellFormed sys.topo c
  nextSegment_pos : 1 ≤ st.world.nextSegment
  segment_pos : ∀ id, ∀ s ∈ (st.data id).segments, 1 ≤ s
  /-- Where there is no pool object there is nothing, and nobody. -/
  absent : ∀ id, st.heap.params? id = none →
    st.data id = ⟨[], []⟩ ∧ st.live id = [] ∧ st.mutexes id = none ∧
      ∀ t, (st.pc t).within id = .idle
  pool : ∀ id params, st.heap.params? id = some params → ConcInv sys (st.view id params)
  mutex : ∀ t, (st.pc t).Critical → st.mutex = some t

namespace ConcHeapInv

variable [Fintype Tid] {sys : System} {c : HeapConfig} {st st' : ConcHeap C Tid}

theorem init (h : st.Init sys c) : ConcHeapInv sys c st := by
  obtain ⟨habsent, hpool⟩ := ConcHeap.Pools.init h fun _ _ _ hinit =>
    (ConcInv.init hinit : ConcInv sys _)
  refine ⟨?_, h.nextSegment, ?_, habsent, hpool, ?_⟩
  · rw [h.heap]
    exact Heap.heap_wellFormed
  · intro id s hs
    rw [h.data] at hs
    cases hs
  · intro t ht
    rw [h.pc t] at ht
    exact absurd ht (by simp [HeapPc.Critical])

theorem params?_of_segment (h : ConcHeapInv sys c st) {id : PoolId} {s : Nat}
    (hs : s ∈ (st.data id).segments) : ∃ params, st.heap.params? id = some params := by
  cases hparams : st.heap.params? id with
  | some params => exact ⟨params, rfl⟩
  | none =>
    rw [(h.absent id hparams).1] at hs
    cases hs

theorem params?_of_live (h : ConcHeapInv sys c st) {id : PoolId} {b : Block C}
    (hb : b ∈ st.live id) : ∃ params, st.heap.params? id = some params := by
  cases hparams : st.heap.params? id with
  | some params => exact ⟨params, rfl⟩
  | none =>
    rw [(h.absent id hparams).2.1] at hb
    cases hb

/-- A segment knows its pool, so no two pools share one. -/
theorem segment_pool (h : ConcHeapInv sys c st) {id : PoolId} {s : Nat}
    (hs : s ∈ (st.data id).segments) :
    s < st.world.nextSegment ∧ (st.world.segmentAt s).pool = id := by
  obtain ⟨params, hparams⟩ := h.params?_of_segment hs
  have hinv := h.pool id params hparams
  exact ⟨hinv.segments_lt s hs, (hinv.made s hs).pool⟩

/-- A block that a client holds belongs to a segment of its pool. -/
theorem live_segment (h : ConcHeapInv sys c st) {id : PoolId} {b : Block C}
    (hb : b ∈ st.live id) :
    b.segment ∈ (st.data id).segments ∧ (st.world.segmentAt b.segment).pool = id := by
  obtain ⟨params, hparams⟩ := h.params?_of_live hb
  have hblock : (st.view id params).IsBlock b := by
    refine (h.pool id params hparams).isBlock_of_places ?_
    have hpos : 0 < (st.view id params).live.count b := List.count_pos_iff.mpr hb
    simp only [ConcState.places]
    omega
  exact ⟨hblock.1, (h.segment_pool hblock.1).2⟩

variable [DecidableEq Tid]

/-- A step outside the pools. -/
theorem moved (h : ConcHeapInv sys c st) {heap : Heap} {m : Option Tid} {t : Tid} {x : HeapPc C}
    (hheap : heap = st.heap ∨ ∃ key, heap = st.heap.hugeEntry key)
    (hold : ∀ id, (st.pc t).within id = .idle) (hnew : ∀ id, x.within id = .idle)
    (hmutex : ({ st with heap := heap, mutex := m }.setPc t x).mutexState.Exclusive) :
    ConcHeapInv sys c ({ st with heap := heap, mutex := m }.setPc t x) := by
  have hpools : st.Pools fun _ => ConcInv sys := ⟨h.absent, h.pool⟩
  obtain ⟨habsent, hpool⟩ := hpools.moved hheap hold hnew fun _ _ _ _ => ConcInv.init
  exact ⟨h.heap.of_hugeEntry hheap, h.nextSegment_pos, h.segment_pos, habsent, hpool, hmutex⟩

/-- A step in the pool `id`. -/
theorem put (h : ConcHeapInv sys c st) {t : Tid} {id : PoolId} {params : PoolParams}
    {st₁ : ConcState C Tid} (hparams : st.heap.params? id = some params)
    (hout : ∀ id', id' ≠ id → (st.pc t).within id' = .idle)
    (hmutex : (st.put id t st₁).mutexState.Exclusive)
    (hstep : ConcStepOk sys (st.view id params) (.normal t) st₁) :
    ConcHeapInv sys c (st.put id t st₁) := by
  have hinv := h.pool id params hparams
  obtain ⟨huntouched, hsegs⟩ := concStep_untouched hinv hstep
  have hpools : st.Pools fun _ => ConcInv sys := ⟨h.absent, h.pool⟩
  have hput : (st.put id t st₁).Pools fun _ => ConcInv sys := by
    refine hpools.put hparams hout (concStep_params hstep) (concStep_self hstep)
      (fun u hu => concStep_pc_ne hstep.2 hu) (hinv.step hstep) fun id' params' hid hsome => ?_
    -- The other pools have other segments.
    refine (h.pool id' params' hsome).frame huntouched.nextSegment fun s hs => ?_
    obtain ⟨hlt, hpool⟩ := h.segment_pool hs
    exact huntouched.others s hlt fun hs' => hid (hpool.symm.trans (h.segment_pool hs').2)
  refine ⟨h.heap, h.nextSegment_pos.trans huntouched.nextSegment, fun id' s hs => ?_,
    hput.absent, hput.pool, hmutex⟩
  by_cases hid : id' = id
  · subst hid
    have hs' : s ∈ st₁.pool.segments := by simpa [ConcHeap.put] using hs
    rcases hsegs s hs' with hs' | rfl
    · exact h.segment_pos _ s hs'
    · exact h.nextSegment_pos
  · exact h.segment_pos id' s (by simpa [ConcHeap.put, hid] using hs)

/-- Every step without exception keeps the invariant. -/
theorem step {l : Label Tid} (h : ConcHeapInv sys c st) (hstep : ConcHeapStepOk sys st l st') :
    ConcHeapInv sys c st' := by
  obtain ⟨⟨t, rfl⟩, hstep⟩ := hstep
  obtain ⟨m, -, hm⟩ := concHeapStep_mutex hstep
  have hex : st.mutexState.Exclusive := h.mutex
  have hmutex := hex.step hm
  rcases concHeapStep_cases hstep fun id b hb => ⟨h.params?_of_live hb, (h.live_segment hb).2⟩ with
    ⟨heap, m, x, -, hheap, hold, hnew, rfl⟩ | ⟨id, params, st₁, hparams, hout, hpool, rfl⟩
  · exact h.moved hheap hold hnew hmutex
  · exact h.put hparams hout hmutex ⟨⟨t, rfl⟩, hpool⟩

end ConcHeapInv

/-- The invariant holds in every reachable state. -/
theorem reachable_concHeapInv [Fintype Tid] [DecidableEq Tid] {sys : System} {c : HeapConfig}
    {st : ConcHeap C Tid} (h : Lib.Reachable (ConcHeap.Init sys c) (ConcHeapStepOk sys) st) :
    ConcHeapInv sys c st :=
  h.invariant (fun _ => ConcHeapInv.init) fun _ _ _ => ConcHeapInv.step

/-- Whatever any number of threads do, each block of each segment of each pool is
in exactly one place of its pool, and in none of another pool; and the segment of
a block that a client holds names the pool under which the client holds it. This is
about the runs without exceptions: a block of a segment that an exception has destroyed
may be left on the free stack. -/
theorem heap_block_conservation [Fintype Tid] [DecidableEq Tid] {sys : System} {c : HeapConfig}
    {st : ConcHeap C Tid} (h : Lib.Reachable (ConcHeap.Init sys c) (ConcHeapStepOk sys) st) :
    (∀ id params, st.heap.params? id = some params →
        ∀ s ∈ (st.data id).segments, ∀ b ∈ (st.world.segmentAt s).blocks s params.deviceId,
          (st.view id params).places b = 1 ∧
            ∀ id' params', id' ≠ id → st.heap.params? id' = some params' →
              (st.view id' params').places b = 0) ∧
      ∀ id, ∀ b ∈ st.live id, b.segment ≠ 0 ∧ (st.world.segmentAt b.segment).pool = id := by
  have hinv := reachable_concHeapInv h
  refine ⟨fun id params hparams s hs b hb => ?_, fun id b hb => ?_⟩
  · have hseg : b.segment = s := by
      obtain ⟨i, -, rfl⟩ := Segment.mem_blocks.mp hb
      exact Segment.blockAt_segment s _ _ i
    subst hseg
    have hblock : (st.view id params).IsBlock b := ⟨hs, hb⟩
    refine ⟨by rw [(hinv.pool id params hparams).places b, if_pos hblock],
      fun id' params' hne hparams' => ?_⟩
    -- The segment of the block is registered with one pool only.
    rw [(hinv.pool id' params' hparams').places b, if_neg fun hblock' => hne ?_]
    exact (hinv.segment_pool hblock'.1).2.symm.trans (hinv.segment_pool hs).2
  · obtain ⟨hs, hpool⟩ := hinv.live_segment hb
    exact ⟨Nat.one_le_iff_ne_zero.mp (hinv.segment_pos id _ hs), hpool⟩

/-! ### A run -/

/-- A heap with tiny segments of two pages, before the first call of one of two
threads. -/
def smallHeapStart : ConcHeap rangeContext Bool where
  toHeapState := smallSegmentHeap
  mutexes := fun _ => none
  mutex := none
  pc := fun _ => .idle

theorem smallHeapStart_init : smallHeapStart.Init smallPages smallSegmentConfig :=
  { freshHeap_init smallPages smallSegmentConfig with
    mutexes := fun _ => rfl
    mutex := rfl
    pc := fun _ => rfl }

/-- Thread `t` takes `n` steps, and gets the memory at `base` if it adds a segment. -/
def heapAdvanceBy (t : Bool) (n base : Nat) : List (Bool × HeapChoice rangeContext) :=
  List.replicate n (t, .go (.go [] (grantAt base) false))

/-- A call of `allocate` by thread `t`. -/
def heapAllocate (t : Bool) (size : Nat) : Bool × HeapChoice rangeContext :=
  (t, .allocate { size := size, numaNode := 0, localNode := 0 })

/-- The thread `false` allocates 64 bytes; meanwhile the thread `true` adds a
segment to the pool for 24 bytes, and holds its mutex. -/
def twoPools : List (Bool × HeapChoice rangeContext) :=
  heapAllocate false 64 :: heapAllocate true 24 ::
    heapAdvanceBy true 7 8192 ++ heapAdvanceBy false 10 4096

/-- Block `i` of 64 bytes in segment 1, if its memory is at 4096. -/
def smallBlock (i : Nat) : Block rangeContext where
  segment := 1
  userAllocation := 0
  ptr := 4096 + 64 * i
  handle := (4096 + 64 * i, 64)

/-- The two blocks of segment 1 and one block of 24 bytes are allocated. Then the thread
`true` returns one of the former: it has pushed the block, and not counted it. -/
def twoPoolsReturn : List (Bool × HeapChoice rangeContext) :=
  heapAllocate false 64 :: heapAdvanceBy false 10 4096 ++
    heapAllocate true 24 :: heapAdvanceBy true 10 8192 ++
    heapAllocate false 64 :: heapAdvanceBy false 3 4096 ++
    (true, .free ⟨.tiny 7, false, 0⟩ (smallBlock 0)) :: heapAdvanceBy true 1 4096

theorem heap_block_conservation_twoPoolsReturn :
    ∃ (st : ConcHeap rangeContext Bool) (b : Block rangeContext),
      st.live ⟨.tiny 7, false, 0⟩ = [smallBlock 1] ∧ st.live ⟨.tiny 2, false, 0⟩ = [b] ∧
      st.pc true = .inPool ⟨.tiny 7, false, 0⟩ (.freeInc (smallBlock 0)) ∧
      (∀ b' ∈ [smallBlock 0, smallBlock 1],
        (st.view ⟨.tiny 7, false, 0⟩ (pool 64 128 0 false 16)).places b' = 1 ∧
          (st.view ⟨.tiny 2, false, 0⟩ (pool 24 128 0 false 16)).places b' = 0) ∧
      (st.view ⟨.tiny 7, false, 0⟩ (pool 64 128 0 false 16)).places b = 0 ∧
      (st.view ⟨.tiny 2, false, 0⟩ (pool 24 128 0 false 16)).places b = 1 := by
  obtain ⟨st, b, rest, hexec, hlive, hlive', hpc, hparams, hparams', hsegs, hsegs', hblocks,
      hblocks'⟩ : ∃ st b rest,
      Lib.exec (fun st e => ConcHeap.advance smallPages st e.1 e.2) twoPoolsReturn
          smallHeapStart = some st ∧
        st.live ⟨.tiny 7, false, 0⟩ = [smallBlock 1] ∧ st.live ⟨.tiny 2, false, 0⟩ = [b] ∧
        st.pc true = .inPool ⟨.tiny 7, false, 0⟩ (.freeInc (smallBlock 0)) ∧
        st.heap.params? ⟨.tiny 7, false, 0⟩ = some (pool 64 128 0 false 16) ∧
        st.heap.params? ⟨.tiny 2, false, 0⟩ = some (pool 24 128 0 false 16) ∧
        1 ∈ (st.data ⟨.tiny 7, false, 0⟩).segments ∧ 2 ∈ (st.data ⟨.tiny 2, false, 0⟩).segments ∧
        (st.world.segmentAt 1).blocks 1 0 = [smallBlock 0, smallBlock 1] ∧
        (st.world.segmentAt 2).blocks 2 0 = b :: rest :=
    ⟨_, _, _, rfl, rfl, rfl, rfl, rfl, rfl, List.mem_singleton.mpr rfl, List.mem_singleton.mpr rfl,
      rfl, rfl⟩
  obtain ⟨hplaces, -⟩ := heap_block_conservation
    ⟨_, _, smallHeapStart_init, heapRun_of_schedule hexec⟩
  have hb := hplaces _ _ hparams' 2 hsegs' b (hblocks'.symm ▸ List.mem_cons_self)
  refine ⟨st, b, hlive, hlive', hpc, fun b' hb' => ?_, hb.2 _ _ (by decide) hparams, hb.1⟩
  have hb' := hplaces _ _ hparams 1 hsegs b' (hblocks.symm ▸ hb')
  exact ⟨hb'.1, hb'.2 _ _ (by decide) hparams'⟩

end HwMalloc
