import HwMalloc.ConcurrentHeapInvariant
import HwMalloc.LockLeak
import HwMalloc.SoloCalls

/-!
# HwMalloc.HeapProgress

No deadlock: as long as nothing throws, every thread in a call of the heap can
go on, or waits for the owner of one mutex, which can go on.

There are as many mutexes as pools, and one more for `m_huge_heaps`. A thread holds
one of them at a time: the search of `m_huge_heaps` is over before the pool is
entered. So nobody who owns a mutex waits for another, and the chains of waiting
threads have length one. This rests on three facts (`ConcHeapLive`):

* the mutexes are owned from inside the critical sections only;
* a thread in a critical section waits for nothing (`Pc.not_atLock_of_critical`);
* what a thread is going to look up in the tables is there (`HeapPc.Sound`).

The module ends with a consequence for the lock-free stacks of returned blocks: their
`push` loops never turn, since the place for the block is free (`heap_push_has_room`).
-/

namespace HwMalloc

variable {C : Context} {Tid : Type}

/-! ### Steps in one pool

Every place in the code has a next step, the acquisition of the mutex apart. -/

/-- At the acquisition of `m_mutex`. -/
def Pc.AtLock : Pc C → Prop
  | .allocLock | .freeLock _ => True
  | _ => False

theorem Pc.not_atLock_of_critical {x : Pc C} (h : x.Critical) : ¬x.AtLock := by
  cases x <;> simp [Critical, AtLock] at h ⊢

/-- In a call, a thread that does not wait for the mutex has a step. -/
theorem exists_concStep [DecidableEq Tid] {sys : System} {st : ConcState C Tid} {t : Tid}
    (hbusy : st.pc t ≠ .idle) (hlock : (st.pc t).AtLock → st.mutex = none) :
    ∃ l st', Label.thread l = t ∧ ConcStep sys st l st' := by
  have hpop : ∀ next y, (st.pc t).onPop = some next →
      (st.pc t).onEmpty st.pool.segments = some y →
      ∃ l st', Label.thread l = t ∧ ConcStep sys st l st' := by
    intro next y hnext hy
    cases hfree : st.pool.popFree with
    | none => exact ⟨.normal t, _, rfl, .popEmpty hy hfree (.refl _)⟩
    | some bp => exact ⟨.normal t, _, rfl, .pop hnext hfree⟩
  cases hx : st.pc t with
  | idle => exact absurd hx hbusy
  | allocPop => exact hpop _ _ (by rw [hx]; rfl) (by rw [hx]; rfl)
  | allocLock => exact ⟨.normal t, _, rfl, .allocLock hx (hlock (by rw [hx]; trivial))⟩
  | allocPopLocked => exact hpop _ _ (by rw [hx]; rfl) (by rw [hx]; rfl)
  | collectPop s todo n =>
    cases hfreed : (st.world.segmentAt s).freedStack with
    | nil => exact ⟨.normal t, _, rfl, .collectEmpty hx hfreed⟩
    | cons b rest => exact ⟨.normal t, _, rfl, .collectPop hx hfreed⟩
  | collectPush b s todo n => exact ⟨.normal t, _, rfl, .collectPush hx⟩
  | collectSub s todo n => exact ⟨.normal t, _, rfl, .collectSub hx⟩
  | allocPopCollected => exact hpop _ _ (by rw [hx]; rfl) (by rw [hx]; rfl)
  | growPop counter => exact hpop _ _ (by rw [hx]; rfl) (by rw [hx]; rfl)
  | grow counter =>
    -- The environment may refuse the memory, and then the step is an exception.
    cases hadd : addSegment sys GrowEnv.refusing st.world st.pool with
    | mk res rest =>
      cases res with
      | ok _ => exact ⟨.normal t, _, rfl, .grow hx hadd⟩
      | error e => exact ⟨.throws t, _, rfl, .growThrows hx hadd⟩
  | allocUnlock b => exact ⟨.normal t, _, rfl, .allocUnlock hx⟩
  | allocReturn b => exact ⟨.normal t, _, rfl, .allocReturn hx⟩
  | freePush b => exact ⟨.normal t, _, rfl, .freePush hx⟩
  | freeInc b => exact ⟨.normal t, _, rfl, .freeInc hx⟩
  | freeTest b => exact ⟨.normal t, _, rfl, .freeTest hx fun _ => rfl⟩
  | freeLock b => exact ⟨.normal t, _, rfl, .freeLock hx (hlock (by rw [hx]; trivial))⟩
  | freeRecheck b => exact ⟨.normal t, _, rfl, .freeRecheck hx fun _ => rfl⟩
  | freeErase b => exact ⟨.normal t, _, rfl, .freeErase hx⟩
  | freeUnlock => exact ⟨.normal t, _, rfl, .freeUnlock hx⟩

/-- Without exceptions the mutex of a pool stays with threads that are inside. -/
theorem concStep_sound [DecidableEq Tid] {sys : System} {st st' : ConcState C Tid} {l : Label Tid}
    (h : ConcStepOk sys st l st') (hsound : st.mutexState.Sound) : st'.mutexState.Sound := by
  obtain ⟨m, hm, hmutex⟩ := concStep_mutex h.2
  exact hsound.step (hm.mp h.1) hmutex

/-! ### What a thread is going to find

The dispatch uses an entry that was found, or made, some steps before. It is still
there, because entries are only ever added. -/

/-- A request for which `fixed_size_heap::allocate` finds its pool in the heap `ref`. -/
def Heap.Serves (h : Heap) (q : Request) (ref : HeapRef) : Prop :=
  ∃ slot, poolSlot h.topo q.localNode q.numaNode q.deviceId = some slot ∧
    (h.params? ⟨ref, slot.1, slot.2⟩).isSome

/-- What a thread is going to look up is there. -/
def HeapPc.Sound (h : Heap) : HeapPc C → Prop
  | .idle => True
  | .hugeLock q | .hugeFind q =>
    (h.hugeEntry (roundToPowOf2 q.size)).Serves q (.huge (roundToPowOf2 q.size))
  | .hugeUnlock q => h.Serves q (.huge (roundToPowOf2 q.size))
  | .dispatch q ref => h.Serves q ref
  | .inPool _ x => x ≠ .idle

theorem HeapPc.sound_ofPool (h : Heap) (id : PoolId) (x : Pc C) :
    (HeapPc.ofPool id x).Sound h := by
  cases x <;> simp [ofPool, Sound]

namespace Heap

variable {topo : Topology} {c : HeapConfig} {h : Heap}

@[simp] theorem hugeEntry_topo (h : Heap) (key : Nat) : (h.hugeEntry key).topo = h.topo := by
  unfold hugeEntry
  split <;> rfl

theorem Serves.hugeEntry {q : Request} {ref : HeapRef} (hs : h.Serves q ref) (key : Nat) :
    (h.hugeEntry key).Serves q ref := by
  obtain ⟨slot, hslot, hsome⟩ := hs
  obtain ⟨params, hparams⟩ := Option.isSome_iff_exists.mp hsome
  exact ⟨slot, by rwa [hugeEntry_topo], by rw [h.params?_hugeEntry key hparams]; rfl⟩

/-- The entry for a key is the same, whichever entries were made before. -/
theorem params?_hugeEntry_self (hw : h.WellFormed topo c) (key : Nat) (d : Bool) (slot : Nat) :
    (h.hugeEntry key).params? ⟨.huge key, d, slot⟩ =
      (makeFixedSizeHeap topo c key key).poolAt (d, slot) := by
  show (Option.bind ((h.hugeEntry key).hugeHeaps.lookup key) fun f => f.poolAt (d, slot)) = _
  rw [hugeEntry_lookup hw key]
  rfl

theorem Serves.hugeEntry_self {q : Request} {key : Nat} (hw : h.WellFormed topo c)
    (hs : (h.hugeEntry key).Serves q (.huge key)) (key' : Nat) :
    ((h.hugeEntry key').hugeEntry key).Serves q (.huge key) := by
  obtain ⟨slot, hslot, hsome⟩ := hs
  refine ⟨slot, by simpa using hslot, ?_⟩
  rw [params?_hugeEntry_self (hugeEntry_wellFormed hw key')]
  rwa [params?_hugeEntry_self hw] at hsome

/-- A request that finds a pool is served from where it is dispatched to. -/
theorem serves_of_route {q : Request} (hroute : (h.route q).isSome) :
    (h.select q.size).1.Serves q (h.select q.size).2 := by
  obtain ⟨r, hr⟩ := Option.isSome_iff_exists.mp hroute
  obtain ⟨slot, hslot, hmap⟩ := Option.bind_eq_some_iff.mp hr
  obtain ⟨params, hparams, -⟩ := Option.map_eq_some_iff.mp hmap
  exact ⟨slot, hslot, Option.isSome_iff_exists.mpr ⟨params, hparams⟩⟩

theorem select_of_isHuge {size : Nat} (hhuge : h.IsHuge size) :
    h.select size = (h.hugeEntry (roundToPowOf2 size), .huge (roundToPowOf2 size)) := by
  rw [select, if_neg (not_le.mpr hhuge.1), if_neg (not_le.mpr hhuge.2)]

theorem select_of_not_isHuge {size : Nat} (hhuge : ¬h.IsHuge size) : (h.select size).1 = h := by
  unfold select
  by_cases htiny : size ≤ h.config.tinyLimit
  · rw [if_pos htiny]
  · have hsized : size ≤ h.maxSize := not_lt.mp fun hlt => hhuge ⟨not_le.mp htiny, hlt⟩
    rw [if_neg htiny, if_pos hsized]

end Heap

/-- New entries of `m_huge_heaps` take nothing away. -/
theorem HeapPc.Sound.hugeEntry {topo : Topology} {c : HeapConfig} {h : Heap} {x : HeapPc C}
    (hw : h.WellFormed topo c) (hx : x.Sound h) (key : Nat) : x.Sound (h.hugeEntry key) := by
  cases x with
  | idle => trivial
  | hugeLock q => exact Heap.Serves.hugeEntry_self hw hx key
  | hugeFind q => exact Heap.Serves.hugeEntry_self hw hx key
  | hugeUnlock q => exact Heap.Serves.hugeEntry hx key
  | dispatch q ref => exact Heap.Serves.hugeEntry hx key
  | inPool id x => exact hx

/-- What a thread is going to look up stays there, whatever the threads do. -/
theorem concHeapStep_sound [DecidableEq Tid] {sys : System} {topo : Topology} {c : HeapConfig}
    {st st' : ConcHeap C Tid} {l : Label Tid} (hw : st.heap.WellFormed topo c)
    (h : ∀ t, (st.pc t).Sound st.heap) (hstep : ConcHeapStep sys st l st') :
    ∀ t, (st'.pc t).Sound st'.heap := by
  have hmoved : ∀ {heap : Heap} {t : Tid} {x : HeapPc C}, x.Sound heap →
      (∀ u, (st.pc u).Sound heap) → ∀ u, (Function.update st.pc t x u).Sound heap := by
    intro heap t x hx hothers u
    by_cases hut : u = t
    · rw [hut, Function.update_self]
      exact hx
    · rw [Function.update_of_ne hut]
      exact hothers u
  cases hstep with
  | @callAllocate t q _ hroute =>
    -- The request can be served, by an entry that there is or that is going to be made.
    refine hmoved ?_ h
    have hserves := Heap.serves_of_route hroute
    by_cases hhuge : st.heap.IsHuge q.size
    · rw [if_pos hhuge]
      rwa [Heap.select_of_isHuge hhuge] at hserves
    · rw [if_neg hhuge]
      rwa [Heap.select_of_not_isHuge hhuge] at hserves
  | @hugeLock t q hx _ =>
    have hsound := h t
    rw [hx] at hsound
    exact hmoved hsound h
  | @hugeFind t q hx =>
    -- The new entry disturbs nobody.
    have hsound := h t
    rw [hx] at hsound
    exact hmoved hsound fun u => (h u).hugeEntry hw _
  | @hugeUnlock t q hx =>
    have hsound := h t
    rw [hx] at hsound
    exact hmoved hsound h
  | dispatch _ _ _ => exact hmoved (by simp [HeapPc.Sound]) h
  | callFree _ _ _ => exact hmoved (by simp [HeapPc.Sound]) h
  | inPool _ _ _ _ => exact hmoved (HeapPc.sound_ofPool _ _ _) h

/-! ### The owners of the mutexes

The converse of mutual exclusion: a mutex that is owned has its owner inside. With
exceptions it would fail, and with it all that follows. -/

/-- What progress rests on: whoever owns a mutex is in its critical section, and
what a thread is going to look up is there. -/
structure ConcHeapLive [Fintype Tid] (sys : System) (c : HeapConfig) (st : ConcHeap C Tid) : Prop
    extends ConcHeapInv sys c st where
  mutexes_inside : ∀ id t, st.mutexes id = some t → ((st.pc t).within id).Critical
  mutex_inside : ∀ t, st.mutex = some t → (st.pc t).Critical
  sound : ∀ t, (st.pc t).Sound st.heap

namespace ConcHeapLive

variable [Fintype Tid] {sys : System} {c : HeapConfig} {st st' : ConcHeap C Tid}

theorem init (h : st.Init sys c) : ConcHeapLive sys c st where
  toConcHeapInv := ConcHeapInv.init h
  mutexes_inside := fun id t ht => by
    rw [h.mutexes id] at ht
    cases ht
  mutex_inside := fun t ht => by
    rw [h.mutex] at ht
    cases ht
  sound := fun t => by
    rw [h.pc t]
    trivial

variable [DecidableEq Tid]

/-- Whoever owns the mutex of a pool stays inside until it releases it. -/
theorem mutexes_step (h : ConcHeapLive sys c st) {t : Tid}
    (hstep : ConcHeapStepOk sys st (.normal t) st') {id : PoolId} {u : Tid}
    (hu : st'.mutexes id = some u) : ((st'.pc u).within id).Critical := by
  rcases concHeapStep_cases hstep.2 fun id b hb => ⟨h.params?_of_live hb, (h.live_segment hb).2⟩
    with ⟨heap, m, x, -, -, hold, -, rfl⟩ | ⟨id₁, params, st₁, -, hout, hpool, rfl⟩
  · -- A thread outside the pools owns none of their mutexes.
    have hcrit := h.mutexes_inside id u hu
    have hne : u ≠ t := by
      rintro rfl
      rw [show (st.pc u).within id = .idle from hold id] at hcrit
      exact hcrit
    simpa [ConcHeap.setPc, Label.thread, hne] using hcrit
  · by_cases hid : id = id₁
    · subst hid
      have hsound := concStep_sound ⟨⟨t, rfl⟩, hpool⟩ fun u hu => h.mutexes_inside id u hu
      have howner : st₁.mutex = some u := by simpa [ConcHeap.put] using hu
      have hcrit : (st₁.pc u).Critical := hsound u howner
      by_cases hut : u = t
      · subst hut
        simpa [ConcHeap.put, Label.thread] using hcrit
      · rw [concStep_pc_ne hpool hut] at hcrit
        have hpc : (st.put id t st₁).pc u = st.pc u := Function.update_of_ne hut ..
        show (((st.put id t st₁).pc u).within id).Critical
        rw [hpc]
        exact hcrit
    · -- The owner is in another pool than the thread, and so it is another thread.
      have hcrit := h.mutexes_inside id u (by simpa [ConcHeap.put, hid] using hu)
      have hut : u ≠ t := by
        rintro rfl
        rw [show (st.pc u).within id = .idle from hout id hid] at hcrit
        exact hcrit
      simpa [ConcHeap.put, Label.thread, hut] using hcrit

/-- Every step without exception keeps the invariant. -/
theorem step {l : Label Tid} (h : ConcHeapLive sys c st) (hstep : ConcHeapStepOk sys st l st') :
    ConcHeapLive sys c st' := by
  have ⟨⟨t, hl⟩, hstep'⟩ := hstep
  subst hl
  obtain ⟨m, hm, hmutex⟩ := concHeapStep_mutex hstep'
  have hsound : st.mutexState.Sound := h.mutex_inside
  exact ⟨h.toConcHeapInv.step hstep, fun _ _ hu => h.mutexes_step hstep hu,
    hsound.step hm hmutex, concHeapStep_sound h.heap h.sound hstep'⟩

end ConcHeapLive

theorem reachable_concHeapLive [Fintype Tid] [DecidableEq Tid] {sys : System} {c : HeapConfig}
    {st : ConcHeap C Tid} (h : Lib.Reachable (ConcHeap.Init sys c) (ConcHeapStepOk sys) st) :
    ConcHeapLive sys c st :=
  h.invariant (fun _ => ConcHeapLive.init) fun _ _ _ => ConcHeapLive.step

/-! ### Progress

A step may be an exception: where the only next step is `add_segment`, the environment
decides. What is excluded is that there is no step at all. -/

/-- Thread `t` has a next step. -/
def ConcHeap.CanStep [DecidableEq Tid] (sys : System) (st : ConcHeap C Tid) (t : Tid) : Prop :=
  ∃ l st', Label.thread l = t ∧ ConcHeapStep sys st l st'

/-- Thread `t` is at the acquisition of a mutex that `u` owns. -/
inductive ConcHeap.WaitsFor (st : ConcHeap C Tid) (t u : Tid) : Prop
  | heap {q : Request} : st.pc t = .hugeLock q → st.mutex = some u → WaitsFor st t u
  | pool {id : PoolId} {x : Pc C} :
      st.pc t = .inPool id x → x.AtLock → st.mutexes id = some u → WaitsFor st t u

namespace ConcHeap

variable [DecidableEq Tid] {sys : System} {st : ConcHeap C Tid} {t : Tid} {id : PoolId}
  {params : PoolParams}

/-- A thread in a call of a pool that does not wait for its mutex can go on. -/
theorem canStep_inPool {x : Pc C} (hx : st.pc t = .inPool id x) (hne : x ≠ .idle)
    (hparams : st.heap.params? id = some params) (hlock : x.AtLock → st.mutexes id = none) :
    st.CanStep sys t := by
  have hwithin : (st.pc t).within id = x := by rw [hx]; exact if_pos rfl
  have hpool : ∃ l st₁, Label.thread l = t ∧ ConcStep sys (st.view id params) l st₁ :=
    exists_concStep (fun hidle => hne (hwithin.symm.trans hidle)) fun hat => hlock (hwithin ▸ hat)
  obtain ⟨l, st₁, rfl, hstep⟩ := hpool
  exact ⟨l, _, rfl, .inPool hx hne hparams hstep⟩

/-- A thread in a call that waits for no mutex can go on. -/
theorem canStep_or_waits (hbusy : st.pc t ≠ .idle) (hsound : (st.pc t).Sound st.heap)
    (hpool : ∀ id x, st.pc t = .inPool id x → ∃ params, st.heap.params? id = some params) :
    st.CanStep sys t ∨ ∃ u, st.WaitsFor t u := by
  cases hx : st.pc t with
  | idle => exact absurd hx hbusy
  | hugeLock q =>
    cases hm : st.mutex with
    | none => exact Or.inl ⟨.normal t, _, rfl, .hugeLock hx hm⟩
    | some u => exact Or.inr ⟨u, .heap hx hm⟩
  | hugeFind q => exact Or.inl ⟨.normal t, _, rfl, .hugeFind hx⟩
  | hugeUnlock q => exact Or.inl ⟨.normal t, _, rfl, .hugeUnlock hx⟩
  | dispatch q ref =>
    rw [hx] at hsound
    obtain ⟨slot, hslot, hsome⟩ := hsound
    exact Or.inl ⟨.normal t, _, rfl, .dispatch hx hslot hsome⟩
  | inPool id x =>
    obtain ⟨params, hparams⟩ := hpool id x hx
    rw [hx] at hsound
    by_cases hlock : x.AtLock → st.mutexes id = none
    · exact Or.inl (canStep_inPool hx hsound hparams hlock)
    · obtain ⟨hat, hm⟩ := Classical.not_imp.mp hlock
      obtain ⟨u, hu⟩ := Option.ne_none_iff_exists'.mp hm
      exact Or.inr ⟨u, .pool hx hat hu⟩

/-- A thread that has the mutex of the heap can go on. -/
theorem canStep_of_critical (hcrit : (st.pc t).Critical) : st.CanStep sys t := by
  cases hx : st.pc t <;> rw [hx] at hcrit <;> try exact hcrit.elim
  · exact ⟨.normal t, _, rfl, .hugeFind hx⟩
  · exact ⟨.normal t, _, rfl, .hugeUnlock hx⟩

/-- A thread that has the mutex of a pool can go on. -/
theorem canStep_of_within (hcrit : ((st.pc t).within id).Critical)
    (hparams : st.heap.params? id = some params) : st.CanStep sys t := by
  cases hx : st.pc t with
  | inPool id' y =>
    rw [hx, HeapPc.within] at hcrit
    split at hcrit
    · next hid =>
      subst hid
      refine canStep_inPool hx ?_ hparams fun hat =>
        absurd hat (Pc.not_atLock_of_critical hcrit)
      rintro rfl
      exact hcrit
    · exact hcrit.elim
  | _ => rw [hx] at hcrit; exact hcrit.elim

end ConcHeap

namespace ConcHeapLive

variable [Fintype Tid] {sys : System} {c : HeapConfig} {st : ConcHeap C Tid}

/-- Threads are in pools that exist. -/
theorem params?_of_within (h : ConcHeapLive sys c st) {t : Tid} {id : PoolId}
    (hbusy : (st.pc t).within id ≠ .idle) : ∃ params, st.heap.params? id = some params := by
  cases hparams : st.heap.params? id with
  | some params => exact ⟨params, rfl⟩
  | none => exact absurd ((h.absent id hparams).2.2.2 t) hbusy

/-- A thread in a call that waits for no mutex can go on. -/
theorem canStep_or_waits [DecidableEq Tid] (h : ConcHeapLive sys c st) {t : Tid}
    (hbusy : st.pc t ≠ .idle) : st.CanStep sys t ∨ ∃ u, st.WaitsFor t u := by
  refine ConcHeap.canStep_or_waits hbusy (h.sound t) fun id x hx => h.params?_of_within (t := t) ?_
  have hsound := h.sound t
  rw [hx] at hsound ⊢
  rw [HeapPc.within, if_pos rfl]
  exact hsound

/-- The owner of a mutex can go on. -/
theorem canStep_of_waitsFor [DecidableEq Tid] (h : ConcHeapLive sys c st) {t u : Tid}
    (hw : st.WaitsFor t u) : st.CanStep sys u := by
  cases hw with
  | heap _ hm => exact ConcHeap.canStep_of_critical (h.mutex_inside u hm)
  | @pool id x _ _ hm =>
    have hcrit := h.mutexes_inside id u hm
    obtain ⟨params, hparams⟩ := h.params?_of_within (t := u) fun hidle => by
      rw [hidle] at hcrit
      exact hcrit
    exact ConcHeap.canStep_of_within hcrit hparams

/-- A thread that waits for a mutex owns none. -/
theorem owns_nothing_of_waitsFor (h : ConcHeapLive sys c st) {t u : Tid} (hw : st.WaitsFor t u) :
    st.mutex ≠ some t ∧ ∀ id, st.mutexes id ≠ some t := by
  cases hw with
  | heap hx _ =>
    refine ⟨fun hm => ?_, fun id hm => ?_⟩
    · have hcrit := h.mutex_inside t hm
      rwa [hx] at hcrit
    · have hcrit := h.mutexes_inside id t hm
      rwa [hx] at hcrit
  | pool hx hat _ =>
    refine ⟨fun hm => ?_, fun id hm => ?_⟩
    · have hcrit := h.mutex_inside t hm
      rwa [hx] at hcrit
    · have hcrit := h.mutexes_inside id t hm
      rw [hx, HeapPc.within] at hcrit
      split at hcrit
      · exact Pc.not_atLock_of_critical hcrit hat
      · exact hcrit

end ConcHeapLive

/-- As long as nothing throws there is no deadlock: a thread in a call either can
go on, or it waits for a mutex, and then it owns none itself and the owner of the
mutex can go on. -/
theorem heap_no_deadlock [Fintype Tid] [DecidableEq Tid] {sys : System} {c : HeapConfig}
    {st : ConcHeap C Tid} (h : Lib.Reachable (ConcHeap.Init sys c) (ConcHeapStepOk sys) st)
    {t : Tid} (hbusy : st.pc t ≠ .idle) :
    st.CanStep sys t ∨
      ((st.mutex ≠ some t ∧ ∀ id, st.mutexes id ≠ some t) ∧
        ∃ u, st.WaitsFor t u ∧ st.CanStep sys u) := by
  have hlive := reachable_concHeapLive h
  rcases hlive.canStep_or_waits hbusy with hstep | ⟨u, hw⟩
  · exact Or.inl hstep
  · exact Or.inr ⟨hlive.owns_nothing_of_waitsFor hw, u, hw, hlive.canStep_of_waitsFor hw⟩

/-- Both threads allocate 24 bytes: the second one waits for the mutex of the
pool, which the first one owns. -/
def contention : List (Bool × HeapChoice rangeContext) :=
  heapAllocate true 24 :: heapAdvanceBy true 3 4096 ++
    heapAllocate false 24 :: heapAdvanceBy false 2 4096

theorem heap_no_deadlock_contention :
    ∃ st : ConcHeap rangeContext Bool,
      st.WaitsFor false true ∧
      (st.CanStep smallPages false ∨
        ((st.mutex ≠ some false ∧ ∀ id, st.mutexes id ≠ some false) ∧
          ∃ u, st.WaitsFor false u ∧ st.CanStep smallPages u)) := by
  obtain ⟨st, hexec, hpc, hmutex⟩ : ∃ st,
      Lib.exec (fun st e => ConcHeap.advance smallPages st e.1 e.2) contention smallHeapStart =
        some st ∧ st.pc false = .inPool ⟨.tiny 2, false, 0⟩ .allocLock ∧
          st.mutexes ⟨.tiny 2, false, 0⟩ = some true := ⟨_, rfl, rfl, rfl⟩
  refine ⟨st, .pool hpc trivial hmutex, ?_⟩
  refine heap_no_deadlock ⟨_, _, smallHeapStart_init, heapRun_of_schedule hexec⟩ ?_
  rw [hpc]
  simp

/-! ### The stacks of returned blocks

A stack of fixed capacity refuses a push when it is full, and `free` would try again and
again. -/

/-- The stack of returned blocks of a segment has a place for each block of the
segment; in the runs without exceptions the place for a block that is about to be
returned is free, so that the first attempt to push it succeeds. -/
theorem heap_push_has_room [Fintype Tid] [DecidableEq Tid] {sys : System} {c : HeapConfig}
    {st : ConcHeap C Tid} (h : Lib.Reachable (ConcHeap.Init sys c) (ConcHeapStepOk sys) st)
    {t : Tid} {id : PoolId} {b : Block C} (hx : st.pc t = .inPool id (.freePush b)) :
    (st.world.segmentAt b.segment).freedStack.length <
      (st.world.segmentAt b.segment).numBlocks := by
  have hinv := reachable_concHeapInv h
  have hwithin : (st.pc t).within id = .freePush b := by
    rw [hx]
    exact if_pos rfl
  obtain ⟨params, hparams⟩ : ∃ params, st.heap.params? id = some params := by
    cases hparams : st.heap.params? id with
    | some params => exact ⟨params, rfl⟩
    | none =>
      have hidle := (hinv.absent id hparams).2.2.2 t
      cases hwithin.symm.trans hidle
  have hpool := hinv.pool id params hparams
  have hheld : ((st.view id params).pc t).held = some b := by
    rw [show (st.view id params).pc t = _ from hwithin]
    rfl
  have hblock := hpool.isBlock_of_held hheld
  refine lt_of_le_of_ne (hpool.freed_length_le hblock.1) fun hfull => ?_
  -- In a full stack the block itself would be one of the returned ones.
  have hnone := (hpool.only_freed_of_full hblock hfull).2.2.1
  have hone := ConcInv.holds_le_inTransit (st.view id params) t b
  rw [Pc.holds, if_pos hheld] at hone
  omega

/-- The thread `false` is about to return its block of 64 bytes. -/
theorem heap_push_has_room_twoPools :
    ∃ (st : ConcHeap rangeContext Bool) (b : Block rangeContext),
      st.pc false = .inPool ⟨.tiny 7, false, 0⟩ (.freePush b) ∧
        (st.world.segmentAt b.segment).freedStack.length <
          (st.world.segmentAt b.segment).numBlocks := by
  obtain ⟨st, b, hexec, hlive, hidle, hseg, hpool⟩ : ∃ st b,
      Lib.exec (fun st e => ConcHeap.advance smallPages st e.1 e.2) twoPools smallHeapStart =
        some st ∧ st.live ⟨.tiny 7, false, 0⟩ = [b] ∧ st.pc false = .idle ∧ b.segment = 2 ∧
          (st.world.segmentAt b.segment).pool = ⟨.tiny 7, false, 0⟩ :=
    ⟨_, _, rfl, rfl, rfl, rfl, rfl⟩
  have hb : b ∈ st.live ⟨.tiny 7, false, 0⟩ := by
    rw [hlive]
    exact List.mem_cons_self
  obtain ⟨st', hfree, hpc⟩ : ∃ st', ConcHeapStepOk smallPages st (.normal false) st' ∧
      st'.pc false = .inPool ⟨.tiny 7, false, 0⟩ (.freePush b) := by
    refine ⟨_, ⟨⟨false, rfl⟩, .callFree hidle hb (by rw [hseg]; decide)⟩, ?_⟩
    rw [← hpool]
    exact Function.update_self false _ st.pc
  exact ⟨st', b, hpc, heap_push_has_room ⟨_, _, smallHeapStart_init,
    (heapRun_of_schedule hexec).snoc hfree⟩ hpc⟩

end HwMalloc
