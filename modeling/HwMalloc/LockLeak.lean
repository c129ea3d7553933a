import HwMalloc.AddSegmentFailure
import HwMalloc.Concurrent
import HwMalloc.Lib.Threads

/-!
# HwMalloc.LockLeak

`pool::allocate` locks and unlocks `m_mutex` by hand. Seen from the mutex, its
threads run the protocol of `HwMalloc.Lib.Threads`, where an exception under the
lock is a thread that abandons the mutex (`concStep_mutex`).

So the mutex is owned only by a thread in its critical section exactly as long as
nothing under the lock throws (`mutex_held_inside_iff`). One direction is the invariant
of the protocol; for the other, an abandoned mutex is never released again, so that the
state at the end of the run shows whether there was an exception. This is used the
other way round as well: where the mutex is free, or its owner inside, nothing has
thrown before (`run_ok_of_sound`).

`free` takes the mutex by a guard, and none of its steps under the lock throws.
-/

namespace HwMalloc

variable {C : Context} {Tid : Type}

/-- What the mutex sees of a configuration. -/
def ConcState.mutexState (st : ConcState C Tid) : Lib.MutexState Tid where
  owner := st.mutex
  inside := fun t => (st.pc t).Critical

/-- A step without exception does not abandon the mutex, and an exception does. -/
def Label.Matches (l : Label Tid) (m : Lib.MutexLabel Tid) : Prop :=
  (∃ t, l = .normal t) ↔ ∀ t, m ≠ .abandon t

namespace Pc

theorem critical_of_onPop {x : Pc C} {next : Block C → Pc C} (h : x.onPop = some next)
    (b : Block C) : (next b).Critical ↔ x.Critical := by
  cases x <;> simp only [onPop, Option.some.injEq, reduceCtorEq] at h
  all_goals
    subst h
    simp [Critical]

theorem critical_collectNext (todo : List Nat) : (collectNext todo : Pc C).Critical := by
  cases todo <;> trivial

theorem critical_of_onEmpty {x y : Pc C} {order : List Nat} (h : x.onEmpty order = some y) :
    y.Critical ↔ x.Critical := by
  cases x <;> simp only [onEmpty, Option.some.injEq, reduceCtorEq] at h
  case allocPopLocked =>
    subst h
    exact iff_of_true (critical_collectNext order) trivial
  case growPop counter =>
    subst h
    split <;> exact Iff.rfl
  all_goals
    subst h
    simp [Critical]

theorem critical_of_collecting {x : Pc C} (h : x.Collecting) : x.Critical := by
  cases x <;> trivial

end Pc

variable [DecidableEq Tid]

/-- One thread moves: it may enter or leave its critical section. -/
theorem mutexState_setPc (st : ConcState C Tid) (t : Tid) (x : Pc C) :
    (st.setPc t x).mutexState =
      ⟨st.mutex, Function.update st.mutexState.inside t x.Critical⟩ := by
  refine Lib.MutexState.ext rfl (funext fun u => ?_)
  by_cases hu : u = t
  · subst hu
    show ((st.setPc u x).pc u).Critical = Function.update st.mutexState.inside u x.Critical u
    rw [ConcState.setPc_pc_self, Function.update_self]
  · show ((st.setPc t x).pc u).Critical = Function.update st.mutexState.inside t x.Critical u
    rw [ConcState.setPc_pc_ne st t x hu, Function.update_of_ne hu]
    rfl

/-- The mutex does not notice a move on one side of the critical section. -/
theorem mutexState_setPc_same {st st₁ : ConcState C Tid} {t : Tid} {x : Pc C}
    (hpc : st₁.pc = st.pc) (hmutex : st₁.mutex = st.mutex)
    (hx : x.Critical ↔ (st.pc t).Critical) : (st₁.setPc t x).mutexState = st.mutexState := by
  have hsame : st₁.mutexState = st.mutexState := by
    rw [ConcState.mutexState, ConcState.mutexState, hpc, hmutex]
  rw [mutexState_setPc, hsame, hmutex, propext hx]
  exact Lib.MutexState.ext rfl (Function.update_eq_self t _)

/-- Every step is a step of the mutex protocol. -/
theorem concStep_mutex {sys : System} {st st' : ConcState C Tid} {l : Label Tid}
    (h : ConcStep sys st l st') :
    ∃ m, l.Matches m ∧ Lib.MutexStep st.mutexState m st'.mutexState := by
  -- Most steps stay on one side of the critical section.
  have hkeep : ∀ {t : Tid} {st₁ : ConcState C Tid} {x : Pc C}, st₁.pc = st.pc →
      st₁.mutex = st.mutex → (x.Critical ↔ (st.pc t).Critical) →
      ∃ m, (Label.normal t).Matches m ∧
        Lib.MutexStep st.mutexState m (st₁.setPc t x).mutexState := by
    intro t st₁ x hpc hmutex hx
    refine ⟨.keep, iff_of_true ⟨t, rfl⟩ (by simp), ?_⟩
    rw [mutexState_setPc_same hpc hmutex hx]
    exact .keep
  have henter : ∀ {t : Tid} {x : Pc C}, st.mutex = none → ¬(st.pc t).Critical → x.Critical →
      ∃ m, (Label.normal t).Matches m ∧
        Lib.MutexStep st.mutexState m ({ st with mutex := some t }.setPc t x).mutexState := by
    intro t x hfree hout hx
    refine ⟨.acquire t, iff_of_true ⟨t, rfl⟩ (by simp), ?_⟩
    rw [mutexState_setPc, eq_true hx]
    exact .acquire hfree hout
  have hleave : ∀ {t : Tid} {x : Pc C}, (st.pc t).Critical → ¬x.Critical →
      ∃ m, (Label.normal t).Matches m ∧
        Lib.MutexStep st.mutexState m ({ st with mutex := none }.setPc t x).mutexState := by
    intro t x hin hx
    refine ⟨.release t, iff_of_true ⟨t, rfl⟩ (by simp), ?_⟩
    rw [mutexState_setPc, eq_false hx]
    exact .release hin
  have habandon : ∀ {t : Tid} {st₁ : ConcState C Tid}, st₁.pc = st.pc → st₁.mutex = st.mutex →
      (st.pc t).Critical → ∃ m, (Label.throws t).Matches m ∧
        Lib.MutexStep st.mutexState m (st₁.setPc t .idle).mutexState := by
    intro t st₁ hpc hmutex hin
    have hsame : st₁.mutexState = st.mutexState := by
      rw [ConcState.mutexState, ConcState.mutexState, hpc, hmutex]
    refine ⟨.abandon t, iff_of_false (by simp) (by simp), ?_⟩
    rw [mutexState_setPc, hsame, hmutex, eq_false (by simp [Pc.Critical] : ¬Pc.idle.Critical)]
    exact .abandon hin
  cases h with
  | callAllocate hx => exact hkeep rfl rfl (by rw [hx]; exact Iff.rfl)
  | pop hx _ => exact hkeep rfl rfl (Pc.critical_of_onPop hx _)
  | popEmpty hx _ _ => exact hkeep rfl rfl (Pc.critical_of_onEmpty hx)
  | allocLock hx hfree => exact henter hfree (by simp [hx, Pc.Critical]) trivial
  | collectPop hx _ => exact hkeep rfl rfl (by rw [hx]; exact Iff.rfl)
  | collectEmpty hx _ => exact hkeep rfl rfl (by rw [hx]; exact Iff.rfl)
  | collectPush hx => exact hkeep rfl rfl (by rw [hx]; exact Iff.rfl)
  | collectSub hx =>
    exact hkeep rfl rfl (by rw [hx]; exact iff_of_true (Pc.critical_collectNext _) trivial)
  | collectThrows hx => exact habandon rfl rfl (Pc.critical_of_collecting hx)
  | grow hx _ => exact hkeep rfl rfl (by rw [hx]; exact Iff.rfl)
  | growThrows hx _ => exact habandon rfl rfl (by rw [hx]; trivial)
  | allocUnlock hx => exact hleave (by rw [hx]; trivial) (by simp [Pc.Critical])
  | allocReturn hx => exact hkeep rfl rfl (by rw [hx]; exact Iff.rfl)
  | callFree hx _ => exact hkeep rfl rfl (by rw [hx]; exact Iff.rfl)
  | freePush hx => exact hkeep rfl rfl (by rw [hx]; exact Iff.rfl)
  | freeInc hx => exact hkeep rfl rfl (by rw [hx]; split <;> exact Iff.rfl)
  | freeTest hx _ => exact hkeep rfl rfl (by rw [hx]; split <;> exact Iff.rfl)
  | freeLock hx hfree => exact henter hfree (by simp [hx, Pc.Critical]) trivial
  | freeRecheck hx _ => exact hkeep rfl rfl (by rw [hx]; split <;> exact Iff.rfl)
  | freeErase hx => exact hkeep rfl rfl (by rw [hx]; exact Iff.rfl)
  | freeUnlock hx => exact hleave (by rw [hx]; trivial) (by simp [Pc.Critical])

omit [DecidableEq Tid] in
theorem forall_normal_iff {ls : List (Label Tid)} {ms : List (Lib.MutexLabel Tid)}
    (h : List.Forall₂ Label.Matches ls ms) :
    (∀ l ∈ ls, ∃ t, l = .normal t) ↔ ∀ m ∈ ms, ∀ t, m ≠ .abandon t := by
  induction h with
  | nil => simp
  | cons hhead _ ih =>
    rw [List.forall_mem_cons, List.forall_mem_cons, ih]
    exact and_congr_left' hhead

omit [DecidableEq Tid] in
theorem mutexState_init {params : PoolParams} {st : ConcState C Tid} (h : st.Init params) :
    st.mutexState.Init := by
  obtain ⟨-, hmutex, hpc, -⟩ := h
  refine ⟨hmutex, fun t ht => ?_⟩
  simp [ConcState.mutexState, hpc t, Pc.Critical] at ht

/-- A whole run, as the mutex sees it. -/
theorem concRun_mutex {sys : System} {st st' : ConcState C Tid} {ls : List (Label Tid)}
    (h : Lib.Run (ConcStep sys) st ls st') :
    ∃ ms, List.Forall₂ Label.Matches ls ms ∧
      Lib.Run Lib.MutexStep st.mutexState ms st'.mutexState :=
  h.simulate (f := ConcState.mutexState) fun _ _ _ => concStep_mutex

/-- A run at whose end the mutex is not with a thread that has left its critical section
is a run without exceptions. -/
theorem run_ok_of_sound {sys : System} {params : PoolParams} {st₀ st : ConcState C Tid}
    {ls : List (Label Tid)} (hinit : st₀.Init params) (h : Lib.Run (ConcStep sys) st₀ ls st)
    (hsound : st.mutexState.Sound) : ∀ l ∈ ls, ∃ t, l = .normal t := by
  obtain ⟨ms, hms, hrun⟩ := concRun_mutex h
  exact (forall_normal_iff hms).mpr ((Lib.owner_inside_iff hrun (mutexState_init hinit)).mp hsound)

/-- The mutex is free. -/
theorem run_ok_of_mutex_free {sys : System} {params : PoolParams} {st₀ st : ConcState C Tid}
    {ls : List (Label Tid)} (hinit : st₀.Init params) (h : Lib.Run (ConcStep sys) st₀ ls st)
    (hfree : st.mutex = none) : Lib.Run (ConcStepOk sys) st₀ ls st := by
  refine h.guarded (run_ok_of_sound hinit h fun t ht => ?_)
  rw [ConcState.mutexState, hfree] at ht
  cases ht

/-- A thread is in its critical section. -/
theorem normal_of_critical {sys : System} {params : PoolParams} {st₀ st : ConcState C Tid}
    {ls : List (Label Tid)} (hinit : st₀.Init params) (h : Lib.Run (ConcStep sys) st₀ ls st)
    {t : Tid} (ht : (st.pc t).Critical) : ∀ l ∈ ls, ∃ u, l = .normal u := by
  obtain ⟨ms, -, hrun⟩ := concRun_mutex h
  have hstart : st₀.mutexState.Exclusive := fun u hu => absurd hu ((mutexState_init hinit).2 u)
  have hex := hrun.invariant (fun _ _ _ => Lib.MutexState.Exclusive.step) hstart
  -- It owns the mutex, so nobody else does.
  refine run_ok_of_sound hinit h fun u hu => ?_
  obtain rfl : t = u := Option.some.inj ((hex t ht).symm.trans hu)
  exact ht

/-- At the end of a run `m_mutex` is held only by a thread in its critical
section exactly when no step of the run threw under the lock. -/
theorem mutex_held_inside_iff {sys : System} {params : PoolParams} {st₀ st : ConcState C Tid}
    {ls : List (Label Tid)} (hinit : st₀.Init params) (h : Lib.Run (ConcStep sys) st₀ ls st) :
    (∀ t, st.mutex = some t → (st.pc t).Critical) ↔ ∀ l ∈ ls, ∃ t, l = .normal t := by
  obtain ⟨ms, hms, hrun⟩ := concRun_mutex h
  rw [forall_normal_iff hms]
  exact Lib.owner_inside_iff hrun (mutexState_init hinit)

/-! ### A registration that throws under the lock -/

/-- The first call of `allocate`, up to its `add_segment`. -/
def upToGrow : List (Bool × Choice rangeContext) := (false, .allocate) :: advanceBy false 5 [] 1

/-- The call ends by the exception of the registration, and the mutex stays
with a thread that is idle. -/
theorem exists_failedRegistration_run :
    ∃ st : ConcState rangeContext Bool,
      Lib.Run (ConcStep stubSystem) twoBlockStart
        ((upToGrow.map fun e => .normal e.1) ++ [.throws false]) st ∧
      st.mutex = some false ∧ ∀ t, st.pc t = .idle := by
  obtain ⟨st, hexec, hpc, hother, hmutex, hworld, hpool⟩ :
      ∃ st, Lib.exec (fun st e => ConcState.advance stubSystem st e.1 e.2) upToGrow twoBlockStart =
        some st ∧ st.pc false = .grow 1 ∧ st.pc true = .idle ∧ st.mutex = some false ∧
        st.world = emptyWorld ∧ st.pool = twoBlockPool :=
    ⟨_, rfl, rfl, rfl, rfl, rfl, rfl⟩
  have hrun := (run_of_schedule hexec).map (g := id) fun _ _ _ h => h.2
  rw [List.map_id] at hrun
  have hadd := addSegment_failedRegistration
  rw [← hworld, ← hpool] at hadd
  refine ⟨_, hrun.snoc (.growThrows hpc hadd), hmutex, fun t => ?_⟩
  cases t with
  | false => exact ConcState.setPc_pc_self _ _ _
  | true => exact (ConcState.setPc_pc_ne _ _ _ (by decide)).trans hother

theorem mutex_held_inside_iff_failedRegistration :
    ∃ (ls : List (Label Bool)) (st : ConcState rangeContext Bool),
      Lib.Run (ConcStep stubSystem) twoBlockStart ls st ∧
      ((∀ t, st.mutex = some t → (st.pc t).Critical) ↔ ∀ l ∈ ls, ∃ t, l = .normal t) := by
  obtain ⟨st, hrun, -, -⟩ := exists_failedRegistration_run
  exact ⟨_, st, hrun, mutex_held_inside_iff twoBlockStart_init hrun⟩

/-- All calls have ended, and nobody can take the mutex any more. -/
theorem failedRegistration_keeps_mutex :
    ∃ (ls : List (Label Bool)) (st : ConcState rangeContext Bool),
      twoBlockStart.Init twoBlockPool.toPoolParams ∧
      Lib.Run (ConcStep stubSystem) twoBlockStart ls st ∧ (∀ t, st.pc t = .idle) ∧
      ¬∀ t, st.mutex = some t → (st.pc t).Critical := by
  obtain ⟨st, hrun, hmutex, hidle⟩ := exists_failedRegistration_run
  refine ⟨_, st, twoBlockStart_init, hrun, hidle, fun hall => ?_⟩
  have hcrit := hall false hmutex
  rw [hidle] at hcrit
  exact hcrit

end HwMalloc
