import HwMalloc.HeapProgress

/-!
# HwMalloc.FrozenPool

What is left of a pool after an exception under the lock. The mutex stays with a
thread that has left its critical section, so nobody can enter one:

* no call collects, adds or releases a segment any more, and no second exception is
  possible, since all of this happens under the lock;
* a call that comes to the lock stays there;
* `allocate` can hand out no more than what is on `m_free_stack` at that moment, and
  blocks that are returned after it are lost to the pool.

This is about one pool; the others go on (`HwMalloc.FailureIsolation`). The exception
itself may come after any run, for which `pool_frozen` needs no more than that critical
sections exclude each other.
-/

namespace HwMalloc

variable {C : Context} {Tid : Type}

/-! ### Frozen pools -/

/-- The mutex is owned by `t`, and nobody is in a critical section. -/
structure Frozen (t : Tid) (st : ConcState C Tid) : Prop where
  mutex : st.mutex = some t
  outside : ∀ u, ¬(st.pc u).Critical

/-- What a frozen pool keeps of the state `st₁`. -/
structure FrozenSince (st₁ st : ConcState C Tid) : Prop where
  segments : st.pool.segments = st₁.pool.segments
  /-- Blocks are popped, and none is pushed. -/
  freeStack : st.pool.freeStack <:+ st₁.pool.freeStack
  /-- Who waits for the mutex waits for ever. -/
  waiting : ∀ u, (st₁.pc u).AtLock → st.pc u = st₁.pc u

namespace FrozenSince

variable {st₁ st₂ st₃ : ConcState C Tid}

theorem refl (st : ConcState C Tid) : FrozenSince st st :=
  ⟨rfl, List.suffix_refl _, fun _ _ => rfl⟩

theorem trans (h : FrozenSince st₁ st₂) (h' : FrozenSince st₂ st₃) : FrozenSince st₁ st₃ where
  segments := h'.segments.trans h.segments
  freeStack := h'.freeStack.trans h.freeStack
  waiting := fun u hu => by
    have hsame := h.waiting u hu
    rw [h'.waiting u (by rwa [hsame]), hsame]

end FrozenSince

variable [DecidableEq Tid] {sys : System} {st st' : ConcState C Tid} {t : Tid} {l : Label Tid}

/-- An exception under the lock freezes the pool. -/
theorem Frozen.of_throws (hex : st.mutexState.Exclusive) (h : ConcStep sys st (.throws t) st') :
    Frozen t st' := by
  have hleft : ∀ {st₁ : ConcState C Tid}, st₁.mutex = st.mutex → st₁.pc = st.pc →
      (st.pc t).Critical → Frozen t (st₁.setPc t .idle) := by
    intro st₁ hmutex hpc hcrit
    have howner : st.mutex = some t := hex t hcrit
    refine ⟨hmutex.trans howner, fun u hu => ?_⟩
    by_cases hut : u = t
    · rw [hut, ConcState.setPc_pc_self] at hu
      exact hu
    · rw [ConcState.setPc_pc_ne _ _ _ hut, hpc] at hu
      exact hut (Option.some.inj ((hex u hu).symm.trans howner))
  cases h with
  | collectThrows hx => exact hleft rfl rfl (Pc.critical_of_collecting hx)
  | growThrows hx _ => exact hleft rfl rfl (by rw [hx]; trivial)

/-- A thread outside moves to another place outside, and nothing else happens. -/
theorem Frozen.setPc (h : Frozen t st) {st₁ : ConcState C Tid} {u : Tid} {x : Pc C}
    (hmutex : st₁.mutex = st.mutex) (hpc : st₁.pc = st.pc)
    (hsegs : st₁.pool.segments = st.pool.segments)
    (hfree : st₁.pool.freeStack <:+ st.pool.freeStack) (hlock : ¬(st.pc u).AtLock)
    (hx : ¬x.Critical) : Frozen t (st₁.setPc u x) ∧ FrozenSince st (st₁.setPc u x) := by
  refine ⟨⟨hmutex.trans h.mutex, ?_⟩, hsegs, hfree, fun u' hu' => ?_⟩
  · intro u' hu'
    by_cases hne : u' = u
    · rw [hne, ConcState.setPc_pc_self] at hu'
      exact hx hu'
    · rw [ConcState.setPc_pc_ne _ _ _ hne, hpc] at hu'
      exact h.outside u' hu'
  · have hne : u' ≠ u := by
      rintro rfl
      exact hlock hu'
    rw [ConcState.setPc_pc_ne _ _ _ hne, hpc]

/-- A frozen pool stays frozen, and no step throws. -/
theorem Frozen.step (h : Frozen t st) (hstep : ConcStep sys st l st') :
    (∃ u, l = .normal u) ∧ Frozen t st' ∧ FrozenSince st st' := by
  have hinside : ∀ {u : Tid} {x : Pc C}, st.pc u = x → x.Critical → False :=
    fun {u _} hx hcrit => h.outside u (by rwa [hx])
  have hstack := List.suffix_refl st.pool.freeStack
  cases hstep with
  -- The steps outside of the critical sections, up to the lock.
  | callAllocate hx =>
    exact ⟨⟨_, rfl⟩, h.setPc rfl rfl rfl hstack (by simp [hx, Pc.AtLock]) (by simp [Pc.Critical])⟩
  | @pop u next b p hx hpop =>
    have hpopped := popFree_eq_some hpop
    refine ⟨⟨_, rfl⟩, h.setPc rfl rfl ?_ ?_ ?_ ?_⟩
    · rw [hpopped.pool]
    · rw [hpopped.freeStack]
      exact List.suffix_cons b _
    · cases hpc : st.pc u <;> rw [hpc] at hx <;> simp [Pc.onPop, Pc.AtLock] at hx ⊢
    · rw [Pc.critical_of_onPop hx b]
      exact h.outside u
  | @popEmpty u order x hx _ _ =>
    refine ⟨⟨_, rfl⟩, h.setPc rfl rfl rfl hstack ?_ ?_⟩
    · cases hpc : st.pc u <;> rw [hpc] at hx <;> simp [Pc.onEmpty, Pc.AtLock] at hx ⊢
    · rw [Pc.critical_of_onEmpty hx]
      exact h.outside u
  -- The lock is not to be had, and so nobody is behind it.
  | allocLock _ hfree => cases h.mutex.symm.trans hfree
  | collectPop hx _ => exact (hinside hx trivial).elim
  | collectEmpty hx _ => exact (hinside hx trivial).elim
  | collectPush hx => exact (hinside hx trivial).elim
  | collectSub hx => exact (hinside hx trivial).elim
  | collectThrows hx => exact (h.outside _ (Pc.critical_of_collecting hx)).elim
  | grow hx _ => exact (hinside hx trivial).elim
  | growThrows hx _ => exact (hinside hx trivial).elim
  | allocUnlock hx => exact (hinside hx trivial).elim
  -- A thread that had left the lock by then returns, and others return blocks.
  | allocReturn hx =>
    exact ⟨⟨_, rfl⟩, h.setPc rfl rfl rfl hstack (by simp [hx, Pc.AtLock]) (by simp [Pc.Critical])⟩
  | callFree hx _ =>
    exact ⟨⟨_, rfl⟩, h.setPc rfl rfl rfl hstack (by simp [hx, Pc.AtLock]) (by simp [Pc.Critical])⟩
  | freePush hx =>
    exact ⟨⟨_, rfl⟩, h.setPc rfl rfl rfl hstack (by simp [hx, Pc.AtLock]) (by simp [Pc.Critical])⟩
  | freeInc hx =>
    refine ⟨⟨_, rfl⟩, h.setPc rfl rfl rfl hstack (by simp [hx, Pc.AtLock]) ?_⟩
    split <;> simp [Pc.Critical]
  | freeTest hx _ =>
    refine ⟨⟨_, rfl⟩, h.setPc rfl rfl rfl hstack (by simp [hx, Pc.AtLock]) ?_⟩
    split <;> simp [Pc.Critical]
  | freeLock _ hfree => cases h.mutex.symm.trans hfree
  | freeRecheck hx _ => exact (hinside hx trivial).elim
  | freeErase hx => exact (hinside hx trivial).elim
  | freeUnlock hx => exact (hinside hx trivial).elim

/-- The same over a whole run. -/
theorem Frozen.run (h : Frozen t st) {ls : List (Label Tid)}
    (hrun : Lib.Run (ConcStep sys) st ls st') :
    (∀ l ∈ ls, ∃ u, l = .normal u) ∧ Frozen t st' ∧ FrozenSince st st' := by
  induction hrun with
  | refl => exact ⟨by simp, h, .refl st⟩
  | snoc _ hlast ih =>
    obtain ⟨hls, hfrozen, hsince⟩ := ih
    obtain ⟨hl, hfrozen', hsince'⟩ := hfrozen.step hlast
    refine ⟨fun l hl' => ?_, hfrozen', hsince.trans hsince'⟩
    rcases List.mem_append.mp hl' with hl' | hl'
    · exact hls l hl'
    · rw [List.mem_singleton.mp hl']
      exact hl

/-! ### After an exception -/

/-- A step under the lock throws in a call of thread `t`. Whatever the threads do
then, no step throws any more, the mutex stays with `t` and nobody is in a critical
section, the pool keeps its segments, `m_free_stack` only shrinks, and a call that
waits for the mutex waits for ever. -/
theorem pool_frozen {params : PoolParams} {st₀ st₁ st₂ st₃ : ConcState C Tid}
    {ls ls' : List (Label Tid)} (hinit : st₀.Init params)
    (hrun : Lib.Run (ConcStep sys) st₀ ls st₁) (hthrow : ConcStep sys st₁ (.throws t) st₂)
    (hrest : Lib.Run (ConcStep sys) st₂ ls' st₃) :
    (∀ l ∈ ls', ∃ u, l = .normal u) ∧ Frozen t st₃ ∧ FrozenSince st₂ st₃ := by
  obtain ⟨ms, -, hmutex⟩ := concRun_mutex hrun
  have hstart : st₀.mutexState.Exclusive := fun u hu => absurd hu ((mutexState_init hinit).2 u)
  have hex := hmutex.invariant (fun _ _ _ => Lib.MutexState.Exclusive.step) hstart
  exact (Frozen.of_throws hex hthrow).run hrest

/-- A call of `allocate` that finds `m_free_stack` empty comes to the lock. -/
theorem run_to_lock (hidle : st.pc t = .idle) (hempty : st.pool.popFree = none) :
    ∃ st', Lib.Run (ConcStep sys) st [.normal t, .normal t] st' ∧ st'.pc t = .allocLock := by
  have hcall : ConcStep sys st (.normal t) (st.setPc t .allocPop) := .callAllocate hidle
  have hpop : ConcStep sys (st.setPc t .allocPop) (.normal t)
      ((st.setPc t .allocPop).setPc t .allocLock) :=
    .popEmpty (by rw [ConcState.setPc_pc_self]; rfl) hempty (.refl _)
  exact ⟨_, (Lib.Run.single hcall).snoc hpop, ConcState.setPc_pc_self _ _ _⟩

/-- After the registration of its first segment has failed, a second call of
`allocate` waits at the lock. -/
theorem pool_frozen_failedRegistration :
    ∃ (ls' : List (Label Bool)) (st₂ st₃ : ConcState rangeContext Bool),
      Lib.Run (ConcStep stubSystem) st₂ ls' st₃ ∧ st₃.pc true = .allocLock ∧
        Frozen false st₃ ∧ FrozenSince st₂ st₃ := by
  obtain ⟨st, hexec, hpc, hother, hworld, hpool⟩ :
      ∃ st, Lib.exec (fun st e => ConcState.advance stubSystem st e.1 e.2) upToGrow twoBlockStart =
        some st ∧ st.pc false = .grow 1 ∧ st.pc true = .idle ∧
        st.world = emptyWorld ∧ st.pool = twoBlockPool :=
    ⟨_, rfl, rfl, rfl, rfl, rfl⟩
  have hrun := (run_of_schedule hexec).map (g := id) fun _ _ _ h => h.2
  rw [List.map_id] at hrun
  have hadd := addSegment_failedRegistration
  rw [← hworld, ← hpool] at hadd
  obtain ⟨st₂, hthrow, hidle, hempty⟩ : ∃ st₂, ConcStep stubSystem st (.throws false) st₂ ∧
      st₂.pc true = .idle ∧ st₂.pool.popFree = none :=
    ⟨_, .growThrows hpc hadd, (ConcState.setPc_pc_ne _ _ _ (by decide)).trans hother, by
      rw [ConcState.setPc_pool, hpool]
      rfl⟩
  obtain ⟨st₃, hrest, hlock⟩ := run_to_lock hidle hempty
  exact ⟨_, st₂, st₃, hrest, hlock, (pool_frozen twoBlockStart_init hrun hthrow hrest).2⟩

end HwMalloc
