import HwMalloc.ConcurrentInvariant

/-!
# HwMalloc.EraseRace

The counter reads of `pool::free`. A thread that has counted its block reads the
counter of the segment twice, without the lock and under it, and nothing keeps
the segment alive in between: the thread that returned the other last block can
erase it.

`NoStaleRead` holds in the runs in which a segment is erased only while no other
thread is on its way from its count to its lock (`EraseAlone`). The invariant behind
it is stronger than `NoStaleRead`: the segment of a thread is there during the whole
way, and not only at the two reads (`ConcState.Watching`). Three things keep it:

* a block that was just counted belongs to a segment that is there, by the invariant
  of the pool;
* no step but an erasure takes a segment away;
* an erasure happens under the lock, so that nobody else is at the second read, and
  the condition says the same of the first one.
-/

namespace HwMalloc

variable {C : Context} {Tid : Type}

/-! ### Who is going to read -/

/-- The segment whose counter the operation is still going to read. -/
def Pc.watched : Pc C → Option Nat
  | freeTest b | freeLock b | freeRecheck b => some b.segment
  | _ => none

theorem Pc.watched_of_onPop {x : Pc C} {next : Block C → Pc C} (h : x.onPop = some next)
    (b : Block C) : (next b).watched = none := by
  cases x <;> simp only [onPop, Option.some.injEq, reduceCtorEq] at h
  all_goals
    subst h
    rfl

theorem Pc.watched_collectNext (todo : List Nat) : (collectNext todo : Pc C).watched = none := by
  cases todo <;> rfl

theorem Pc.watched_of_onEmpty {x y : Pc C} {order : List Nat} (h : x.onEmpty order = some y) :
    y.watched = none := by
  cases x <;> simp only [onEmpty, Option.some.injEq, reduceCtorEq] at h
  case allocPopLocked =>
    subst h
    exact watched_collectNext order
  case growPop counter =>
    subst h
    split <;> rfl
  all_goals
    subst h
    rfl

/-- Whoever is about to read the counter of a segment finds the segment in
`m_segments`. -/
def ConcState.NoStaleRead (st : ConcState C Tid) : Prop :=
  ∀ t b, st.pc t = .freeTest b ∨ st.pc t = .freeRecheck b → b.segment ∈ st.pool.segments

/-- All segments that are going to be read are in `m_segments`. -/
def ConcState.Watching (st : ConcState C Tid) : Prop :=
  ∀ t s, (st.pc t).watched = some s → s ∈ st.pool.segments

/-- If the step erases a segment, no other thread stands between its count of a
block of that segment and its lock. -/
def EraseAlone (st : ConcState C Tid) (l : Label Tid) : Prop :=
  ∀ t b, l = .normal t → st.pc t = .freeErase b → b.segment ∈ st.pool.segments →
    ∀ u c, u ≠ t → st.pc u = .freeTest c ∨ st.pc u = .freeLock c → c.segment ≠ b.segment

theorem ConcState.Watching.noStaleRead {st : ConcState C Tid} (h : st.Watching) :
    st.NoStaleRead := by
  rintro t b (hx | hx)
  · exact h t b.segment (by rw [hx]; rfl)
  · exact h t b.segment (by rw [hx]; rfl)

variable [DecidableEq Tid]

/-- A move that keeps the segments, and starts no reading of a segment that is
gone. -/
theorem ConcState.Watching.move {st st₁ : ConcState C Tid} {t : Tid} {x : Pc C}
    (h : st.Watching) (hpc : st₁.pc = st.pc)
    (hsegs : ∀ s ∈ st.pool.segments, s ∈ st₁.pool.segments)
    (hx : ∀ s, x.watched = some s → s ∈ st.pool.segments) : (st₁.setPc t x).Watching := by
  refine ConcState.forall_setPc st₁ t x
    (P := fun _ y => ∀ s, y.watched = some s → s ∈ st₁.pool.segments)
    (fun s hs => hsegs s (hx s hs)) fun u _ s hs => ?_
  rw [hpc] at hs
  exact hsegs s (h u s hs)

variable [Fintype Tid]

/-- The erasure of a segment that nobody else is going to read. -/
theorem ConcState.Watching.erase {sys : System} {st : ConcState C Tid} {t : Tid} {b : Block C}
    {w : World C} {p : Pool C} (h : st.Watching) (hinv : ConcInv sys st)
    (hx : st.pc t = .freeErase b) (halone : EraseAlone st (.normal t))
    (hs : b.segment ∈ st.pool.segments) (herased : Erased b.segment st.world st.pool w p) :
    ({ st with world := w, pool := p }.setPc t .freeUnlock).Watching := by
  have hcrit : (st.pc t).Critical := by rw [hx]; trivial
  refine ConcState.forall_setPc _ t _ (P := fun _ y => ∀ s, y.watched = some s → s ∈ p.segments)
    (by simp [Pc.watched]) fun u hu s hws => ?_
  have hws' : (st.pc u).watched = some s := hws
  rw [herased.pool]
  refine (hinv.segments_nodup.mem_erase_iff).mpr ⟨?_, h u s hws'⟩
  rintro rfl
  cases hpc : st.pc u with
  | freeTest c =>
    rw [hpc] at hws'
    exact halone t b rfl hx hs u c hu (Or.inl hpc) (Option.some.inj hws')
  | freeLock c =>
    rw [hpc] at hws'
    exact halone t b rfl hx hs u c hu (Or.inr hpc) (Option.some.inj hws')
  | freeRecheck c =>
    -- A re-check takes the mutex, which is with the thread that erases.
    exact hu (hinv.critical_unique hcrit (by rw [hpc]; trivial))
  | _ =>
    rw [hpc] at hws'
    cases hws'

/-! ### What the steps keep -/

theorem ConcState.Watching.step {sys : System} {st st' : ConcState C Tid} {l : Label Tid}
    (h : st.Watching) (hinv : ConcInv sys st) (halone : EraseAlone st l)
    (hstep : ConcStepOk sys st l st') : st'.Watching := by
  obtain ⟨⟨t, rfl⟩, hstep⟩ := hstep
  have hsame : ∀ {st₁ : ConcState C Tid} {x : Pc C}, st₁.pc = st.pc →
      st₁.pool.segments = st.pool.segments → x.watched = none → (st₁.setPc t x).Watching := by
    intro st₁ x hpc hsegs hx
    refine h.move hpc (fun s hs => hsegs ▸ hs) ?_
    simp [hx]
  have hkeep : ∀ {m : Option Tid} {x : Pc C}, (∀ s, x.watched = some s →
      (st.pc t).watched = some s) → ({ st with mutex := m }.setPc t x).Watching := by
    intro m x hx
    have hpc : ({ st with mutex := m } : ConcState C Tid).pc = st.pc := rfl
    exact h.move hpc (fun _ => id) fun s hs => h t s (hx s hs)
  cases hstep with
  -- The steps of `allocate` read no counter, and erase nothing.
  | callAllocate => exact hsame rfl rfl rfl
  | pop hx hpop =>
    exact hsame rfl (by rw [(popFree_eq_some hpop).pool]) (Pc.watched_of_onPop hx _)
  | popEmpty hx => exact hsame rfl rfl (Pc.watched_of_onEmpty hx)
  | allocLock => exact hsame rfl rfl rfl
  | collectPop => exact hsame rfl rfl rfl
  | collectEmpty => exact hsame rfl rfl rfl
  | collectPush => exact hsame rfl rfl rfl
  | collectSub => exact hsame rfl rfl (Pc.watched_collectNext _)
  | grow hx hadd =>
    obtain ⟨g, -, hgrown⟩ := addSegment_ok hadd
    refine h.move rfl (fun s hs => ?_) (by simp [Pc.watched])
    rw [hgrown.pool]
    exact List.mem_cons_of_mem _ hs
  | allocUnlock => exact hsame rfl rfl rfl
  | allocReturn => exact hsame rfl rfl rfl
  | callFree => exact hsame rfl rfl rfl
  | freePush => exact hsame rfl rfl rfl
  | @freeInc _ b hx =>
    -- The block was just counted, so its segment is there.
    have hs : b.segment ∈ st.pool.segments := hinv.uses t _ (by rw [hx]; exact List.mem_cons_self)
    refine h.move rfl (fun _ => id) fun s hws => ?_
    split at hws
    · cases hws
    · cases hws
      exact hs
  -- From here on the thread is on its way, and the segment the same.
  | @freeTest _ b read hx _ =>
    refine hkeep (m := st.mutex) fun s hws => ?_
    rw [hx]
    split at hws
    · exact hws
    · cases hws
  | freeLock hx _ => exact hkeep fun s hws => by rw [hx]; exact hws
  | freeRecheck => exact hsame rfl rfl (by split <;> rfl)
  | @freeErase _ b hx =>
    by_cases hs : b.segment ∈ st.pool.segments
    · exact h.erase hinv hx halone hs (eraseSegment_erased hs)
    · rw [eraseSegment_of_not_mem hs]
      exact hsame rfl rfl rfl
  | freeUnlock => exact hsame rfl rfl rfl

/-- The invariant of the runs in which every erasure is alone. -/
structure WatchInv (sys : System) (st : ConcState C Tid) : Prop extends ConcInv sys st where
  watching : st.Watching

/-- Nobody reads the counter of a segment that is gone, in every run in which a
segment is erased only while no other thread is on its way to its lock. -/
theorem no_stale_read {sys : System} {params : PoolParams} {st : ConcState C Tid}
    (h : Lib.Reachable (ConcState.Init params) (Lib.Guarded EraseAlone (ConcStepOk sys)) st) :
    st.NoStaleRead := by
  have hinv : WatchInv sys st := by
    refine h.invariant (fun st₀ hinit => ⟨ConcInv.init hinit, fun t s hs => ?_⟩)
      fun _ _ _ hinv hstep => ⟨hinv.toConcInv.step hstep.2,
        hinv.watching.step hinv.toConcInv hstep.1 hstep.2⟩
    rw [hinit.2.2.1 t] at hs
    cases hs
  exact hinv.watching.noStaleRead

/-- The segment of the block that the operation has counted, until it asks for the
lock. -/
def Pc.beforeLock : Pc C → Option Nat
  | freeTest b | freeLock b => some b.segment
  | _ => none

/-- The check of `EraseAlone`, for two threads. -/
def ConcState.erasesAlone (st : ConcState C Bool) (t : Bool) : Bool :=
  match st.pc t with
  | .freeErase b => (st.pc !t).beforeLock != some b.segment
  | _ => true

theorem eraseAlone_of_erasesAlone (st : ConcState C Bool) (t : Bool)
    (h : st.erasesAlone t = true) : EraseAlone st (.normal t) := by
  intro u b hu hx _ v c hv hpc heq
  cases hu
  obtain rfl : v = !t := Bool.eq_not_of_ne hv
  rw [ConcState.erasesAlone, hx] at h
  rcases hpc with hpc | hpc <;> simp [hpc, Pc.beforeLock, heq] at h

/-- Thread `true` returns its block of segment 1 and has read its counter before
thread `false` returns the other one. While `false` finds the segment empty and
erases it, `true` is on its way to the counter of segment 2. -/
def returnsApart : List (Bool × Choice rangeContext) :=
  threeAllocations ++
    (true, .free (twoBlock 1 1)) :: advanceBy true 2 [] 1 ++
    (false, .free (twoBlock 1 0)) :: advanceBy false 1 [] 1 ++
    advanceBy true 1 [] 1 ++ advanceBy false 2 [] 1 ++
    (true, .free (twoBlock 2 0)) :: advanceBy true 2 [] 1 ++
    advanceBy false 3 [] 1

theorem no_stale_read_returnsApart :
    ∃ st : ConcState rangeContext Bool, st.pool.segments = [2] ∧
      st.pc true = .freeTest (twoBlock 2 0) ∧ st.pc false = .freeUnlock ∧ st.NoStaleRead := by
  obtain ⟨st, hexec, hsegs, hpc, hpc'⟩ : ∃ st, Lib.exec (fun st e =>
      if st.erasesAlone e.1 then ConcState.advance stubSystem st e.1 e.2 else none)
      returnsApart twoBlockStart = some st ∧ st.pool.segments = [2] ∧
      st.pc true = .freeTest (twoBlock 2 0) ∧ st.pc false = .freeUnlock := ⟨_, rfl, rfl, rfl, rfl⟩
  have hrun := guarded_run_of_schedule eraseAlone_of_erasesAlone hexec
  exact ⟨st, hsegs, hpc, hpc', no_stale_read ⟨twoBlockStart, _, twoBlockStart_init, hrun⟩⟩

/-! ### Two threads return the last two blocks

Both blocks of segment 1 are counted before either thread reads the counter.
Thread `false` then finds the segment empty and erases it, and thread `true` is
still before its first test. -/

/-- The calls. -/
def twoReturns : List (Bool × Choice rangeContext) :=
  threeAllocations ++
    (false, .free (twoBlock 1 0)) :: advanceBy false 2 [] 1 ++
    (true, .free (twoBlock 1 1)) :: advanceBy true 2 [] 1 ++
    advanceBy false 4 [] 1

theorem exec_twoReturns :
    ∃ st, Lib.exec (fun st e => ConcState.advance stubSystem st e.1 e.2) twoReturns
        twoBlockStart = some st ∧
      st.pool.neverFree = false ∧ st.pool.segments = [2] ∧
      st.pc true = .freeTest (twoBlock 1 1) :=
  ⟨_, rfl, rfl, rfl, rfl⟩

/-- Thread `true` is about to read the counter of segment 1, which is gone. -/
theorem twoReturns_stale :
    ∃ st : ConcState rangeContext Bool,
      Lib.Reachable (ConcState.Init twoBlockPool.toPoolParams) (ConcStepOk stubSystem) st ∧
      st.pool.neverFree = false ∧ ¬st.NoStaleRead := by
  obtain ⟨st, hexec, hnever, hsegs, hpc⟩ := exec_twoReturns
  refine ⟨st, reachable_of_schedule hexec, hnever, fun hall => ?_⟩
  have hmem := hall true _ (Or.inl hpc)
  rw [hsegs] at hmem
  exact absurd hmem (by decide)

end HwMalloc
