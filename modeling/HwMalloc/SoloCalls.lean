import HwMalloc.ConcurrentInvariant
import HwMalloc.LockLeak
import HwMalloc.Reserve

/-!
# HwMalloc.SoloCalls

The two models of a pool agree. `Pool.allocate` and `Pool.free` compute the
effect of a whole call, `ConcStep` takes one access to shared data at a time. A
thread that runs alone, from any moment at which `m_mutex` is free and the thread is
not in a call, leads the pool exactly to the states that the calls lead it to
(`soloRun_iff`). Where the other threads stand meanwhile, and what they have left
half done, does not matter.

**A call is a solo run** (`Solo.of_calls`). The steps of the call are taken one
after the other; both loops are done by induction. Nothing is asked of the state.

**A solo run is made of calls** (`Resumes.step`). `Resumes` relates a call in
progress to the call as a whole. Its middle part is `collectRest`: what is still to
be done of the loop over `m_segments`, so that a step of the loop leaves its value
as it is. Here the state matters in one place: `free` tests the counter of a segment
that has to be there still. The state that the call began in is reachable, and
`ConcInv` says that the blocks of the clients are blocks of registered segments.
-/

namespace HwMalloc

variable {C : Context} {Tid : Type}

/-! ### One thread runs, the others wait

All steps are steps of one thread, so the places of the others are a parameter: a
state is given by the data, the place of the one thread and the mutex. -/

/-- The steps of thread `t` without exceptions. -/
def SoloStep [DecidableEq Tid] (sys : System) (t : Tid) :
    ConcState C Tid → Label Tid → ConcState C Tid → Prop :=
  Lib.Guarded (fun _ l => l = .normal t) (ConcStepOk sys)

section

variable [DecidableEq Tid] {sys : System} {pc : Tid → Pc C} {t : Tid} {x y z : Pc C}
  {m m' m'' : Option Tid} {s s' s'' : PoolState C}

/-- The data are those of `s`; thread `t` stands at `x`, and the others where they
stand in `pc`. -/
def ConcState.placed (pc : Tid → Pc C) (t : Tid) (x : Pc C) (m : Option Tid) (s : PoolState C) :
    ConcState C Tid where
  world := s.world
  pool := s.pool
  mutex := m
  pc := Function.update pc t x
  live := s.live

@[simp] theorem placed_pc_self : (ConcState.placed pc t x m s).pc t = x := Function.update_self ..

@[simp] theorem placed_setPc :
    (ConcState.placed pc t x m s).setPc t y = .placed pc t y m s := by
  simp [ConcState.placed, ConcState.setPc]

/-- Thread `t` can get from one place to another by itself. -/
def Solo (sys : System) (pc : Tid → Pc C) (t : Tid) (x : Pc C) (m : Option Tid) (s : PoolState C)
    (y : Pc C) (m' : Option Tid) (s' : PoolState C) : Prop :=
  ∃ ls, Lib.Run (SoloStep sys t) (.placed pc t x m s) ls (.placed pc t y m' s')

namespace Solo

theorem refl : Solo sys pc t x m s x m s := ⟨[], .refl _⟩

theorem trans (h : Solo sys pc t x m s y m' s') (h' : Solo sys pc t y m' s' z m'' s'') :
    Solo sys pc t x m s z m'' s'' := by
  obtain ⟨ls, hrun⟩ := h
  obtain ⟨ls', hrun'⟩ := h'
  exact ⟨ls ++ ls', hrun.append hrun'⟩

theorem single
    (h : ConcStep sys (.placed pc t x m s) (.normal t) (.placed pc t y m' s')) :
    Solo sys pc t x m s y m' s' :=
  ⟨[.normal t], .single ⟨rfl, ⟨t, rfl⟩, h⟩⟩

end Solo

/-- A step of `t` from a placed state, computed. -/
theorem Solo.of_step {st' : ConcState C Tid}
    (h : ConcStep sys (.placed pc t x m s) (.normal t) st')
    (heq : st' = .placed pc t y m' s') : Solo sys pc t x m s y m' s' :=
  .single (heq ▸ h)

theorem setPc_of_data {w : World C} {p : Pool C} {live : List (Block C)} :
    ({ world := w, pool := p, mutex := m',
       pc := (ConcState.placed pc t x m s).pc, live := live } : ConcState C Tid).setPc t y =
      .placed pc t y m' ⟨w, p, live⟩ := by
  simp [ConcState.placed, ConcState.setPc]

/-- A pop from `m_free_stack`, wherever the call makes it. -/
theorem Solo.pop {next : Block C → Pc C} {b : Block C} {p : Pool C} (hx : x.onPop = some next)
    (hpop : s.pool.popFree = some (b, p)) :
    Solo sys pc t x m s (next b) m { s with pool := p } :=
  .of_step (.pop (by rw [placed_pc_self]; exact hx) hpop) setPc_of_data

theorem Solo.popEmpty {order : List Nat} (hx : x.onEmpty order = some y)
    (hpop : s.pool.popFree = none) (horder : order.Perm s.pool.segments) :
    Solo sys pc t x m s y m s :=
  .of_step (.popEmpty (by rw [placed_pc_self]; exact hx) hpop horder) placed_setPc

end

/-! ### The loop over `m_segments`

The sequential model collects a segment at once, the interleaved one block by block.
`collectFrom` is the collect of a segment that has been going on for `n` blocks, and
`collectRest` the rest of the whole loop; a step inside the loop changes the state and
the place, and leaves this value as it is. -/

/-- A segment after a `collect` that had consumed `n` blocks before. -/
def Segment.collectedAfter (n : Nat) (g : Segment C) : Segment C :=
  ({ g with freedStack := [] }).addFreed (-(n + g.freedStack.length : Nat))

/-- What `collect` of segment `s` still does after it has consumed `n` blocks. -/
def collectFrom (s n : Nat) (w : World C) (p : Pool C) : World C × Pool C :=
  (w.modifySegment s (Segment.collectedAfter n),
    { p with
      freeStack := (w.segmentAt s).freedStack.foldl (fun stack b => b :: stack) p.freeStack })

/-- What the loop over `m_segments` still does from a place inside it. -/
def collectRest : Pc C → World C → Pool C → World C × Pool C
  | .collectPop s todo n, w, p => collectAll todo (collectFrom s n w p).1 (collectFrom s n w p).2
  | .collectPush b s todo n, w, p =>
    let p := { p with freeStack := b :: p.freeStack }
    collectAll todo (collectFrom s n w p).1 (collectFrom s n w p).2
  | .collectSub s todo n, w, p => collectAll todo (w.modifySegment s (Segment.addFreed (-n))) p
  | _, w, p => (w, p)

/-- Two writes to one segment object are one. -/
theorem modifySegment_modifySegment (w : World C) (s : Nat) (f g : Segment C → Segment C) :
    (w.modifySegment s f).modifySegment s g = w.modifySegment s fun x => g (f x) := by
  simp [World.modifySegment]

/-- Only what a write makes of the segment object matters. -/
theorem modifySegment_congr {w : World C} {s : Nat} {f g : Segment C → Segment C}
    (h : f (w.segmentAt s) = g (w.segmentAt s)) : w.modifySegment s f = w.modifySegment s g := by
  rw [World.modifySegment, World.modifySegment, h]

@[simp] theorem collectFrom_zero (s : Nat) (w : World C) (p : Pool C) :
    collectFrom s 0 w p = collect s w p := by
  refine congrArg (·, _) (modifySegment_congr ?_)
  simp [Segment.collectedAfter, Segment.collected]

/-- The head of the loop has the whole list before it. -/
@[simp] theorem collectRest_collectNext (todo : List Nat) (w : World C) (p : Pool C) :
    collectRest (Pc.collectNext todo) w p = collectAll todo w p := by
  cases todo with
  | nil => rfl
  | cons s todo =>
    show collectAll todo (collectFrom s 0 w p).1 (collectFrom s 0 w p).2 = _
    rw [collectFrom_zero]
    rfl

/-- A pop and the push after it are no change. -/
theorem collectFrom_popFreed {s n : Nat} {b : Block C} {rest : List (Block C)} {w : World C}
    {p : Pool C} (hfreed : (w.segmentAt s).freedStack = b :: rest) :
    collectFrom s (n + 1) (w.modifySegment s Segment.popFreed)
      { p with freeStack := b :: p.freeStack } = collectFrom s n w p := by
  have hself : ((w.modifySegment s Segment.popFreed).segmentAt s).freedStack = rest := by
    simp [World.modifySegment_segmentAt, Segment.popFreed, hfreed]
  have hworld : (w.modifySegment s Segment.popFreed).modifySegment s
      (Segment.collectedAfter (n + 1)) = w.modifySegment s (Segment.collectedAfter n) := by
    rw [modifySegment_modifySegment]
    refine modifySegment_congr ?_
    simp only [Segment.collectedAfter, Segment.popFreed, Segment.addFreed, hfreed, List.tail_cons,
      List.length_cons]
    rw [show n + 1 + rest.length = n + (rest.length + 1) by omega]
  simp only [collectFrom, hworld, hself, hfreed, List.foldl_cons]

theorem collectFrom_nil {s n : Nat} {w : World C} {p : Pool C}
    (hfreed : (w.segmentAt s).freedStack = []) :
    collectFrom s n w p = (w.modifySegment s (Segment.addFreed (-n)), p) := by
  have hworld : w.modifySegment s (Segment.collectedAfter n) =
      w.modifySegment s (Segment.addFreed (-n)) := by
    refine modifySegment_congr ?_
    simp [Segment.collectedAfter, Segment.addFreed, ← hfreed]
  simp [collectFrom, hworld, hfreed]

theorem collectRest_collectPop {s n : Nat} {todo : List Nat} {b : Block C}
    {rest : List (Block C)} {w : World C} {p : Pool C}
    (hfreed : (w.segmentAt s).freedStack = b :: rest) :
    collectRest (.collectPush b s todo (n + 1)) (w.modifySegment s Segment.popFreed) p =
      collectRest (.collectPop s todo n) w p := by
  rw [collectRest, collectRest, collectFrom_popFreed hfreed]

theorem collectRest_collectEmpty {s n : Nat} {todo : List Nat} {w : World C} {p : Pool C}
    (hfreed : (w.segmentAt s).freedStack = []) :
    collectRest (.collectSub s todo n) w p = collectRest (.collectPop s todo n) w p := by
  rw [collectRest, collectRest, collectFrom_nil hfreed]

/-! ### A call is a solo run

The call is followed from place to place. Where the sequential model branches, so does
the place the thread goes to next; its two loops are done by induction, on the blocks
of a freed stack and on the fuel. -/

section

variable [DecidableEq Tid] {sys : System} {pc : Tid → Pc C} {t : Tid} {m : Option Tid}

/-- `collect` consumes the freed stack block by block. -/
theorem Solo.collect {k : Nat} {todo : List Nat} (freed : List (Block C)) :
    ∀ {n : Nat} {s : PoolState C}, (s.world.segmentAt k).freedStack = freed →
      Solo sys pc t (.collectPop k todo n) m s (.collectNext todo) m
        { s with
          world := (collectFrom k n s.world s.pool).1
          pool := (collectFrom k n s.world s.pool).2 } := by
  induction freed with
  | nil =>
    intro n s hfreed
    rw [collectFrom_nil hfreed]
    exact (Solo.of_step (.collectEmpty placed_pc_self hfreed) placed_setPc).trans
      (.of_step (.collectSub placed_pc_self) setPc_of_data)
  | cons b freed ih =>
    intro n s hfreed
    have hpop : Solo sys pc t (.collectPop k todo n) m s (.collectPush b k todo (n + 1)) m
        { s with world := s.world.modifySegment k Segment.popFreed } :=
      .of_step (.collectPop placed_pc_self hfreed) setPc_of_data
    have hpush : Solo sys pc t (.collectPush b k todo (n + 1)) m
        { s with world := s.world.modifySegment k Segment.popFreed } (.collectPop k todo (n + 1)) m
        { s with
          world := s.world.modifySegment k Segment.popFreed
          pool := { s.pool with freeStack := b :: s.pool.freeStack } } :=
      .of_step (.collectPush placed_pc_self) setPc_of_data
    have hself : ((s.world.modifySegment k Segment.popFreed).segmentAt k).freedStack = freed := by
      simp [World.modifySegment_segmentAt, Segment.popFreed, hfreed]
    have hrest := (hpop.trans hpush).trans (ih hself)
    dsimp only at hrest
    rw [collectFrom_popFreed hfreed] at hrest
    exact hrest

/-- The loop over `m_segments`. -/
theorem Solo.collectAll (todo : List Nat) :
    ∀ {s : PoolState C}, Solo sys pc t (.collectNext todo) m s .allocPopCollected m
      { s with
        world := (collectAll todo s.world s.pool).1
        pool := (collectAll todo s.world s.pool).2 } := by
  induction todo with
  | nil =>
    intro s
    exact .refl
  | cons k todo ih =>
    intro s
    have hfirst : Solo sys pc t (.collectNext (k :: todo)) m s (.collectNext todo) m
        { s with
          world := (collectFrom k 0 s.world s.pool).1
          pool := (collectFrom k 0 s.world s.pool).2 } := Solo.collect _ rfl
    rw [collectFrom_zero] at hfirst
    exact hfirst.trans ih

/-- The `while` loop. -/
theorem Solo.growLoop {grow : Nat → GrowEnv C} {b : Block C} {c : Nat} {w : World C} {p : Pool C}
    (fuel : Nat) :
    ∀ {counter : Nat} {s : PoolState C},
      growLoop sys grow fuel counter s.world s.pool = some (.ok (b, c), w, p) →
        Solo sys pc t (.growPop counter) m s (.allocUnlock b) m
          { s with world := w, pool := p } := by
  induction fuel with
  | zero =>
    intro counter s h
    cases h
  | succ fuel ih =>
    intro counter s h
    rw [HwMalloc.growLoop] at h
    cases hpop : s.pool.popFree with
    | some bp =>
      rw [hpop] at h
      cases h
      exact .pop rfl hpop
    | none =>
      rw [hpop] at h
      dsimp only at h
      have hempty : Solo sys pc t (.growPop counter) m s
          (if counter % 2 = 0 then .grow (counter + 1) else .growPop (counter + 1)) m s :=
        .popEmpty rfl hpop (List.Perm.refl s.pool.segments)
      by_cases hcounter : counter % 2 = 0
      · rw [if_pos hcounter] at h hempty
        cases hadd : addSegment sys (grow (counter / 2)) s.world s.pool with
        | mk res rest =>
          rw [hadd] at h
          cases res with
          | error e => cases h
          | ok u =>
            have hgrow : Solo sys pc t (.grow (counter + 1)) m s (.growPop (counter + 1)) m
                { s with world := rest.1, pool := rest.2 } :=
              .of_step (.grow placed_pc_self hadd) setPc_of_data
            exact (hempty.trans hgrow).trans (ih h)
      · rw [if_neg hcounter] at h hempty
        exact hempty.trans (ih h)

/-- A call of `allocate` that returns is a solo run. -/
theorem Solo.allocate {env : AllocEnv C} {fuel : Nat} {b : Block C} {w : World C} {p : Pool C}
    {s : PoolState C} (horder : env.order.Perm s.pool.segments)
    (h : s.pool.allocate sys env fuel s.world = some (.ok b, w, p)) :
    Solo sys pc t .idle none s .idle none ⟨w, p, b :: s.live⟩ := by
  have hcall : Solo sys pc t .idle none s .allocPop none s :=
    .of_step (.callAllocate placed_pc_self) placed_setPc
  have hreturn : ∀ {s' : PoolState C}, Solo sys pc t (.allocReturn b) none s' .idle none
      { s' with live := b :: s'.live } := .of_step (.allocReturn placed_pc_self) setPc_of_data
  have hunlock : ∀ {s' : PoolState C}, Solo sys pc t (.allocUnlock b) (some t) s' .idle none
      { s' with live := b :: s'.live } := fun {s'} =>
    (Solo.of_step (.allocUnlock placed_pc_self) setPc_of_data).trans hreturn
  unfold Pool.allocate at h
  cases hpop : s.pool.popFree with
  -- The pop without the lock succeeds.
  | some bp =>
    rw [hpop] at h
    cases h
    exact (hcall.trans (.pop rfl hpop)).trans hreturn
  -- The thread takes the mutex, pops again in vain and collects.
  | none =>
    rw [hpop] at h
    dsimp only at h
    have hlock : Solo sys pc t .allocPop none s .allocPopLocked (some t) s :=
      (Solo.popEmpty rfl hpop (List.Perm.refl s.pool.segments)).trans
        (.of_step (.allocLock placed_pc_self rfl) setPc_of_data)
    have hcollect := (hcall.trans hlock).trans
      ((Solo.popEmpty rfl hpop horder).trans (Solo.collectAll env.order))
    cases hpop₁ : (HwMalloc.collectAll env.order s.world s.pool).2.popFree with
    | some bp =>
      rw [hpop₁] at h
      cases h
      exact (hcollect.trans (.pop rfl hpop₁)).trans hunlock
    -- Nothing was there to collect, so the thread adds segments.
    | none =>
      rw [hpop₁] at h
      dsimp only at h
      have hgrow := hcollect.trans (Solo.popEmpty rfl hpop₁
        (List.Perm.refl (HwMalloc.collectAll env.order s.world s.pool).2.segments))
      split at h
      · cases h
      · cases h
      · next hloop =>
        cases h
        exact (hgrow.trans (Solo.growLoop fuel hloop)).trans hunlock

/-- A call of `free` is a solo run. -/
theorem Solo.free {b : Block C} {s : PoolState C} (hb : b ∈ s.live) :
    Solo sys pc t .idle none s .idle none
      ⟨(s.pool.free b s.world).1, (s.pool.free b s.world).2, s.live.erase b⟩ := by
  have hcall : Solo sys pc t .idle none s (.freePush b) none
      { s with live := s.live.erase b } := .of_step (.callFree placed_pc_self hb) setPc_of_data
  have hpush : Solo sys pc t (.freePush b) none { s with live := s.live.erase b } (.freeInc b) none
      { s with
        world := s.world.modifySegment b.segment (Segment.pushFreed b)
        live := s.live.erase b } := .of_step (.freePush placed_pc_self) setPc_of_data
  have hinc : Solo sys pc t .idle none s (if s.pool.neverFree then .idle else .freeTest b) none
      ⟨segmentFree b s.world, s.pool, s.live.erase b⟩ := by
    have hcount : Solo sys pc t (.freeInc b) none
        { s with
          world := s.world.modifySegment b.segment (Segment.pushFreed b)
          live := s.live.erase b }
        (if s.pool.neverFree then .idle else .freeTest b) none
        ⟨(s.world.modifySegment b.segment (Segment.pushFreed b)).modifySegment b.segment
          (Segment.addFreed 1), s.pool, s.live.erase b⟩ :=
      .of_step (.freeInc placed_pc_self) setPc_of_data
    rw [modifySegment_modifySegment] at hcount
    exact (hcall.trans hpush).trans hcount
  have htest : ∀ {s' : PoolState C}, Solo sys pc t (.freeTest b) none s'
      (if (s'.world.segmentAt b.segment).isEmpty then .freeLock b else .idle) none s' :=
    .of_step (.freeTest placed_pc_self fun _ => rfl) placed_setPc
  have hunlock : ∀ {s' : PoolState C}, Solo sys pc t .freeUnlock (some t) s' .idle none s' :=
    .of_step (.freeUnlock placed_pc_self) setPc_of_data
  unfold Pool.free
  cases hnever : s.pool.neverFree with
  -- The call ends with the count.
  | true =>
    rw [hnever] at hinc
    exact hinc
  -- It tests the counter, and again under the mutex if the segment is empty.
  | false =>
    rw [hnever, if_neg Bool.false_ne_true] at hinc
    have hinc := hinc.trans htest
    dsimp only at hinc ⊢
    cases hempty : ((segmentFree b s.world).segmentAt b.segment).isEmpty with
    | false =>
      rw [hempty] at hinc
      simpa using hinc
    | true =>
      rw [hempty, if_pos rfl] at hinc
      have hlock : ∀ {s' : PoolState C}, Solo sys pc t (.freeLock b) none s' (.freeRecheck b)
          (some t) s' := .of_step (.freeLock placed_pc_self rfl) setPc_of_data
      have hcheck := (hinc.trans hlock).trans
        (.of_step (.freeRecheck placed_pc_self fun _ => rfl) placed_setPc)
      dsimp only [ConcState.placed] at hcheck
      by_cases hsize : s.pool.numReserveSegments < s.pool.segments.length
      · simp only [hempty, hsize, decide_true, Bool.and_self, if_true, Bool.not_false] at hcheck ⊢
        exact (hcheck.trans (.of_step (.freeErase placed_pc_self) setPc_of_data)).trans hunlock
      · simp only [hempty, hsize, decide_false, Bool.and_false, if_false, Bool.false_eq_true,
          Bool.not_false, Bool.and_self, if_true] at hcheck ⊢
        exact hcheck.trans hunlock

/-- Every call is a solo run. -/
theorem Solo.of_poolStep {op : PoolOp C} {s s' : PoolState C} (h : PoolStep sys s op s') :
    Solo sys pc t .idle none s .idle none s' := by
  rcases poolStep_cases h with ⟨env, fuel, b, -, horder, halloc, hlive⟩ | ⟨b, hb, -, rfl⟩
  · have hrun : Solo sys pc t .idle none s .idle none ⟨s'.world, s'.pool, b :: s.live⟩ :=
      .allocate horder halloc
    rw [← hlive] at hrun
    exact hrun
  · exact .free hb

/-- And so are several calls, one after the other. -/
theorem Solo.of_calls {ops : List (PoolOp C)} {s s' : PoolState C}
    (h : Lib.Run (PoolStep sys) s ops s') : Solo sys pc t .idle none s .idle none s' := by
  induction h with
  | refl => exact .refl
  | snoc _ hlast ih => exact ih.trans (.of_poolStep hlast)

end

/-! ### A solo run is made of calls

A run may stop in the middle of a call, so the invariant says for each place what the
call has done so far, relative to the state `s₁` it began in. For the places of
`allocate` this is what the sequential call would still have to do; for those of `free`
it is the state itself. When the thread is between two calls, the calls so far lead from
the first state to the current one. -/

/-- A call of `allocate` in state `s₁` can return `b` and leave the data of `s`. -/
def Allocates (sys : System) (s₁ : PoolState C) (b : Block C) (s : PoolState C) : Prop :=
  s.live = s₁.live ∧ ∃ env fuel, env.order.Perm s₁.pool.segments ∧
    s₁.pool.allocate sys env fuel s₁.world = some (.ok b, s.world, s.pool)

/-- The loop over `m_segments` of a call that began in state `s₁` has reached `x`. -/
def Collects (s₁ : PoolState C) (x : Pc C) (s : PoolState C) : Prop :=
  s.live = s₁.live ∧ s₁.pool.popFree = none ∧ ∃ order, order.Perm s₁.pool.segments ∧
    collectRest x s.world s.pool = collectAll order s₁.world s₁.pool

/-- The `while` loop of a call that began in state `s₁` has made `counter` pops.
The answers to its calls of `add_segment` are fixed so far. -/
def Grows (sys : System) (s₁ : PoolState C) (counter : Nat) (s : PoolState C) : Prop :=
  s.live = s₁.live ∧ s₁.pool.popFree = none ∧ ∃ order, order.Perm s₁.pool.segments ∧
    (collectAll order s₁.world s₁.pool).2.popFree = none ∧
    ∃ past : Nat → GrowEnv C, ∀ grow, (∀ k, 2 * k < counter → grow k = past k) → ∀ fuel,
      growLoop sys grow (fuel + counter) 0 (collectAll order s₁.world s₁.pool).1
          (collectAll order s₁.world s₁.pool).2 =
        growLoop sys grow fuel counter s.world s.pool

/-- The state after `segment::free`. -/
def PoolState.returned (s₁ : PoolState C) (b : Block C) : PoolState C :=
  ⟨segmentFree b s₁.world, s₁.pool, s₁.live.erase b⟩

/-- The state after `free`. -/
def PoolState.freed (s₁ : PoolState C) (b : Block C) : PoolState C :=
  ⟨(s₁.pool.free b s₁.world).1, (s₁.pool.free b s₁.world).2, s₁.live.erase b⟩

/-- A call of `free` that has found the segment empty. -/
def Empties (s₁ : PoolState C) (b : Block C) (s : PoolState C) : Prop :=
  b ∈ s₁.live ∧ s₁.pool.neverFree = false ∧
    ((segmentFree b s₁.world).segmentAt b.segment).isEmpty = true ∧ s = s₁.returned b

/-- The call of thread `t` that began in state `s₁` has reached `x`. -/
def InCall (sys : System) (t : Tid) (s₁ : PoolState C) (x : Pc C) (m : Option Tid)
    (s : PoolState C) : Prop :=
  match x with
  | .idle | .allocPop => m = none ∧ s = s₁
  | .allocLock => m = none ∧ s = s₁ ∧ s₁.pool.popFree = none
  | .allocPopLocked => m = some t ∧ s = s₁ ∧ s₁.pool.popFree = none
  | .collectPop _ _ _ | .collectPush _ _ _ _ | .collectSub _ _ _ | .allocPopCollected =>
    m = some t ∧ Collects s₁ x s
  | .growPop counter => m = some t ∧ Grows sys s₁ counter s
  | .grow counter =>
    m = some t ∧ ∃ c, counter = c + 1 ∧ c % 2 = 0 ∧ s.pool.popFree = none ∧ Grows sys s₁ c s
  | .allocUnlock b => m = some t ∧ Allocates sys s₁ b s
  | .allocReturn b => m = none ∧ Allocates sys s₁ b s
  | .freePush b => m = none ∧ b ∈ s₁.live ∧ s = ⟨s₁.world, s₁.pool, s₁.live.erase b⟩
  | .freeInc b => m = none ∧ b ∈ s₁.live ∧
      s = ⟨s₁.world.modifySegment b.segment (Segment.pushFreed b), s₁.pool, s₁.live.erase b⟩
  | .freeTest b => m = none ∧ b ∈ s₁.live ∧ s₁.pool.neverFree = false ∧ s = s₁.returned b
  | .freeLock b => m = none ∧ Empties s₁ b s
  | .freeRecheck b => m = some t ∧ Empties s₁ b s
  | .freeErase b => m = some t ∧ Empties s₁ b s ∧
      s₁.pool.numReserveSegments < s₁.pool.segments.length
  | .freeUnlock => m = some t ∧ ∃ b ∈ s₁.live, s = s₁.freed b

/-- Thread `t` is in a call, after others that led from `s₀` to where it began. -/
def Resumes (sys : System) (t : Tid) (s₀ : PoolState C) (st : ConcState C Tid) : Prop :=
  ∃ s₁ ops, Lib.Run (PoolStep sys) s₀ ops s₁ ∧
    InCall sys t s₁ (st.pc t) st.mutex ⟨st.world, st.pool, st.live⟩

/-- All calls fail. -/
def GrowEnv.refusing : GrowEnv C where
  numa := { numaAlloc := 0, calloc := 0, callocNode := 0, localNode := 0 }
  deviceMalloc := none
  registerMemory := none
  registerDeviceMemory := none
  deviceFirst := false
  freedStackThrows := false
  getHandleThrows := fun _ => false
  deviceGetHandleThrows := fun _ => false

/-- The pop without the lock. -/
theorem Allocates.of_pop {sys : System} {s₁ : PoolState C} {b : Block C} {p : Pool C}
    (hpop : s₁.pool.popFree = some (b, p)) : Allocates sys s₁ b { s₁ with pool := p } := by
  refine ⟨rfl, ⟨s₁.pool.segments, fun _ => .refusing⟩, 0, .refl _, ?_⟩
  rw [Pool.allocate, hpop]

/-- The pop after the loop over `m_segments`. -/
theorem Collects.allocates {sys : System} {s₁ s : PoolState C} {b : Block C} {p : Pool C}
    (h : Collects s₁ .allocPopCollected s) (hpop : s.pool.popFree = some (b, p)) :
    Allocates sys s₁ b { s with pool := p } := by
  obtain ⟨hlive, hempty, order, horder, hrest⟩ := h
  refine ⟨hlive, ⟨order, fun _ => .refusing⟩, 0, horder, ?_⟩
  rw [Pool.allocate, hempty]
  dsimp only
  rw [← hrest]
  dsimp only [collectRest]
  rw [hpop]

/-- That pop fails, and the `while` loop begins. -/
theorem Collects.grows {sys : System} {s₁ s : PoolState C}
    (h : Collects s₁ .allocPopCollected s) (hpop : s.pool.popFree = none) : Grows sys s₁ 0 s := by
  obtain ⟨hlive, hempty, order, horder, hrest⟩ := h
  refine ⟨hlive, hempty, order, horder, ?_, fun _ => .refusing, fun grow _ fuel => ?_⟩
  · rw [← hrest]
    exact hpop
  · rw [← hrest]
    rfl

namespace Grows

variable {sys : System} {s₁ s : PoolState C} {counter : Nat}

/-- A pop in the condition of the `while` loop that succeeds. -/
theorem allocates {b : Block C} {p : Pool C} (h : Grows sys s₁ counter s)
    (hpop : s.pool.popFree = some (b, p)) : Allocates sys s₁ b { s with pool := p } := by
  obtain ⟨hlive, hempty, order, horder, hcollected, past, hpast⟩ := h
  refine ⟨hlive, ⟨order, past⟩, 1 + counter, horder, ?_⟩
  rw [Pool.allocate, hempty]
  dsimp only
  rw [hcollected]
  dsimp only
  rw [hpast past (fun _ _ => rfl), growLoop, hpop]

/-- A pop that fails in an iteration without `add_segment`. -/
theorem skip (h : Grows sys s₁ counter s) (hcounter : counter % 2 ≠ 0)
    (hpop : s.pool.popFree = none) : Grows sys s₁ (counter + 1) s := by
  obtain ⟨hlive, hempty, order, horder, hcollected, past, hpast⟩ := h
  refine ⟨hlive, hempty, order, horder, hcollected, past, fun grow hgrow fuel => ?_⟩
  have hstep : growLoop sys grow (fuel + 1) counter s.world s.pool =
      growLoop sys grow fuel (counter + 1) s.world s.pool := by
    rw [growLoop, hpop]
    dsimp only
    rw [if_neg hcounter]
  rw [← hstep, ← hpast grow fun k hk => hgrow k (by omega)]
  rw [show fuel + (counter + 1) = fuel + 1 + counter by omega]

/-- An iteration that adds a segment. -/
theorem grow {env : GrowEnv C} {w : World C} {p : Pool C} (h : Grows sys s₁ counter s)
    (hcounter : counter % 2 = 0) (hpop : s.pool.popFree = none)
    (hadd : addSegment sys env s.world s.pool = (.ok (), w, p)) :
    Grows sys s₁ (counter + 1) { s with world := w, pool := p } := by
  obtain ⟨hlive, hempty, order, horder, hcollected, past, hpast⟩ := h
  refine ⟨hlive, hempty, order, horder, hcollected, Function.update past (counter / 2) env,
    fun grow hgrow fuel => ?_⟩
  have henv : grow (counter / 2) = env := by
    rw [hgrow _ (by omega), Function.update_self]
  have hstep : growLoop sys grow (fuel + 1) counter s.world s.pool =
      growLoop sys grow fuel (counter + 1) w p := by
    rw [growLoop, hpop]
    dsimp only
    rw [if_pos hcounter, henv, hadd]
  have hsame : ∀ k, 2 * k < counter → grow k = past k := fun k hk => by
    rw [hgrow k (by omega), Function.update_of_ne (by omega)]
  rw [← hstep, ← hpast grow hsame, show fuel + (counter + 1) = fuel + 1 + counter by omega]

end Grows

/-- What `free` does when it finds the segment empty. -/
theorem Empties.erased {s₁ s : PoolState C} {b : Block C} (h : Empties s₁ b s)
    (hsize : s₁.pool.numReserveSegments < s₁.pool.segments.length) :
    (⟨(s.pool.eraseSegment b.segment s.world).1, (s.pool.eraseSegment b.segment s.world).2,
      s.live⟩ : PoolState C) = s₁.freed b := by
  obtain ⟨-, hnever, hempty, rfl⟩ := h
  rcases free_cases b s₁.world s₁.pool with ⟨-, hnot⟩ | ⟨heq, -⟩
  · exact absurd ⟨hnever, hempty, hsize⟩ hnot
  · rw [PoolState.freed, heq]
    rfl

theorem Empties.kept {s₁ s : PoolState C} {b : Block C} (h : Empties s₁ b s)
    (hsize : ¬s₁.pool.numReserveSegments < s₁.pool.segments.length) : s = s₁.freed b := by
  obtain ⟨-, -, -, rfl⟩ := h
  rcases free_cases b s₁.world s₁.pool with ⟨heq, -⟩ | ⟨-, -, -, hsize'⟩
  · rw [PoolState.freed, heq]
    rfl
  · exact absurd hsize' hsize

/-- A call of `free` that does not look at the pool. -/
theorem returned_eq_freed {s₁ : PoolState C} {b : Block C}
    (h : s₁.pool.neverFree = true ∨
      ((segmentFree b s₁.world).segmentAt b.segment).isEmpty = false) :
    s₁.returned b = s₁.freed b := by
  rcases free_cases b s₁.world s₁.pool with ⟨heq, -⟩ | ⟨-, hnever, hempty, -⟩
  · rw [PoolState.freed, heq]
    rfl
  · rw [hnever, hempty] at h
    simp at h

theorem poolStep_freed {sys : System} {s₁ : PoolState C} {b : Block C} (hb : b ∈ s₁.live) :
    PoolStep sys s₁ (.free b) (s₁.freed b) := by
  rw [PoolStep, PoolState.step.eq_def]
  exact if_pos hb

theorem Allocates.poolStep {sys : System} {s₁ s : PoolState C} {b : Block C}
    (h : Allocates sys s₁ b s) :
    ∃ op, PoolStep sys s₁ op { s with live := b :: s.live } := by
  obtain ⟨hlive, env, fuel, horder, halloc⟩ := h
  refine ⟨.allocate env fuel, ?_⟩
  rw [PoolStep, PoolState.step.eq_def]
  dsimp only
  rw [if_pos horder, halloc, hlive]

section

variable [DecidableEq Tid] {sys : System} {t : Tid} {s₀ : PoolState C} {st st' : ConcState C Tid}

/-- Nothing but the place of thread `t` has to be looked at after its step. -/
theorem Resumes.of_setPc {s₁ : PoolState C} {ops : List (PoolOp C)} {x : Pc C}
    {st₁ : ConcState C Tid} (hrun : Lib.Run (PoolStep sys) s₀ ops s₁)
    (h : InCall sys t s₁ x st₁.mutex ⟨st₁.world, st₁.pool, st₁.live⟩) :
    Resumes sys t s₀ (st₁.setPc t x) := by
  refine ⟨s₁, ops, hrun, ?_⟩
  rw [ConcState.setPc_pc_self]
  exact h

/-- The call has ended. -/
theorem Resumes.of_idle {s₁ : PoolState C} {ops : List (PoolOp C)} {op : PoolOp C}
    {st₁ : ConcState C Tid} (hrun : Lib.Run (PoolStep sys) s₀ ops s₁) (hmutex : st₁.mutex = none)
    (hstep : PoolStep sys s₁ op ⟨st₁.world, st₁.pool, st₁.live⟩) :
    Resumes sys t s₀ (st₁.setPc t .idle) :=
  .of_setPc (hrun.snoc hstep) ⟨hmutex, rfl⟩

omit [DecidableEq Tid] in
/-- Where a pop of a call leads that finds a block. -/
theorem InCall.pop {s₁ s : PoolState C} {x : Pc C} {m : Option Tid} {next : Block C → Pc C}
    {b : Block C} {p : Pool C} (h : InCall sys t s₁ x m s) (hx : x.onPop = some next)
    (hpop : s.pool.popFree = some (b, p)) :
    InCall sys t s₁ (next b) m { s with pool := p } := by
  cases x <;> simp only [Pc.onPop, Option.some.injEq, reduceCtorEq] at hx <;> subst hx
  case allocPop =>
    obtain ⟨hm, rfl⟩ := h
    exact ⟨hm, .of_pop hpop⟩
  case allocPopLocked =>
    obtain ⟨-, rfl, hempty⟩ := h
    rw [hempty] at hpop
    cases hpop
  case allocPopCollected => exact ⟨h.1, h.2.allocates hpop⟩
  case growPop counter => exact ⟨h.1, h.2.allocates hpop⟩

omit [DecidableEq Tid] in
/-- Where a pop of a call leads that finds none. -/
theorem InCall.popEmpty {s₁ s : PoolState C} {x y : Pc C} {m : Option Tid} {order : List Nat}
    (h : InCall sys t s₁ x m s) (hx : x.onEmpty order = some y) (hpop : s.pool.popFree = none)
    (horder : order.Perm s.pool.segments) : InCall sys t s₁ y m s := by
  cases x <;> simp only [Pc.onEmpty, Option.some.injEq, reduceCtorEq] at hx <;> subst hx
  case allocPop =>
    obtain ⟨hm, rfl⟩ := h
    exact ⟨hm, rfl, hpop⟩
  case allocPopLocked =>
    obtain ⟨hm, rfl, -⟩ := h
    have hcollects : Collects s (Pc.collectNext order) s :=
      ⟨rfl, hpop, order, horder, collectRest_collectNext order _ _⟩
    cases order with
    | nil => exact ⟨hm, hcollects⟩
    | cons k todo => exact ⟨hm, hcollects⟩
  case allocPopCollected => exact ⟨h.1, h.2.grows hpop⟩
  case growPop counter =>
    by_cases hcounter : counter % 2 = 0
    · rw [if_pos hcounter]
      exact ⟨h.1, counter, rfl, hcounter, hpop, h.2⟩
    · rw [if_neg hcounter]
      exact ⟨h.1, h.2.skip hcounter hpop⟩

omit [DecidableEq Tid] in
/-- The next place in the loop over `m_segments`. -/
theorem InCall.collects {s₁ s s' : PoolState C} {x y : Pc C} {m : Option Tid}
    (h : m = some t ∧ Collects s₁ x s) (hlive : s'.live = s.live)
    (hrest : collectRest y s'.world s'.pool = collectRest x s.world s.pool) :
    m = some t ∧ Collects s₁ y s' := by
  obtain ⟨hm, hlive₁, hempty, order, horder, hall⟩ := h
  exact ⟨hm, hlive.trans hlive₁, hempty, order, horder, hrest.trans hall⟩

/-- Every step of a thread that runs alone belongs to a call, as long as the blocks
of the clients are blocks of registered segments whenever a call begins. -/
theorem Resumes.step {l : Label Tid}
    (hmem : ∀ {ops s₁}, Lib.Run (PoolStep sys) s₀ ops s₁ →
      ∀ b ∈ s₁.live, b.segment ∈ s₁.pool.segments)
    (h : Resumes sys t s₀ st) (hstep : SoloStep sys t st l st') : Resumes sys t s₀ st' := by
  obtain ⟨s₁, ops, hrun, hcall⟩ := h
  obtain ⟨rfl, -, hstep⟩ := hstep
  cases hstep with
  -- `allocate`, up to its loops.
  | callAllocate hx =>
    rw [hx] at hcall
    exact .of_setPc hrun hcall
  | pop hx hpop => exact .of_setPc hrun (hcall.pop hx hpop)
  | popEmpty hx hpop horder => exact .of_setPc hrun (hcall.popEmpty hx hpop horder)
  | allocLock hx _ =>
    rw [hx] at hcall
    exact .of_setPc hrun ⟨rfl, hcall.2⟩
  -- The loop over `m_segments`: what is left to collect stays the same.
  | collectPop hx hfreed =>
    rw [hx] at hcall
    exact .of_setPc hrun (InCall.collects hcall rfl (collectRest_collectPop hfreed))
  | collectEmpty hx hfreed =>
    rw [hx] at hcall
    exact .of_setPc hrun (InCall.collects hcall rfl (collectRest_collectEmpty hfreed))
  | collectPush hx =>
    rw [hx] at hcall
    exact .of_setPc hrun (InCall.collects hcall rfl rfl)
  | @collectSub _ s todo n hx =>
    rw [hx] at hcall
    have hnext : st.mutex = some t ∧ Collects s₁ (Pc.collectNext todo)
        ⟨st.world.modifySegment s (Segment.addFreed (-n)), st.pool, st.live⟩ :=
      InCall.collects hcall rfl (collectRest_collectNext todo _ _)
    cases todo with
    | nil => exact .of_setPc hrun hnext
    | cons k todo => exact .of_setPc hrun hnext
  -- One more answer to `add_segment` is fixed.
  | grow hx hadd =>
    rw [hx] at hcall
    obtain ⟨hm, c, rfl, hc, hpop, hgrows⟩ := hcall
    exact .of_setPc hrun ⟨hm, hgrows.grow hc hpop hadd⟩
  | allocUnlock hx =>
    rw [hx] at hcall
    exact .of_setPc hrun ⟨rfl, hcall.2⟩
  -- The call has returned, so it is one of the calls from here on.
  | allocReturn hx =>
    rw [hx] at hcall
    obtain ⟨op, hop⟩ := hcall.2.poolStep
    exact .of_idle hrun hcall.1 hop
  -- `free`: the state is that of the sequential call, cut off at this place.
  | callFree hx hb =>
    rw [hx] at hcall
    obtain ⟨hm, rfl⟩ := hcall
    exact .of_setPc hrun ⟨hm, hb, rfl⟩
  | @freePush _ b hx =>
    rw [hx] at hcall
    obtain ⟨hm, hb, heq⟩ := hcall
    obtain ⟨hw, hp, hl⟩ := PoolState.mk.inj heq
    refine .of_setPc hrun ⟨hm, hb, ?_⟩
    show (⟨st.world.modifySegment b.segment _, st.pool, st.live⟩ : PoolState C) = _
    rw [hw, hp, hl]
  | @freeInc _ b hx =>
    rw [hx] at hcall
    obtain ⟨hm, hb, heq⟩ := hcall
    obtain ⟨hw, hp, hl⟩ := PoolState.mk.inj heq
    have hreturned : (⟨st.world.modifySegment b.segment (Segment.addFreed 1), st.pool, st.live⟩ :
        PoolState C) = s₁.returned b := by
      rw [hw, hp, hl, modifySegment_modifySegment]
      rfl
    -- With `m_never_free` this is the end of the call.
    cases hnever : s₁.pool.neverFree with
    | true =>
      rw [hp, hnever, if_pos rfl]
      rw [returned_eq_freed (Or.inl hnever)] at hreturned
      exact .of_idle hrun hm (hreturned ▸ poolStep_freed hb)
    | false =>
      rw [hp, hnever, if_neg Bool.false_ne_true]
      exact .of_setPc hrun ⟨hm, hb, hnever, hreturned⟩
  | @freeTest _ b read hx hread =>
    rw [hx] at hcall
    obtain ⟨hm, hb, hnever, heq⟩ := hcall
    obtain ⟨hw, hp, -⟩ := PoolState.mk.inj heq
    rw [hw, hp] at hread
    -- The segment is registered, so the test reads its counter.
    have hread := hread (hmem hrun b hb)
    cases read with
    | true =>
      rw [if_pos rfl]
      exact .of_setPc hrun ⟨hm, hb, hnever, hread.symm, heq⟩
    | false =>
      rw [if_neg Bool.false_ne_true]
      rw [returned_eq_freed (Or.inr hread.symm)] at heq
      exact .of_idle hrun hm (heq ▸ poolStep_freed hb)
  | freeLock hx _ =>
    rw [hx] at hcall
    exact .of_setPc hrun ⟨rfl, hcall.2⟩
  | @freeRecheck _ b read hx hread =>
    rw [hx] at hcall
    obtain ⟨hm, hempties⟩ := hcall
    obtain ⟨hw, hp, -⟩ := PoolState.mk.inj hempties.2.2.2
    rw [hw, hp] at hread
    have hread := (hread (hmem hrun b hempties.1)).trans hempties.2.2.1
    rw [hread, hp, Bool.true_and]
    by_cases hsize : s₁.pool.numReserveSegments < s₁.pool.segments.length
    · rw [if_pos (decide_eq_true hsize)]
      exact .of_setPc hrun ⟨hm, hempties, hsize⟩
    · rw [if_neg (by simp [hsize])]
      exact .of_setPc hrun ⟨hm, b, hempties.1, hempties.kept hsize⟩
  | @freeErase _ b hx =>
    rw [hx] at hcall
    obtain ⟨hm, hempties, hsize⟩ := hcall
    exact .of_setPc hrun ⟨hm, b, hempties.1, hempties.erased hsize⟩
  | freeUnlock hx =>
    rw [hx] at hcall
    obtain ⟨-, b, hb, heq⟩ := hcall
    exact .of_idle hrun rfl (heq ▸ poolStep_freed hb)

end

/-- A thread that stands outside the calls while the mutex is free. -/
theorem placed_self [DecidableEq Tid] {st : ConcState C Tid} {t : Tid} (hfree : st.mutex = none)
    (hidle : st.pc t = .idle) :
    ConcState.placed st.pc t .idle none ⟨st.world, st.pool, st.live⟩ = st := by
  rw [ConcState.placed, ← hidle, Function.update_eq_self, ← hfree]

/-- The blocks that the clients hold after some calls, whoever made them. -/
theorem ConcInv.live_registered [Fintype Tid] [DecidableEq Tid] {sys : System} {pc : Tid → Pc C}
    {t : Tid} {s₀ s₁ : PoolState C} {ops : List (PoolOp C)}
    (h : ConcInv sys (ConcState.placed pc t .idle none s₀))
    (hcalls : Lib.Run (PoolStep sys) s₀ ops s₁) :
    ∀ b ∈ s₁.live, b.segment ∈ s₁.pool.segments := by
  intro b hb
  obtain ⟨ls, hrun⟩ : Solo sys pc t .idle none s₀ .idle none s₁ := .of_calls hcalls
  have hinv : ConcInv sys (ConcState.placed pc t .idle none s₁) :=
    hrun.invariant (fun _ _ _ h hstep => h.step hstep.2) h
  have hlive : 0 < (ConcState.placed pc t .idle none s₁).live.count b :=
    List.count_pos_iff.mpr hb
  exact (hinv.isBlock_of_places (by rw [ConcState.places]; omega)).1

/-- A thread that runs alone, from any moment of a run at which it is in no call and
the mutex is free, leads the pool to the states that the calls lead it to, and to no
others. The run up to that moment may have any steps, and the other threads stand
wherever it has left them. -/
theorem soloRun_iff [Fintype Tid] [DecidableEq Tid] {sys : System} {params : PoolParams}
    {st₀ st : ConcState C Tid} {ls₀ : List (Label Tid)} {t : Tid} {s : PoolState C}
    (hinit : st₀.Init params) (hreach : Lib.Run (ConcStep sys) st₀ ls₀ st)
    (hfree : st.mutex = none) (hidle : st.pc t = .idle) :
    (∃ ls, Lib.Run (SoloStep sys t) st ls (.placed st.pc t .idle none s)) ↔
      ∃ ops, Lib.Run (PoolStep sys) ⟨st.world, st.pool, st.live⟩ ops s := by
  have hst := placed_self hfree hidle
  constructor
  · rintro ⟨ls, hrun⟩
    have hinv : ConcInv sys st :=
      reachable_concInv ⟨st₀, ls₀, hinit, run_ok_of_mutex_free hinit hreach hfree⟩
    rw [← hst] at hinv
    have hstart : Resumes sys t ⟨st.world, st.pool, st.live⟩ st := by
      refine ⟨_, [], .refl _, ?_⟩
      rw [hidle]
      exact ⟨hfree, rfl⟩
    obtain ⟨s₁, ops, hcalls, hcall⟩ := hrun.invariant
      (fun _ _ _ h hstep => h.step hinv.live_registered hstep) hstart
    rw [placed_pc_self] at hcall
    obtain ⟨-, rfl⟩ := hcall
    exact ⟨ops, hcalls⟩
  · rintro ⟨ops, hrun⟩
    have hsolo := show Solo sys st.pc t _ _ _ _ _ _ from .of_calls hrun
    rw [Solo, hst] at hsolo
    exact hsolo

/-- Both blocks of segment 1 are with the clients, and thread `false` returns one of
them: it has pushed the block and not counted it. -/
def halfReturned : List (Bool × Choice rangeContext) :=
  (false, .allocate) :: advanceBy false 9 [] 1 ++
    (true, .allocate) :: advanceBy true 2 [1] 1 ++
    (false, .free (twoBlock 1 0)) :: advanceBy false 1 [] 1

/-- Thread `true` then allocates, and its call collects the block of the other thread,
whose segment counts one block too few for the time being. -/
theorem soloRun_iff_halfReturned :
    ∃ (ls₀ ls : List (Label Bool)) (st : ConcState rangeContext Bool)
      (s : PoolState rangeContext),
      Lib.Run (ConcStepOk stubSystem) twoBlockStart ls₀ st ∧
      st.pc false = .freeInc (twoBlock 1 0) ∧ s.live = [twoBlock 1 0, twoBlock 1 1] ∧
      (s.world.segmentAt 1).numFreed = -1 ∧
      Lib.Run (SoloStep stubSystem true) st ls (.placed st.pc true .idle none s) := by
  obtain ⟨st, hexec, hpc, hidle, hfree, s, hcall, hlive, hfreed⟩ :
      ∃ st, Lib.exec (fun st e => ConcState.advance stubSystem st e.1 e.2) halfReturned
          twoBlockStart = some st ∧
        st.pc false = .freeInc (twoBlock 1 0) ∧ st.pc true = .idle ∧ st.mutex = none ∧
        ∃ s, Lib.exec (PoolState.step stubSystem) [allocateAt [1] 2]
            ⟨st.world, st.pool, st.live⟩ = some s ∧
          s.live = [twoBlock 1 0, twoBlock 1 1] ∧ (s.world.segmentAt 1).numFreed = -1 :=
    ⟨_, rfl, rfl, rfl, rfl, _, rfl, rfl, rfl⟩
  have hrun := run_of_schedule hexec
  have hall := hrun.map (g := id) fun _ _ _ h => h.2
  rw [List.map_id] at hall
  obtain ⟨ls, hsolo⟩ := (soloRun_iff twoBlockStart_init hall hfree hidle).mpr
    ⟨_, Lib.run_of_exec hcall⟩
  exact ⟨_, ls, st, s, hrun, hpc, hlive, hfreed, hsolo⟩

end HwMalloc
