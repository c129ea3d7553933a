import HwMalloc.Pool
import HwMalloc.Lib.Run
import Mathlib.Data.Fintype.Basic

/-!
# HwMalloc.Concurrent

Any number of threads in `pool::allocate` and `pool::free` of one pool.

A configuration holds the shared data and, for each thread, the place in the
code at which it stands (`Pc`), with the values of its local variables. One
step is one access to shared data by one thread:

* a push or a pop of a lock-free stack, where `consume_all` is a sequence of pops;
* an update or a read of a segment's counter;
* an acquisition or a release of `m_mutex`;
* an `add_segment`, or an erasure from `m_segments`, under the mutex.

What runs under the mutex is split as finely as what does not, because the free stack
is shared with the threads that pop without the mutex: each push of `collect` is a step
of its own. The last two are one step each, so that the blocks of a new segment are
seen together.

**Reads after an erasure.** `free` reads the counter of a segment that another thread
may have erased. Such a read may return anything, and is a step with either outcome.

**Exceptions** are steps with a label of their own: what runs under the lock of
`allocate` may throw, and nothing unlocks the mutex on that way out. The guard of
`free` does unlock it.
-/

namespace HwMalloc

/-- Where a thread stands, and its local variables. -/
inductive Pc (C : Context)
  | idle
  /-- `allocate`: the pop without the lock. -/
  | allocPop
  /-- `allocate`: `m_mutex.lock()`. -/
  | allocLock
  /-- `allocate`: the first pop under the lock. -/
  | allocPopLocked
  /-- `collect` of segment `s`: the next pop, after `consumed` blocks; the loop
  of `allocate` still has the segments `todo` to meet. -/
  | collectPop (s : Nat) (todo : List Nat) (consumed : Nat)
  /-- `collect`: the functor of `consume_all` pushes `b`. -/
  | collectPush (b : Block C) (s : Nat) (todo : List Nat) (consumed : Nat)
  /-- `collect`: `m_num_freed.fetch_sub(consumed)`. -/
  | collectSub (s : Nat) (todo : List Nat) (consumed : Nat)
  /-- `allocate`: the pop after the loop over `m_segments`. -/
  | allocPopCollected
  /-- `allocate`: the pop in the condition of the `while` loop. -/
  | growPop (counter : Nat)
  /-- `allocate`: `add_segment` in the body of the `while` loop. -/
  | grow (counter : Nat)
  /-- `allocate`: `m_mutex.unlock()`, with the block to return. -/
  | allocUnlock (b : Block C)
  /-- `allocate`: about to return `b`. -/
  | allocReturn (b : Block C)
  /-- `segment::free`: `m_freed_stack.push(b)`. -/
  | freePush (b : Block C)
  /-- `segment::free`: `++m_num_freed`. -/
  | freeInc (b : Block C)
  /-- `free`: `is_empty` without the lock. -/
  | freeTest (b : Block C)
  /-- `free`: the construction of the lock guard. -/
  | freeLock (b : Block C)
  /-- `free`: `is_empty` under the lock, and the size of `m_segments`. -/
  | freeRecheck (b : Block C)
  /-- `free`: `m_segments.erase`. -/
  | freeErase (b : Block C)
  /-- `free`: the destruction of the lock guard. -/
  | freeUnlock

/-- The shared data, the threads, and the blocks the clients hold. -/
structure ConcState (C : Context) (Tid : Type) where
  world : World C
  pool : Pool C
  mutex : Option Tid
  pc : Tid → Pc C
  live : List (Block C)

/-- The thread that takes the step, and whether it does so by an exception. -/
inductive Label (Tid : Type)
  | normal (t : Tid)
  | throws (t : Tid)

variable {C : Context} {Tid : Type}

namespace Pc

/-- Where a thread goes with the block it has popped from `m_free_stack`. -/
def onPop : Pc C → Option (Block C → Pc C)
  | allocPop => some allocReturn
  | allocPopLocked | allocPopCollected | growPop _ => some allocUnlock
  | _ => none

/-- The head of the loop over `m_segments`. -/
def collectNext : List Nat → Pc C
  | [] => allocPopCollected
  | s :: todo => collectPop s todo 0

/-- Where a thread goes when it has found `m_free_stack` empty, if the loop over
`m_segments` is going to meet them in the order `order`. -/
def onEmpty (order : List Nat) : Pc C → Option (Pc C)
  | allocPop => some allocLock
  | allocPopLocked => some (collectNext order)
  | allocPopCollected => some (growPop 0)
  -- `if (counter++ % 2 == 0) add_segment();`
  | growPop counter => some (if counter % 2 = 0 then grow (counter + 1) else growPop (counter + 1))
  | _ => none

/-- In the loop over `m_segments`. -/
def Collecting : Pc C → Prop
  | collectPop _ _ _ | collectPush _ _ _ _ | collectSub _ _ _ => True
  | _ => False

/-- Between an acquisition of `m_mutex` and its release. -/
def Critical : Pc C → Prop
  | allocPopLocked | collectPop _ _ _ | collectPush _ _ _ _ | collectSub _ _ _
  | allocPopCollected | growPop _ | grow _ | allocUnlock _
  | freeRecheck _ | freeErase _ | freeUnlock => True
  | _ => False

end Pc

namespace ConcState

variable [DecidableEq Tid]

/-- Thread `t` moves to `x`. -/
def setPc (st : ConcState C Tid) (t : Tid) (x : Pc C) : ConcState C Tid :=
  { st with pc := Function.update st.pc t x }

/-- The write of a thread to a segment object. -/
def modifySegment (st : ConcState C Tid) (s : Nat) (f : Segment C → Segment C) :
    ConcState C Tid :=
  { st with world := st.world.modifySegment s f }

section

variable (st : ConcState C Tid) (t : Tid) (x : Pc C)

@[simp] theorem setPc_world : (st.setPc t x).world = st.world := rfl
@[simp] theorem setPc_pool : (st.setPc t x).pool = st.pool := rfl
@[simp] theorem setPc_mutex : (st.setPc t x).mutex = st.mutex := rfl
@[simp] theorem setPc_live : (st.setPc t x).live = st.live := rfl
@[simp] theorem setPc_pc_self : (st.setPc t x).pc t = x := Function.update_self ..

theorem setPc_pc_ne {u : Tid} (h : u ≠ t) : (st.setPc t x).pc u = st.pc u :=
  Function.update_of_ne h ..

/-- A property of where all threads stand. -/
theorem forall_setPc {P : Tid → Pc C → Prop} (hself : P t x)
    (hother : ∀ u, u ≠ t → P u (st.pc u)) : ∀ u, P u ((st.setPc t x).pc u) := by
  intro u
  by_cases hu : u = t
  · rw [hu, setPc_pc_self]
    exact hself
  · rw [setPc_pc_ne st t x hu]
    exact hother u hu

end

end ConcState

/-- `m_freed_stack.pop`, for a stack that is not empty. -/
def Segment.popFreed (g : Segment C) : Segment C := { g with freedStack := g.freedStack.tail }

variable [DecidableEq Tid]

/-- One step of one thread. -/
inductive ConcStep (sys : System) : ConcState C Tid → Label Tid → ConcState C Tid → Prop
  /-- A client calls `allocate`. -/
  | callAllocate {st : ConcState C Tid} {t : Tid} :
      st.pc t = .idle →
      ConcStep sys st (.normal t) (st.setPc t .allocPop)
  /-- A pop from `m_free_stack` that succeeds. -/
  | pop {st : ConcState C Tid} {t : Tid} {next : Block C → Pc C} {b : Block C} {p : Pool C} :
      (st.pc t).onPop = some next → st.pool.popFree = some (b, p) →
      ConcStep sys st (.normal t) ({ st with pool := p }.setPc t (next b))
  /-- A pop from `m_free_stack` that fails. -/
  | popEmpty {st : ConcState C Tid} {t : Tid} {order : List Nat} {x : Pc C} :
      (st.pc t).onEmpty order = some x → st.pool.popFree = none →
      order.Perm st.pool.segments →
      ConcStep sys st (.normal t) (st.setPc t x)
  | allocLock {st : ConcState C Tid} {t : Tid} :
      st.pc t = .allocLock → st.mutex = none →
      ConcStep sys st (.normal t) ({ st with mutex := some t }.setPc t .allocPopLocked)
  /-- `consume_all` pops a block. -/
  | collectPop {st : ConcState C Tid} {t : Tid} {s : Nat} {todo : List Nat} {n : Nat}
      {b : Block C} {rest : List (Block C)} :
      st.pc t = .collectPop s todo n → (st.world.segmentAt s).freedStack = b :: rest →
      ConcStep sys st (.normal t)
        ((st.modifySegment s Segment.popFreed).setPc t (.collectPush b s todo (n + 1)))
  /-- `consume_all` finds the stack empty and returns. -/
  | collectEmpty {st : ConcState C Tid} {t : Tid} {s : Nat} {todo : List Nat} {n : Nat} :
      st.pc t = .collectPop s todo n → (st.world.segmentAt s).freedStack = [] →
      ConcStep sys st (.normal t) (st.setPc t (.collectSub s todo n))
  | collectPush {st : ConcState C Tid} {t : Tid} {b : Block C} {s : Nat} {todo : List Nat}
      {n : Nat} :
      st.pc t = .collectPush b s todo n →
      ConcStep sys st (.normal t)
        ({ st with pool := { st.pool with freeStack := b :: st.pool.freeStack } }.setPc t
          (.collectPop s todo n))
  | collectSub {st : ConcState C Tid} {t : Tid} {s : Nat} {todo : List Nat} {n : Nat} :
      st.pc t = .collectSub s todo n →
      ConcStep sys st (.normal t)
        ((st.modifySegment s (Segment.addFreed (-n))).setPc t (.collectNext todo))
  /-- The collect loop throws. -/
  | collectThrows {st : ConcState C Tid} {t : Tid} :
      (st.pc t).Collecting →
      ConcStep sys st (.throws t) (st.setPc t .idle)
  | grow {st : ConcState C Tid} {t : Tid} {counter : Nat} {env : GrowEnv C} {w : World C}
      {p : Pool C} :
      st.pc t = .grow counter → addSegment sys env st.world st.pool = (.ok (), w, p) →
      ConcStep sys st (.normal t) ({ st with world := w, pool := p }.setPc t (.growPop counter))
  /-- `add_segment` throws. -/
  | growThrows {st : ConcState C Tid} {t : Tid} {counter : Nat} {env : GrowEnv C} {w : World C}
      {p : Pool C} {e : FailurePoint} :
      st.pc t = .grow counter → addSegment sys env st.world st.pool = (.error e, w, p) →
      ConcStep sys st (.throws t) ({ st with world := w, pool := p }.setPc t .idle)
  | allocUnlock {st : ConcState C Tid} {t : Tid} {b : Block C} :
      st.pc t = .allocUnlock b →
      ConcStep sys st (.normal t) ({ st with mutex := none }.setPc t (.allocReturn b))
  /-- The client gets the block. -/
  | allocReturn {st : ConcState C Tid} {t : Tid} {b : Block C} :
      st.pc t = .allocReturn b →
      ConcStep sys st (.normal t) ({ st with live := b :: st.live }.setPc t .idle)
  /-- A client calls `free` for a block that it, or another client, holds. -/
  | callFree {st : ConcState C Tid} {t : Tid} {b : Block C} :
      st.pc t = .idle → b ∈ st.live →
      ConcStep sys st (.normal t) ({ st with live := st.live.erase b }.setPc t (.freePush b))
  | freePush {st : ConcState C Tid} {t : Tid} {b : Block C} :
      st.pc t = .freePush b →
      ConcStep sys st (.normal t)
        ((st.modifySegment b.segment (Segment.pushFreed b)).setPc t (.freeInc b))
  | freeInc {st : ConcState C Tid} {t : Tid} {b : Block C} :
      st.pc t = .freeInc b →
      ConcStep sys st (.normal t)
        ((st.modifySegment b.segment (Segment.addFreed 1)).setPc t
          (if st.pool.neverFree then .idle else .freeTest b))
  /-- The counter of a segment that is gone may read as anything. -/
  | freeTest {st : ConcState C Tid} {t : Tid} {b : Block C} {read : Bool} :
      st.pc t = .freeTest b →
      (b.segment ∈ st.pool.segments → read = (st.world.segmentAt b.segment).isEmpty) →
      ConcStep sys st (.normal t) (st.setPc t (if read then .freeLock b else .idle))
  | freeLock {st : ConcState C Tid} {t : Tid} {b : Block C} :
      st.pc t = .freeLock b → st.mutex = none →
      ConcStep sys st (.normal t) ({ st with mutex := some t }.setPc t (.freeRecheck b))
  | freeRecheck {st : ConcState C Tid} {t : Tid} {b : Block C} {read : Bool} :
      st.pc t = .freeRecheck b →
      (b.segment ∈ st.pool.segments → read = (st.world.segmentAt b.segment).isEmpty) →
      ConcStep sys st (.normal t) (st.setPc t
        (if read && st.pool.numReserveSegments < st.pool.segments.length then .freeErase b
          else .freeUnlock))
  /-- The erasure of a key that is not there does nothing. -/
  | freeErase {st : ConcState C Tid} {t : Tid} {b : Block C} :
      st.pc t = .freeErase b →
      ConcStep sys st (.normal t)
        ({ st with
          world := (st.pool.eraseSegment b.segment st.world).1
          pool := (st.pool.eraseSegment b.segment st.world).2 }.setPc t .freeUnlock)
  | freeUnlock {st : ConcState C Tid} {t : Tid} :
      st.pc t = .freeUnlock →
      ConcStep sys st (.normal t) ({ st with mutex := none }.setPc t .idle)

/-- A pool that was just constructed, and no call in progress. -/
def ConcState.Init (params : PoolParams) (st : ConcState C Tid) : Prop :=
  st.pool = Pool.new params st.pool.self ∧ st.mutex = none ∧ (∀ t, st.pc t = .idle) ∧ st.live = []

/-- The steps without exceptions. -/
def ConcStepOk (sys : System) : ConcState C Tid → Label Tid → ConcState C Tid → Prop :=
  Lib.Guarded (fun _ l => ∃ t, l = .normal t) (ConcStep sys)

/-! ### Executing a schedule

The relation above is not a function: the environment chooses. With its choices written
down a run can be computed, and what is computed is a run (`run_of_schedule`). -/

/-- What the environment decides about the next step of a thread: which call an
idle thread makes, and otherwise the order of the loop over `m_segments`, the
answers to `add_segment`, and what a read of a counter that is gone returns. -/
inductive Choice (C : Context)
  | allocate
  | free (b : Block C)
  | go (order : List Nat) (env : GrowEnv C) (read : Bool)

namespace ConcState

/-- A pop from `m_free_stack` by thread `t`. -/
def advancePop (st : ConcState C Tid) (t : Tid) (order : List Nat) : Option (ConcState C Tid) :=
  match (st.pc t).onPop, (st.pc t).onEmpty order, st.pool.popFree with
  | some next, _, some (b, p) => some ({ st with pool := p }.setPc t (next b))
  | _, some x, none => if order.Perm st.pool.segments then some (st.setPc t x) else none
  | _, _, _ => none

/-- The value that thread `t` reads for `b.m_segment->is_empty()`. -/
def readEmpty (st : ConcState C Tid) (b : Block C) (read : Bool) : Bool :=
  if b.segment ∈ st.pool.segments then (st.world.segmentAt b.segment).isEmpty else read

/-- The next step of thread `t`. -/
def advance (sys : System) (st : ConcState C Tid) (t : Tid) : Choice C → Option (ConcState C Tid)
  | .allocate =>
    match st.pc t with
    | .idle => some (st.setPc t .allocPop)
    | _ => none
  | .free b =>
    match st.pc t with
    | .idle =>
      if b ∈ st.live then some ({ st with live := st.live.erase b }.setPc t (.freePush b)) else none
    | _ => none
  | .go order env read =>
    match st.pc t with
    | .allocLock =>
      match st.mutex with
      | none => some ({ st with mutex := some t }.setPc t .allocPopLocked)
      | some _ => none
    | .collectPop s todo n =>
      match (st.world.segmentAt s).freedStack with
      | b :: _ => some ((st.modifySegment s Segment.popFreed).setPc t
          (.collectPush b s todo (n + 1)))
      | [] => some (st.setPc t (.collectSub s todo n))
    | .collectPush b s todo n =>
      some ({ st with pool := { st.pool with freeStack := b :: st.pool.freeStack } }.setPc t
        (.collectPop s todo n))
    | .collectSub s todo n =>
      some ((st.modifySegment s (Segment.addFreed (-n))).setPc t (.collectNext todo))
    | .grow counter =>
      match addSegment sys env st.world st.pool with
      | (.ok (), w, p) => some ({ st with world := w, pool := p }.setPc t (.growPop counter))
      | (.error _, _, _) => none
    | .allocUnlock b => some ({ st with mutex := none }.setPc t (.allocReturn b))
    | .allocReturn b => some ({ st with live := b :: st.live }.setPc t .idle)
    | .freePush b =>
      some ((st.modifySegment b.segment (Segment.pushFreed b)).setPc t (.freeInc b))
    | .freeInc b =>
      some ((st.modifySegment b.segment (Segment.addFreed 1)).setPc t
        (if st.pool.neverFree then .idle else .freeTest b))
    | .freeTest b => some (st.setPc t (if st.readEmpty b read then .freeLock b else .idle))
    | .freeLock b =>
      match st.mutex with
      | none => some ({ st with mutex := some t }.setPc t (.freeRecheck b))
      | some _ => none
    | .freeRecheck b =>
      some (st.setPc t
        (if st.readEmpty b read && st.pool.numReserveSegments < st.pool.segments.length then
          .freeErase b else .freeUnlock))
    | .freeErase b =>
      some ({ st with
        world := (st.pool.eraseSegment b.segment st.world).1
        pool := (st.pool.eraseSegment b.segment st.world).2 }.setPc t .freeUnlock)
    | .freeUnlock => some ({ st with mutex := none }.setPc t .idle)
    | _ => st.advancePop t order

end ConcState

omit [DecidableEq Tid] in
theorem readEmpty_spec (st : ConcState C Tid) (b : Block C) (read : Bool)
    (hs : b.segment ∈ st.pool.segments) :
    st.readEmpty b read = (st.world.segmentAt b.segment).isEmpty := if_pos hs

theorem advancePop_sound {sys : System} {st st' : ConcState C Tid} {t : Tid} {order : List Nat}
    (h : st.advancePop t order = some st') : ConcStep sys st (.normal t) st' := by
  unfold ConcState.advancePop at h
  split at h
  · next hnext hpop =>
    cases h
    exact .pop hnext hpop
  · next hx hpop =>
    by_cases horder : order.Perm st.pool.segments
    · rw [if_pos horder] at h
      cases h
      exact .popEmpty hx hpop horder
    · rw [if_neg horder] at h
      cases h
  · cases h

/-- What `advance` does is a step without exception. -/
theorem advance_sound {sys : System} {st st' : ConcState C Tid} {t : Tid} {c : Choice C}
    (h : st.advance sys t c = some st') : ConcStepOk sys st (.normal t) st' := by
  refine ⟨⟨t, rfl⟩, ?_⟩
  cases c with
  | allocate =>
    cases hx : st.pc t <;> simp only [ConcState.advance, hx, reduceCtorEq] at h
    cases h
    exact .callAllocate hx
  | free b =>
    cases hx : st.pc t <;> simp only [ConcState.advance, hx, reduceCtorEq] at h
    by_cases hb : b ∈ st.live
    · rw [if_pos hb] at h
      cases h
      exact .callFree hx hb
    · rw [if_neg hb] at h
      cases h
  | go order env read =>
    -- One case for each place in the code; the pops are left for the end.
    cases hx : st.pc t <;> simp only [ConcState.advance, hx] at h
    case allocLock =>
      cases hm : st.mutex <;> rw [hm] at h <;> cases h
      exact .allocLock hx hm
    case collectPop s todo n =>
      cases hfreed : (st.world.segmentAt s).freedStack <;> rw [hfreed] at h <;> cases h
      · exact .collectEmpty hx hfreed
      · exact .collectPop hx hfreed
    case collectPush => cases h; exact .collectPush hx
    case collectSub => cases h; exact .collectSub hx
    case grow counter =>
      cases hadd : addSegment sys env st.world st.pool with
      | mk res rest =>
        rw [hadd] at h
        cases res <;> cases h
        exact .grow hx hadd
    case allocUnlock => cases h; exact .allocUnlock hx
    case allocReturn => cases h; exact .allocReturn hx
    case freePush => cases h; exact .freePush hx
    case freeInc => cases h; exact .freeInc hx
    case freeTest b => cases h; exact .freeTest hx (readEmpty_spec st b read)
    case freeLock =>
      cases hm : st.mutex <;> rw [hm] at h <;> cases h
      exact .freeLock hx hm
    case freeRecheck b => cases h; exact .freeRecheck hx (readEmpty_spec st b read)
    case freeErase => cases h; exact .freeErase hx
    case freeUnlock => cases h; exact .freeUnlock hx
    all_goals exact advancePop_sound h

/-- A schedule that can be executed is a run without exceptions. -/
theorem run_of_schedule {sys : System} {st st' : ConcState C Tid} {es : List (Tid × Choice C)}
    (h : Lib.exec (fun st e => st.advance sys e.1 e.2) es st = some st') :
    Lib.Run (ConcStepOk sys) st (es.map fun e => .normal e.1) st' :=
  (Lib.run_of_exec h).map fun _ _ _ => advance_sound

/-- A schedule executed under a check that implies a condition on the steps. -/
theorem guarded_run_of_schedule {sys : System} {guard : ConcState C Tid → Label Tid → Prop}
    {ok : ConcState C Tid → Tid → Bool} (hok : ∀ st t, ok st t = true → guard st (.normal t))
    {st st' : ConcState C Tid} {es : List (Tid × Choice C)}
    (h : Lib.exec (fun st e => if ok st e.1 then st.advance sys e.1 e.2 else none) es st =
      some st') :
    Lib.Run (Lib.Guarded guard (ConcStepOk sys)) st (es.map fun e => .normal e.1) st' := by
  refine (Lib.run_of_exec h).map fun st e st' hstep => ?_
  by_cases hcheck : ok st e.1 = true
  · rw [if_pos hcheck] at hstep
    exact ⟨hok st e.1 hcheck, advance_sound hstep⟩
  · rw [if_neg hcheck] at hstep
    cases hstep

/-- The pool with two blocks in each segment, before the first call of one of
two threads. -/
def twoBlockStart : ConcState rangeContext Bool where
  world := emptyWorld
  pool := twoBlockPool
  mutex := none
  pc := fun _ => .idle
  live := []

/-- Thread `t` takes `n` steps; it meets the segments in the order `order`, and
gets the page `page` if it adds a segment. -/
def advanceBy (t : Bool) (n : Nat) (order : List Nat) (page : Nat) :
    List (Bool × Choice rangeContext) :=
  List.replicate n (t, .go order (grantAt (4096 * page)) false)

/-- The threads `false`, `true` and `false` allocate one block each; the third
call adds a second segment. -/
def threeAllocations : List (Bool × Choice rangeContext) :=
  (false, .allocate) :: advanceBy false 9 [] 1 ++
    (true, .allocate) :: advanceBy true 2 [1] 1 ++
    (false, .allocate) :: advanceBy false 11 [1] 2

theorem twoBlockStart_init : twoBlockStart.Init twoBlockPool.toPoolParams :=
  ⟨rfl, rfl, fun _ => rfl, rfl⟩

theorem reachable_of_schedule {es : List (Bool × Choice rangeContext)}
    {st : ConcState rangeContext Bool}
    (h : Lib.exec (fun st e => ConcState.advance stubSystem st e.1 e.2) es twoBlockStart =
      some st) :
    Lib.Reachable (ConcState.Init twoBlockPool.toPoolParams) (ConcStepOk stubSystem) st :=
  ⟨twoBlockStart, _, twoBlockStart_init, run_of_schedule h⟩

end HwMalloc
