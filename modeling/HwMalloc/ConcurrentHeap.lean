import HwMalloc.ConcurrentInvariant
import HwMalloc.HeapRuns

/-!
# HwMalloc.ConcurrentHeap

Any number of threads in `heap::allocate` and `heap::free`.

A thread is either between its calls, or on the way to a pool, or in a call of a
pool:

* **On the way.** Up to `m_max_size` no shared data is involved; above, the way leads
  through the mutex of the heap, under which `m_huge_heaps` is searched and extended.
  A call of `free` has no way to go, as the segment of the block knows its pool.
* **In a pool.** The steps are those of `HwMalloc.Concurrent`: `view` is what such a
  step sees of the heap, and `put` is the heap after it. Every pool has a mutex of its
  own, so that calls in different pools never wait for each other.

Nothing here repeats the code of a pool, and what was proved of one pool is used
through `view`.
-/

namespace HwMalloc

variable {C : Context} {Tid : Type}

/-- Where a thread stands in a call of the heap. -/
inductive HeapPc (C : Context)
  | idle
  /-- `allocate`: the construction of the lock guard. -/
  | hugeLock (q : Request)
  /-- `allocate`: `m_huge_heaps[s]`, created when it is missing. -/
  | hugeFind (q : Request)
  /-- `allocate`: the destruction of the lock guard. -/
  | hugeUnlock (q : Request)
  /-- `allocate`: about to call `fixed_size_heap::allocate`, in the heap `ref`. -/
  | dispatch (q : Request) (ref : HeapRef)
  /-- In a call of the pool `id`. -/
  | inPool (id : PoolId) (x : Pc C)

namespace HeapPc

/-- Where the thread stands in the pool `id`. -/
def within (id : PoolId) : HeapPc C → Pc C
  | inPool id' x => if id' = id then x else .idle
  | _ => .idle

/-- In the pool `id`; a call of a pool that ends is the end of the call. -/
def ofPool (id : PoolId) : Pc C → HeapPc C
  | .idle => idle
  | x => inPool id x

/-- Between the acquisition of the mutex of the heap and its release. -/
def Critical : HeapPc C → Prop
  | hugeFind _ | hugeUnlock _ => True
  | _ => False

@[simp] theorem within_ofPool (id : PoolId) (x : Pc C) : (ofPool id x).within id = x := by
  cases x <;> simp [ofPool, within]

theorem within_ofPool_ne {id id' : PoolId} (h : id' ≠ id) (x : Pc C) :
    (ofPool id x).within id' = .idle := by
  cases x <;> simp [ofPool, within, h.symm]

theorem not_critical_ofPool (id : PoolId) (x : Pc C) : ¬(ofPool id x).Critical := by
  cases x <;> simp [ofPool, Critical]

end HeapPc

/-- The shared data, the threads, and the blocks the clients hold. -/
structure ConcHeap (C : Context) (Tid : Type) extends HeapState C where
  /-- `m_mutex` of each pool. -/
  mutexes : PoolId → Option Tid
  /-- `m_mutex` of the heap. -/
  mutex : Option Tid
  pc : Tid → HeapPc C

/-- The thread that takes the step. -/
def Label.thread : Label Tid → Tid
  | normal t | throws t => t

/-- The sizes that `heap::allocate` serves from `m_huge_heaps`. -/
def Heap.IsHuge (h : Heap) (size : Nat) : Prop := h.config.tinyLimit < size ∧ h.maxSize < size

instance (h : Heap) (size : Nat) : Decidable (h.IsHuge size) :=
  inferInstanceAs (Decidable (_ ∧ _))

namespace ConcHeap

/-- What a call of the pool `id` sees of the heap. -/
def view (st : ConcHeap C Tid) (id : PoolId) (params : PoolParams) : ConcState C Tid where
  world := st.world
  pool := st.poolAt id params
  mutex := st.mutexes id
  pc := fun t => (st.pc t).within id
  live := st.live id

variable [DecidableEq Tid]

/-- Thread `t` moves to `x`. -/
def setPc (st : ConcHeap C Tid) (t : Tid) (x : HeapPc C) : ConcHeap C Tid :=
  { st with pc := Function.update st.pc t x }

/-- The heap after a step of thread `t` in the pool `id`. -/
def put (st : ConcHeap C Tid) (id : PoolId) (t : Tid) (st₁ : ConcState C Tid) :
    ConcHeap C Tid where
  heap := st.heap
  world := st₁.world
  data := Function.update st.data id ⟨st₁.pool.freeStack, st₁.pool.segments⟩
  live := Function.update st.live id st₁.live
  mutexes := Function.update st.mutexes id st₁.mutex
  mutex := st.mutex
  pc := Function.update st.pc t (.ofPool id (st₁.pc t))

end ConcHeap

variable [DecidableEq Tid]

/-- One step of one thread. -/
inductive ConcHeapStep (sys : System) : ConcHeap C Tid → Label Tid → ConcHeap C Tid → Prop
  /-- A client calls `allocate` with a request that finds a pool. -/
  | callAllocate {st : ConcHeap C Tid} {t : Tid} {q : Request} :
      st.pc t = .idle → (st.heap.route q).isSome →
      ConcHeapStep sys st (.normal t) (st.setPc t
        (if st.heap.IsHuge q.size then .hugeLock q else .dispatch q (st.heap.select q.size).2))
  | hugeLock {st : ConcHeap C Tid} {t : Tid} {q : Request} :
      st.pc t = .hugeLock q → st.mutex = none →
      ConcHeapStep sys st (.normal t) ({ st with mutex := some t }.setPc t (.hugeFind q))
  | hugeFind {st : ConcHeap C Tid} {t : Tid} {q : Request} :
      st.pc t = .hugeFind q →
      ConcHeapStep sys st (.normal t)
        ({ st with heap := st.heap.hugeEntry (roundToPowOf2 q.size) }.setPc t (.hugeUnlock q))
  | hugeUnlock {st : ConcHeap C Tid} {t : Tid} {q : Request} :
      st.pc t = .hugeUnlock q →
      ConcHeapStep sys st (.normal t)
        ({ st with mutex := none }.setPc t (.dispatch q (.huge (roundToPowOf2 q.size))))
  /-- `fixed_size_heap::allocate` calls `allocate` of one of its pools. -/
  | dispatch {st : ConcHeap C Tid} {t : Tid} {q : Request} {ref : HeapRef} {slot : Bool × Nat} :
      st.pc t = .dispatch q ref →
      poolSlot st.heap.topo q.localNode q.numaNode q.deviceId = some slot →
      (st.heap.params? ⟨ref, slot.1, slot.2⟩).isSome →
      ConcHeapStep sys st (.normal t) (st.setPc t (.inPool ⟨ref, slot.1, slot.2⟩ .allocPop))
  /-- A client calls `free` for a block of a segment that it, or another client,
  holds: the segment knows its pool. -/
  | callFree {st : ConcHeap C Tid} {t : Tid} {id : PoolId} {b : Block C} :
      st.pc t = .idle → b ∈ st.live id → b.segment ≠ 0 →
      ConcHeapStep sys st (.normal t)
        ({ st with live := Function.update st.live id ((st.live id).erase b) }.setPc t
          (.inPool (st.world.segmentAt b.segment).pool (.freePush b)))
  /-- A step in a call of a pool. -/
  | inPool {st : ConcHeap C Tid} {l : Label Tid} {id : PoolId} {x : Pc C} {params : PoolParams}
      {st₁ : ConcState C Tid} :
      st.pc l.thread = .inPool id x → x ≠ .idle → st.heap.params? id = some params →
      ConcStep sys (st.view id params) l st₁ →
      ConcHeapStep sys st l (st.put id l.thread st₁)

/-- The steps without exceptions. -/
def ConcHeapStepOk (sys : System) : ConcHeap C Tid → Label Tid → ConcHeap C Tid → Prop :=
  Lib.Guarded (fun _ l => ∃ t, l = .normal t) (ConcHeapStep sys)

/-- A heap that was just constructed, and no call in progress. -/
structure ConcHeap.Init (sys : System) (c : HeapConfig) (st : ConcHeap C Tid) : Prop
    extends st.toHeapState.Init sys c where
  mutexes : ∀ id, st.mutexes id = none
  mutex : st.mutex = none
  pc : ∀ t, st.pc t = .idle

/-! ### Executing a schedule

As in `HwMalloc.Concurrent`, with the choices of the calls in the pools among those of
the heap. -/

/-- What the environment decides about the next step of a thread. -/
inductive HeapChoice (C : Context)
  | allocate (q : Request)
  | free (id : PoolId) (b : Block C)
  | go (c : Choice C)

/-- The next step of thread `t`. -/
def ConcHeap.advance (sys : System) (st : ConcHeap C Tid) (t : Tid) :
    HeapChoice C → Option (ConcHeap C Tid)
  | .allocate q =>
    match st.pc t with
    | .idle =>
      if (st.heap.route q).isSome then
        some (st.setPc t
          (if st.heap.IsHuge q.size then .hugeLock q else .dispatch q (st.heap.select q.size).2))
      else none
    | _ => none
  | .free id b =>
    match st.pc t with
    | .idle =>
      if b ∈ st.live id ∧ b.segment ≠ 0 then
        some ({ st with live := Function.update st.live id ((st.live id).erase b) }.setPc t
          (.inPool (st.world.segmentAt b.segment).pool (.freePush b)))
      else none
    | _ => none
  | .go c =>
    match st.pc t with
    | .idle | .inPool _ .idle => none
    | .hugeLock q =>
      match st.mutex with
      | none => some ({ st with mutex := some t }.setPc t (.hugeFind q))
      | some _ => none
    | .hugeFind q =>
      some ({ st with heap := st.heap.hugeEntry (roundToPowOf2 q.size) }.setPc t (.hugeUnlock q))
    | .hugeUnlock q =>
      some ({ st with mutex := none }.setPc t (.dispatch q (.huge (roundToPowOf2 q.size))))
    | .dispatch q ref =>
      match poolSlot st.heap.topo q.localNode q.numaNode q.deviceId with
      | some slot =>
        if (st.heap.params? ⟨ref, slot.1, slot.2⟩).isSome then
          some (st.setPc t (.inPool ⟨ref, slot.1, slot.2⟩ .allocPop))
        else none
      | none => none
    | .inPool id _ =>
      match st.heap.params? id with
      | some params => ((st.view id params).advance sys t c).map (st.put id t)
      | none => none

/-- What `advance` does is a step without exception. -/
theorem ConcHeap.advance_sound {sys : System} {st st' : ConcHeap C Tid} {t : Tid}
    {c : HeapChoice C} (h : st.advance sys t c = some st') :
    ConcHeapStepOk sys st (.normal t) st' := by
  refine ⟨⟨t, rfl⟩, ?_⟩
  cases c with
  | allocate q =>
    cases hx : st.pc t <;> simp only [advance, hx, reduceCtorEq] at h
    split at h
    · next hroute =>
      cases h
      exact .callAllocate hx hroute
    · cases h
  | free id b =>
    cases hx : st.pc t <;> simp only [advance, hx, reduceCtorEq] at h
    split at h
    · next hb =>
      cases h
      exact .callFree hx hb.1 hb.2
    · cases h
  | go c =>
    rw [advance.eq_def] at h
    dsimp only at h
    split at h
    · cases h
    · cases h
    · next q hx =>
      cases hm : st.mutex <;> rw [hm] at h <;> cases h
      exact .hugeLock hx hm
    · next q hx => cases h; exact .hugeFind hx
    · next q hx => cases h; exact .hugeUnlock hx
    · next q ref hx =>
      cases hslot : poolSlot st.heap.topo q.localNode q.numaNode q.deviceId with
      | none => rw [hslot] at h; cases h
      | some slot =>
        rw [hslot] at h
        dsimp only at h
        split at h
        · next hsome =>
          cases h
          exact .dispatch hx hslot hsome
        · cases h
    · next id x hidle hx =>
      cases hparams : st.heap.params? id with
      | none => rw [hparams] at h; cases h
      | some params =>
        rw [hparams] at h
        obtain ⟨st₁, hst₁, rfl⟩ := Option.map_eq_some_iff.mp h
        exact .inPool hx hidle hparams (HwMalloc.advance_sound hst₁).2

/-- A schedule that can be executed is a run without exceptions. -/
theorem heapRun_of_schedule {sys : System} {st st' : ConcHeap C Tid}
    {es : List (Tid × HeapChoice C)}
    (h : Lib.exec (fun st e => st.advance sys e.1 e.2) es st = some st') :
    Lib.Run (ConcHeapStepOk sys) st (es.map fun e => .normal e.1) st' :=
  (Lib.run_of_exec h).map fun _ _ _ => ConcHeap.advance_sound

end HwMalloc
