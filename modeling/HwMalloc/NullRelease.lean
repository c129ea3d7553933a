import HwMalloc.LiveRanges

/-!
# HwMalloc.NullRelease

The fancy pointers, and the release of a null pointer.

A pointer is null when its `m_ptr` is, but `release` looks at `m_segment` and
`m_user_allocation`. The constructors that make a null pointer leave all three null;
the assignment of `nullptr` writes `m_ptr` only. So the release of a null pointer does
nothing exactly when the pointer was not obtained from `allocate`
(`nullRelease_unchanged_iff`).

A history is the way in which a client came to its pointer: how it was made, and the
copies, conversions and assignments after that. What `release` looks at depends on the
start of the history only (`PtrHistory.origin`). In a run that releases null pointers
of the harmless kind only, no block with a null `m_ptr` gets into a stack, so
`allocate` never returns one. In the last run of this module, a pointer of the other
kind does get there, and a later call of `allocate` returns null.
-/

namespace HwMalloc

variable {C : Context}

/-! ### The pointers

The members and functions that have to do with null; the arithmetic is in
`HwMalloc.PtrArithmetic`. -/

/-- `hw_void_ptr`. The version for `void const*` has the same member. -/
structure HwVoidPtr (C : Context) where
  data : Block C

/-- `hw_ptr`. -/
structure HwPtr (C : Context) where
  ptr : HwVoidPtr C

namespace HwVoidPtr

/-- The default constructor; `h` is the value that `m_handle` gets. -/
def default (h : C.Handle) : HwVoidPtr C :=
  ⟨{ segment := 0, userAllocation := 0, ptr := 0, handle := h }⟩

/-- `hw_void_ptr(nullptr)`, which initializes the members by default too. -/
def ofNullptr (h : C.Handle) : HwVoidPtr C :=
  ⟨{ segment := 0, userAllocation := 0, ptr := 0, handle := h }⟩

/-- `operator=(nullptr)`. -/
def assignNullptr (p : HwVoidPtr C) : HwVoidPtr C := ⟨{ p.data with ptr := 0 }⟩

/-- `p == nullptr`: the comparison looks at `m_ptr` only. -/
def isNull (p : HwVoidPtr C) : Bool := p.data.ptr == 0

/-- `operator hw_ptr<T, Block>`. -/
def toHwPtr (p : HwVoidPtr C) : HwPtr C := ⟨p⟩

/-- `hw_void_ptr::release`. -/
def release (p : HwVoidPtr C) (st : HeapState C) : Option (HeapState C) := st.release p.data

end HwVoidPtr

/-- `operator hw_void_ptr`. -/
def HwPtr.toHwVoidPtr (p : HwPtr C) : HwVoidPtr C := p.ptr

/-- `hw_ptr::operator=(nullptr)`. -/
def HwPtr.assignNullptr (p : HwPtr C) : HwPtr C := ⟨p.ptr.assignNullptr⟩

/-- `hw_ptr::release`. -/
def HwPtr.release (p : HwPtr C) (st : HeapState C) : Option (HeapState C) :=
  st.release p.ptr.data

/-- `heap::free`. -/
def HeapState.free (p : HwVoidPtr C) (st : HeapState C) : Option (HeapState C) :=
  st.release p.data

/-- `allocator::deallocate`, which does not read the size. -/
def HeapState.deallocate (p : HwPtr C) (_n : Nat) (st : HeapState C) : Option (HeapState C) :=
  st.free p.toHwVoidPtr

/-! ### How a client came to a pointer -/

/-- The history of a pointer. The conversions copy the block, so one constructor
stands for all of them. -/
inductive PtrHistory (C : Context)
  | default (h : C.Handle)
  | ofNullptr (h : C.Handle)
  /-- `allocate` returned the block. -/
  | allocated (b : Block C)
  | copy (p : PtrHistory C)
  | convert (p : PtrHistory C)
  | assignNullptr (p : PtrHistory C)
  /-- The assignment to a `hw_ptr`. -/
  | assignNullptrTyped (p : PtrHistory C)

namespace PtrHistory

/-- The pointer at the end of the history. -/
def eval : PtrHistory C → HwVoidPtr C
  | default h => .default h
  | ofNullptr h => .ofNullptr h
  | allocated b => ⟨b⟩
  | copy p => p.eval
  | convert p => p.eval.toHwPtr.toHwVoidPtr
  | assignNullptr p => p.eval.assignNullptr
  | assignNullptrTyped p => p.eval.toHwPtr.assignNullptr.toHwVoidPtr

/-- The block that `allocate` returned, if the history starts there. -/
def origin : PtrHistory C → Option (Block C)
  | default _ => none
  | ofNullptr _ => none
  | allocated b => some b
  | copy p => p.origin
  | convert p => p.origin
  | assignNullptr p => p.origin
  | assignNullptrTyped p => p.origin

/-- A pointer that does not come from `allocate` is null in all that `release`
looks at. -/
theorem eval_of_origin_none {p : PtrHistory C} (h : p.origin = none) :
    p.eval.data.segment = 0 ∧ p.eval.data.userAllocation = 0 ∧ p.eval.data.ptr = 0 := by
  induction p with
  | default h' => exact ⟨rfl, rfl, rfl⟩
  | ofNullptr h' => exact ⟨rfl, rfl, rfl⟩
  | allocated b => cases h
  | copy p ih => exact ih h
  | convert p ih => exact ih h
  | assignNullptr p ih => exact ⟨(ih h).1, (ih h).2.1, rfl⟩
  | assignNullptrTyped p ih => exact ⟨(ih h).1, (ih h).2.1, rfl⟩

/-- A pointer from `allocate` keeps the segment of its block, also when it is
null. -/
theorem eval_segment {p : PtrHistory C} {b : Block C} (h : p.origin = some b) :
    p.eval.data.segment = b.segment := by
  induction p with
  | default h' => cases h
  | ofNullptr h' => cases h
  | allocated b' =>
    cases h
    rfl
  | copy p ih => exact ih h
  | convert p ih => exact ih h
  | assignNullptr p ih => exact ih h
  | assignNullptrTyped p ih => exact ih h

end PtrHistory

/-! ### One release

The four ways end in `block_t::release` of the same block. -/

/-- The ways to release a pointer. -/
inductive ReleaseCall
  | free
  | deallocate (n : Nat)
  | release
  /-- `release` of a `hw_ptr`. -/
  | releaseTyped
  deriving Repr, DecidableEq

/-- The call. -/
def ReleaseCall.run (call : ReleaseCall) (p : HwVoidPtr C) (st : HeapState C) :
    Option (HeapState C) :=
  match call with
  | .free => st.free p
  | .deallocate n => st.deallocate p.toHwPtr n
  | .release => p.release st
  | .releaseTyped => p.toHwPtr.release st

theorem ReleaseCall.run_eq (call : ReleaseCall) (p : HwVoidPtr C) (st : HeapState C) :
    call.run p st = st.release p.data := by
  cases call <;> rfl

/-- Without a segment there is nothing to release to. -/
theorem release_of_segment_eq_zero {b : Block C} (h : b.segment = 0) (st : HeapState C) :
    st.release b = some st := by
  rw [HeapState.release, if_neg (not_not.mpr h)]

/-- With a segment, a release that returns has changed the stacks. -/
theorem release_ne_self {b : Block C} (h : b.segment ≠ 0) (st : HeapState C) :
    st.release b ≠ some st := by
  intro hrelease
  rw [HeapState.release, if_pos h, HeapState.releaseFromSegment] at hrelease
  obtain ⟨params, -, heq⟩ := Option.map_eq_some_iff.mp hrelease
  have hworld : ((st.poolAt _ params).free b st.world).1 = st.world :=
    congrArg HeapState.world heq
  have hpushed : segmentFree b st.world ≠ st.world := fun hself => by
    have hstack := congrArg (fun w : World C => (w.segmentAt b.segment).freedStack) hself
    rw [segmentFree_segmentAt_self] at hstack
    exact List.cons_ne_self _ _ hstack
  rcases free_cases b st.world (st.poolAt _ params) with ⟨hfree, -⟩ | ⟨hfree, -⟩
  · rw [hfree] at hworld
    exact hpushed hworld
  · by_cases hs : b.segment ∈ (st.poolAt (st.world.segmentAt b.segment).pool params).segments
    · -- The segment has gone.
      have hdata : Function.update st.data _ _ _ = st.data (st.world.segmentAt b.segment).pool :=
        congrFun (congrArg HeapState.data heq) _
      rw [Function.update_self] at hdata
      have hsegs := congrArg PoolData.segments hdata
      rw [hfree, (eraseSegment_erased hs).pool] at hsegs
      exact List.erase_eq_self_iff.mp hsegs hs
    · rw [hfree, eraseSegment_of_not_mem hs] at hworld
      exact hpushed hworld

/-! ### Runs -/

/-- A heap, and the blocks that its `allocate` has returned so far. -/
structure PtrState (C : Context) where
  heap : HeapState C
  returned : List (Block C)

/-- A call of a client. -/
inductive PtrOp (C : Context)
  | allocate (q : Request) (env : AllocEnv C) (fuel : Nat)
  | release (call : ReleaseCall) (p : PtrHistory C)

/-- One call that returns. A pointer that is not null is released by a client
that holds its block; a null pointer is released at any time. -/
def PtrState.step (sys : System) (st : PtrState C) : PtrOp C → Option (PtrState C)
  | .allocate q env fuel =>
    match st.heap.allocate sys env fuel q with
    | some (.ok b, id, heap) =>
      if env.order.Perm (st.heap.data id).segments then
        some ⟨heap.handOut id b, b :: st.returned⟩
      else none
    | _ => none
  | .release call p =>
    if ∀ b ∈ p.origin, b ∈ st.returned then
      if p.eval.isNull then
        (call.run p.eval st.heap).map fun heap => { st with heap := heap }
      else
        let id := (st.heap.world.segmentAt p.eval.data.segment).pool
        if p.eval.data ∈ st.heap.live id then
          (call.run p.eval st.heap).map fun heap =>
            { st with heap := heap.takeBack id p.eval.data }
        else none
    else none

/-- `PtrState.step` as a relation. -/
def PtrStep (sys : System) (st : PtrState C) (op : PtrOp C) (st' : PtrState C) : Prop :=
  st.step sys op = some st'

/-- A heap that was just constructed. -/
def PtrState.Init (sys : System) (c : HeapConfig) (st : PtrState C) : Prop :=
  st.heap.Init sys c ∧ st.returned = []

/-- No null pointer is released that comes from `allocate`, that is, one to which
`nullptr` was assigned. -/
def NotNulled (_ : PtrState C) : PtrOp C → Prop
  | .allocate _ _ _ => True
  | .release _ p => p.eval.isNull = true → p.origin = none

/-- What one call that returns can have done. -/
theorem ptrStep_cases {sys : System} {st st' : PtrState C} {op : PtrOp C}
    (h : PtrStep sys st op st') :
    (∃ q env fuel id b heap, op = .allocate q env fuel ∧
        st.heap.allocate sys env fuel q = some (.ok b, id, heap) ∧
        env.order.Perm (st.heap.data id).segments ∧
        st' = ⟨heap.handOut id b, b :: st.returned⟩) ∨
      (∃ call p heap, op = .release call p ∧ (∀ b ∈ p.origin, b ∈ st.returned) ∧
        p.eval.isNull = true ∧ st.heap.release p.eval.data = some heap ∧
        st' = { st with heap := heap }) ∨
      ∃ call p heap, op = .release call p ∧ p.eval.isNull = false ∧
        HeapStep sys st.heap (.free p.eval.data) heap ∧ st' = { st with heap := heap } := by
  rw [PtrStep, PtrState.step.eq_def] at h
  cases op with
  | allocate q env fuel =>
    left
    dsimp only at h
    split at h
    · next b id heap halloc =>
      split at h
      · next horder =>
        cases h
        exact ⟨q, env, fuel, id, b, heap, rfl, halloc, horder, rfl⟩
      · cases h
    · cases h
  | release call p =>
    right
    dsimp only at h
    rw [ReleaseCall.run_eq] at h
    split at h
    · next horigin =>
      split at h
      · next hnull =>
        left
        obtain ⟨heap, hrelease, heq⟩ := Option.map_eq_some_iff.mp h
        exact ⟨call, p, heap, rfl, horigin, hnull, hrelease, heq.symm⟩
      · next hnull =>
        right
        split at h
        · next hlive =>
          obtain ⟨heap, hrelease, heq⟩ := Option.map_eq_some_iff.mp h
          exact ⟨call, p, _, rfl, Bool.eq_false_iff.mpr hnull,
            heapStep_of_release hlive hrelease, heq.symm⟩
        · cases h
    · cases h

/-- The invariant of a heap, and what `allocate` has returned. -/
structure PtrInv (sys : System) (c : HeapConfig) (st : PtrState C) : Prop where
  heap : HeapInv sys c st.heap
  returned : ∀ b ∈ st.returned, b.segment ≠ 0 ∧ b.ptr ≠ 0

namespace PtrInv

variable {sys : System} {c : HeapConfig} {st st' : PtrState C}

theorem init (h : PtrState.Init sys c st) : PtrInv sys c st := by
  refine ⟨.init h.1, fun b hb => ?_⟩
  rw [h.2] at hb
  cases hb

/-- The release of a null pointer changes nothing exactly when the pointer does
not come from `allocate`. -/
theorem release_null_iff (h : PtrInv sys c st) {p : PtrHistory C}
    (horigin : ∀ b ∈ p.origin, b ∈ st.returned) :
    st.heap.release p.eval.data = some st.heap ↔ p.origin = none := by
  cases hp : p.origin with
  | none =>
    have hseg := (PtrHistory.eval_of_origin_none hp).1
    exact iff_of_true (release_of_segment_eq_zero hseg st.heap) rfl
  | some b =>
    have hseg : p.eval.data.segment ≠ 0 := by
      rw [PtrHistory.eval_segment hp]
      exact (h.returned b (horigin b hp)).1
    exact iff_of_false (release_ne_self hseg st.heap) fun hnone => nomatch hnone

theorem step {op : PtrOp C} (h : PtrInv sys c st) (hguard : NotNulled st op)
    (hstep : PtrStep sys st op st') : PtrInv sys c st' := by
  rcases ptrStep_cases hstep with
    ⟨q, env, fuel, id, b, heap, rfl, halloc, horder, rfl⟩ |
    ⟨call, p, heap, rfl, horigin, hnull, hrelease, rfl⟩ | ⟨call, p, heap, rfl, -, hfree, rfl⟩
  · -- A block that is handed out is a cell of its segment, whose memory is not at null.
    have hinv := h.heap.step (heapStep_of_allocate halloc horder)
    have hb := HeapState.mem_handOut_live heap id b
    exact ⟨hinv, List.forall_mem_cons.mpr
      ⟨⟨(hinv.live_segment hb).2.1, hinv.ptr_ne_zero_of_live hb⟩, h.returned⟩⟩
  · -- Such a release leaves the heap as it is.
    have hsame := (h.release_null_iff horigin).mpr (hguard hnull)
    obtain rfl := Option.some.inj (hrelease.symm.trans hsame)
    exact h
  · exact ⟨h.heap.step hfree, h.returned⟩

end PtrInv

/-- In every run that releases null pointers only if they do not come from
`allocate`: the release of a null pointer leaves the whole heap unchanged exactly
when the pointer is of this kind, and no block that `allocate` has returned is
null. -/
theorem nullRelease_unchanged_iff {sys : System} {c : HeapConfig} {st : PtrState C}
    (hreach : Lib.Reachable (PtrState.Init sys c) (Lib.Guarded NotNulled (PtrStep sys)) st) :
    (∀ (call : ReleaseCall) (p : PtrHistory C), (∀ b ∈ p.origin, b ∈ st.returned) →
        p.eval.isNull = true → (call.run p.eval st.heap = some st.heap ↔ p.origin = none)) ∧
      ∀ b ∈ st.returned, b.ptr ≠ 0 := by
  have hstep : ∀ (s : PtrState C) (op : PtrOp C) (s' : PtrState C), PtrInv sys c s →
      Lib.Guarded NotNulled (PtrStep sys) s op s' → PtrInv sys c s' :=
    fun _ _ _ h hguarded => h.step hguarded.1 hguarded.2
  have hinv : PtrInv sys c st := hreach.invariant (fun _ => PtrInv.init) hstep
  refine ⟨fun call p horigin _ => ?_, fun b hb => (hinv.returned b hb).2⟩
  rw [ReleaseCall.run_eq]
  exact hinv.release_null_iff horigin

/-! ### A run -/

/-- The calls of `allocate` of the run, on segments with two blocks of 64 bytes. -/
def allocate64 (order : List Nat) : PtrOp rangeContext :=
  .allocate { size := 64, numaNode := 0, localNode := 0 }
    { order := order, grow := fun _ => grantAt 4096 } 2

/-- The first block of the first segment. -/
def firstBlock : Block rangeContext where
  segment := 1
  userAllocation := 0
  ptr := 4096
  handle := (4096, 64)

def smallSegmentStart : PtrState rangeContext := ⟨smallSegmentHeap, []⟩

theorem smallSegmentStart_init : PtrState.Init smallPages smallSegmentConfig smallSegmentStart :=
  ⟨freshHeap_init _ _, rfl⟩

theorem nullRelease_unchanged_iff_allocate64 :
    ∃ st, PtrStep smallPages smallSegmentStart (allocate64 []) st ∧
      ((ReleaseCall.free).run (PtrHistory.ofNullptr (0, 0)).eval st.heap = some st.heap ↔
        (PtrHistory.ofNullptr (C := rangeContext) (0, 0)).origin = none) ∧
      ∀ b ∈ st.returned, b.ptr ≠ 0 := by
  obtain ⟨st, hstep⟩ : ∃ st, PtrStep smallPages smallSegmentStart (allocate64 []) st := ⟨_, rfl⟩
  have hinit : Lib.Reachable (PtrState.Init smallPages smallSegmentConfig)
      (Lib.Guarded NotNulled (PtrStep smallPages)) smallSegmentStart :=
    .of_init smallSegmentStart_init
  have hguarded : Lib.Guarded NotNulled (PtrStep smallPages) smallSegmentStart (allocate64 []) st :=
    ⟨trivial, hstep⟩
  obtain ⟨hnull, hreturned⟩ := nullRelease_unchanged_iff (hinit.tail hguarded)
  exact ⟨st, hstep, hnull .free (.ofNullptr (0, 0)) (fun b hb => nomatch hb) rfl, hreturned⟩

/-- A pointer to the first block, to which `nullptr` was assigned. -/
def nulledPointer : PtrHistory rangeContext := .assignNullptr (.allocated firstBlock)

/-- The first block is released through this pointer. -/
def nulledRelease : List (PtrOp rangeContext) :=
  [allocate64 [], .release .free nulledPointer, allocate64 [1], allocate64 [1]]

/-- The release changes the heap, and the third call of `allocate` returns a
block with a null `m_ptr`. -/
theorem nulledRelease_returns_null :
    (∃ st, PtrStep smallPages smallSegmentStart (allocate64 []) st ∧ firstBlock ∈ st.returned ∧
      nulledPointer.eval.isNull = true ∧ st.heap.free nulledPointer.eval ≠ some st.heap) ∧
      ∃ st, Lib.exec (fun st op => PtrState.step smallPages st op) nulledRelease
        smallSegmentStart = some st ∧ ∃ b ∈ st.returned, b.ptr = 0 :=
  ⟨⟨_, rfl, List.mem_cons_self, rfl, release_ne_self (by decide) _⟩,
    ⟨_, rfl, _, List.mem_cons_self, rfl⟩⟩

end HwMalloc
