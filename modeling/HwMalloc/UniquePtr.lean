import HwMalloc.MakeUnique

/-!
# HwMalloc.UniquePtr

`heap::make_unique` together with `heap_delete`: the objects in the blocks and the
`unique_ptr`s that own them, in runs in which new-expressions may throw: because a
constructor does, or because an array is longer than arrays may be.

* **Objects.** An object is a block and an index. A new-expression makes them one
  after the other, and an exception of the `n`-th constructor destroys the `n` before
  it (`constructIn`), so that it leaves either all or none (`HeapDelete.newIn_eq`). An
  array of more than `PTRDIFF_MAX` bytes is refused before the first constructor.
* **Destruction.** To destroy an object that is not there is undefined, and so is
  `none` here: that a `unique_ptr` can always be reset is part of what is proved.
* **Lost blocks.** `make_unique` allocates first and constructs then, with nothing
  that would catch the exception. The blocks behind which a new-expression has thrown
  are recorded in `lost`; to the pools they are held by a client who never returns
  them (`HeapState.leak`).

The runs are those in which `heap::allocate` itself does not throw; an exception in
`make_unique` is one of its new-expression.

The invariant is that of the heap in which the lost blocks are live as well
(`UniqueInv`). The account of a whole run, `unique_ptrs_accounted`, counts them: one
for each call in which the new-expression throws, and none for any other call.
-/

namespace HwMalloc

variable {C : Context} {E : Type}

/-! ### Objects in a block

The loops of the language and of `heap_delete`, over a list of the objects that are
alive. The order in the list is that of the construction, newest first, which is what
makes the reverse destruction undo it exactly. -/

/-- `heap_delete`: the scalar version, and the array version with its member. -/
inductive HeapDelete
  | scalar
  | array (size : Nat)
  deriving DecidableEq

/-- The number of objects that `heap_delete::operator()` destroys. -/
def HeapDelete.count : HeapDelete → Nat
  | scalar => 1
  | array size => size

/-- The first `n` objects of a block. -/
def elements (b : Block C) (n : Nat) : List (Block C × Nat) := (List.range n).map fun i => (b, i)

/-- The destruction of `n` objects of a block in the reverse order of their
construction. -/
def unwind (b : Block C) : Nat → List (Block C × Nat) → List (Block C × Nat)
  | 0, objects => objects
  | n + 1, objects => unwind b n (objects.erase (b, n))

/-- The loop of a new-expression: the constructors run one after the other, and an
exception destroys the objects before it. -/
def constructIn (ctor : Nat → Except E Unit) (b : Block C) :
    Nat → List (Block C × Nat) → Except E Unit × List (Block C × Nat)
  | 0, objects => (.ok (), objects)
  | n + 1, objects =>
    match constructIn ctor b n objects with
    | (.error e, objects) => (.error e, objects)
    | (.ok (), objects) =>
      match ctor n with
      | .error e => (.error e, unwind b n objects)
      | .ok () => (.ok (), (b, n) :: objects)

/-- How the new-expression of `make_unique` ends, for objects of `w` bytes. -/
def HeapDelete.new (w : Nat) (ctor : Nat → Except E Unit) :
    HeapDelete → Except (MakeUniqueError E) Unit
  | scalar => newObject ctor
  | array size => newArray w size ctor

/-- The new-expression, with the objects that it makes. An array that is too long is
refused before the first constructor. -/
def HeapDelete.newIn (w : Nat) (ctor : Nat → Except E Unit) (b : Block C) (d : HeapDelete)
    (objects : List (Block C × Nat)) :
    Except (MakeUniqueError E) Unit × List (Block C × Nat) :=
  match d with
  | scalar => (constructIn ctor b 1 objects).map (Except.mapError .constructor) id
  | array size =>
    if ptrdiffMax < w * size then (.error .badArrayNewLength, objects)
    else (constructIn ctor b size objects).map (Except.mapError .constructor) id

/-- The loop of `heap_delete`, from object `i` on. -/
def destroyElements (b : Block C) : Nat → Nat → List (Block C × Nat) →
    Option (List (Block C × Nat))
  | 0, _, objects => some objects
  | n + 1, i, objects =>
    if (b, i) ∈ objects then destroyElements b n (i + 1) (objects.erase (b, i)) else none

theorem elements_succ (b : Block C) (n : Nat) : elements b (n + 1) = elements b n ++ [(b, n)] := by
  rw [elements, List.range_succ, List.map_append]
  rfl

@[simp] theorem mem_elements {b b' : Block C} {n i : Nat} :
    (b', i) ∈ elements b n ↔ b' = b ∧ i < n := by
  simp only [elements, List.mem_map, List.mem_range, Prod.mk.injEq]
  exact ⟨fun ⟨_, hi, hb, heq⟩ => ⟨hb.symm, heq ▸ hi⟩, fun ⟨hb, hi⟩ => ⟨i, hi, hb.symm, rfl⟩⟩

theorem elements_nodup (b : Block C) (n : Nat) : (elements b n).Nodup :=
  List.nodup_range.map fun _ _ h => (Prod.mk.inj h).2

/-- Unwinding takes back what construction has added. -/
theorem unwind_elements (b : Block C) (objects : List (Block C × Nat)) :
    ∀ n, unwind b n ((elements b n).reverse ++ objects) = objects := by
  intro n
  induction n with
  | zero => rfl
  | succ n ih =>
    rw [elements_succ, List.reverse_append, unwind]
    simpa using ih

/-- If all constructors return, all objects are there. -/
theorem constructIn_ok {ctor : Nat → Except E Unit} {n : Nat} (b : Block C)
    (objects : List (Block C × Nat)) (h : constructElements ctor n = .ok ()) :
    constructIn ctor b n objects = (.ok (), (elements b n).reverse ++ objects) := by
  induction n with
  | zero => rfl
  | succ n ih =>
    rw [constructElements] at h
    cases hn : constructElements ctor n with
    | error e => rw [hn] at h; cases h
    | ok u =>
      rw [hn] at h
      rw [constructIn, ih hn]
      dsimp only
      rw [show ctor n = .ok () from h, elements_succ, List.reverse_append]
      rfl

/-- If one throws, none is. -/
theorem constructIn_error {ctor : Nat → Except E Unit} {n : Nat} {e : E} (b : Block C)
    (objects : List (Block C × Nat)) (h : constructElements ctor n = .error e) :
    constructIn ctor b n objects = (.error e, objects) := by
  induction n with
  | zero => cases h
  | succ n ih =>
    rw [constructElements] at h
    cases hn : constructElements ctor n with
    | error e' =>
      -- An earlier constructor has thrown.
      rw [hn] at h
      cases h
      rw [constructIn, ih hn]
    | ok u =>
      -- This is the first one that throws, and the objects before it are all there.
      rw [hn] at h
      rw [constructIn, constructIn_ok b objects hn]
      dsimp only
      rw [show ctor n = .error e from h]
      dsimp only
      rw [unwind_elements]

/-- If the new-expression returns, all objects are there, and else none is. -/
theorem HeapDelete.newIn_eq (w : Nat) (ctor : Nat → Except E Unit) (b : Block C) (d : HeapDelete)
    (objects : List (Block C × Nat)) :
    d.newIn w ctor b objects = (d.new w ctor,
      if (d.new w ctor).isOk then (elements b d.count).reverse ++ objects else objects) := by
  have hloop : ∀ n, (constructIn ctor b n objects).map (Except.mapError MakeUniqueError.constructor)
      id = ((constructElements ctor n).mapError .constructor,
        if ((constructElements ctor n).mapError MakeUniqueError.constructor).isOk then
          (elements b n).reverse ++ objects else objects) := by
    intro n
    cases hctor : constructElements ctor n with
    | ok u =>
      rw [constructIn_ok b objects hctor]
      rfl
    | error e =>
      rw [constructIn_error b objects hctor]
      rfl
  cases d with
  | scalar => exact hloop 1
  | array size =>
    rw [newIn, new, newArray]
    split
    · rfl
    · exact hloop size

/-- The loop destroys the objects of the block if they are there, and no others. -/
theorem destroyElements_perm (b : Block C) (n : Nat) :
    ∀ {i : Nat} {objects rest : List (Block C × Nat)},
      objects.Perm ((List.range' i n).map (fun j => (b, j)) ++ rest) →
        ∃ objects', destroyElements b n i objects = some objects' ∧ objects'.Perm rest := by
  induction n with
  | zero => exact fun h => ⟨_, rfl, h⟩
  | succ n ih =>
    intro i objects rest h
    rw [List.range'_succ, List.map_cons, List.cons_append] at h
    have hmem : (b, i) ∈ objects := h.mem_iff.mpr List.mem_cons_self
    have hrest := h.erase (b, i)
    rw [List.erase_cons_head] at hrest
    rw [destroyElements, if_pos hmem]
    exact ih hrest

/-! ### The state

A call that makes objects is a call of the heap with a new-expression after it; the
reset of a `unique_ptr` is its deleter with a `free` after it. Clients may allocate and
free on their own beside this, but not the blocks that `unique_ptr`s own. -/

/-- A `unique_ptr` that is not empty: the block that its pointer holds, and its
deleter. -/
structure UniquePtr (C : Context) where
  block : Block C
  deleter : HeapDelete
  deriving DecidableEq

/-- The objects that it owns. -/
def UniquePtr.elements (u : UniquePtr C) : List (Block C × Nat) :=
  HwMalloc.elements u.block u.deleter.count

/-- The block that a call gives back. -/
def HeapOp.returned : HeapOp C → List (Block C)
  | allocate _ _ _ => []
  | free b => [b]

/-- A heap, the `unique_ptr`s, and the objects that are alive. -/
structure UniqueState (C : Context) extends HeapState C where
  ptrs : List (UniquePtr C)
  objects : List (Block C × Nat)
  /-- The blocks behind which a new-expression has thrown, under the pools they came
  from. -/
  lost : List (PoolId × Block C)

/-- A call of a client. -/
inductive UniqueOp (C : Context) (E : Type)
  /-- `heap::allocate`, or `heap::free`; the blocks of the `unique_ptr`s are left to
  these. -/
  | client (op : HeapOp C)
  | makeUnique (w numaNode localNode : Nat) (ctor : Nat → Except E Unit) (env : AllocEnv C)
      (fuel : Nat)
  | makeUniqueArray (w size numaNode localNode : Nat) (ctor : Nat → Except E Unit)
      (env : AllocEnv C) (fuel : Nat)
  /-- The reset of a `unique_ptr`, or its destruction. -/
  | reset (u : UniquePtr C)

/-- Whether the new-expression of the call throws. -/
def UniqueOp.throws : UniqueOp C E → Bool
  | client _ => false
  | makeUnique _ _ _ ctor _ _ => !(newObject ctor).isOk
  | makeUniqueArray w size _ _ ctor _ _ => !(newArray w size ctor).isOk
  | reset _ => false

namespace UniqueState

/-- What both versions of `heap::make_unique` do, for objects of `w` bytes. -/
def make (sys : System) (env : AllocEnv C) (fuel : Nat) (q : Request) (w : Nat) (d : HeapDelete)
    (ctor : Nat → Except E Unit) (s : UniqueState C) : Option (UniqueState C) :=
  match s.allocate sys env fuel q with
  | some (.ok b, id, st) =>
    if env.order.Perm (s.data id).segments then
      match d.newIn w ctor b s.objects with
      | (.ok (), objects) =>
        some { s with
          toHeapState := st.handOut id b
          ptrs := ⟨b, d⟩ :: s.ptrs
          objects := objects }
      | (.error _, objects) =>
        some { s with
          toHeapState := st
          objects := objects
          lost := s.lost ++ [(id, b)] }
    else none
  | _ => none

/-- `heap_delete::operator()`. -/
def heapDelete (u : UniquePtr C) (s : UniqueState C) : Option (UniqueState C) :=
  (destroyElements u.block u.deleter.count 0 s.objects).bind fun objects =>
    (s.release u.block).map fun st =>
      { s with
        toHeapState := st.takeBack (s.world.segmentAt u.block.segment).pool u.block
        objects := objects }

/-- `unique_ptr::reset`: the deleter is called for a pointer that is not null. -/
def reset (u : UniquePtr C) (s : UniqueState C) : Option (UniqueState C) :=
  if u ∈ s.ptrs then
    if u.block.ptr = 0 then some { s with ptrs := s.ptrs.erase u }
    else { s with ptrs := s.ptrs.erase u }.heapDelete u
  else none

def step (sys : System) (s : UniqueState C) : UniqueOp C E → Option (UniqueState C)
  | .client op =>
    if ∀ b ∈ op.returned, b ∉ s.ptrs.map UniquePtr.block then
      (s.toHeapState.step sys op).map fun st => { s with toHeapState := st }
    else none
  | .makeUnique w numaNode localNode ctor env fuel =>
    s.make sys env fuel { size := w, numaNode := numaNode, localNode := localNode } w .scalar ctor
  | .makeUniqueArray w size numaNode localNode ctor env fuel =>
    s.make sys env fuel (makeUniqueRequest w size numaNode localNode) w (.array size) ctor
  | .reset u => s.reset u

end UniqueState

/-- What a call of `make_unique` has done that has got its block. -/
theorem UniqueState.make_cases {sys : System} {env : AllocEnv C} {fuel w : Nat} {q : Request}
    {d : HeapDelete} {ctor : Nat → Except E Unit} {s s' : UniqueState C}
    (h : s.make sys env fuel q w d ctor = some s') :
    ∃ b id st, s.allocate sys env fuel q = some (.ok b, id, st) ∧
      env.order.Perm (s.data id).segments ∧
      (d.new w ctor = .ok () ∧ s' = { s with
          toHeapState := st.handOut id b
          ptrs := ⟨b, d⟩ :: s.ptrs
          objects := (elements b d.count).reverse ++ s.objects } ∨
        ∃ x, d.new w ctor = .error x ∧
          s' = { s with toHeapState := st, lost := s.lost ++ [(id, b)] }) := by
  rw [make] at h
  split at h
  · next b id st halloc =>
    split at h
    · next horder =>
      refine ⟨b, id, st, halloc, horder, ?_⟩
      rw [HeapDelete.newIn_eq] at h
      cases hnew : d.new w ctor with
      | ok u =>
        rw [hnew] at h
        exact Or.inl ⟨rfl, (Option.some.inj h).symm⟩
      | error x =>
        rw [hnew] at h
        exact Or.inr ⟨x, rfl, (Option.some.inj h).symm⟩
    · cases h
  · cases h

/-- To the heap, this is the `make_unique` that knows of no objects. -/
theorem UniqueState.make_heap {sys : System} {env : AllocEnv C} {fuel w : Nat} {q : Request}
    {d : HeapDelete} {ctor : Nat → Except E Unit} {s s' : UniqueState C}
    (h : s.make sys env fuel q w d ctor = some s') :
    ∃ res, s.makeElements sys env fuel q (d.new w ctor) = some (res, s'.toHeapState) := by
  obtain ⟨b, id, st, halloc, -, ⟨hnew, rfl⟩ | ⟨x, hnew, rfl⟩⟩ := make_cases h
  all_goals
    rw [HeapState.makeElements, halloc, hnew]
    exact ⟨_, rfl⟩

/-- `UniqueState.step` as a relation. -/
def UniqueStep (sys : System) (s : UniqueState C) (op : UniqueOp C E) (s' : UniqueState C) : Prop :=
  s.step sys op = some s'

structure UniqueState.Init (sys : System) (c : HeapConfig) (s : UniqueState C) : Prop
    extends s.toHeapState.Init sys c where
  ptrs : s.ptrs = []
  objects : s.objects = []
  lost : s.lost = []

/-! ### Blocks that are lost

`allocate` does not look at the blocks that are live, so that it does the same in the
heap where the lost ones are. A `free` does not either, except for the block that it
returns, which is not lost. -/

namespace HeapState

/-- The same state, if some client held the blocks `lost` as well. -/
def withLost (lost : List (PoolId × Block C)) (st : HeapState C) : HeapState C :=
  lost.foldl (fun st x => st.leak x.1 x.2) st

theorem withLost_append (lost lost' : List (PoolId × Block C)) (st : HeapState C) :
    st.withLost (lost ++ lost') = (st.withLost lost).withLost lost' :=
  List.foldl_append ..

@[simp] theorem withLost_data (lost : List (PoolId × Block C)) :
    ∀ st : HeapState C, (st.withLost lost).data = st.data := by
  induction lost with
  | nil => exact fun _ => rfl
  | cons x lost ih => exact fun st => ih (st.leak x.1 x.2)

@[simp] theorem withLost_world (lost : List (PoolId × Block C)) :
    ∀ st : HeapState C, (st.withLost lost).world = st.world := by
  induction lost with
  | nil => exact fun _ => rfl
  | cons x lost ih => exact fun st => ih (st.leak x.1 x.2)

@[simp] theorem withLost_heap (lost : List (PoolId × Block C)) :
    ∀ st : HeapState C, (st.withLost lost).heap = st.heap := by
  induction lost with
  | nil => exact fun _ => rfl
  | cons x lost ih => exact fun st => ih (st.leak x.1 x.2)

/-- The lost blocks of one pool. -/
def lostOf (lost : List (PoolId × Block C)) (id : PoolId) : List (Block C) :=
  lost.filterMap fun x => if x.1 = id then some x.2 else none

theorem lostOf_cons (x : PoolId × Block C) (lost : List (PoolId × Block C)) (id : PoolId) :
    lostOf (x :: lost) id = (if x.1 = id then [x.2] else []) ++ lostOf lost id := by
  by_cases hid : x.1 = id <;> simp [lostOf, hid]

theorem mem_lostOf {lost : List (PoolId × Block C)} {id : PoolId} {b : Block C} :
    b ∈ lostOf lost id ↔ (id, b) ∈ lost := by
  rw [lostOf, List.mem_filterMap]
  constructor
  · rintro ⟨⟨id', b'⟩, hmem, heq⟩
    split at heq
    · next hid =>
      cases heq
      exact (show id' = id from hid) ▸ hmem
    · cases heq
  · exact fun hmem => ⟨(id, b), hmem, if_pos rfl⟩

theorem withLost_live (lost : List (PoolId × Block C)) (id : PoolId) :
    ∀ st : HeapState C, (st.withLost lost).live id = st.live id ++ lostOf lost id := by
  induction lost with
  | nil => exact fun st => (List.append_nil _).symm
  | cons x lost ih =>
    intro st
    rw [lostOf_cons]
    refine (ih (st.leak x.1 x.2)).trans ?_
    by_cases hid : x.1 = id
    · subst hid
      rw [leak_live_self, if_pos rfl]
      exact List.append_assoc ..
    · rw [if_neg hid]
      show Function.update st.live x.1 _ id ++ _ = _
      rw [Function.update_of_ne (Ne.symm hid)]
      rfl

theorem mem_withLost_live {lost : List (PoolId × Block C)} {id : PoolId} {b : Block C}
    {st : HeapState C} : b ∈ (st.withLost lost).live id ↔ b ∈ st.live id ∨ (id, b) ∈ lost := by
  rw [withLost_live, List.mem_append, mem_lostOf]

theorem allocate_live {sys : System} {env : AllocEnv C} {fuel : Nat} {q : Request}
    {st st' : HeapState C} {res : Except FailurePoint (Block C)} {id : PoolId}
    (h : st.allocate sys env fuel q = some (res, id, st')) : st'.live = st.live := by
  obtain ⟨⟨h₁, id₁, params⟩, -, hmap⟩ := Option.bind_eq_some_iff.mp h
  obtain ⟨⟨res₁, w, p⟩, -, heq⟩ := Option.map_eq_some_iff.mp hmap
  cases heq
  rfl

/-- `heap::allocate` does not see who holds which blocks. -/
theorem allocate_withLost {sys : System} {env : AllocEnv C} {fuel : Nat} {q : Request}
    {st st' : HeapState C} {res : Except FailurePoint (Block C)} {id : PoolId}
    (lost : List (PoolId × Block C)) (h : st.allocate sys env fuel q = some (res, id, st')) :
    (st.withLost lost).allocate sys env fuel q = some (res, id, st'.withLost lost) := by
  induction lost generalizing st st' with
  | nil => exact h
  | cons x lost ih =>
    refine ih (?_ : (st.leak x.1 x.2).allocate sys env fuel q = _)
    obtain ⟨⟨h₁, id₁, params⟩, hroute, hmap⟩ := Option.bind_eq_some_iff.mp h
    obtain ⟨⟨res₁, w, p⟩, hres, heq⟩ := Option.map_eq_some_iff.mp hmap
    cases heq
    exact allocate_of_route hroute hres

end HeapState

/-- The steps of the clients do not depend on the lost blocks. -/
theorem HeapStep.withLost {sys : System} {st st' : HeapState C} {op : HeapOp C}
    (h : HeapStep sys st op st') (lost : List (PoolId × Block C)) :
    HeapStep sys (st.withLost lost) op (st'.withLost lost) := by
  induction lost generalizing st st' with
  | nil => exact h
  | cons x lost ih => exact ih (h.leak x.1 x.2)

/-! ### The invariant

No object is owned twice because no block is: a block that `allocate` hands out is in
no other place, so that a new `unique_ptr` owns a block that none has. -/

/-- The objects that are alive are those that the `unique_ptr`s own, which own
different blocks. -/
structure UniqueInv (sys : System) (c : HeapConfig) (s : UniqueState C) : Prop where
  heap : HeapInv sys c (s.toHeapState.withLost s.lost)
  owned : ∀ u ∈ s.ptrs, ∃ id, u.block ∈ s.live id
  nodup : (s.ptrs.map UniquePtr.block).Nodup
  objects : s.objects.Perm (s.ptrs.flatMap UniquePtr.elements)

namespace UniqueInv

variable {sys : System} {c : HeapConfig} {s s' : UniqueState C}

theorem init (h : s.Init sys c) : UniqueInv sys c s where
  heap := by
    rw [h.lost]
    exact .init h.toInit
  owned := fun u hu => by
    rw [h.ptrs] at hu
    cases hu
  nodup := by
    rw [h.ptrs]
    exact List.nodup_nil
  objects := by
    rw [h.ptrs, h.objects]
    exact .refl _

/-- A block that is held, by a client or a `unique_ptr`, has its pool as its segment
says. -/
theorem pool_of_live (h : UniqueInv sys c s) {id : PoolId} {b : Block C} (hb : b ∈ s.live id) :
    (s.world.segmentAt b.segment).pool = id ∧ b.segment ≠ 0 ∧ b.ptr ≠ 0 := by
  have hb' : b ∈ (s.toHeapState.withLost s.lost).live id :=
    HeapState.mem_withLost_live.mpr (Or.inl hb)
  obtain ⟨-, hne, hpool⟩ := h.heap.live_segment hb'
  rw [HeapState.withLost_world] at hpool
  exact ⟨hpool, hne, h.heap.ptr_ne_zero_of_live hb'⟩

/-- The segment of a block that is held or lost is still there. -/
theorem segment_of_held (h : UniqueInv sys c s) {id : PoolId} {b : Block C}
    (hb : b ∈ s.live id ∨ (id, b) ∈ s.lost) : b.segment ∈ (s.data id).segments := by
  have hb' := h.heap.live_segment (HeapState.mem_withLost_live.mpr hb)
  rw [HeapState.withLost_data] at hb'
  exact hb'.1

/-- No block is held twice, or held and lost. -/
theorem held_nodup (h : UniqueInv sys c s) (id : PoolId) :
    (s.live id ++ HeapState.lostOf s.lost id).Nodup := by
  rw [← HeapState.withLost_live]
  cases hparams : (s.toHeapState.withLost s.lost).heap.params? id with
  | some params => exact (h.heap.pool id params hparams).places_nodup.of_append_right
  | none =>
    rw [(h.heap.absent id hparams).2]
    exact List.nodup_nil

/-- The objects of different `unique_ptr`s are different. -/
theorem objects_nodup (h : UniqueInv sys c s) : s.objects.Nodup := by
  refine h.objects.nodup_iff.mpr (List.nodup_flatMap.mpr ⟨fun u _ => elements_nodup _ _, ?_⟩)
  refine (List.pairwise_map.mp h.nodup).imp fun {u v} hne x hu hv => ?_
  obtain ⟨b, i⟩ := x
  exact hne ((mem_elements.mp hu).1.symm.trans (mem_elements.mp hv).1)

/-- A call of a client that returns no block of a `unique_ptr`. -/
theorem client (h : UniqueInv sys c s) {op : HeapOp C} {st : HeapState C}
    (hop : ∀ b ∈ op.returned, b ∉ s.ptrs.map UniquePtr.block)
    (hstep : HeapStep sys s.toHeapState op st) :
    UniqueInv sys c { s with toHeapState := st } := by
  refine ⟨h.heap.step (hstep.withLost s.lost), fun u hu => ?_, h.nodup, h.objects⟩
  obtain ⟨id, hlive⟩ := h.owned u hu
  refine ⟨id, ?_⟩
  rcases heapStep_cases hstep with
    ⟨q, env, fuel, id', params, b, w, p, -, -, -, -, -, rfl⟩ |
    ⟨b, id', st₁, rfl, -, -, hrelease, rfl⟩
  · -- `allocate` adds a block to those that are held.
    show u.block ∈ Function.update s.live id' (b :: s.live id') id
    by_cases hid : id = id'
    · subst hid
      rw [Function.update_self]
      exact List.mem_cons_of_mem b hlive
    · rwa [Function.update_of_ne hid]
  · -- `free` takes one away, and it is none of a `unique_ptr`.
    have hne : u.block ≠ b := by
      rintro rfl
      exact hop _ (List.mem_singleton_self _) (List.mem_map_of_mem hu)
    show u.block ∈ Function.update st₁.live id' ((st₁.live id').erase b) id
    rw [HeapState.release_live hrelease]
    by_cases hid : id = id'
    · subst hid
      rw [Function.update_self]
      exact (List.mem_erase_of_ne hne).mpr hlive
    · rwa [Function.update_of_ne hid]

/-- A `unique_ptr` for a block that has just been handed out. -/
theorem handOut (h : UniqueInv sys c s) {q : Request} {env : AllocEnv C} {fuel : Nat}
    {st : HeapState C} {id : PoolId} {b : Block C} {d : HeapDelete}
    {objects : List (Block C × Nat)}
    (halloc : s.allocate sys env fuel q = some (.ok b, id, st))
    (horder : env.order.Perm (s.data id).segments)
    (hobjects : objects.Perm (elements b d.count ++ s.objects)) :
    UniqueInv sys c { s with
      toHeapState := st.handOut id b
      ptrs := ⟨b, d⟩ :: s.ptrs
      objects := objects } := by
  have hclient : UniqueInv sys c { s with toHeapState := st.handOut id b } := by
    refine h.client ?_ (heapStep_of_allocate halloc horder)
    exact fun _ hb => nomatch hb
  have hb : b ∈ (st.handOut id b).live id := st.mem_handOut_live id b
  have hlive : (st.handOut id b).live = Function.update s.live id (b :: s.live id) := by
    rw [← HeapState.allocate_live halloc]
    rfl
  refine ⟨hclient.heap, ?_, List.nodup_cons.mpr ⟨fun hmem => ?_, h.nodup⟩, ?_⟩
  · rintro u (_ | ⟨_, hu⟩)
    · exact ⟨id, hb⟩
    · exact hclient.owned u hu
  · -- No block is handed out twice.
    obtain ⟨u, hu, rfl⟩ := List.mem_map.mp hmem
    obtain ⟨id', hheld⟩ := h.owned u hu
    by_cases hid : id' = id
    · subst hid
      have hnodup : ((st.handOut id' u.block).live id').Nodup :=
        (hclient.held_nodup id').of_append_left
      rw [hlive, Function.update_self] at hnodup
      exact (List.nodup_cons.mp hnodup).1 hheld
    · have hheld' : u.block ∈ (st.handOut id u.block).live id' := by
        rwa [hlive, Function.update_of_ne hid]
      exact hid ((hclient.pool_of_live hheld').1.symm.trans (hclient.pool_of_live hb).1)
  · exact hobjects.trans (h.objects.append_left _)

/-- A block behind which a new-expression has thrown. -/
theorem lose (h : UniqueInv sys c s) {q : Request} {env : AllocEnv C} {fuel : Nat}
    {st : HeapState C} {id : PoolId} {b : Block C}
    (halloc : s.allocate sys env fuel q = some (.ok b, id, st))
    (horder : env.order.Perm (s.data id).segments) :
    UniqueInv sys c { s with toHeapState := st, lost := s.lost ++ [(id, b)] } where
  heap := by
    rw [HeapState.withLost_append]
    refine h.heap.leak_of_allocate ?_ (HeapState.allocate_withLost s.lost halloc)
    rwa [HeapState.withLost_data]
  owned := by
    rw [HeapState.allocate_live halloc]
    exact h.owned
  nodup := h.nodup
  objects := h.objects

/-- Both versions of `make_unique` end with a `unique_ptr` that owns its objects, or
with one more block lost. -/
theorem make (h : UniqueInv sys c s) {q : Request} {env : AllocEnv C} {fuel w : Nat}
    {d : HeapDelete} {ctor : Nat → Except E Unit}
    (hmake : s.make sys env fuel q w d ctor = some s') :
    UniqueInv sys c s' ∧
      s'.lost.length = s.lost.length + if !(d.new w ctor).isOk then 1 else 0 := by
  obtain ⟨b, id, st, halloc, horder, ⟨hnew, rfl⟩ | ⟨x, hnew, rfl⟩⟩ := UniqueState.make_cases hmake
  · rw [hnew]
    exact ⟨h.handOut halloc horder ((List.reverse_perm _).append_right _), rfl⟩
  · rw [hnew]
    exact ⟨h.lose halloc horder, List.length_append⟩

theorem exists_release (h : UniqueInv sys c s) {id : PoolId} {b : Block C} (hb : b ∈ s.live id) :
    ∃ st, s.release b = some st := by
  obtain ⟨hpool, hne, -⟩ := h.pool_of_live hb
  obtain ⟨params, hparams⟩ :=
    h.heap.params?_of_live (HeapState.mem_withLost_live.mpr (Or.inl hb))
  rw [HeapState.withLost_heap] at hparams
  rw [HeapState.release, if_pos hne, HeapState.releaseFromSegment, hpool, hparams]
  exact ⟨_, rfl⟩

/-- A `unique_ptr` can always be reset, and its objects, no others, are destroyed. -/
theorem reset (h : UniqueInv sys c s) {u : UniquePtr C} (hu : u ∈ s.ptrs) :
    ∃ s', s.reset u = some s' ∧ s.objects.Perm (u.elements ++ s'.objects) ∧ s'.lost = s.lost ∧
      UniqueInv sys c s' := by
  obtain ⟨id, hlive⟩ := h.owned u hu
  obtain ⟨hpool, -, hptr⟩ := h.pool_of_live hlive
  obtain ⟨st, hrelease⟩ := h.exists_release hlive
  have hperm := List.perm_cons_erase hu
  have hobjects : s.objects.Perm (u.elements ++ (s.ptrs.erase u).flatMap UniquePtr.elements) :=
    h.objects.trans (hperm.flatMap_right _)
  obtain ⟨objects, hdestroy, hrest⟩ : ∃ objects,
      destroyElements u.block u.deleter.count 0 s.objects = some objects ∧
        objects.Perm ((s.ptrs.erase u).flatMap UniquePtr.elements) := by
    rw [UniquePtr.elements, elements, List.range_eq_range'] at hobjects
    exact destroyElements_perm u.block u.deleter.count hobjects
  have hnodup := (hperm.map UniquePtr.block).nodup_iff.mp h.nodup
  -- The deleter first destroys the objects, and then gives the block back.
  have hdestroyed : UniqueInv sys c { s with ptrs := s.ptrs.erase u, objects := objects } :=
    ⟨h.heap, fun v hv => h.owned v (List.mem_of_mem_erase hv), (List.nodup_cons.mp hnodup).2, hrest⟩
  have hstep : HeapStep sys s.toHeapState (.free u.block) _ :=
    heapStep_of_release (hpool.symm ▸ hlive) hrelease
  have hreset := hdestroyed.client (fun b hb => ?_) hstep
  · refine ⟨_, ?_, ?_, ?_, hreset⟩
    · rw [UniqueState.reset, if_pos hu, if_neg hptr, UniqueState.heapDelete, hdestroy]
      dsimp only [Option.bind_some]
      rw [hrelease]
      rfl
    · exact hobjects.trans (hrest.symm.append_left _)
    · rfl
  · rw [List.mem_singleton.mp hb]
    exact (List.nodup_cons.mp hnodup).1

/-- Every call keeps the invariant, with one block more lost where a new-expression
throws. -/
theorem step (h : UniqueInv sys c s) {op : UniqueOp C E} (hstep : UniqueStep sys s op s') :
    UniqueInv sys c s' ∧ s'.lost.length = s.lost.length + if op.throws then 1 else 0 := by
  cases op with
  | client op =>
    rw [UniqueStep, UniqueState.step] at hstep
    split at hstep
    · next hop =>
      obtain ⟨st, hst, rfl⟩ := Option.map_eq_some_iff.mp hstep
      exact ⟨h.client hop hst, rfl⟩
    · cases hstep
  | makeUnique w numaNode localNode ctor env fuel => exact h.make hstep
  | makeUniqueArray w size numaNode localNode ctor env fuel => exact h.make hstep
  | reset u =>
    have hreset : s.reset u = some s' := hstep
    by_cases hu : u ∈ s.ptrs
    · obtain ⟨s₁, hs₁, -, hlost, hinv⟩ := h.reset hu
      obtain rfl := Option.some.inj (hs₁.symm.trans hreset)
      exact ⟨hinv, congrArg List.length hlost⟩
    · rw [UniqueState.reset, if_neg hu] at hreset
      cases hreset

/-- The invariant along a run. -/
theorem run {ops : List (UniqueOp C E)} (h : UniqueInv sys c s)
    (hrun : Lib.Run (UniqueStep sys) s ops s') :
    UniqueInv sys c s' ∧ s'.lost.length = s.lost.length + ops.countP UniqueOp.throws := by
  induction hrun with
  | refl => exact ⟨h, rfl⟩
  | @snoc s₁ s₂ ops op _ hlast ih =>
    obtain ⟨hinv, hlength⟩ := ih
    obtain ⟨hinv', hlength'⟩ := hinv.step hlast
    refine ⟨hinv', ?_⟩
    rw [List.countP_append, List.countP_singleton, hlength', hlength, Nat.add_assoc]

/-- The invariant of a pool, to which a lost block is one that is held. -/
theorem pool (h : UniqueInv sys c s) {id : PoolId} {params : PoolParams}
    (hparams : s.heap.params? id = some params) :
    PoolInv sys s.world (s.poolAt id params) (s.live id ++ HeapState.lostOf s.lost id) := by
  rw [← HeapState.withLost_heap s.lost] at hparams
  simpa only [HeapState.poolAt, HeapState.withLost_data, HeapState.withLost_world,
    HeapState.withLost_live] using h.heap.pool id params hparams

end UniqueInv

/-- The account of the objects and the blocks, after `n` calls in which the
new-expression has thrown. -/
structure UniqueState.Accounted (n : Nat) (s : UniqueState C) : Prop where
  /-- The objects that are alive are those of the `unique_ptr`s. -/
  objects : s.objects.Perm (s.ptrs.flatMap UniquePtr.elements)
  objects_nodup : s.objects.Nodup
  ptrs_nodup : (s.ptrs.map UniquePtr.block).Nodup
  /-- No memory with an object in it is given back. -/
  owned : ∀ u ∈ s.ptrs, ∃ id, u.block ∈ s.live id ∧ u.block.segment ∈ (s.data id).segments
  /-- A `unique_ptr` destroys its objects, each once, and no others. -/
  reset : ∀ u ∈ s.ptrs, ∃ s', s.reset u = some s' ∧ s.objects.Perm (u.elements ++ s'.objects)
  lost : s.lost.length = n
  lost_segment : ∀ x ∈ s.lost, x.2.segment ∈ (s.data x.1).segments
  blocks_nodup : ∀ id params, s.heap.params? id = some params →
    ((s.poolAt id params).blocks s.world).Nodup
  /-- Every block is in one place. -/
  places : ∀ id params, s.heap.params? id = some params →
    ((s.poolAt id params).freeStack ++ (s.poolAt id params).freed s.world ++
      (s.live id ++ HeapState.lostOf s.lost id)).Perm ((s.poolAt id params).blocks s.world)

theorem UniqueInv.accounted {sys : System} {c : HeapConfig} {s : UniqueState C}
    (h : UniqueInv sys c s) : s.Accounted s.lost.length where
  objects := h.objects
  objects_nodup := h.objects_nodup
  ptrs_nodup := h.nodup
  owned := fun u hu => by
    obtain ⟨id, hlive⟩ := h.owned u hu
    exact ⟨id, hlive, h.segment_of_held (Or.inl hlive)⟩
  reset := fun u hu => by
    obtain ⟨s', hreset, hobjects, -, -⟩ := h.reset hu
    exact ⟨s', hreset, hobjects⟩
  lost := rfl
  lost_segment := fun _ hx => h.segment_of_held (Or.inr hx)
  blocks_nodup := fun _ _ hparams =>
    (h.pool hparams).places.nodup_iff.mp (h.pool hparams).places_nodup
  places := fun _ _ hparams => (h.pool hparams).places

/-- Whatever clients do and whatever new-expressions throw, as long as `allocate` does
not, no object is lost or destroyed twice. A call in which one throws costs one block,
and no other call does. -/
theorem unique_ptrs_accounted {sys : System} {c : HeapConfig} {s₀ s : UniqueState C}
    {ops : List (UniqueOp C E)} (hinit : s₀.Init sys c)
    (hrun : Lib.Run (UniqueStep sys) s₀ ops s) : s.Accounted (ops.countP UniqueOp.throws) := by
  obtain ⟨hinv, hlength⟩ := (UniqueInv.init hinit).run hrun
  rw [hinit.lost, List.length_nil, Nat.zero_add] at hlength
  rw [← hlength]
  exact hinv.accounted

/-- The heap of `smallSegmentHeap`, without any objects. -/
def uniqueStart : UniqueState rangeContext where
  toHeapState := smallSegmentHeap
  ptrs := []
  objects := []
  lost := []

theorem uniqueStart_init : uniqueStart.Init smallPages smallSegmentConfig where
  toInit := freshHeap_init _ _
  ptrs := rfl
  objects := rfl
  lost := rfl

/-- No constructor throws. -/
def noneThrows : Nat → Except Unit Unit := fun _ => .ok ()

/-- The second of three objects throws; a larger object takes another block of the
same pool; an array of more than `2 ^ 64` bytes takes a third one. -/
def secondThrowsCalls : List (UniqueOp rangeContext Unit) :=
  [.makeUniqueArray 16 3 0 0 secondThrows grantedEnv 2,
    .makeUnique 48 0 0 noneThrows { grantedEnv with order := [1] } 2,
    .makeUniqueArray 16 (2 ^ 60 + 3) 0 0 noneThrows { grantedEnv with order := [1] } 2]

theorem unique_ptrs_accounted_secondThrows :
    ∃ s : UniqueState rangeContext, s.ptrs.length = 1 ∧ s.lost.length = 2 ∧
      s.objects.length = 1 ∧ s.Accounted 2 := by
  obtain ⟨s, hexec, hptrs, hlost, hobjects⟩ : ∃ s, Lib.exec (UniqueState.step smallPages)
      secondThrowsCalls uniqueStart = some s ∧
      s.ptrs.length = 1 ∧ s.lost.length = 2 ∧ s.objects.length = 1 := ⟨_, rfl, rfl, rfl, rfl⟩
  exact ⟨s, hptrs, hlost, hobjects,
    unique_ptrs_accounted uniqueStart_init (Lib.run_of_exec hexec)⟩

end HwMalloc
