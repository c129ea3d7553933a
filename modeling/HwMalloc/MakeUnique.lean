import HwMalloc.ArrayRequests

/-!
# HwMalloc.MakeUnique

`heap::make_unique` with new-expressions that may throw. Between the call of
`allocate` and the construction of the `unique_ptr` the block is held by a fancy
pointer only, whose destructor does nothing. So a constructor that throws leaves
the block behind: it is in no stack, and no client can ever return it
(`makeUnique_leaks`). The same holds of an array that is longer than arrays may be:
its memory is allocated first, and then the new-expression throws without calling a
constructor (`makeUniqueArray_leaks_of_length`).

The last part follows from what an unreturned block means for the rest of the
run. A run that knows nothing of the block is, step by step, a run in which some
client holds it for good (`HeapStep.leak`), and the segment of a block that is
held is neither empty nor released.
-/

namespace HwMalloc

variable {C : Context} {E : Type}

/-! ### The code

A new-expression runs constructors, and for an array looks at its length before. What
they make is the matter of `HwMalloc.UniquePtr`; here it only matters whether they
return. -/

/-- The constructors of `n` elements run one after the other, each in its place
of the block. An exception ends the loop; the elements before it are destroyed,
which concerns no pool. -/
def constructElements (ctor : Nat → Except E Unit) : Nat → Except E Unit
  | 0 => .ok ()
  | n + 1 =>
    match constructElements ctor n with
    | .error e => .error e
    | .ok () => ctor n

/-- The exceptions by which `make_unique` is left. -/
inductive MakeUniqueError (E : Type)
  | allocate (e : FailurePoint)
  /-- `std::bad_array_new_length`. -/
  | badArrayNewLength
  | constructor (e : E)

/-- `new (p) T(args...)`. -/
def newObject (ctor : Nat → Except E Unit) : Except (MakeUniqueError E) Unit :=
  (constructElements ctor 1).mapError .constructor

/-- `new (p) U[size]()`, for elements of `w` bytes. For an array that is larger than
any object the expression throws before it calls a constructor. -/
def newArray (w size : Nat) (ctor : Nat → Except E Unit) : Except (MakeUniqueError E) Unit :=
  if ptrdiffMax < w * size then .error .badArrayNewLength
  else (constructElements ctor size).mapError .constructor

namespace HeapState

/-- What both versions of `heap::make_unique` do, if the new-expression ends with
`new`. The block goes to the `unique_ptr` when all elements exist. -/
def makeElements (sys : System) (env : AllocEnv C) (fuel : Nat) (q : Request)
    (new : Except (MakeUniqueError E) Unit) (st : HeapState C) :
    Option (Except (MakeUniqueError E) (Block C) × HeapState C) :=
  (st.allocate sys env fuel q).map fun (res, id, st) =>
    match res with
    | .error e => (.error (.allocate e), st)
    | .ok b =>
      match new with
      | .error e => (.error e, st)
      | .ok () => (.ok b, st.handOut id b)

/-- `heap::make_unique`, the scalar version, for a type of `w` bytes. -/
def makeUnique (sys : System) (env : AllocEnv C) (fuel w numaNode localNode : Nat)
    (ctor : Nat → Except E Unit) (st : HeapState C) :
    Option (Except (MakeUniqueError E) (Block C) × HeapState C) :=
  st.makeElements sys env fuel { size := w, numaNode := numaNode, localNode := localNode }
    (newObject ctor)

/-- `heap::make_unique`, the array version, for `size` elements of `w` bytes. -/
def makeUniqueArray (sys : System) (env : AllocEnv C) (fuel w size numaNode localNode : Nat)
    (ctor : Nat → Except E Unit) (st : HeapState C) :
    Option (Except (MakeUniqueError E) (Block C) × HeapState C) :=
  st.makeElements sys env fuel (makeUniqueRequest w size numaNode localNode)
    (newArray w size ctor)

end HeapState

/-- The exception that leaves the loop is that of the first constructor that
throws. -/
theorem constructElements_eq_error_iff {ctor : Nat → Except E Unit} {e : E} (n : Nat) :
    constructElements ctor n = .error e ↔
      ∃ i < n, ctor i = .error e ∧ ∀ j < i, ctor j = .ok () := by
  have hok : ∀ n, constructElements ctor n = .ok () ↔ ∀ j < n, ctor j = .ok () := by
    intro n
    induction n with
    | zero => exact iff_of_true rfl fun j hj => absurd hj (Nat.not_lt_zero j)
    | succ n ih =>
      rw [constructElements, Nat.forall_lt_succ_right, ← ih]
      cases constructElements ctor n with
      | error e => exact iff_of_false (fun h => nomatch h) fun h => nomatch h.1
      | ok u => exact (and_iff_right rfl).symm
  induction n with
  | zero => exact iff_of_false (fun h => nomatch h) fun ⟨i, hi, _⟩ => absurd hi (Nat.not_lt_zero i)
  | succ n ih =>
    rw [constructElements]
    cases hn : constructElements ctor n with
    | error e' =>
      rw [hn] at ih
      refine ih.trans ⟨fun ⟨i, hi, h⟩ => ⟨i, Nat.lt_succ_of_lt hi, h⟩, fun ⟨i, hi, h⟩ => ?_⟩
      refine ⟨i, lt_of_le_of_ne (Nat.lt_succ_iff.mp hi) ?_, h⟩
      -- Not all constructors before `n` return.
      rintro rfl
      cases hn.symm.trans ((hok i).mpr h.2)
    | ok u =>
      have hbefore := (hok n).mp hn
      refine ⟨fun h => ⟨n, Nat.lt_succ_self n, h, hbefore⟩, fun ⟨i, hi, h, _⟩ => ?_⟩
      rcases Nat.lt_succ_iff_lt_or_eq.mp hi with hlt | rfl
      · cases (hbefore i hlt).symm.trans h
      · exact h

theorem mapError_eq_error_iff {r : Except E Unit} {x : MakeUniqueError E} :
    r.mapError .constructor = .error x ↔ ∃ e, r = .error e ∧ x = .constructor e := by
  cases r with
  | error e =>
    refine ⟨fun h => ⟨e, rfl, (Except.error.inj h).symm⟩, fun ⟨e', he, hx⟩ => ?_⟩
    cases he
    rw [hx]
    rfl
  | ok u => exact iff_of_false (fun h => nomatch h) fun ⟨_, he, _⟩ => nomatch he

/-- The array version throws if the array is too long, and else by the first
constructor that throws. -/
theorem newArray_eq_error_iff {w n : Nat} {ctor : Nat → Except E Unit} {x : MakeUniqueError E} :
    newArray w n ctor = .error x ↔
      ptrdiffMax < w * n ∧ x = .badArrayNewLength ∨
        w * n ≤ ptrdiffMax ∧ ∃ e, x = .constructor e ∧
          ∃ i < n, ctor i = .error e ∧ ∀ j < i, ctor j = .ok () := by
  rw [newArray]
  split
  · next hlong =>
    refine ⟨fun h => Or.inl ⟨hlong, (Except.error.inj h).symm⟩, ?_⟩
    rintro (⟨-, rfl⟩ | ⟨hshort, -⟩)
    · rfl
    · exact absurd hlong (not_lt.mpr hshort)
  · next hshort =>
    rw [mapError_eq_error_iff]
    constructor
    · rintro ⟨e, he, hx⟩
      exact Or.inr ⟨not_lt.mp hshort, e, hx, (constructElements_eq_error_iff n).mp he⟩
    · rintro (⟨hlong, -⟩ | ⟨-, e, hx, hfirst⟩)
      · exact absurd hlong hshort
      · exact ⟨e, (constructElements_eq_error_iff n).mpr hfirst, hx⟩

/-- `make_unique` is left by the exception of its new-expression in the state in
which `allocate` has returned. -/
theorem makeElements_eq_error_iff {sys : System} {env : AllocEnv C} {fuel : Nat} {q : Request}
    {new : Except (MakeUniqueError E) Unit} {st st' : HeapState C} {x : MakeUniqueError E}
    (hx : ∀ e, x ≠ .allocate e) :
    st.makeElements sys env fuel q new = some (.error x, st') ↔
      (∃ b id, st.allocate sys env fuel q = some (.ok b, id, st')) ∧ new = .error x := by
  rw [HeapState.makeElements, Option.map_eq_some_iff]
  constructor
  · rintro ⟨⟨res, id, st₁⟩, halloc, heq⟩
    cases res with
    | error e =>
      cases heq
      exact absurd rfl (hx e)
    | ok b =>
      cases new with
      | error e =>
        cases heq
        exact ⟨⟨b, id, halloc⟩, rfl⟩
      | ok u => cases heq
  · rintro ⟨⟨b, id, halloc⟩, rfl⟩
    exact ⟨_, halloc, rfl⟩

/-! ### Blocks that nobody returns

The block is added to the blocks that are live under its pool. No step of a run looks at
these but to check that a client may return what it returns. -/

/-- Two changes of a function at one argument each can be swapped, if they can at
a common argument. -/
theorem update_modify_comm {α β : Type*} [DecidableEq α] (l : α → β) (f g : β → β) (i j : α)
    (h : i = j → g (f (l i)) = f (g (l i))) :
    Function.update (Function.update l i (f (l i))) j (g (Function.update l i (f (l i)) j)) =
      Function.update (Function.update l j (g (l j))) i
        (f (Function.update l j (g (l j)) i)) := by
  by_cases hij : i = j
  · subst hij
    simp only [Function.update_self, Function.update_idem, h rfl]
  · rw [Function.update_of_ne (Ne.symm hij), Function.update_of_ne hij,
      Function.update_comm (Ne.symm hij)]

namespace HeapState

/-- `b` is a block of the pool `id`. -/
def IsBlock (st : HeapState C) (id : PoolId) (b : Block C) : Prop :=
  ∃ params, st.heap.params? id = some params ∧ b ∈ (st.poolAt id params).blocks st.world

/-- `b` is in `m_free_stack` of the pool `id`, or in a freed stack of its
segments. -/
def Idle (st : HeapState C) (id : PoolId) (b : Block C) : Prop :=
  b ∈ (st.data id).freeStack ∨
    ∃ s ∈ (st.data id).segments, b ∈ (st.world.segmentAt s).freedStack

/-- The same state, if some client held the block `b` as well. -/
def leak (id : PoolId) (b : Block C) (st : HeapState C) : HeapState C :=
  { st with live := Function.update st.live id (st.live id ++ [b]) }

@[simp] theorem leak_heap (id : PoolId) (b : Block C) (st : HeapState C) :
    (st.leak id b).heap = st.heap := rfl

@[simp] theorem leak_world (id : PoolId) (b : Block C) (st : HeapState C) :
    (st.leak id b).world = st.world := rfl

@[simp] theorem leak_data (id : PoolId) (b : Block C) (st : HeapState C) :
    (st.leak id b).data = st.data := rfl

theorem leak_live_self (id : PoolId) (b : Block C) (st : HeapState C) :
    (st.leak id b).live id = st.live id ++ [b] :=
  Function.update_self ..

theorem mem_leak_live {id id' : PoolId} {b b' : Block C} {st : HeapState C}
    (h : b' ∈ st.live id') : b' ∈ (st.leak id b).live id' := by
  by_cases hid : id' = id
  · subst hid
    rw [leak_live_self]
    exact List.mem_append_left _ h
  · change b' ∈ Function.update st.live id _ id'
    rwa [Function.update_of_ne hid]

/-- Handing out another block does not interfere. -/
theorem leak_handOut (id id' : PoolId) (b b' : Block C) (st : HeapState C) :
    (st.leak id b).handOut id' b' = (st.handOut id' b').leak id b :=
  congrArg (fun live => { st with live := live })
    (update_modify_comm st.live (· ++ [b]) (b' :: ·) id id' fun _ => rfl)

/-- Neither does taking back a block that was held before. -/
theorem leak_takeBack {id id' : PoolId} {b b' : Block C} {st : HeapState C}
    (h : b' ∈ st.live id') :
    (st.leak id b).takeBack id' b' = (st.takeBack id' b').leak id b :=
  congrArg (fun live => { st with live := live })
    (update_modify_comm st.live (· ++ [b]) (·.erase b') id id' fun heq =>
      List.erase_append_left _ (heq ▸ h))

theorem leak_release (id : PoolId) (b b' : Block C) (st : HeapState C) :
    (st.leak id b).release b' = (st.release b').map (leak id b) := by
  unfold release
  split
  · unfold releaseFromSegment
    dsimp only [leak_world, leak_heap]
    cases st.heap.params? (st.world.segmentAt b'.segment).pool <;> rfl
  · rfl

theorem release_live {b : Block C} {st st' : HeapState C} (h : st.release b = some st') :
    st'.live = st.live := by
  unfold release at h
  split at h
  · obtain ⟨params, -, rfl⟩ := Option.map_eq_some_iff.mp h
    rfl
  · cases h
    rfl

end HeapState

/-- A step that knows nothing of the block is a step with the block in the hands
of a client that does not return it. -/
theorem HeapStep.leak {sys : System} {st st' : HeapState C} {op : HeapOp C}
    (h : HeapStep sys st op st') (id : PoolId) (b : Block C) :
    HeapStep sys (st.leak id b) op (st'.leak id b) := by
  rcases heapStep_cases h with
    ⟨q, env, fuel, id', params, b', w, p, rfl, hroute, -, horder, halloc, rfl⟩ |
    ⟨b', id', st₁, rfl, rfl, hb, hrelease, rfl⟩
  · have hcall : (st.leak id b).allocate sys env fuel q = some (.ok b', id',
        { st.leak id b with heap := (st.heap.select q.size).1 }.setPool id' w p) :=
      allocate_of_route hroute halloc
    have hstep := heapStep_of_allocate hcall horder
    change HeapStep sys (st.leak id b) _ ((({ st with heap := (st.heap.select q.size).1 }.setPool
      id' w p).leak id b).handOut id' b') at hstep
    rwa [HeapState.leak_handOut] at hstep
  · have hcall : (st.leak id b).release b' = some (st₁.leak id b) := by
      rw [HeapState.leak_release, hrelease]
      rfl
    have hstep : HeapStep sys (st.leak id b) _ _ :=
      heapStep_of_release (HeapState.mem_leak_live hb) hcall
    rwa [HeapState.leak_world, HeapState.leak_takeBack] at hstep
    rwa [HeapState.release_live hrelease]


namespace HeapInv

variable {sys : System} {c : HeapConfig} {st : HeapState C}

/-- A block that is held is in no stack. -/
theorem not_idle_of_live (h : HeapInv sys c st) {id : PoolId} {b : Block C}
    (hb : b ∈ st.live id) : ¬st.Idle id b := by
  obtain ⟨params, hparams⟩ := h.params?_of_live hb
  have hnodup := (h.pool id params hparams).places_nodup
  have hdisj := List.disjoint_of_nodup_append hnodup
  intro hidle
  refine hdisj ?_ hb
  rcases hidle with hfree | ⟨s, hs, hfreed⟩
  · exact List.mem_append_left _ hfree
  · exact List.mem_append_right _ (List.mem_flatMap.mpr ⟨s, hs, hfreed⟩)

/-- The segment of a block that is held is not full. -/
theorem not_isEmpty_of_live (h : HeapInv sys c st) {id : PoolId} {b : Block C}
    (hb : b ∈ st.live id) : (st.world.segmentAt b.segment).isEmpty = false := by
  obtain ⟨params, hparams⟩ := h.params?_of_live hb
  have hpool := h.pool id params hparams
  obtain ⟨hs, hmem⟩ := hpool.live_mem_blocks hb
  refine Bool.eq_false_iff.mpr fun hempty => h.not_idle_of_live hb (Or.inr ⟨_, hs, ?_⟩)
  exact (hpool.freed_perm_of_isEmpty hs hempty).mem_iff.mpr hmem

/-- The order of the blocks that are held does not matter. -/
theorem congr_live (h : HeapInv sys c st) {live : PoolId → List (Block C)}
    (hperm : ∀ id, (live id).Perm (st.live id)) : HeapInv sys c { st with live := live } :=
  { h with
    absent := fun id hnone => by
      obtain ⟨hdata, hlive⟩ := h.absent id hnone
      exact ⟨hdata, List.perm_nil.mp (hlive ▸ hperm id)⟩
    pool := fun id params hparams => (h.pool id params hparams).perm (hperm id) }

/-- What `allocate` has returned is a block that is held, if only by someone who
never gives it back. -/
theorem leak_of_allocate {q : Request} {env : AllocEnv C} {fuel : Nat} {st' : HeapState C}
    {id : PoolId} {b : Block C} (h : HeapInv sys c st)
    (horder : env.order.Perm (st.data id).segments)
    (halloc : st.allocate sys env fuel q = some (.ok b, id, st')) :
    HeapInv sys c (st'.leak id b) := by
  have hinv := h.step (heapStep_of_allocate halloc horder)
  have hperm : ∀ i, ((st'.leak id b).live i).Perm ((st'.handOut id b).live i) := by
    intro i
    change (Function.update st'.live id _ i).Perm (Function.update st'.live id _ i)
    by_cases hi : i = id
    · subst hi
      rw [Function.update_self, Function.update_self]
      exact List.perm_append_comm
    · rw [Function.update_of_ne hi, Function.update_of_ne hi]
  exact hinv.congr_live hperm

end HeapInv

/-! ### The leak

At the moment of the exception the block is in no stack; and in no later state is it in
one, or its segment released. -/

/-- Every block of every pool is idle in `st'`, or was live in `st`. -/
def NothingLeaked (st st' : HeapState C) : Prop :=
  ∀ id b, st'.IsBlock id b → st'.Idle id b ∨ b ∈ st.live id

/-- Some segment is never empty again and never released, whatever the clients
do. -/
def SegmentLost (sys : System) (st : HeapState C) : Prop :=
  ∃ id s, ∀ ops st', Lib.Run (HeapStep sys) st ops st' →
    s ∈ (st'.data id).segments ∧ (st'.world.segmentAt s).isEmpty = false

/-- The loop over `m_segments` of the call meets every key once. -/
def MeetsEveryKey (env : AllocEnv C) (q : Request) (st : HeapState C) : Prop :=
  ∀ h id params, st.heap.route q = some (h, id, params) →
    env.order.Perm (st.data id).segments

/-- Whatever the exception of the new-expression is, the block has leaked. -/
theorem makeElements_leaks {sys : System} {c : HeapConfig} {st st' : HeapState C}
    {env : AllocEnv C} {fuel : Nat} {q : Request} {new : Except (MakeUniqueError E) Unit}
    {x : MakeUniqueError E}
    (hreach : Lib.Reachable (HeapState.Init sys c) (HeapStep sys) st)
    (hmeets : MeetsEveryKey env q st) (hx : ∀ e, x ≠ .allocate e)
    (h : st.makeElements sys env fuel q new = some (.error x, st')) :
    ¬NothingLeaked st st' ∧ SegmentLost sys st' := by
  obtain ⟨⟨b, id, halloc⟩, -⟩ := (makeElements_eq_error_iff hx).mp h
  obtain ⟨⟨h₁, id', params⟩, hroute, hmap⟩ := Option.bind_eq_some_iff.mp halloc
  obtain ⟨⟨res, w, p⟩, -, heq⟩ := Option.map_eq_some_iff.mp hmap
  cases heq
  have hinv := (reachable_heapInv hreach).leak_of_allocate (hmeets _ _ _ hroute) halloc
  have hheld : ∀ s : HeapState C, b ∈ (s.leak id b).live id := fun s => by
    rw [HeapState.leak_live_self]
    exact List.mem_append_right _ (List.mem_singleton_self b)
  constructor
  · intro hnothing
    obtain ⟨params', hparams⟩ := hinv.params?_of_live (hheld _)
    have hpool := hinv.pool id params' hparams
    have hblock := hpool.places.mem_iff.mp (List.mem_append_right _ (hheld _))
    rcases hnothing id b ⟨params', hparams, hblock⟩ with hidle | hlive
    · exact hinv.not_idle_of_live (hheld _) hidle
    · -- No block is handed out twice.
      have hnodup := hpool.places_nodup.of_append_right
      rw [HeapState.leak_live_self] at hnodup
      exact List.disjoint_of_nodup_append hnodup hlive (List.mem_singleton_self b)
  · have hkept : ∀ (s : HeapState C) (op : HeapOp C) (s' : HeapState C),
        HeapInv sys c (s.leak id b) → HeapStep sys s op s' → HeapInv sys c (s'.leak id b) :=
      fun _ _ _ hs hstep => hs.step (HeapStep.leak hstep id b)
    refine ⟨id, b.segment, fun ops st'' hrun => ?_⟩
    have hinv' := hrun.invariant hkept hinv
    exact ⟨(hinv'.live_segment (hheld _)).1, hinv'.not_isEmpty_of_live (hheld _)⟩

/-- Whenever `make_unique` is left by the exception of a constructor, the block
has leaked, and with it its segment. -/
theorem makeUnique_leaks {sys : System} {c : HeapConfig} {st : HeapState C}
    (hreach : Lib.Reachable (HeapState.Init sys c) (HeapStep sys) st) (env : AllocEnv C)
    (fuel numaNode localNode : Nat) (ctor : Nat → Except E Unit) :
    (∀ w e st', MeetsEveryKey env ⟨w, numaNode, none, localNode⟩ st →
        st.makeUnique sys env fuel w numaNode localNode ctor =
          some (.error (.constructor e), st') →
        ¬NothingLeaked st st' ∧ SegmentLost sys st') ∧
      ∀ w size e st', MeetsEveryKey env (makeUniqueRequest w size numaNode localNode) st →
        st.makeUniqueArray sys env fuel w size numaNode localNode ctor =
          some (.error (.constructor e), st') →
        ¬NothingLeaked st st' ∧ SegmentLost sys st' :=
  ⟨fun _ _ _ hmeets h => makeElements_leaks hreach hmeets (by simp) h,
    fun _ _ _ _ hmeets h => makeElements_leaks hreach hmeets (by simp) h⟩

/-- The constructor of the second element throws. -/
def secondThrows : Nat → Except Unit Unit := fun i => if i = 1 then .error () else .ok ()

theorem makeUnique_leaks_secondThrows :
    ∃ st', smallSegmentHeap.makeUniqueArray smallPages grantedEnv 2 16 3 0 0 secondThrows =
        some (.error (.constructor ()), st') ∧
      ¬NothingLeaked smallSegmentHeap st' ∧ SegmentLost smallPages st' := by
  have hinit : Lib.Reachable (HeapState.Init smallPages smallSegmentConfig) (HeapStep smallPages)
      smallSegmentHeap := .of_init (freshHeap_init _ _)
  obtain ⟨st', h⟩ : ∃ st', smallSegmentHeap.makeUniqueArray smallPages grantedEnv 2 16 3 0 0
      secondThrows = some (.error (.constructor ()), st') := ⟨_, rfl⟩
  exact ⟨st', h, (makeUnique_leaks hinit grantedEnv 2 0 0 secondThrows).2 16 3 () st'
    (fun _ _ _ _ => List.Perm.refl []) h⟩

/-- An object of 64 bytes whose constructor throws leaves its block behind. -/
theorem throwingObject_leaks :
    ∃ st', smallSegmentHeap.makeUnique smallPages grantedEnv 2 64 0 0
        (fun _ => (.error () : Except Unit Unit)) = some (.error (.constructor ()), st') ∧
      ¬NothingLeaked smallSegmentHeap st' := by
  have hinit : Lib.Reachable (HeapState.Init smallPages smallSegmentConfig) (HeapStep smallPages)
      smallSegmentHeap := .of_init (freshHeap_init _ _)
  obtain ⟨st', h⟩ : ∃ st', smallSegmentHeap.makeUnique smallPages grantedEnv 2 64 0 0
      (fun _ => (.error () : Except Unit Unit)) = some (.error (.constructor ()), st') := ⟨_, rfl⟩
  exact ⟨st', h, (makeElements_leaks hinit (fun _ _ _ _ => List.Perm.refl []) (by simp) h).1⟩

/-- An array that is too long takes a block, that of its size modulo `2 ^ 64`, and
leaves it behind, whatever its constructors do. -/
theorem makeUniqueArray_leaks_of_length {sys : System} {c : HeapConfig} {st st' : HeapState C}
    (hreach : Lib.Reachable (HeapState.Init sys c) (HeapStep sys) st) {env : AllocEnv C}
    {fuel w size numaNode localNode : Nat} {ctor : Nat → Except E Unit}
    (hlong : ptrdiffMax < w * size)
    (hmeets : MeetsEveryKey env (makeUniqueRequest w size numaNode localNode) st) {b : Block C}
    {id : PoolId} (halloc : st.allocate sys env fuel (makeUniqueRequest w size numaNode localNode) =
      some (.ok b, id, st')) :
    st.makeUniqueArray sys env fuel w size numaNode localNode ctor =
        some (.error .badArrayNewLength, st') ∧
      ¬NothingLeaked st st' ∧ SegmentLost sys st' := by
  have hexit : st.makeUniqueArray sys env fuel w size numaNode localNode ctor =
      some (.error .badArrayNewLength, st') :=
    (makeElements_eq_error_iff (by simp)).mpr
      ⟨⟨b, id, halloc⟩, newArray_eq_error_iff.mpr (Or.inl ⟨hlong, rfl⟩)⟩
  exact ⟨hexit, makeElements_leaks hreach hmeets (by simp) hexit⟩

end HwMalloc
