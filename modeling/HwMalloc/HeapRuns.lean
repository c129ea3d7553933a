import HwMalloc.HugeHeaps
import HwMalloc.PoolRuns
import HwMalloc.PoolTables

/-!
# HwMalloc.HeapRuns

`heap` as a whole, used by one thread: a request is routed to a pool by its size
and by its node and device, and `free` finds the pool through the segment of the
block.

The state keeps what the operations change, pool by pool; the parameters of a pool
are those that its `fixed_size_heap` holds, and do not change. A pool is the two put
together (`HeapState.poolAt`), and the result of a call on it is taken apart again
(`HeapState.setPool`). The blocks that clients hold are part of the state as well, as
it is they who may return them.

`HeapInv` lifts the invariant of one pool to all of them. Two facts carry it: the
segments of different pools are different, since each knows its pool, and a call
on one pool leaves the segments of the others alone (`Untouched`). The second one is
stated once for each way in which a pool changes the world, and the calls are chains
of these.

Results:

* `heapStep_cases` — what one call that returns can have done;
* `HeapInv.exists_free` — a client can return every block that it holds;
* `reachable_heapInv` — the invariant in every state that the calls can reach.
-/

namespace HwMalloc

variable {C : Context}

/-! ### The state -/

/-- The members of a pool that its operations change. -/
structure PoolData (C : Context) where
  freeStack : List (Block C)
  segments : List Nat

/-- A heap, the world around it, and its clients. -/
structure HeapState (C : Context) where
  heap : Heap
  world : World C
  data : PoolId → PoolData C
  /-- The blocks that were handed out and have not come back, under the pool they
  came from. -/
  live : PoolId → List (Block C)

/-- A call of `heap::allocate`: its arguments, the device being that of the
device overload, and the node on which the caller runs. -/
structure Request where
  size : Nat
  numaNode : Nat
  deviceId : Option Int := none
  localNode : Nat

/-- The call that `allocator::allocate(n)` makes for elements of `w` bytes. -/
def allocatorRequest (n w numaNode localNode : Nat) : Request :=
  { size := mulSize n w, numaNode := numaNode, localNode := localNode }

/-- The parameters of a pool object, if it exists. -/
def Heap.params? (h : Heap) (id : PoolId) : Option PoolParams :=
  (h.find? id.heap).bind fun f => f.poolAt (id.device, id.slot)

/-- The pool that serves a request, with the heap after the dispatch; `none` is a
dereferenced `end()` or null pointer, or an index outside its vector. -/
def Heap.route (h : Heap) (q : Request) : Option (Heap × PoolId × PoolParams) :=
  let (h, ref) := h.select q.size
  (poolSlot h.topo q.localNode q.numaNode q.deviceId).bind fun slot =>
    (h.params? ⟨ref, slot.1, slot.2⟩).map fun params => (h, ⟨ref, slot.1, slot.2⟩, params)

namespace HeapState

/-- The pool object `id`. -/
def poolAt (st : HeapState C) (id : PoolId) (params : PoolParams) : Pool C :=
  { params with
    self := id
    freeStack := (st.data id).freeStack
    segments := (st.data id).segments }

/-- The state after a call on the pool `id`. -/
def setPool (st : HeapState C) (id : PoolId) (w : World C) (p : Pool C) : HeapState C :=
  { st with
    world := w
    data := Function.update st.data id ⟨p.freeStack, p.segments⟩ }

/-- `heap::allocate`. -/
def allocate (sys : System) (env : AllocEnv C) (fuel : Nat) (q : Request) (st : HeapState C) :
    Option (Except FailurePoint (Block C) × PoolId × HeapState C) :=
  (st.heap.route q).bind fun (h, id, params) =>
    ((st.poolAt id params).allocate sys env fuel st.world).map fun (res, w, p) =>
      (res, id, { st with heap := h }.setPool id w p)

/-- `block_t::release_from_segment`. -/
def releaseFromSegment (b : Block C) (st : HeapState C) : Option (HeapState C) :=
  let id := (st.world.segmentAt b.segment).pool
  (st.heap.params? id).map fun params =>
    st.setPool id ((st.poolAt id params).free b st.world).1
      ((st.poolAt id params).free b st.world).2

/-- `heap::free`, which is `block_t::release`. Without a segment it deletes the
user allocation, if there is one, which concerns no pool. -/
def release (b : Block C) (st : HeapState C) : Option (HeapState C) :=
  if b.segment ≠ 0 then st.releaseFromSegment b else some st

end HeapState

/-- A call of a client. -/
inductive HeapOp (C : Context)
  | allocate (q : Request) (env : AllocEnv C) (fuel : Nat)
  | free (b : Block C)

/-- A block is handed out. -/
def HeapState.handOut (st : HeapState C) (id : PoolId) (b : Block C) : HeapState C :=
  { st with live := Function.update st.live id (b :: st.live id) }

theorem HeapState.mem_handOut_live (st : HeapState C) (id : PoolId) (b : Block C) :
    b ∈ (st.handOut id b).live id := by
  show b ∈ Function.update st.live id (b :: st.live id) id
  rw [Function.update_self]
  exact List.mem_cons_self

/-- A block comes back. -/
def HeapState.takeBack (st : HeapState C) (id : PoolId) (b : Block C) : HeapState C :=
  { st with live := Function.update st.live id ((st.live id).erase b) }

/-- One call that returns. The loop over `m_segments` meets every key once; a
client frees a block it holds. -/
def HeapState.step (sys : System) (st : HeapState C) : HeapOp C → Option (HeapState C)
  | .allocate q env fuel =>
    match st.allocate sys env fuel q with
    | some (.ok b, id, st') =>
      if env.order.Perm (st.data id).segments then some (st'.handOut id b) else none
    | _ => none
  | .free b =>
    let id := (st.world.segmentAt b.segment).pool
    if b ∈ st.live id then (st.release b).map fun st' => st'.takeBack id b else none

/-- `HeapState.step` as a relation. -/
def HeapStep (sys : System) (st : HeapState C) (op : HeapOp C) (st' : HeapState C) : Prop :=
  st.step sys op = some st'

/-- A heap that was just constructed; the number 0 is the null pointer. -/
structure HeapState.Init (sys : System) (c : HeapConfig) (st : HeapState C) : Prop where
  heap : st.heap = HwMalloc.heap sys.topo c
  nextSegment : 1 ≤ st.world.nextSegment
  data : ∀ id, st.data id = ⟨[], []⟩
  live : ∀ id, st.live id = []

/-! ### What a call leaves alone

Of a segment only the freed stack and its counter change after the construction. A
call changes these two in the segments of its own pool, adds or destroys one of them,
and touches no other: this is all that the other pools need to know. -/

/-- A segment without what changes after its construction. -/
def Segment.fixed (g : Segment C) : Segment C := { g with freedStack := [], numFreed := 0 }

/-- What a call on a pool with the segments `segs` leaves of the world: the
segments of other pools, and what is fixed in all of them. -/
structure Untouched (segs : List Nat) (w w' : World C) : Prop where
  nextSegment : w.nextSegment ≤ w'.nextSegment
  others : ∀ s < w.nextSegment, s ∉ segs → w'.segmentAt s = w.segmentAt s
  fixed : ∀ s < w.nextSegment, (w'.segmentAt s).fixed = (w.segmentAt s).fixed

namespace Untouched

variable {segs : List Nat} {w w' w'' : World C}

theorem refl (segs : List Nat) (w : World C) : Untouched segs w w :=
  ⟨le_rfl, fun _ _ _ => rfl, fun _ _ => rfl⟩

theorem trans (h : Untouched segs w w') (h' : Untouched segs w' w'') : Untouched segs w w'' where
  nextSegment := h.nextSegment.trans h'.nextSegment
  others := fun s hs hnot =>
    (h'.others s (lt_of_lt_of_le hs h.nextSegment) hnot).trans (h.others s hs hnot)
  fixed := fun s hs => (h'.fixed s (lt_of_lt_of_le hs h.nextSegment)).trans (h.fixed s hs)

theorem of_collected {order : List Nat} {p p' : Pool C} (horder : order.Perm segs)
    (h : Collected order w p w' p') : Untouched segs w w' where
  nextSegment := by rw [h.world]
  others := fun s _ hs => by rw [h.segmentAt, if_neg fun hmem => hs (horder.mem_iff.mp hmem)]
  fixed := fun s _ => by
    rw [h.segmentAt]
    split <;> rfl

theorem of_grown {g : Segment C} {p p' : Pool C} (h : Grown w p g w' p') : Untouched segs w w' where
  nextSegment := by rw [h.nextSegment]; exact Nat.le_succ _
  others := fun s hs _ => by rw [h.segmentAt, Function.update_of_ne hs.ne]
  fixed := fun s hs => by rw [h.segmentAt, Function.update_of_ne hs.ne]

theorem of_segmentFree {b : Block C} (hb : b.segment ∈ segs) :
    Untouched segs w (segmentFree b w) where
  nextSegment := le_rfl
  others := fun s _ hs => segmentFree_segmentAt_ne fun heq => hs (heq ▸ hb)
  fixed := fun s _ => by
    by_cases hs : s = b.segment
    · rw [hs, segmentFree_segmentAt_self]
      rfl
    · rw [segmentFree_segmentAt_ne hs]

theorem of_eraseSegment {s : Nat} {p : Pool C} (hs : s ∈ segs) :
    Untouched segs w (p.eraseSegment s w).1 := by
  have herase : ∀ w : World C, Untouched segs w (p.erase s w).1 := by
    intro w
    unfold Pool.erase
    split
    · refine ⟨(destroySegment_nextSegment s w).ge, fun s' _ hs' => ?_, fun s' _ => ?_⟩
      · rw [destroySegment_segmentAt, if_neg fun heq : s' = s => hs' (heq ▸ hs)]
      · rw [destroySegment_segmentAt]
        split
        · next heq =>
          subst heq
          rfl
        · rfl
    · exact .refl segs w
  unfold Pool.eraseSegment
  split
  · -- The device id is no part of the segments.
    have h := herase (w.setDeviceId p.deviceId)
    exact ⟨h.nextSegment, h.others, h.fixed⟩
  · exact herase w

end Untouched

/-- A call of `allocate` that returns leaves the other pools alone, and its pool
has no new segment but the next one. -/
theorem allocate_untouched {sys : System} {env : AllocEnv C} {fuel : Nat} {w w' : World C}
    {p p' : Pool C} {b : Block C} (hnodup : p.segments.Nodup)
    (horder : env.order.Perm p.segments)
    (halloc : p.allocate sys env fuel w = some (.ok b, w', p')) :
    Untouched p.segments w w' ∧ ∀ s ∈ p'.segments, s ∈ p.segments ∨ s = w.nextSegment := by
  rcases allocate_ok (horder.nodup_iff.mpr hnodup) halloc with
    ⟨rfl, hpop⟩ | ⟨-, w₁, p₁, hcol, ⟨rfl, hpop⟩ | ⟨-, g, p₂, -, hgrown, hpop⟩⟩
  · refine ⟨.refl _ _, fun s hs => Or.inl ?_⟩
    rwa [hpop.pool] at hs
  · refine ⟨.of_collected horder hcol, fun s hs => Or.inl ?_⟩
    rwa [hpop.pool, hcol.pool] at hs
  · refine ⟨(Untouched.of_collected horder hcol).trans (.of_grown hgrown), fun s hs => ?_⟩
    rw [hpop.pool, hgrown.pool, hcol.pool, hcol.world] at hs
    exact (List.mem_cons.mp hs).symm

/-- A call of `free` leaves the other pools alone, and its pool gets no segment. -/
theorem free_untouched {w : World C} {p : Pool C} {b : Block C} (hb : b.segment ∈ p.segments) :
    Untouched p.segments w (p.free b w).1 ∧ ∀ s ∈ (p.free b w).2.segments, s ∈ p.segments := by
  rcases free_cases b w p with ⟨heq, -⟩ | ⟨heq, -⟩
  · rw [heq]
    exact ⟨.of_segmentFree hb, fun s hs => hs⟩
  · rw [heq]
    refine ⟨(Untouched.of_segmentFree hb).trans (.of_eraseSegment hb), fun s hs => ?_⟩
    rw [(eraseSegment_erased hb).pool] at hs
    exact List.mem_of_mem_erase hs

/-! ### Routing

The entry of a size is found again under its key, whatever entries other requests have
added since, so that a pool once chosen keeps its parameters. -/

namespace Heap

variable {topo : Topology} {c : HeapConfig} {h : Heap}

theorem find?_select (h : Heap) (size : Nat) {ref : HeapRef} {f : FixedSizeHeap}
    (hf : h.find? ref = some f) : (h.select size).1.find? ref = some f := by
  have hentry : ∀ s, (h.hugeEntry s).find? ref = some f := by
    intro s
    unfold hugeEntry
    cases hs : h.hugeHeaps.lookup s with
    | some f' => exact hf
    | none =>
      cases ref with
      | tiny i => exact hf
      | sized i => exact hf
      | huge key =>
        have hne : key ≠ s := by
          rintro rfl
          rw [find?, hs] at hf
          cases hf
        dsimp only [find?] at hf ⊢
        rw [List.lookup_cons, beq_eq_false_iff_ne.mpr hne]
        exact hf
  unfold select
  split
  · exact hf
  · split
    · exact hf
    · exact hentry _

/-- The dispatch makes new pools, and changes none. -/
theorem params?_select (h : Heap) (size : Nat) {id : PoolId} {params : PoolParams}
    (hp : h.params? id = some params) : (h.select size).1.params? id = some params := by
  obtain ⟨f, hf, hslot⟩ := Option.bind_eq_some_iff.mp hp
  rw [params?, find?_select h size hf]
  exact hslot

/-- Every heap that is found was made by one of the loops, or on demand. -/
theorem find?_eq_some (hw : h.WellFormed topo c) {ref : HeapRef} {f : FixedSizeHeap}
    (hf : h.find? ref = some f) : ∃ b g, f = makeFixedSizeHeap topo c b g := by
  cases ref with
  | tiny i =>
    rw [find?, hw.tinyHeaps_eq] at hf
    obtain ⟨j, hj⟩ := Lib.exists_write_of_mem_fill
      (List.mem_of_getElem? (Option.join_eq_some_iff.mp hf))
    obtain ⟨k, -, hk⟩ := List.mem_map.mp hj
    cases hk
    exact ⟨_, _, rfl⟩
  | sized i =>
    rw [find?, hw.heaps_eq] at hf
    obtain ⟨j, hj⟩ := Lib.exists_write_of_mem_fill
      (List.mem_of_getElem? (Option.join_eq_some_iff.mp hf))
    rcases List.mem_append.mp hj with hj | hj
    · rcases List.mem_append.mp hj with hj | hj
      · obtain ⟨k, -, hk⟩ := List.mem_map.mp hj
        cases hk
        exact ⟨_, _, rfl⟩
      · obtain ⟨k, -, hk⟩ := List.mem_map.mp hj
        cases hk
        exact ⟨_, _, rfl⟩
    · obtain ⟨k, -, hk⟩ := List.mem_map.mp hj
      cases hk
      exact ⟨_, _, rfl⟩
  | huge key => exact ⟨key, key, hw.huge key f hf⟩

/-- A pool has the sizes of its heap, and is a device pool in the slots for
these. -/
theorem params?_eq_some (hw : h.WellFormed topo c) {id : PoolId} {params : PoolParams}
    (hp : h.params? id = some params) :
    ∃ f, h.find? id.heap = some f ∧ params.blockSize = f.blockSize ∧
      params.allocateOnDevice = id.device := by
  obtain ⟨f, hf, hslot⟩ := Option.bind_eq_some_iff.mp hp
  obtain ⟨b, g, rfl⟩ := find?_eq_some hw hf
  obtain ⟨n, d, rfl, hd⟩ := poolAt_eq_some hslot
  refine ⟨_, hf, ?_, ?_⟩ <;> cases d
  · rfl
  · rfl
  · exact hd
  · exact hd

/-- What is known of the pool that serves a request. -/
theorem route_eq_some {q : Request} {h' : Heap} {id : PoolId} {params : PoolParams}
    (hroute : h.route q = some (h', id, params)) :
    h' = (h.select q.size).1 ∧ id.heap = (h.select q.size).2 ∧ h'.params? id = some params := by
  obtain ⟨slot, -, hmap⟩ := Option.bind_eq_some_iff.mp hroute
  obtain ⟨params', hparams, heq⟩ := Option.map_eq_some_iff.mp hmap
  cases heq
  exact ⟨rfl, rfl, hparams⟩

end Heap

/-! ### The invariant

Each pool satisfies its own invariant, in the world that it shares with the others. -/

/-- The invariant of a heap with the configuration `c`. -/
structure HeapInv (sys : System) (c : HeapConfig) (st : HeapState C) : Prop where
  heap : st.heap.WellFormed sys.topo c
  nextSegment_pos : 1 ≤ st.world.nextSegment
  segment_pos : ∀ id, ∀ s ∈ (st.data id).segments, 1 ≤ s
  /-- Where there is no pool object there are no segments and no blocks. -/
  absent : ∀ id, st.heap.params? id = none → st.data id = ⟨[], []⟩ ∧ st.live id = []
  pool : ∀ id params, st.heap.params? id = some params →
    PoolInv sys st.world (st.poolAt id params) (st.live id)

namespace HeapInv

variable {sys : System} {c : HeapConfig} {st : HeapState C}

theorem init (h : st.Init sys c) : HeapInv sys c st where
  heap := by rw [h.heap]; exact Heap.heap_wellFormed
  nextSegment_pos := h.nextSegment
  segment_pos := fun id s hs => by
    rw [h.data] at hs
    cases hs
  absent := fun id _ => ⟨h.data id, h.live id⟩
  pool := fun id params _ => by
    have hdata := h.data id
    rw [h.live]
    exact .nil (congrArg PoolData.freeStack hdata) (congrArg PoolData.segments hdata)

/-- A block is held under a pool that exists. -/
theorem params?_of_live (h : HeapInv sys c st) {id : PoolId} {b : Block C} (hb : b ∈ st.live id) :
    ∃ params, st.heap.params? id = some params := by
  cases hparams : st.heap.params? id with
  | some params => exact ⟨params, rfl⟩
  | none =>
    rw [(h.absent id hparams).2] at hb
    cases hb

theorem params?_of_segment (h : HeapInv sys c st) {id : PoolId} {s : Nat}
    (hs : s ∈ (st.data id).segments) : ∃ params, st.heap.params? id = some params := by
  cases hparams : st.heap.params? id with
  | some params => exact ⟨params, rfl⟩
  | none =>
    rw [(h.absent id hparams).1] at hs
    cases hs

/-- A segment knows its pool, so no two pools share one. -/
theorem segment_pool (h : HeapInv sys c st) {id : PoolId} {s : Nat}
    (hs : s ∈ (st.data id).segments) :
    s < st.world.nextSegment ∧ (st.world.segmentAt s).pool = id := by
  obtain ⟨params, hparams⟩ := h.params?_of_segment hs
  have hinv := h.pool id params hparams
  exact ⟨hinv.segments_lt s hs, (hinv.made s hs).pool⟩

/-- A block that is held belongs to a segment of its pool. -/
theorem live_segment (h : HeapInv sys c st) {id : PoolId} {b : Block C} (hb : b ∈ st.live id) :
    b.segment ∈ (st.data id).segments ∧ b.segment ≠ 0 ∧
      (st.world.segmentAt b.segment).pool = id := by
  obtain ⟨params, hparams⟩ := h.params?_of_live hb
  have hs := ((h.pool id params hparams).live_mem_blocks hb).1
  exact ⟨hs, Nat.one_le_iff_ne_zero.mp (h.segment_pos id _ hs), (h.segment_pool hs).2⟩

/-- A block that is held is one of the cells into which its segment is divided. -/
theorem live_cell (h : HeapInv sys c st) {id : PoolId} {b : Block C} (hb : b ∈ st.live id) :
    ∃ params i, st.heap.params? id = some params ∧
      i < (st.world.segmentAt b.segment).numBlocks ∧
      (st.world.segmentAt b.segment).blockAt b.segment params.deviceId i = b ∧
      (st.world.segmentAt b.segment).MadeBy sys id params := by
  obtain ⟨params, hparams⟩ := h.params?_of_live hb
  have hpool := h.pool id params hparams
  obtain ⟨hs, hmem⟩ := hpool.live_mem_blocks hb
  obtain ⟨i, hi, hblock⟩ := Segment.mem_blocks.mp hmem
  exact ⟨params, i, hparams, hi, hblock, hpool.made _ hs⟩

theorem ptr_ne_zero_of_live (h : HeapInv sys c st) {id : PoolId} {b : Block C}
    (hb : b ∈ st.live id) : b.ptr ≠ 0 := by
  obtain ⟨params, i, -, -, hblock, hmade⟩ := h.live_cell hb
  rw [← hblock, Segment.blockAt_ptr]
  exact fun hzero => hmade.ptr_ne_zero (Nat.add_eq_zero_iff.mp hzero).1

/-- The dispatch only makes new pools, which are empty. -/
theorem select (h : HeapInv sys c st) (size : Nat) :
    HeapInv sys c { st with heap := (st.heap.select size).1 } where
  heap := Heap.select_wellFormed h.heap size
  nextSegment_pos := h.nextSegment_pos
  segment_pos := h.segment_pos
  absent := fun id hnone => by
    cases hparams : st.heap.params? id with
    | some params => cases (st.heap.params?_select size hparams).symm.trans hnone
    | none => exact h.absent id hparams
  pool := fun id params hsome => by
    cases hparams : st.heap.params? id with
    | some params' =>
      obtain rfl := Option.some.inj ((st.heap.params?_select size hparams).symm.trans hsome)
      exact h.pool id params' hparams
    | none =>
      obtain ⟨hdata, hlive⟩ := h.absent id hparams
      change PoolInv sys st.world (st.poolAt id params) (st.live id)
      rw [hlive]
      exact .nil (congrArg PoolData.freeStack hdata) (congrArg PoolData.segments hdata)

/-- A call on one pool. -/
theorem setPool (h : HeapInv sys c st) {id : PoolId} {params : PoolParams} {w : World C}
    {p : Pool C} {live : List (Block C)} (hparams : st.heap.params? id = some params)
    (hsame : p.toPoolParams = params ∧ p.self = id) (hinv : PoolInv sys w p live)
    (huntouched : Untouched (st.data id).segments st.world w)
    (hsegs : ∀ s ∈ p.segments, s ∈ (st.data id).segments ∨ s = st.world.nextSegment) :
    HeapInv sys c { st.setPool id w p with live := Function.update st.live id live } where
  heap := h.heap
  nextSegment_pos := h.nextSegment_pos.trans huntouched.nextSegment
  segment_pos := fun id' s hs => by
    change s ∈ (Function.update st.data id ⟨p.freeStack, p.segments⟩ id').segments at hs
    by_cases hid : id' = id
    · subst hid
      rw [Function.update_self] at hs
      rcases hsegs s hs with hs | rfl
      · exact h.segment_pos _ s hs
      · exact h.nextSegment_pos
    · rw [Function.update_of_ne hid] at hs
      exact h.segment_pos _ s hs
  absent := fun id' hnone => by
    have hid : id' ≠ id := by
      rintro rfl
      cases hparams.symm.trans hnone
    change Function.update st.data id _ id' = _ ∧ Function.update st.live id live id' = []
    rw [Function.update_of_ne hid, Function.update_of_ne hid]
    exact h.absent id' hnone
  pool := fun id' params' hsome => by
    change PoolInv sys w
      { params' with
        self := id'
        freeStack := (Function.update st.data id ⟨p.freeStack, p.segments⟩ id').freeStack
        segments := (Function.update st.data id ⟨p.freeStack, p.segments⟩ id').segments }
      (Function.update st.live id live id')
    by_cases hid : id' = id
    · -- The pool of the call, with the parameters that it had before.
      subst hid
      obtain rfl := Option.some.inj (hparams.symm.trans hsome)
      obtain ⟨rfl, hself⟩ := hsame
      rw [Function.update_self, Function.update_self, ← hself]
      exact hinv
    · rw [Function.update_of_ne hid, Function.update_of_ne hid]
      -- The other pools have other segments.
      refine (h.pool id' params' hsome).frame huntouched.nextSegment fun s hs => ?_
      obtain ⟨hlt, hpool⟩ := h.segment_pool hs
      exact huntouched.others s hlt fun hs' => hid (hpool.symm.trans (h.segment_pool hs').2)

end HeapInv

/-! ### Runs

A call that does not return, because it throws or because the pool grows for ever, is
no step. -/

/-- What one call that returns can have done. -/
theorem heapStep_cases {sys : System} {st st' : HeapState C} {op : HeapOp C}
    (h : HeapStep sys st op st') :
    (∃ q env fuel id params b w p, op = .allocate q env fuel ∧
        st.heap.route q = some ((st.heap.select q.size).1, id, params) ∧
        (st.heap.select q.size).1.params? id = some params ∧
        env.order.Perm (st.data id).segments ∧
        (st.poolAt id params).allocate sys env fuel st.world = some (.ok b, w, p) ∧
        st' = ({ st with heap := (st.heap.select q.size).1 }.setPool id w p).handOut id b) ∨
      ∃ b id st₁, op = .free b ∧ id = (st.world.segmentAt b.segment).pool ∧ b ∈ st.live id ∧
        st.release b = some st₁ ∧ st' = st₁.takeBack id b := by
  rw [HeapStep, HeapState.step.eq_def] at h
  cases op with
  | allocate q env fuel =>
    left
    dsimp only at h
    split at h
    · next b id st₁ halloc =>
      split at h
      · next horder =>
        obtain ⟨⟨h₁, id', params⟩, hroute, hmap⟩ := Option.bind_eq_some_iff.mp halloc
        obtain ⟨⟨res, w, p⟩, hres, heq⟩ := Option.map_eq_some_iff.mp hmap
        obtain ⟨rfl, -, hparams⟩ := Heap.route_eq_some hroute
        cases heq
        cases h
        exact ⟨q, env, fuel, id, params, b, w, p, rfl, hroute, hparams, horder, hres, rfl⟩
      · cases h
    · cases h
  | free b =>
    right
    dsimp only at h
    split at h
    · next hb =>
      obtain ⟨st₁, hrelease, heq⟩ := Option.map_eq_some_iff.mp h
      exact ⟨b, _, st₁, rfl, rfl, hb, hrelease, heq.symm⟩
    · cases h

/-- `heap::allocate` is the call of `pool::allocate` on the pool that serves the
request. -/
theorem allocate_of_route {sys : System} {env : AllocEnv C} {fuel : Nat} {q : Request}
    {st : HeapState C} {h : Heap} {id : PoolId} {params : PoolParams}
    {res : Except FailurePoint (Block C)} {w : World C} {p : Pool C}
    (hroute : st.heap.route q = some (h, id, params))
    (hres : (st.poolAt id params).allocate sys env fuel st.world = some (res, w, p)) :
    st.allocate sys env fuel q = some (res, id, { st with heap := h }.setPool id w p) := by
  rw [HeapState.allocate, hroute, Option.bind_some]
  dsimp only
  rw [hres]
  rfl

/-- A call of `heap::allocate` that returns is a step. -/
theorem heapStep_of_allocate {sys : System} {env : AllocEnv C} {fuel : Nat} {q : Request}
    {st st₁ : HeapState C} {id : PoolId} {b : Block C}
    (halloc : st.allocate sys env fuel q = some (.ok b, id, st₁))
    (horder : env.order.Perm (st.data id).segments) :
    HeapStep sys st (.allocate q env fuel) (st₁.handOut id b) := by
  rw [HeapStep, HeapState.step.eq_def]
  dsimp only
  rw [halloc]
  exact if_pos horder

/-- A release of a block that is held is a step. -/
theorem heapStep_of_release {sys : System} {st st₁ : HeapState C} {b : Block C}
    (hb : b ∈ st.live (st.world.segmentAt b.segment).pool) (hrelease : st.release b = some st₁) :
    HeapStep sys st (.free b) (st₁.takeBack (st.world.segmentAt b.segment).pool b) := by
  rw [HeapStep, HeapState.step.eq_def]
  dsimp only
  rw [if_pos hb, hrelease]
  rfl

/-- The release of a block that is held is a call of `pool::free` on its pool. -/
theorem release_of_live {sys : System} {c : HeapConfig} {st st' : HeapState C} {b : Block C}
    {id : PoolId} (h : HeapInv sys c st) (hb : b ∈ st.live id)
    (hrelease : st.release b = some st') :
    ∃ params, st.heap.params? id = some params ∧
      st' = st.setPool id ((st.poolAt id params).free b st.world).1
        ((st.poolAt id params).free b st.world).2 := by
  obtain ⟨-, hne, hpool⟩ := h.live_segment hb
  rw [HeapState.release, if_pos hne, HeapState.releaseFromSegment, hpool] at hrelease
  obtain ⟨params, hparams, heq⟩ := Option.map_eq_some_iff.mp hrelease
  exact ⟨params, hparams, heq.symm⟩

/-- The release of a block that is held never gets stuck. -/
theorem HeapInv.exists_release {sys : System} {c : HeapConfig} {st : HeapState C} {b : Block C}
    {id : PoolId} (h : HeapInv sys c st) (hb : b ∈ st.live id) :
    ∃ st', st.release b = some st' := by
  obtain ⟨params, hparams⟩ := h.params?_of_live hb
  obtain ⟨-, hne, hpool⟩ := h.live_segment hb
  rw [HeapState.release, if_pos hne, HeapState.releaseFromSegment, hpool, hparams]
  exact ⟨_, rfl⟩

/-- A client can return every block that it holds. -/
theorem HeapInv.exists_free {sys : System} {c : HeapConfig} {st : HeapState C} {b : Block C}
    {id : PoolId} (h : HeapInv sys c st) (hb : b ∈ st.live id) :
    ∃ st', HeapStep sys st (.free b) st' := by
  obtain ⟨st₁, hrelease⟩ := h.exists_release hb
  obtain ⟨-, -, hpool⟩ := h.live_segment hb
  exact ⟨_, heapStep_of_release (hpool.symm ▸ hb) hrelease⟩

theorem HeapInv.step {sys : System} {c : HeapConfig} {st st' : HeapState C} {op : HeapOp C}
    (h : HeapInv sys c st) (hstep : HeapStep sys st op st') : HeapInv sys c st' := by
  rcases heapStep_cases hstep with
    ⟨q, env, fuel, id, params, b, w, p, -, -, hparams, horder, halloc, rfl⟩ |
    ⟨b, id, st₁, -, -, hb, hrelease, rfl⟩
  · -- The dispatch may make a pool, which is empty, and `pool::allocate` follows it.
    have hsel := h.select q.size
    have hinv := hsel.pool id params hparams
    obtain ⟨huntouched, hsegs⟩ := allocate_untouched hinv.segments_nodup horder halloc
    exact hsel.setPool hparams
      (Pool.toPoolParams_eq_of_allocate (horder.nodup_iff.mpr hinv.segments_nodup) halloc)
      (hinv.allocated horder halloc) huntouched hsegs
  · -- The segment of the block leads to its pool.
    obtain ⟨params, hparams, rfl⟩ := release_of_live h hb hrelease
    have hinv := h.pool id params hparams
    obtain ⟨huntouched, hsegs⟩ :=
      free_untouched (w := st.world) (p := st.poolAt id params) (h.live_segment hb).1
    exact h.setPool hparams (Pool.toPoolParams_eq_of_free b _ _) (hinv.freed hb) huntouched
      fun s hs => Or.inl (hsegs s hs)

/-- The invariant holds in every state that the calls of one thread can reach. -/
theorem reachable_heapInv {sys : System} {c : HeapConfig} {st : HeapState C}
    (h : Lib.Reachable (HeapState.Init sys c) (HeapStep sys) st) : HeapInv sys c st :=
  h.invariant (fun _ => HeapInv.init) fun _ _ _ => HeapInv.step

/-- A heap that has not allocated yet, on a machine from which nothing was
obtained. -/
def freshHeap (sys : System) (c : HeapConfig) : HeapState rangeContext where
  heap := heap sys.topo c
  world := emptyWorld
  data := fun _ => ⟨[], []⟩
  live := fun _ => []

theorem freshHeap_init (sys : System) (c : HeapConfig) : (freshHeap sys c).Init sys c :=
  ⟨rfl, le_rfl, fun _ => rfl, fun _ => rfl⟩

end HwMalloc
