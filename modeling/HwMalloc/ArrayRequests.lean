import HwMalloc.LiveRanges
import HwMalloc.UsableSegments

/-!
# HwMalloc.ArrayRequests

Requests for arrays: `allocator::allocate` and the array version of
`heap::make_unique` multiply the count by the size of the elements and pass the
product on, without a check. `arrays_served_iff` says for which products the
callers get what they asked for.

It fails at both ends. The product 0 has no tiny class, since its index wraps to
the largest `size_t`. A product above `2 ^ 31` is served by a class with smaller
blocks, either because the product itself wraps or because the rounding does.

To serve a request means here that the call ends, in every reachable state and whatever
the environment answers, and that it does so by an exception or with a block that holds
the product (`Served`). So the proof has two halves:

* the call ends: every segment of a class up to `2 ^ 31` bytes has a block, so the loop
  that grows the pool turns at most twice;
* the block is large enough: that is the table lookup of `HwMalloc.HeapTables`, and for
  the huge classes that of `HwMalloc.HugeHeaps`.

For the other direction a machine that grants everything is enough (`grantedEnv`): the
call returns there as well, with a block that is too small, or cannot be made.
-/

namespace HwMalloc

variable {C : Context}

/-- The call that the array version of `heap::make_unique` makes for `size`
elements of `w` bytes. -/
def makeUniqueRequest (w size numaNode localNode : Nat) : Request :=
  { size := mulSize w size, numaNode := numaNode, localNode := localNode }

/-- `sysconf` returns the page size as a positive `long`. -/
def ValidPages (sys : System) : Prop := 0 < sys.pageSize ∧ sys.pageSize < 2 ^ 63

/-- `b` is a block that a client holds under `id`, and that lies in the memory of
a segment of this pool. -/
structure ValidBlock (st : HeapState C) (id : PoolId) (b : Block C) : Prop where
  held : b ∈ st.live id
  segment : b.segment ∈ (st.data id).segments
  blockSize : ∃ f, st.heap.find? id.heap = some f ∧
    (st.world.segmentAt b.segment).blockSize = f.blockSize
  inside : st.addrs b ⊆ (st.world.segmentAt b.segment).allocation.addrs

/-- A call for `bytes` bytes is served in the state `st`. -/
structure Served (sys : System) (st : HeapState C) (bytes : Nat) (q : Request) : Prop where
  /-- The index of the size class is inside its table. -/
  index : ∃ f, (st.heap.select q.size).1.find? (st.heap.select q.size).2 = some f
  /-- The call returns or throws; which nodes have a pool is the subject of
  `HwMalloc.PoolTables`. -/
  ends : ∀ f, (st.heap.select q.size).1.find? (st.heap.select q.size).2 = some f →
    (f.requestPool sys.topo q.localNode q.numaNode q.deviceId).isSome →
      ∀ env fuel, 2 ≤ fuel → (st.allocate sys env fuel q).isSome
  /-- If it returns, the block is valid and has at least `bytes` bytes. -/
  block : ∀ env fuel st', HeapStep sys st (.allocate q env fuel) st' →
    ∃ id b, id.heap = (st.heap.select q.size).2 ∧
      st'.live = Function.update st.live id (b :: st.live id) ∧ ValidBlock st' id b ∧
      bytes ≤ (st'.world.segmentAt b.segment).blockSize

/-! ### The classes of the default configuration

Every class that a request can be routed to has room for a block in its segments. -/

/-- A segment has at least the bytes that its pool asked for. -/
theorem le_segmentBytes {sys : System} (hpages : ValidPages sys) {g : Nat} (h1 : 0 < g)
    (h2 : g < 2 ^ 32) : g ≤ segmentBytes sys g := by
  obtain ⟨hpos, hlt⟩ := hpages
  rw [le_segmentBytes_iff hpos (by omega) h1 h1 h2]
  exact ⟨by omega, Lib.le_div_mul_of_pos hpos⟩

/-- A segment of any class that a request can find holds at least one block. -/
theorem segmentBlocks_of_select {sys : System} {h : Heap} (hpages : ValidPages sys)
    (hw : h.WellFormed sys.topo defaultConfig) {size : Nat} {f : FixedSizeHeap}
    (hf : (h.select size).1.find? (h.select size).2 = some f) :
    1 ≤ segmentBytes sys f.segmentSize / f.blockSize := by
  obtain ⟨t, s, l, hc⟩ := heapConfig_shape heapConfig_default
  have hbytes : ∀ g : Nat, 0 < g → g < 2 ^ 32 → g ≤ segmentBytes sys g := fun g =>
    le_segmentBytes hpages
  by_cases htiny : size ≤ defaultConfig.tinyLimit
  · have husable : ∀ f, some f ∈ tinyHeaps sys.topo defaultConfig →
        f.Usable rangeContext sys :=
      (tinyHeaps_usable_iff hc).mpr fun _ =>
        le_trans (by decide) (hbytes 65536 (by decide) (by decide))
    rw [Heap.select, hw.config_eq, if_pos htiny, Heap.find?, hw.tinyHeaps_eq] at hf
    exact (husable f (List.mem_of_getElem? (Option.join_eq_some_iff.mp hf))).1
  · by_cases hsized : size ≤ maxSize defaultConfig
    · have husable : ∀ f, some f ∈ heaps sys.topo defaultConfig → f.Usable rangeContext sys :=
        (heaps_usable_iff hc).mpr
          ⟨le_trans (by decide) (hbytes 65536 (by decide) (by decide)),
            hbytes 2097152 (by decide) (by decide), fun _ => hbytes _ (by decide) (by decide)⟩
      rw [Heap.select, hw.config_eq, hw.maxSize_eq, if_neg htiny, if_pos hsized, Heap.find?,
        hw.heaps_eq] at hf
      exact (husable f (List.mem_of_getElem? (Option.join_eq_some_iff.mp hf))).1
    · -- Block size and segment size of an entry of the map are its key.
      have hlookup := Heap.hugeEntry_lookup hw (roundToPowOf2 size)
      rw [Heap.select_huge hw (limits_le_maxSize heapConfig_default).1 (not_le.mp hsized)] at hf
      obtain rfl := Option.some.inj (hlookup.symm.trans hf)
      obtain ⟨hpos, hlt⟩ := roundToPowOf2_range size
      exact Nat.div_pos (hbytes _ hpos hlt) hpos

/-! ### The call ends

`allocate` looks at the free stack, then collects, then grows; after one segment the
pop cannot fail, for one thread. -/

/-- With at least one block in each segment, the loop ends whatever
`add_segment` does. -/
theorem growLoop_isSome {sys : System} {grow : Nat → GrowEnv C} {w : World C} {p : Pool C}
    (hN : 1 ≤ segmentBlocks sys p.toPoolParams) {fuel : Nat} (hfuel : 2 ≤ fuel) :
    (growLoop sys grow fuel 0 w p).isSome := by
  cases hadd : addSegment sys (grow 0) w p with
  | mk res rest =>
    cases res with
    | ok u =>
      obtain ⟨_, _, _, _, hloop, -⟩ := growLoop_ends hN hadd hfuel
      rw [hloop]
      rfl
    | error e =>
      obtain ⟨fuel, rfl⟩ : ∃ k, fuel = k + 1 := ⟨fuel - 1, by omega⟩
      rw [growLoop]
      cases p.popFree with
      | some bp => rfl
      | none =>
        dsimp only
        rw [if_pos rfl, Nat.zero_div, hadd]
        rfl

theorem collectAll_toPoolParams (order : List Nat) :
    ∀ (w : World C) (p : Pool C), (collectAll order w p).2.toPoolParams = p.toPoolParams := by
  induction order with
  | nil => intro w p; rfl
  | cons s order ih => intro w p; exact ih _ _

theorem Pool.allocate_isSome {sys : System} {env : AllocEnv C} {w : World C} {p : Pool C}
    (hN : 1 ≤ segmentBlocks sys p.toPoolParams) {fuel : Nat} (hfuel : 2 ≤ fuel) :
    (p.allocate sys env fuel w).isSome := by
  unfold Pool.allocate
  cases p.popFree with
  | some bp => rfl
  | none =>
    dsimp only
    cases (collectAll env.order w p).2.popFree with
    | some bp => rfl
    | none =>
      dsimp only
      rw [← collectAll_toPoolParams env.order w p] at hN
      have hloop : (growLoop sys env.grow fuel 0 (collectAll env.order w p).1
          (collectAll env.order w p).2).isSome := growLoop_isSome hN hfuel
      obtain ⟨⟨res, w₁, p₁⟩, hres⟩ := Option.isSome_iff_exists.mp hloop
      rw [hres]
      cases res <;> rfl

/-- Where the selected heap has a pool for the request, the request is routed to
it. -/
theorem Heap.route_of_requestPool {topo : Topology} {c : HeapConfig} {h : Heap}
    (hw : h.WellFormed topo c) {q : Request} {f : FixedSizeHeap} {params : PoolParams}
    (hf : (h.select q.size).1.find? (h.select q.size).2 = some f)
    (hpool : f.requestPool topo q.localNode q.numaNode q.deviceId = some params) :
    ∃ id, h.route q = some ((h.select q.size).1, id, params) := by
  obtain ⟨slot, hslot, hat⟩ := Option.bind_eq_some_iff.mp hpool
  rw [← (select_wellFormed hw q.size).topo_eq] at hslot
  have hparams : (h.select q.size).1.params? ⟨(h.select q.size).2, slot.1, slot.2⟩ =
      some params := by
    rw [Heap.params?, hf]
    exact hat
  exact ⟨⟨(h.select q.size).2, slot.1, slot.2⟩,
    Option.bind_eq_some_iff.mpr ⟨slot, hslot, Option.map_eq_some_iff.mpr ⟨params, hparams, rfl⟩⟩⟩

/-- The pool that serves a request has the sizes of the selected heap. -/
theorem requestPool_sizes {topo : Topology} {c : HeapConfig} {h : Heap}
    (hw : h.WellFormed topo c) {q : Request} {f : FixedSizeHeap} {params : PoolParams}
    {ref : HeapRef} (hf : h.find? ref = some f)
    (hpool : f.requestPool topo q.localNode q.numaNode q.deviceId = some params) :
    params.blockSize = f.blockSize ∧ params.segmentSize = f.segmentSize := by
  obtain ⟨slot, -, hat⟩ := Option.bind_eq_some_iff.mp hpool
  obtain ⟨b, g, rfl⟩ := Heap.find?_eq_some hw hf
  obtain ⟨n, d, rfl, -⟩ := poolAt_eq_some hat
  cases d <;> exact ⟨rfl, rfl⟩

theorem HeapState.allocate_isSome {sys : System} {st : HeapState C} (hpages : ValidPages sys)
    (hw : st.heap.WellFormed sys.topo defaultConfig) {q : Request} {f : FixedSizeHeap}
    (hf : (st.heap.select q.size).1.find? (st.heap.select q.size).2 = some f)
    (hpool : (f.requestPool sys.topo q.localNode q.numaNode q.deviceId).isSome)
    (env : AllocEnv C) {fuel : Nat} (hfuel : 2 ≤ fuel) :
    (st.allocate sys env fuel q).isSome := by
  obtain ⟨params, hparams⟩ := Option.isSome_iff_exists.mp hpool
  obtain ⟨id, hroute⟩ := Heap.route_of_requestPool hw hf hparams
  obtain ⟨hblock, hseg⟩ := requestPool_sizes (Heap.select_wellFormed hw q.size) hf hparams
  have hN : 1 ≤ segmentBlocks sys (st.poolAt id params).toPoolParams := by
    change 1 ≤ segmentBytes sys params.segmentSize / params.blockSize
    rw [hblock, hseg]
    exact segmentBlocks_of_select hpages hw hf
  have hcall : ((st.poolAt id params).allocate sys env fuel st.world).isSome :=
    Pool.allocate_isSome hN hfuel
  obtain ⟨res, hres⟩ := Option.isSome_iff_exists.mp hcall
  rw [allocate_of_route hroute hres]
  rfl

/-! ### What is served

A valid block is what the callers rely on: memory of at least the size of the request,
inside a segment that is there. -/

/-- Every positive size finds a class. -/
theorem exists_select {topo : Topology} {a : HeapConfigArgs} {c : HeapConfig} {h : Heap}
    (hc : heapConfig a = .ok c) (hinc : tinyIncrement ≤ c.tinyLimit) (hw : h.WellFormed topo c)
    {size : Nat} (h1 : 1 ≤ size) :
    ∃ f, (h.select size).1.find? (h.select size).2 = some f := by
  obtain ⟨t, s, l, hshape⟩ := heapConfig_shape hc
  by_cases htiny : size ≤ c.tinyLimit
  · have hfits : TinyFits topo c size := tinyFits_of_le hshape hinc h1 htiny
    obtain ⟨-, f, hget, -⟩ := hfits
    rw [Heap.select, hw.config_eq, if_pos htiny, Heap.find?, hw.tinyHeaps_eq, hget]
    exact ⟨f, rfl⟩
  · by_cases hsized : size ≤ maxSize c
    · obtain ⟨f, hget, -⟩ := @heaps_bucketIndex topo _ _ _ _ hshape _ (not_le.mp htiny) hsized
      rw [Heap.select, hw.config_eq, hw.maxSize_eq, if_neg htiny, if_pos hsized, Heap.find?,
        hw.heaps_eq, hget]
      exact ⟨f, rfl⟩
    · rw [Heap.select_huge hw (limits_le_maxSize hc).1 (not_le.mp hsized)]
      exact ⟨_, Heap.hugeEntry_lookup hw _⟩

theorem HeapInv.validBlock {sys : System} {c : HeapConfig} {st : HeapState C}
    (h : HeapInv sys c st) {id : PoolId} {b : Block C} (hb : b ∈ st.live id) :
    ValidBlock st id b := by
  obtain ⟨params, i, hparams, -, -, hmade⟩ := h.live_cell hb
  obtain ⟨f, hf, hsize, -⟩ := Heap.params?_eq_some h.heap hparams
  exact ⟨hb, (h.live_segment hb).1, ⟨f, hf, hmade.blockSize.trans hsize⟩, h.addrs_subset hb⟩

/-- What a call hands out: a valid block of the selected class. -/
theorem HeapInv.allocated_validBlock {sys : System} {c : HeapConfig} {st st' : HeapState C}
    {q : Request} {env : AllocEnv C} {fuel : Nat} (h : HeapInv sys c st)
    (hstep : HeapStep sys st (.allocate q env fuel) st') :
    ∃ id b f, id.heap = (st.heap.select q.size).2 ∧
      st'.live = Function.update st.live id (b :: st.live id) ∧ ValidBlock st' id b ∧
      (st.heap.select q.size).1.find? (st.heap.select q.size).2 = some f ∧
      (st'.world.segmentAt b.segment).blockSize = f.blockSize := by
  have hinv' := h.step hstep
  rcases heapStep_cases hstep with
    ⟨q', env', fuel', id, params, b, w, p, hop, hroute, -, -, -, rfl⟩ | ⟨b, id, st₁, hop, -⟩
  · cases hop
    obtain ⟨-, hid, -⟩ := Heap.route_eq_some hroute
    have hvalid := hinv'.validBlock (HeapState.mem_handOut_live _ id b)
    obtain ⟨f, hf, hsize⟩ := hvalid.blockSize
    rw [hid] at hf
    exact ⟨id, b, f, hid, rfl, hvalid, hf, hsize⟩
  · cases hop

/-- Sizes up to `2 ^ 31` are served in every state. -/
theorem served_of_le {sys : System} {st : HeapState C} (hpages : ValidPages sys)
    (h : HeapInv sys defaultConfig st) {q : Request} (h1 : 1 ≤ q.size) (h2 : q.size ≤ 2 ^ 31) :
    Served sys st q.size q where
  index := exists_select heapConfig_default (by decide) h.heap h1
  ends := fun _ hf hpool env _ => HeapState.allocate_isSome hpages h.heap hf hpool env
  block := fun env fuel st' hstep => by
    obtain ⟨id, b, f, hid, hlive, hvalid, hf, hsize⟩ := h.allocated_validBlock hstep
    refine ⟨id, b, hid, hlive, hvalid, ?_⟩
    rw [hsize]
    exact le_blockSize_of_select heapConfig_default h.heap h1 h2 hf

/-! ### What is not served

The sizes that wrap, on the way to the index or in the rounding. -/

/-- No class has blocks of more than `2 ^ 31` bytes. -/
theorem blockSize_le_of_select {topo : Topology} {a : HeapConfigArgs} {c : HeapConfig} {h : Heap}
    (hc : heapConfig a = .ok c) (hw : h.WellFormed topo c) {size : Nat} (h1 : 1 ≤ size)
    {f : FixedSizeHeap} (hf : (h.select size).1.find? (h.select size).2 = some f) :
    f.blockSize ≤ 2 ^ 31 := by
  rcases select_class hc hw h1 hf with ⟨htiny, hmul⟩ | ⟨-, hle, hpow⟩ | ⟨-, hle⟩
  · have hlimit : c.tinyLimit ≤ 2 ^ 31 := (limits_le_maxSize hc).1.trans (maxSize_le hc)
    exact hmul.2 ⟨by rw [tinyIncrement_eq]; decide, htiny.trans hlimit⟩
  · exact hpow.2 ⟨⟨31, rfl⟩, hle⟩
  · exact hle

/-- The index of the empty request is the largest `size_t`. -/
theorem select_zero {topo : Topology} {h : Heap} (hw : h.WellFormed topo defaultConfig) :
    (h.select 0).1.find? (h.select 0).2 = none := by
  rw [Heap.select, hw.config_eq, if_pos (Nat.zero_le _), Heap.find?, hw.tinyHeaps_eq,
    List.getElem?_eq_none]
  · rfl
  · rw [tinyHeaps, Lib.fill_length]
    decide

/-- A loop over handles that are all granted pushes every block. -/
theorem pushBlocks_fst_none {failAt : Nat → Option FailurePoint} {blockAt : Nat → Block C}
    (hfail : ∀ i, failAt i = none) (n : Nat) :
    ∀ stack, (pushBlocks failAt blockAt n stack).1 = none := by
  induction n with
  | zero => intro stack; rfl
  | succ n ih =>
    intro stack
    rw [pushBlocks, hfail]
    exact ih _

theorem constructSegment_grantAt (base : Nat) (g : Segment rangeContext) (w : World rangeContext)
    (p : Pool rangeContext) :
    ∃ w' p', constructSegment (grantAt base) g w p = (.ok (), w', p') := by
  unfold constructSegment
  split
  · next hthrows => cases hthrows
  · split
    · next e stack hpush =>
      have hnone := congrArg Prod.fst hpush
      have hfail : ∀ i, handleFailure (grantAt base) g.deviceRegion.isSome i = none := by
        cases g.deviceRegion <;> exact fun i => rfl
      rw [pushBlocks_fst_none hfail] at hnone
      cases hnone
    · exact ⟨_, _, rfl⟩

/-- Where all calls succeed, a host pool of the node 0 gets its segment. -/
theorem addSegment_grantAt {base : Nat} (hbase : base ≠ 0) (w : World rangeContext)
    {p : Pool rangeContext} (hdev : p.allocateOnDevice = false) (hnode : p.numaNode = 0)
    (hpages : numPages stubSystem p.segmentSize ≠ 0) :
    ∃ w' p', addSegment stubSystem (grantAt base) w p = (.ok (), w', p') := by
  have hcan : canAllocateOn stubSystem p.numaNode = true := by
    rw [hnode]
    decide
  obtain ⟨a, hptr, hanode, hnuma⟩ : ∃ a : Allocation, a.ptr = base ∧ a.node = p.numaNode ∧
      numaAllocate stubSystem (grantAt base).numa (numPages stubSystem p.segmentSize) p.numaNode w =
        (a, w.acquire (.numa a)) := by
    refine ⟨⟨base, mulSize (numPages stubSystem p.segmentSize) 4096, p.numaNode, true⟩, rfl, rfl,
      ?_⟩
    rw [numaAllocate, if_neg hpages, hcan]
    exact if_neg hbase
  rw [addSegment, hnuma]
  dsimp only
  rw [checkAllocation, hptr, if_neg hbase, if_neg (not_not.mpr hanode)]
  dsimp only
  rw [hdev, if_neg Bool.false_ne_true]
  exact constructSegment_grantAt base _ _ p

/-- All memory is granted at the address 4096. -/
def grantedEnv : AllocEnv rangeContext where
  order := []
  grow := fun _ => grantAt 4096

theorem allocate_grantedEnv {p : Pool rangeContext} (w : World rangeContext)
    (hempty : p.freeStack = []) (hdev : p.allocateOnDevice = false) (hnode : p.numaNode = 0)
    (hN : 1 ≤ segmentBlocks stubSystem p.toPoolParams) :
    ∃ b w' p', p.allocate stubSystem grantedEnv 2 w = some (.ok b, w', p') := by
  have hpages : numPages stubSystem p.segmentSize ≠ 0 := fun hzero => by
    rw [segmentBlocks, segmentBytes, hzero, mulSize, Nat.zero_mul, Nat.zero_mod,
      Nat.zero_div] at hN
    cases hN
  obtain ⟨w₁, p₁, hadd⟩ : ∃ w₁ p₁,
      addSegment stubSystem (grantedEnv.grow 0) w p = (.ok (), w₁, p₁) :=
    addSegment_grantAt (by decide) w hdev hnode hpages
  obtain ⟨b, counter, w', p', hloop, -⟩ := growLoop_ends hN hadd (Nat.le_refl 2)
  have hpop := popFree_eq_none.mpr hempty
  have hcollect : collectAll grantedEnv.order w p = (w, p) := rfl
  refine ⟨b, w', p', ?_⟩
  rw [Pool.allocate, hpop, hcollect]
  dsimp only
  rw [hpop]
  dsimp only
  rw [hloop]

/-- On a new heap every request that finds a class gets a block of it. -/
theorem exists_step {size : Nat} {f : FixedSizeHeap}
    (hf : ((freshHeap stubSystem defaultConfig).heap.select size).1.find?
      ((freshHeap stubSystem defaultConfig).heap.select size).2 = some f) :
    ∃ st', HeapStep stubSystem (freshHeap stubSystem defaultConfig)
      (.allocate { size := size, numaNode := 0, localNode := 0 } grantedEnv 2) st' := by
  have hw : (freshHeap stubSystem defaultConfig).heap.WellFormed stubSystem.topo defaultConfig :=
    Heap.heap_wellFormed
  obtain ⟨b, g, rfl⟩ := Heap.find?_eq_some (Heap.select_wellFormed hw size) hf
  have hpages : ValidPages stubSystem := ⟨by decide, by decide⟩
  have hN := segmentBlocks_of_select hpages hw hf
  obtain ⟨id, hroute⟩ : ∃ id, (freshHeap stubSystem defaultConfig).heap.route
      { size := size, numaNode := 0, localNode := 0 } = some (_, id, pool b g 0 false 16) :=
    Heap.route_of_requestPool hw hf rfl
  obtain ⟨blk, w', p', halloc⟩ : ∃ blk w' p',
      ((freshHeap stubSystem defaultConfig).poolAt id (pool b g 0 false 16)).allocate stubSystem
        grantedEnv 2 (freshHeap stubSystem defaultConfig).world = some (.ok blk, w', p') :=
    allocate_grantedEnv _ rfl rfl rfl hN
  exact ⟨_, heapStep_of_allocate (allocate_of_route hroute halloc) (List.Perm.refl [])⟩

theorem heap_of_allocate {sys : System} {st st' : HeapState C} {q : Request} {env : AllocEnv C}
    {fuel : Nat} (hstep : HeapStep sys st (.allocate q env fuel) st') :
    st'.heap = (st.heap.select q.size).1 := by
  rcases heapStep_cases hstep with
    ⟨q', env', fuel', id, params, b, w, p, hop, -, -, -, -, rfl⟩ | ⟨b, id, st₁, hop, -⟩
  · cases hop
    rfl
  · cases hop

/-- A new heap serves an array only if the product is between 1 and `2 ^ 31`. -/
theorem bounds_of_served {n w : Nat}
    (h : Served stubSystem (freshHeap stubSystem defaultConfig) (n * w)
      (allocatorRequest n w 0 0)) : 1 ≤ n * w ∧ n * w ≤ 2 ^ 31 := by
  have hw : (freshHeap stubSystem defaultConfig).heap.WellFormed stubSystem.topo defaultConfig :=
    Heap.heap_wellFormed
  obtain ⟨f, hf⟩ := h.index
  have h1 : 1 ≤ mulSize n w := by
    refine Nat.pos_of_ne_zero fun hzero => ?_
    have hsize : (allocatorRequest n w 0 0).size = 0 := hzero
    rw [hsize, select_zero hw] at hf
    cases hf
  obtain ⟨st', hstep⟩ := exists_step hf
  obtain ⟨id, b, hid, -, hvalid, hle⟩ := h.block _ _ _ hstep
  obtain ⟨f', hf', hsize⟩ := hvalid.blockSize
  rw [heap_of_allocate hstep, hid] at hf'
  refine ⟨h1.trans (Nat.mod_le _ _), hle.trans ?_⟩
  rw [hsize]
  exact blockSize_le_of_select heapConfig_default hw h1 hf'

/-! ### The condition -/

/-- Arrays are served, on every machine and in every state of the heap, exactly
when the exact product of their count and element size is between 1 and
`2 ^ 31`. -/
theorem arrays_served_iff (n w : Nat) :
    (∀ (C : Context) (sys : System) (st : HeapState C), ValidPages sys →
      Lib.Reachable (HeapState.Init sys defaultConfig) (HeapStep sys) st →
        ∀ numaNode localNode,
          Served sys st (n * w) (allocatorRequest n w numaNode localNode) ∧
            Served sys st (n * w) (makeUniqueRequest w n numaNode localNode)) ↔
      1 ≤ n * w ∧ n * w ≤ 2 ^ 31 := by
  constructor
  · intro h
    have hfresh := h rangeContext stubSystem (freshHeap stubSystem defaultConfig)
      ⟨by decide, by decide⟩ (.of_init (freshHeap_init _ _)) 0 0
    exact bounds_of_served hfresh.1
  · rintro ⟨h1, h2⟩ C sys st hpages hreach numaNode localNode
    have hinv := reachable_heapInv hreach
    have hsize : mulSize n w = n * w := mulSize_of_lt (lt_of_le_of_lt h2 (by decide))
    have hsize' : mulSize w n = n * w := by rw [← hsize, mulSize, mulSize, Nat.mul_comm]
    have hserved : ∀ q : Request, q.size = n * w → Served sys st (n * w) q := by
      intro q hq
      rw [← hq] at h1 h2 ⊢
      exact served_of_le hpages hinv h1 h2
    exact ⟨hserved _ hsize, hserved _ hsize'⟩

/-- The byte count of `2 ^ 61 + 1` elements of 8 bytes wraps to 8, so the block
holds one of them; an empty array reads outside the table. -/
theorem wrappedArray_not_served :
    (allocatorRequest (2 ^ 61 + 1) 8 0 0).size = 8 ∧
      ¬Served stubSystem (freshHeap stubSystem defaultConfig) ((2 ^ 61 + 1) * 8)
        (allocatorRequest (2 ^ 61 + 1) 8 0 0) ∧
      ¬Served stubSystem (freshHeap stubSystem defaultConfig) (0 * 8)
        (allocatorRequest 0 8 0 0) :=
  ⟨rfl, fun h => absurd (bounds_of_served h).2 (by decide),
    fun h => absurd (bounds_of_served h).1 (by decide)⟩

end HwMalloc
