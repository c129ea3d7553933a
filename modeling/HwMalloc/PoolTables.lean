import HwMalloc.FixedSizeHeap

/-!
# HwMalloc.PoolTables

The tables of pools in a `fixed_size_heap`: what the constructor writes to
`m_pools` and `m_device_pools`, and which slot a request reads. Writer and
reader number the nodes through the same `node_map` and address the device
pools by the same row-major formula, so each request for a node of the map finds
the pool that was built for it. A request for another node finds the pool of the
node on which the caller runs, provided that this one is in the map.
-/

namespace HwMalloc

/-- The pool that the constructor makes for a node, and a device if there is
one. -/
def poolFor (blockSize segmentSize : Nat) (neverFree : Bool) (numReserveSegments numaNode : Nat) :
    Option Int → PoolParams
  | none => pool blockSize segmentSize numaNode neverFree numReserveSegments
  | some d => devicePool blockSize segmentSize numaNode d neverFree numReserveSegments

/-- No device, or one of the devices that the runtime counts. -/
def ValidDevice (numDevices : Nat) : Option Int → Prop
  | none => True
  | some d => 0 ≤ d ∧ d < numDevices

theorem ValidDevice.exists_nat {numDevices : Nat} {d : Int} (h : ValidDevice numDevices (some d)) :
    ∃ j < numDevices, d = (j : Int) := by
  obtain ⟨j, rfl⟩ := Int.eq_ofNat_of_zero_le h.1
  exact ⟨j, Int.ofNat_lt.mp h.2, rfl⟩

section

variable {ids : List Nat} {D blockSize segmentSize numReserveSegments : Nat} {neverFree : Bool}

/-- The topology of a machine with the local nodes `ids` and `D` devices. -/
def topologyOf (ids : List Nat) (D : Nat) : Topology := ⟨NodeMap.ofList ids, D⟩

/-! ### The writer side

Two nested loops over the nodes and the devices; every slot is written once. -/

theorem poolWrites_filledOnce :
    Lib.FilledOnce ids.length
      (poolWrites (topologyOf ids D) blockSize segmentSize neverFree numReserveSegments) := by
  have hidx := List.zipIdx_map_snd 0 (ids.insertionSort (· ≤ ·))
  rw [List.length_insertionSort, ← List.range_eq_range'] at hidx
  rw [Lib.FilledOnce, poolWrites, topologyOf, NodeMap.nodes_ofList, List.map_map, ← hidx]
  exact List.Perm.refl _

theorem devicePoolWrites_filledOnce :
    Lib.FilledOnce (ids.length * D)
      (devicePoolWrites (topologyOf ids D) blockSize segmentSize neverFree
        numReserveSegments) := by
  have hidx := List.zipIdx_map_snd 0 (ids.insertionSort (· ≤ ·))
  rw [List.length_insertionSort, ← List.range_eq_range'] at hidx
  rw [Lib.FilledOnce, devicePoolWrites, topologyOf, NodeMap.nodes_ofList, List.map_flatMap,
    ← Lib.range_flatMap_rows, ← hidx, List.flatMap_map]
  refine List.Perm.of_eq (List.flatMap_congr fun p _ => ?_)
  rw [List.map_map]
  rfl

/-- What is in a slot was made by the constructor, with a device in the slots of
`m_device_pools` only. -/
theorem poolAt_eq_some {topo : Topology} {slot : Bool × Nat} {p : PoolParams}
    (h : (fixedSizeHeap topo blockSize segmentSize neverFree numReserveSegments).poolAt slot =
      some p) :
    ∃ n d, p = poolFor blockSize segmentSize neverFree numReserveSegments n d ∧
      d.isSome = slot.1 := by
  obtain ⟨device, i⟩ := slot
  have hmem := List.mem_of_getElem? (Option.join_eq_some_iff.mp h)
  cases device with
  | false =>
    obtain ⟨j, hj⟩ := Lib.exists_write_of_mem_fill hmem
    obtain ⟨n, -, hn⟩ := List.mem_map.mp hj
    cases hn
    exact ⟨n.1, none, rfl, rfl⟩
  | true =>
    obtain ⟨j, hj⟩ := Lib.exists_write_of_mem_fill hmem
    obtain ⟨n, -, hn⟩ := List.mem_flatMap.mp hj
    obtain ⟨k, -, hk⟩ := List.mem_map.mp hn
    cases hk
    exact ⟨n.1, some k, rfl, rfl⟩

/-! ### The reader side

The slot is computed from the index of the node, so all depends on this index. -/

/-- The slot that belongs to the node with index `i`. -/
def slotOf (D i : Nat) : Option Int → Bool × Nat
  | none => (false, i)
  | some d => (true, i * D + d.toNat)

theorem poolSlot_of_index {topo : Topology} {localNode numaNode i : Nat} {d : Option Int}
    (h : numaNodeIndex topo localNode numaNode = some i) (hd : ValidDevice topo.numDevices d) :
    poolSlot topo localNode numaNode d = some (slotOf topo.numDevices i d) := by
  rw [poolSlot, h, Option.bind_some]
  cases d with
  | none => rfl
  | some d =>
    obtain ⟨j, -, rfl⟩ := hd.exists_nat
    have hnat : (i * topo.numDevices + j : Int).toNat? = some (i * topo.numDevices + j) :=
      Int.mem_toNat?.mpr (by rw [Int.natCast_add, Int.natCast_mul])
    dsimp only
    rw [hnat]
    rfl

/-- Nodes and devices do not share slots. -/
theorem slotOf_inj {i i' : Nat} {d d' : Option Int} (hd : ValidDevice D d)
    (hd' : ValidDevice D d') (h : slotOf D i d = slotOf D i' d') : i = i' ∧ d = d' := by
  cases d with
  | none =>
    cases d' with
    | none => exact ⟨congrArg Prod.snd h, rfl⟩
    | some e => cases congrArg Prod.fst h
  | some d =>
    cases d' with
    | none => cases congrArg Prod.fst h
    | some e =>
      obtain ⟨j, hj, rfl⟩ := hd.exists_nat
      obtain ⟨k, hk, rfl⟩ := hd'.exists_nat
      obtain ⟨hrow, rfl⟩ := Lib.row_col_unique hj hk (congrArg Prod.snd h)
      exact ⟨hrow, rfl⟩

/-- In the slot of a node the constructor has put the pool of that node. -/
theorem poolAt_slotOf {n i : Nat} {d : Option Int}
    (h : (n, i) ∈ (NodeMap.ofList ids).nodes) (hd : ValidDevice D d) :
    (fixedSizeHeap (topologyOf ids D) blockSize segmentSize neverFree numReserveSegments).poolAt
        (slotOf D i d) =
      some (poolFor blockSize segmentSize neverFree numReserveSegments n d) := by
  cases d with
  | none =>
    have hw : (i, pool blockSize segmentSize n neverFree numReserveSegments) ∈
        poolWrites (topologyOf ids D) blockSize segmentSize neverFree numReserveSegments :=
      List.mem_map.mpr ⟨(n, i), h, rfl⟩
    have hget := poolWrites_filledOnce.getElem? hw
    rw [← NodeMap.size_ofList] at hget
    exact congrArg Option.join hget
  | some d =>
    obtain ⟨j, hj, rfl⟩ := hd.exists_nat
    have hw : (i * D + j,
          devicePool blockSize segmentSize n j neverFree numReserveSegments) ∈
        devicePoolWrites (topologyOf ids D) blockSize segmentSize neverFree numReserveSegments :=
      List.mem_flatMap.mpr ⟨(n, i), h, List.mem_map.mpr ⟨j, List.mem_range.mpr hj, rfl⟩⟩
    have hget := devicePoolWrites_filledOnce.getElem? hw
    rw [← NodeMap.size_ofList] at hget
    exact congrArg Option.join hget

/-- The index under which a request for `numaNode` looks for its pool: that of
the node, else that of the caller's node. -/
theorem numaNodeIndex_topologyOf (hnodup : ids.Nodup) (localNode numaNode : Nat) :
    numaNodeIndex (topologyOf ids D) localNode numaNode =
      if numaNode ∈ ids then some ((ids.insertionSort (· ≤ ·)).idxOf numaNode)
      else if localNode ∈ ids then some ((ids.insertionSort (· ≤ ·)).idxOf localNode)
      else none := by
  unfold numaNodeIndex topologyOf
  dsimp only
  rw [NodeMap.second_find_ofList hnodup, NodeMap.second_find_ofList hnodup]
  have hend := NodeMap.find_eq_endPos_iff hnodup (n := numaNode)
  by_cases h : numaNode ∈ ids
  · rw [if_pos fun heq => hend.mp heq h, if_pos h, if_pos h]
  · rw [if_neg (not_not.mpr (hend.mpr h)), if_neg h]

theorem mem_nodes_idxOf {n : Nat} (h : n ∈ ids) :
    (n, (ids.insertionSort (· ≤ ·)).idxOf n) ∈ (NodeMap.ofList ids).nodes := by
  rw [NodeMap.mem_nodes_ofList]
  exact List.getElem?_idxOf ((List.mem_insertionSort _).mpr h)

/-! ### Requests

A request names a node, and a device or none; the caller contributes its own node. -/

/-- The pool that a request uses: the one in the slot it reads. -/
def FixedSizeHeap.requestPool (f : FixedSizeHeap) (topo : Topology) (localNode numaNode : Nat)
    (deviceId : Option Int) : Option PoolParams :=
  (poolSlot topo localNode numaNode deviceId).bind f.poolAt

/-- A request that finds the index of the node `m` uses the pool of `m`. -/
theorem requestPool_of_index {m localNode numaNode : Nat} {d : Option Int} (hm : m ∈ ids)
    (hidx : numaNodeIndex (topologyOf ids D) localNode numaNode =
      some ((ids.insertionSort (· ≤ ·)).idxOf m)) (hd : ValidDevice D d) :
    (fixedSizeHeap (topologyOf ids D) blockSize segmentSize neverFree
        numReserveSegments).requestPool (topologyOf ids D) localNode numaNode d =
      some (poolFor blockSize segmentSize neverFree numReserveSegments m d) := by
  rw [FixedSizeHeap.requestPool, poolSlot_of_index hidx hd, Option.bind_some]
  exact poolAt_slotOf (mem_nodes_idxOf hm) hd

end

/-- The tables of a `fixed_size_heap` serve a caller on the node `localNode` who
asks for `numaNode`, with any device or none. -/
structure ExactTables (ids : List Nat) (D blockSize segmentSize : Nat) (neverFree : Bool)
    (numReserveSegments localNode numaNode : Nat) (f : FixedSizeHeap) : Prop where
  /-- Every slot of `m_pools` is filled exactly once. -/
  pools : Lib.FilledOnce f.pools.length
    (poolWrites (topologyOf ids D) blockSize segmentSize neverFree numReserveSegments)
  /-- Every slot of `m_device_pools` is filled exactly once. -/
  devicePools : Lib.FilledOnce f.devicePools.length
    (devicePoolWrites (topologyOf ids D) blockSize segmentSize neverFree numReserveSegments)
  /-- Requests for a local node use the pools of this node. -/
  ofLocal : ∀ n ∈ ids, ∀ d, ValidDevice D d →
    f.requestPool (topologyOf ids D) localNode n d =
      some (poolFor blockSize segmentSize neverFree numReserveSegments n d)
  /-- Requests for another node use the pools of one fallback node. -/
  fallback : numaNode ∉ ids → ∃ m ∈ ids, ∀ d, ValidDevice D d →
    f.requestPool (topologyOf ids D) localNode numaNode d =
      some (poolFor blockSize segmentSize neverFree numReserveSegments m d)
  /-- Different nodes or devices never share a slot. -/
  distinct : ∀ n ∈ ids, ∀ n' ∈ ids, ∀ d d', ValidDevice D d → ValidDevice D d' →
    poolSlot (topologyOf ids D) localNode n d = poolSlot (topologyOf ids D) localNode n' d' →
      n = n' ∧ d = d'

/-- The tables are exact for every set of local nodes and every number of
devices, as long as the request or its caller is on a local node. -/
theorem exactTables_iff {ids : List Nat} (hnodup : ids.Nodup) (D blockSize segmentSize : Nat)
    (neverFree : Bool) (numReserveSegments localNode numaNode : Nat) :
    ExactTables ids D blockSize segmentSize neverFree numReserveSegments localNode numaNode
        (fixedSizeHeap (topologyOf ids D) blockSize segmentSize neverFree numReserveSegments) ↔
      numaNode ∈ ids ∨ localNode ∈ ids := by
  have hindex := numaNodeIndex_topologyOf (D := D) hnodup
  have hlocal : ∀ n ∈ ids, numaNodeIndex (topologyOf ids D) localNode n =
      some ((ids.insertionSort (· ≤ ·)).idxOf n) := fun n hn => by rw [hindex, if_pos hn]
  constructor
  · intro h
    by_contra hnone
    rw [not_or] at hnone
    -- Nothing is found for such a request.
    obtain ⟨m, -, hreq⟩ := h.fallback hnone.1
    have hhost := hreq none trivial
    rw [FixedSizeHeap.requestPool, poolSlot, hindex, if_neg hnone.1, if_neg hnone.2] at hhost
    cases hhost
  · intro hcond
    refine ⟨?_, ?_, fun n hn d hd => requestPool_of_index hn (hlocal n hn) hd, ?_, ?_⟩
    · rw [fixedSizeHeap, Lib.fill_length, topologyOf, NodeMap.size_ofList]
      exact poolWrites_filledOnce
    · rw [fixedSizeHeap, Lib.fill_length, topologyOf, NodeMap.size_ofList]
      exact devicePoolWrites_filledOnce
    · intro hn
      have hm := hcond.resolve_left hn
      refine ⟨localNode, hm, fun d hd => requestPool_of_index hm ?_ hd⟩
      rw [hindex, if_neg hn, if_pos hm]
    · intro n hn n' hn' d d' hd hd' heq
      rw [poolSlot_of_index (hlocal n hn) hd, poolSlot_of_index (hlocal n' hn') hd'] at heq
      obtain ⟨hidx, hdev⟩ := slotOf_inj hd hd' (Option.some.inj heq)
      exact ⟨(List.idxOf_inj ((List.mem_insertionSort _).mpr hn)).mp hidx, hdev⟩

theorem exactTables_iff_twoNodes :
    ExactTables [4, 1] 3 64 65536 false 16 1 7
        (fixedSizeHeap (topologyOf [4, 1] 3) 64 65536 false 16) ↔
      7 ∈ [4, 1] ∨ 1 ∈ [4, 1] :=
  exactTables_iff (by decide) 3 64 65536 false 16 1 7

/-- The caller has moved to node 1 of a machine whose only local node is 0, and
asks for node 1. -/
theorem movedCaller_not_exact :
    ¬ExactTables [0] 1 64 65536 false 16 1 1
        (fixedSizeHeap (topologyOf [0] 1) 64 65536 false 16) := by
  intro h
  obtain ⟨m, -, hreq⟩ := h.fallback (by decide)
  have hhost := hreq none trivial
  have hnone : poolSlot (topologyOf [0] 1) 1 1 none = none := by decide
  rw [FixedSizeHeap.requestPool, hnone] at hhost
  cases hhost

end HwMalloc
