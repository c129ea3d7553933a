import HwMalloc.NodeMap
import HwMalloc.Lib.Lists

/-!
# HwMalloc.FixedSizeHeap

`fixed_size_heap`: one pool for each local NUMA node, and one for each pair of
a local node and a device. Only the parameters of the pools are fixed here;
their contents are the subject of `HwMalloc.Pool`.

A pool has no name in the code but its address. Here it is the heap that it belongs to,
the table it is in and its slot there (`PoolId`), which is what a segment keeps as its
`m_pool`. The constructor is a list of writes, as are those of the tables of heaps.
-/

namespace HwMalloc

/-- Where a request is sent: a slot of `m_tiny_heaps`, a slot of `m_heaps`, or
a key of `m_huge_heaps`. -/
inductive HeapRef
  | tiny (i : Nat)
  | sized (i : Nat)
  | huge (key : Nat)
  deriving Repr, DecidableEq

/-- The identity of a pool object: its `fixed_size_heap`, and its slot in
`m_pools` or in `m_device_pools`. This is what a `pool_type*` points to. -/
structure PoolId where
  heap : HeapRef
  device : Bool
  slot : Nat
  deriving Repr, DecidableEq

/-- The members of `pool` that its constructor sets and nothing changes. -/
structure PoolParams where
  blockSize : Nat
  segmentSize : Nat
  numaNode : Nat
  neverFree : Bool
  numReserveSegments : Nat
  deviceId : Int := 0
  allocateOnDevice : Bool := false
  deriving Repr, DecidableEq

/-- `pool::pool` for host memory: the reserve is at least one segment. -/
def pool (blockSize segmentSize numaNode : Nat) (neverFree : Bool)
    (numReserveSegments : Nat) : PoolParams :=
  { blockSize := blockSize
    segmentSize := segmentSize
    numaNode := numaNode
    neverFree := neverFree
    numReserveSegments := max numReserveSegments 1 }

/-- `pool::pool` for device memory, which delegates to the host constructor. -/
def devicePool (blockSize segmentSize numaNode : Nat) (deviceId : Int) (neverFree : Bool)
    (numReserveSegments : Nat) : PoolParams :=
  { pool blockSize segmentSize numaNode neverFree numReserveSegments with
    deviceId := deviceId
    allocateOnDevice := true }

/-- `fixed_size_heap`. -/
structure FixedSizeHeap where
  blockSize : Nat
  segmentSize : Nat
  neverFree : Bool
  numReserveSegments : Nat
  pools : List (Option PoolParams)
  numDevices : Nat
  devicePools : List (Option PoolParams)
  deriving Repr, DecidableEq

/-- The writes to `m_pools`, one for each local node. -/
def poolWrites (topo : Topology) (blockSize segmentSize : Nat) (neverFree : Bool)
    (numReserveSegments : Nat) : List (Nat × PoolParams) :=
  topo.localNodes.nodes.map fun n =>
    (n.2, pool blockSize segmentSize n.1 neverFree numReserveSegments)

/-- The writes to `m_device_pools`: the inner loop runs over the devices. -/
def devicePoolWrites (topo : Topology) (blockSize segmentSize : Nat) (neverFree : Bool)
    (numReserveSegments : Nat) : List (Nat × PoolParams) :=
  topo.localNodes.nodes.flatMap fun n =>
    (List.range topo.numDevices).map fun j =>
      (n.2 * topo.numDevices + j,
        devicePool blockSize segmentSize n.1 j neverFree numReserveSegments)

/-- `fixed_size_heap::fixed_size_heap`. -/
def fixedSizeHeap (topo : Topology) (blockSize segmentSize : Nat) (neverFree : Bool)
    (numReserveSegments : Nat) : FixedSizeHeap :=
  { blockSize := blockSize
    segmentSize := segmentSize
    neverFree := neverFree
    numReserveSegments := numReserveSegments
    pools := Lib.fill topo.localNodes.size
      (poolWrites topo blockSize segmentSize neverFree numReserveSegments)
    numDevices := topo.numDevices
    devicePools := Lib.fill (topo.localNodes.size * topo.numDevices)
      (devicePoolWrites topo blockSize segmentSize neverFree numReserveSegments) }

/-- `fixed_size_heap::numa_node_index`: the index of the requested node, else
the index of the node the caller runs on. `none` is a dereferenced `end()`. -/
def numaNodeIndex (topo : Topology) (localNode numaNode : Nat) : Option Nat :=
  let it := topo.localNodes.find numaNode
  if it ≠ topo.localNodes.endPos then topo.localNodes.second it
  else topo.localNodes.second (topo.localNodes.find localNode)

/-- The slot that a request reads: `false` stands for `m_pools`, which
`allocate(numa_node)` reads, and `true` for `m_device_pools`, which
`allocate(numa_node, device_id)` reads. A negative sum is an index beyond every
vector. -/
def poolSlot (topo : Topology) (localNode numaNode : Nat) (deviceId : Option Int) :
    Option (Bool × Nat) :=
  (numaNodeIndex topo localNode numaNode).bind fun i =>
    match deviceId with
    | none => some (false, i)
    | some d => ((i * topo.numDevices + d : Int).toNat?).map (Prod.mk true)

/-- The pool in a slot. -/
def FixedSizeHeap.poolAt (f : FixedSizeHeap) (slot : Bool × Nat) : Option PoolParams :=
  ((if slot.1 then f.devicePools else f.pools)[slot.2]?).join

end HwMalloc
