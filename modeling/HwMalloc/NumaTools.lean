import HwMalloc.PoolTables
import Mathlib.Data.List.Dedup

/-!
# HwMalloc.NumaTools

`numa_tools`: how the topology of the machine is discovered when the library is
loaded, and how a request is routed afterwards.

`m_cpu_to_node` has as many entries as there are online CPUs, and the local
nodes are those of the CPUs in the affinity mask at that time. A request for
another node falls back to the node of the CPU on which the caller runs now.
Nothing relates this CPU to the size of the table or to the mask, so the routing
is total exactly under the condition of `routed_iff`.
-/

namespace HwMalloc

/-- A machine, as the operating system and libnuma describe it when the library
is loaded. -/
structure Machine where
  /-- The ids of the online CPUs. -/
  onlineCpus : List Nat
  /-- `numa_node_of_cpu`, which is -1 for a CPU that is not there. -/
  nodeOfCpu : Nat → Int
  /-- `task_cpu_mask_ptr`: the CPUs in the affinity mask. -/
  taskCpuMask : List Nat
  onlineCpus_nodup : onlineCpus.Nodup
  nodeOfCpu_nonneg : ∀ cpu ∈ onlineCpus, 0 ≤ nodeOfCpu cpu
  nodeOfCpu_lt : ∀ cpu ∈ onlineCpus, nodeOfCpu cpu < 2 ^ 31
  mask_online : ∀ cpu ∈ taskCpuMask, cpu ∈ onlineCpus
  mask_ne_nil : taskCpuMask ≠ []

/-- The members of `numa_tools` that requests read. -/
structure NumaTools where
  cpuToNode : List Nat
  localNodes : NodeMap

namespace Machine

variable (m : Machine)

/-- `get_nprocs()`. -/
def nprocs : Nat := m.onlineCpus.length

/-- The nodes that the loop of `discover_nodes` collects. -/
def maskedNodes : List Nat :=
  ((List.range m.nprocs).filter (· ∈ m.taskCpuMask)).map fun cpu => sizeOfInt (m.nodeOfCpu cpu)

/-- `local_nodes_` after `std::sort` and `std::unique`, which leaves no
duplicates in a sorted list. -/
def localNodeIds : List Nat := (m.maskedNodes.insertionSort (· ≤ ·)).dedup

/-- `numa_tools::discover_nodes`. -/
def discoverNodes : NumaTools where
  cpuToNode := (List.range m.nprocs).map fun cpu => sizeOfInt (m.nodeOfCpu cpu)
  localNodes := NodeMap.ofList m.localNodeIds

end Machine

/-- `numa_tools::local_node` for a caller on the CPU `cpu`; `none` is a read
outside `m_cpu_to_node`. -/
def NumaTools.localNode (nt : NumaTools) (cpu : Nat) : Option Nat := nt.cpuToNode[cpu]?

/-- The topology that the heaps are built from. -/
def NumaTools.topology (nt : NumaTools) (numDevices : Nat) : Topology :=
  ⟨nt.localNodes, numDevices⟩

/-! ### What is discovered

The local nodes are distinct, as the constructor of `node_map` asks for. -/

namespace Machine

variable {m : Machine}

theorem localNodeIds_nodup : m.localNodeIds.Nodup := List.nodup_dedup _

/-- The local nodes are those of the masked CPUs that the loop meets. -/
theorem mem_localNodeIds {n : Nat} :
    n ∈ m.localNodeIds ↔ ∃ cpu ∈ m.taskCpuMask, cpu < m.nprocs ∧ m.nodeOfCpu cpu = n := by
  have hnode : ∀ cpu ∈ m.taskCpuMask, sizeOfInt (m.nodeOfCpu cpu) = n ↔ m.nodeOfCpu cpu = n := by
    intro cpu hcpu
    have h0 := m.nodeOfCpu_nonneg cpu (m.mask_online cpu hcpu)
    rw [sizeOfInt_of_nonneg h0 (m.nodeOfCpu_lt cpu (m.mask_online cpu hcpu))]
    omega
  rw [localNodeIds, List.mem_dedup, List.mem_insertionSort, maskedNodes, List.mem_map]
  constructor
  · rintro ⟨cpu, hcpu, hn⟩
    rw [List.mem_filter, List.mem_range, decide_eq_true_iff] at hcpu
    exact ⟨cpu, hcpu.2, hcpu.1, (hnode cpu hcpu.2).mp hn⟩
  · rintro ⟨cpu, hmask, hlt, hn⟩
    refine ⟨cpu, ?_, (hnode cpu hmask).mpr hn⟩
    rw [List.mem_filter, List.mem_range, decide_eq_true_iff]
    exact ⟨hlt, hmask⟩

/-- Below the size of the table, `local_node` is the node of the CPU. -/
theorem localNode_eq {cpu : Nat} (hcpu : cpu ∈ m.onlineCpus) (hlt : cpu < m.nprocs) :
    m.discoverNodes.localNode cpu = some (m.nodeOfCpu cpu).toNat := by
  rw [NumaTools.localNode, discoverNodes, List.getElem?_map, List.getElem?_range hlt,
    Option.map_some, sizeOfInt_of_nonneg (m.nodeOfCpu_nonneg cpu hcpu) (m.nodeOfCpu_lt cpu hcpu)]

theorem localNode_eq_none {cpu : Nat} (hge : m.nprocs ≤ cpu) :
    m.discoverNodes.localNode cpu = none := by
  rw [NumaTools.localNode, List.getElem?_eq_none_iff, discoverNodes, List.length_map,
    List.length_range]
  exact hge

end Machine

/-! ### Routing

A node that is not local is replaced by that of the caller, which is looked up by the
number of the CPU. -/

/-- A request for `numaNode` by a caller on the CPU `cpu` is routed: `local_node`
reads inside its table, and the index is below the size of `m_pools` and belongs
to the requested node, if that is a local node, and else to the node of `cpu`. -/
def Routed (m : Machine) (numDevices : Nat) (f : FixedSizeHeap) (cpu numaNode : Nat) : Prop :=
  ∃ node i, m.discoverNodes.localNode cpu = some node ∧
    numaNodeIndex (m.discoverNodes.topology numDevices) node numaNode = some i ∧
    i < f.pools.length ∧
    (numaNode ∈ m.localNodeIds → (numaNode, i) ∈ m.discoverNodes.localNodes.nodes) ∧
    (numaNode ∉ m.localNodeIds →
      ∃ n : Nat, m.nodeOfCpu cpu = n ∧ (n, i) ∈ m.discoverNodes.localNodes.nodes)

/-- Some CPU of the affinity mask that `discover_nodes` looks at is on this
node. -/
def Machine.CoversNode (m : Machine) (node : Int) : Prop :=
  ∃ cpu ∈ m.taskCpuMask, cpu < m.nprocs ∧ m.nodeOfCpu cpu = node

/-- The routing is total exactly for callers on a CPU whose number is below the
number of CPUs, who ask for a local node or run on one. -/
theorem routed_iff (m : Machine) {cpu : Nat} (hcpu : cpu ∈ m.onlineCpus) (numaNode numDevices : Nat)
    (blockSize segmentSize : Nat) (neverFree : Bool) (numReserveSegments : Nat) :
    Routed m numDevices
        (fixedSizeHeap (m.discoverNodes.topology numDevices) blockSize segmentSize neverFree
          numReserveSegments) cpu numaNode ↔
      cpu < m.nprocs ∧ (m.CoversNode numaNode ∨ m.CoversNode (m.nodeOfCpu cpu)) := by
  have hindex := numaNodeIndex_topologyOf (D := numDevices) m.localNodeIds_nodup
  have hnode : ((m.nodeOfCpu cpu).toNat : Int) = m.nodeOfCpu cpu :=
    Int.toNat_of_nonneg (m.nodeOfCpu_nonneg cpu hcpu)
  have hcover : (m.nodeOfCpu cpu).toNat ∈ m.localNodeIds ↔ m.CoversNode (m.nodeOfCpu cpu) := by
    rw [Machine.mem_localNodeIds, hnode]
    rfl
  have hpools : (fixedSizeHeap (m.discoverNodes.topology numDevices) blockSize segmentSize
      neverFree numReserveSegments).pools.length = m.localNodeIds.length := by
    rw [fixedSizeHeap, Lib.fill_length]
    exact NodeMap.size_ofList _
  constructor
  · rintro ⟨node, i, hlocal, hi, -⟩
    have hbound : cpu < m.nprocs := by
      by_contra hge
      rw [Machine.localNode_eq_none (not_lt.mp hge)] at hlocal
      cases hlocal
    rw [Machine.localNode_eq hcpu hbound] at hlocal
    obtain rfl := Option.some.inj hlocal
    refine ⟨hbound, ?_⟩
    by_contra hnone
    rw [not_or, ← hcover] at hnone
    have hn : numaNode ∉ m.localNodeIds := fun hn => hnone.1 (Machine.mem_localNodeIds.mp hn)
    have hend := hindex (m.nodeOfCpu cpu).toNat numaNode
    rw [if_neg hn, if_neg hnone.2] at hend
    cases hend.symm.trans hi
  · rintro ⟨hbound, hcond⟩
    rw [← hcover] at hcond
    refine ⟨(m.nodeOfCpu cpu).toNat, ?_⟩
    by_cases hn : numaNode ∈ m.localNodeIds
    · refine ⟨(m.localNodeIds.insertionSort (· ≤ ·)).idxOf numaNode,
        Machine.localNode_eq hcpu hbound, ?_, ?_, fun _ => mem_nodes_idxOf hn,
        fun h => absurd hn h⟩
      · exact (hindex _ _).trans (if_pos hn)
      · rw [hpools]
        exact NodeMap.idxOf_insertionSort_lt_iff.mpr hn
    · have hfall := hcond.resolve_left fun h => hn (Machine.mem_localNodeIds.mpr h)
      refine ⟨(m.localNodeIds.insertionSort (· ≤ ·)).idxOf (m.nodeOfCpu cpu).toNat,
        Machine.localNode_eq hcpu hbound, ?_, ?_, fun h => absurd h hn,
        fun _ => ⟨_, hnode.symm, mem_nodes_idxOf hfall⟩⟩
      · exact (hindex _ _).trans ((if_neg hn).trans (if_pos hfall))
      · rw [hpools]
        exact NodeMap.idxOf_insertionSort_lt_iff.mpr hfall

/-- Two CPUs on two nodes; the library is loaded by a process that is bound to
the first one. -/
def twoNodeMachine : Machine where
  onlineCpus := [0, 1]
  nodeOfCpu := fun cpu => if cpu < 2 then cpu else -1
  taskCpuMask := [0]
  onlineCpus_nodup := by decide
  nodeOfCpu_nonneg := by decide
  nodeOfCpu_lt := by decide
  mask_online := by decide
  mask_ne_nil := by decide

theorem routed_iff_twoNodeMachine :
    Routed twoNodeMachine 0
        (fixedSizeHeap (twoNodeMachine.discoverNodes.topology 0) 64 65536 false 16) 1 0 ↔
      1 < twoNodeMachine.nprocs ∧ (twoNodeMachine.CoversNode 0 ∨
        twoNodeMachine.CoversNode (twoNodeMachine.nodeOfCpu 1)) :=
  routed_iff twoNodeMachine (by decide) 0 0 64 65536 false 16

/-- A thread that was moved to the second CPU asks for node 1: the position of
this node is `end()`, and so is that of the thread's own node. -/
theorem rebound_not_routed :
    1 ∈ twoNodeMachine.onlineCpus ∧
      twoNodeMachine.discoverNodes.localNode 1 = some 1 ∧
      twoNodeMachine.discoverNodes.localNodes.find 1 =
        twoNodeMachine.discoverNodes.localNodes.endPos ∧
      ¬Routed twoNodeMachine 0
        (fixedSizeHeap (twoNodeMachine.discoverNodes.topology 0) 64 65536 false 16) 1 1 := by
  have hlocal : twoNodeMachine.discoverNodes.localNode 1 = some 1 := by decide
  refine ⟨by decide, hlocal, by decide, ?_⟩
  rintro ⟨node, i, hnode, hi, -⟩
  rw [hlocal] at hnode
  obtain rfl := Option.some.inj hnode
  have hnone : numaNodeIndex (twoNodeMachine.discoverNodes.topology 0) 1 1 = none := by decide
  rw [hnone] at hi
  cases hi

end HwMalloc
