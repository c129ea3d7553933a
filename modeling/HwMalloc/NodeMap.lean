import HwMalloc.HeapConfig
import HwMalloc.Lib.Lists
import Mathlib.Data.List.Pairwise
import Mathlib.Data.List.Sort

/-!
# HwMalloc.NodeMap

`numa_tools::node_map`: a list of NUMA node ids with a dense inverse table. An
iterator into `nodes` is modelled by its position, so `end()` is the position
`nodes.length`, and dereferencing it is a lookup that fails.

For distinct ids the position of a node is its place in the sorted list, and a
number that is no node has the position `end()`: both are `List.idxOf`
(`find_ofList`).
-/

namespace HwMalloc

/-- `numa_tools::node_map`. -/
structure NodeMap where
  nodes : List (Nat × Nat)
  nodesToIndex : List Nat
  deriving Repr, DecidableEq

namespace NodeMap

/-- The default constructor. -/
def empty : NodeMap := ⟨[], []⟩

/-- The construction loop: the sorted ids, numbered from 0, and the inverse
table, whose absent mark is the number of nodes. -/
def ofSorted (sorted : List Nat) : NodeMap :=
  { nodes := sorted.zipIdx
    nodesToIndex := sorted.zipIdx.foldl (fun t p => t.set p.1 p.2)
      (List.replicate (sorted.getLastD 0 + 1) sorted.length) }

/-- `node_map(std::vector<index_type>)`. -/
def ofList (ids : List Nat) : NodeMap :=
  if ids = [] then empty else ofSorted (ids.insertionSort (· ≤ ·))

def size (m : NodeMap) : Nat := m.nodes.length

/-- `end()`, as a position. -/
def endPos (m : NodeMap) : Nat := m.nodes.length

def upperBoundKey (m : NodeMap) : Nat := m.nodesToIndex.length

/-- `find(n)`, as a position. The index expression is only read below the upper
bound. -/
def find (m : NodeMap) (n : Nat) : Nat :=
  if n ≥ m.upperBoundKey then m.endPos else m.nodesToIndex.getD n 0

/-- `count(n)`. -/
def count (m : NodeMap) (n : Nat) : Nat :=
  if n ≥ m.upperBoundKey then 0 else if m.nodesToIndex.getD n 0 < m.size then 1 else 0

/-- `it->second`, which fails on `end()`. -/
def second (m : NodeMap) (pos : Nat) : Option Nat := (m.nodes[pos]?).map Prod.snd

/-! ### What the constructor builds

The nodes are sorted, and the inverse table has an entry for every number up to the
largest one; those that are no nodes keep the absent mark, which is the end. -/

variable {ids : List Nat}

/-- The entries are the sorted ids with their indices. -/
theorem nodes_ofList (ids : List Nat) :
    (ofList ids).nodes = (ids.insertionSort (· ≤ ·)).zipIdx := by
  unfold ofList
  split
  · next h =>
    subst h
    rfl
  · rfl

@[simp] theorem size_ofList (ids : List Nat) : (ofList ids).size = ids.length := by
  rw [size, nodes_ofList, List.length_zipIdx, List.length_insertionSort]

@[simp] theorem endPos_ofList (ids : List Nat) : (ofList ids).endPos = ids.length :=
  size_ofList ids

theorem mem_nodes_ofList {n i : Nat} :
    (n, i) ∈ (ofList ids).nodes ↔ (ids.insertionSort (· ≤ ·))[i]? = some n := by
  rw [nodes_ofList, List.mk_mem_zipIdx_iff_getElem?]

/-- No id reaches the bound of the inverse table. -/
theorem lt_upperBoundKey {n : Nat} (h : n ∈ ids) : n < (ofList ids).upperBoundKey := by
  have hsorted := List.pairwise_insertionSort (· ≤ ·) ids
  have hmem : n ∈ ids.insertionSort (· ≤ ·) := List.mem_insertionSort _ |>.mpr h
  have hlast := hsorted.rel_getLast hmem
  rw [ofList, if_neg (List.ne_nil_of_mem h), upperBoundKey, ofSorted, Lib.foldl_set_length,
    List.length_replicate, List.getLastD_eq_getLast?, List.getLast?_eq_some_getLast
      (List.ne_nil_of_mem hmem), Option.getD_some]
  exact Nat.lt_succ_of_le hlast

/-- An entry of the inverse table is the place of its key, or, in a gap, the
number of nodes. -/
theorem nodesToIndex_ofList (hnodup : ids.Nodup) {n : Nat}
    (h : n < (ofList ids).upperBoundKey) :
    (ofList ids).nodesToIndex[n]? = some ((ids.insertionSort (· ≤ ·)).idxOf n) := by
  have hne : ids ≠ [] := by
    rintro rfl
    cases h
  have hkeys : ((ids.insertionSort (· ≤ ·)).zipIdx.map Prod.fst) = ids.insertionSort (· ≤ ·) :=
    List.zipIdx_map_fst 0 _
  rw [ofList, if_neg hne, upperBoundKey, ofSorted, Lib.foldl_set_length] at h
  rw [ofList, if_neg hne, ofSorted]
  by_cases hn : n ∈ ids.insertionSort (· ≤ ·)
  · have hentry : (n, (ids.insertionSort (· ≤ ·)).idxOf n) ∈
        (ids.insertionSort (· ≤ ·)).zipIdx := by
      rw [List.mk_mem_zipIdx_iff_getElem?]
      exact List.getElem?_idxOf hn
    refine Lib.foldl_set_of_mem (f := Prod.snd) _ _ ?_ hentry h
    rw [hkeys]
    exact (List.perm_insertionSort _ ids).nodup_iff.mpr hnodup
  · rw [Lib.foldl_set_of_not_mem (f := Prod.snd) _ _ (by rwa [hkeys]),
      List.getElem?_eq_getElem h, List.getElem_replicate, List.idxOf_eq_length hn]

/-- `find` is the place of the node in the sorted list. -/
theorem find_ofList (hnodup : ids.Nodup) (n : Nat) :
    (ofList ids).find n = (ids.insertionSort (· ≤ ·)).idxOf n := by
  unfold find
  split
  · next h =>
    have hn : n ∉ ids.insertionSort (· ≤ ·) := fun hn =>
      absurd (lt_upperBoundKey ((List.mem_insertionSort _).mp hn)) (not_lt.mpr h)
    rw [endPos_ofList, List.idxOf_eq_length hn, List.length_insertionSort]
  · next h =>
    rw [List.getD_eq_getElem?_getD, nodesToIndex_ofList hnodup (not_le.mp h), Option.getD_some]

theorem find_eq_endPos_iff (hnodup : ids.Nodup) {n : Nat} :
    (ofList ids).find n = (ofList ids).endPos ↔ n ∉ ids := by
  rw [find_ofList hnodup, endPos_ofList, ← List.length_insertionSort (· ≤ ·) ids,
    List.idxOf_eq_length_iff, List.mem_insertionSort]

/-- The index of a node is found, and nothing else is. -/
theorem second_find_ofList (hnodup : ids.Nodup) (n : Nat) :
    (ofList ids).second ((ofList ids).find n) =
      if n ∈ ids then some ((ids.insertionSort (· ≤ ·)).idxOf n) else none := by
  rw [second, nodes_ofList, find_ofList hnodup]
  split
  · next h =>
    rw [List.getElem?_zipIdx, List.getElem?_idxOf ((List.mem_insertionSort _).mpr h)]
    simp
  · next h =>
    rw [List.idxOf_eq_length fun hn => h ((List.mem_insertionSort _).mp hn)]
    simp

/-! ### An exact numbering

All members of the class at once, as its users rely on them. -/

/-- `m` numbers the nodes `ids` in increasing order, and its lookups find these
numbers and nothing else. -/
structure Exact (m : NodeMap) (ids : List Nat) : Prop where
  keys : (m.nodes.map Prod.fst).Perm ids
  increasing : (m.nodes.map Prod.fst).Pairwise (· < ·)
  indices : m.nodes.map Prod.snd = List.range m.size
  find_mem : ∀ n ∈ ids, m.nodes[m.find n]? = some (n, m.find n)
  find_not_mem : ∀ n ∉ ids, m.find n = m.endPos
  find_le : ∀ n, m.find n ≤ m.endPos
  count : ∀ n, m.count n = if n ∈ ids then 1 else 0
  /-- `nodes_.back() + 1` does not overflow. -/
  upperBoundKey_lt : m.upperBoundKey < sizeMod
  /-- The writes of the construction loop are inside the table. -/
  writes : ∀ n ∈ ids, n < m.upperBoundKey
  /-- A lookup that passes the bound reads inside the table, and what it reads is
  an offset of an iterator. -/
  reads : ∀ n < m.upperBoundKey, ∃ i ≤ m.size, m.nodesToIndex[n]? = some i

theorem increasing_ofList (hnodup : ids.Nodup) :
    ((ofList ids).nodes.map Prod.fst).Pairwise (· < ·) := by
  have hsorted := List.pairwise_insertionSort (· ≤ ·) ids
  have hdistinct : (ids.insertionSort (· ≤ ·)).Nodup :=
    (List.perm_insertionSort _ ids).nodup_iff.mpr hnodup
  rw [nodes_ofList, List.zipIdx_map_fst]
  exact hsorted.imp₂ (fun _ _ => lt_of_le_of_ne) hdistinct

theorem upperBoundKey_ofList_lt (hlt : ∀ n ∈ ids, n < sizeMod - 1) :
    (ofList ids).upperBoundKey < sizeMod := by
  have hmod : 1 < sizeMod := by decide
  rw [ofList]
  split
  · exact (Nat.zero_lt_one).trans hmod
  · next hne =>
    have hsorted : ids.insertionSort (· ≤ ·) ≠ [] := fun hnil =>
      hne (List.perm_nil.mp (hnil ▸ (List.perm_insertionSort (· ≤ ·) ids).symm))
    have hlast := hlt _ ((List.mem_insertionSort _).mp (List.getLast_mem hsorted))
    rw [upperBoundKey, ofSorted, Lib.foldl_set_length, List.length_replicate,
      List.getLastD_eq_getLast?, List.getLast?_eq_some_getLast hsorted, Option.getD_some]
    omega

/-- `count` looks at the entry of the table that `find` uses. -/
theorem count_eq (m : NodeMap) (n : Nat) : m.count n = if m.find n < m.size then 1 else 0 := by
  unfold count find
  split
  · exact (if_neg (lt_irrefl _)).symm
  · rfl

/-- The nodes of the list are those with an index below `size()`. -/
theorem idxOf_insertionSort_lt_iff {n : Nat} :
    (ids.insertionSort (· ≤ ·)).idxOf n < ids.length ↔ n ∈ ids := by
  rw [← List.length_insertionSort (· ≤ ·) ids, List.idxOf_lt_length_iff, List.mem_insertionSort]

/-- The map of any list of distinct ids below the maximum of `index_type` is
exact. -/
theorem ofList_exact (hnodup : ids.Nodup) (hlt : ∀ n ∈ ids, n < sizeMod - 1) :
    (ofList ids).Exact ids where
  keys := by
    rw [nodes_ofList, List.zipIdx_map_fst]
    exact List.perm_insertionSort _ ids
  increasing := increasing_ofList hnodup
  indices := by
    rw [nodes_ofList, List.zipIdx_map_snd, size_ofList, List.length_insertionSort,
      List.range_eq_range']
  find_mem := fun n hn => by
    rw [nodes_ofList, find_ofList hnodup, List.getElem?_zipIdx,
      List.getElem?_idxOf ((List.mem_insertionSort _).mpr hn), Option.map_some, Nat.zero_add]
  find_not_mem := fun n hn => (find_eq_endPos_iff hnodup).mpr hn
  find_le := fun n => by
    rw [find_ofList hnodup, endPos_ofList, ← List.length_insertionSort (· ≤ ·) ids]
    exact List.idxOf_le_length
  count := fun n => by
    rw [count_eq, find_ofList hnodup, size_ofList]
    exact if_congr idxOf_insertionSort_lt_iff rfl rfl
  upperBoundKey_lt := upperBoundKey_ofList_lt hlt
  writes := fun n hn => lt_upperBoundKey hn
  reads := fun n hn => by
    refine ⟨_, ?_, nodesToIndex_ofList hnodup hn⟩
    rw [size_ofList, ← List.length_insertionSort (· ≤ ·) ids]
    exact List.idxOf_le_length

theorem ofList_exact_gaps : (ofList [7, 0, 4]).Exact [7, 0, 4] :=
  ofList_exact (by decide) (by decide)

end NodeMap

/-- What the heap reads from the global `numa()` and from the device runtime
when it is built: the node map of the local nodes, and the device count. -/
structure Topology where
  localNodes : NodeMap
  numDevices : Nat

/-- The topology of a build without libnuma and without a device runtime: the
single node 0. -/
def stubTopology : Topology := ⟨NodeMap.ofList [0], 0⟩

end HwMalloc
