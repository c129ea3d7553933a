import HwMalloc.ArrayRequests
import HwMalloc.ConcurrentHeap
import HwMalloc.Lib.Closure

/-!
# HwMalloc.SizeClasses

The size classes of a heap as one rounding. The three tables of heaps, and the three
ways to compute an index into them, implement a closure operator: up to the tiny
limit a size is rounded up to a multiple of the increment, above it to a power of
two. So every request gets the least class in which it fits, a larger request
never gets a smaller class, and a request of the size of a block gets a block of
this size.

The rounding is the closure operator of `HwMalloc.Lib.Closure`, joined at the tiny
limit, which both parts leave where it is. The rules for closure operators are the
rules for the classes, and what is left is that the tables compute it (`heap_best_fit`).
-/

namespace HwMalloc

variable {C : Context} {Tid : Type}

/-- The rounding of the sizes that a configuration stands for. -/
def sizeClass (c : HeapConfig) (h : tinyIncrement ∣ c.tinyLimit) : ClosureOperator Nat :=
  Lib.splice (Lib.multiples tinyIncrement (by rw [tinyIncrement_eq]; decide)) Lib.powersOfTwo
    c.tinyLimit (Lib.isClosed_multiples.mpr h)

section

variable {c : HeapConfig} {h : tinyIncrement ∣ c.tinyLimit} {size : Nat}

/-- The block sizes are the least classes. -/
theorem sizeClass_eq_of_leastMul {q : Nat} (hle : size ≤ c.tinyLimit)
    (hq : Lib.LeastMul q tinyIncrement size) : sizeClass c h size = q := by
  rw [sizeClass, Lib.splice_of_le hle]
  exact IsLeast.unique (Lib.leastMul_multiples _ size) hq

theorem sizeClass_eq_of_leastPow {q : Nat} (hlt : c.tinyLimit < size)
    (hq : Lib.LeastPow q size) : sizeClass c h size = q := by
  rw [sizeClass, Lib.splice_of_lt hlt]
  exact (Lib.leastPow_powersOfTwo size).unique hq

/-- Less than the increment is wasted, or less than the half of the block. -/
theorem sizeClass_lt (hpos : 1 ≤ c.tinyLimit) :
    sizeClass c h size < size + tinyIncrement ∨ sizeClass c h size < 2 * size := by
  by_cases hle : size ≤ c.tinyLimit
  · rw [sizeClass, Lib.splice_of_le hle]
    exact Or.inl (Lib.multiples_lt _ size)
  · rw [sizeClass, Lib.splice_of_lt (not_le.mp hle)]
    exact Or.inr (Lib.powersOfTwo_lt (lt_of_le_of_lt hpos (not_le.mp hle)))

end

/-- The tables of the heap stay well-formed along all steps, also those that throw. -/
theorem wellFormed_step [DecidableEq Tid] {sys : System} {topo : Topology} {c : HeapConfig}
    {st st' : ConcHeap C Tid} {l : Label Tid} (hw : st.heap.WellFormed topo c)
    (hstep : ConcHeapStep sys st l st') : st'.heap.WellFormed topo c := by
  cases hstep with
  | hugeFind _ => exact Heap.hugeEntry_wellFormed hw _
  | _ => exact hw

/-- Best fit. Whatever any number of threads have done before, every request of up to
`2 ^ 31` bytes finds a heap, and its blocks are of the least class in which the
request fits; they are less than the increment, or than the half of the block,
too large. -/
theorem heap_best_fit [DecidableEq Tid] {sys : System} {a : HeapConfigArgs}
    {c : HeapConfig} {st : ConcHeap C Tid} (hc : heapConfig a = .ok c)
    (hinc : tinyIncrement ∣ c.tinyLimit)
    (hreach : Lib.Reachable (ConcHeap.Init sys c) (ConcHeapStep sys) st) {size : Nat}
    (h1 : 1 ≤ size) (h2 : size ≤ 2 ^ 31) :
    ∃ f, (st.heap.select size).1.find? (st.heap.select size).2 = some f ∧
      f.blockSize = sizeClass c hinc size ∧
      (f.blockSize < size + tinyIncrement ∨ f.blockSize < 2 * size) := by
  have hstart : ∀ s : ConcHeap C Tid, s.Init sys c → s.heap.WellFormed sys.topo c := by
    intro s hinit
    rw [hinit.heap]
    exact Heap.heap_wellFormed
  have hkeep : ∀ (s : ConcHeap C Tid) l s', s.heap.WellFormed sys.topo c →
      ConcHeapStep sys s l s' → s'.heap.WellFormed sys.topo c := fun _ _ _ => wellFormed_step
  have hw := hreach.invariant hstart hkeep
  obtain ⟨t, s, l, hshape⟩ := heapConfig_shape hc
  have hpos : 1 ≤ c.tinyLimit := by
    rw [hshape.tinyLimit]
    exact Nat.one_le_two_pow
  obtain ⟨f, hf⟩ := exists_select hc (Nat.le_of_dvd hpos hinc) hw h1
  have hclass : f.blockSize = sizeClass c hinc size := by
    rcases select_class hc hw h1 hf with ⟨hle, hmul⟩ | ⟨hlt, -, hpow⟩ | ⟨hlarge, -⟩
    · exact (sizeClass_eq_of_leastMul hle hmul).symm
    · exact (sizeClass_eq_of_leastPow hlt hpow).symm
    · exact absurd h2 (not_le.mpr hlarge)
  refine ⟨f, hf, hclass, ?_⟩
  rw [hclass]
  exact sizeClass_lt hpos

/-- In the default configuration 100 bytes get a block of 104 bytes, and 5000 bytes
one of 8192. -/
theorem heap_best_fit_default :
    (∃ f, ((heap stubTopology defaultConfig).select 100).1.find?
        ((heap stubTopology defaultConfig).select 100).2 = some f ∧ f.blockSize = 104) ∧
      ∃ f, ((heap stubTopology defaultConfig).select 5000).1.find?
        ((heap stubTopology defaultConfig).select 5000).2 = some f ∧ f.blockSize = 8192 := by
  have hinit : ({ freshHeap stubSystem defaultConfig with
      mutexes := fun _ => none, mutex := none, pc := fun _ => .idle } :
        ConcHeap rangeContext Bool).Init stubSystem defaultConfig :=
    { freshHeap_init stubSystem defaultConfig with
      mutexes := fun _ => rfl
      mutex := rfl
      pc := fun _ => rfl }
  obtain ⟨f, hf, hclass, -⟩ := heap_best_fit heapConfig_default (by decide) (.of_init hinit)
    (show 1 ≤ 100 by decide) (by decide)
  obtain ⟨f', hf', hclass', -⟩ := heap_best_fit heapConfig_default (by decide) (.of_init hinit)
    (show 1 ≤ 5000 by decide) (by decide)
  have hmul : Lib.LeastMul 104 tinyIncrement 100 := by
    rw [tinyIncrement_eq]
    exact Lib.leastMul_div (by decide)
  have hpow : Lib.LeastPow 8192 5000 := Lib.leastPow_log2 (by decide)
  exact ⟨⟨f, hf, hclass.trans (sizeClass_eq_of_leastMul (by decide) hmul)⟩,
    f', hf', hclass'.trans (sizeClass_eq_of_leastPow (by decide) hpow)⟩

end HwMalloc
