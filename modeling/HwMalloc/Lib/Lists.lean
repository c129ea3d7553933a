import Mathlib.Data.List.Nodup
import Mathlib.Data.List.Range
import Mathlib.Data.List.Perm.Basic
import Mathlib.Data.List.TakeWhile

/-!
# HwMalloc.Lib.Lists

Lists as a constructor fills them, and as a scanner takes them apart.

**Vectors of slots** that are filled by index. `fill n ws` is a vector of `n` empty
slots after the writes `ws`, in order; a write outside the vector is dropped, so the
theorems that matter also say where the writes go. `FilledOnce` is the discipline to
aim for: the written indices are exactly the indices of the vector, each once.

**The longest prefix** of a list whose elements have a property: `Longest p l w rest`
says that `w` is this prefix of `l` and `rest` is what follows it. It determines both
lists, and `List.takeWhile` and `List.dropWhile` compute them.
-/

namespace HwMalloc.Lib

/-! ### Vectors of slots -/

section

variable {α : Type}

/-- `n` empty slots after the writes `ws`. -/
def fill (n : Nat) (ws : List (Nat × α)) : List (Option α) :=
  ws.foldl (fun v w => v.set w.1 (some w.2)) (List.replicate n none)

/-- Every slot of a vector of size `n` is written exactly once, and nothing else is. -/
def FilledOnce (n : Nat) (ws : List (Nat × α)) : Prop :=
  (ws.map Prod.fst).Perm (List.range n)

section

variable {β : Type} {f : Nat × α → β}

theorem foldl_set_length (ws : List (Nat × α)) :
    ∀ v : List β, (ws.foldl (fun v w => v.set w.1 (f w)) v).length = v.length := by
  induction ws with
  | nil => intro v; rfl
  | cons w ws ih => intro v; rw [List.foldl_cons, ih, List.length_set]

/-- An index that is not written keeps its value. -/
theorem foldl_set_of_not_mem {i : Nat} (ws : List (Nat × α)) :
    ∀ v : List β, i ∉ ws.map Prod.fst →
      (ws.foldl (fun v w => v.set w.1 (f w)) v)[i]? = v[i]? := by
  induction ws with
  | nil => intro v _; rfl
  | cons w ws ih =>
    intro v hi
    rw [List.map_cons, List.mem_cons, not_or] at hi
    rw [List.foldl_cons, ih _ hi.2, List.getElem?_set_ne (Ne.symm hi.1)]

/-- An index that is written once has the value that was written. -/
theorem foldl_set_of_mem {w : Nat × α} (ws : List (Nat × α)) :
    ∀ v : List β, (ws.map Prod.fst).Nodup → w ∈ ws → w.1 < v.length →
      (ws.foldl (fun v w => v.set w.1 (f w)) v)[w.1]? = some (f w) := by
  induction ws with
  | nil => intro v _ h; cases h
  | cons w' ws ih =>
    intro v hnd hmem hi
    rw [List.map_cons, List.nodup_cons] at hnd
    rw [List.foldl_cons]
    rcases List.mem_cons.mp hmem with rfl | hmem
    · rw [foldl_set_of_not_mem ws _ hnd.1]
      simp [hi]
    · exact ih _ hnd.2 hmem (by simpa using hi)

end

@[simp] theorem fill_length (n : Nat) (ws : List (Nat × α)) : (fill n ws).length = n := by
  rw [fill, foldl_set_length, List.length_replicate]

/-- With distinct indices, each slot holds what was written to it. -/
theorem fill_getElem?_of_mem {n i : Nat} {x : α} {ws : List (Nat × α)}
    (hnd : (ws.map Prod.fst).Nodup) (hmem : (i, x) ∈ ws) (hi : i < n) :
    (fill n ws)[i]? = some (some x) :=
  foldl_set_of_mem ws _ hnd hmem (by simpa using hi)

/-- A full slot holds what some write put there. -/
theorem exists_write_of_mem_fill {n : Nat} {x : α} {ws : List (Nat × α)}
    (h : some x ∈ fill n ws) : ∃ i, (i, x) ∈ ws := by
  have hfold : ∀ (ws : List (Nat × α)) (v : List (Option α)),
      some x ∈ ws.foldl (fun v w => v.set w.1 (some w.2)) v →
        some x ∈ v ∨ ∃ i, (i, x) ∈ ws := by
    intro ws
    induction ws with
    | nil => exact fun v h => Or.inl h
    | cons w ws ih =>
      intro v h
      rcases ih _ h with hset | ⟨i, hi⟩
      · rcases List.mem_or_eq_of_mem_set hset with hv | heq
        · exact Or.inl hv
        · cases heq
          exact Or.inr ⟨w.1, List.mem_cons_self⟩
      · exact Or.inr ⟨i, List.mem_cons_of_mem _ hi⟩
  rcases hfold ws _ h with hnone | hw
  · simp at hnone
  · exact hw

theorem FilledOnce.nodup {n : Nat} {ws : List (Nat × α)} (h : FilledOnce n ws) :
    (ws.map Prod.fst).Nodup :=
  h.nodup_iff.mpr List.nodup_range

theorem FilledOnce.lt {n i : Nat} {x : α} {ws : List (Nat × α)} (h : FilledOnce n ws)
    (hmem : (i, x) ∈ ws) : i < n :=
  List.mem_range.mp (h.mem_iff.mp (List.mem_map_of_mem (f := Prod.fst) hmem))

/-- In a table filled once, every write is what a lookup finds. -/
theorem FilledOnce.getElem? {n i : Nat} {x : α} {ws : List (Nat × α)} (h : FilledOnce n ws)
    (hmem : (i, x) ∈ ws) : (fill n ws)[i]? = some (some x) :=
  fill_getElem?_of_mem h.nodup hmem (h.lt hmem)

/-- A single counting loop fills a table once. -/
theorem filledOnce_range (n : Nat) (f : Nat → α) :
    FilledOnce n ((List.range n).map fun i => (i, f i)) := by
  unfold FilledOnce
  rw [List.map_map]
  exact List.Perm.of_eq (List.map_id _)

/-- Two counting loops, the second one starting where the first one stopped, are
one counting loop. -/
theorem range_loop_append {β : Type} (m k : Nat) (f : Nat → β) :
    (List.range m).map f ++ (List.range k).map (fun i => f (m + i)) =
      (List.range (m + k)).map f := by
  rw [List.range_add, List.map_append, List.map_map]
  rfl

/-- Two nested counting loops run through the cells of a matrix, row by row. -/
theorem range_flatMap_rows (n k : Nat) :
    ((List.range n).flatMap fun i => (List.range k).map fun j => i * k + j) =
      List.range (n * k) := by
  induction n with
  | zero => rw [Nat.zero_mul]; rfl
  | succ n ih =>
    rw [List.range_succ, List.flatMap_append, ih, Nat.succ_mul, List.range_add,
      List.flatMap_singleton]

/-- Cells in different rows or columns are different. -/
theorem row_col_unique {k i i' j j' : Nat} (hj : j < k) (hj' : j' < k)
    (h : i * k + j = i' * k + j') : i = i' ∧ j = j' := by
  have hdiv : ∀ {a b : Nat}, b < k → (a * k + b) / k = a := fun hb => by
    rw [Nat.mul_comm, Nat.mul_add_div (Nat.zero_lt_of_lt hb), Nat.div_eq_of_lt hb, Nat.add_zero]
  have hrow : i = i' := by rw [← hdiv (a := i) hj, h, hdiv hj']
  subst hrow
  exact ⟨rfl, Nat.add_left_cancel h⟩

end

/-! ### The longest prefix -/

variable {α : Type*} {p : α → Bool} {l w rest : List α}

/-- `w` is the longest prefix of `l` whose elements satisfy `p`, and `rest` is
what follows it. -/
structure Longest (p : α → Bool) (l w rest : List α) : Prop where
  eq : l = w ++ rest
  all : ∀ x ∈ w, p x = true
  stop : ∀ x ∈ rest.head?, p x = false

theorem longest_span (p : α → Bool) (l : List α) :
    Longest p l (l.takeWhile p) (l.dropWhile p) := by
  refine ⟨List.takeWhile_append_dropWhile.symm, fun x => List.mem_takeWhile_imp, fun x hx => ?_⟩
  have hnot := List.head?_dropWhile_not p l
  rw [Option.mem_def.mp hx] at hnot
  exact hnot

namespace Longest

theorem dropWhile_rest (h : Longest p l w rest) : rest.dropWhile p = rest := by
  cases rest with
  | nil => rfl
  | cons x rest =>
    have hx := h.stop x rfl
    rw [List.dropWhile_cons, hx, if_neg Bool.false_ne_true]

theorem dropWhile_eq (h : Longest p l w rest) : l.dropWhile p = rest := by
  rw [h.eq, List.dropWhile_append_of_pos h.all, h.dropWhile_rest]

theorem takeWhile_eq (h : Longest p l w rest) : l.takeWhile p = w := by
  have happend := List.takeWhile_append_dropWhile (p := p) (l := l)
  rw [h.dropWhile_eq] at happend
  exact List.append_cancel_right (happend.trans h.eq)

end Longest

end HwMalloc.Lib
