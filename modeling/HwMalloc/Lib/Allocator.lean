import HwMalloc.Lib.Run
import Mathlib.Data.Set.Insert
import Mathlib.Order.CompletePartialOrder
import Mathlib.Order.Interval.Set.Disjoint

/-!
# HwMalloc.Lib.Allocator

Allocators of memory, from outside and from inside.

**To its clients**, whatever blocks and requests are, an allocator is this: a client
asks, and gets a block that fits its request and that nobody holds; or it gives back a
block that it, or another client, holds. Nothing is said of where the blocks come
from. In every run a block was granted once more than it was returned if it is held,
and else as often (`granted_eq_returned`).

**Blocks are ranges** of addresses, the cells of equal size into which a larger range
is divided: `n` cells from an address on lie inside any range they fit in
(`cell_subset`), and two of them never overlap (`cells_disjoint`).
-/

namespace HwMalloc.Lib

/-! ### Ranges of addresses -/

/-- The `size` addresses from `base` on. -/
def addrs (base size : Nat) : Set Nat := Set.Ico base (base + size)

theorem addrs_subset {base size base' size' : Nat} (hlo : base' ≤ base)
    (hhi : base + size ≤ base' + size') : addrs base size ⊆ addrs base' size' :=
  Set.Ico_subset_Ico hlo hhi

/-- A range that is not empty meets itself. -/
theorem not_disjoint_self {base size : Nat} (hsize : 1 ≤ size) :
    ¬Disjoint (addrs base size) (addrs base size) := by
  intro h
  have hmem : base ∈ addrs base size := ⟨le_rfl, Nat.lt_add_of_pos_right hsize⟩
  exact Set.disjoint_left.mp h hmem hmem

/-- The first `n` cells lie in a range that has room for them. -/
theorem cell_subset {base cell n size i : Nat} (hi : i < n) (hfit : n * cell ≤ size) :
    addrs (base + i * cell) cell ⊆ addrs base size := by
  have hle : (i + 1) * cell ≤ n * cell := Nat.mul_le_mul_right cell hi
  rw [Nat.succ_mul] at hle
  exact addrs_subset (Nat.le_add_right _ _) (by omega)

/-- Different cells do not overlap. -/
theorem cells_disjoint {base cell i j : Nat} (hne : i ≠ j) :
    Disjoint (addrs (base + i * cell) cell) (addrs (base + j * cell) cell) := by
  have hlt : ∀ {i j : Nat}, i < j →
      Disjoint (addrs (base + i * cell) cell) (addrs (base + j * cell) cell) := by
    intro i j hij
    have hle : (i + 1) * cell ≤ j * cell := Nat.mul_le_mul_right cell hij
    rw [Nat.succ_mul] at hle
    refine Set.disjoint_left.mpr fun x hx hx' => ?_
    exact absurd hx.2 (not_lt.mpr (le_trans (by omega) hx'.1))
  rcases Nat.lt_or_gt_of_ne hne with h | h
  · exact hlt h
  · exact (hlt h).symm

/-! ### The view of the clients -/

/-- What the clients see: threads `ι`, requests `Q`, blocks `B`, and `X`, what a
client knows of a block. -/
inductive AllocEvent (ι Q B X : Type*)
  | requested (t : ι) (q : Q)
  | granted (t : ι) (b : B) (x : X)
  | returned (t : ι) (b : B)

/-- The requests under way, and the blocks that are held. -/
@[ext] structure Allocator (ι Q B : Type*) where
  pending : ι → Option Q
  live : Set B

variable {ι Q B X : Type*} [DecidableEq ι]

/-- Nobody has asked for anything. -/
def Allocator.new : Allocator ι Q B := ⟨fun _ => none, ∅⟩

inductive AllocatorStep (fits : Q → X → Prop) :
    Allocator ι Q B → AllocEvent ι Q B X → Allocator ι Q B → Prop
  | requested {a : Allocator ι Q B} {t : ι} {q : Q} :
      a.pending t = none →
      AllocatorStep fits a (.requested t q) ⟨Function.update a.pending t (some q), a.live⟩
  | granted {a : Allocator ι Q B} {t : ι} {q : Q} {b : B} {x : X} :
      a.pending t = some q → fits q x → b ∉ a.live →
      AllocatorStep fits a (.granted t b x)
        ⟨Function.update a.pending t none, insert b a.live⟩
  | returned {a : Allocator ι Q B} {t : ι} {b : B} :
      a.pending t = none → b ∈ a.live →
      AllocatorStep fits a (.returned t b) ⟨a.pending, a.live \ {b}⟩

namespace AllocEvent

variable [DecidableEq B]

/-- The event hands out `b`. -/
def grants (b : B) : AllocEvent ι Q B X → Bool
  | granted _ b' _ => b' = b
  | _ => false

/-- The event takes `b` back. -/
def returns (b : B) : AllocEvent ι Q B X → Bool
  | returned _ b' => b' = b
  | _ => false

end AllocEvent

/-- How often a block was handed out and taken back differs by one if it is held,
and else not at all. -/
theorem granted_eq_returned [DecidableEq B] {fits : Q → X → Prop} {a : Allocator ι Q B}
    {es : List (AllocEvent ι Q B X)} (h : Run (AllocatorStep fits) .new es a) (b : B) :
    (b ∈ a.live → es.countP (AllocEvent.grants b) = es.countP (AllocEvent.returns b) + 1) ∧
      (b ∉ a.live → es.countP (AllocEvent.grants b) = es.countP (AllocEvent.returns b)) := by
  induction h with
  | refl => simp [Allocator.new]
  | snoc _ hstep ih =>
    obtain ⟨hin, hout⟩ := ih
    cases hstep with
    | requested _ => simpa [AllocEvent.grants, AllocEvent.returns] using ⟨hin, hout⟩
    | @granted t q b' x _ _ hfresh =>
      by_cases hb : b' = b
      · subst hb
        simp [AllocEvent.grants, AllocEvent.returns, hout hfresh]
      · simpa [AllocEvent.grants, AllocEvent.returns, hb, Ne.symm hb] using ⟨hin, hout⟩
    | @returned t b' _ hlive =>
      by_cases hb : b' = b
      · subst hb
        simp [AllocEvent.grants, AllocEvent.returns, hin hlive]
      · simpa [AllocEvent.grants, AllocEvent.returns, hb, Ne.symm hb] using ⟨hin, hout⟩

end HwMalloc.Lib
