import HwMalloc.Lib.PowTwo
import Mathlib.Order.Closure

/-!
# HwMalloc.Lib.Closure

Rounding as closure. A closure operator of a linear order rounds every element up
to the least closed one (`isLeast_closure`). Two of them can be joined at an element
that the first one leaves where it is: up to there the first one rounds, above it
the second one (`splice`).
-/

namespace HwMalloc.Lib

section

variable {α : Type*}

/-- The closure of `x` is the least closed element that is not below `x`. -/
theorem isLeast_closure [PartialOrder α] (c : ClosureOperator α) (x : α) :
    IsLeast {y | c.IsClosed y ∧ x ≤ y} (c x) :=
  ⟨⟨c.isClosed_closure x, c.le_closure x⟩, fun _ hy => ClosureOperator.closure_min hy.2 hy.1⟩

/-- `c₁` up to `a`, and `c₂` above. -/
def splice [LinearOrder α] (c₁ c₂ : ClosureOperator α) (a : α) (ha : c₁.IsClosed a) :
    ClosureOperator α :=
  ClosureOperator.ofPred (fun x => if x ≤ a then c₁ x else c₂ x)
    (fun x => if x ≤ a then c₁.IsClosed x else c₂.IsClosed x)
    (fun x => by
      split
      · exact c₁.le_closure x
      · exact c₂.le_closure x)
    (fun x => by
      split
      · next hx =>
        rw [if_pos (ClosureOperator.closure_min hx ha)]
        exact c₁.isClosed_closure x
      · next hx =>
        rw [if_neg fun hle => hx ((c₂.le_closure x).trans hle)]
        exact c₂.isClosed_closure x)
    (fun x y hxy hy => by
      split
      · next hx =>
        by_cases hya : y ≤ a
        · rw [if_pos hya] at hy
          exact ClosureOperator.closure_min hxy hy
        · exact (ClosureOperator.closure_min hx ha).trans (not_le.mp hya).le
      · next hx =>
        rw [if_neg fun hya => hx (hxy.trans hya)] at hy
        exact ClosureOperator.closure_min hxy hy)

section

variable [LinearOrder α] {c₁ c₂ : ClosureOperator α} {a : α} {ha : c₁.IsClosed a} {x : α}

theorem splice_of_le (hx : x ≤ a) : splice c₁ c₂ a ha x = c₁ x := if_pos hx

theorem splice_of_lt (hx : a < x) : splice c₁ c₂ a ha x = c₂ x := if_neg (not_le.mpr hx)

end

end

/-! ### Multiples and powers of two

The two roundings of numbers that size classes are made of. -/

/-- Rounding up to a multiple of `d`. -/
def multiples (d : Nat) (hd : 0 < d) : ClosureOperator Nat :=
  ClosureOperator.ofPred (fun n => (n + d - 1) / d * d) (d ∣ ·) (fun _ => (leastMul_div hd).le)
    (fun _ => Nat.dvd_mul_left d _) (fun _ _ hle hdvd => (leastMul_div hd).2 ⟨hdvd, hle⟩)

@[simp] theorem isClosed_multiples {d : Nat} {hd : 0 < d} {n : Nat} :
    (multiples d hd).IsClosed n ↔ d ∣ n := Iff.rfl

/-- Rounding up to a power of two. -/
def powersOfTwo : ClosureOperator Nat :=
  ClosureOperator.ofPred (fun n => 2 ^ Nat.clog 2 n) (fun q => ∃ k, q = 2 ^ k)
    (fun n => Nat.le_pow_clog Nat.one_lt_two n) (fun _ => ⟨_, rfl⟩) (fun n q hle hq => by
      obtain ⟨k, rfl⟩ := hq
      exact Nat.pow_le_pow_right Nat.two_pos (Nat.clog_le_of_le_pow hle))

theorem leastMul_multiples {d : Nat} (hd : 0 < d) (n : Nat) : LeastMul (multiples d hd n) d n :=
  isLeast_closure (multiples d hd) n

theorem leastPow_powersOfTwo (n : Nat) : LeastPow (powersOfTwo n) n :=
  isLeast_closure powersOfTwo n

/-- Less than a multiple is wasted. -/
theorem multiples_lt {d : Nat} (hd : 0 < d) (n : Nat) : multiples d hd n < n + d := by
  have hdiv : (n + d - 1) / d * d ≤ n + d - 1 := Nat.div_mul_le_self ..
  show (n + d - 1) / d * d < n + d
  omega

/-- Less than the half is wasted. -/
theorem powersOfTwo_lt {n : Nat} (hn : 1 < n) : powersOfTwo n < 2 * n := by
  have hclog := Nat.clog_pos Nat.one_lt_two hn
  have hlt := Nat.pow_pred_clog_lt_self Nat.one_lt_two hn
  show 2 ^ Nat.clog 2 n < 2 * n
  rw [← Nat.succ_pred_eq_of_pos hclog, Nat.pow_succ]
  omega

end HwMalloc.Lib
