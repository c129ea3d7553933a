import Mathlib.Data.Nat.Log
import Mathlib.Order.Bounds.Basic
import Mathlib.Tactic.NormNum.Basic
import Mathlib.Tactic.NormNum.Pow

/-!
# HwMalloc.Lib.PowTwo

Powers of two as rounding targets. `LeastPow p n` says that `p` is the least
power of two not below `n`, and `LeastMul p d n` that `p` is the least multiple
of `d` not below `n`. The rest of the module computes such targets: the first
one from a bit length (`Nat.log2`), the second one from a rounded-up shift.

Nothing here mentions an allocator.
-/

namespace HwMalloc.Lib

/-- `p` is the least power of two that is at least `n`. -/
def LeastPow (p n : Nat) : Prop := IsLeast {q | (∃ k, q = 2 ^ k) ∧ n ≤ q} p

/-- `p` is the least multiple of `d` that is at least `n`. -/
def LeastMul (p d n : Nat) : Prop := IsLeast {q | d ∣ q ∧ n ≤ q} p

theorem LeastPow.le {p n : Nat} (h : LeastPow p n) : n ≤ p := h.1.2

theorem LeastPow.unique {p q n : Nat} (hp : LeastPow p n) (hq : LeastPow q n) : p = q :=
  IsLeast.unique hp hq

theorem LeastMul.le {p d n : Nat} (h : LeastMul p d n) : n ≤ p := h.1.2

/-! ### Bit lengths -/

theorem log2_lt_of_lt {n k : Nat} (hk : 0 < k) (h : n < 2 ^ k) : Nat.log2 n < k := by
  rcases Nat.eq_zero_or_pos n with rfl | hn
  · simpa using hk
  · exact (Nat.log2_lt (by omega)).mpr h

theorem log2_mono {m n : Nat} (h : m ≤ n) : Nat.log2 m ≤ Nat.log2 n := by
  rw [Nat.log2_eq_log_two, Nat.log2_eq_log_two]
  exact Nat.log_mono_right h

/-- The bit length of `2 ^ (k + 1) - 1` is `k + 1`. -/
theorem log2_two_pow_sub_one (k : Nat) : Nat.log2 (2 ^ (k + 1) - 1) = k := by
  have hpos : 0 < 2 ^ k := Nat.two_pow_pos k
  refine (Nat.log2_eq_iff ?_).mpr ⟨?_, ?_⟩ <;> rw [Nat.pow_succ] <;> omega

/-- Shifting right by `k` shortens a number by `k` bits. -/
theorem log2_div_two_pow {n k : Nat} (h : 2 ^ k ≤ n) :
    Nat.log2 (n / 2 ^ k) + k = Nat.log2 n := by
  have hpos : 0 < 2 ^ k := Nat.two_pow_pos k
  have hq : n / 2 ^ k ≠ 0 := by
    have := Nat.div_pos h hpos
    omega
  have hn : n ≠ 0 := by omega
  symm
  refine (Nat.log2_eq_iff hn).mpr ⟨?_, ?_⟩
  · rw [Nat.pow_add]
    exact (Nat.le_div_iff_mul_le hpos).mp (Nat.log2_self_le hq)
  · rw [show Nat.log2 (n / 2 ^ k) + k + 1 = Nat.log2 (n / 2 ^ k) + 1 + k by omega,
      Nat.pow_add]
    exact (Nat.div_lt_iff_lt_mul hpos).mp Nat.lt_log2_self

/-- Rounding up through the bit length of `n - 1`. -/
theorem leastPow_log2 {n : Nat} (hn : 2 ≤ n) : LeastPow (2 ^ (Nat.log2 (n - 1) + 1)) n := by
  refine ⟨⟨⟨_, rfl⟩, ?_⟩, ?_⟩
  · have := Nat.lt_log2_self (n := n - 1)
    omega
  · rintro q ⟨⟨k, rfl⟩, hq⟩
    have hk : Nat.log2 (n - 1) < k := (Nat.log2_lt (by omega)).mpr (by omega)
    exact Nat.pow_le_pow_right (by omega) hk

/-! ### Rounding up to a multiple -/

/-- Rounding up to a multiple of `d` by a division of `n + d - 1`. -/
theorem leastMul_div {n d : Nat} (hd : 0 < d) : LeastMul ((n + d - 1) / d * d) d n := by
  refine ⟨⟨Nat.dvd_mul_left d _, ?_⟩, ?_⟩
  · have hdiv := Nat.div_add_mod (n + d - 1) d
    have hmod := Nat.mod_lt (n + d - 1) hd
    rw [Nat.mul_comm] at hdiv
    omega
  · rintro q ⟨⟨m, rfl⟩, hq⟩
    have hlt : (n + d - 1) / d < m + 1 := by
      rw [Nat.div_lt_iff_lt_mul hd, Nat.add_mul, Nat.one_mul, Nat.mul_comm m d]
      omega
    rw [Nat.mul_comm d m]
    exact Nat.mul_le_mul_right d (by omega)

theorem le_div_mul_of_pos {n d : Nat} (hd : 0 < d) : n ≤ (n + d - 1) / d * d :=
  (leastMul_div hd).le

/-! ### Alignment

A power of two that divides a number divides what the number is rounded up to. -/

theorem LeastPow.dvd {p n k : Nat} (h : LeastPow p n) (hn : 1 ≤ n) (hk : 2 ^ k ∣ n) :
    2 ^ k ∣ p := by
  obtain ⟨⟨⟨j, rfl⟩, hle⟩, -⟩ := h
  have hkj : 2 ^ k ≤ 2 ^ j := (Nat.le_of_dvd hn hk).trans hle
  exact Nat.pow_dvd_pow 2 ((Nat.pow_le_pow_iff_right (by omega)).mp hkj)

/-- A multiple is its own rounding. -/
theorem LeastMul.eq_of_dvd {p d n : Nat} (h : LeastMul p d n) (hd : d ∣ n) : p = n :=
  Nat.le_antisymm (h.2 ⟨hd, Nat.le_refl n⟩) h.le

theorem LeastMul.dvd {p n m k : Nat} (h : LeastMul p (2 ^ m) n) (hk : 2 ^ k ∣ n) : 2 ^ k ∣ p := by
  rcases Nat.le_total k m with hkm | hmk
  · exact (Nat.pow_dvd_pow 2 hkm).trans h.1.1
  · rw [h.eq_of_dvd ((Nat.pow_dvd_pow 2 hmk).trans hk)]
    exact hk

end HwMalloc.Lib
