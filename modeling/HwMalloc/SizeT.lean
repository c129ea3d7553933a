import HwMalloc.Lib.PowTwo

/-!
# HwMalloc.SizeT

`std::size_t` arithmetic as the sources use it, on 64 bits. A `size_t` is a
`Nat` below `sizeMod`; the operations that can leave this range wrap, as the
language says for unsigned integers.

The one operation whose result the language leaves open is `1u << k` for
`k ≥ 32`: the left operand has 32 bits. `shlOneU` gives it the meaning of the
32-bit shift instructions of the machines the library is built for, which read
the count modulo 32.
-/

namespace HwMalloc

/-- The number of `std::size_t` values. -/
def sizeMod : Nat := 2 ^ 64

/-- `a + b` on `std::size_t`. -/
def addSize (a b : Nat) : Nat := (a + b) % sizeMod

/-- `a - b` on `std::size_t`. -/
def subSize (a b : Nat) : Nat := (sizeMod + a - b) % sizeMod

/-- `a * b` on `std::size_t`. -/
def mulSize (a b : Nat) : Nat := a * b % sizeMod

/-- `a << k` on `std::size_t`. -/
def shlSize (a k : Nat) : Nat := a * 2 ^ k % sizeMod

/-- `1u << k` on the 32-bit `unsigned int`. -/
def shlOneU (k : Nat) : Nat := 2 ^ (k % 32)

/-- The conversion of a signed integer to `std::size_t`. -/
def sizeOfInt (n : Int) : Nat := (n % sizeMod).toNat

/-- The conversion of an integer to `std::ptrdiff_t`. -/
def toPtrdiff (n : Int) : Int := n.bmod sizeMod

/-- The largest `std::ptrdiff_t`, which no object exceeds in bytes. -/
def ptrdiffMax : Nat := 2 ^ 63 - 1

theorem addSize_of_lt {a b : Nat} (h : a + b < sizeMod) : addSize a b = a + b :=
  Nat.mod_eq_of_lt h

theorem subSize_of_le {a b : Nat} (hb : b ≤ a) (ha : a < sizeMod) : subSize a b = a - b := by
  unfold subSize sizeMod at *
  omega

theorem mulSize_of_lt {a b : Nat} (h : a * b < sizeMod) : mulSize a b = a * b :=
  Nat.mod_eq_of_lt h

theorem shlSize_of_lt {a k : Nat} (h : a * 2 ^ k < sizeMod) : shlSize a k = a * 2 ^ k :=
  Nat.mod_eq_of_lt h

theorem shlOneU_of_lt {k : Nat} (h : k < 32) : shlOneU k = 2 ^ k := by
  rw [shlOneU, Nat.mod_eq_of_lt h]

theorem sizeOfInt_of_nonneg {n : Int} (h0 : 0 ≤ n) (h1 : n < 2 ^ 31) : sizeOfInt n = n.toNat := by
  rw [sizeOfInt, Int.emod_eq_of_lt h0 (by unfold sizeMod; omega)]

/-- What `std::ptrdiff_t` represents is not changed. -/
theorem toPtrdiff_of_mem {n : Int} (h0 : -2 ^ 63 ≤ n) (h1 : n < 2 ^ 63) : toPtrdiff n = n :=
  Int.bmod_eq_of_le (by unfold sizeMod; omega) (by unfold sizeMod; omega)

end HwMalloc
