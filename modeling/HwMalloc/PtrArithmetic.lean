import Mathlib.Data.List.Infix
import HwMalloc.NullRelease

/-!
# HwMalloc.PtrArithmetic

The arithmetic of `hw_ptr<T>` and of `hw_ptr<T const>`, and the conversions between
these and the void pointers.

The two class templates are written out separately. Each operator of `hw_ptr<T>` moves
the host address and, if it is not null, the device address. The operators of
`hw_ptr<T const>` are declared, but none of them compiles: the bodies assign the
`T const*` of `get()` to the `void*` of the block. The difference of two pointers
compiles in three of the four combinations; with a `hw_ptr<T const>` on the left and a
`hw_ptr<T>` on the right the call is ambiguous.

So there are two levels here. `PtrClass.move` is what the classes declare, and a
program is written against it; `FancyPtr.step` and `FancyPtr.diff` are what compiles,
and `none` where nothing does. `displacement` is what a sequence of operators and
conversions adds up to, in elements. A declared sequence that stays within the
allocation moves both addresses by this many elements and nothing else exactly if all
arithmetic on the way is that of `hw_ptr<T>` (`arithmetic_in_lockstep_iff`).
-/

namespace HwMalloc

variable {C : Context}

/-! ### Built-in pointers

An address is a number, and the arithmetic goes in steps of the size of the object
type. A difference is divided by this size, which the rules for pointers into one
array make exact. -/

/-- An object type `T`; the arithmetic on `T*` depends on `sizeof(T)` only. -/
structure ObjectType where
  size : Nat
  size_pos : 0 < size

namespace ObjectType

variable (T : ObjectType)

/-- `p + n` on `T*`. The language defines the operations on built-in pointers
within one object only, where no address wraps. -/
def ptrAdd (p : Nat) (n : Int) : Nat := (p + n * T.size).toNat

/-- `p - n` on `T*`. -/
def ptrSub (p : Nat) (n : Int) : Nat := (p - n * T.size).toNat

/-- `p - q` on `T*`. -/
def ptrDiff (p q : Nat) : Int := ((p : Int) - q) / T.size

@[simp] theorem ptrAdd_zero (p : Nat) : T.ptrAdd p 0 = p := by simp [ptrAdd]

theorem ptrSub_eq (p : Nat) (n : Int) : T.ptrSub p n = T.ptrAdd p (-n) := by
  rw [ptrSub, ptrAdd, Int.neg_mul, Int.sub_eq_add_neg]

/-- Steps from a common start add up. -/
theorem ptrAdd_of_eq {a p : Nat} {j n : Int} (hp : (p : Int) = a + j * T.size)
    (h : 0 ≤ (j + n) * T.size) : (T.ptrAdd p n : Int) = a + (j + n) * T.size := by
  have hsum : (p : Int) + n * T.size = a + (j + n) * T.size := by
    rw [hp, Int.add_mul, Int.add_assoc]
  rw [ptrAdd, hsum]
  exact Int.toNat_of_nonneg (Int.add_nonneg (Int.natCast_nonneg a) h)

theorem ptrDiff_of_eq {a p q : Nat} {j k : Int} (hp : (p : Int) = a + j * T.size)
    (hq : (q : Int) = a + k * T.size) : T.ptrDiff p q = j - k := by
  have hdiff : (p : Int) - q = (j - k) * T.size := by
    rw [hp, hq, Int.sub_mul]
    omega
  have hsize : (T.size : Int) ≠ 0 := Int.natCast_ne_zero.mpr T.size_pos.ne'
  rw [ptrDiff, hdiff, Int.mul_ediv_cancel _ hsize]

end ObjectType

/-- An argument of any integral type, which `std::ptrdiff_t` represents. -/
structure Ptrdiff where
  val : Int
  ge : -2 ^ 63 ≤ val
  lt : val < 2 ^ 63

@[simp] theorem toPtrdiff_val (n : Ptrdiff) : toPtrdiff n.val = n.val :=
  toPtrdiff_of_mem n.ge n.lt

/-! ### The pointer classes -/

/-- `hw_void_ptr` for `void const*`. -/
structure HwConstVoidPtr (C : Context) where
  data : Block C

/-- `hw_ptr<T const>`. -/
structure HwConstPtr (C : Context) where
  ptr : HwConstVoidPtr C

/-- The constructor from a `hw_void_ptr`. -/
def HwVoidPtr.toHwConstVoidPtr (p : HwVoidPtr C) : HwConstVoidPtr C := ⟨p.data⟩

/-- `operator hw_ptr<T const, Block>` of a `hw_void_ptr`. -/
def HwVoidPtr.toHwConstPtr (p : HwVoidPtr C) : HwConstPtr C := ⟨p.toHwConstVoidPtr⟩

/-- `operator hw_ptr<T, Block>`, for `T` with `const`. -/
def HwConstVoidPtr.toHwConstPtr (p : HwConstVoidPtr C) : HwConstPtr C := ⟨p⟩

/-- `operator const_void_ptr_t` of a `hw_ptr<T>`. -/
def HwPtr.toHwConstVoidPtr (p : HwPtr C) : HwConstVoidPtr C := p.ptr.toHwConstVoidPtr

/-- The constructor from a `hw_ptr<T>`. -/
def HwPtr.toHwConstPtr (p : HwPtr C) : HwConstPtr C := ⟨p.toHwVoidPtr.toHwConstVoidPtr⟩

/-- `operator const_void_ptr_t` of a `hw_ptr<T const>`. -/
def HwConstPtr.toHwConstVoidPtr (p : HwConstPtr C) : HwConstVoidPtr C := p.ptr

/-! ### The operators

The prefix and the postfix forms, and those with a number of elements, each under its
own name, as the template has them. The postfix forms return the pointer from before,
so that what is left depends on which of the two is used. -/

/-- The body that the operators share; `f` is the arithmetic on `T*`. -/
def Block.moveBy (f : Nat → Nat) (b : Block C) : Block C :=
  { b with
    ptr := f b.ptr
    devicePtr := if b.devicePtr ≠ 0 then f b.devicePtr else b.devicePtr }

namespace HwPtr

variable (T : ObjectType) (p : HwPtr C)

/-- `operator++()`. -/
def preIncr : HwPtr C := ⟨⟨p.ptr.data.moveBy (T.ptrAdd · 1)⟩⟩

/-- `operator++(int)`: the operand afterwards, and the copy that is returned. -/
def postIncr : HwPtr C × HwPtr C := (⟨⟨p.ptr.data.moveBy (T.ptrAdd · 1)⟩⟩, p)

/-- `operator+=`. -/
def addAssign (n : Int) : HwPtr C := ⟨⟨p.ptr.data.moveBy (T.ptrAdd · n)⟩⟩

/-- `operator+`, which casts its argument. -/
def add (n : Int) : HwPtr C := p.addAssign T (toPtrdiff n)

/-- `operator--()`. -/
def preDecr : HwPtr C := ⟨⟨p.ptr.data.moveBy (T.ptrSub · 1)⟩⟩

/-- `operator--(int)`. -/
def postDecr : HwPtr C × HwPtr C := (⟨⟨p.ptr.data.moveBy (T.ptrSub · 1)⟩⟩, p)

/-- `operator-=`. -/
def subAssign (n : Int) : HwPtr C := ⟨⟨p.ptr.data.moveBy (T.ptrSub · n)⟩⟩

/-- `operator-`, which casts its argument. -/
def sub (n : Int) : HwPtr C := p.subAssign T (toPtrdiff n)

/-- `operator-` of two pointers. -/
def diff (a b : HwPtr C) : Int := T.ptrDiff a.ptr.data.ptr b.ptr.data.ptr

end HwPtr

/-- `operator-` of two pointers to `T const`. -/
def HwConstPtr.diff (T : ObjectType) (a b : HwConstPtr C) : Int :=
  T.ptrDiff a.ptr.data.ptr b.ptr.data.ptr

/-- The pointer with which a client goes on after a postfix operator. -/
inductive PostfixUse
  | operand
  | returned
  deriving Repr, DecidableEq

def PostfixUse.pick {α : Type} (use : PostfixUse) (r : α × α) : α :=
  match use with
  | .operand => r.1
  | .returned => r.2

/-- An operator, with its argument. -/
inductive PtrArith
  | preIncr
  | postIncr (use : PostfixUse)
  | addAssign (n : Ptrdiff)
  | add (n : Ptrdiff)
  | preDecr
  | postDecr (use : PostfixUse)
  | subAssign (n : Ptrdiff)
  | sub (n : Ptrdiff)

/-- The number of elements by which an operator moves the pointer. -/
def PtrArith.shift : PtrArith → Int
  | preIncr => 1
  | postIncr use => use.pick (1, 0)
  | addAssign n => n.val
  | add n => n.val
  | preDecr => -1
  | postDecr use => use.pick (-1, 0)
  | subAssign n => -n.val
  | sub n => -n.val

/-- The operators of `hw_ptr<T>`, on an argument converted to their parameter. -/
def HwPtr.arith (T : ObjectType) (p : HwPtr C) : PtrArith → HwPtr C
  | .preIncr => p.preIncr T
  | .postIncr use => use.pick (p.postIncr T)
  | .addAssign n => p.addAssign T (toPtrdiff n.val)
  | .add n => p.add T n.val
  | .preDecr => p.preDecr T
  | .postDecr use => use.pick (p.postDecr T)
  | .subAssign n => p.subAssign T (toPtrdiff n.val)
  | .sub n => p.sub T n.val

/-- The operators of `hw_ptr<T const>`, from `operator++()` to `operator-`. The body of
each assigns a `T const*` to `m_ptr`, which is a `void*`, and so does not compile. -/
def HwConstPtr.arith (_ : HwConstPtr C) : PtrArith → Option (HwConstPtr C) := fun _ => none

/-! ### One operator

All of them are one move, by a number of elements that may be negative; on a block
whose device pointer is null only the host address moves. -/

section Operators

variable (T : ObjectType)

theorem Block.moveBy_ptrAdd_zero (b : Block C) : b.moveBy (T.ptrAdd · 0) = b := by
  simp [moveBy]

theorem Block.moveBy_ptrSub (b : Block C) (n : Int) :
    b.moveBy (T.ptrSub · n) = b.moveBy (T.ptrAdd · (-n)) := by
  simp [moveBy, ObjectType.ptrSub_eq]

/-- Every operator of `hw_ptr<T>` moves the block by its number of elements. -/
theorem HwPtr.arith_data (p : HwPtr C) (a : PtrArith) :
    (p.arith T a).ptr.data = p.ptr.data.moveBy (T.ptrAdd · a.shift) := by
  cases a with
  | preIncr => rfl
  | postIncr use =>
    cases use with
    | operand => rfl
    | returned => exact (p.ptr.data.moveBy_ptrAdd_zero T).symm
  | addAssign n =>
    simp only [arith, addAssign, toPtrdiff_val]
    rfl
  | add n =>
    simp only [arith, add, addAssign, toPtrdiff_val]
    rfl
  | preDecr => exact p.ptr.data.moveBy_ptrSub T 1
  | postDecr use =>
    cases use with
    | operand => exact p.ptr.data.moveBy_ptrSub T 1
    | returned => exact (p.ptr.data.moveBy_ptrAdd_zero T).symm
  | subAssign n =>
    simp only [arith, subAssign, toPtrdiff_val]
    exact p.ptr.data.moveBy_ptrSub T n.val
  | sub n =>
    simp only [arith, sub, subAssign, toPtrdiff_val]
    exact p.ptr.data.moveBy_ptrSub T n.val

end Operators

/-! ### Pointers of any class

A program converts between the four classes, and all conversions keep the block. Which
operators there are depends on the class alone, so that a program can be checked
against the classes before it is run (`PtrClass.move`). -/

/-- A fancy pointer. -/
inductive FancyPtr (C : Context)
  | voidPtr (p : HwVoidPtr C)
  | constVoidPtr (p : HwConstVoidPtr C)
  | ptr (p : HwPtr C)
  | constPtr (p : HwConstPtr C)

/-- The classes of fancy pointers. -/
inductive PtrClass
  | voidPtr
  | constVoidPtr
  | ptr
  | constPtr
  deriving Repr, DecidableEq

namespace PtrClass

/-- A pointer to something that is `const`. -/
def isConst : PtrClass → Bool
  | constVoidPtr | constPtr => true
  | voidPtr | ptr => false

/-- A pointer to objects, which has arithmetic. -/
def isTyped : PtrClass → Bool
  | ptr | constPtr => true
  | voidPtr | constVoidPtr => false

end PtrClass

/-- What a client does with a pointer. -/
inductive PtrMove
  | arith (a : PtrArith)
  | convert (target : PtrClass)

/-- The number of elements by which a move displaces the pointer. -/
def PtrMove.shift : PtrMove → Int
  | arith a => a.shift
  | convert _ => 0

/-- The moves that the classes declare: arithmetic on typed pointers, and the
conversions that drop no `const`. -/
def PtrClass.move (c : PtrClass) : PtrMove → Option PtrClass
  | .arith _ => if c.isTyped then some c else none
  | .convert target => if c.isConst && !target.isConst then none else some target

/-- All arithmetic in a sequence of declared moves is that of `hw_ptr<T>`. -/
def ArithOnMutable : PtrClass → List PtrMove → Prop
  | _, [] => True
  | c, m :: moves => (∀ a, m = .arith a → c ≠ .constPtr) ∧
      ∀ c', c.move m = some c' → ArithOnMutable c' moves

namespace FancyPtr

def ptrClass : FancyPtr C → PtrClass
  | voidPtr _ => .voidPtr
  | constVoidPtr _ => .constVoidPtr
  | ptr _ => .ptr
  | constPtr _ => .constPtr

/-- `m_data`. -/
def block : FancyPtr C → Block C
  | voidPtr p => p.data
  | constVoidPtr p => p.data
  | ptr p => p.ptr.data
  | constPtr p => p.ptr.data

/-- The conversions. None of them drops a `const`. -/
def convert : FancyPtr C → PtrClass → Option (FancyPtr C)
  | voidPtr p, .voidPtr => some (voidPtr p)
  | voidPtr p, .constVoidPtr => some (constVoidPtr p.toHwConstVoidPtr)
  | voidPtr p, .ptr => some (ptr p.toHwPtr)
  | voidPtr p, .constPtr => some (constPtr p.toHwConstPtr)
  | constVoidPtr p, .constVoidPtr => some (constVoidPtr p)
  | constVoidPtr p, .constPtr => some (constPtr p.toHwConstPtr)
  | ptr p, .voidPtr => some (voidPtr p.toHwVoidPtr)
  | ptr p, .constVoidPtr => some (constVoidPtr p.toHwConstVoidPtr)
  | ptr p, .ptr => some (ptr p)
  | ptr p, .constPtr => some (constPtr p.toHwConstPtr)
  | constPtr p, .constVoidPtr => some (constVoidPtr p.toHwConstVoidPtr)
  | constPtr p, .constPtr => some (constPtr p)
  | _, _ => none

/-- One move, if it compiles. The void pointers have no arithmetic. -/
def step (T : ObjectType) : FancyPtr C → PtrMove → Option (FancyPtr C)
  | ptr p, .arith a => some (ptr (p.arith T a))
  | constPtr p, .arith a => (p.arith a).map constPtr
  | p, .convert target => p.convert target
  | _, .arith _ => none

/-- `operator-` of two pointers, if it compiles. -/
def diff (T : ObjectType) : FancyPtr C → FancyPtr C → Option Int
  | ptr a, ptr b => some (HwPtr.diff T a b)
  | ptr a, constPtr b => some (HwConstPtr.diff T a.toHwConstPtr b)
  -- Two overloads are equally good: `b` converts to a `hw_ptr<T const>`, and by way of
  -- `operator bool` to the `std::size_t` of the other `operator-`.
  | constPtr _, ptr _ => none
  | constPtr a, constPtr b => some (HwConstPtr.diff T a b)
  | _, _ => none

variable {T : ObjectType} {p p' q : FancyPtr C}

/-- A conversion copies the block. -/
theorem convert_block {target : PtrClass} (h : p.convert target = some p') :
    p'.block = p.block := by
  cases p <;> cases target <;> cases h <;> rfl

/-- What one move does to the block. -/
theorem step_block {m : PtrMove} (h : p.step T m = some p') :
    p'.block = p.block.moveBy (T.ptrAdd · m.shift) := by
  cases m with
  | arith a =>
    cases p with
    | voidPtr p => cases h
    | constVoidPtr p => cases h
    | ptr p =>
      cases h
      exact p.arith_data T a
    | constPtr p => cases h
  | convert target =>
    have hconvert : p.convert target = some p' := by
      cases p <;> exact h
    rw [convert_block hconvert]
    exact (p.block.moveBy_ptrAdd_zero T).symm

/-- All declared conversions compile. -/
theorem convert_eq (p : FancyPtr C) (target : PtrClass) :
    (p.convert target).map ptrClass = p.ptrClass.move (.convert target) := by
  cases p <;> cases target <;> rfl

/-- What compiles is declared. -/
theorem step_class {m : PtrMove} (h : p.step T m = some p') :
    p.ptrClass.move m = some p'.ptrClass := by
  cases m with
  | arith a =>
    cases p with
    | ptr p =>
      cases h
      rfl
    | _ => cases h
  | convert target =>
    have hconvert : p.convert target = some p' := by
      cases p <;> exact h
    rw [← convert_eq, hconvert]
    rfl

/-- Of the declared moves only the arithmetic of a `hw_ptr<T const>` does not
compile. -/
theorem step_eq_none_iff {m : PtrMove} {c : PtrClass} (h : p.ptrClass.move m = some c) :
    p.step T m = none ↔ (∃ a, m = .arith a) ∧ p.ptrClass = .constPtr := by
  cases m with
  | arith a =>
    cases p with
    | voidPtr p => cases h
    | constVoidPtr p => cases h
    | ptr p => exact iff_of_false (fun h => nomatch h) fun h => nomatch h.2
    | constPtr p => exact iff_of_true rfl ⟨⟨a, rfl⟩, rfl⟩
  | convert target =>
    rw [← convert_eq] at h
    obtain ⟨p', hp', -⟩ := Option.map_eq_some_iff.mp h
    have hstep : p.step T (.convert target) = p.convert target := by
      cases p <;> rfl
    rw [hstep, hp']
    exact iff_of_false (fun h => nomatch h) fun ⟨⟨_, ha⟩, _⟩ => nomatch ha

/-- The difference of typed pointers compiles unless it is ambiguous. -/
theorem diff_eq (hp : p.ptrClass.isTyped = true) (hq : q.ptrClass.isTyped = true)
    (h : ¬(p.ptrClass = .constPtr ∧ q.ptrClass = .ptr)) :
    p.diff T q = some (T.ptrDiff p.block.ptr q.block.ptr) := by
  cases p with
  | voidPtr p => cases hp
  | constVoidPtr p => cases hp
  | ptr p =>
    cases q with
    | voidPtr q => cases hq
    | constVoidPtr q => cases hq
    | _ => rfl
  | constPtr p =>
    cases q with
    | voidPtr q => cases hq
    | constVoidPtr q => cases hq
    | ptr q => exact absurd ⟨rfl, rfl⟩ h
    | constPtr q => rfl

/-- The ambiguous call. -/
theorem diff_eq_none (hp : p.ptrClass = .constPtr) (hq : q.ptrClass = .ptr) :
    p.diff T q = none := by
  cases p <;> cases hp
  cases q <;> cases hq
  rfl

end FancyPtr

/-! ### Sequences of moves

What a sequence adds up to does not depend on where the conversions stand in it. It is
compared with the same sequence without operators, which is the block itself. -/

/-- `FancyPtr.step` as a relation. -/
def FancyPtr.Step (T : ObjectType) (p : FancyPtr C) (m : PtrMove) (p' : FancyPtr C) : Prop :=
  p.step T m = some p'

/-- The sum of the displacements. -/
def displacement (moves : List PtrMove) : Int := (moves.map PtrMove.shift).sum

@[simp] theorem displacement_nil : displacement [] = 0 := rfl

@[simp] theorem displacement_append (moves moves' : List PtrMove) :
    displacement (moves ++ moves') = displacement moves + displacement moves' := by
  simp [displacement]

@[simp] theorem displacement_singleton (m : PtrMove) : displacement [m] = m.shift := by
  simp [displacement]

/-- All positions on the way are in the allocation of `len` bytes, or one past its
end. -/
def Within (T : ObjectType) (len : Nat) (moves : List PtrMove) : Prop :=
  ∀ pre ∈ moves.inits, 0 ≤ displacement pre * T.size ∧ displacement pre * T.size ≤ len

instance (T : ObjectType) (len : Nat) (moves : List PtrMove) : Decidable (Within T len moves) :=
  inferInstanceAs (Decidable (∀ pre ∈ moves.inits, _))

namespace Within

variable {T : ObjectType} {len : Nat} {moves moves' : List PtrMove}

theorem of_append (h : Within T len (moves ++ moves')) : Within T len moves := by
  intro pre hpre
  rw [List.mem_inits] at hpre
  exact h pre ((List.mem_inits _ _).mpr (hpre.trans (List.prefix_append _ _)))

theorem displacement_nonneg (h : Within T len moves) : 0 ≤ displacement moves * T.size :=
  (h moves ((List.mem_inits _ _).mpr (List.prefix_refl _))).1

end Within

/-- The block `b'` is `b`, moved by `k` elements in both address spaces. -/
structure Block.Moved (T : ObjectType) (k : Int) (b b' : Block C) : Prop where
  ptr : (b'.ptr : Int) = b.ptr + k * T.size
  devicePtr : b.devicePtr ≠ 0 → (b'.devicePtr : Int) = b.devicePtr + k * T.size
  devicePtr_null : b.devicePtr = 0 → b'.devicePtr = 0
  segment : b'.segment = b.segment
  userAllocation : b'.userAllocation = b.userAllocation
  handle : b'.handle = b.handle
  deviceHandle : b'.deviceHandle = b.deviceHandle
  deviceId : b'.deviceId = b.deviceId

namespace Block.Moved

variable {T : ObjectType} {j k : Int} {b b' b'' : Block C}

theorem refl (T : ObjectType) (b : Block C) : Moved T 0 b b where
  ptr := by simp
  devicePtr := fun _ => by simp
  devicePtr_null := id
  segment := rfl
  userAllocation := rfl
  handle := rfl
  deviceHandle := rfl
  deviceId := rfl

/-- A block moved to or past its first byte keeps a device address that is not
null. -/
theorem devicePtr_ne_zero (h : Moved T k b b') (hk : 0 ≤ k * T.size) (hb : b.devicePtr ≠ 0) :
    b'.devicePtr ≠ 0 := by
  have hmoved := h.devicePtr hb
  omega

/-- One more move, from and to positions that are not before the block. -/
theorem moveBy (h : Moved T j b b') (hj : 0 ≤ j * T.size) (hjk : 0 ≤ (j + k) * T.size) :
    Moved T (j + k) b (b'.moveBy (T.ptrAdd · k)) where
  ptr := T.ptrAdd_of_eq h.ptr hjk
  devicePtr := fun hb => by
    rw [Block.moveBy, if_pos (h.devicePtr_ne_zero hj hb)]
    exact T.ptrAdd_of_eq (h.devicePtr hb) hjk
  devicePtr_null := fun hb => by
    have hnull := h.devicePtr_null hb
    rw [Block.moveBy, if_neg (not_not.mpr hnull), hnull]
  segment := h.segment
  userAllocation := h.userAllocation
  handle := h.handle
  deviceHandle := h.deviceHandle
  deviceId := h.deviceId

/-- The displacement determines the block. -/
theorem unique (h : Moved T k b b') (h' : Moved T k b b'') : b' = b'' := by
  have hptr : b'.ptr = b''.ptr := Int.ofNat.inj (h.ptr.trans h'.ptr.symm)
  have hdevice : b'.devicePtr = b''.devicePtr := by
    by_cases hb : b.devicePtr = 0
    · rw [h.devicePtr_null hb, h'.devicePtr_null hb]
    · exact Int.ofNat.inj ((h.devicePtr hb).trans (h'.devicePtr hb).symm)
  exact Block.ext (h.segment.trans h'.segment.symm)
    (h.userAllocation.trans h'.userAllocation.symm) hptr (h.handle.trans h'.handle.symm) hdevice
    (h.deviceHandle.trans h'.deviceHandle.symm) (h.deviceId.trans h'.deviceId.symm)

end Block.Moved

section Runs

variable {T : ObjectType} {len : Nat} {p₀ q₀ p q : FancyPtr C} {moves moves' : List PtrMove}

/-- A run within the allocation moves the block by its displacement. -/
theorem moved_of_run (hrun : Lib.Run (FancyPtr.Step T) p₀ moves p)
    (hwithin : Within T len moves) : p₀.block.Moved T (displacement moves) p.block := by
  induction hrun with
  | refl => exact .refl T p₀.block
  | @snoc p p' moves m hrun hlast ih =>
    have hinit : Within T len moves := hwithin.of_append
    have hend := hwithin.displacement_nonneg
    rw [displacement_append, displacement_singleton] at hend ⊢
    rw [FancyPtr.step_block hlast]
    exact (ih hinit).moveBy hinit.displacement_nonneg hend

theorem exec_class (h : Lib.exec (FancyPtr.step T) moves p₀ = some p) :
    Lib.exec PtrClass.move moves p₀.ptrClass = some p.ptrClass := by
  induction moves generalizing p₀ with
  | nil =>
    cases h
    rfl
  | cons m moves ih =>
    rw [Lib.exec] at h ⊢
    cases hstep : p₀.step T m with
    | none =>
      rw [hstep] at h
      cases h
    | some p₁ =>
      rw [hstep] at h
      rw [FancyPtr.step_class hstep]
      exact ih h

/-- A declared sequence compiles exactly if all its arithmetic is that of
`hw_ptr<T>`. -/
theorem exec_iff {c : PtrClass} (hdecl : Lib.exec PtrClass.move moves p₀.ptrClass = some c) :
    (∃ p, Lib.exec (FancyPtr.step T) moves p₀ = some p) ↔ ArithOnMutable p₀.ptrClass moves := by
  induction moves generalizing p₀ with
  | nil => exact iff_of_true ⟨p₀, rfl⟩ trivial
  | cons m moves ih =>
    rw [Lib.exec] at hdecl
    cases hm : p₀.ptrClass.move m with
    | none =>
      rw [hm] at hdecl
      cases hdecl
    | some c₁ =>
      rw [hm] at hdecl
      rw [Lib.exec, ArithOnMutable]
      have hnone := FancyPtr.step_eq_none_iff (T := T) hm
      cases hstep : p₀.step T m with
      | none =>
        obtain ⟨⟨a, ha⟩, hclass⟩ := hnone.mp hstep
        exact iff_of_false (by simp) fun h => h.1 a ha hclass
      | some p₁ =>
        have hallowed : ∀ a, m = .arith a → p₀.ptrClass ≠ .constPtr := by
          intro a ha hclass
          rw [hnone.mpr ⟨⟨a, ha⟩, hclass⟩] at hstep
          cases hstep
        obtain rfl := Option.some.inj (hm.symm.trans (FancyPtr.step_class hstep))
        rw [hm]
        refine (ih hdecl).trans ⟨fun h => ⟨hallowed, fun c' hc' => ?_⟩, fun h => h.2 _ rfl⟩
        exact Option.some.inj hc' ▸ h

/-- What is promised of the pointers `p` and `q`, which two sequences of operators and
conversions have made of pointers to one block. -/
structure InLockstep (T : ObjectType) (p₀ : FancyPtr C) (moves : List PtrMove)
    (q₀ : FancyPtr C) (moves' : List PtrMove) (p q : FancyPtr C) : Prop where
  moved : p₀.block.Moved T (displacement moves) p.block
  moved' : q₀.block.Moved T (displacement moves') q.block
  diff : p.ptrClass.isTyped = true → q.ptrClass.isTyped = true →
    p.diff T q = some (displacement moves - displacement moves')
  /-- The pointer types on the way do not matter. -/
  same : displacement moves = displacement moves' → p.block = q.block
  /-- Back at the start, the block is the one that was allocated, and so is the
  release. -/
  back : displacement moves = 0 → p.block = p₀.block ∧
    ∀ v, p.convert .voidPtr = some (.voidPtr v) → ∀ (call : ReleaseCall) (st : HeapState C),
      call.run v st = call.run ⟨p₀.block⟩ st

/-- Two pointers whose moves have compiled keep the promise, if their difference is not
the ambiguous one. -/
theorem inLockstep_of_runs (hstart : q₀.block = p₀.block)
    (hp : Lib.Run (FancyPtr.Step T) p₀ moves p) (hwithin : Within T len moves)
    (hq : Lib.Run (FancyPtr.Step T) q₀ moves' q) (hwithin' : Within T len moves')
    (hdiff : ¬(p.ptrClass = .constPtr ∧ q.ptrClass = .ptr)) :
    InLockstep T p₀ moves q₀ moves' p q := by
  have hmoved := moved_of_run hp hwithin
  have hmoved' := moved_of_run hq hwithin'
  have hcommon : p₀.block.Moved T (displacement moves') q.block := by
    rw [← hstart]
    exact hmoved'
  refine ⟨hmoved, hmoved', fun hp hq => ?_, fun heq => ?_, fun hzero => ?_⟩
  · rw [FancyPtr.diff_eq hp hq hdiff, T.ptrDiff_of_eq hmoved.ptr hcommon.ptr]
  · rw [heq] at hmoved
    exact hmoved.unique hcommon
  · rw [hzero] at hmoved
    have hblock : p.block = p₀.block := hmoved.unique (.refl T p₀.block)
    refine ⟨hblock, fun v hv call st => ?_⟩
    have hv' : v.data = p.block := FancyPtr.convert_block hv
    rw [ReleaseCall.run_eq, ReleaseCall.run_eq, hv', hblock]

/-- Two declared sequences on pointers to the same block, within the allocation: they
compile and keep the promise exactly if no arithmetic on the way is on a
`hw_ptr<T const>`, and not a `hw_ptr<T>` is to be subtracted from a
`hw_ptr<T const>`. -/
theorem arithmetic_in_lockstep_iff {c c' : PtrClass} (hstart : q₀.block = p₀.block)
    (hdecl : Lib.exec PtrClass.move moves p₀.ptrClass = some c) (hwithin : Within T len moves)
    (hdecl' : Lib.exec PtrClass.move moves' q₀.ptrClass = some c')
    (hwithin' : Within T len moves') :
    (∃ p q, Lib.exec (FancyPtr.step T) moves p₀ = some p ∧
        Lib.exec (FancyPtr.step T) moves' q₀ = some q ∧ InLockstep T p₀ moves q₀ moves' p q) ↔
      ArithOnMutable p₀.ptrClass moves ∧ ArithOnMutable q₀.ptrClass moves' ∧
        ¬(c = .constPtr ∧ c' = .ptr) := by
  constructor
  · rintro ⟨p, q, hp, hq, hlock⟩
    obtain rfl := Option.some.inj (hdecl.symm.trans (exec_class hp))
    obtain rfl := Option.some.inj (hdecl'.symm.trans (exec_class hq))
    refine ⟨(exec_iff hdecl).mp ⟨p, hp⟩, (exec_iff hdecl').mp ⟨q, hq⟩, fun ⟨hconst, hmutable⟩ => ?_⟩
    have hsome := hlock.diff (by rw [hconst]; rfl) (by rw [hmutable]; rfl)
    rw [FancyPtr.diff_eq_none hconst hmutable] at hsome
    cases hsome
  · rintro ⟨harith, harith', hdiff⟩
    obtain ⟨p, hp⟩ := (exec_iff hdecl).mpr harith
    obtain ⟨q, hq⟩ := (exec_iff hdecl').mpr harith'
    obtain rfl := Option.some.inj (hdecl.symm.trans (exec_class hp))
    obtain rfl := Option.some.inj (hdecl'.symm.trans (exec_class hq))
    exact ⟨p, q, hp, hq, inLockstep_of_runs hstart (Lib.run_of_exec hp) hwithin
      (Lib.run_of_exec hq) hwithin' hdiff⟩

end Runs

/-! ### Two sequences

Both start at a `hw_ptr<void>` and move a pointer to `int`. One adds up to three
elements; the other goes forth and back, and ends as a pointer to `int const` at the
address where it has started. -/

/-- A block of 64 bytes with a mirror on a device. -/
def mirroredBlock : Block rangeContext where
  segment := 1
  userAllocation := 0
  ptr := 4096
  handle := (4096, 64)
  devicePtr := 65536
  deviceHandle := (65536, 64)

/-- An `int` of four bytes. -/
def intType : ObjectType := ⟨4, by decide⟩

/-- An argument of -3. -/
def minusThree : Ptrdiff := ⟨-3, by decide, by decide⟩

/-- Five elements forth and five back as an `int*`, with an `int const*` at the end. -/
def forthAndBack : List PtrMove :=
  [.convert .ptr, .arith (.sub minusThree), .arith .preIncr, .arith (.postIncr .operand),
    .arith .preDecr, .arith (.add minusThree), .arith (.postDecr .operand), .convert .constPtr]

/-- Four elements forth, and the copy that the last of them returns. -/
def threeForth : List PtrMove :=
  [.convert .ptr, .arith .preIncr, .arith (.postIncr .operand), .arith .preIncr,
    .arith (.postIncr .returned)]

/-- The pointer that `allocate` returns. -/
def mirroredPtr : FancyPtr rangeContext := .voidPtr ⟨mirroredBlock⟩

theorem arithmetic_in_lockstep_iff_int :
    ∃ p q : FancyPtr rangeContext,
      InLockstep intType mirroredPtr threeForth mirroredPtr forthAndBack p q ∧
      p.block.ptr = 4108 ∧ p.block.devicePtr = 65548 ∧ q.block = mirroredBlock ∧
      p.diff intType q = some 3 := by
  have hdecl : Lib.exec PtrClass.move threeForth mirroredPtr.ptrClass = some .ptr := rfl
  have hdecl' : Lib.exec PtrClass.move forthAndBack mirroredPtr.ptrClass = some .constPtr := rfl
  have hwithin : Within intType 64 threeForth := by decide
  have hwithin' : Within intType 64 forthAndBack := by decide
  have harith : ArithOnMutable mirroredPtr.ptrClass threeForth := by
    simp [ArithOnMutable, mirroredPtr, FancyPtr.ptrClass, threeForth, PtrClass.move,
      PtrClass.isTyped, PtrClass.isConst]
  have harith' : ArithOnMutable mirroredPtr.ptrClass forthAndBack := by
    simp [ArithOnMutable, mirroredPtr, FancyPtr.ptrClass, forthAndBack, PtrClass.move,
      PtrClass.isTyped, PtrClass.isConst]
  obtain ⟨p, q, hp, hq, hlock⟩ := (arithmetic_in_lockstep_iff rfl hdecl hwithin hdecl'
    hwithin').mpr ⟨harith, harith', by decide⟩
  cases hp
  cases hq
  exact ⟨_, _, hlock, rfl, rfl, rfl, hlock.diff rfl rfl⟩

/-- An `int const*` cannot be incremented, and an `int*` cannot be subtracted from
it. -/
theorem constPtr_not_in_lockstep :
    (Lib.exec PtrClass.move [.arith .preIncr] .constPtr = some .constPtr ∧
      Within intType 64 [.arith .preIncr] ∧
      ∀ q₀ : FancyPtr rangeContext, ¬∃ p q,
        Lib.exec (FancyPtr.step intType) [.arith .preIncr] (.constPtr ⟨⟨mirroredBlock⟩⟩) = some p ∧
        Lib.exec (FancyPtr.step intType) [] q₀ = some q ∧
        InLockstep intType (.constPtr ⟨⟨mirroredBlock⟩⟩) [.arith .preIncr] q₀ [] p q) ∧
      Within intType 64 [] ∧
      ¬InLockstep intType (.constPtr ⟨⟨mirroredBlock⟩⟩) [] (.ptr ⟨⟨mirroredBlock⟩⟩) []
        (.constPtr ⟨⟨mirroredBlock⟩⟩) (.ptr ⟨⟨mirroredBlock⟩⟩) := by
  refine ⟨⟨rfl, by decide, ?_⟩, by decide, fun hlock => ?_⟩
  · rintro q₀ ⟨p, q, hp, -⟩
    cases hp
  · cases hlock.diff rfl rfl

end HwMalloc
