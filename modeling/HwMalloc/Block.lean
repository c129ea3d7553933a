import HwMalloc.FixedSizeHeap

/-!
# HwMalloc.Block

`block_t` and `segment`: the data of the allocator. Both are templates over the
user's `Context`, of which only the two handle types matter here.

Pointers are numbers, and 0 is the null pointer. A `segment_type*` is the
number under which `HwMalloc.World` keeps the segment object; these numbers are
never reused.
-/

namespace HwMalloc

/-- The template parameter `Context`: the handle types of its memory regions. -/
structure Context where
  Handle : Type
  DeviceHandle : Type
  /-- `device_handle_type()`. -/
  defaultDeviceHandle : DeviceHandle
  [decEqHandle : DecidableEq Handle]
  [decEqDeviceHandle : DecidableEq DeviceHandle]

attribute [instance] Context.decEqHandle Context.decEqDeviceHandle

/-- A context whose handles are the address and the length they stand for. -/
def rangeContext : Context where
  Handle := Nat × Nat
  DeviceHandle := Nat × Nat
  defaultDeviceHandle := (0, 0)

/-- `block_t`. -/
@[ext] structure Block (C : Context) where
  segment : Nat
  userAllocation : Nat
  ptr : Nat
  handle : C.Handle
  devicePtr : Nat := 0
  deviceHandle : C.DeviceHandle := C.defaultDeviceHandle
  deviceId : Int := 0
  deriving DecidableEq

instance (C : Context) : LawfulBEq (Block C) := inferInstance

/-- `numa_tools::allocation`; the default value is the failed allocation. -/
structure Allocation where
  ptr : Nat := 0
  size : Nat := 0
  node : Nat := 0
  useNumaFree : Bool := true
  deriving Repr, DecidableEq

/-- A memory region, as the registration customization points return it: the
registration it manages, and `get_handle`. -/
structure Region (H : Type) where
  key : Nat
  getHandle : Nat → Nat → H

/-- The region of a registered range that starts at `base`. -/
def rangeRegion (base : Nat) : Region (Nat × Nat) where
  key := base
  getHandle := fun offset size => (base + offset, size)

/-- `segment`. -/
structure Segment (C : Context) where
  pool : PoolId
  blockSize : Nat
  numBlocks : Nat
  allocation : Allocation
  region : Region C.Handle
  devicePtr : Nat
  deviceRegion : Option (Region C.DeviceHandle)
  freedStack : List (Block C)
  numFreed : Int

namespace Segment

variable {C : Context}

/-- `segment::is_empty`. The counter is compared as a `std::size_t`; a negative
`long` becomes a value that no block count reaches. -/
def isEmpty (g : Segment C) : Bool := g.numFreed = g.numBlocks

/-- The block that the constructors of `segment` make in iteration `i + 1`:
block number `i`, at offset `i * block_size` of every address space. -/
def blockAt (this : Nat) (g : Segment C) (deviceId : Int) (i : Nat) : Block C :=
  match g.deviceRegion with
  | none =>
    { segment := this
      userAllocation := 0
      ptr := g.allocation.ptr + i * g.blockSize
      handle := g.region.getHandle (i * g.blockSize) g.blockSize }
  | some r =>
    { segment := this
      userAllocation := 0
      ptr := g.allocation.ptr + i * g.blockSize
      handle := g.region.getHandle (i * g.blockSize) g.blockSize
      devicePtr := g.devicePtr + i * g.blockSize
      deviceHandle := r.getHandle (i * g.blockSize) g.blockSize
      deviceId := deviceId }

/-- All blocks of a segment. -/
def blocks (this : Nat) (g : Segment C) (deviceId : Int) : List (Block C) :=
  (List.range g.numBlocks).map (g.blockAt this deviceId)

/-- `m_freed_stack.push(b)` in `segment::free`. -/
def pushFreed (b : Block C) (g : Segment C) : Segment C :=
  { g with freedStack := b :: g.freedStack }

/-- `++m_num_freed` in `segment::free`, and `m_num_freed.fetch_sub` in
`segment::collect`. -/
def addFreed (n : Int) (g : Segment C) : Segment C :=
  { g with numFreed := g.numFreed + n }

/-! ### Small facts -/

@[simp] theorem blockAt_segment (this : Nat) (g : Segment C) (d : Int) (i : Nat) :
    (g.blockAt this d i).segment = this := by
  unfold blockAt
  split <;> rfl

@[simp] theorem blockAt_ptr (this : Nat) (g : Segment C) (d : Int) (i : Nat) :
    (g.blockAt this d i).ptr = g.allocation.ptr + i * g.blockSize := by
  unfold blockAt
  split <;> rfl

@[simp] theorem blockAt_handle (this : Nat) (g : Segment C) (d : Int) (i : Nat) :
    (g.blockAt this d i).handle = g.region.getHandle (i * g.blockSize) g.blockSize := by
  unfold blockAt
  split <;> rfl

@[simp] theorem blocks_length (this : Nat) (g : Segment C) (d : Int) :
    (g.blocks this d).length = g.numBlocks := by
  simp [blocks]

theorem mem_blocks {this : Nat} {g : Segment C} {d : Int} {b : Block C} :
    b ∈ g.blocks this d ↔ ∃ i < g.numBlocks, g.blockAt this d i = b := by
  simp [blocks]

/-- Blocks of positive size differ in their addresses. -/
theorem blockAt_injective {this : Nat} {g : Segment C} {d : Int} (hpos : 0 < g.blockSize)
    {i j : Nat} (h : g.blockAt this d i = g.blockAt this d j) : i = j := by
  have hptr := congrArg Block.ptr h
  rw [blockAt_ptr, blockAt_ptr] at hptr
  exact Nat.eq_of_mul_eq_mul_right hpos (by omega)

theorem blocks_nodup {this : Nat} {g : Segment C} {d : Int} (hpos : 0 < g.blockSize) :
    (g.blocks this d).Nodup :=
  List.nodup_range.map fun _ _ => blockAt_injective hpos

@[simp] theorem pushFreed_freedStack (b : Block C) (g : Segment C) :
    (g.pushFreed b).freedStack = b :: g.freedStack := rfl

@[simp] theorem pushFreed_numFreed (b : Block C) (g : Segment C) :
    (g.pushFreed b).numFreed = g.numFreed := rfl

@[simp] theorem pushFreed_numBlocks (b : Block C) (g : Segment C) :
    (g.pushFreed b).numBlocks = g.numBlocks := rfl

@[simp] theorem pushFreed_blocks (b : Block C) (g : Segment C) (this : Nat) (d : Int) :
    (g.pushFreed b).blocks this d = g.blocks this d := rfl

@[simp] theorem addFreed_freedStack (n : Int) (g : Segment C) :
    (g.addFreed n).freedStack = g.freedStack := rfl

@[simp] theorem addFreed_numFreed (n : Int) (g : Segment C) :
    (g.addFreed n).numFreed = g.numFreed + n := rfl

@[simp] theorem addFreed_numBlocks (n : Int) (g : Segment C) :
    (g.addFreed n).numBlocks = g.numBlocks := rfl

@[simp] theorem addFreed_blocks (n : Int) (g : Segment C) (this : Nat) (d : Int) :
    (g.addFreed n).blocks this d = g.blocks this d := rfl

theorem isEmpty_iff {g : Segment C} : g.isEmpty = true ↔ g.numFreed = g.numBlocks := by
  simp [isEmpty]

end Segment

end HwMalloc
