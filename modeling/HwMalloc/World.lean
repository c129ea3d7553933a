import HwMalloc.Block

/-!
# HwMalloc.World

Everything outside the pools that their operations change: the resources
obtained from the operating system, the device runtime and the user's context,
the current device, and the segment objects.

* **Resources.** A resource is *outstanding* from the call that obtained it to the call
  that gives it back. Each resource carries the kind of deallocator it needs, so a
  release by the wrong deallocator, like a second release, finds nothing to release;
  `misreleases` counts these.
* **Segments.** A segment object has a number, in the order of construction, which
  stands for its address. Numbers are not reused, so that a pointer to a segment that
  was destroyed is never mistaken for one to another segment. The number 0 is the null
  pointer.
* **Calls of the system.** `numa_tools` takes memory from `numa_alloc_onnode`, and from
  `std::calloc` where the node is not one it may allocate on or the former has failed.
  What the two return is in an environment (`NumaEnv`).

The lemmas say of each operation which of these it leaves alone, and are for `simp`.
-/

namespace HwMalloc

/-- A resource, with the deallocator it needs. -/
inductive Resource
  /-- Memory for `numa_free`. -/
  | numa (a : Allocation)
  /-- Memory for `std::free`. -/
  | malloc (a : Allocation)
  /-- Memory for `device_free`, of the given size. -/
  | device (ptr size : Nat)
  /-- A registration, for the destructor of its region. -/
  | registration (key : Nat)
  /-- A device registration, for the destructor of its region. -/
  | deviceRegistration (key : Nat)
  deriving Repr, DecidableEq

/-- The machine as the pools see it. -/
structure World (C : Context) where
  outstanding : List Resource
  misreleases : Nat
  deviceId : Int
  segmentAt : Nat → Segment C
  nextSegment : Nat

namespace World

variable {C : Context}

/-- A resource is obtained. -/
def acquire (w : World C) (r : Resource) : World C :=
  { w with outstanding := r :: w.outstanding }

/-- A resource is given back. -/
def release (w : World C) (r : Resource) : World C :=
  if r ∈ w.outstanding then { w with outstanding := w.outstanding.erase r }
  else { w with misreleases := w.misreleases + 1 }

/-- `device_malloc` has returned `ptr`; the null pointer stands for no memory. -/
def acquireDevice (w : World C) (ptr size : Nat) : World C :=
  if ptr = 0 then w else w.acquire (.device ptr size)

/-- `set_device_id`. -/
def setDeviceId (w : World C) (id : Int) : World C := { w with deviceId := id }

/-- A write to the segment object `s`. -/
def modifySegment (w : World C) (s : Nat) (f : Segment C → Segment C) : World C :=
  { w with segmentAt := Function.update w.segmentAt s (f (w.segmentAt s)) }

/-- The segment object `s` comes into being. -/
def addSegmentObject (w : World C) (g : Segment C) : World C :=
  { w with
    segmentAt := Function.update w.segmentAt w.nextSegment g
    nextSegment := w.nextSegment + 1 }

/-! ### Small facts

One for each operation and each part of the world. -/

section

variable (w : World C) (r : Resource) (id : Int) (s : Nat) (f : Segment C → Segment C)
  (g : Segment C)

@[simp] theorem acquire_outstanding : (w.acquire r).outstanding = r :: w.outstanding := rfl
@[simp] theorem acquire_misreleases : (w.acquire r).misreleases = w.misreleases := rfl
@[simp] theorem acquire_deviceId : (w.acquire r).deviceId = w.deviceId := rfl
@[simp] theorem acquire_segmentAt : (w.acquire r).segmentAt = w.segmentAt := rfl
@[simp] theorem acquire_nextSegment : (w.acquire r).nextSegment = w.nextSegment := rfl

@[simp] theorem release_deviceId : (w.release r).deviceId = w.deviceId := by
  unfold release
  split <;> rfl

@[simp] theorem release_segmentAt : (w.release r).segmentAt = w.segmentAt := by
  unfold release
  split <;> rfl

@[simp] theorem release_nextSegment : (w.release r).nextSegment = w.nextSegment := by
  unfold release
  split <;> rfl

@[simp] theorem acquireDevice_misreleases (ptr size : Nat) :
    (w.acquireDevice ptr size).misreleases = w.misreleases := by
  unfold acquireDevice
  split <;> rfl

@[simp] theorem acquireDevice_deviceId (ptr size : Nat) :
    (w.acquireDevice ptr size).deviceId = w.deviceId := by
  unfold acquireDevice
  split <;> rfl

@[simp] theorem acquireDevice_segmentAt (ptr size : Nat) :
    (w.acquireDevice ptr size).segmentAt = w.segmentAt := by
  unfold acquireDevice
  split <;> rfl

@[simp] theorem acquireDevice_nextSegment (ptr size : Nat) :
    (w.acquireDevice ptr size).nextSegment = w.nextSegment := by
  unfold acquireDevice
  split <;> rfl

theorem acquireDevice_outstanding (ptr size : Nat) :
    (w.acquireDevice ptr size).outstanding =
      (if ptr = 0 then [] else [.device ptr size]) ++ w.outstanding := by
  unfold acquireDevice
  split <;> rfl

@[simp] theorem setDeviceId_outstanding : (w.setDeviceId id).outstanding = w.outstanding := rfl
@[simp] theorem setDeviceId_misreleases : (w.setDeviceId id).misreleases = w.misreleases := rfl
@[simp] theorem setDeviceId_deviceId : (w.setDeviceId id).deviceId = id := rfl
@[simp] theorem setDeviceId_segmentAt : (w.setDeviceId id).segmentAt = w.segmentAt := rfl
@[simp] theorem setDeviceId_nextSegment : (w.setDeviceId id).nextSegment = w.nextSegment := rfl

@[simp] theorem modifySegment_outstanding :
    (w.modifySegment s f).outstanding = w.outstanding := rfl
@[simp] theorem modifySegment_misreleases :
    (w.modifySegment s f).misreleases = w.misreleases := rfl
@[simp] theorem modifySegment_deviceId : (w.modifySegment s f).deviceId = w.deviceId := rfl
@[simp] theorem modifySegment_nextSegment :
    (w.modifySegment s f).nextSegment = w.nextSegment := rfl
theorem modifySegment_segmentAt (s' : Nat) :
    (w.modifySegment s f).segmentAt s' = if s' = s then f (w.segmentAt s) else w.segmentAt s' := by
  simp [modifySegment, Function.update_apply]

@[simp] theorem addSegmentObject_outstanding :
    (w.addSegmentObject g).outstanding = w.outstanding := rfl
@[simp] theorem addSegmentObject_misreleases :
    (w.addSegmentObject g).misreleases = w.misreleases := rfl
@[simp] theorem addSegmentObject_deviceId : (w.addSegmentObject g).deviceId = w.deviceId := rfl
@[simp] theorem addSegmentObject_nextSegment :
    (w.addSegmentObject g).nextSegment = w.nextSegment + 1 := rfl

end

/-- Giving back what was obtained last undoes it. -/
@[simp] theorem acquire_release (w : World C) (r : Resource) : (w.acquire r).release r = w := by
  simp [acquire, release]

end World

/-! ### `numa_tools::allocate` and `numa_tools::free`

The allocation carries how it was obtained (`useNumaFree`), so that `free` finds the
deallocator that it needs. -/

/-- What the library reads from the machine and from its build options:
`sysconf(_SC_PAGESIZE)`, the topology, and `HWMALLOC_NUMA_FOR_LOCAL`. -/
structure System where
  pageSize : Nat
  topo : Topology
  numaForLocal : Bool := true

/-- What libnuma, `std::calloc` and the scheduler answer to one allocation. -/
structure NumaEnv where
  /-- The result of `numa_alloc_onnode`. -/
  numaAlloc : Nat
  /-- The result of `std::calloc`. -/
  calloc : Nat
  /-- `get_node` of that result. -/
  callocNode : Nat
  /-- `local_node()`. -/
  localNode : Nat

variable {C : Context}

/-- `numa_tools::can_allocate_on`. -/
def canAllocateOn (sys : System) (node : Nat) : Bool := 0 < sys.topo.localNodes.count node

/-- `numa_tools::allocate_malloc`. -/
def allocateMalloc (sys : System) (env : NumaEnv) (numPages : Nat) (w : World C) :
    Allocation × World C :=
  if env.calloc = 0 then ({}, w)
  else
    let a : Allocation :=
      { ptr := env.calloc
        size := mulSize numPages sys.pageSize
        node := env.callocNode
        useNumaFree := false }
    (a, w.acquire (.malloc a))

/-- `numa_tools::allocate`. -/
def numaAllocate (sys : System) (env : NumaEnv) (numPages node : Nat) (w : World C) :
    Allocation × World C :=
  if numPages = 0 then ({}, w)
  else if !sys.numaForLocal && node == env.localNode then allocateMalloc sys env numPages w
  else if !canAllocateOn sys node then allocateMalloc sys env numPages w
  else if env.numaAlloc = 0 then allocateMalloc sys env numPages w
  else
    let a : Allocation :=
      { ptr := env.numaAlloc
        size := mulSize numPages sys.pageSize
        node := node }
    (a, w.acquire (.numa a))

/-- The resource behind an allocation. -/
def Allocation.resource (a : Allocation) : Resource :=
  if a.useNumaFree then .numa a else .malloc a

/-- `numa_tools::free`. -/
def numaFree (a : Allocation) (w : World C) : World C :=
  if a.ptr = 0 then w else w.release a.resource

/-- An allocation that did not fail is outstanding afterwards, and nothing else
changed. -/
theorem numaAllocate_spec (sys : System) (env : NumaEnv) (numPages node : Nat) (w : World C) :
    (numaAllocate sys env numPages node w = ({}, w)) ∨
      ∃ a : Allocation, a.ptr ≠ 0 ∧ a.size = mulSize numPages sys.pageSize ∧
        numaAllocate sys env numPages node w = (a, w.acquire a.resource) := by
  have hmalloc : (allocateMalloc sys env numPages w = ({}, w)) ∨
      ∃ a : Allocation, a.ptr ≠ 0 ∧ a.size = mulSize numPages sys.pageSize ∧
        allocateMalloc sys env numPages w = (a, w.acquire a.resource) := by
    unfold allocateMalloc
    split
    · exact Or.inl rfl
    · next h => exact Or.inr ⟨_, h, rfl, rfl⟩
  unfold numaAllocate
  split
  · exact Or.inl rfl
  · split
    · exact hmalloc
    · split
      · exact hmalloc
      · split
        · exact hmalloc
        · next h => exact Or.inr ⟨_, h, rfl, rfl⟩

/-- Which memory the calls return does not depend on what is outstanding. -/
theorem numaAllocate_fst (sys : System) (env : NumaEnv) (numPages node : Nat) (w w' : World C) :
    (numaAllocate sys env numPages node w).1 = (numaAllocate sys env numPages node w').1 := by
  have hmalloc :
      (allocateMalloc sys env numPages w).1 = (allocateMalloc sys env numPages w').1 := by
    unfold allocateMalloc
    split <;> rfl
  unfold numaAllocate
  split
  · rfl
  · split
    · exact hmalloc
    · split
      · exact hmalloc
      · split
        · exact hmalloc
        · rfl

theorem numaFree_acquire (w : World C) {a : Allocation} (h : a.ptr ≠ 0) :
    numaFree a (w.acquire a.resource) = w := by
  rw [numaFree, if_neg h, World.acquire_release]

/-! ### The destructor of a segment

The members give back what they own, the last one first. The order does not matter for
what is outstanding afterwards. -/

/-- The resources of a segment, in the order in which its members give them
back: the destructor runs in reverse declaration order. -/
def Segment.resources (g : Segment C) : List Resource :=
  (match g.deviceRegion with
    | some r => [.deviceRegistration r.key]
    | none => []) ++
  (if g.devicePtr = 0 then [] else [.device g.devicePtr g.allocation.size]) ++
  [.registration g.region.key] ++
  (if g.allocation.ptr = 0 then [] else [g.allocation.resource])

/-- The members of a segment are destroyed. -/
def Segment.destroyMembers (g : Segment C) (w : World C) : World C :=
  g.resources.foldl World.release w

/-- `segment::~segment` for the object `s`: the stack of returned blocks goes
away with the object. -/
def destroySegment (s : Nat) (w : World C) : World C :=
  (w.segmentAt s).destroyMembers (w.modifySegment s fun g => { g with freedStack := [] })

theorem foldl_release_deviceId (rs : List Resource) :
    ∀ w : World C, (rs.foldl World.release w).deviceId = w.deviceId := by
  induction rs with
  | nil => intro w; rfl
  | cons r rs ih => intro w; rw [List.foldl_cons, ih, World.release_deviceId]

theorem foldl_release_segmentAt (rs : List Resource) :
    ∀ w : World C, (rs.foldl World.release w).segmentAt = w.segmentAt := by
  induction rs with
  | nil => intro w; rfl
  | cons r rs ih => intro w; rw [List.foldl_cons, ih, World.release_segmentAt]

theorem foldl_release_nextSegment (rs : List Resource) :
    ∀ w : World C, (rs.foldl World.release w).nextSegment = w.nextSegment := by
  induction rs with
  | nil => intro w; rfl
  | cons r rs ih => intro w; rw [List.foldl_cons, ih, World.release_nextSegment]

/-- Other resources stay outstanding. -/
theorem mem_foldl_release {r : Resource} (rs : List Resource) :
    ∀ {w : World C}, r ∈ w.outstanding → r ∉ rs → r ∈ (rs.foldl World.release w).outstanding := by
  induction rs with
  | nil => intro w h _; exact h
  | cons r' rs ih =>
    intro w h hnot
    rw [List.mem_cons, not_or] at hnot
    refine ih ?_ hnot.2
    unfold World.release
    split
    · exact (List.mem_erase_of_ne hnot.1).mpr h
    · exact h

/-- Giving back resources, all of which are outstanding, in any order, leaves
exactly the others, and none of the releases is a mistake. -/
theorem foldl_release_perm (rs : List Resource) :
    ∀ {w : World C} {out : List Resource}, w.outstanding.Perm (rs ++ out) →
      (rs.foldl World.release w).outstanding.Perm out ∧
        (rs.foldl World.release w).misreleases = w.misreleases := by
  induction rs with
  | nil => intro w out h; exact ⟨h, rfl⟩
  | cons r rs ih =>
    intro w out h
    have hmem : r ∈ w.outstanding := h.mem_iff.mpr (by simp)
    have hperm : (w.release r).outstanding.Perm (rs ++ out) := by
      rw [World.release, if_pos hmem]
      simpa using h.erase r
    have hmis : (w.release r).misreleases = w.misreleases := by
      rw [World.release, if_pos hmem]
    rw [List.foldl_cons, ← hmis]
    exact ih hperm

theorem destroyMembers_perm {g : Segment C} {w : World C} {out : List Resource}
    (h : w.outstanding.Perm (g.resources ++ out)) :
    (g.destroyMembers w).outstanding.Perm out ∧
      (g.destroyMembers w).misreleases = w.misreleases :=
  foldl_release_perm _ h

@[simp] theorem destroyMembers_deviceId (g : Segment C) (w : World C) :
    (g.destroyMembers w).deviceId = w.deviceId :=
  foldl_release_deviceId _ w

@[simp] theorem destroyMembers_segmentAt (g : Segment C) (w : World C) :
    (g.destroyMembers w).segmentAt = w.segmentAt :=
  foldl_release_segmentAt _ w

@[simp] theorem destroyMembers_nextSegment (g : Segment C) (w : World C) :
    (g.destroyMembers w).nextSegment = w.nextSegment :=
  foldl_release_nextSegment _ w

@[simp] theorem destroySegment_deviceId (s : Nat) (w : World C) :
    (destroySegment s w).deviceId = w.deviceId := by
  simp [destroySegment]

@[simp] theorem destroySegment_nextSegment (s : Nat) (w : World C) :
    (destroySegment s w).nextSegment = w.nextSegment := by
  simp [destroySegment]

theorem destroySegment_segmentAt (s s' : Nat) (w : World C) :
    (destroySegment s w).segmentAt s' =
      if s' = s then { w.segmentAt s with freedStack := [] } else w.segmentAt s' := by
  simp [destroySegment, World.modifySegment_segmentAt]

end HwMalloc
