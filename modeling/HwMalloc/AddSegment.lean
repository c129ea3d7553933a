import HwMalloc.World

/-!
# HwMalloc.AddSegment

`pool` as data, and `pool::add_segment` with every point at which it can fail.

* **Raw values.** Until the members of the new segment take them over, the memory and
  the registrations are raw values, so an exception in between leaves them behind.
* **Members.** Once the members exist, their destructors give everything back. The
  blocks that the segment constructor has pushed by then stay on the pool's stack.
* **The device.** With a device the current device is changed for the allocation of
  the mirror and for the rest of the call. The device id is restored on the straight
  path only. Which of the two registrations comes first is up to the compiler.

The answers of the callees are in an environment (`GrowEnv`), so that `addSegment` is a
function: of the environment, the world and the pool. `addSegment_ok` is the one lemma
about success that the rest of the development uses; the failures are the subject of
`HwMalloc.AddSegmentFailure`.
-/

namespace HwMalloc

/-- `pool`: its parameters, its identity, `m_free_stack` (top first), and the
keys of `m_segments`. -/
structure Pool (C : Context) extends PoolParams where
  self : PoolId
  freeStack : List (Block C)
  segments : List Nat

/-- `pool::num_pages`. -/
def numPages (sys : System) (segmentSize : Nat) : Nat :=
  subSize (addSize segmentSize sys.pageSize) 1 / sys.pageSize

/-- Where `add_segment` fails. -/
inductive FailurePoint
  /-- `check_allocation`, with the text of its exception. -/
  | checkAllocation (what : String)
  | deviceMalloc
  | registerMemory
  | registerDeviceMemory
  /-- The constructor of the fixed-size stack of the segment. -/
  | freedStack
  /-- `m_region.get_handle` for block `i`. -/
  | getHandle (i : Nat)
  /-- `m_device_region->get_handle` for block `i`. -/
  | deviceGetHandle (i : Nat)
  deriving Repr, DecidableEq

/-- What the callees of `add_segment` answer. `none`, and `true` for the fields
named `…Throws`, stand for an exception. -/
structure GrowEnv (C : Context) where
  numa : NumaEnv
  deviceMalloc : Option Nat
  registerMemory : Option (Region C.Handle)
  registerDeviceMemory : Option (Region C.DeviceHandle)
  /-- The compiler may evaluate the two registrations in either order. -/
  deviceFirst : Bool
  freedStackThrows : Bool
  getHandleThrows : Nat → Bool
  deviceGetHandleThrows : Nat → Bool

variable {C : Context}

/-- `pool::check_allocation`. -/
def checkAllocation (a : Allocation) (expectedNumaNode : Nat) (w : World C) :
    Except FailurePoint Allocation × World C :=
  if a.ptr = 0 then
    (.error (.checkAllocation "could not allocate system memory"), w)
  else if a.node ≠ expectedNumaNode then
    (.error (.checkAllocation ("could not allocate on requested numa node " ++
      toString expectedNumaNode)), numaFree a w)
  else (.ok a, w)

/-- The loop of the segment constructors: iteration `i + 1` asks for the handles
of block `i` and pushes the block. Returns where it failed, if it did, and the
stack. -/
def pushBlocks (failAt : Nat → Option FailurePoint) (blockAt : Nat → Block C) :
    Nat → List (Block C) → Option FailurePoint × List (Block C)
  | 0, stack => (none, stack)
  | i + 1, stack =>
    match failAt i with
    | some e => (some e, stack)
    | none => pushBlocks failAt blockAt i (blockAt i :: stack)

/-- Which call fails for block `i`: the host handle is asked for first. -/
def handleFailure (env : GrowEnv C) (onDevice : Bool) (i : Nat) : Option FailurePoint :=
  if env.getHandleThrows i then some (.getHandle i)
  else if onDevice && env.deviceGetHandleThrows i then some (.deviceGetHandle i)
  else none

/-- `segment::segment` and, when it succeeds, the insertion into `m_segments`.
When the constructor throws, the members that exist by then are destroyed. -/
def constructSegment (env : GrowEnv C) (g : Segment C) (w : World C) (p : Pool C) :
    Except FailurePoint Unit × World C × Pool C :=
  if env.freedStackThrows then (.error .freedStack, g.destroyMembers w, p)
  else
    match pushBlocks (handleFailure env g.deviceRegion.isSome)
        (g.blockAt w.nextSegment p.deviceId) g.numBlocks p.freeStack with
    | (some e, stack) =>
      (.error e, g.destroyMembers (w.addSegmentObject g), { p with freeStack := stack })
    | (none, stack) =>
      (.ok (), w.addSegmentObject g,
        { p with freeStack := stack, segments := w.nextSegment :: p.segments })

/-- The members that the constructors of `segment` initialize. -/
def newSegment (p : Pool C) (a : Allocation) (r : Region C.Handle) (devicePtr : Nat)
    (d : Option (Region C.DeviceHandle)) : Segment C where
  pool := p.self
  blockSize := p.blockSize
  numBlocks := a.size / p.blockSize
  allocation := a
  region := r
  devicePtr := devicePtr
  deviceRegion := d
  freedStack := []
  numFreed := 0

/-- The host branch of `add_segment`. -/
def addHostSegment (env : GrowEnv C) (a : Allocation) (w : World C) (p : Pool C) :
    Except FailurePoint Unit × World C × Pool C :=
  match env.registerMemory with
  | none => (.error .registerMemory, w, p)
  | some r =>
    constructSegment env (newSegment p a r 0 none) (w.acquire (.registration r.key)) p

/-- The two registrations of the device branch, in the order the compiler
chose. When the second one throws, the region of the first one is destroyed. -/
def registerBoth (env : GrowEnv C) (w : World C) :
    Except FailurePoint (Region C.Handle × Region C.DeviceHandle) × World C :=
  if env.deviceFirst then
    match env.registerDeviceMemory with
    | none => (.error .registerDeviceMemory, w)
    | some d =>
      let w := w.acquire (.deviceRegistration d.key)
      match env.registerMemory with
      | none => (.error .registerMemory, w.release (.deviceRegistration d.key))
      | some r => (.ok (r, d), w.acquire (.registration r.key))
  else
    match env.registerMemory with
    | none => (.error .registerMemory, w)
    | some r =>
      let w := w.acquire (.registration r.key)
      match env.registerDeviceMemory with
      | none => (.error .registerDeviceMemory, w.release (.registration r.key))
      | some d => (.ok (r, d), w.acquire (.deviceRegistration d.key))

/-- The device branch of `add_segment`. -/
def addDeviceSegment (env : GrowEnv C) (a : Allocation) (w : World C) (p : Pool C) :
    Except FailurePoint Unit × World C × Pool C :=
  let tmp := w.deviceId
  let w := w.setDeviceId p.deviceId
  match env.deviceMalloc with
  | none => (.error .deviceMalloc, w, p)
  | some devicePtr =>
    match registerBoth env (w.acquireDevice devicePtr a.size) with
    | (.error e, w) => (.error e, w, p)
    | (.ok (r, d), w) =>
      match constructSegment env (newSegment p a r devicePtr (some d)) w p with
      | (.error e, w, p) => (.error e, w, p)
      | (.ok (), w, p) => (.ok (), w.setDeviceId tmp, p)

/-- `pool::add_segment`. -/
def addSegment (sys : System) (env : GrowEnv C) (w : World C) (p : Pool C) :
    Except FailurePoint Unit × World C × Pool C :=
  let (a, w) := numaAllocate sys env.numa (numPages sys p.segmentSize) p.numaNode w
  match checkAllocation a p.numaNode w with
  | (.error e, w) => (.error e, w, p)
  | (.ok a, w) =>
    if p.allocateOnDevice then addDeviceSegment env a w p else addHostSegment env a w p

/-! ### What success means

One segment more in the pool and in the world, its blocks on the free stack, and its
resources outstanding (`Grown`); and what is known of the segment itself
(`NewSegment`), of which `MadeBy` is the part that never changes. -/

/-- The bytes of one segment: whole pages. -/
def segmentBytes (sys : System) (segmentSize : Nat) : Nat :=
  mulSize (numPages sys segmentSize) sys.pageSize

/-- The number of blocks of a segment of the pool. -/
def segmentBlocks (sys : System) (p : PoolParams) : Nat :=
  segmentBytes sys p.segmentSize / p.blockSize

/-- `g` is a segment as the pool `owner` makes them. -/
structure Segment.MadeBy (sys : System) (owner : PoolId) (params : PoolParams) (g : Segment C) :
    Prop where
  pool : g.pool = owner
  blockSize : g.blockSize = params.blockSize
  numBlocks : g.numBlocks = segmentBlocks sys params
  ptr_ne_zero : g.allocation.ptr ≠ 0
  size : g.allocation.size = segmentBytes sys params.segmentSize
  node : g.allocation.node = params.numaNode
  onDevice : g.deviceRegion.isSome = params.allocateOnDevice

theorem blockSize_pos_of_segmentBlocks {sys : System} {p : PoolParams}
    (h : 1 ≤ segmentBlocks sys p) : 0 < p.blockSize := by
  refine Nat.pos_of_ne_zero fun hz => ?_
  simp [segmentBlocks, hz] at h

/-- No two blocks of a segment are equal. -/
theorem Segment.MadeBy.blocks_nodup {sys : System} {owner : PoolId} {params : PoolParams}
    {g : Segment C} (h : g.MadeBy sys owner params) (s : Nat) (d : Int) :
    (g.blocks s d).Nodup := by
  by_cases hzero : g.numBlocks = 0
  · simp [Segment.blocks, hzero]
  · refine Segment.blocks_nodup ?_
    rw [h.blockSize]
    have hN : 1 ≤ segmentBlocks sys params := by
      rw [← h.numBlocks]
      omega
    exact blockSize_pos_of_segmentBlocks hN

/-- The segment object that `add_segment` makes from the answers `env`. -/
structure NewSegment (sys : System) (env : GrowEnv C) (owner : PoolId) (params : PoolParams)
    (g : Segment C) : Prop extends g.MadeBy sys owner params where
  allocation : ∀ w : World C,
    (numaAllocate sys env.numa (numPages sys params.segmentSize) params.numaNode w).1 =
      g.allocation
  region : env.registerMemory = some g.region
  device : params.allocateOnDevice = true →
    env.deviceMalloc = some g.devicePtr ∧ env.registerDeviceMemory = g.deviceRegion
  freedStack : g.freedStack = []
  numFreed : g.numFreed = 0

/-- The effect of a successful `add_segment` that made the segment `g`. -/
structure Grown (w : World C) (p : Pool C) (g : Segment C) (w' : World C) (p' : Pool C) :
    Prop where
  pool : p' = { p with
    freeStack := g.blocks w.nextSegment p.deviceId ++ p.freeStack
    segments := w.nextSegment :: p.segments }
  segmentAt : w'.segmentAt = Function.update w.segmentAt w.nextSegment g
  nextSegment : w'.nextSegment = w.nextSegment + 1
  outstanding : w'.outstanding.Perm (g.resources ++ w.outstanding)
  misreleases : w'.misreleases = w.misreleases
  deviceId : w'.deviceId = w.deviceId

namespace Grown

variable {w w' : World C} {p p' : Pool C} {g : Segment C} (h : Grown w p g w' p')
include h

theorem segmentAt_new : w'.segmentAt w.nextSegment = g := by
  rw [h.segmentAt, Function.update_self]

theorem segmentAt_old {s : Nat} (hne : s ≠ w.nextSegment) : w'.segmentAt s = w.segmentAt s := by
  rw [h.segmentAt, Function.update_of_ne hne]

theorem mem_segments {s : Nat} : s ∈ p'.segments ↔ s = w.nextSegment ∨ s ∈ p.segments := by
  rw [h.pool, List.mem_cons]

end Grown

theorem pushBlocks_none {failAt : Nat → Option FailurePoint} {blockAt : Nat → Block C} :
    ∀ {n : Nat} {stack stack' : List (Block C)},
      pushBlocks failAt blockAt n stack = (none, stack') →
        stack' = (List.range n).map blockAt ++ stack := by
  intro n
  induction n with
  | zero =>
    intro stack stack' h
    simpa [pushBlocks] using h.symm
  | succ n ih =>
    intro stack stack' h
    rw [pushBlocks] at h
    cases hf : failAt n with
    | some e => simp [hf] at h
    | none =>
      rw [hf] at h
      rw [ih h, List.range_succ, List.map_append]
      simp

theorem constructSegment_ok {env : GrowEnv C} {g : Segment C} {w w' : World C} {p p' : Pool C}
    (h : constructSegment env g w p = (.ok (), w', p')) :
    w' = w.addSegmentObject g ∧
      p' = { p with
        freeStack := g.blocks w.nextSegment p.deviceId ++ p.freeStack
        segments := w.nextSegment :: p.segments } := by
  unfold constructSegment at h
  split at h
  · simp at h
  · split at h
    · simp at h
    · next stack hpush =>
      simp only [Prod.mk.injEq, true_and] at h
      obtain ⟨rfl, rfl⟩ := h
      rw [pushBlocks_none hpush]
      exact ⟨rfl, rfl⟩

/-- What `check_allocation` lets through. -/
theorem checkAllocation_ok {a a' : Allocation} {n : Nat} {w w' : World C}
    (h : checkAllocation a n w = (.ok a', w')) :
    a' = a ∧ w' = w ∧ a.ptr ≠ 0 ∧ a.node = n := by
  unfold checkAllocation at h
  split at h
  · simp at h
  · next hptr =>
    split at h
    · simp at h
    · next hnode =>
      simp only [Prod.mk.injEq, Except.ok.injEq] at h
      exact ⟨h.1.symm, h.2.symm, hptr, not_not.mp hnode⟩

/-- Both registrations are outstanding after `registerBoth`, in some order. -/
theorem registerBoth_ok {env : GrowEnv C} {w w' : World C} {r : Region C.Handle}
    {d : Region C.DeviceHandle} (h : registerBoth env w = (.ok (r, d), w')) :
    env.registerMemory = some r ∧ env.registerDeviceMemory = some d ∧
      (w' = (w.acquire (.deviceRegistration d.key)).acquire (.registration r.key) ∨
        w' = (w.acquire (.registration r.key)).acquire (.deviceRegistration d.key)) := by
  unfold registerBoth at h
  cases hfirst : env.deviceFirst <;> cases hd : env.registerDeviceMemory <;>
    cases hr : env.registerMemory <;>
      simp only [hfirst, hd, hr, if_true, if_false, Bool.false_eq_true, Prod.mk.injEq,
        Except.ok.injEq, reduceCtorEq, false_and] at h
  all_goals
    obtain ⟨⟨rfl, rfl⟩, rfl⟩ := h
    simp

/-- The registrations of a device segment, whatever their order. -/
theorem registerBoth_outstanding {env : GrowEnv C} {w w' : World C} {r : Region C.Handle}
    {d : Region C.DeviceHandle} (h : registerBoth env w = (.ok (r, d), w')) :
    w'.outstanding.Perm
        (.deviceRegistration d.key :: .registration r.key :: w.outstanding) ∧
      w'.misreleases = w.misreleases ∧ w'.segmentAt = w.segmentAt ∧
      w'.nextSegment = w.nextSegment ∧ w'.deviceId = w.deviceId := by
  obtain ⟨-, -, rfl | rfl⟩ := registerBoth_ok h
  · exact ⟨List.Perm.swap _ _ _, rfl, rfl, rfl, rfl⟩
  · exact ⟨List.Perm.refl _, rfl, rfl, rfl, rfl⟩

theorem newSegment_spec {sys : System} {env : GrowEnv C} {p : Pool C} {a : Allocation}
    {r : Region C.Handle} {devicePtr : Nat} {d : Option (Region C.DeviceHandle)}
    (halloc : ∀ w : World C,
      (numaAllocate sys env.numa (numPages sys p.segmentSize) p.numaNode w).1 = a)
    (hptr : a.ptr ≠ 0) (hnode : a.node = p.numaNode)
    (hsize : a.size = segmentBytes sys p.segmentSize) (hr : env.registerMemory = some r)
    (hd : d.isSome = p.allocateOnDevice)
    (hdevice : p.allocateOnDevice = true →
      env.deviceMalloc = some devicePtr ∧ env.registerDeviceMemory = d) :
    NewSegment sys env p.self p.toPoolParams (newSegment p a r devicePtr d) where
  pool := rfl
  blockSize := rfl
  numBlocks := by simp only [newSegment, hsize, segmentBlocks]
  ptr_ne_zero := hptr
  size := hsize
  node := hnode
  onDevice := hd
  allocation := halloc
  region := hr
  device := hdevice
  freedStack := rfl
  numFreed := rfl

theorem addHostSegment_ok {sys : System} {env : GrowEnv C} {a : Allocation} {w w' : World C}
    {p p' : Pool C} (hdev : p.allocateOnDevice = false)
    (halloc : ∀ w : World C,
      (numaAllocate sys env.numa (numPages sys p.segmentSize) p.numaNode w).1 = a)
    (hptr : a.ptr ≠ 0) (hnode : a.node = p.numaNode)
    (hsize : a.size = segmentBytes sys p.segmentSize)
    (h : addHostSegment env a (w.acquire a.resource) p = (.ok (), w', p')) :
    ∃ g, NewSegment sys env p.self p.toPoolParams g ∧ Grown w p g w' p' := by
  unfold addHostSegment at h
  cases hr : env.registerMemory with
  | none => simp [hr] at h
  | some r =>
    rw [hr] at h
    obtain ⟨rfl, rfl⟩ := constructSegment_ok h
    refine ⟨newSegment p a r 0 none, newSegment_spec halloc hptr hnode hsize hr hdev.symm
      (fun hd => by simp [hdev] at hd), ?_⟩
    exact
      { pool := rfl
        segmentAt := rfl
        nextSegment := rfl
        outstanding := by simp [Segment.resources, newSegment, hptr]
        misreleases := rfl
        deviceId := rfl }

/-- The resources that the device branch has obtained are those of the segment. -/
theorem deviceResources_perm {p : Pool C} {a : Allocation} {r : Region C.Handle}
    {d : Region C.DeviceHandle} {devicePtr : Nat} {id : Int} {w : World C} (hptr : a.ptr ≠ 0) :
    (.deviceRegistration d.key :: .registration r.key ::
        (((w.acquire a.resource).setDeviceId id).acquireDevice devicePtr a.size).outstanding).Perm
      ((newSegment p a r devicePtr (some d)).resources ++ w.outstanding) := by
  rw [World.acquireDevice_outstanding, World.setDeviceId_outstanding, World.acquire_outstanding]
  by_cases hz : devicePtr = 0
  · simp [Segment.resources, newSegment, hptr, hz]
  · simp only [Segment.resources, newSegment, hptr, hz, if_false, List.cons_append,
      List.nil_append]
    exact (List.Perm.swap _ _ _).cons _

theorem addDeviceSegment_ok {sys : System} {env : GrowEnv C} {a : Allocation} {w w' : World C}
    {p p' : Pool C} (hdev : p.allocateOnDevice = true)
    (halloc : ∀ w : World C,
      (numaAllocate sys env.numa (numPages sys p.segmentSize) p.numaNode w).1 = a)
    (hptr : a.ptr ≠ 0) (hnode : a.node = p.numaNode)
    (hsize : a.size = segmentBytes sys p.segmentSize)
    (h : addDeviceSegment env a (w.acquire a.resource) p = (.ok (), w', p')) :
    ∃ g, NewSegment sys env p.self p.toPoolParams g ∧ Grown w p g w' p' := by
  unfold addDeviceSegment at h
  cases hm : env.deviceMalloc with
  | none => simp [hm] at h
  | some devicePtr =>
    simp only [hm] at h
    split at h
    · simp at h
    · next r d w₁ hreg =>
      split at h
      · simp at h
      · next w₂ p₂ hcons =>
        simp only [Prod.mk.injEq, true_and] at h
        obtain ⟨rfl, rfl⟩ := h
        obtain ⟨hr, hd, -⟩ := registerBoth_ok hreg
        obtain ⟨hout, hmis, hseg, hnext, -⟩ := registerBoth_outstanding hreg
        obtain ⟨rfl, rfl⟩ := constructSegment_ok hcons
        refine ⟨newSegment p a r devicePtr (some d), newSegment_spec halloc hptr hnode hsize hr
          hdev.symm (fun _ => ⟨hm, hd⟩), ?_⟩
        exact
          { pool := by simp only [hnext, World.acquireDevice_nextSegment,
              World.setDeviceId_nextSegment, World.acquire_nextSegment]
            segmentAt := by
              simp only [World.setDeviceId_segmentAt, World.addSegmentObject, hseg, hnext,
                World.acquireDevice_segmentAt, World.acquireDevice_nextSegment,
                World.setDeviceId_nextSegment, World.acquire_segmentAt,
                World.acquire_nextSegment]
            nextSegment := by simp [hnext]
            outstanding := hout.trans (deviceResources_perm hptr)
            misreleases := by simp [hmis]
            deviceId := rfl }

/-- A successful `add_segment` made one new segment, published all its blocks,
and holds its resources; nothing else changed. -/
theorem addSegment_ok {sys : System} {env : GrowEnv C} {w w' : World C} {p p' : Pool C}
    (h : addSegment sys env w p = (.ok (), w', p')) :
    ∃ g, NewSegment sys env p.self p.toPoolParams g ∧ Grown w p g w' p' := by
  rw [addSegment] at h
  rcases numaAllocate_spec sys env.numa (numPages sys p.segmentSize) p.numaNode w with
    hnull | ⟨a, hptr, hsize, halloc⟩
  · rw [hnull] at h
    dsimp only at h
    rw [checkAllocation, if_pos rfl] at h
    cases h
  · have hsame : ∀ w₂ : World C,
        (numaAllocate sys env.numa (numPages sys p.segmentSize) p.numaNode w₂).1 = a := fun w₂ => by
      rw [numaAllocate_fst _ _ _ _ w₂ w, halloc]
    rw [halloc] at h
    dsimp only at h
    cases hcheck : checkAllocation a p.numaNode (w.acquire a.resource) with
    | mk res w₁ =>
      rw [hcheck] at h
      cases res with
      | error e => cases h
      | ok a' =>
        obtain ⟨rfl, rfl, -, hnode⟩ := checkAllocation_ok hcheck
        dsimp only at h
        cases hdev : p.allocateOnDevice with
        | true =>
          rw [hdev, if_pos rfl] at h
          exact addDeviceSegment_ok hdev hsame hptr hnode hsize h
        | false =>
          rw [hdev, if_neg Bool.false_ne_true] at h
          exact addHostSegment_ok hdev hsame hptr hnode hsize h

/-! ### A machine to run pools on

Pages of 4096 bytes and no device; a handle is the range it stands for. -/

/-- A machine with the single node 0 and pages of 4 KiB. -/
def stubSystem : System where
  pageSize := 4096
  topo := stubTopology

/-- All calls succeed, and the memory starts at `base`, on the host and on the
device. -/
def grantAt (base : Nat) : GrowEnv rangeContext where
  numa := { numaAlloc := base, calloc := 0, callocNode := 0, localNode := 0 }
  deviceMalloc := some base
  registerMemory := some (rangeRegion base)
  registerDeviceMemory := some (rangeRegion base)
  deviceFirst := false
  freedStackThrows := false
  getHandleThrows := fun _ => false
  deviceGetHandleThrows := fun _ => false

/-- A pool that has not allocated yet. -/
def Pool.new (p : PoolParams) (self : PoolId) : Pool C :=
  { p with
    self := self
    freeStack := []
    segments := [] }

/-- Two blocks in each segment, and a reserve of one segment. -/
def twoBlockPool : Pool rangeContext :=
  Pool.new (pool 2048 4096 0 false 1) ⟨.sized 0, false, 0⟩

/-- Block `i` of segment `s` of this pool, if the memory of the segment starts at
page `s`. -/
def twoBlock (s i : Nat) : Block rangeContext where
  segment := s
  userAllocation := 0
  ptr := 4096 * s + 2048 * i
  handle := (4096 * s + 2048 * i, 2048)

/-- Nothing has been obtained; the number 0 is the null pointer. -/
def emptyWorld : World rangeContext where
  outstanding := []
  misreleases := 0
  deviceId := 0
  segmentAt := fun _ =>
    newSegment twoBlockPool {} (rangeRegion 0) 0 none
  nextSegment := 1

end HwMalloc
