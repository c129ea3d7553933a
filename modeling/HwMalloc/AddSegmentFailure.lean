import HwMalloc.AddSegment

/-!
# HwMalloc.AddSegmentFailure

What a failed `add_segment` leaves behind. `addSegment_error_restored_iff` says
exactly when nothing is: when `check_allocation` fails, and when the segment
constructor fails before it has published a block, provided that on a device
pool the device id was the pool's own to begin with. In between the memory is
held by raw values that no destructor gives back.

The failures, in the order of the code, with what they leave:

* `check_allocation`: nothing, it frees the memory itself;
* the allocation on the device: the host memory, and the changed device id;
* a registration: the host memory, the device memory and the changed device id; the
  other registration is undone, by the destructor of the temporary region;
* the segment constructor: nothing outstanding, but the blocks that were pushed, and on
  the device branch the changed device id.

What these failures add up to over a run is the subject of `HwMalloc.FailureLeaks`.
-/

namespace HwMalloc

variable {C : Context}

/-- Resources, device id, `m_segments` and `m_free_stack` are as before, and
nothing was given back twice or to the wrong deallocator. -/
structure AllRestored (w : World C) (p : Pool C) (w' : World C) (p' : Pool C) : Prop where
  outstanding : w'.outstanding.Perm w.outstanding
  misreleases : w'.misreleases = w.misreleases
  deviceId : w'.deviceId = w.deviceId
  segments : p'.segments = p.segments
  freeStack : p'.freeStack = p.freeStack

/-- `numa().allocate` followed by `check_allocation` comes back. -/
def allocationAccepted (sys : System) (env : GrowEnv C) (w : World C) (p : PoolParams) : Bool :=
  let (a, w) := numaAllocate sys env.numa (numPages sys p.segmentSize) p.numaNode w
  (checkAllocation a p.numaNode w).1.toBool

/-- The calls between `check_allocation` and the segment constructor come back. -/
def registrationsSucceed (env : GrowEnv C) (p : PoolParams) : Bool :=
  env.registerMemory.isSome &&
    (!p.allocateOnDevice || env.deviceMalloc.isSome && env.registerDeviceMemory.isSome)

/-- The segment constructor throws before it has pushed a block: in the
constructor of its own stack, or over a handle of the block it makes first,
which is the last one of the segment. -/
def constructorFailsFirst (env : GrowEnv C) (onDevice : Bool) (numBlocks : Nat) : Bool :=
  env.freedStackThrows || (handleFailure env onDevice (numBlocks - 1)).isSome

/-- When a failed `add_segment` leaves nothing behind. -/
def CleanFailure (sys : System) (env : GrowEnv C) (w : World C) (p : Pool C) : Prop :=
  allocationAccepted sys env w p.toPoolParams = false ∨
    registrationsSucceed env p.toPoolParams = true ∧
      constructorFailsFirst env p.allocateOnDevice (segmentBlocks sys p.toPoolParams) = true ∧
      (p.allocateOnDevice = true → w.deviceId = p.deviceId)

namespace AllRestored

/-- A resource that was obtained and kept shows in the outstanding ones. -/
theorem outstanding_length {w w' : World C} {p p' : Pool C} (h : AllRestored w p w' p') :
    w'.outstanding.length = w.outstanding.length :=
  h.outstanding.length_eq

theorem of_eq (w : World C) (p : Pool C) : AllRestored w p w p where
  outstanding := .refl _
  misreleases := rfl
  deviceId := rfl
  segments := rfl
  freeStack := rfl

end AllRestored

/-! ### The segment constructor

It pushes the blocks from the last one to the first one. The members exist by then. -/

/-- A constructor loop that fails has pushed some blocks; it has pushed none
exactly when it failed over the last block. -/
theorem pushBlocks_some {failAt : Nat → Option FailurePoint} {blockAt : Nat → Block C}
    {e : FailurePoint} :
    ∀ {n : Nat} {stack stack' : List (Block C)},
      pushBlocks failAt blockAt n stack = (some e, stack') →
        ∃ pushed, stack' = pushed ++ stack ∧ (pushed = [] ↔ (failAt (n - 1)).isSome) := by
  intro n
  induction n with
  | zero =>
    intro stack stack' h
    simp [pushBlocks] at h
  | succ n ih =>
    intro stack stack' h
    rw [pushBlocks] at h
    cases hf : failAt n with
    | some e' =>
      rw [hf] at h
      cases h
      exact ⟨[], rfl, by simp [hf]⟩
    | none =>
      rw [hf] at h
      obtain ⟨pushed, hstack, -⟩ := ih h
      exact ⟨pushed ++ [blockAt n], by simp [hstack], by simp [hf]⟩

/-- A failed constructor gives back the members, keeps the device id, and leaves
the blocks it has pushed. -/
theorem constructSegment_error {env : GrowEnv C} {g : Segment C} {w w' : World C}
    {p p' : Pool C} {e : FailurePoint} {out : List Resource}
    (hout : w.outstanding.Perm (g.resources ++ out))
    (h : constructSegment env g w p = (.error e, w', p')) :
    w'.outstanding.Perm out ∧ w'.misreleases = w.misreleases ∧ w'.deviceId = w.deviceId ∧
      p'.segments = p.segments ∧
      (p'.freeStack = p.freeStack ↔
        constructorFailsFirst env g.deviceRegion.isSome g.numBlocks = true) := by
  unfold constructSegment at h
  by_cases hstack : env.freedStackThrows = true
  · rw [if_pos hstack] at h
    cases h
    obtain ⟨hperm, hmis⟩ := destroyMembers_perm hout
    exact ⟨hperm, hmis, destroyMembers_deviceId g w, rfl, by simp [constructorFailsFirst, hstack]⟩
  · rw [if_neg hstack] at h
    cases hpush : pushBlocks (handleFailure env g.deviceRegion.isSome)
        (g.blockAt w.nextSegment p.deviceId) g.numBlocks p.freeStack with
    | mk res stack =>
      rw [hpush] at h
      cases res with
      | none => cases h
      | some e' =>
        cases h
        obtain ⟨pushed, rfl, hpushed⟩ := pushBlocks_some hpush
        obtain ⟨hperm, hmis⟩ := destroyMembers_perm (w := w.addSegmentObject g) hout
        refine ⟨hperm, hmis, destroyMembers_deviceId g _, rfl, ?_⟩
        rw [List.append_left_eq_self, hpushed]
        simp [constructorFailsFirst, hstack]

/-! ### The two branches

`a` is the allocation that `check_allocation` has let through; it is
outstanding, and held by a raw value. -/

/-- A failed registration gives nothing away: what came first is unregistered. -/
theorem registerBoth_error {env : GrowEnv C} {w w' : World C} {e : FailurePoint}
    (h : registerBoth env w = (.error e, w')) :
    w' = w ∧ (env.registerMemory.isSome && env.registerDeviceMemory.isSome) = false := by
  unfold registerBoth at h
  cases hfirst : env.deviceFirst <;> cases hd : env.registerDeviceMemory <;>
    cases hr : env.registerMemory <;>
      simp only [hfirst, hd, hr, if_true, if_false, Bool.false_eq_true, Prod.mk.injEq,
        World.acquire_release, reduceCtorEq, false_and] at h
  all_goals exact ⟨h.2.symm, rfl⟩

theorem addHostSegment_error {sys : System} {env : GrowEnv C} {a : Allocation}
    {w w' : World C} {p p' : Pool C} {e : FailurePoint} (hdev : p.allocateOnDevice = false)
    (hptr : a.ptr ≠ 0) (hsize : a.size = segmentBytes sys p.segmentSize)
    (h : addHostSegment env a (w.acquire a.resource) p = (.error e, w', p')) :
    AllRestored w p w' p' ↔
      registrationsSucceed env p.toPoolParams = true ∧
        constructorFailsFirst env p.allocateOnDevice (segmentBlocks sys p.toPoolParams) = true ∧
        (p.allocateOnDevice = true → w.deviceId = p.deviceId) := by
  unfold addHostSegment at h
  cases hr : env.registerMemory with
  | none =>
    -- The allocation stays behind.
    rw [hr] at h
    cases h
    simp only [registrationsSucceed, hr, Option.isSome_none, Bool.false_and, Bool.false_eq_true,
      false_and, iff_false]
    intro hall
    simpa using hall.outstanding_length
  | some r =>
    rw [hr] at h
    have hperm : ((w.acquire a.resource).acquire (.registration r.key)).outstanding.Perm
        ((newSegment p a r 0 none).resources ++ w.outstanding) := by
      simp [Segment.resources, newSegment, hptr]
    obtain ⟨hout, hmis, hid, hseg, hfree⟩ := constructSegment_error hperm h
    have hblocks : (newSegment p a r 0 none).numBlocks = segmentBlocks sys p.toPoolParams := by
      simp only [newSegment, hsize, segmentBlocks]
    rw [hblocks] at hfree
    simp only [registrationsSucceed, hr, hdev, Option.isSome_some, Bool.not_false, Bool.true_or,
      Bool.and_self, Bool.false_eq_true, false_implies, and_true, true_and]
    exact ⟨fun hall => hfree.mp hall.freeStack,
      fun hclean => ⟨hout, hmis, hid, hseg, hfree.mpr hclean⟩⟩

theorem addDeviceSegment_error {sys : System} {env : GrowEnv C} {a : Allocation}
    {w w' : World C} {p p' : Pool C} {e : FailurePoint} (hdev : p.allocateOnDevice = true)
    (hptr : a.ptr ≠ 0) (hsize : a.size = segmentBytes sys p.segmentSize)
    (h : addDeviceSegment env a (w.acquire a.resource) p = (.error e, w', p')) :
    AllRestored w p w' p' ↔
      registrationsSucceed env p.toPoolParams = true ∧
        constructorFailsFirst env p.allocateOnDevice (segmentBlocks sys p.toPoolParams) = true ∧
        (p.allocateOnDevice = true → w.deviceId = p.deviceId) := by
  unfold addDeviceSegment at h
  cases hm : env.deviceMalloc with
  | none =>
    -- The allocation stays behind.
    rw [hm] at h
    cases h
    simp only [registrationsSucceed, hdev, hm, Option.isSome_none, Bool.not_true, Bool.false_or,
      Bool.false_and, Bool.and_false, Bool.false_eq_true, false_and, iff_false]
    intro hall
    simpa using hall.outstanding_length
  | some devicePtr =>
    rw [hm] at h
    dsimp only at h
    cases hreg : registerBoth env
        (((w.acquire a.resource).setDeviceId p.deviceId).acquireDevice devicePtr a.size) with
    | mk res w₁ =>
      rw [hreg] at h
      cases res with
      | error e' =>
        -- The allocation and the device memory stay behind.
        cases h
        obtain ⟨rfl, hsome⟩ := registerBoth_error hreg
        have hsucc : registrationsSucceed env p.toPoolParams = false := by
          simpa [registrationsSucceed, hdev, hm] using hsome
        simp only [hsucc, Bool.false_eq_true, false_and, iff_false]
        intro hall
        have hlen := hall.outstanding_length
        simp [World.acquireDevice_outstanding] at hlen
        omega
      | ok rd =>
        obtain ⟨r, d⟩ := rd
        dsimp only at h
        obtain ⟨hr, hd, -⟩ := registerBoth_ok hreg
        obtain ⟨hregOut, hregMis, -, -, hregId⟩ := registerBoth_outstanding hreg
        have hid : w₁.deviceId = p.deviceId := by simp [hregId]
        have hmis : w₁.misreleases = w.misreleases := by simp [hregMis]
        have hout := hregOut.trans (deviceResources_perm (p := p) (r := r) (d := d) hptr)
        cases hcons : constructSegment env (newSegment p a r devicePtr (some d)) w₁ p with
        | mk res rest =>
          rw [hcons] at h
          cases res with
          | ok u => cases h
          | error e' =>
            cases h
            obtain ⟨hout', hmis', hid', hseg, hfree⟩ := constructSegment_error hout hcons
            have hblocks : (newSegment p a r devicePtr (some d)).numBlocks =
                segmentBlocks sys p.toPoolParams := by
              simp only [newSegment, hsize, segmentBlocks]
            rw [hblocks] at hfree
            simp only [registrationsSucceed, hr, hd, hm, hdev, Option.isSome_some, Bool.not_true,
              Bool.false_or, Bool.and_self, true_and, forall_true_left]
            -- The device id is the pool's now.
            exact ⟨fun hall => ⟨hfree.mp hall.freeStack,
                hall.deviceId.symm.trans (hid'.trans hid)⟩,
              fun hclean => ⟨hout', hmis'.trans hmis, (hid'.trans hid).trans hclean.2.symm, hseg,
                hfree.mpr hclean.1⟩⟩

/-- A failed `add_segment` restores everything exactly when `check_allocation`
failed, or the constructor failed before its first push and the device id needs
no restoring. -/
theorem addSegment_error_restored_iff {sys : System} {env : GrowEnv C} {w w' : World C}
    {p p' : Pool C} {e : FailurePoint}
    (h : addSegment sys env w p = (.error e, w', p')) :
    AllRestored w p w' p' ↔ CleanFailure sys env w p := by
  rw [addSegment] at h
  rcases numaAllocate_spec sys env.numa (numPages sys p.segmentSize) p.numaNode w with
    hnull | ⟨a, hptr, hsize, halloc⟩
  · have hacc : allocationAccepted sys env w p.toPoolParams = false := by
      rw [allocationAccepted, hnull]
      rfl
    rw [hnull] at h
    dsimp only at h
    rw [checkAllocation, if_pos rfl] at h
    cases h
    exact iff_of_true (.of_eq w p) (Or.inl hacc)
  · rw [halloc] at h
    dsimp only at h
    by_cases hnode : a.node = p.numaNode
    · have hcheck : checkAllocation a p.numaNode (w.acquire a.resource) =
          (.ok a, w.acquire a.resource) := by
        rw [checkAllocation, if_neg hptr, if_neg (not_not.mpr hnode)]
      have hacc : allocationAccepted sys env w p.toPoolParams = true := by
        rw [allocationAccepted, halloc]
        dsimp only
        rw [hcheck]
        rfl
      rw [hcheck] at h
      dsimp only at h
      rw [CleanFailure, hacc, or_iff_right Bool.true_eq_false.mp]
      cases hdev : p.allocateOnDevice with
      | true =>
        rw [hdev, if_pos rfl] at h
        have hbranch := addDeviceSegment_error hdev hptr hsize h
        rwa [hdev] at hbranch
      | false =>
        rw [hdev, if_neg Bool.false_ne_true] at h
        have hbranch := addHostSegment_error hdev hptr hsize h
        rwa [hdev] at hbranch
    · -- The allocation on the wrong node is freed before the exception.
      have hcheck : checkAllocation a p.numaNode (w.acquire a.resource) =
          (.error (.checkAllocation ("could not allocate on requested numa node " ++
            toString p.numaNode)), w) := by
        rw [checkAllocation, if_neg hptr, if_pos hnode, numaFree_acquire w hptr]
      have hacc : allocationAccepted sys env w p.toPoolParams = false := by
        rw [allocationAccepted, halloc]
        dsimp only
        rw [hcheck]
        rfl
      rw [hcheck] at h
      cases h
      exact iff_of_true (.of_eq w p) (Or.inl hacc)

/-- A registration that throws. -/
def failedRegistration : GrowEnv rangeContext :=
  { grantAt 4096 with registerMemory := none }

/-- The memory that `numa().allocate` returned before the registration threw. -/
def unregisteredMemory : Allocation where
  ptr := 4096
  size := 4096
  node := 0

theorem addSegment_failedRegistration :
    addSegment stubSystem failedRegistration emptyWorld twoBlockPool =
      (.error .registerMemory, emptyWorld.acquire (.numa unregisteredMemory), twoBlockPool) :=
  rfl

theorem addSegment_error_restored_iff_failedRegistration :
    AllRestored emptyWorld twoBlockPool (emptyWorld.acquire (.numa unregisteredMemory))
        twoBlockPool ↔
      CleanFailure stubSystem failedRegistration emptyWorld twoBlockPool :=
  addSegment_error_restored_iff addSegment_failedRegistration

/-- The segment's memory is lost when the registration throws. -/
theorem failedRegistration_leaks :
    addSegment stubSystem failedRegistration emptyWorld twoBlockPool =
        (.error .registerMemory, emptyWorld.acquire (.numa unregisteredMemory), twoBlockPool) ∧
      ¬AllRestored emptyWorld twoBlockPool (emptyWorld.acquire (.numa unregisteredMemory))
        twoBlockPool := by
  refine ⟨addSegment_failedRegistration, ?_⟩
  intro hall
  simpa [emptyWorld] using hall.outstanding_length

end HwMalloc
