import HwMalloc.HeapLifetime

/-!
# HwMalloc.UserAllocation

Memory of the user, registered through the heap: `user_allocation`, the overloads
of `heap::register_user_allocation`, and its way back through `block_t::release`.

* **The object.** A `user_allocation` owns up to three things: a host copy of device
  memory, the registration of the host memory, and that of the device memory. The
  memory that the user has brought is not among them. Its constructor cleans up after
  itself when a registration throws (`UserAllocation.new_spec`).
* **The block.** A registered block knows its `user_allocation` and no segment, a
  block of a pool knows its segment; `release` looks at these two members only. The
  heap does not keep the objects, its clients do, through the blocks they hold, so
  that an object whose block was never made stays for ever (`UserLabel.leaks`).
* **The runs.** The calls run beside those of the pools: a state is a concurrent heap,
  the objects that exist and the registered blocks that clients hold. The two halves
  share the resources that are outstanding and no other data, so that the invariant of
  the heap is kept by all that changes only these (`World.SameObjects`).

`user_allocations_accounted` is the account of a whole run up to the destruction of
the heap, which deletes no object.
-/

namespace HwMalloc

variable {C : Context} {Tid : Type}

/-! ### `user_allocation`

The three constructors share their initializers (`construct`) and differ in the host
memory: it is the user's, or, for device memory alone, a copy that is allocated. -/

/-- `user_allocation::host_allocation`. -/
structure HostAllocation where
  ptr : Nat
  delete : Bool
  deriving Repr, DecidableEq

/-- What `~host_allocation` gives to `std::free`. -/
def HostAllocation.resources (h : HostAllocation) : List Resource :=
  if h.ptr ≠ 0 ∧ h.delete then [.malloc { ptr := h.ptr, useNumaFree := false }] else []

/-- `user_allocation`. -/
structure UserAllocation (C : Context) where
  hostAllocation : HostAllocation
  region : Region C.Handle
  deviceRegion : Option (Region C.DeviceHandle)

/-- What the callees of `register_user_allocation` answer. `none`, and `true` for
the fields named `…Throws`, stand for an exception. -/
structure UserEnv (C : Context) where
  malloc : Nat
  registerMemory : (ptr size : Nat) → Option (Region C.Handle)
  registerDeviceMemory : (deviceId : Int) → (ptr size : Nat) → Option (Region C.DeviceHandle)
  getHandleThrows : Bool
  deviceGetHandleThrows : Bool

/-- The overloads of `register_user_allocation`, with their arguments. -/
inductive UserRequest
  | host (ptr size : Nat)
  | device (devicePtr : Nat) (deviceId : Int) (size : Nat)
  | hostAndDevice (ptr devicePtr : Nat) (deviceId : Int) (size : Nat)

namespace UserRequest

def size : UserRequest → Nat
  | host _ size | device _ _ size | hostAndDevice _ _ _ size => size

/-- The device memory and its device. -/
def device? : UserRequest → Option (Nat × Int)
  | host _ _ => none
  | device devicePtr deviceId _ | hostAndDevice _ devicePtr deviceId _ => some (devicePtr, deviceId)

end UserRequest

namespace UserAllocation

/-- What the members give back, the last one first. -/
def resources (u : UserAllocation C) : List Resource :=
  (match u.deviceRegion with
    | some r => [.deviceRegistration r.key]
    | none => []) ++
  [.registration u.region.key] ++ u.hostAllocation.resources

/-- The initializers of `m_region` and `m_device_region`. When one throws, the
members that exist by then are destroyed. -/
def construct (env : UserEnv C) (host : HostAllocation) (device : Option (Nat × Int)) (size : Nat)
    (w : World C) : Except FailurePoint (UserAllocation C) × World C :=
  match env.registerMemory host.ptr size with
  | none => (.error .registerMemory, host.resources.foldl World.release w)
  | some r =>
    let w := w.acquire (.registration r.key)
    match device with
    | none => (.ok ⟨host, r, none⟩, w)
    | some (devicePtr, deviceId) =>
      match env.registerDeviceMemory deviceId devicePtr size with
      | none =>
        (.error .registerDeviceMemory,
          (.registration r.key :: host.resources).foldl World.release w)
      | some d => (.ok ⟨host, r, some d⟩, w.acquire (.deviceRegistration d.key))

/-- The constructors of `user_allocation`. The one for device memory allocates the
host memory itself, and does not look at what `std::malloc` returns. -/
def new (env : UserEnv C) (q : UserRequest) (w : World C) :
    Except FailurePoint (UserAllocation C) × World C :=
  match q with
  | .host ptr size => construct env ⟨ptr, false⟩ none size w
  | .device devicePtr deviceId size =>
    let host : HostAllocation := ⟨env.malloc, true⟩
    construct env host (some (devicePtr, deviceId)) size (host.resources.foldl World.acquire w)
  | .hostAndDevice ptr devicePtr deviceId size =>
    construct env ⟨ptr, false⟩ (some (devicePtr, deviceId)) size w

/-- The block that `register_user_allocation` returns, for the object `this`. -/
def block (this : Nat) (u : UserAllocation C) (q : UserRequest) : Block C :=
  match u.deviceRegion, q.device? with
  | some r, some (devicePtr, deviceId) =>
    { segment := 0
      userAllocation := this
      ptr := u.hostAllocation.ptr
      handle := u.region.getHandle 0 q.size
      devicePtr := devicePtr
      deviceHandle := r.getHandle 0 q.size
      deviceId := deviceId }
  | _, _ =>
    { segment := 0
      userAllocation := this
      ptr := u.hostAllocation.ptr
      handle := u.region.getHandle 0 q.size }

@[simp] theorem block_segment (this : Nat) (u : UserAllocation C) (q : UserRequest) :
    (block this u q).segment = 0 := by
  unfold block
  split <;> rfl

@[simp] theorem block_userAllocation (this : Nat) (u : UserAllocation C) (q : UserRequest) :
    (block this u q).userAllocation = this := by
  unfold block
  split <;> rfl

end UserAllocation

/-! ### The objects, and the calls

The object is on the C++ heap and its address goes into the block. To delete an object
that is not there would be undefined, and has no result here. -/

/-- Which branch `block_t::release` takes. -/
inductive ReleaseTarget
  | segment (s : Nat)
  | userAllocation (a : Nat)
  | nothing
  deriving Repr, DecidableEq

/-- `block_t::release`, up to the calls it makes. -/
def Block.releaseTarget (b : Block C) : ReleaseTarget :=
  if b.segment ≠ 0 then .segment b.segment
  else if b.userAllocation ≠ 0 then .userAllocation b.userAllocation
  else .nothing

/-- A concurrent heap, the `user_allocation` objects, and the blocks of the user's
memory that clients hold. The address of an object is never reused. -/
structure UserHeap (C : Context) (Tid : Type) extends ConcHeap C Tid where
  users : List (Nat × UserAllocation C)
  nextUser : Nat
  held : List (Block C)

namespace UserHeap

/-- What the objects own. -/
def userResources (st : UserHeap C Tid) : List Resource :=
  st.users.flatMap fun entry => entry.2.resources

/-- `heap::register_user_allocation`: the object is a raw pointer until the block
is made. -/
def registerUserAllocation (env : UserEnv C) (q : UserRequest) (st : UserHeap C Tid) :
    Except FailurePoint (Block C) × UserHeap C Tid :=
  match UserAllocation.new env q st.world with
  | (.error e, w) => (.error e, { st with world := w })
  | (.ok u, w) =>
    let a := st.nextUser
    let st := { st with world := w, users := (a, u) :: st.users, nextUser := a + 1 }
    if env.getHandleThrows then (.error (.getHandle 0), st)
    else if q.device?.isSome && env.deviceGetHandleThrows then (.error (.deviceGetHandle 0), st)
    else (.ok (UserAllocation.block a u q), st)

/-- `block_t::release_user_allocation`, which deletes the object; `none` is the
deletion of an object that does not exist. -/
def releaseUserAllocation (a : Nat) (st : UserHeap C Tid) : Option (UserHeap C Tid) :=
  (st.users.lookup a).map fun u =>
    { st with
      world := u.resources.foldl World.release st.world
      users := st.users.filter fun entry => entry.1 ≠ a }

end UserHeap

/-- A step of a run: one of the heap, or a call for the user's memory, with its
failure. -/
inductive UserLabel (Tid : Type)
  | heap (l : Label Tid)
  | register (t : Tid) (failure : Option FailurePoint)
  | free (t : Tid)

/-- The failures after the construction of the object. -/
def UserLabel.leaks : UserLabel Tid → Bool
  | .register _ (some (.getHandle _)) | .register _ (some (.deviceGetHandle _)) => true
  | _ => false

/-- One step of one thread. The calls for the user's memory share no data with
those of the pools. -/
inductive UserHeapStep [DecidableEq Tid] (sys : System) :
    UserHeap C Tid → UserLabel Tid → UserHeap C Tid → Prop
  | heap {st : UserHeap C Tid} {l : Label Tid} {st₁ : ConcHeap C Tid} :
      ConcHeapStepOk sys st.toConcHeap l st₁ →
      UserHeapStep sys st (.heap l) { st with toConcHeap := st₁ }
  | registered {st st' : UserHeap C Tid} {t : Tid} {env : UserEnv C} {q : UserRequest}
      {b : Block C} :
      st.pc t = .idle → st.registerUserAllocation env q = (.ok b, st') →
      UserHeapStep sys st (.register t none) { st' with held := b :: st'.held }
  | refused {st st' : UserHeap C Tid} {t : Tid} {env : UserEnv C} {q : UserRequest}
      {e : FailurePoint} :
      st.pc t = .idle → st.registerUserAllocation env q = (.error e, st') →
      UserHeapStep sys st (.register t (some e)) st'
  /-- A client calls `free` for a registered block that it, or another client, holds. -/
  | free {st st' : UserHeap C Tid} {t : Tid} {b : Block C} {a : Nat} :
      st.pc t = .idle → b ∈ st.held → b.releaseTarget = .userAllocation a →
      st.releaseUserAllocation a = some st' →
      UserHeapStep sys st (.free t) { st' with held := st'.held.erase b }

/-- A heap that was just constructed, and nothing registered; the number 0 is the
null pointer. -/
structure UserHeap.Init (sys : System) (c : HeapConfig) (st : UserHeap C Tid) : Prop where
  conc : st.toConcHeap.Init sys c
  users : st.users = []
  nextUser : 1 ≤ st.nextUser
  held : st.held = []

/-! ### What the calls do to the resources

A constructor that throws after it has registered something gives that back on its
way out, because its members are objects that clean up. -/

/-- Only what is outstanding may differ. -/
structure World.SameObjects (w w' : World C) : Prop where
  misreleases : w'.misreleases = w.misreleases
  deviceId : w'.deviceId = w.deviceId
  segmentAt : w'.segmentAt = w.segmentAt
  nextSegment : w'.nextSegment = w.nextSegment

theorem World.SameObjects.refl (w : World C) : w.SameObjects w := ⟨rfl, rfl, rfl, rfl⟩

theorem World.SameObjects.trans {w w' w'' : World C} (h : w.SameObjects w')
    (h' : w'.SameObjects w'') : w.SameObjects w'' :=
  ⟨h'.misreleases.trans h.misreleases, h'.deviceId.trans h.deviceId,
    h'.segmentAt.trans h.segmentAt, h'.nextSegment.trans h.nextSegment⟩

theorem World.sameObjects_acquire (w : World C) (r : Resource) : w.SameObjects (w.acquire r) :=
  ⟨rfl, rfl, rfl, rfl⟩

/-- Resources that are outstanding are given back. -/
theorem foldl_release_sameObjects {rs out : List Resource} {w : World C}
    (h : w.outstanding.Perm (rs ++ out)) :
    w.SameObjects (rs.foldl World.release w) ∧
      (rs.foldl World.release w).outstanding.Perm out := by
  obtain ⟨hout, hmis⟩ := foldl_release_perm rs h
  exact ⟨⟨hmis, foldl_release_deviceId rs w, foldl_release_segmentAt rs w,
    foldl_release_nextSegment rs w⟩, hout⟩

theorem HostAllocation.acquire_resources (h : HostAllocation) (w : World C) :
    w.SameObjects (h.resources.foldl World.acquire w) ∧
      (h.resources.foldl World.acquire w).outstanding = h.resources ++ w.outstanding := by
  unfold resources
  split
  · exact ⟨w.sameObjects_acquire _, rfl⟩
  · exact ⟨.refl w, rfl⟩

namespace UserAllocation

variable {env : UserEnv C}

/-- What a constructor leaves outstanding. -/
def made : Except FailurePoint (UserAllocation C) → List Resource
  | .ok u => u.resources
  | .error _ => []

/-- Where the constructors fail. -/
def Refusal (e : FailurePoint) : Prop := e = .registerMemory ∨ e = .registerDeviceMemory

theorem construct_spec {host : HostAllocation} {device : Option (Nat × Int)} {size : Nat}
    {w w' : World C} {out : List Resource} {res : Except FailurePoint (UserAllocation C)}
    (h : construct env host device size w = (res, w'))
    (hout : w.outstanding.Perm (host.resources ++ out)) :
    w.SameObjects w' ∧ w'.outstanding.Perm (made res ++ out) ∧
      ∀ e, res = .error e → Refusal e := by
  unfold construct at h
  split at h
  · cases h
    obtain ⟨hsame, hperm⟩ := foldl_release_sameObjects hout
    exact ⟨hsame, hperm, fun e he => Or.inl (Except.error.inj he).symm⟩
  · next r _ =>
    have hreg := w.sameObjects_acquire (.registration r.key)
    have hout' : (w.acquire (.registration r.key)).outstanding.Perm
        ((.registration r.key :: host.resources) ++ out) := hout.cons _
    dsimp only at h
    split at h
    · cases h
      exact ⟨hreg, hout', fun e he => nomatch he⟩
    · split at h
      · cases h
        obtain ⟨hsame, hperm⟩ := foldl_release_sameObjects hout'
        exact ⟨hreg.trans hsame, hperm, fun e he => Or.inr (Except.error.inj he).symm⟩
      · next d _ =>
        cases h
        exact ⟨hreg.trans (World.sameObjects_acquire _ _), hout'.cons _, fun e he => nomatch he⟩

/-- A constructor that fails leaves nothing behind. -/
theorem new_spec {q : UserRequest} {w w' : World C} {res : Except FailurePoint (UserAllocation C)}
    (h : new env q w = (res, w')) :
    w.SameObjects w' ∧ w'.outstanding.Perm (made res ++ w.outstanding) ∧
      ∀ e, res = .error e → Refusal e := by
  cases q with
  | host ptr size =>
    have h : construct env ⟨ptr, false⟩ none size w = (res, w') := h
    exact construct_spec h (by simp [HostAllocation.resources])
  | device devicePtr deviceId size =>
    obtain ⟨hacquired, hout⟩ := HostAllocation.acquire_resources ⟨env.malloc, true⟩ w
    have h : construct env ⟨env.malloc, true⟩ (some (devicePtr, deviceId)) size
        ((HostAllocation.mk env.malloc true).resources.foldl World.acquire w) = (res, w') := h
    obtain ⟨hsame, hspec⟩ := construct_spec h (.of_eq hout)
    exact ⟨hacquired.trans hsame, hspec⟩
  | hostAndDevice ptr devicePtr deviceId size =>
    have h : construct env ⟨ptr, false⟩ (some (devicePtr, deviceId)) size w = (res, w') := h
    exact construct_spec h (by simp [HostAllocation.resources])

end UserAllocation

namespace UserHeap

variable {env : UserEnv C} {q : UserRequest} {st st' : UserHeap C Tid}

/-- The state with a new object. -/
def addUser (st : UserHeap C Tid) (u : UserAllocation C) (w : World C) : UserHeap C Tid :=
  { st with world := w, users := (st.nextUser, u) :: st.users, nextUser := st.nextUser + 1 }

/-- Either there is a new object, and it is lost when the block was not made; or
there is none, and nothing has changed. -/
theorem registerUserAllocation_cases {res : Except FailurePoint (Block C)}
    (h : st.registerUserAllocation env q = (res, st')) :
    (∃ u w, st.world.SameObjects w ∧ w.outstanding.Perm (u.resources ++ st.world.outstanding) ∧
        st' = st.addUser u w ∧
        (res = .ok (UserAllocation.block st.nextUser u q) ∨
          ∃ e, res = .error e ∧ ∀ t : Tid, UserLabel.leaks (.register t (some e)) = true)) ∨
      ∃ e w, st.world.SameObjects w ∧ w.outstanding.Perm st.world.outstanding ∧
        st' = { st with world := w } ∧ res = .error e ∧
          ∀ t : Tid, UserLabel.leaks (.register t (some e)) = false := by
  unfold registerUserAllocation at h
  cases hnew : UserAllocation.new env q st.world with
  | mk made w =>
    obtain ⟨hsame, hperm, herror⟩ := UserAllocation.new_spec hnew
    rw [hnew] at h
    cases made with
    | error e =>
      cases h
      refine Or.inr ⟨e, w, hsame, hperm, rfl, rfl, fun t => ?_⟩
      rcases herror e rfl with rfl | rfl <;> rfl
    | ok u =>
      refine Or.inl ⟨u, w, hsame, hperm, ?_⟩
      dsimp only at h
      split at h
      · cases h
        exact ⟨rfl, Or.inr ⟨_, rfl, fun t => rfl⟩⟩
      · split at h
        · cases h
          exact ⟨rfl, Or.inr ⟨_, rfl, fun t => rfl⟩⟩
        · cases h
          exact ⟨rfl, Or.inl rfl⟩

end UserHeap

/-- An entry of a table with different keys, and the others. -/
theorem perm_of_lookup {α : Type} (a : Nat) (u : α) (entries : List (Nat × α))
    (hnodup : (entries.map Prod.fst).Nodup) (h : entries.lookup a = some u) :
    entries.Perm ((a, u) :: entries.filter fun entry => entry.1 ≠ a) := by
  induction entries with
  | nil => cases h
  | cons entry entries ih =>
    obtain ⟨k, v⟩ := entry
    obtain ⟨hnot, hnodup⟩ := List.nodup_cons.mp hnodup
    by_cases hk : a = k
    · subst hk
      obtain rfl : v = u := by simpa using h
      have hothers : entries.filter (fun entry => entry.1 ≠ a) = entries :=
        List.filter_eq_self.mpr fun entry hentry => by
          have hne : entry.1 ≠ a := fun heq => hnot (List.mem_map.mpr ⟨entry, hentry, heq⟩)
          simpa using hne
      rw [List.filter_cons_of_neg (by simp), hothers]
    · have hrest : entries.lookup a = some u := by
        simpa [List.lookup_cons, beq_eq_false_iff_ne.mpr hk] using h
      rw [List.filter_cons_of_pos (by simpa using Ne.symm hk)]
      exact ((ih hnodup hrest).cons _).trans (.swap ..)

/-! ### The invariant

To the account of the heap, what the objects own was outstanding before: this is how
the invariant of `HwMalloc.HeapLifetime` carries over as it is. -/

/-- The heap keeps its invariant; what is outstanding is what the segments and the
objects own, and what was outstanding in `w₀`; and the registered blocks that
clients hold belong to different objects, which exist. -/
structure UserHeapInv [Fintype Tid] (sys : System) (c : HeapConfig) (w₀ : World C)
    (st : UserHeap C Tid) : Prop where
  conc : ConcHeapInv sys c st.toConcHeap
  keys : st.heap.KeysNodup
  accounted : st.Accounted { w₀ with outstanding := st.userResources ++ w₀.outstanding }
  users_nodup : (st.users.map Prod.fst).Nodup
  users_lt : ∀ a ∈ st.users.map Prod.fst, a ≠ 0 ∧ a < st.nextUser
  nextUser_pos : 1 ≤ st.nextUser
  held_nodup : (st.held.map Block.userAllocation).Nodup
  held : ∀ b ∈ st.held, ∃ u q, (b.userAllocation, u) ∈ st.users ∧
    b = UserAllocation.block b.userAllocation u q

/-- The invariant of the heap does not depend on what is outstanding. -/
theorem ConcHeapInv.sameObjects [Fintype Tid] {sys : System} {c : HeapConfig}
    {st : ConcHeap C Tid} (h : ConcHeapInv sys c st) {w : World C} (hw : st.world.SameObjects w) :
    ConcHeapInv sys c { st with world := w } where
  heap := h.heap
  nextSegment_pos := by
    show 1 ≤ w.nextSegment
    rw [hw.nextSegment]
    exact h.nextSegment_pos
  segment_pos := h.segment_pos
  absent := h.absent
  pool := fun id params hparams =>
    (h.pool id params hparams).frame (le_of_eq hw.nextSegment.symm)
      fun s _ => congrFun hw.segmentAt s
  mutex := h.mutex

/-- Resources are obtained or given back outside the pools. -/
theorem HeapState.Accounted.sameObjects {st : HeapState C} {w₀ w : World C}
    {out out' : List Resource} (h : st.Accounted { w₀ with outstanding := out })
    (hw : st.world.SameObjects w) (hout : w.outstanding.Perm (st.resources ++ out')) :
    HeapState.Accounted { w₀ with outstanding := out' } { st with world := w } where
  outstanding := by
    have hres : HeapState.resources { st with world := w } = st.resources := by
      simp only [HeapState.resources, HeapState.segments, hw.segmentAt, hw.nextSegment]
    rw [hres]
    exact hout
  misreleases := hw.misreleases.trans h.misreleases
  deviceId := hw.deviceId.trans h.deviceId

/-- A release of a registered block deletes its object. -/
theorem Block.releaseTarget_block {a : Nat} (ha : a ≠ 0) (u : UserAllocation C) (q : UserRequest) :
    (UserAllocation.block a u q).releaseTarget = .userAllocation a := by
  simp [releaseTarget, ha]

namespace UserHeapInv

variable [Fintype Tid] {sys : System} {c : HeapConfig} {w₀ : World C} {st st' : UserHeap C Tid}

theorem init (h : st.Init sys c) : UserHeapInv sys c st.world st where
  conc := .init h.conc
  keys := by
    rw [Heap.KeysNodup, h.conc.heap]
    exact List.nodup_nil
  accounted := by
    have hnone : st.userResources = [] := by simp [UserHeap.userResources, h.users]
    rw [hnone]
    exact ConcHeapInv.accounted_init h.conc
  users_nodup := by simp [h.users]
  users_lt := by simp [h.users]
  nextUser_pos := h.nextUser
  held_nodup := by simp [h.held]
  held := by simp [h.held]

/-- A step of the heap. -/
theorem heapStep [DecidableEq Tid] (h : UserHeapInv sys c w₀ st) {l : Label Tid}
    {st₁ : ConcHeap C Tid} (hstep : ConcHeapStepOk sys st.toConcHeap l st₁) :
    UserHeapInv sys c w₀ { st with toConcHeap := st₁ } where
  conc := h.conc.step hstep
  keys := keysNodup_step h.keys hstep.2
  accounted := h.conc.accounted_step h.accounted hstep
  users_nodup := h.users_nodup
  users_lt := h.users_lt
  nextUser_pos := h.nextUser_pos
  held_nodup := h.held_nodup
  held := h.held

/-- Nothing but resources that are nobody's has come and gone. -/
theorem setWorld (h : UserHeapInv sys c w₀ st) {w : World C} (hw : st.world.SameObjects w)
    (hout : w.outstanding.Perm st.world.outstanding) :
    UserHeapInv sys c w₀ { st with world := w } where
  conc := h.conc.sameObjects hw
  keys := h.keys
  accounted := h.accounted.sameObjects hw (hout.trans h.accounted.outstanding)
  users_nodup := h.users_nodup
  users_lt := h.users_lt
  nextUser_pos := h.nextUser_pos
  held_nodup := h.held_nodup
  held := h.held

/-- The addresses of the blocks' objects are those of objects. -/
theorem held_mem (h : UserHeapInv sys c w₀ st) {b : Block C} (hb : b ∈ st.held) :
    b.userAllocation ∈ st.users.map Prod.fst := by
  obtain ⟨u, q, hu, -⟩ := h.held b hb
  exact List.mem_map_of_mem hu

/-- A new object, without a block. -/
theorem addUser (h : UserHeapInv sys c w₀ st) {u : UserAllocation C} {w : World C}
    (hw : st.world.SameObjects w)
    (hout : w.outstanding.Perm (u.resources ++ st.world.outstanding)) :
    UserHeapInv sys c w₀ (st.addUser u w) where
  conc := h.conc.sameObjects hw
  keys := h.keys
  accounted := by
    have hadded := hout.trans (h.accounted.outstanding.append_left _)
    refine h.accounted.sameObjects hw (hadded.trans ?_)
    show (u.resources ++ (st.resources ++ (st.userResources ++ w₀.outstanding))).Perm
      (st.resources ++ ((u.resources ++ st.userResources) ++ w₀.outstanding))
    rw [List.append_assoc]
    exact List.perm_append_comm_assoc ..
  users_nodup := List.nodup_cons.mpr
    ⟨fun hmem => lt_irrefl _ (h.users_lt _ hmem).2, h.users_nodup⟩
  users_lt := fun a ha => by
    rcases List.mem_cons.mp ha with rfl | ha
    · exact ⟨Nat.one_le_iff_ne_zero.mp h.nextUser_pos, Nat.lt_succ_self _⟩
    · exact ⟨(h.users_lt a ha).1, Nat.lt_succ_of_lt (h.users_lt a ha).2⟩
  nextUser_pos := Nat.succ_pos _
  held_nodup := h.held_nodup
  held := fun b hb => by
    obtain ⟨u', q, hu, heq⟩ := h.held b hb
    exact ⟨u', q, List.mem_cons_of_mem _ hu, heq⟩

/-- The block of the object that was made last goes to the client. -/
theorem hold (h : UserHeapInv sys c w₀ st) {u : UserAllocation C} {w : World C} (q : UserRequest)
    (h' : UserHeapInv sys c w₀ (st.addUser u w)) :
    UserHeapInv sys c w₀ { st.addUser u w with
      held := UserAllocation.block st.nextUser u q :: (st.addUser u w).held } where
  conc := h'.conc
  keys := h'.keys
  accounted := h'.accounted
  users_nodup := h'.users_nodup
  users_lt := h'.users_lt
  nextUser_pos := h'.nextUser_pos
  held_nodup := by
    refine List.nodup_cons.mpr ⟨fun hmem => ?_, h.held_nodup⟩
    obtain ⟨b, hb, heq⟩ := List.mem_map.mp hmem
    have hlt := (h.users_lt _ (h.held_mem hb)).2
    rw [heq, UserAllocation.block_userAllocation] at hlt
    exact lt_irrefl _ hlt
  held := fun b hb => by
    rcases List.mem_cons.mp hb with rfl | hb
    · rw [UserAllocation.block_userAllocation]
      exact ⟨u, q, List.mem_cons_self, rfl⟩
    · exact h'.held b hb

/-- The release of a block that a client holds finds the object. -/
theorem held_release (h : UserHeapInv sys c w₀ st) {b : Block C} (hb : b ∈ st.held) :
    b.releaseTarget = .userAllocation b.userAllocation ∧
      (st.releaseUserAllocation b.userAllocation).isSome := by
  obtain ⟨u, q, hu, heq⟩ := h.held b hb
  constructor
  · rw [heq, UserAllocation.block_userAllocation]
    exact Block.releaseTarget_block (h.users_lt _ (h.held_mem hb)).1 u q
  · rw [UserHeap.releaseUserAllocation, Option.isSome_map]
    by_contra hnone
    simpa using List.lookup_eq_none_iff.mp (Option.not_isSome_iff_eq_none.mp hnone) _ hu

/-- An object is deleted, and its block is gone. -/
theorem free (h : UserHeapInv sys c w₀ st) {b : Block C} (hb : b ∈ st.held)
    (hfree : st.releaseUserAllocation b.userAllocation = some st') :
    UserHeapInv sys c w₀ { st' with held := st'.held.erase b } ∧
      st.users.length = st'.users.length + 1 := by
  obtain ⟨u, hlookup, rfl⟩ := Option.map_eq_some_iff.mp hfree
  have hperm := perm_of_lookup _ _ _ h.users_nodup hlookup
  have hsub : (st.users.filter fun entry => entry.1 ≠ b.userAllocation).Sublist st.users :=
    List.filter_sublist
  have hout : st.world.outstanding.Perm (u.resources ++ (st.resources ++
      ((st.users.filter fun entry => entry.1 ≠ b.userAllocation).flatMap
        (fun entry => entry.2.resources) ++ w₀.outstanding))) := by
    have hsplit := hperm.flatMap_right fun entry => entry.2.resources
    refine h.accounted.outstanding.trans (((hsplit.append_right _).append_left _).trans ?_)
    rw [List.flatMap_cons, List.append_assoc]
    exact List.perm_append_comm_assoc ..
  obtain ⟨hsame, hrest⟩ := foldl_release_sameObjects hout
  refine ⟨?_, hperm.length_eq⟩
  refine ⟨h.conc.sameObjects hsame, h.keys, h.accounted.sameObjects hsame hrest,
    h.users_nodup.sublist (hsub.map _), fun a ha => h.users_lt a ((hsub.map _).subset ha),
    h.nextUser_pos, h.held_nodup.sublist ((List.erase_sublist ..).map _), fun b' hb' => ?_⟩
  obtain ⟨u', q, hu, heq⟩ := h.held b' (List.mem_of_mem_erase hb')
  refine ⟨u', q, List.mem_filter.mpr ⟨hu, ?_⟩, heq⟩
  -- The objects of two blocks are different.
  have hne : b' ≠ b := fun hbb => by
    subst hbb
    exact absurd hb' (List.Nodup.not_mem_erase (List.Nodup.of_map _ h.held_nodup))
  have hids : b'.userAllocation ≠ b.userAllocation := fun heq =>
    hne (List.inj_on_of_nodup_map h.held_nodup (List.mem_of_mem_erase hb') hb heq)
  simpa using hids

/-- Every step keeps the invariant, and the objects without a block are those of
the calls that failed to make one. -/
theorem step [DecidableEq Tid] {l : UserLabel Tid} (h : UserHeapInv sys c w₀ st)
    (hstep : UserHeapStep sys st l st') :
    UserHeapInv sys c w₀ st' ∧ st'.users.length + st.held.length =
      st.users.length + st'.held.length + if l.leaks then 1 else 0 := by
  cases hstep with
  | heap hstep => exact ⟨h.heapStep hstep, rfl⟩
  | @registered st₁ t env q b _ hcall =>
    -- The object is made, and so is its block.
    obtain ⟨u, w, hw, hout, rfl, hres⟩ | ⟨e, w, -, -, -, hres, -⟩ :=
      UserHeap.registerUserAllocation_cases hcall
    · obtain hres | ⟨e, hres, -⟩ := hres
      · obtain rfl := Except.ok.inj hres
        refine ⟨h.hold q (h.addUser hw hout), ?_⟩
        simp only [UserHeap.addUser, UserLabel.leaks, List.length_cons, Bool.false_eq_true,
          if_false]
        omega
      · cases hres
    · cases hres
  | @refused _ t env q e _ hcall =>
    obtain ⟨u, w, hw, hout, rfl, hres⟩ | ⟨e', w, hw, hout, rfl, hres, hleaks⟩ :=
      UserHeap.registerUserAllocation_cases hcall
    · -- The object is made, but no block: it is lost.
      obtain hres | ⟨e', hres, hleaks⟩ := hres
      · cases hres
      · obtain rfl := Except.error.inj hres
        refine ⟨h.addUser hw hout, ?_⟩
        rw [hleaks t]
        simp only [UserHeap.addUser, List.length_cons, if_true]
        omega
    · -- No object is made.
      obtain rfl := Except.error.inj hres
      rw [hleaks t]
      exact ⟨h.setWorld hw hout, rfl⟩
  | @free st₁ t b a _ hb htarget hfree =>
    -- One object and one block less.
    obtain rfl : b.userAllocation = a :=
      ReleaseTarget.userAllocation.inj ((h.held_release hb).1.symm.trans htarget)
    obtain ⟨hinv, hlength⟩ := h.free hb hfree
    obtain ⟨u, -, rfl⟩ := Option.map_eq_some_iff.mp hfree
    have herase := List.length_erase_add_one hb
    refine ⟨hinv, ?_⟩
    simp only [UserLabel.leaks, Bool.false_eq_true, if_false] at hlength ⊢
    omega

/-- The invariant along a run. -/
theorem run [DecidableEq Tid] {ls : List (UserLabel Tid)} (h : UserHeapInv sys c w₀ st)
    (hrun : Lib.Run (UserHeapStep sys) st ls st') :
    UserHeapInv sys c w₀ st' ∧ st'.users.length + st.held.length =
      st.users.length + st'.held.length + ls.countP UserLabel.leaks := by
  induction hrun with
  | refl => exact ⟨h, rfl⟩
  | @snoc st₁ st₂ ls l _ hlast ih =>
    obtain ⟨hinv, hcount⟩ := ih
    obtain ⟨hinv', hlast⟩ := hinv.step hlast
    refine ⟨hinv', ?_⟩
    rw [List.countP_append, List.countP_singleton]
    omega

end UserHeapInv

/-- Whatever any number of threads allocate, free, register and release, as long as
`allocate` does not throw: the destructor of the heap leaves what the objects of
registered memory own, and what was outstanding before; the objects are those of the
blocks that clients hold, one each, and one for each call in which a `get_handle` threw;
and `release` deletes the object of a registered block, and sends a block of a pool to
its segment. -/
theorem user_allocations_accounted [Fintype Tid] [DecidableEq Tid] {sys : System} {c : HeapConfig}
    {st₀ st : UserHeap C Tid} {ls : List (UserLabel Tid)} (hinit : st₀.Init sys c)
    (hrun : Lib.Run (UserHeapStep sys) st₀ ls st) {order : PoolId → List Nat}
    (horder : ∀ id, (order id).Perm (st.data id).segments) :
    (st.destroy order).outstanding.Perm (st.userResources ++ st₀.world.outstanding) ∧
      (st.destroy order).misreleases = st₀.world.misreleases ∧
      st.users.length = st.held.length + ls.countP UserLabel.leaks ∧
      (st.held.map Block.userAllocation).Nodup ∧
      (∀ b ∈ st.held, b.releaseTarget = .userAllocation b.userAllocation ∧
        (st.releaseUserAllocation b.userAllocation).isSome) ∧
      ∀ id, ∀ b ∈ st.live id, b.releaseTarget = .segment b.segment := by
  obtain ⟨hinv, hcount⟩ := (UserHeapInv.init hinit).run hrun
  obtain ⟨hout, hmis, -⟩ := hinv.conc.destroy_spec hinv.keys hinv.accounted horder
  refine ⟨hout, hmis, ?_, hinv.held_nodup, fun b hb => hinv.held_release hb, fun id b hb => ?_⟩
  · rw [hinit.users, hinit.held] at hcount
    simpa using hcount
  · have hpos := hinv.conc.segment_pos id _ (hinv.conc.live_segment hb).1
    rw [Block.releaseTarget, if_pos (Nat.one_le_iff_ne_zero.mp hpos)]

/-- Nothing is allocated or registered. -/
def userHeapStart : UserHeap rangeContext Bool where
  toConcHeap := smallHeapStart
  users := []
  nextUser := 1
  held := []

theorem userHeapStart_init : userHeapStart.Init smallPages smallSegmentConfig :=
  ⟨smallHeapStart_init, rfl, le_rfl, rfl⟩

/-- `std::malloc` returns the memory at 12288, and the registrations succeed. -/
def registeringEnv (getHandleThrows : Bool) : UserEnv rangeContext where
  malloc := 12288
  registerMemory := fun ptr _ => some (rangeRegion ptr)
  registerDeviceMemory := fun _ ptr _ => some (rangeRegion ptr)
  getHandleThrows := getHandleThrows
  deviceGetHandleThrows := false

/-- Device memory is registered; then host memory, whose handle cannot be had; and a
call of `allocate` begins. The host copy, its registration, that of the device memory
and the lost registration survive the heap. -/
theorem user_allocations_accounted_lostHandle :
    ∃ st : UserHeap rangeContext Bool, st.held.length = 1 ∧ st.users.length = 2 ∧
      st.userResources.length = 4 ∧
      (st.destroy fun id => (st.data id).segments).outstanding.Perm st.userResources := by
  have hregistered := (Lib.Run.refl userHeapStart).snoc
    (@UserHeapStep.registered _ _ _ smallPages _ _ true (registeringEnv false)
      (.device 4096 0 100) _ rfl rfl)
  have hrefused := hregistered.snoc
    (@UserHeapStep.refused _ _ _ smallPages _ _ true (registeringEnv true)
      (.host 65536 8) _ rfl rfl)
  have hrun := hrefused.snoc (@UserHeapStep.heap _ _ _ smallPages _ (.normal false) _
    ⟨⟨false, rfl⟩, @ConcHeapStep.callAllocate _ _ _ _ _ false
      { size := 64, numaNode := 0, localNode := 0 } rfl rfl⟩)
  have hout := (user_allocations_accounted userHeapStart_init hrun fun id => .refl _).1
  refine ⟨_, ?_, ?_, ?_, hout.trans (.of_eq (List.append_nil _))⟩ <;> rfl

end HwMalloc
