import HwMalloc.Concurrent
import HwMalloc.Lib.Threads

/-!
# HwMalloc.ConcurrentInvariant

Block conservation under any interleaving. A block is in the free stack, in the
freed stack of its segment, in transit inside one operation, or with a client;
`ConcInv.places` counts these places.

**The counters.** The counter of a segment lags behind its freed stack: an operation
between its push and its increment, or a collector between its pops and its
subtraction, accounts for the difference (`ConcInv.counter`). A collector holds the
mutex, so under the mutex only the increments are missing, and a counter that has
reached the block count then proves that all blocks are in the freed stack. This is
what makes the erasure of a segment safe (`ConcInv.full_of_isEmpty`).

**What a thread stands for.** Everything the invariant says about a thread in the
middle of an operation is read off its place: the block it holds, the counts it owes,
the segments it is still going to write to, the critical section. Most places hold
nothing and owe nothing (`Pc.Quiet`).

**How a step is proved.** All steps but two keep `m_segments`; for these there is one
rule, `ConcInv.transfer`, whose premises compare the state before and after the step,
and a rule for each kind of move is made of it. The other two, a segment added and a
segment erased, are done by hand. `ConcInv.step` goes through the steps, and
`block_conservation` is what holds in every reachable state.
-/

namespace HwMalloc

variable {C : Context} {Tid : Type}

namespace Pc

/-- The block in transit inside an operation. -/
def held : Pc C → Option (Block C)
  | collectPush b _ _ _ | allocUnlock b | allocReturn b | freePush b => some b
  | _ => none

/-- How often the operation holds `b`. -/
def holds (b : Block C) (x : Pc C) : Nat := if x.held = some b then 1 else 0

/-- The blocks of `s` that the operation has pushed and not yet counted. -/
def pendingInc (s : Nat) : Pc C → Nat
  | freeInc b => if b.segment = s then 1 else 0
  | _ => 0

/-- The blocks of `s` that the operation has popped and not yet subtracted. -/
def pendingSub (s : Nat) : Pc C → Nat
  | collectPop s' _ n | collectPush _ s' _ n | collectSub s' _ n => if s' = s then n else 0
  | _ => 0

/-- The segments that the operation is still going to write to. -/
def uses : Pc C → List Nat
  | collectPop s todo _ | collectPush _ s todo _ | collectSub s todo _ => s :: todo
  | freeInc b => [b.segment]
  | _ => []

/-- An operation that holds no block, and for which no counter waits. -/
structure Quiet (x : Pc C) : Prop where
  held : x.held = none
  pendingInc : ∀ s, x.pendingInc s = 0
  pendingSub : ∀ s, x.pendingSub s = 0

/-- Without the mutex an operation writes to a segment only to count a block. -/
theorem uses_of_not_critical {x : Pc C} (h : ¬x.Critical) {s : Nat} (hs : s ∈ x.uses) :
    x.pendingInc s = 1 := by
  cases x <;> simp [Critical, uses] at h hs
  simp [pendingInc, hs]

/-- Collecting takes the mutex. -/
theorem pendingSub_of_not_critical {x : Pc C} (h : ¬x.Critical) (s : Nat) :
    x.pendingSub s = 0 := by
  cases x <;> simp [Critical] at h <;> rfl

/-- No counter waits for an operation that leaves the segment alone. -/
theorem pending_of_not_mem_uses {x : Pc C} {s : Nat} (hs : s ∉ x.uses) :
    x.pendingInc s = 0 ∧ x.pendingSub s = 0 := by
  cases x <;> simp [uses] at hs <;> simp [pendingInc, pendingSub]
  all_goals exact fun h => absurd h.symm (by simp [hs])

theorem Quiet.of_uses {x : Pc C} (hheld : x.held = none) (huses : x.uses = []) : x.Quiet := by
  have hpending : ∀ s, x.pendingInc s = 0 ∧ x.pendingSub s = 0 := fun s =>
    pending_of_not_mem_uses (by simp [huses])
  exact ⟨hheld, fun s => (hpending s).1, fun s => (hpending s).2⟩

/-- A quiet operation without the mutex neither writes to segments nor erases. -/
theorem Quiet.outside {x : Pc C} (hquiet : x.Quiet) (h : ¬x.Critical) :
    x.uses = [] ∧ ∀ b, x ≠ .freeErase b := by
  refine ⟨List.eq_nil_iff_forall_not_mem.mpr fun s hs => ?_, fun b hb => h (by rw [hb]; trivial)⟩
  have hone := uses_of_not_critical h hs
  rw [hquiet.pendingInc s] at hone
  cases hone

/-- A pop that succeeds turns a quiet operation into one that holds the block. -/
theorem onPop_spec {x : Pc C} {next : Block C → Pc C} (h : x.onPop = some next) :
    x.Quiet ∧ ∀ b, (next b).held = some b ∧ (∀ s, (next b).pendingInc s = 0) ∧
      (∀ s, (next b).pendingSub s = 0) ∧ (next b).uses = [] ∧
      ((next b).Critical → x.Critical) ∧ ∀ b', next b ≠ .freeErase b' := by
  cases x <;> simp only [onPop, Option.some.injEq, reduceCtorEq] at h
  all_goals
    subst h
    refine ⟨.of_uses rfl rfl, ?_⟩
    simp [held, pendingInc, pendingSub, uses, Critical]

theorem collectNext_spec (todo : List Nat) :
    (collectNext todo : Pc C).Quiet ∧ (collectNext todo : Pc C).uses = todo ∧
      ∀ b, (collectNext todo : Pc C) ≠ .freeErase b := by
  cases todo with
  | nil => exact ⟨.of_uses rfl rfl, rfl, by simp [collectNext]⟩
  | cons s todo =>
    exact ⟨⟨rfl, fun _ => rfl, fun _ => by simp [collectNext, pendingSub]⟩, rfl,
      by simp [collectNext]⟩

/-- A pop that fails leaves the operation quiet. -/
theorem onEmpty_spec {x y : Pc C} {order : List Nat} (h : x.onEmpty order = some y) :
    x.Quiet ∧ y.Quiet ∧ (∀ s ∈ y.uses, s ∈ order) ∧ (y.Critical → x.Critical) ∧
      ∀ b, y ≠ .freeErase b := by
  cases x <;> simp only [onEmpty, Option.some.injEq, reduceCtorEq] at h
  case allocPopLocked =>
    subst h
    obtain ⟨hquiet, htodo, herase⟩ := collectNext_spec (C := C) order
    exact ⟨.of_uses rfl rfl, hquiet, fun s hs => htodo ▸ hs, fun _ => trivial,
      herase⟩
  case growPop counter =>
    subst h
    refine ⟨.of_uses rfl rfl, ?_⟩
    split
    · exact ⟨.of_uses rfl rfl, by simp [uses], fun _ => trivial, by simp⟩
    · exact ⟨.of_uses rfl rfl, by simp [uses], fun _ => trivial, by simp⟩
  all_goals
    subst h
    exact ⟨.of_uses rfl rfl, .of_uses rfl rfl,
      by simp [uses], by simp [Critical], by simp⟩

end Pc

namespace ConcState

variable [Fintype Tid] (st : ConcState C Tid)

/-- How many operations hold `b`. -/
def inTransit (b : Block C) : Nat := ∑ t, (st.pc t).holds b

/-- The blocks of `s` that were pushed and not yet counted. -/
def pendingInc (s : Nat) : Nat := ∑ t, (st.pc t).pendingInc s

/-- The blocks of `s` that were popped and not yet subtracted. -/
def pendingSub (s : Nat) : Nat := ∑ t, (st.pc t).pendingSub s

/-- How often `b` is in the freed stack of its segment. -/
def freedCount (b : Block C) : Nat :=
  if b.segment ∈ st.pool.segments then (st.world.segmentAt b.segment).freedStack.count b else 0

/-- In how many places `b` is. -/
def places (b : Block C) : Nat :=
  st.pool.freeStack.count b + st.freedCount b + st.inTransit b + st.live.count b

/-- `b` is a block of a segment in `m_segments`. -/
def IsBlock (b : Block C) : Prop :=
  b.segment ∈ st.pool.segments ∧
    b ∈ (st.world.segmentAt b.segment).blocks b.segment st.pool.deviceId

instance (b : Block C) : Decidable (st.IsBlock b) :=
  inferInstanceAs (Decidable (_ ∧ _))

omit [Fintype Tid] in
/-- A block whose segment does not change. -/
theorem isBlock_congr (st st' : ConcState C Tid) {b : Block C}
    (hmem : b.segment ∈ st'.pool.segments ↔ b.segment ∈ st.pool.segments)
    (hobj : st'.world.segmentAt b.segment = st.world.segmentAt b.segment)
    (hdev : st'.pool.deviceId = st.pool.deviceId) :
    (st'.IsBlock b ↔ st.IsBlock b) ∧ st'.freedCount b = st.freedCount b := by
  simp only [IsBlock, freedCount, hmem, hobj, hdev, and_self]

end ConcState

variable [Fintype Tid]

/-- The invariant of the runs without exceptions. -/
structure ConcInv (sys : System) (st : ConcState C Tid) : Prop where
  segments_nodup : st.pool.segments.Nodup
  segments_lt : ∀ s ∈ st.pool.segments, s < st.world.nextSegment
  made : ∀ s ∈ st.pool.segments,
    (st.world.segmentAt s).MadeBy sys st.pool.self st.pool.toPoolParams
  freed_own : ∀ s ∈ st.pool.segments, ∀ b ∈ (st.world.segmentAt s).freedStack, b.segment = s
  places : ∀ b, st.places b = if st.IsBlock b then 1 else 0
  counter : ∀ s ∈ st.pool.segments,
    (st.world.segmentAt s).numFreed + st.pendingInc s =
      (st.world.segmentAt s).freedStack.length + st.pendingSub s
  mutex : ∀ t, (st.pc t).Critical → st.mutex = some t
  uses : ∀ t, ∀ s ∈ (st.pc t).uses, s ∈ st.pool.segments
  erasing : ∀ t b, st.pc t = .freeErase b → b.segment ∈ st.pool.segments →
    (st.world.segmentAt b.segment).freedStack.length =
        (st.world.segmentAt b.segment).numBlocks ∧
      st.pendingInc b.segment = 0

/-! ### One thread moves

The sums over the threads change by what the moving thread contributes, before and
after. -/

section

variable [DecidableEq Tid] (st : ConcState C Tid) (t : Tid) (x : Pc C)

theorem setPc_inTransit (b : Block C) :
    (st.setPc t x).inTransit b + (st.pc t).holds b = st.inTransit b + x.holds b :=
  Lib.sum_update (Pc.holds b) st.pc t x

theorem setPc_pendingInc (s : Nat) :
    (st.setPc t x).pendingInc s + (st.pc t).pendingInc s = st.pendingInc s + x.pendingInc s :=
  Lib.sum_update (Pc.pendingInc s) st.pc t x

theorem setPc_pendingSub (s : Nat) :
    (st.setPc t x).pendingSub s + (st.pc t).pendingSub s = st.pendingSub s + x.pendingSub s :=
  Lib.sum_update (Pc.pendingSub s) st.pc t x

/-- A move between quiet places changes no sum. -/
theorem sums_of_quiet (st₁ : ConcState C Tid) (hpc : st₁.pc = st.pc) (hold : (st.pc t).Quiet)
    (hnew : x.Quiet) :
    (∀ b, (st₁.setPc t x).inTransit b = st.inTransit b) ∧
      (∀ s, (st₁.setPc t x).pendingInc s = st.pendingInc s) ∧
      ∀ s, (st₁.setPc t x).pendingSub s = st.pendingSub s := by
  refine ⟨fun b => ?_, fun s => ?_, fun s => ?_⟩
  · have hmove := setPc_inTransit st₁ t x b
    simp only [Pc.holds, ConcState.inTransit, hpc, hold.held, hnew.held] at hmove ⊢
    simpa using hmove
  · have hmove := setPc_pendingInc st₁ t x s
    simp only [ConcState.pendingInc, hpc, hold.pendingInc, hnew.pendingInc] at hmove ⊢
    simpa using hmove
  · have hmove := setPc_pendingSub st₁ t x s
    simp only [ConcState.pendingSub, hpc, hold.pendingSub, hnew.pendingSub] at hmove ⊢
    simpa using hmove

end

namespace ConcInv

variable {sys : System} {st st' : ConcState C Tid}

/-- At most one thread is in a critical section. -/
theorem critical_unique (h : ConcInv sys st) {t u : Tid} (ht : (st.pc t).Critical)
    (hu : (st.pc u).Critical) : u = t :=
  Option.some.inj ((h.mutex u hu).symm.trans (h.mutex t ht))

/-- What a step of thread `t` to `x` has to establish if it keeps `m_segments`,
changing the data to those of `st₁`: the blocks stay where they are or move from
one place to another, and the counters with what is pending on them. -/
theorem transfer [DecidableEq Tid] {t : Tid} {x : Pc C} (h : ConcInv sys st)
    (st₁ : ConcState C Tid) (hpc : st₁.pc = st.pc)
    (hpool : st₁.pool = { st.pool with freeStack := st₁.pool.freeStack })
    (hnext : st₁.world.nextSegment = st.world.nextSegment)
    (hobj : ∀ s, st₁.world.segmentAt s = { st.world.segmentAt s with
      freedStack := (st₁.world.segmentAt s).freedStack
      numFreed := (st₁.world.segmentAt s).numFreed })
    (hown : ∀ s ∈ st.pool.segments, ∀ b ∈ (st₁.world.segmentAt s).freedStack, b.segment = s)
    (hplaces : ∀ b, st₁.pool.freeStack.count b + st₁.freedCount b + st₁.live.count b + x.holds b =
      st.pool.freeStack.count b + st.freedCount b + st.live.count b + (st.pc t).holds b)
    (hcounter : ∀ s ∈ st.pool.segments,
      (st₁.world.segmentAt s).numFreed + x.pendingInc s + (st.pc t).pendingSub s +
          (st.world.segmentAt s).freedStack.length =
        (st.world.segmentAt s).numFreed + (st.pc t).pendingInc s + x.pendingSub s +
          (st₁.world.segmentAt s).freedStack.length)
    (hmutex : x.Critical → st₁.mutex = some t)
    (hmutex' : ∀ u, u ≠ t → (st.pc u).Critical → st₁.mutex = some u)
    (huses : ∀ s ∈ x.uses, s ∈ st.pool.segments)
    (herasing : ∀ b, x = .freeErase b → b.segment ∈ st.pool.segments →
      (st₁.world.segmentAt b.segment).freedStack.length =
          (st.world.segmentAt b.segment).numBlocks ∧
        st.pendingInc b.segment = 0)
    (herasing' : ∀ u b, u ≠ t → st.pc u = .freeErase b → b.segment ∈ st.pool.segments →
      (st₁.world.segmentAt b.segment).freedStack.length =
          (st.world.segmentAt b.segment).freedStack.length ∧
        x.pendingInc b.segment ≤ (st.pc t).pendingInc b.segment) :
    ConcInv sys (st₁.setPc t x) := by
  have hblock : ∀ b, (st₁.setPc t x).IsBlock b ↔ st.IsBlock b := by
    intro b
    rw [ConcState.IsBlock, ConcState.setPc_pool, ConcState.setPc_world, hpool, hobj b.segment]
    exact Iff.rfl
  have hsegs : (st₁.setPc t x).pool.segments = st.pool.segments := by
    rw [ConcState.setPc_pool, hpool]
  refine ⟨?_, ?_, ?_, ?_, ?_, ?_, ?_, ?_, ?_⟩
  -- The list of segments and the segment objects, as far as they are not counters.
  · rw [hsegs]
    exact h.segments_nodup
  · rw [hsegs]
    intro s hs
    exact (h.segments_lt s hs).trans_eq hnext.symm
  · rw [ConcState.setPc_pool, hpool]
    intro s hs
    rw [ConcState.setPc_world, hobj s]
    obtain ⟨h₁, h₂, h₃, h₄, h₅, h₆, h₇⟩ := h.made s hs
    exact ⟨h₁, h₂, h₃, h₄, h₅, h₆, h₇⟩
  · rw [hsegs]
    exact hown
  -- The places: thread `t` gives up what it held before and takes what it holds now.
  · intro b
    have hold := h.places b
    have hmove := setPc_inTransit st₁ t x b
    have hsame : st₁.inTransit b = st.inTransit b := by simp only [ConcState.inTransit, hpc]
    have hbal := hplaces b
    simp only [hblock b]
    rw [← hold]
    rw [hpc] at hmove
    have hfreed : (st₁.setPc t x).freedCount b = st₁.freedCount b := rfl
    simp only [ConcState.places, ConcState.setPc_pool, ConcState.setPc_live, hfreed]
    omega
  -- The counters, with what the other threads owe as it was.
  · rw [hsegs]
    intro s hs
    have hold := h.counter s hs
    have hinc := setPc_pendingInc st₁ t x s
    have hsub := setPc_pendingSub st₁ t x s
    have hinc₁ : st₁.pendingInc s = st.pendingInc s := by simp only [ConcState.pendingInc, hpc]
    have hsub₁ : st₁.pendingSub s = st.pendingSub s := by simp only [ConcState.pendingSub, hpc]
    have hbal := hcounter s hs
    rw [hpc] at hinc hsub
    rw [ConcState.setPc_world]
    omega
  -- Mutual exclusion, and the segments that the threads are going to write to.
  · refine ConcState.forall_setPc st₁ t x (P := fun u y => y.Critical → st₁.mutex = some u)
      hmutex fun u hu => ?_
    rw [hpc]
    exact hmutex' u hu
  · rw [hsegs]
    refine ConcState.forall_setPc st₁ t x (P := fun _ y => ∀ s ∈ y.uses, s ∈ _)
      huses fun u hu => ?_
    rw [hpc]
    exact h.uses u
  -- A segment about to be erased: no count on it may have become pending.
  · rw [hsegs]
    have hzero : ∀ s, x.pendingInc s ≤ (st.pc t).pendingInc s → st.pendingInc s = 0 →
        (st₁.setPc t x).pendingInc s = 0 := by
      intro s hle hold
      have hinc := setPc_pendingInc st₁ t x s
      have hinc₁ : st₁.pendingInc s = st.pendingInc s := by
        simp only [ConcState.pendingInc, hpc]
      rw [hpc] at hinc
      omega
    have hnum : ∀ s, (st₁.world.segmentAt s).numBlocks = (st.world.segmentAt s).numBlocks :=
      fun s => by rw [hobj s]
    intro u b hb hs
    rw [ConcState.setPc_world, hnum]
    by_cases hu : u = t
    · rw [hu, ConcState.setPc_pc_self] at hb
      obtain ⟨hfull, hold⟩ := herasing b hb hs
      exact ⟨hfull, hzero _ (by rw [hb]; exact Nat.zero_le _) hold⟩
    · rw [ConcState.setPc_pc_ne _ _ _ hu, hpc] at hb
      obtain ⟨hfull, hold⟩ := h.erasing u b hb hs
      obtain ⟨hsame, hle⟩ := herasing' u b hu hb hs
      exact ⟨hsame.trans hfull, hzero _ hle hold⟩

/-- A thread moves without touching the data, except perhaps the mutex. -/
theorem moved [DecidableEq Tid] (h : ConcInv sys st) {m : Option Tid} {t : Tid} {x : Pc C}
    (hheld : x.held = (st.pc t).held)
    (hinc : ∀ s, x.pendingInc s = (st.pc t).pendingInc s)
    (hsub : ∀ s, x.pendingSub s = (st.pc t).pendingSub s)
    (hmutex : x.Critical → m = some t)
    (hmutex' : ∀ u, u ≠ t → (st.pc u).Critical → m = some u)
    (huses : ∀ s ∈ x.uses, s ∈ st.pool.segments)
    (herasing : ∀ b, x = .freeErase b → b.segment ∈ st.pool.segments →
      (st.world.segmentAt b.segment).freedStack.length =
          (st.world.segmentAt b.segment).numBlocks ∧
        st.pendingInc b.segment = 0) :
    ConcInv sys ({ st with mutex := m }.setPc t x) := by
  refine h.transfer { st with mutex := m } rfl rfl rfl (fun _ => rfl) h.freed_own ?_ ?_
    hmutex hmutex' huses herasing fun _ b _ _ _ => ⟨rfl, (hinc b.segment).le⟩
  · intro b
    simp only [Pc.holds, hheld]
    rfl
  · intro s _
    rw [hinc s, hsub s]

/-! ### Where the blocks are

A block that is in some place at all is a block of a registered segment, and it is in
no second place. So a freed stack cannot hold more than the blocks of its segment, and
when it holds as many, it holds them all. -/

theorem isBlock_of_places (h : ConcInv sys st) {b : Block C} (hb : 0 < st.places b) :
    st.IsBlock b := by
  by_contra hnot
  rw [h.places b, if_neg hnot] at hb
  exact absurd hb (lt_irrefl 0)

theorem places_le_one (h : ConcInv sys st) (b : Block C) : st.places b ≤ 1 := by
  rw [h.places b]
  split <;> omega

theorem holds_le_inTransit (st : ConcState C Tid) (t : Tid) (b : Block C) :
    (st.pc t).holds b ≤ st.inTransit b :=
  Lib.le_sum (Pc.holds b) st.pc t

theorem isBlock_of_held (h : ConcInv sys st) {t : Tid} {b : Block C}
    (hb : (st.pc t).held = some b) : st.IsBlock b := by
  refine h.isBlock_of_places ?_
  have hle := holds_le_inTransit st t b
  rw [Pc.holds, if_pos hb] at hle
  simp only [ConcState.places]
  omega

omit [Fintype Tid] in
theorem freedCount_of_mem {b : Block C} (hs : b.segment ∈ st.pool.segments) :
    st.freedCount b = (st.world.segmentAt b.segment).freedStack.count b := if_pos hs

theorem isBlock_of_freed (h : ConcInv sys st) {s : Nat} (hs : s ∈ st.pool.segments)
    {b : Block C} (hb : b ∈ (st.world.segmentAt s).freedStack) : st.IsBlock b := by
  obtain rfl := h.freed_own s hs b hb
  refine h.isBlock_of_places ?_
  have hpos := List.count_pos_iff.mpr hb
  rw [← freedCount_of_mem hs] at hpos
  simp only [ConcState.places]
  omega

/-- A freed stack holds blocks of its segment, each at most once. -/
theorem freed_subperm (h : ConcInv sys st) {s : Nat} (hs : s ∈ st.pool.segments) :
    (st.world.segmentAt s).freedStack.Nodup ∧
      (st.world.segmentAt s).freedStack ⊆
        (st.world.segmentAt s).blocks s st.pool.deviceId := by
  constructor
  · refine List.nodup_iff_count_le_one.mpr fun b => ?_
    by_cases hb : b ∈ (st.world.segmentAt s).freedStack
    · obtain rfl := h.freed_own s hs b hb
      have hle := h.places_le_one b
      simp only [ConcState.places, freedCount_of_mem hs] at hle
      omega
    · rw [List.count_eq_zero_of_not_mem hb]
      exact Nat.zero_le 1
  · intro b hb
    obtain rfl := h.freed_own s hs b hb
    exact (h.isBlock_of_freed hs hb).2

theorem freed_length_le (h : ConcInv sys st) {s : Nat} (hs : s ∈ st.pool.segments) :
    (st.world.segmentAt s).freedStack.length ≤ (st.world.segmentAt s).numBlocks := by
  obtain ⟨hnodup, hsub⟩ := h.freed_subperm hs
  rw [← Segment.blocks_length s (st.world.segmentAt s) st.pool.deviceId]
  exact (List.subperm_of_subset hnodup hsub).length_le

/-- A freed stack of full height holds all blocks of its segment. -/
theorem freed_perm_of_full (h : ConcInv sys st) {s : Nat} (hs : s ∈ st.pool.segments)
    (hfull : (st.world.segmentAt s).freedStack.length = (st.world.segmentAt s).numBlocks) :
    (st.world.segmentAt s).freedStack.Perm
      ((st.world.segmentAt s).blocks s st.pool.deviceId) := by
  obtain ⟨hnodup, hsub⟩ := h.freed_subperm hs
  refine (List.subperm_of_subset hnodup hsub).perm_of_length_le ?_
  rw [Segment.blocks_length, hfull]

/-- Then none of them is anywhere else. -/
theorem only_freed_of_full (h : ConcInv sys st) {b : Block C} (hb : st.IsBlock b)
    (hfull : (st.world.segmentAt b.segment).freedStack.length =
      (st.world.segmentAt b.segment).numBlocks) :
    st.freedCount b = 1 ∧
      st.pool.freeStack.count b = 0 ∧ st.inTransit b = 0 ∧ st.live.count b = 0 := by
  have hmem := (h.freed_perm_of_full hb.1 hfull).mem_iff.mpr hb.2
  have hpos := List.count_pos_iff.mpr hmem
  rw [← freedCount_of_mem hb.1] at hpos
  have hone := h.places_le_one b
  simp only [ConcState.places] at hone
  omega

/-! ### The steps that move blocks

Each of them takes a block from one place to another, or a count from what is pending
into the counter. The premises of `transfer` are then equations between two numbers. -/

variable [DecidableEq Tid]

theorem pop {t : Tid} {next : Block C → Pc C} {b : Block C} {p : Pool C} (h : ConcInv sys st)
    (hx : (st.pc t).onPop = some next) (hpop : st.pool.popFree = some (b, p)) :
    ConcInv sys ({ st with pool := p }.setPc t (next b)) := by
  obtain ⟨⟨hheld, hinc, hsub⟩, hnext⟩ := Pc.onPop_spec hx
  obtain ⟨hheld', hinc', hsub', hcol, hcrit, herase⟩ := hnext b
  obtain ⟨hfree, hp⟩ := popFree_eq_some hpop
  refine h.transfer { st with pool := p } rfl hp rfl (fun _ => rfl) h.freed_own ?_ ?_
    (fun hc => h.mutex t (hcrit hc)) (fun u _ hu => h.mutex u hu) (by simp [hcol])
    (fun b' heq => absurd heq (herase b'))
    fun _ b' _ _ _ => ⟨rfl, (hinc' b'.segment).le.trans (Nat.zero_le _)⟩
  · intro c
    have hcount : ({ st with pool := p } : ConcState C Tid).freedCount c = st.freedCount c := by
      rw [ConcState.freedCount, hp]
      rfl
    rw [hcount, hfree, Pc.holds, Pc.holds, hheld, hheld', List.count_cons]
    simp
    omega
  · intro s _
    rw [hinc, hsub, hinc', hsub']

/-- A step that changes the segment object `s`, under the current mutex. -/
theorem transfer_segment {t : Tid} {x : Pc C} {s : Nat} {f : Segment C → Segment C}
    (h : ConcInv sys st) (hs : s ∈ st.pool.segments)
    (hf : ∀ g : Segment C, f g =
      { g with freedStack := (f g).freedStack, numFreed := (f g).numFreed })
    (hown : ∀ b ∈ (f (st.world.segmentAt s)).freedStack, b.segment = s)
    (hplaces : ∀ b, b.segment = s → (f (st.world.segmentAt s)).freedStack.count b + x.holds b =
      (st.world.segmentAt s).freedStack.count b + (st.pc t).holds b)
    (hplaces' : ∀ b, b.segment ≠ s → x.holds b = (st.pc t).holds b)
    (hcounter : (f (st.world.segmentAt s)).numFreed + x.pendingInc s + (st.pc t).pendingSub s +
          (st.world.segmentAt s).freedStack.length =
        (st.world.segmentAt s).numFreed + (st.pc t).pendingInc s + x.pendingSub s +
          (f (st.world.segmentAt s)).freedStack.length)
    (hcounter' : ∀ s', s' ≠ s → x.pendingInc s' = (st.pc t).pendingInc s' ∧
      x.pendingSub s' = (st.pc t).pendingSub s')
    (hcritical : x.Critical → (st.pc t).Critical)
    (huses : ∀ s ∈ x.uses, s ∈ st.pool.segments)
    (herasing : ∀ b, x ≠ .freeErase b)
    (herasing' : ∀ u b, u ≠ t → st.pc u = .freeErase b → b.segment = s →
      (f (st.world.segmentAt s)).freedStack.length =
          (st.world.segmentAt s).freedStack.length ∧
        x.pendingInc s ≤ (st.pc t).pendingInc s) :
    ConcInv sys ((st.modifySegment s f).setPc t x) := by
  have hself : (st.modifySegment s f).world.segmentAt s = f (st.world.segmentAt s) := by
    simp [ConcState.modifySegment, World.modifySegment_segmentAt]
  have hother : ∀ s', s' ≠ s →
      (st.modifySegment s f).world.segmentAt s' = st.world.segmentAt s' := fun s' hne => by
    simp [ConcState.modifySegment, World.modifySegment_segmentAt, hne]
  refine h.transfer (st.modifySegment s f) rfl rfl rfl ?_ ?_ ?_ ?_
    (fun hc => h.mutex t (hcritical hc)) (fun u _ hu => h.mutex u hu) huses
    (fun b heq => absurd heq (herasing b)) ?_
  · intro s'
    by_cases hne : s' = s
    · rw [hne, hself]
      exact hf _
    · rw [hother s' hne]
  · intro s' hs' b hb
    by_cases hne : s' = s
    · rw [hne, hself] at hb
      rw [hne]
      exact hown b hb
    · rw [hother s' hne] at hb
      exact h.freed_own s' hs' b hb
  · intro b
    have hmem : (st.modifySegment s f).pool.segments = st.pool.segments := rfl
    by_cases hne : b.segment = s
    · have hbal := hplaces b hne
      rw [ConcState.freedCount, ConcState.freedCount, hmem, hne, if_pos hs, if_pos hs, hself]
      simp only [ConcState.modifySegment]
      omega
    · rw [ConcState.freedCount, ConcState.freedCount, hmem, hother _ hne, hplaces' b hne]
      rfl
  · intro s' hs'
    by_cases hne : s' = s
    · rw [hne, hself]
      exact hcounter
    · rw [hother s' hne, (hcounter' s' hne).1, (hcounter' s' hne).2]
  · intro u b hu hb hs'
    by_cases hne : b.segment = s
    · rw [hne, hself]
      exact herasing' u b hu hb hne
    · exact ⟨by rw [hother _ hne], (hcounter' _ hne).1.le⟩

theorem collectPop {t : Tid} {s : Nat} {todo : List Nat} {n : Nat} {b : Block C}
    {rest : List (Block C)} (h : ConcInv sys st) (hx : st.pc t = .collectPop s todo n)
    (hfreed : (st.world.segmentAt s).freedStack = b :: rest) :
    ConcInv sys ((st.modifySegment s Segment.popFreed).setPc t
      (.collectPush b s todo (n + 1))) := by
  have hcol := h.uses t
  rw [hx] at hcol
  have hs : s ∈ st.pool.segments := hcol s List.mem_cons_self
  have hcrit : (st.pc t).Critical := by rw [hx]; trivial
  have hb : b.segment = s := h.freed_own s hs b (by simp [hfreed])
  refine h.transfer_segment hs (fun _ => rfl) ?_ ?_ ?_ ?_ ?_ (fun _ => hcrit) hcol
    (by simp) ?_
  · intro c hc
    exact h.freed_own s hs c (List.mem_of_mem_tail hc)
  · intro c _
    simp only [Segment.popFreed, hfreed, List.tail_cons, Pc.holds, Pc.held, hx, List.count_cons]
    simp
  · intro c hc
    have hne : b ≠ c := fun heq => hc (heq ▸ hb)
    simp [Pc.holds, Pc.held, hx, hne]
  · simp only [Segment.popFreed, hfreed, hx, Pc.pendingInc, Pc.pendingSub, if_true,
      List.tail_cons, List.length_cons]
    omega
  · intro s' hne
    simp [hx, Pc.pendingInc, Pc.pendingSub, hne.symm]
  · -- Whoever erases holds the mutex, which is with the collector.
    intro u b' hu hb' _
    exact absurd (h.critical_unique hcrit (by rw [hb']; trivial)) hu

theorem collectPush {t : Tid} {b : Block C} {s : Nat} {todo : List Nat} {n : Nat}
    (h : ConcInv sys st) (hx : st.pc t = .collectPush b s todo n) :
    ConcInv sys ({ st with
      pool := { st.pool with freeStack := b :: st.pool.freeStack } }.setPc t
        (.collectPop s todo n)) := by
  have hcol := h.uses t
  rw [hx] at hcol
  refine h.transfer { st with pool := { st.pool with freeStack := b :: st.pool.freeStack } } rfl
    rfl rfl (fun _ => rfl) h.freed_own ?_ ?_ (fun _ => h.mutex t (by rw [hx]; trivial))
    (fun u _ hu => h.mutex u hu) hcol (by simp)
    fun _ _ _ _ _ => ⟨rfl, Nat.zero_le _⟩
  · intro c
    have hcount : ({ st with pool := { st.pool with freeStack := b :: st.pool.freeStack } } :
        ConcState C Tid).freedCount c = st.freedCount c := rfl
    rw [hcount, Pc.holds, Pc.holds, hx, List.count_cons]
    simp [Pc.held]
    omega
  · intro s' _
    rw [hx]
    rfl

theorem collectSub {t : Tid} {s : Nat} {todo : List Nat} {n : Nat} (h : ConcInv sys st)
    (hx : st.pc t = .collectSub s todo n) :
    ConcInv sys ((st.modifySegment s (Segment.addFreed (-n))).setPc t
      (.collectNext todo)) := by
  have hcol := h.uses t
  rw [hx] at hcol
  have hs : s ∈ st.pool.segments := hcol s List.mem_cons_self
  have hcrit : (st.pc t).Critical := by rw [hx]; trivial
  obtain ⟨⟨hheld, hinc, hsub⟩, htodo, herase⟩ := Pc.collectNext_spec (C := C) todo
  have hholds : ∀ c, (Pc.collectNext todo).holds c = (st.pc t).holds c := fun c => by
    rw [Pc.holds, Pc.holds, hheld, hx]
    rfl
  refine h.transfer_segment hs (fun _ => rfl) (h.freed_own s hs) ?_ (fun c _ => hholds c) ?_ ?_
    (fun _ => hcrit) ?_ herase fun _ _ _ _ _ => ⟨rfl, (hinc s).le.trans (Nat.zero_le _)⟩
  · intro c _
    rw [hholds c]
    rfl
  · rw [hinc, hsub, hx]
    simp only [Segment.addFreed_numFreed, Segment.addFreed_freedStack, Pc.pendingInc,
      Pc.pendingSub, if_true]
    omega
  · intro s' hne
    rw [hinc, hsub, hx]
    simp [Pc.pendingInc, Pc.pendingSub, hne.symm]
  · rw [htodo]
    exact fun s' hs' => hcol s' (List.mem_cons_of_mem s hs')

theorem allocReturn {t : Tid} {b : Block C} (h : ConcInv sys st)
    (hx : st.pc t = .allocReturn b) :
    ConcInv sys ({ st with live := b :: st.live }.setPc t .idle) := by
  refine h.transfer { st with live := b :: st.live } rfl rfl rfl (fun _ => rfl) h.freed_own ?_ ?_
    (fun hc => absurd hc (by simp [Pc.Critical])) (fun u _ hu => h.mutex u hu)
    (by simp [Pc.uses]) (by simp) fun _ _ _ _ _ => ⟨rfl, Nat.zero_le _⟩
  · intro c
    have hcount : ({ st with live := b :: st.live } : ConcState C Tid).freedCount c =
        st.freedCount c := rfl
    rw [hcount, Pc.holds, Pc.holds, hx, List.count_cons]
    simp [Pc.held]
    omega
  · intro s' _
    rw [hx]
    rfl

theorem callFree {t : Tid} {b : Block C} (h : ConcInv sys st) (hx : st.pc t = .idle)
    (hb : b ∈ st.live) :
    ConcInv sys ({ st with live := st.live.erase b }.setPc t (.freePush b)) := by
  refine h.transfer { st with live := st.live.erase b } rfl rfl rfl (fun _ => rfl) h.freed_own
    ?_ ?_ (fun hc => absurd hc (by simp [Pc.Critical])) (fun u _ hu => h.mutex u hu)
    (by simp [Pc.uses]) (by simp) fun _ _ _ _ _ => ⟨rfl, Nat.zero_le _⟩
  · intro c
    have hcount : ({ st with live := st.live.erase b } : ConcState C Tid).freedCount c =
        st.freedCount c := rfl
    have hlive := (List.perm_cons_erase hb).count_eq c
    rw [List.count_cons] at hlive
    rw [hcount, Pc.holds, Pc.holds, hx]
    simp only [Pc.held, reduceCtorEq, if_false, Option.some.injEq, hlive, beq_iff_eq]
    omega
  · intro s' _
    rw [hx]
    rfl

theorem freePush {t : Tid} {b : Block C} (h : ConcInv sys st) (hx : st.pc t = .freePush b) :
    ConcInv sys ((st.modifySegment b.segment (Segment.pushFreed b)).setPc t (.freeInc b)) := by
  have hheld : (st.pc t).held = some b := by rw [hx]; rfl
  have hblock := h.isBlock_of_held hheld
  refine h.transfer_segment hblock.1 (fun _ => rfl) ?_ ?_ ?_ ?_ ?_
    (fun hc => absurd hc (by simp [Pc.Critical])) (by simpa [Pc.uses] using hblock.1) (by simp) ?_
  · exact List.forall_mem_cons.mpr ⟨rfl, h.freed_own _ hblock.1⟩
  · intro c _
    rw [Segment.pushFreed_freedStack, List.count_cons, hx]
    simp [Pc.holds, Pc.held]
  · intro c hc
    have hne : b ≠ c := fun heq => hc (heq ▸ rfl)
    simp [Pc.holds, Pc.held, hx, hne]
  · rw [hx]
    simp only [Segment.pushFreed_numFreed, Segment.pushFreed_freedStack, Pc.pendingInc,
      Pc.pendingSub, if_true, List.length_cons]
    omega
  · intro s' hne
    simp [hx, Pc.pendingInc, Pc.pendingSub, hne.symm]
  · -- A segment about to be erased has all its blocks in its freed stack already.
    intro u b' _ hb' hseg
    obtain ⟨hfull, -⟩ := h.erasing u b' hb' (hseg ▸ hblock.1)
    rw [hseg] at hfull
    have hle := holds_le_inTransit st t b
    rw [Pc.holds, if_pos hheld, (h.only_freed_of_full hblock hfull).2.2.1] at hle
    omega

theorem freeInc {t : Tid} {b : Block C} {x : Pc C} (h : ConcInv sys st)
    (hx : st.pc t = .freeInc b) (hs : b.segment ∈ st.pool.segments) (hquiet : x.Quiet)
    (hcrit : ¬x.Critical) :
    ConcInv sys ((st.modifySegment b.segment (Segment.addFreed 1)).setPc t x) := by
  obtain ⟨htodo, herase⟩ := hquiet.outside hcrit
  obtain ⟨hheld, hinc, hsub⟩ := hquiet
  have hholds : ∀ c, x.holds c = (st.pc t).holds c := fun c => by
    rw [Pc.holds, Pc.holds, hheld, hx]
    rfl
  refine h.transfer_segment hs (fun _ => rfl) (h.freed_own _ hs) ?_ (fun c _ => hholds c) ?_ ?_
    (fun hc => absurd hc hcrit) (by simp [htodo]) herase
    fun _ _ _ _ _ => ⟨rfl, (hinc _).le.trans (Nat.zero_le _)⟩
  · intro c _
    rw [hholds c]
    rfl
  · rw [hinc, hsub, hx]
    simp only [Segment.addFreed_numFreed, Segment.addFreed_freedStack, Pc.pendingInc,
      Pc.pendingSub, if_true]
    omega
  · intro s' hne
    rw [hinc, hsub, hx]
    simp [Pc.pendingInc, Pc.pendingSub, hne.symm]

/-! ### The steps that change `m_segments`

The blocks of a new segment come into being on the free stack, and those of an erased
segment vanish from its freed stack. Both steps hold the mutex, so no other thread is
in the loop over `m_segments` or about to erase. -/

omit [DecidableEq Tid] in
/-- Nothing is pending on a segment that does not exist. -/
theorem pending_of_not_mem (h : ConcInv sys st) {s : Nat} (hs : s ∉ st.pool.segments) :
    st.pendingInc s = 0 ∧ st.pendingSub s = 0 := by
  have hpc : ∀ t, (st.pc t).pendingInc s = 0 ∧ (st.pc t).pendingSub s = 0 := fun t =>
    Pc.pending_of_not_mem_uses fun huse => hs (h.uses t s huse)
  exact ⟨Lib.sum_eq_zero fun t => (hpc t).1, Lib.sum_eq_zero fun t => (hpc t).2⟩

/-- The blocks of a new segment are on the free stack, and the others stay where
they are. -/
theorem places_grow {t : Tid} {x : Pc C} {env : GrowEnv C} {g : Segment C} {w : World C}
    {p : Pool C} (h : ConcInv sys st) (hold : (st.pc t).Quiet) (hx : x.Quiet)
    (hnew : NewSegment sys env st.pool.self st.pool.toPoolParams g)
    (hgrown : Grown st.world st.pool g w p) (b : Block C) :
    ({ st with world := w, pool := p }.setPc t x).places b =
      if ({ st with world := w, pool := p }.setPc t x).IsBlock b then 1 else 0 := by
  obtain ⟨htransit, -, -⟩ := sums_of_quiet st t x { st with world := w, pool := p } rfl hold hx
  have hplaces := h.places b
  have hfree : p.freeStack.count b =
      (g.blocks st.world.nextSegment st.pool.deviceId).count b + st.pool.freeStack.count b := by
    rw [hgrown.pool, List.count_append]
  have hdev : p.deviceId = st.pool.deviceId := by rw [hgrown.pool]
  by_cases hseg : b.segment = st.world.nextSegment
  · -- A block of the new segment was nowhere, and is on the free stack now.
    have hnone : ¬st.IsBlock b := fun hb => (h.segments_lt _ hb.1).ne hseg
    have hblock : ({ st with world := w, pool := p }.setPc t x).IsBlock b ↔
        b ∈ g.blocks st.world.nextSegment st.pool.deviceId := by
      simp only [ConcState.IsBlock, ConcState.setPc_pool, ConcState.setPc_world,
        hgrown.mem_segments, hseg, true_or, true_and, hgrown.segmentAt_new, hdev]
    have hcount : ({ st with world := w, pool := p }.setPc t x).freedCount b = 0 := by
      simp [ConcState.freedCount, hseg, hgrown.segmentAt_new, hnew.freedStack]
    rw [if_neg hnone] at hplaces
    simp only [hblock, ConcState.places, hcount, htransit, ConcState.setPc_pool,
      ConcState.setPc_live, hfree, (hnew.blocks_nodup _ _).count] at hplaces ⊢
    omega
  · -- Any other block is where it was.
    have hnot : b ∉ g.blocks st.world.nextSegment st.pool.deviceId := by
      intro hb
      obtain ⟨i, -, rfl⟩ := Segment.mem_blocks.mp hb
      exact hseg (Segment.blockAt_segment _ _ _ _)
    obtain ⟨hblock, hcount⟩ := ConcState.isBlock_congr st
      ({ st with world := w, pool := p }.setPc t x)
      (hgrown.mem_segments.trans (or_iff_right hseg)) (hgrown.segmentAt_old hseg) hdev
    simp only [hblock, ConcState.places, hcount, htransit, ConcState.setPc_pool,
      ConcState.setPc_live, hfree, List.count_eq_zero_of_not_mem hnot] at hplaces ⊢
    omega

theorem grow {t : Tid} {counter : Nat} {env : GrowEnv C} {w : World C} {p : Pool C}
    (h : ConcInv sys st) (hx : st.pc t = .grow counter)
    (hadd : addSegment sys env st.world st.pool = (.ok (), w, p)) :
    ConcInv sys ({ st with world := w, pool := p }.setPc t (.growPop counter)) := by
  obtain ⟨g, hnew, hgrown⟩ := addSegment_ok hadd
  have hcrit : (st.pc t).Critical := by rw [hx]; trivial
  have hold : (st.pc t).Quiet := by rw [hx]; exact .of_uses rfl rfl
  have hquiet : (Pc.growPop counter : Pc C).Quiet := .of_uses rfl rfl
  obtain ⟨-, hinc, hsub⟩ :=
    sums_of_quiet st t (.growPop counter) { st with world := w, pool := p } rfl hold hquiet
  have hfresh : st.world.nextSegment ∉ st.pool.segments := fun hs =>
    absurd (h.segments_lt _ hs) (lt_irrefl _)
  have hother : ∀ s ∈ st.pool.segments, w.segmentAt s = st.world.segmentAt s := fun s hs =>
    hgrown.segmentAt_old (h.segments_lt s hs).ne
  have hpc : ∀ {P : Tid → Pc C → Prop}, P t (.growPop counter) → (∀ u, P u (st.pc u)) →
      ∀ u, P u (({ st with world := w, pool := p }.setPc t (.growPop counter)).pc u) :=
    fun hP hall => ConcState.forall_setPc _ t _ hP fun u _ => hall u
  -- In each part the new segment is looked at apart from those that were there.
  refine ⟨?_, ?_, ?_, ?_, h.places_grow hold hquiet hnew hgrown, ?_, ?_, ?_, ?_⟩
  · rw [ConcState.setPc_pool, hgrown.pool]
    exact List.nodup_cons.mpr ⟨hfresh, h.segments_nodup⟩
  · intro s hs
    rw [ConcState.setPc_world, hgrown.nextSegment]
    rcases hgrown.mem_segments.mp hs with rfl | hs
    · exact Nat.lt_succ_self _
    · exact Nat.lt_succ_of_lt (h.segments_lt s hs)
  · intro s hs
    rw [ConcState.setPc_world, ConcState.setPc_pool, hgrown.pool]
    rcases hgrown.mem_segments.mp hs with rfl | hs
    · rw [hgrown.segmentAt_new]
      exact hnew.toMadeBy
    · rw [hother s hs]
      exact h.made s hs
  · intro s hs
    rw [ConcState.setPc_world]
    rcases hgrown.mem_segments.mp hs with rfl | hs
    · rw [hgrown.segmentAt_new, hnew.freedStack]
      simp
    · rw [hother s hs]
      exact h.freed_own s hs
  · intro s hs
    rw [hinc, hsub, ConcState.setPc_world]
    rcases hgrown.mem_segments.mp hs with rfl | hs
    · obtain ⟨hincZero, hsubZero⟩ := h.pending_of_not_mem hfresh
      rw [hgrown.segmentAt_new, hnew.freedStack, hnew.numFreed, hincZero, hsubZero]
      rfl
    · rw [hother s hs]
      exact h.counter s hs
  · exact hpc (P := fun u y => y.Critical → st.mutex = some u) (fun _ => h.mutex t hcrit) h.mutex
  · refine hpc (P := fun _ y => ∀ s ∈ y.uses, s ∈ p.segments) (by simp [Pc.uses]) ?_
    exact fun u s hs => hgrown.mem_segments.mpr (Or.inr (h.uses u s hs))
  · -- Whoever erases holds the mutex, which is with the growing thread.
    have hnone : ∀ u, ∀ b, st.pc u ≠ .freeErase b := by
      intro u b hb
      have hu : u = t := h.critical_unique hcrit (by rw [hb]; trivial)
      rw [hu, hx] at hb
      cases hb
    intro u b hb
    exact absurd hb (hpc (P := fun _ y => ∀ b, y ≠ .freeErase b) (by simp) hnone u b)

/-- The blocks of a segment all of whose blocks were in its freed stack are gone
with it, and the others stay where they are. -/
theorem places_erase {t : Tid} {x : Pc C} {s : Nat} {w : World C} {p : Pool C}
    (h : ConcInv sys st) (hold : (st.pc t).Quiet) (hx : x.Quiet)
    (hfull : (st.world.segmentAt s).freedStack.length = (st.world.segmentAt s).numBlocks)
    (herased : Erased s st.world st.pool w p) (c : Block C) :
    ({ st with world := w, pool := p }.setPc t x).places c =
      if ({ st with world := w, pool := p }.setPc t x).IsBlock c then 1 else 0 := by
  obtain ⟨htransit, -, -⟩ := sums_of_quiet st t x { st with world := w, pool := p } rfl hold hx
  have hplaces := h.places c
  have hfree : p.freeStack = st.pool.freeStack := by rw [herased.pool]
  have hdev : p.deviceId = st.pool.deviceId := by rw [herased.pool]
  have hmem : ∀ s', s' ∈ p.segments ↔ s' ≠ s ∧ s' ∈ st.pool.segments := fun s' => by
    rw [herased.pool]
    exact h.segments_nodup.mem_erase_iff
  by_cases hseg : c.segment = s
  · -- The blocks of the segment were in its freed stack only.
    have hblock : ¬({ st with world := w, pool := p }.setPc t x).IsBlock c := fun hc =>
      ((hmem _).mp hc.1).1 hseg
    have hcount : ({ st with world := w, pool := p }.setPc t x).freedCount c = 0 := by
      simp [ConcState.freedCount, hmem, hseg]
    have hnowhere : st.pool.freeStack.count c = 0 ∧ st.inTransit c = 0 ∧
        st.live.count c = 0 := by
      by_cases hc : st.IsBlock c
      · exact (h.only_freed_of_full hc (by rw [hseg]; exact hfull)).2
      · rw [if_neg hc] at hplaces
        simp only [ConcState.places] at hplaces
        omega
    rw [if_neg hblock]
    simp only [ConcState.places, hcount, htransit, ConcState.setPc_pool,
      ConcState.setPc_live, hfree]
    omega
  · obtain ⟨hblock, hcount⟩ := ConcState.isBlock_congr st
      ({ st with world := w, pool := p }.setPc t x)
      ((hmem c.segment).trans (and_iff_right hseg)) (herased.segmentAt _ hseg) hdev
    simp only [hblock, ConcState.places, hcount, htransit, ConcState.setPc_pool,
      ConcState.setPc_live, hfree] at hplaces ⊢
    exact hplaces

/-- The erasure of a segment all of whose blocks are in its freed stack. -/
theorem freeErase_mem {t : Tid} {b : Block C} {w : World C} {p : Pool C} (h : ConcInv sys st)
    (hx : st.pc t = .freeErase b) (hs : b.segment ∈ st.pool.segments)
    (herased : Erased b.segment st.world st.pool w p) :
    ConcInv sys ({ st with world := w, pool := p }.setPc t .freeUnlock) := by
  obtain ⟨hfull, hnoInc⟩ := h.erasing t b hx hs
  have hcrit : (st.pc t).Critical := by rw [hx]; trivial
  have hold : (st.pc t).Quiet := by rw [hx]; exact .of_uses rfl rfl
  have hquiet : (Pc.freeUnlock : Pc C).Quiet := .of_uses rfl rfl
  obtain ⟨-, hinc, hsub⟩ :=
    sums_of_quiet st t .freeUnlock { st with world := w, pool := p } rfl hold hquiet
  have hmem : ∀ s, s ∈ p.segments ↔ s ≠ b.segment ∧ s ∈ st.pool.segments := by
    intro s
    rw [herased.pool]
    exact h.segments_nodup.mem_erase_iff
  -- The segments that are left are those there were, and nothing about them changes.
  refine ⟨?_, ?_, ?_, ?_, h.places_erase hold hquiet hfull herased, ?_, ?_, ?_, ?_⟩
  · rw [ConcState.setPc_pool, herased.pool]
    exact h.segments_nodup.erase _
  · intro s hs'
    rw [ConcState.setPc_world, herased.nextSegment]
    exact h.segments_lt s ((hmem s).mp hs').2
  · intro s hs'
    obtain ⟨hne, hs'⟩ := (hmem s).mp hs'
    rw [ConcState.setPc_world, ConcState.setPc_pool, herased.pool, herased.segmentAt s hne]
    exact h.made s hs'
  · intro s hs'
    obtain ⟨hne, hs'⟩ := (hmem s).mp hs'
    rw [ConcState.setPc_world, herased.segmentAt s hne]
    exact h.freed_own s hs'
  · intro s hs'
    obtain ⟨hne, hs'⟩ := (hmem s).mp hs'
    rw [hinc, hsub, ConcState.setPc_world, herased.segmentAt s hne]
    exact h.counter s hs'
  · exact ConcState.forall_setPc _ t _ (P := fun u y => y.Critical → st.mutex = some u)
      (fun _ => h.mutex t hcrit) fun u _ => h.mutex u
  · refine ConcState.forall_setPc _ t _ (P := fun _ y => ∀ s ∈ y.uses, s ∈ p.segments)
      (by simp [Pc.uses]) fun u hu s hs' => (hmem s).mpr ⟨?_, h.uses u s hs'⟩
    -- No other thread collects, and none has a block of the segment to count.
    rintro rfl
    have hone := Pc.uses_of_not_critical (fun hc => hu (h.critical_unique hcrit hc)) hs'
    have hle := Lib.le_sum (Pc.pendingInc b.segment) st.pc u
    rw [hone] at hle
    change 1 ≤ st.pendingInc b.segment at hle
    omega
  · -- Nobody else is about to erase, and thread `t` has done so.
    have hnone : ∀ u, u ≠ t → ∀ c, st.pc u ≠ .freeErase c := fun u hu c hc =>
      hu (h.critical_unique hcrit (by rw [hc]; trivial))
    intro u c hc
    exact absurd hc (ConcState.forall_setPc _ t _ (P := fun _ y => ∀ c, y ≠ .freeErase c)
      (by simp) hnone u c)

/-! ### All steps

What is left are the moves of a thread that touch no block and no counter: into a
critical section, out of it, or within one side. -/

/-- The same for a thread with nothing pending before and after. -/
theorem moved_quiet {m : Option Tid} {t : Tid} {x y : Pc C} (h : ConcInv sys st)
    (hx : st.pc t = x) (hold : x.Quiet) (hnew : y.Quiet) (hmutex : y.Critical → m = some t)
    (hmutex' : ∀ u, u ≠ t → (st.pc u).Critical → m = some u)
    (huses : ∀ s ∈ y.uses, s ∈ st.pool.segments)
    (herasing : ∀ b, y = .freeErase b → b.segment ∈ st.pool.segments →
      (st.world.segmentAt b.segment).freedStack.length =
          (st.world.segmentAt b.segment).numBlocks ∧
        st.pendingInc b.segment = 0) :
    ConcInv sys ({ st with mutex := m }.setPc t y) := by
  rw [← hx] at hold
  exact h.moved (hnew.held.trans hold.held.symm)
    (fun s => (hnew.pendingInc s).trans (hold.pendingInc s).symm)
    (fun s => (hnew.pendingSub s).trans (hold.pendingSub s).symm) hmutex hmutex' huses herasing

/-- A thread that does not hold the mutex moves to a place that does not need it. -/
theorem moved_outside {t : Tid} {x y : Pc C} (h : ConcInv sys st) (hx : st.pc t = x)
    (hold : x.Quiet) (hnew : y.Quiet) (hcrit : ¬y.Critical) : ConcInv sys (st.setPc t y) := by
  obtain ⟨huses, herase⟩ := hnew.outside hcrit
  exact h.moved_quiet (m := st.mutex) hx hold hnew (fun hc => absurd hc hcrit)
    (fun u _ hu => h.mutex u hu) (by simp [huses]) fun b hb => absurd hb (herase b)

/-- A thread that holds the mutex moves on. -/
theorem moved_inside {t : Tid} {x y : Pc C} (h : ConcInv sys st) (hx : st.pc t = x)
    (hcrit : x.Critical) (hold : x.Quiet) (hnew : y.Quiet) (huses : y.uses = [])
    (herasing : ∀ b, y = .freeErase b → b.segment ∈ st.pool.segments →
      (st.world.segmentAt b.segment).freedStack.length =
          (st.world.segmentAt b.segment).numBlocks ∧
        st.pendingInc b.segment = 0) : ConcInv sys (st.setPc t y) :=
  h.moved_quiet (m := st.mutex) hx hold hnew (fun _ => h.mutex t (by rw [hx]; exact hcrit))
    (fun u _ hu => h.mutex u hu) (by simp [huses]) herasing

/-- A thread takes the mutex. -/
theorem moved_lock {t : Tid} {x y : Pc C} (h : ConcInv sys st) (hx : st.pc t = x)
    (hfree : st.mutex = none) (hold : x.Quiet) (hnew : y.Quiet) (huses : y.uses = [])
    (herase : ∀ b, y ≠ .freeErase b) :
    ConcInv sys ({ st with mutex := some t }.setPc t y) := by
  refine h.moved_quiet hx hold hnew (fun _ => rfl) (fun u _ hu => ?_) (by simp [huses])
    fun b hb => absurd hb (herase b)
  rw [h.mutex u hu] at hfree
  cases hfree

omit [DecidableEq Tid] in
/-- The re-check under the mutex is reliable: no collector is at work, so a
counter that has reached the block count proves that the segment is full. -/
theorem full_of_isEmpty {t : Tid} {b : Block C} (h : ConcInv sys st)
    (hx : st.pc t = .freeRecheck b) (hs : b.segment ∈ st.pool.segments)
    (hempty : (st.world.segmentAt b.segment).isEmpty = true) :
    (st.world.segmentAt b.segment).freedStack.length =
        (st.world.segmentAt b.segment).numBlocks ∧
      st.pendingInc b.segment = 0 := by
  have hcrit : (st.pc t).Critical := by rw [hx]; trivial
  have hsub : st.pendingSub b.segment = 0 := by
    refine Lib.sum_eq_zero fun u => ?_
    by_cases hu : (st.pc u).Critical
    · rw [h.critical_unique hcrit hu, hx]
      rfl
    · exact Pc.pendingSub_of_not_critical hu _
  have hcounter := h.counter _ hs
  have hle := h.freed_length_le hs
  rw [Segment.isEmpty_iff.mp hempty, hsub] at hcounter
  omega

/-- Every step without exception keeps the invariant. -/
theorem step {l : Label Tid} (h : ConcInv sys st) (hstep : ConcStepOk sys st l st') :
    ConcInv sys st' := by
  obtain ⟨⟨t, rfl⟩, hstep⟩ := hstep
  -- When the owner of the mutex leaves its critical section, nobody is in one.
  have hleave : ∀ {x : Pc C}, st.pc t = x → x.Critical →
      ∀ u, u ≠ t → (st.pc u).Critical → none = some u := fun hx hc u hu hcu =>
    absurd (h.critical_unique (by rw [hx]; exact hc) hcu) hu
  cases hstep with
  -- The call has not touched anything yet.
  | callAllocate hx =>
    exact h.moved_outside hx (.of_uses rfl rfl) (.of_uses rfl rfl) (by simp [Pc.Critical])
  -- A block goes from `m_free_stack` into the hands of the thread.
  | pop hx hpop => exact h.pop hx hpop
  -- The loop over `m_segments` may begin here, with all registered segments before it.
  | popEmpty hx hpop horder =>
    obtain ⟨hold, hnew, huses, hc, herase⟩ := Pc.onEmpty_spec hx
    exact h.moved_quiet (m := st.mutex) rfl hold hnew (fun hy => h.mutex t (hc hy))
      (fun u _ hu => h.mutex u hu) (fun s hs => horder.mem_iff.mp (huses s hs))
      fun b hb => absurd hb (herase b)
  | allocLock hx hfree =>
    exact h.moved_lock hx hfree (.of_uses rfl rfl) (.of_uses rfl rfl) rfl (by simp)
  -- `collect`: a block goes from the freed stack into the hands of the thread, and the
  -- count that the thread owes grows; in the end it is paid.
  | collectPop hx hfreed => exact h.collectPop hx hfreed
  | collectEmpty hx _ =>
    have huses := h.uses t
    rw [hx] at huses
    exact h.moved (m := st.mutex) (by rw [hx]; rfl) (fun s => by rw [hx]; rfl)
      (fun s => by rw [hx]; rfl) (fun _ => h.mutex t (by rw [hx]; trivial))
      (fun u _ hu => h.mutex u hu) huses (by simp)
  | collectPush hx => exact h.collectPush hx
  | collectSub hx => exact h.collectSub hx
  | grow hx hadd => exact h.grow hx hadd
  -- The mutex is given up with the block in the hands of the thread.
  | allocUnlock hx =>
    exact h.moved (by rw [hx]; rfl) (fun s => by rw [hx]; rfl) (fun s => by rw [hx]; rfl)
      (by simp [Pc.Critical]) (hleave hx trivial) (by simp [Pc.uses]) (by simp)
  | allocReturn hx => exact h.allocReturn hx
  | callFree hx hb => exact h.callFree hx hb
  | freePush hx => exact h.freePush hx
  -- The segment is still there: the count that is owed keeps it from being erased.
  | @freeInc _ b hx =>
    have hs : b.segment ∈ st.pool.segments := h.uses t _ (by rw [hx]; exact List.mem_cons_self)
    cases st.pool.neverFree with
    | true =>
      exact h.freeInc hx hs (.of_uses rfl rfl) (by simp [Pc.Critical])
    | false =>
      exact h.freeInc hx hs (.of_uses rfl rfl) (by simp [Pc.Critical])
  -- What the test reads may be anything: nothing follows from it here.
  | @freeTest _ b read hx _ =>
    cases read with
    | true =>
      exact h.moved_outside hx (.of_uses rfl rfl) (.of_uses rfl rfl) (by simp [Pc.Critical])
    | false =>
      exact h.moved_outside hx (.of_uses rfl rfl) (.of_uses rfl rfl) (by simp [Pc.Critical])
  | freeLock hx hfree =>
    exact h.moved_lock hx hfree (.of_uses rfl rfl) (.of_uses rfl rfl) rfl (by simp)
  -- The same test under the mutex: if the segment is registered, it is full.
  | @freeRecheck _ b read hx hread =>
    by_cases hcond : (read && decide (st.pool.numReserveSegments < st.pool.segments.length)) = true
    · rw [if_pos hcond]
      refine h.moved_inside hx trivial (.of_uses rfl rfl) (.of_uses rfl rfl) rfl
        fun b' hb' hs => ?_
      cases hb'
      refine h.full_of_isEmpty hx hs ?_
      rw [← hread hs]
      exact (Bool.and_eq_true_iff.mp hcond).1
    · rw [if_neg hcond]
      exact h.moved_inside hx trivial (.of_uses rfl rfl) (.of_uses rfl rfl) rfl (by simp)
  -- Another call may have erased the segment in the meantime.
  | @freeErase _ b hx =>
    by_cases hs : b.segment ∈ st.pool.segments
    · exact h.freeErase_mem hx hs (eraseSegment_erased hs)
    · rw [eraseSegment_of_not_mem hs]
      exact h.moved_inside hx trivial (.of_uses rfl rfl) (.of_uses rfl rfl) rfl (by simp)
  | freeUnlock hx =>
    exact h.moved_quiet hx (.of_uses rfl rfl) (.of_uses rfl rfl)
      (by simp [Pc.Critical]) (hleave hx trivial) (by simp [Pc.uses]) (by simp)

omit [DecidableEq Tid] in
theorem init {params : PoolParams} (h : st.Init params) : ConcInv sys st := by
  obtain ⟨hpool, -, hpc, hlive⟩ := h
  have hsegs : st.pool.segments = [] := by rw [hpool]; rfl
  have hfree : st.pool.freeStack = [] := by rw [hpool]; rfl
  -- There are no segments, so there are no blocks and nothing is in any place.
  refine ⟨by simp [hsegs], by simp [hsegs], by simp [hsegs], by simp [hsegs], fun b => ?_,
    by simp [hsegs], fun t ht => ?_, fun t s hs => ?_, fun t b hb => ?_⟩
  · have hnot : ¬st.IsBlock b := by simp [ConcState.IsBlock, hsegs]
    have htransit : st.inTransit b = 0 := Lib.sum_eq_zero fun t => by rw [hpc t]; rfl
    rw [if_neg hnot]
    simp [ConcState.places, ConcState.freedCount, hsegs, hfree, hlive, htransit]
  · rw [hpc t] at ht
    exact absurd ht (by simp [Pc.Critical])
  · rw [hpc t] at hs
    cases hs
  · rw [hpc t] at hb
    cases hb

end ConcInv

/-- The invariant holds in every reachable state. -/
theorem reachable_concInv [DecidableEq Tid] {sys : System} {params : PoolParams}
    {st : ConcState C Tid}
    (h : Lib.Reachable (ConcState.Init params) (ConcStepOk sys) st) : ConcInv sys st :=
  h.invariant (fun _ => ConcInv.init) fun _ _ _ => ConcInv.step

/-- Every block of every segment in `m_segments` is in exactly one place; a block
about to be returned to a client is not live; and a segment about to be erased
has all its blocks in its freed stack. -/
theorem block_conservation [DecidableEq Tid] {sys : System} {params : PoolParams}
    {st : ConcState C Tid} (h : Lib.Reachable (ConcState.Init params) (ConcStepOk sys) st) :
    (∀ s ∈ st.pool.segments, ∀ b ∈ (st.world.segmentAt s).blocks s st.pool.deviceId,
        st.pool.freeStack.count b + (st.world.segmentAt s).freedStack.count b +
          st.inTransit b + st.live.count b = 1) ∧
      (∀ t b, st.pc t = .allocReturn b → b ∉ st.live) ∧
      ∀ t b, st.pc t = .freeErase b → b.segment ∈ st.pool.segments →
        (st.world.segmentAt b.segment).freedStack.Perm
          ((st.world.segmentAt b.segment).blocks b.segment st.pool.deviceId) := by
  have hinv := reachable_concInv h
  refine ⟨fun s hs b hb => ?_, fun t b hb hlive => ?_, fun t b hb hs => ?_⟩
  · have hseg : b.segment = s := by
      obtain ⟨i, -, rfl⟩ := Segment.mem_blocks.mp hb
      exact Segment.blockAt_segment s _ _ i
    subst hseg
    have hone := hinv.places b
    rw [if_pos ⟨hs, hb⟩] at hone
    rwa [ConcState.places, ConcInv.freedCount_of_mem hs] at hone
  · -- The block would be in two places.
    have hone := hinv.places_le_one b
    have htransit := ConcInv.holds_le_inTransit st t b
    have hpos := List.count_pos_iff.mpr hlive
    rw [hb, Pc.holds, Pc.held, if_pos rfl] at htransit
    rw [ConcState.places] at hone
    omega
  · exact hinv.freed_perm_of_full hs (hinv.erasing t b hb hs).1

theorem block_conservation_threeAllocations :
    ∃ st : ConcState rangeContext Bool, st.pool.segments = [2, 1] ∧
      ∀ s ∈ [2, 1], ∀ b ∈ (st.world.segmentAt s).blocks s st.pool.deviceId,
        st.pool.freeStack.count b + (st.world.segmentAt s).freedStack.count b +
          st.inTransit b + st.live.count b = 1 := by
  obtain ⟨st, hexec, hsegs⟩ : ∃ st, Lib.exec (fun st e => ConcState.advance stubSystem st e.1 e.2)
      threeAllocations twoBlockStart = some st ∧ st.pool.segments = [2, 1] := ⟨_, rfl, rfl⟩
  exact ⟨st, hsegs, hsegs ▸ (block_conservation (reachable_of_schedule hexec)).1⟩

end HwMalloc
