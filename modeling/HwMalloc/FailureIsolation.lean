import HwMalloc.HeapProgress

/-!
# HwMalloc.FailureIsolation

An exception in one pool does not reach the others.

**What is lost.** A pool that was left by an exception under the lock is not what
`ConcInv` says any more: a block may have dropped out of every place, the mutex stays
locked, the counter of a segment may never be reduced.

**What is kept.** Whatever the pool, its threads and its blocks refer to was made for
this pool (`ConcState.Owned`), as long as the exception has left no block of a destroyed
segment on its stack. This holds along all steps, also those that throw, and a step
writes only to segments that the pool refers to (`ConcState.Confined`).

**What follows.** Two pools refer to no common segment, so a step in one of them is
none in the other. The pools in which nothing was thrown keep their invariant
(`ConcState.Sheltered`), with threads that come and go between them and the broken
ones: a client may still return a block of a broken pool, and may never come back from
a call of its `allocate`. `failure_isolated` puts this together.
-/

namespace HwMalloc

variable {C : Context} {Tid : Type}

/-! ### What a failed `add_segment` leaves alone

It may have made a segment object and destroyed it again, under a number that no pool
knows; it may have pushed blocks to `m_free_stack`, and it may leave memory behind. It
does not touch a segment that was there before. -/

/-- What a pool sees of the segments is the same. -/
theorem Untouched.of_eq {segs : List Nat} {w w' : World C} (hseg : w'.segmentAt = w.segmentAt)
    (hnext : w'.nextSegment = w.nextSegment) : Untouched segs w w' where
  nextSegment := hnext.ge
  others := fun s _ _ => by rw [hseg]
  fixed := fun s _ => by rw [hseg]

theorem constructSegment_error_untouched {env : GrowEnv C} {g : Segment C} {w w' : World C}
    {p p' : Pool C} {e : FailurePoint} (h : constructSegment env g w p = (.error e, w', p')) :
    Untouched [] w w' ∧ p' = { p with freeStack := p'.freeStack } := by
  unfold constructSegment at h
  split at h
  · cases h
    exact ⟨.of_eq (by simp) (by simp), rfl⟩
  · split at h
    -- A `get_handle` throws, and the object is destroyed.
    · next e' stack _ =>
      cases h
      -- The object existed, under a number that no pool knows.
      refine ⟨⟨?_, fun s hs _ => ?_, fun s hs => ?_⟩, rfl⟩
      · simp
      · simp [World.addSegmentObject, hs.ne]
      · simp [World.addSegmentObject, hs.ne]
    · cases h

/-- What a failed `add_segment` can leave behind: the memory of one segment, which
nobody owns. -/
inductive LostMemory (sys : System) (params : PoolParams) : List Resource → Prop
  | nothing : LostMemory sys params []
  | host {a : Allocation} : a.size = segmentBytes sys params.segmentSize →
      LostMemory sys params [a.resource]
  | device {a : Allocation} {ptr : Nat} : params.allocateOnDevice = true →
      a.size = segmentBytes sys params.segmentSize →
      LostMemory sys params [.device ptr a.size, a.resource]

/-- A failed `add_segment` changes no segment there is, and nothing of the pool but
`m_free_stack`; it leaves the memory `lost` behind. -/
structure FailedGrowth (sys : System) (lost : List Resource) (w : World C) (p : Pool C)
    (w' : World C) (p' : Pool C) : Prop where
  untouched : Untouched [] w w'
  pool : p' = { p with freeStack := p'.freeStack }
  memory : LostMemory sys p.toPoolParams lost
  outstanding : w'.outstanding.Perm (lost ++ w.outstanding)
  misreleases : w'.misreleases = w.misreleases

theorem addHostSegment_failed {sys : System} {env : GrowEnv C} {a : Allocation} {w w' : World C}
    {p p' : Pool C} {e : FailurePoint} (hptr : a.ptr ≠ 0)
    (hsize : a.size = segmentBytes sys p.segmentSize)
    (h : addHostSegment env a (w.acquire a.resource) p = (.error e, w', p')) :
    ∃ lost, FailedGrowth sys lost w p w' p' := by
  unfold addHostSegment at h
  cases hr : env.registerMemory with
  -- The registration throws, and nobody owns the memory.
  | none =>
    rw [hr] at h
    cases h
    exact ⟨_, .of_eq rfl rfl, rfl, .host hsize, .refl _, rfl⟩
  -- From here on the segment owns all there is, and gives it back.
  | some r =>
    rw [hr] at h
    have hperm : ((w.acquire a.resource).acquire (.registration r.key)).outstanding.Perm
        ((newSegment p a r 0 none).resources ++ w.outstanding) := by
      simp [Segment.resources, newSegment, hptr]
    obtain ⟨hout, hmis, -, -, -⟩ := constructSegment_error hperm h
    obtain ⟨huntouched, hpool⟩ := constructSegment_error_untouched h
    have hbefore : Untouched [] w ((w.acquire a.resource).acquire (.registration r.key)) :=
      .of_eq rfl rfl
    exact ⟨_, hbefore.trans huntouched, hpool, .nothing, hout, hmis⟩

theorem addDeviceSegment_failed {sys : System} {env : GrowEnv C} {a : Allocation}
    {w w' : World C} {p p' : Pool C} {e : FailurePoint} (hdev : p.allocateOnDevice = true)
    (hptr : a.ptr ≠ 0) (hsize : a.size = segmentBytes sys p.segmentSize)
    (h : addDeviceSegment env a (w.acquire a.resource) p = (.error e, w', p')) :
    ∃ lost, FailedGrowth sys lost w p w' p' := by
  unfold addDeviceSegment at h
  cases hm : env.deviceMalloc with
  -- There is no device memory yet.
  | none =>
    rw [hm] at h
    cases h
    exact ⟨_, .of_eq rfl rfl, rfl, .host hsize, .refl _, rfl⟩
  | some devicePtr =>
    rw [hm] at h
    dsimp only at h
    cases hreg : registerBoth env
        (((w.acquire a.resource).setDeviceId p.deviceId).acquireDevice devicePtr a.size) with
    | mk res w₁ =>
      rw [hreg] at h
      cases res with
      | error e' =>
        -- The device memory stays behind, if there is any, and the host memory.
        cases h
        obtain ⟨rfl, -⟩ := registerBoth_error hreg
        have hsame : Untouched [] w (((w.acquire a.resource).setDeviceId p.deviceId).acquireDevice
            devicePtr a.size) := .of_eq (by simp) (by simp)
        by_cases hz : devicePtr = 0
        · exact ⟨[a.resource], hsame, rfl, .host hsize,
            by simp [World.acquireDevice_outstanding, hz], by simp⟩
        · exact ⟨[.device devicePtr a.size, a.resource], hsame, rfl, .device hdev hsize,
            by simp [World.acquireDevice_outstanding, hz], by simp⟩
      | ok rd =>
        obtain ⟨r, d⟩ := rd
        dsimp only at h
        obtain ⟨hregOut, hregMis, hseg, hnext, -⟩ := registerBoth_outstanding hreg
        have hout := hregOut.trans (deviceResources_perm (p := p) (r := r) (d := d) hptr)
        have hbefore : Untouched [] w w₁ := .of_eq (by simp [hseg]) (by simp [hnext])
        cases hcons : constructSegment env (newSegment p a r devicePtr (some d)) w₁ p with
        | mk res rest =>
          rw [hcons] at h
          cases res with
          | ok u => cases h
          | error e' =>
            cases h
            obtain ⟨hout', hmis', -, -, -⟩ := constructSegment_error hout hcons
            obtain ⟨huntouched, hpool⟩ := constructSegment_error_untouched hcons
            exact ⟨_, hbefore.trans huntouched, hpool, .nothing, hout', by simp [hmis', hregMis]⟩

/-- What is left behind is the memory of at most one segment. -/
theorem addSegment_failed {sys : System} {env : GrowEnv C} {w w' : World C} {p p' : Pool C}
    {e : FailurePoint} (h : addSegment sys env w p = (.error e, w', p')) :
    ∃ lost, FailedGrowth sys lost w p w' p' := by
  have hclean : FailedGrowth sys [] w p w p :=
    ⟨.refl _ _, rfl, .nothing, .refl _, rfl⟩
  rw [addSegment] at h
  rcases numaAllocate_spec sys env.numa (numPages sys p.segmentSize) p.numaNode w with
    hnull | ⟨a, hptr, hsize, halloc⟩
  · -- There is no memory.
    rw [hnull] at h
    dsimp only at h
    rw [checkAllocation, if_pos rfl] at h
    cases h
    exact ⟨[], hclean⟩
  · rw [halloc] at h
    dsimp only at h
    cases hcheck : checkAllocation a p.numaNode (w.acquire a.resource) with
    | mk res w₁ =>
      rw [hcheck] at h
      cases res with
      | error e' =>
        -- The allocation on the wrong node is freed before the exception.
        cases h
        rw [checkAllocation, if_neg hptr, numaFree_acquire w hptr] at hcheck
        split at hcheck
        · cases hcheck
          exact ⟨[], hclean⟩
        · cases hcheck
      | ok a' =>
        obtain ⟨rfl, rfl, -, -⟩ := checkAllocation_ok hcheck
        dsimp only at h
        cases hdev : p.allocateOnDevice with
        | true =>
          rw [hdev, if_pos rfl] at h
          exact addDeviceSegment_failed hdev hptr hsize h
        | false =>
          rw [hdev, if_neg Bool.false_ne_true] at h
          exact addHostSegment_failed hptr hsize h

/-! ### What a pool refers to

By what the numbers of segments can be found: `m_segments`, the blocks on
`m_free_stack`, with clients and in the hands of threads, and the loops. -/

namespace ConcState

/-- The pool, one of its threads, or a block of it refers to the segment. -/
inductive RefersTo (st : ConcState C Tid) : Nat → Prop
  | segment {s : Nat} : s ∈ st.pool.segments → RefersTo st s
  | free {b : Block C} : b ∈ st.pool.freeStack → RefersTo st b.segment
  | live {b : Block C} : b ∈ st.live → RefersTo st b.segment
  | held {t : Tid} {b : Block C} : (st.pc t).held = some b → RefersTo st b.segment
  | uses {t : Tid} {s : Nat} : s ∈ (st.pc t).uses → RefersTo st s

/-- All of that was made for this pool. -/
structure Owned (st : ConcState C Tid) : Prop where
  lt : ∀ s, st.RefersTo s → s < st.world.nextSegment
  pool : ∀ s, st.RefersTo s → (st.world.segmentAt s).pool = st.pool.self
  freed : ∀ s, st.RefersTo s → ∀ b ∈ (st.world.segmentAt s).freedStack, b.segment = s

/-- What a step in one pool does to the others: it writes to segments of its own. -/
structure Confined (st st' : ConcState C Tid) : Prop where
  self : st'.pool.self = st.pool.self
  params : st'.pool.toPoolParams = st.pool.toPoolParams
  world : ∃ segs, (∀ s ∈ segs, st.RefersTo s) ∧ Untouched segs st.world st'.world

namespace Owned

variable {st st₁ : ConcState C Tid}

theorem of_empty (hsegs : st.pool.segments = []) (hfree : st.pool.freeStack = [])
    (hlive : st.live = []) (hpc : ∀ t, st.pc t = .idle) : st.Owned := by
  have hnone : ∀ s, ¬st.RefersTo s := by
    intro s hs
    cases hs with
    | segment h => simp [hsegs] at h
    | free h => simp [hfree] at h
    | live h => simp [hlive] at h
    | held h => simp [hpc, Pc.held] at h
    | uses h => simp [hpc, Pc.uses] at h
  exact ⟨fun s hs => absurd hs (hnone s), fun s hs => absurd hs (hnone s),
    fun s hs => absurd hs (hnone s)⟩

/-- A world that keeps what was made for the pool. -/
theorem of_refersTo (h : st.Owned) {segs : List Nat} (hu : Untouched segs st.world st₁.world)
    (hself : st₁.pool.self = st.pool.self) (hsub : ∀ s, st₁.RefersTo s → st.RefersTo s)
    (hfreed : ∀ s, st.RefersTo s → ∀ b ∈ (st₁.world.segmentAt s).freedStack, b.segment = s) :
    st₁.Owned where
  lt := fun s hs => lt_of_lt_of_le (h.lt s (hsub s hs)) hu.nextSegment
  pool := fun s hs => by
    have hs' := hsub s hs
    have hpool := congrArg Segment.pool (hu.fixed s (h.lt s hs'))
    exact hpool.trans ((h.pool s hs').trans hself.symm)
  freed := fun s hs => hfreed s (hsub s hs)

/-- Another pool has written to segments of its own. -/
theorem frame (h : st.Owned) {segs : List Nat} {w : World C} (hu : Untouched segs st.world w)
    (hout : ∀ s ∈ segs, (st.world.segmentAt s).pool ≠ st.pool.self) :
    ({ st with world := w } : ConcState C Tid).Owned := by
  refine h.of_refersTo hu rfl (fun s hs => ?_) fun s hs => ?_
  · cases hs with
    | segment h => exact .segment h
    | free h => exact .free h
    | live h => exact .live h
    | held h => exact .held h
    | uses h => exact .uses h
  · show ∀ b ∈ (w.segmentAt s).freedStack, b.segment = s
    rw [hu.others s (h.lt s hs) fun hmem => hout s hmem (h.pool s hs)]
    exact h.freed s hs

end Owned

section

variable [DecidableEq Tid] {st st₁ : ConcState C Tid} {t : Tid} {x : Pc C}

/-- After a move, what was referred to before, and where the thread stands now. -/
theorem refersTo_setPc (st : ConcState C Tid) {P : Nat → Prop} (hpc : st₁.pc = st.pc)
    (hsegs : ∀ s ∈ st₁.pool.segments, P s) (hfree : ∀ b ∈ st₁.pool.freeStack, P b.segment)
    (hlive : ∀ b ∈ st₁.live, P b.segment) (hold : ∀ s, st.RefersTo s → P s)
    (hheld : ∀ b, x.held = some b → P b.segment) (huses : ∀ s ∈ x.uses, P s) :
    ∀ s, (st₁.setPc t x).RefersTo s → P s := by
  intro s hs
  cases hs with
  | segment h => exact hsegs s h
  | free h => exact hfree _ h
  | live h => exact hlive _ h
  | @held u b h =>
    by_cases hu : u = t
    · rw [hu, setPc_pc_self] at h
      exact hheld b h
    · rw [setPc_pc_ne _ _ _ hu, hpc] at h
      exact hold _ (.held h)
  | @uses u s h =>
    by_cases hu : u = t
    · rw [hu, setPc_pc_self] at h
      exact huses s h
    · rw [setPc_pc_ne _ _ _ hu, hpc] at h
      exact hold _ (.uses h)

/-- The thread moves, and the world stays. -/
theorem Owned.moved (h : st.Owned) (hpc : st₁.pc = st.pc) (hworld : st₁.world = st.world)
    (hself : st₁.pool.self = st.pool.self) (hsegs : ∀ s ∈ st₁.pool.segments, st.RefersTo s)
    (hfree : ∀ b ∈ st₁.pool.freeStack, st.RefersTo b.segment)
    (hlive : ∀ b ∈ st₁.live, st.RefersTo b.segment)
    (hheld : ∀ b, x.held = some b → st.RefersTo b.segment)
    (huses : ∀ s ∈ x.uses, st.RefersTo s) : (st₁.setPc t x).Owned := by
  have hu : Untouched [] st.world (st₁.setPc t x).world := by
    rw [setPc_world, hworld]
    exact .refl _ _
  refine h.of_refersTo hu hself
    (refersTo_setPc st hpc hsegs hfree hlive (fun _ h => h) hheld huses) ?_
  rw [setPc_world, hworld]
  exact h.freed

/-- The thread moves, and has written to the segment `s`. -/
theorem Owned.modified (h : st.Owned) {s : Nat} {f : Segment C → Segment C}
    (hs : st.RefersTo s) (hf : ∀ g, (f g).fixed = g.fixed)
    (hfreed : ∀ b ∈ (f (st.world.segmentAt s)).freedStack, b.segment = s)
    (hheld : ∀ b, x.held = some b → st.RefersTo b.segment)
    (huses : ∀ s ∈ x.uses, st.RefersTo s) :
    ((st.modifySegment s f).setPc t x).Owned ∧
      st.Confined ((st.modifySegment s f).setPc t x) := by
  have hu : Untouched [s] st.world (st.world.modifySegment s f) :=
    .of_modifySegment List.mem_cons_self hf
  refine ⟨h.of_refersTo hu rfl (refersTo_setPc st rfl (fun _ h => .segment h) (fun _ h => .free h)
    (fun _ h => .live h) (fun _ h => h) hheld huses) fun s' hs' => ?_, rfl, rfl, [s], ?_, hu⟩
  · show ∀ b ∈ ((st.world.modifySegment s f).segmentAt s').freedStack, b.segment = s'
    rw [World.modifySegment_segmentAt]
    split
    · next heq =>
      subst heq
      exact hfreed
    · exact h.freed s' hs'
  · intro s' hs'
    rwa [List.mem_singleton.mp hs']

/-- A move without a write to a segment. -/
theorem Confined.of_world (hself : st₁.pool.self = st.pool.self)
    (hparams : st₁.pool.toPoolParams = st.pool.toPoolParams) (hworld : st₁.world = st.world) :
    st.Confined (st₁.setPc t x) :=
  ⟨hself, hparams, [], by simp, by rw [setPc_world, hworld]; exact .refl _ _⟩

/-- The thread moves, and nothing else that a segment could be found by. -/
theorem Owned.moved_same (h : st.Owned) {m : Option Tid}
    (hheld : ∀ b, x.held = some b → st.RefersTo b.segment)
    (huses : ∀ s ∈ x.uses, st.RefersTo s) :
    ({ st with mutex := m }.setPc t x).Owned ∧
      st.Confined ({ st with mutex := m }.setPc t x) :=
  ⟨h.moved rfl rfl rfl (fun _ hs => .segment hs) (fun _ hb => .free hb) (fun _ hb => .live hb)
    hheld huses, .of_world rfl rfl rfl⟩

/-- A new segment is the pool's. -/
theorem Owned.grown (h : st.Owned) {g : Segment C} {w : World C} {p : Pool C}
    (hgrown : Grown st.world st.pool g w p) (hpool : g.pool = st.pool.self)
    (hfreed : g.freedStack = []) (hheld : x.held = none) (huses : x.uses = []) :
    ({ st with world := w, pool := p }.setPc t x).Owned ∧
      st.Confined ({ st with world := w, pool := p }.setPc t x) := by
  have hcases : ∀ s, ({ st with world := w, pool := p }.setPc t x).RefersTo s →
      s = st.world.nextSegment ∨ st.RefersTo s := by
    refine refersTo_setPc st rfl (fun s hs => ?_) (fun b hb => ?_) (fun b hb => .inr (.live hb))
      (fun s hs => .inr hs) (by simp [hheld]) (by simp [huses])
    · exact (hgrown.mem_segments.mp hs).imp_right .segment
    · replace hb : b ∈ p.freeStack := hb
      rw [hgrown.pool] at hb
      rcases List.mem_append.mp hb with hb | hb
      · obtain ⟨i, -, rfl⟩ := Segment.mem_blocks.mp hb
        exact .inl (Segment.blockAt_segment _ _ _ i)
      · exact .inr (.free hb)
  have hself : p.self = st.pool.self := by rw [hgrown.pool]
  -- Each part once for the new segment and once for those there were.
  refine ⟨⟨fun s hs => ?_, fun s hs => ?_, fun s hs => ?_⟩, hself, ?_, [], by simp,
    .of_grown hgrown⟩
  · show s < w.nextSegment
    rw [hgrown.nextSegment]
    rcases hcases s hs with rfl | hs
    · exact Nat.lt_succ_self _
    · exact Nat.lt_succ_of_lt (h.lt s hs)
  · show (w.segmentAt s).pool = p.self
    rcases hcases s hs with rfl | hs
    · rw [hgrown.segmentAt_new, hpool, hself]
    · rw [hgrown.segmentAt_old (h.lt s hs).ne, h.pool s hs, hself]
  · show ∀ b ∈ (w.segmentAt s).freedStack, b.segment = s
    rcases hcases s hs with rfl | hs
    · rw [hgrown.segmentAt_new, hfreed]
      simp
    · rw [hgrown.segmentAt_old (h.lt s hs).ne]
      exact h.freed s hs
  · show p.toPoolParams = st.pool.toPoolParams
    rw [hgrown.pool]

omit [DecidableEq Tid] in
/-- The stack of a segment goes away with it. -/
theorem eraseSegment_freedStack {s : Nat} {w : World C} {p : Pool C} (hs : s ∈ p.segments) :
    ((p.eraseSegment s w).1.segmentAt s).freedStack = [] := by
  unfold Pool.eraseSegment Pool.erase
  split <;> simp [destroySegment_segmentAt]

/-- The erasure of a segment of the pool. -/
theorem Owned.erased (h : st.Owned) {s : Nat} (hs : s ∈ st.pool.segments) (hheld : x.held = none)
    (huses : x.uses = []) {w : World C} {p : Pool C} (hw : (st.pool.eraseSegment s st.world).1 = w)
    (hp : (st.pool.eraseSegment s st.world).2 = p) :
    ({ st with world := w, pool := p }.setPc t x).Owned ∧
      st.Confined ({ st with world := w, pool := p }.setPc t x) := by
  have herased := eraseSegment_erased (w := st.world) hs
  have hu : Untouched [s] st.world w := hw ▸ .of_eraseSegment List.mem_cons_self
  rw [hw, hp] at herased
  refine ⟨h.of_refersTo hu ?_ (refersTo_setPc st rfl ?_ ?_ (fun _ hb => .live hb) (fun _ hs => hs)
    (by simp [hheld]) (by simp [huses])) (fun s' hs' => ?_), ?_, ?_, [s], ?_, hu⟩
  · rw [setPc_pool, herased.pool]
  · rw [herased.pool]
    exact fun _ hs' => .segment (List.mem_of_mem_erase hs')
  · rw [herased.pool]
    exact fun _ hb => .free hb
  · show ∀ b ∈ (w.segmentAt s').freedStack, b.segment = s'
    by_cases hne : s' = s
    · rw [hne, ← hw, eraseSegment_freedStack hs]
      simp
    · rw [herased.segmentAt s' hne]
      exact h.freed s' hs'
  · rw [setPc_pool, herased.pool]
  · rw [setPc_pool, herased.pool]
  · intro s' hs'
    rw [List.mem_singleton.mp hs']
    exact .segment hs

/-- A step of a pool, also one that throws, stays within what the pool owns, if
an exception leaves no block of a destroyed segment behind. -/
theorem Owned.step {st' : ConcState C Tid} {sys : System} {l : Label Tid} (h : st.Owned)
    (hstep : ConcStep sys st l st')
    (hstack : ∀ t, l = .throws t → st'.pool.freeStack = st.pool.freeStack) :
    st'.Owned ∧ st.Confined st' := by
  have hleave : ∀ {m : Option Tid} {t : Tid} {x : Pc C}, x.held = none → x.uses = [] →
      ({ st with mutex := m }.setPc t x).Owned ∧
        st.Confined ({ st with mutex := m }.setPc t x) := by
    intro m t x hheld huses
    exact h.moved_same (by simp [hheld]) (by simp [huses])
  cases hstep with
  | callAllocate _ => exact hleave rfl rfl
  -- The block was on the free stack.
  | @pop t next b p hx hpop =>
    have hpopped := popFree_eq_some hpop
    obtain ⟨-, hnext⟩ := Pc.onPop_spec hx
    obtain ⟨hheld, -, -, huses, -, -⟩ := hnext b
    have hb : st.RefersTo b.segment := .free (by rw [hpopped.freeStack]; exact List.mem_cons_self)
    refine ⟨h.moved rfl rfl ?_ ?_ ?_ (fun _ hb => .live hb) ?_ (by simp [huses]),
      .of_world ?_ ?_ rfl⟩
    · rw [hpopped.pool]
    · rw [hpopped.pool]
      exact fun _ hs => .segment hs
    · intro b' hb'
      refine .free ?_
      rw [hpopped.freeStack]
      exact List.mem_cons_of_mem _ hb'
    · intro b' hb'
      rw [hheld] at hb'
      cases hb'
      exact hb
    · rw [hpopped.pool]
    · rw [hpopped.pool]
  -- What the loop is going to meet are segments of the pool.
  | @popEmpty t order x hx _ horder =>
    obtain ⟨-, hquiet, huses, -, -⟩ := Pc.onEmpty_spec hx
    exact h.moved_same (by simp [hquiet.held]) fun s hs => .segment (horder.mem_iff.mp (huses s hs))
  | allocLock _ _ => exact hleave rfl rfl
  -- A freed stack holds blocks of its segment, so the block refers to the segment that
  -- the loop is at.
  | @collectPop t s todo n b rest hx hfreed =>
    have hs : ∀ s' ∈ s :: todo, st.RefersTo s' := fun s' hs' => .uses (by rw [hx]; exact hs')
    have hown := h.freed s (hs s List.mem_cons_self)
    rw [hfreed] at hown
    refine h.modified (hs s List.mem_cons_self) (fun _ => rfl) (fun b' hb' => ?_)
      (fun b' hb' => ?_) hs
    · rw [Segment.popFreed, hfreed] at hb'
      exact hown b' (List.mem_cons_of_mem _ hb')
    · cases hb'
      rw [hown b List.mem_cons_self]
      exact hs s List.mem_cons_self
  | @collectEmpty t s todo n hx _ =>
    exact h.moved_same (by simp [Pc.held]) fun s' hs' => .uses (by rw [hx]; exact hs')
  | @collectPush t b s todo n hx =>
    refine ⟨h.moved rfl rfl rfl (fun _ hs => .segment hs) (fun b' hb' => ?_)
      (fun _ hb => .live hb) (by simp [Pc.held]) (fun s' hs' => .uses (by rw [hx]; exact hs')),
      .of_world rfl rfl rfl⟩
    rcases List.mem_cons.mp hb' with rfl | hb'
    · exact .held (by rw [hx]; rfl)
    · exact .free hb'
  | @collectSub t s todo n hx =>
    have hs : ∀ s' ∈ s :: todo, st.RefersTo s' := fun s' hs' => .uses (by rw [hx]; exact hs')
    obtain ⟨hquiet, huses, -⟩ := Pc.collectNext_spec (C := C) todo
    refine h.modified (hs s List.mem_cons_self) (fun _ => rfl)
      (h.freed s (hs s List.mem_cons_self)) (by simp [hquiet.held]) ?_
    rw [huses]
    exact fun s' hs' => hs s' (List.mem_cons_of_mem _ hs')
  -- The thread drops what it held and was going to do; the pool then refers to less.
  | collectThrows _ => exact hleave rfl rfl
  | grow _ hadd =>
    obtain ⟨g, hnew, hgrown⟩ := addSegment_ok hadd
    exact h.grown hgrown hnew.pool hnew.freedStack rfl rfl
  -- Here it matters that no block of a destroyed segment stays on the free stack.
  | @growThrows t counter env w p e _ hadd =>
    obtain ⟨lost, huntouched, hpool, -, -, -⟩ := addSegment_failed hadd
    have hfree : p.freeStack = st.pool.freeStack := hstack t rfl
    rw [hfree] at hpool
    refine ⟨h.of_refersTo huntouched ?_ (refersTo_setPc st rfl ?_ ?_ (fun _ hb => .live hb)
      (fun _ hs => hs) (by simp [Pc.held]) (by simp [Pc.uses])) ?_, ?_, ?_, [], by simp, huntouched⟩
    · rw [setPc_pool, hpool]
    · rw [hpool]
      exact fun _ hs => .segment hs
    · rw [hpool]
      exact fun _ hb => .free hb
    · intro s hs
      rw [setPc_world, huntouched.others s (h.lt s hs) (by simp)]
      exact h.freed s hs
    · rw [setPc_pool, hpool]
    · rw [setPc_pool, hpool]
  -- From the thread to the client, and back.
  | @allocUnlock t b hx =>
    refine h.moved_same (fun b' hb' => .held (?_ : (st.pc t).held = some b')) (by simp [Pc.uses])
    rw [hx]
    exact hb'
  | @allocReturn t b hx =>
    refine ⟨h.moved rfl rfl rfl (fun _ hs => .segment hs) (fun _ hb => .free hb)
      (fun b' hb' => ?_) (by simp [Pc.held]) (by simp [Pc.uses]), .of_world rfl rfl rfl⟩
    rcases List.mem_cons.mp hb' with rfl | hb'
    · exact .held (by rw [hx]; rfl)
    · exact .live hb'
  | @callFree t b _ hb =>
    refine ⟨h.moved rfl rfl rfl (fun _ hs => .segment hs) (fun _ hb => .free hb)
      (fun b' hb' => .live (List.mem_of_mem_erase hb')) (fun b' hb' => ?_) (by simp [Pc.uses]),
      .of_world rfl rfl rfl⟩
    cases hb'
    exact .live hb
  -- The thread writes to the segment of its block.
  | @freePush t b hx =>
    have hs : st.RefersTo b.segment := .held (by rw [hx]; rfl)
    refine h.modified hs (fun _ => rfl) (fun b' hb' => ?_) (by simp [Pc.held]) (fun s' hs' => ?_)
    · rcases List.mem_cons.mp hb' with rfl | hb'
      · rfl
      · exact h.freed _ hs b' hb'
    · rw [List.mem_singleton.mp hs']
      exact hs
  | @freeInc t b hx =>
    have hs : st.RefersTo b.segment := .uses (by rw [hx]; exact List.mem_cons_self)
    refine h.modified hs (fun _ => rfl) (h.freed _ hs) ?_ ?_
    · split <;> simp [Pc.held]
    · split <;> simp [Pc.uses]
  | freeTest _ _ => exact hleave (by split <;> rfl) (by split <;> rfl)
  | freeLock _ _ => exact hleave rfl rfl
  | freeRecheck _ _ => exact hleave (by split <;> rfl) (by split <;> rfl)
  | @freeErase t b hx =>
    by_cases hs : b.segment ∈ st.pool.segments
    · exact h.erased hs rfl rfl rfl rfl
    · rw [eraseSegment_of_not_mem hs]
      exact hleave rfl rfl
  | freeUnlock _ => exact hleave rfl rfl

end

end ConcState

/-! ### Healthy pools, and others

`healthy` is a parameter: the pools in which nothing is thrown along the run. -/

/-- What all pools keep, and what the healthy ones keep besides. -/
structure ConcState.Sheltered [Fintype Tid] (sys : System) (healthy : Prop)
    (st : ConcState C Tid) : Prop where
  owned : st.Owned
  inv : healthy → ConcInv sys st
  inside : healthy → st.mutexState.Sound

namespace ConcState.Sheltered

variable [Fintype Tid] {sys : System} {healthy : Prop} {st st' : ConcState C Tid}

theorem init {params : PoolParams} (h : st.Init params) : st.Sheltered sys healthy where
  owned := by
    obtain ⟨hpool, -, hpc, hlive⟩ := h
    refine .of_empty ?_ ?_ hlive hpc
    · rw [hpool]
      rfl
    · rw [hpool]
      rfl
  inv := fun _ => ConcInv.init h
  inside := fun _ t ht => by
    obtain ⟨-, hmutex, -, -⟩ := h
    cases hmutex.symm.trans ht

/-- A step of another pool, which has written to segments of its own. -/
theorem frame (h : st.Sheltered sys healthy) {segs : List Nat} {w : World C}
    (hu : Untouched segs st.world w)
    (hout : ∀ s ∈ segs, (st.world.segmentAt s).pool ≠ st.pool.self) :
    ({ st with world := w } : ConcState C Tid).Sheltered sys healthy where
  owned := h.owned.frame hu hout
  inv := fun hok => by
    refine (h.inv hok).frame hu.nextSegment fun s hs => ?_
    have hs' : st.RefersTo s := .segment hs
    exact hu.others s (h.owned.lt s hs') fun hmem => hout s hmem (h.owned.pool s hs')
  inside := h.inside

theorem step [DecidableEq Tid] {l : Label Tid} (h : st.Sheltered sys healthy)
    (hstep : ConcStep sys st l st') (hok : healthy → ∃ t, l = .normal t)
    (hstack : ∀ t, l = .throws t → st'.pool.freeStack = st.pool.freeStack) :
    st'.Sheltered sys healthy ∧ st.Confined st' := by
  obtain ⟨howned, hconfined⟩ := h.owned.step hstep hstack
  exact ⟨⟨howned, fun hid => (h.inv hid).step ⟨hok hid, hstep⟩,
    fun hid => concStep_sound ⟨hok hid, hstep⟩ (h.inside hid)⟩, hconfined⟩

end ConcState.Sheltered

/-! ### The heap, with exceptions in the other pools

A thread is in at most one pool at a time, so a step of the heap is a step in one pool
and changes nothing but the world for the others. -/

section

variable [DecidableEq Tid]

/-- Exceptions are thrown in calls. -/
theorem ConcStep.busy_of_throws {sys : System} {st st' : ConcState C Tid} {t : Tid}
    (h : ConcStep sys st (.throws t) st') : st.pc t ≠ .idle := by
  intro hidle
  cases h with
  | collectThrows hx => rwa [hidle] at hx
  | growThrows hx _ => cases hidle.symm.trans hx

/-- Nothing is thrown in the pools `healthy`, and an exception in another one leaves
no block of a segment that it has destroyed on a free stack. -/
def FailsOutside (sys : System) (healthy : Set PoolId) (st : ConcHeap C Tid) (l : Label Tid)
    (st' : ConcHeap C Tid) : Prop :=
  ConcHeapStep sys st l st' ∧ ∀ t, l = .throws t →
    (∀ id ∈ healthy, (st.pc t).within id = .idle) ∧
      ∀ id, (st'.data id).freeStack = (st.data id).freeStack

theorem FailsOutside.mono {sys : System} {healthy healthy' : Set PoolId} {st st' : ConcHeap C Tid}
    {l : Label Tid} (hsub : healthy' ⊆ healthy) (h : FailsOutside sys healthy st l st') :
    FailsOutside sys healthy' st l st' :=
  ⟨h.1, fun t ht => ⟨fun id hid => (h.2 t ht).1 id (hsub hid), (h.2 t ht).2⟩⟩

/-- Before the first exception. -/
theorem failsOutside_of_schedule {sys : System} {healthy : Set PoolId} {st st' : ConcHeap C Tid}
    {es : List (Tid × HeapChoice C)}
    (h : Lib.exec (fun st e => st.advance sys e.1 e.2) es st = some st') :
    Lib.Run (FailsOutside sys healthy) st (es.map fun e => .normal e.1) st' := by
  refine (Lib.run_of_exec h).map fun st e st' hstep => ?_
  exact ⟨(ConcHeap.advance_sound hstep).2, fun t ht => by cases ht⟩

end

/-- The invariant of these runs. -/
structure FailureInv [Fintype Tid] (sys : System) (c : HeapConfig) (healthy : Set PoolId)
    (st : ConcHeap C Tid) : Prop extends st.Pools fun id => (·.Sheltered sys (id ∈ healthy)) where
  heap : st.heap.WellFormed sys.topo c
  mutex_inside : st.mutexState.Sound
  sound : ∀ t, (st.pc t).Sound st.heap

namespace FailureInv

variable [Fintype Tid] {sys : System} {c : HeapConfig} {healthy : Set PoolId}
  {st st' : ConcHeap C Tid}

theorem init (h : st.Init sys c) : FailureInv sys c healthy st := by
  refine ⟨.init h fun _ _ _ => .init, ?_, fun t ht => ?_, fun t => ?_⟩
  · rw [h.heap]
    exact Heap.heap_wellFormed
  · cases h.mutex.symm.trans ht
  · rw [h.pc t]
    trivial

/-- A block that a client holds is a block of the pool under which it holds it. -/
theorem live_segment (h : FailureInv sys c healthy st) {id : PoolId} {b : Block C}
    (hb : b ∈ st.live id) : (∃ params, st.heap.params? id = some params) ∧
      (st.world.segmentAt b.segment).pool = id := by
  cases hparams : st.heap.params? id with
  | none =>
    rw [(h.absent id hparams).2.1] at hb
    cases hb
  | some params => exact ⟨⟨params, rfl⟩, (h.pool id params hparams).owned.pool _ (.live hb)⟩

variable [DecidableEq Tid]

/-- A step in the pool `id`, which may throw if that is not a healthy one. -/
theorem put (h : FailureInv sys c healthy st) {l : Label Tid} {id : PoolId} {params : PoolParams}
    {st₁ : ConcState C Tid} (hparams : st.heap.params? id = some params)
    (hout : ∀ id', id' ≠ id → (st.pc l.thread).within id' = .idle)
    (hstep : ConcStep sys (st.view id params) l st₁) (hok : id ∈ healthy → ∃ t, l = .normal t)
    (hstack : ∀ t, l = .throws t → st₁.pool.freeStack = (st.data id).freeStack) :
    (st.put id l.thread st₁).Pools fun id => (·.Sheltered sys (id ∈ healthy)) := by
  obtain ⟨hsheltered, hself, hparams₁, segs, hsegs, hu⟩ :=
    (h.pool id params hparams).step hstep hok hstack
  refine h.toPools.put hparams hout hparams₁ hself (fun u hu => concStep_pc_ne hstep hu)
    hsheltered fun id' params' hid hsome => ?_
  -- What the step has written to was made for the pool of the step.
  refine (h.pool id' params' hsome).frame hu fun s hs hpool => hid ?_
  exact hpool.symm.trans ((h.pool id params hparams).owned.pool s (hsegs s hs))

theorem step {l : Label Tid} (h : FailureInv sys c healthy st)
    (hstep : FailsOutside sys healthy st l st') : FailureInv sys c healthy st' := by
  obtain ⟨hstep, hthrows⟩ := hstep
  obtain ⟨m, hm, hmutex⟩ := concHeapStep_mutex hstep
  have hinside := h.mutex_inside.step hm hmutex
  have hsound := concHeapStep_sound h.heap h.sound hstep
  rcases concHeapStep_cases hstep fun id b hb => h.live_segment hb with
    ⟨heap, m, x, -, hheap, hold, hnew, rfl⟩ | ⟨id, params, st₁, hparams, hout, hpool, rfl⟩
  -- Outside the pools: the tables may have a new entry, whose pools are empty.
  · exact ⟨h.toPools.moved hheap hold hnew fun _ _ _ _ => .init, h.heap.of_hugeEntry hheap, hinside,
      hsound⟩
  -- In a pool: if the step throws, the thread was in this pool, so it is no healthy one.
  · refine ⟨h.put hparams hout hpool (fun hid => ?_) fun t hl => ?_, h.heap, hinside, hsound⟩
    · cases l with
      | normal t => exact ⟨t, rfl⟩
      | throws t => exact absurd ((hthrows t rfl).1 id hid) hpool.busy_of_throws
    · have hstack := (hthrows t hl).2 id
      simpa [ConcHeap.put] using hstack

omit [DecidableEq Tid] in
/-- Threads are in pools that exist. -/
theorem params?_of_inPool (h : FailureInv sys c healthy st) {t : Tid} {id : PoolId} {x : Pc C}
    (hx : st.pc t = .inPool id x) :
    (st.pc t).within id ≠ .idle ∧ ∃ params, st.heap.params? id = some params := by
  have hne := h.sound t
  rw [hx] at hne
  have hbusy : (st.pc t).within id ≠ .idle := by
    rw [hx, HeapPc.within, if_pos rfl]
    exact hne
  refine ⟨hbusy, ?_⟩
  cases hparams : st.heap.params? id with
  | some params => exact ⟨params, rfl⟩
  | none => exact absurd ((h.absent id hparams).2.2.2 t) hbusy

/-- A thread that is in no broken pool can go on, or waits for one that can. -/
theorem canStep_or_waits (h : FailureInv sys c healthy st) {t : Tid} (hbusy : st.pc t ≠ .idle)
    (hout : ∀ id, id ∉ healthy → (st.pc t).within id = .idle) :
    st.CanStep sys t ∨ ∃ u, st.WaitsFor t u ∧ st.CanStep sys u := by
  rcases ConcHeap.canStep_or_waits hbusy (h.sound t) fun _ _ hx => (h.params?_of_inPool hx).2 with
    hstep | ⟨u, hw⟩
  · exact .inl hstep
  · refine .inr ⟨u, hw, ?_⟩
    cases hw with
    | heap _ hm => exact ConcHeap.canStep_of_critical (h.mutex_inside u hm)
    | @pool id x hx _ hm =>
      obtain ⟨hin, params, hparams⟩ := h.params?_of_inPool hx
      have hhealthy : id ∈ healthy := by
        by_contra hid
        exact hin (hout id hid)
      exact ConcHeap.canStep_of_within ((h.pool id params hparams).inside hhealthy u hm) hparams

end FailureInv

theorem reachable_failureInv [Fintype Tid] [DecidableEq Tid] {sys : System} {c : HeapConfig}
    {healthy : Set PoolId} {st : ConcHeap C Tid}
    (h : Lib.Reachable (ConcHeap.Init sys c) (FailsOutside sys healthy) st) :
    FailureInv sys c healthy st :=
  h.invariant (fun _ => FailureInv.init) fun _ _ _ => FailureInv.step

/-- Whatever is thrown in other pools: in a healthy pool each block is in one place,
and no other block is; a block that a client holds, also one of a broken pool, finds
its pool; and a thread in a call that is not in a broken pool can go on, or waits for
a mutex whose owner can. -/
theorem failure_isolated [Fintype Tid] [DecidableEq Tid] {sys : System} {c : HeapConfig}
    {healthy : Set PoolId} {st : ConcHeap C Tid}
    (h : Lib.Reachable (ConcHeap.Init sys c) (FailsOutside sys healthy) st) :
    (∀ id ∈ healthy, ∀ params, st.heap.params? id = some params →
        ∀ b, (st.view id params).places b = if (st.view id params).IsBlock b then 1 else 0) ∧
      (∀ id, ∀ b ∈ st.live id, (st.world.segmentAt b.segment).pool = id) ∧
      ∀ t, st.pc t ≠ .idle → (∀ id, id ∉ healthy → (st.pc t).within id = .idle) →
        st.CanStep sys t ∨ ∃ u, st.WaitsFor t u ∧ st.CanStep sys u := by
  have hinv := reachable_failureInv h
  exact ⟨fun id hid params hparams => ((hinv.pool id params hparams).inv hid).places,
    fun id b hb => (hinv.live_segment hb).2, fun t => hinv.canStep_or_waits⟩

/-- The thread `true` is in the pool for 24 bytes and has its mutex; the thread
`false` is about to add the first segment of the pool for 64 bytes. -/
def upToFailure : List (Bool × HeapChoice rangeContext) :=
  heapAllocate true 24 :: heapAdvanceBy true 7 8192 ++
    heapAllocate false 64 :: heapAdvanceBy false 6 4096

/-- The registration in the pool for 64 bytes fails: its mutex stays with a thread
that is idle, and the other thread goes on. -/
theorem exists_brokenPool_run :
    ∃ (st : ConcHeap rangeContext Bool) (x : Pc rangeContext),
      Lib.Run (FailsOutside smallPages {⟨.tiny 2, false, 0⟩}) smallHeapStart
        ((upToFailure.map fun e => .normal e.1) ++ [.throws false]) st ∧
      st.mutexes ⟨.tiny 7, false, 0⟩ = some false ∧ st.pc false = .idle ∧
      st.pc true = .inPool ⟨.tiny 2, false, 0⟩ x ∧ x ≠ .idle := by
  obtain ⟨st, params, x, w, p, hexec, hpc, hother, hx, hparams, hmutex, hadd, hstack⟩ :
      ∃ st params x w p,
        Lib.exec (fun st e => ConcHeap.advance smallPages st e.1 e.2) upToFailure smallHeapStart =
          some st ∧ st.pc false = .inPool ⟨.tiny 7, false, 0⟩ (.grow 1) ∧
        st.pc true = .inPool ⟨.tiny 2, false, 0⟩ x ∧ x ≠ .idle ∧
        st.heap.params? ⟨.tiny 7, false, 0⟩ = some params ∧
        st.mutexes ⟨.tiny 7, false, 0⟩ = some false ∧
        addSegment smallPages failedRegistration st.world
          (st.view ⟨.tiny 7, false, 0⟩ params).pool = (.error .registerMemory, w, p) ∧
        p.freeStack = (st.data ⟨.tiny 7, false, 0⟩).freeStack :=
    ⟨_, _, _, _, _, rfl, rfl, rfl, by simp, rfl, rfl, rfl, rfl⟩
  have hview : (st.view ⟨.tiny 7, false, 0⟩ params).pc false = .grow 1 := by
    show (st.pc false).within _ = _
    rw [hpc]
    rfl
  have hthrow := ConcHeapStep.inPool (l := .throws false) hpc (by simp) hparams
    (.growThrows hview hadd)
  refine ⟨_, x, (failsOutside_of_schedule hexec).snoc ⟨hthrow, fun t ht => ?_⟩, ?_⟩
  · cases ht
    refine ⟨fun id hid => ?_, fun id => ?_⟩
    · rw [Set.mem_singleton_iff.mp hid, hpc]
      rfl
    · by_cases hid : id = ⟨.tiny 7, false, 0⟩
      · subst hid
        simpa [ConcHeap.put] using hstack
      · simp [ConcHeap.put, hid]
  · simp [ConcHeap.put, ConcHeap.view, Label.thread, HeapPc.ofPool, hmutex, hother, hx]

theorem failure_isolated_brokenPool :
    ∃ st : ConcHeap rangeContext Bool,
      st.mutexes ⟨.tiny 7, false, 0⟩ = some false ∧ st.pc false = .idle ∧ st.pc true ≠ .idle ∧
      (st.CanStep smallPages true ∨ ∃ u, st.WaitsFor true u ∧ st.CanStep smallPages u) := by
  obtain ⟨st, x, hrun, hmutex, hidle, hpc, hx⟩ := exists_brokenPool_run
  have hbusy : st.pc true ≠ .idle := by simp [hpc]
  have hprogress := (failure_isolated ⟨_, _, smallHeapStart_init, hrun⟩).2.2 true hbusy
  refine ⟨st, hmutex, hidle, hbusy, hprogress fun id hid => ?_⟩
  have hother : ¬(⟨.tiny 2, false, 0⟩ : PoolId) = id := fun heq => hid (by simp [heq])
  rw [hpc]
  simp [HeapPc.within, hother]

end HwMalloc
