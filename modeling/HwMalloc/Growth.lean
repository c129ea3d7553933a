import HwMalloc.MissedRelease
import HwMalloc.SoloCalls

/-!
# HwMalloc.Growth

When a pool grows, and how much, with any number of threads.

**When.** A thread adds a segment after it has met all segments in vain, under
`m_mutex`; but `segment::free` takes no mutex, and blocks come back behind it. These are
the only idle blocks that it overlooks (`grow_overlooks`); a thread that runs alone
overlooks none (`uncontended_grow`).

**How much.** In the loop that follows others may pop what it has just added, and it
adds the next segment; each segment of a call but the first costs a whole segment of
pops, so the segments are bounded by the calls (`registered_le_calls`), though not by
the blocks in use.

**The account.** Every call of `allocate` is granted the blocks of one segment and one
block when it begins. It spends the former on the first segment that it adds and the
latter on its pop; for a further segment it spends what others have popped from the
last one, since it has found the free stack empty in between. `Pc.credit` is what a
call has left, `Pc.taken` what others have taken from it, and `StackStep` says once
what a step does to `m_free_stack`, which is all that the account depends on.

`GrowthHistory` records of a run what the state forgets: the blocks that came back, the
calls that have begun, the segments that were added.
-/

namespace HwMalloc

variable {C : Context} {Tid : Type}

namespace Pc

/-- The blocks that have come back since `m_mutex` was acquired, after a step from
here. -/
def lateAfter (late : List (Block C)) : Pc C → List (Block C)
  | allocLock | freeLock _ => []
  | freePush b => b :: late
  | _ => late

/-- The calls of `allocate` that begin with a step. -/
def begins : Pc C → Pc C → Nat
  | idle, allocPop => 1
  | _, _ => 0

/-- The segments added by a step from here. -/
def adds : Pc C → Nat
  | grow _ => 1
  | _ => 0

end Pc

/-- A pool and its threads, with what has happened so far. -/
structure GrowthHistory (C : Context) (Tid : Type) extends ConcState C Tid where
  /-- The blocks pushed to freed stacks since `m_mutex` was last acquired. -/
  late : List (Block C)
  /-- The calls of `allocate` that have begun. -/
  calls : Nat
  /-- The segments that have been added. -/
  registered : Nat

/-- The history after a step of thread `t` to `st'`. -/
def GrowthHistory.record (h : GrowthHistory C Tid) (t : Tid) (st' : ConcState C Tid) :
    GrowthHistory C Tid where
  toConcState := st'
  late := (h.pc t).lateAfter h.late
  calls := h.calls + (h.pc t).begins (st'.pc t)
  registered := h.registered + (h.pc t).adds

/-- A step without exception, and its record. -/
def GrowthStep [DecidableEq Tid] (sys : System) (h : GrowthHistory C Tid) (l : Label Tid)
    (h' : GrowthHistory C Tid) : Prop :=
  ConcStepOk sys h.toConcState l h'.toConcState ∧
    ∃ t, l = .normal t ∧ h' = h.record t h'.toConcState

def GrowthHistory.Init (params : PoolParams) (h : GrowthHistory C Tid) : Prop :=
  h.toConcState.Init params ∧ h.late = [] ∧ h.calls = 0 ∧ h.registered = 0

/-- Nothing but the pool and its threads before the first call. -/
def ConcState.startHistory (st : ConcState C Tid) : GrowthHistory C Tid where
  toConcState := st
  late := []
  calls := 0
  registered := 0

/-- Every run has a history. -/
theorem exists_history [DecidableEq Tid] {sys : System} {h : GrowthHistory C Tid}
    {st' : ConcState C Tid} {ls : List (Label Tid)}
    (hrun : Lib.Run (ConcStepOk sys) h.toConcState ls st') :
    ∃ h', h'.toConcState = st' ∧ Lib.Run (GrowthStep sys) h ls h' := by
  generalize hst : h.toConcState = st at hrun
  induction hrun with
  | refl => exact ⟨h, hst, .refl h⟩
  | @snoc _ st' _ _ _ hstep ih =>
    obtain ⟨h₁, rfl, hrun⟩ := ih
    obtain ⟨t, ht⟩ := hstep.1
    exact ⟨h₁.record t st', rfl, hrun.snoc ⟨hstep, t, ht, rfl⟩⟩

/-! ### What a growing thread overlooks

A thread overlooks a block if it has gone past the segment of the block and the block
is in the freed stack now. It goes past a segment only with an empty freed stack, so
the block came later. -/

/-- Thread `t` has gone past a block in a freed stack. -/
def ConcState.Overlooks (st : ConcState C Tid) (t : Tid) (b : Block C) : Prop :=
  (st.pc t).Passed b.segment ∧ b.segment ∈ st.pool.segments ∧
    b ∈ (st.world.segmentAt b.segment).freedStack

variable [DecidableEq Tid]

/-- A move that passes no block, and puts none into a freed stack. -/
theorem ConcState.Overlooks.of_setPc {st st₁ : ConcState C Tid} {u t : Tid} {x : Pc C} {b : Block C}
    (h : (st₁.setPc u x).Overlooks t b) (hpc : st₁.pc = st.pc)
    (hold : b.segment ∈ st₁.pool.segments → b ∈ (st₁.world.segmentAt b.segment).freedStack →
      b.segment ∈ st.pool.segments ∧ b ∈ (st.world.segmentAt b.segment).freedStack ∧
        (x.Passed b.segment → (st.pc u).Passed b.segment)) : st.Overlooks t b := by
  obtain ⟨hpassed, hs, hb⟩ := h
  obtain ⟨hs', hb', hback⟩ := hold hs hb
  refine ⟨?_, hs', hb'⟩
  by_cases htu : t = u
  · subst htu
    rw [ConcState.setPc_pc_self] at hpassed
    exact hback hpassed
  · rwa [ConcState.setPc_pc_ne _ _ _ htu, hpc] at hpassed

/-- A move that leaves the segments alone. -/
theorem ConcState.Overlooks.of_stay {st st₁ : ConcState C Tid} {u t : Tid} {x : Pc C} {b : Block C}
    (h : (st₁.setPc u x).Overlooks t b) (hpc : st₁.pc = st.pc) (hworld : st₁.world = st.world)
    (hsegs : st₁.pool.segments = st.pool.segments)
    (hpassed : b.segment ∈ st.pool.segments → x.Passed b.segment → (st.pc u).Passed b.segment) :
    st.Overlooks t b := by
  refine h.of_setPc hpc fun hs hb => ?_
  rw [hsegs] at hs
  rw [hworld] at hb
  exact ⟨hs, hb, hpassed hs⟩

/-- A thread goes past a block that is there only if the block comes back behind
it. -/
theorem overlooks_step {sys : System} {st st' : ConcState C Tid} {l : Label Tid} {t : Tid}
    {b : Block C} (hnodup : st.pool.segments.Nodup) (hstep : ConcStepOk sys st l st')
    (h : st'.Overlooks t b) :
    st.Overlooks t b ∨ (st.pc t).Critical ∧ ∃ u, l = .normal u ∧ st.pc u = .freePush b := by
  obtain ⟨⟨u, rfl⟩, hstep⟩ := hstep
  cases hstep with
  | callAllocate hx => exact Or.inl (h.of_stay rfl rfl rfl fun _ hp => hp.elim)
  | pop hx hpop =>
    have hpool := (popFree_eq_some hpop).pool
    refine Or.inl (h.of_stay rfl rfl ?_ fun _ hp => absurd hp ((Pc.after_onPop hx _).2 _))
    rw [hpool]
  | popEmpty hx _ horder =>
    exact Or.inl (h.of_stay rfl rfl rfl fun hs =>
      (Pc.after_onEmpty hx).2 _ (horder.mem_iff.mpr hs))
  | allocLock hx _ => exact Or.inl (h.of_stay rfl rfl rfl fun _ hp => hp.elim)
  -- What is left in the freed stack was there before.
  | @collectPop _ s todo n b' rest hx hfreed =>
    refine Or.inl (h.of_setPc rfl fun hs hb => ⟨hs, ?_, fun hp => by rw [hx]; exact hp⟩)
    by_cases hbs : b.segment = s
    · simp only [ConcState.modifySegment, World.modifySegment_segmentAt, if_pos hbs] at hb
      rw [hbs]
      exact List.mem_of_mem_tail hb
    · simpa [ConcState.modifySegment, World.modifySegment_segmentAt, hbs] using hb
  -- The thread goes past the segment, and there is nothing in its freed stack.
  | @collectEmpty _ s todo n hx hfreed =>
    refine Or.inl (h.of_setPc rfl fun hs hb => ⟨hs, hb, fun hp => ?_⟩)
    rw [hx]
    refine ⟨?_, hp⟩
    rintro rfl
    rw [hfreed] at hb
    cases hb
  | collectPush hx =>
    exact Or.inl (h.of_stay rfl rfl rfl fun _ hp => by rw [hx]; exact hp)
  | @collectSub _ s todo n hx =>
    refine Or.inl (h.of_setPc rfl fun hs hb => ⟨hs, ?_, fun hp => ?_⟩)
    · by_cases hbs : b.segment = s <;>
        simpa [ConcState.modifySegment, World.modifySegment_segmentAt, hbs] using hb
    · rw [hx]
      exact Pc.passed_collectNext.mp hp
  | grow hx hadd =>
    obtain ⟨g, hnew, hgrown⟩ := addSegment_ok hadd
    refine Or.inl (h.of_setPc rfl fun hs hb => ?_)
    by_cases hbs : b.segment = st.world.nextSegment
    · -- No block has been returned to the new segment.
      rw [hbs, hgrown.segmentAt_new, hnew.freedStack] at hb
      cases hb
    · rw [hgrown.segmentAt_old hbs] at hb
      exact ⟨(hgrown.mem_segments.mp hs).resolve_left hbs, hb, fun _ => by rw [hx]; trivial⟩
  | allocUnlock hx => exact Or.inl (h.of_stay rfl rfl rfl fun _ hp => hp.elim)
  | allocReturn hx => exact Or.inl (h.of_stay rfl rfl rfl fun _ hp => hp.elim)
  | callFree hx _ => exact Or.inl (h.of_stay rfl rfl rfl fun _ hp => hp.elim)
  | @freePush _ b' hx =>
    by_cases hbb : b = b'
    · -- The block comes back.
      subst hbb
      have htu : t ≠ u := by
        rintro rfl
        have hp := h.1
        rw [ConcState.setPc_pc_self] at hp
        exact hp
      have hcrit := h.1.critical
      rw [ConcState.setPc_pc_ne _ _ _ htu] at hcrit
      exact Or.inr ⟨hcrit, u, rfl, hx⟩
    · refine Or.inl (h.of_setPc rfl fun hs hb => ⟨hs, ?_, fun hp => hp.elim⟩)
      by_cases hbs : b.segment = b'.segment
      · simp only [ConcState.modifySegment, World.modifySegment_segmentAt, if_pos hbs] at hb
        rw [hbs]
        exact (List.mem_cons.mp hb).resolve_left hbb
      · simpa [ConcState.modifySegment, World.modifySegment_segmentAt, hbs] using hb
  | @freeInc _ b' hx =>
    refine Or.inl (h.of_setPc rfl fun hs hb => ⟨hs, ?_, fun hp => ?_⟩)
    · by_cases hbs : b.segment = b'.segment <;>
        simpa [ConcState.modifySegment, World.modifySegment_segmentAt, hbs] using hb
    · split at hp <;> exact hp.elim
  | freeTest hx _ =>
    refine Or.inl (h.of_stay rfl rfl rfl fun _ hp => ?_)
    split at hp <;> exact hp.elim
  | freeLock hx _ => exact Or.inl (h.of_stay rfl rfl rfl fun _ hp => hp.elim)
  | freeRecheck hx _ =>
    refine Or.inl (h.of_stay rfl rfl rfl fun _ hp => ?_)
    split at hp <;> exact hp.elim
  | @freeErase _ b' hx =>
    by_cases hs' : b'.segment ∈ st.pool.segments
    · -- The segment of `b` is another one, and stays as it is.
      have herased : Erased b'.segment st.world st.pool _ _ := eraseSegment_erased hs'
      refine Or.inl (h.of_setPc rfl fun hs hb => ?_)
      rw [herased.pool] at hs
      obtain ⟨hne, hs⟩ := hnodup.mem_erase_iff.mp hs
      rw [herased.segmentAt _ hne] at hb
      exact ⟨hs, hb, fun hp => hp.elim⟩
    · rw [eraseSegment_of_not_mem hs'] at h
      exact Or.inl (h.of_stay rfl rfl rfl fun _ hp => hp.elim)
  | freeUnlock hx => exact Or.inl (h.of_stay rfl rfl rfl fun _ hp => hp.elim)

/-! ### What a step does to `m_free_stack`

The places of the code matter only through the two numbers `credit` and `taken`, and a
step through the change of the stack. -/

namespace Pc

/-- What a call of `allocate` may still use up, if its pop counts one and the first
segment that it adds counts its `N` blocks. -/
def credit (N : Nat) : Pc C → Nat
  | allocPop | allocLock | allocPopLocked | collectPop _ _ _ | collectPush _ _ _ _
  | collectSub _ _ _ | allocPopCollected => N + 1
  | growPop counter => if counter = 0 then N + 1 else 1
  | grow counter => if counter = 1 then N + 1 else 1
  | _ => 0

/-- How many of the `N` blocks that a call added last others have taken, as far as
it is about to add a segment for that. -/
def taken (N free : Nat) : Pc C → Nat
  | growPop counter => if counter = 0 then 0 else if counter % 2 = 1 then N - free else N
  | grow counter => if counter = 1 then 0 else N
  | _ => 0

theorem Growing.critical {x : Pc C} (h : x.Growing) : x.Critical := by
  cases x <;> trivial

theorem taken_of_not_growing {x : Pc C} (h : ¬x.Growing) (N free : Nat) : x.taken N free = 0 := by
  cases x <;> first | rfl | exact absurd trivial h

theorem adds_of_not_growing {x : Pc C} (h : ¬x.Growing) : x.adds = 0 := by
  cases x <;> first | rfl | exact absurd trivial h

theorem taken_pop (N free : Nat) (x : Pc C) : x.taken N free ≤ x.taken N (free + 1) + 1 := by
  cases x with
  | growPop counter =>
    simp only [taken]
    split_ifs <;> omega
  | grow counter => exact Nat.le_succ _
  | _ => exact Nat.zero_le _

theorem onPop_credit {x : Pc C} {next : Block C → Pc C} (h : x.onPop = some next) (N : Nat)
    (b : Block C) :
    1 ≤ x.credit N ∧ (next b).credit N = 0 ∧ ¬(next b).Growing ∧ x.adds = 0 := by
  cases x <;> simp only [onPop, Option.some.injEq, reduceCtorEq] at h
  case growPop counter =>
    subst h
    refine ⟨?_, rfl, id, rfl⟩
    rw [credit]
    split_ifs <;> omega
  all_goals
    subst h
    exact ⟨Nat.le_add_left 1 N, rfl, id, rfl⟩

theorem onEmpty_credit {x y : Pc C} {order : List Nat} (h : x.onEmpty order = some y) (N : Nat) :
    y.credit N = x.credit N ∧ y.taken N 0 ≤ x.taken N 0 ∧
      (∀ counter, y = .grow counter → counter % 2 = 1) ∧ x.adds = 0 := by
  cases x <;> simp only [onEmpty, Option.some.injEq, reduceCtorEq] at h
  -- In the loop: an even count leads to `add_segment`, an odd one to the next pop.
  case growPop counter =>
    by_cases heven : counter % 2 = 0
    · rw [if_pos heven] at h
      subst h
      refine ⟨by simp [credit], ?_, ?_, rfl⟩
      · simp only [taken]
        split_ifs <;> omega
      · rintro counter' ⟨⟩
        omega
    · rw [if_neg heven] at h
      subst h
      have hpos : counter ≠ 0 := by
        rintro rfl
        exact heven rfl
      refine ⟨by simp [credit, hpos], ?_, by simp, rfl⟩
      simp only [taken, if_neg hpos]
      split_ifs <;> omega
  case allocPopLocked =>
    subst h
    cases order <;> exact ⟨rfl, le_rfl, by simp [collectNext], rfl⟩
  all_goals
    subst h
    exact ⟨rfl, le_rfl, by simp, rfl⟩

end Pc

/-- What a step from `x` to `y` does to `m_free_stack`, in a pool with `N` blocks in
each segment. -/
inductive StackStep (N : Nat) : Pc C → Pc C → List (Block C) → List (Block C) → Prop
  | calls {fs : List (Block C)} : StackStep N .idle .allocPop fs fs
  | pop {x : Pc C} {next : Block C → Pc C} {b : Block C} {fs : List (Block C)} :
      x.onPop = some next → StackStep N x (next b) (b :: fs) fs
  | popEmpty {x y : Pc C} {order : List Nat} :
      x.onEmpty order = some y → StackStep N x y [] []
  | collects {b : Block C} {s : Nat} {todo : List Nat} {n : Nat} {fs : List (Block C)} :
      StackStep N (.collectPush b s todo n) (.collectPop s todo n) fs (b :: fs)
  | grows {counter : Nat} {bs fs : List (Block C)} :
      bs.length = N → StackStep N (.grow counter) (.growPop counter) fs (bs ++ fs)
  /-- The step touches other data, or none. -/
  | walks {x y : Pc C} {fs : List (Block C)} :
      ¬x.Growing → ¬y.Growing → x.begins y = 0 → y.credit N = x.credit N → StackStep N x y fs fs

/-- Every step does one of these, and no other thread moves. -/
theorem stackStep_of_step {sys : System} {st st' : ConcState C Tid} {t : Tid}
    (h : ConcStep sys st (.normal t) st') :
    StackStep (segmentBlocks sys st.pool.toPoolParams) (st.pc t) (st'.pc t) st.pool.freeStack
        st'.pool.freeStack ∧
      st'.pc = Function.update st.pc t (st'.pc t) := by
  have hwalks : ∀ {st₁ : ConcState C Tid} {x y : Pc C}, st.pc t = x →
      st₁.pool.freeStack = st.pool.freeStack → ¬x.Growing → ¬y.Growing → x.begins y = 0 →
      (∀ N, y.credit N = x.credit N) →
      StackStep (segmentBlocks sys st.pool.toPoolParams) (st.pc t) ((st₁.setPc t y).pc t)
        st.pool.freeStack (st₁.setPc t y).pool.freeStack := by
    intro st₁ x y hx hfree hxg hyg hbegins hcredit
    rw [hx, ConcState.setPc_pc_self, ConcState.setPc_pool, hfree]
    exact .walks hxg hyg hbegins (hcredit _)
  refine ⟨?_, ?_⟩
  · cases h with
    | callAllocate hx =>
      rw [hx, ConcState.setPc_pc_self]
      exact .calls
    | pop hx hpop =>
      rw [ConcState.setPc_pc_self, (popFree_eq_some hpop).freeStack]
      exact .pop hx
    | popEmpty hx hpop _ =>
      rw [ConcState.setPc_pc_self, ConcState.setPc_pool, popFree_eq_none.mp hpop]
      exact .popEmpty hx
    | collectPush hx =>
      rw [hx, ConcState.setPc_pc_self]
      exact .collects
    | grow hx hadd =>
      obtain ⟨g, hnew, hgrown⟩ := addSegment_ok hadd
      rw [hx, ConcState.setPc_pc_self, ConcState.setPc_pool, hgrown.pool]
      exact .grows (by rw [Segment.blocks_length, hnew.numBlocks])
    -- The other steps do not touch the stack, and are not in the loop.
    | allocLock hx _ => exact hwalks hx rfl id id rfl fun _ => rfl
    | collectPop hx _ => exact hwalks hx rfl id id rfl fun _ => rfl
    | collectEmpty hx _ => exact hwalks hx rfl id id rfl fun _ => rfl
    | @collectSub _ s todo n hx =>
      cases todo <;> exact hwalks hx rfl id id rfl fun _ => rfl
    | allocUnlock hx => exact hwalks hx rfl id id rfl fun _ => rfl
    | allocReturn hx => exact hwalks hx rfl id id rfl fun _ => rfl
    | callFree hx _ => exact hwalks hx rfl id id rfl fun _ => rfl
    | freePush hx => exact hwalks hx rfl id id rfl fun _ => rfl
    | freeInc hx => split <;> exact hwalks hx rfl id id rfl fun _ => rfl
    | freeTest hx _ => split <;> exact hwalks hx rfl id id rfl fun _ => rfl
    | freeLock hx _ => exact hwalks hx rfl id id rfl fun _ => rfl
    | freeRecheck hx _ => split <;> exact hwalks hx rfl id id rfl fun _ => rfl
    | @freeErase _ b hx =>
      refine hwalks hx ?_ id id rfl fun _ => rfl
      by_cases hs : b.segment ∈ st.pool.segments
      · simp [(eraseSegment_erased hs).pool]
      · simp [eraseSegment_of_not_mem hs]
    | freeUnlock hx => exact hwalks hx rfl id id rfl fun _ => rfl
  · cases h <;> simp [ConcState.setPc, ConcState.modifySegment]

namespace StackStep

variable {N : Nat} {x y z : Pc C} {fs fs' : List (Block C)}

/-- A step pays for itself out of what the thread has, what it gets if a call begins,
and what others have taken. -/
theorem self (h : StackStep N x y fs fs') (hodd : ∀ counter, x = .grow counter → counter % 2 = 1) :
    N * x.adds + y.credit N + y.taken N fs'.length ≤
      (N + 1) * x.begins y + x.credit N + x.taken N fs.length := by
  cases h with
  | calls => simp [Pc.adds, Pc.credit, Pc.taken, Pc.begins]
  | pop hx =>
    obtain ⟨-, hcredit, hgrowing, hadds⟩ := Pc.onPop_credit hx N _
    rw [hadds, hcredit, Pc.taken_of_not_growing hgrowing]
    omega
  | popEmpty hx =>
    obtain ⟨hcredit, htaken, -, hadds⟩ := Pc.onEmpty_credit hx N
    rw [hadds, hcredit, List.length_nil]
    omega
  | collects => simp [Pc.adds, Pc.credit, Pc.taken, Pc.begins]
  -- The first segment is paid by the credit, a further one by what others have taken.
  | @grows counter bs fs hlen =>
    have hpos : counter ≠ 0 := by
      rintro rfl
      exact absurd (hodd 0 rfl) (by decide)
    by_cases hone : counter = 1
    · subst hone
      simp [Pc.adds, Pc.credit, Pc.taken, Pc.begins, hlen]
    · simp [Pc.adds, Pc.credit, Pc.taken, Pc.begins, hlen, hpos, hone, hodd counter rfl,
        Nat.add_comm]
  | walks hxg hyg hbegins hcredit =>
    rw [Pc.adds_of_not_growing hxg, hcredit, Pc.taken_of_not_growing hyg]
    omega

/-- What a step takes from a thread that is growing the pool meanwhile, it pays. -/
theorem other (h : StackStep N x y fs fs') (hz : x.Critical → ¬z.Critical) :
    z.taken N fs'.length = 0 ∨
      N * x.adds + y.credit N + z.taken N fs'.length ≤
        (N + 1) * x.begins y + x.credit N + z.taken N fs.length := by
  cases h with
  | calls => exact Or.inr (by simp [Pc.adds, Pc.credit, Pc.begins])
  -- The pop of another thread is paid by its own credit.
  | pop hx =>
    obtain ⟨hpos, hcredit, -, hadds⟩ := Pc.onPop_credit hx N _
    have hle := Pc.taken_pop N fs'.length z
    refine Or.inr ?_
    rw [hadds, hcredit, List.length_cons]
    omega
  | popEmpty hx =>
    obtain ⟨hcredit, -, -, hadds⟩ := Pc.onEmpty_credit hx N
    refine Or.inr ?_
    rw [hadds, hcredit]
    omega
  | collects => exact Or.inl (Pc.taken_of_not_growing (fun hg => hz trivial hg.critical) N _)
  | grows => exact Or.inl (Pc.taken_of_not_growing (fun hg => hz trivial hg.critical) N _)
  | walks hxg hyg hbegins hcredit =>
    refine Or.inr ?_
    rw [Pc.adds_of_not_growing hxg, hcredit]
    omega

/-- A thread that is about to add a segment has just found `m_free_stack` empty. -/
theorem dry (h : StackStep N x y fs fs') {counter : Nat} (hy : y = .grow counter) :
    counter % 2 = 1 ∧ fs' = [] := by
  cases h with
  | @pop _ _ b _ hx =>
    obtain ⟨-, -, hgrowing, -⟩ := Pc.onPop_credit hx N b
    rw [hy] at hgrowing
    exact absurd trivial hgrowing
  | popEmpty hx => exact ⟨(Pc.onEmpty_credit hx N).2.2.1 _ hy, rfl⟩
  | walks _ hyg =>
    rw [hy] at hyg
    exact absurd trivial hyg
  | _ => cases hy

/-- And so it stays until it has added the segment. -/
theorem stays_dry (h : StackStep N x y fs fs') (hx : ¬x.Critical) (hfs : fs = []) : fs' = [] := by
  cases h with
  | pop => cases hfs
  | collects => exact absurd trivial hx
  | grows => exact absurd trivial hx
  | popEmpty => rfl
  | _ => exact hfs

end StackStep

/-- Nothing but an addition makes a pool larger. -/
theorem segments_length_step {sys : System} {st st' : ConcState C Tid} {t : Tid}
    (h : ConcStep sys st (.normal t) st') :
    st'.pool.segments.length ≤ st.pool.segments.length + (st.pc t).adds := by
  cases h with
  | pop _ hpop =>
    rw [ConcState.setPc_pool, (popFree_eq_some hpop).pool]
    exact Nat.le_add_right _ _
  | grow hx hadd =>
    obtain ⟨g, -, hgrown⟩ := addSegment_ok hadd
    rw [hx, ConcState.setPc_pool, hgrown.pool]
    rfl
  | @freeErase _ b _ =>
    refine le_trans ?_ (Nat.le_add_right _ _)
    by_cases hs : b.segment ∈ st.pool.segments
    · rw [ConcState.setPc_pool, (eraseSegment_erased hs).pool]
      exact List.length_erase_le
    · rw [ConcState.setPc_pool, eraseSegment_of_not_mem hs]
  | _ => exact Nat.le_add_right _ _

/-! ### The account

`taken` is looked at for one thread at a time: no two threads are in the loop. -/

variable [Fintype Tid]

/-- What a run has used up: the blocks of the segments that it has added, and what
the calls in progress may still use up. -/
def GrowthHistory.spent (h : GrowthHistory C Tid) (N : Nat) : Nat :=
  N * h.registered + ∑ t, (h.pc t).credit N

/-- Nothing is used up that has not been granted to a call: each call is granted the
blocks of one segment and one block. -/
structure GrowthHistory.Funded (h : GrowthHistory C Tid) (N : Nat) : Prop where
  total : h.spent N ≤ (N + 1) * h.calls
  taken : ∀ t, h.spent N + (h.pc t).taken N h.pool.freeStack.length ≤ (N + 1) * h.calls
  dry : ∀ t counter, h.pc t = .grow counter → counter % 2 = 1 ∧ h.pool.freeStack = []

theorem spent_record {h : GrowthHistory C Tid} {t : Tid} {st' : ConcState C Tid} (N : Nat)
    (hpc : st'.pc = Function.update h.pc t (st'.pc t)) :
    (h.record t st').spent N + (h.pc t).credit N =
      h.spent N + (N * (h.pc t).adds + (st'.pc t).credit N) := by
  have hsum := Lib.sum_update (Pc.credit N) h.pc t (st'.pc t)
  rw [← hpc] at hsum
  simp only [GrowthHistory.spent, GrowthHistory.record, Nat.mul_add]
  omega

theorem GrowthHistory.Funded.step {h : GrowthHistory C Tid} {t : Tid} {st' : ConcState C Tid}
    {N : Nat} (hf : h.Funded N)
    (hstep : StackStep N (h.pc t) (st'.pc t) h.pool.freeStack st'.pool.freeStack)
    (hpc : st'.pc = Function.update h.pc t (st'.pc t))
    (hother : ∀ u, u ≠ t → (h.pc t).Critical → ¬(h.pc u).Critical) :
    (h.record t st').Funded N := by
  have hspent := spent_record N hpc
  have hcalls : (N + 1) * (h.record t st').calls =
      (N + 1) * h.calls + (N + 1) * (h.pc t).begins (st'.pc t) := Nat.mul_add ..
  have hpc_ne : ∀ u, u ≠ t → st'.pc u = h.pc u := fun u hu => by
    rw [hpc, Function.update_of_ne hu]
  have hself := hstep.self fun counter hx => (hf.dry t counter hx).1
  have hown := hf.taken t
  have htotal : (h.record t st').spent N ≤ (N + 1) * (h.record t st').calls := by omega
  -- Each part for the thread of the step, and for the others.
  refine ⟨htotal, fun u => ?_, fun u counter hu => ?_⟩
  · by_cases hut : u = t
    · rw [hut]
      show _ + (st'.pc t).taken N st'.pool.freeStack.length ≤ _
      omega
    · show _ + (st'.pc u).taken N st'.pool.freeStack.length ≤ _
      rw [hpc_ne u hut]
      have hu := hf.taken u
      rcases hstep.other (hother u hut) with hnone | hpays <;> omega
  · by_cases hut : u = t
    · exact hstep.dry (hut ▸ hu)
    · have hu' : h.pc u = .grow counter := (hpc_ne u hut).symm.trans hu
      obtain ⟨hodd, hfree⟩ := hf.dry u counter hu'
      refine ⟨hodd, hstep.stays_dry (fun hcrit => ?_) hfree⟩
      refine hother u hut hcrit ?_
      rw [hu']
      trivial

/-! ### All steps -/

/-- The invariant of the runs and their histories. -/
structure GrowthInv (sys : System) (params : PoolParams) (h : GrowthHistory C Tid) : Prop
    extends ConcInv sys h.toConcState where
  funded : h.Funded (segmentBlocks sys params)
  late : ∀ t b, h.Overlooks t b → b ∈ h.late
  segments_le : h.pool.segments.length ≤ h.registered
  params : h.pool.toPoolParams = params

namespace GrowthInv

variable {sys : System} {params : PoolParams} {h h' : GrowthHistory C Tid}

omit [DecidableEq Tid] in
theorem init (hinit : h.Init params) : GrowthInv sys params h := by
  obtain ⟨hconc, -, hcalls, hregistered⟩ := hinit
  have hidle := hconc.2.2.1
  have hspent : h.spent (segmentBlocks sys params) = 0 := by
    have hsum : ∑ t, (h.pc t).credit (segmentBlocks sys params) = 0 :=
      Lib.sum_eq_zero fun u => by rw [hidle u]; rfl
    rw [GrowthHistory.spent, hsum, hregistered]
    rfl
  have hpool : h.pool.toPoolParams = params := by rw [hconc.1]; rfl
  refine ⟨.init hconc, ⟨?_, fun t => ?_, fun t counter ht => ?_⟩, fun t b hb => ?_, ?_, hpool⟩
  · rw [hspent]
    exact Nat.zero_le _
  · rw [hspent, hidle t]
    exact Nat.zero_le _
  · rw [hidle t] at ht
    cases ht
  · have hpassed := hb.1
    rw [hidle t] at hpassed
    exact hpassed.elim
  · rw [hconc.1]
    exact Nat.zero_le _

/-- Who acquires the mutex finds it free, and nobody has gone past a segment. -/
theorem mem_lateAfter {t u : Tid} {b : Block C} {st' : ConcState C Tid}
    (hinv : GrowthInv sys params h) (hstep : ConcStep sys h.toConcState (.normal u) st')
    (hb : h.Overlooks t b) : b ∈ (h.pc u).lateAfter h.late := by
  have hmutex : h.mutex ≠ none := by
    rw [hinv.mutex t hb.1.critical]
    exact Option.some_ne_none t
  have hlate := hinv.late t b hb
  cases hstep with
  | allocLock _ hm => exact absurd hm hmutex
  | freeLock _ hm => exact absurd hm hmutex
  | freePush hx =>
    rw [hx]
    exact List.mem_cons_of_mem _ hlate
  | pop hx => cases hu : h.pc u <;> rw [hu] at hx <;> first | exact hlate | cases hx
  | popEmpty hx => cases hu : h.pc u <;> rw [hu] at hx <;> first | exact hlate | cases hx
  | callAllocate hx => rw [hx]; exact hlate
  | collectPop hx _ => rw [hx]; exact hlate
  | collectEmpty hx _ => rw [hx]; exact hlate
  | collectPush hx => rw [hx]; exact hlate
  | collectSub hx => rw [hx]; exact hlate
  | grow hx _ => rw [hx]; exact hlate
  | allocUnlock hx => rw [hx]; exact hlate
  | allocReturn hx => rw [hx]; exact hlate
  | callFree hx _ => rw [hx]; exact hlate
  | freeInc hx => rw [hx]; exact hlate
  | freeTest hx _ => rw [hx]; exact hlate
  | freeRecheck hx _ => rw [hx]; exact hlate
  | freeErase hx => rw [hx]; exact hlate
  | freeUnlock hx => rw [hx]; exact hlate

theorem step {l : Label Tid} (hinv : GrowthInv sys params h) (hstep : GrowthStep sys h l h') :
    GrowthInv sys params h' := by
  obtain ⟨hok, t, rfl, hrecord⟩ := hstep
  obtain ⟨hstack, hpc⟩ := stackStep_of_step hok.2
  rw [hinv.params] at hstack
  have hother : ∀ u, u ≠ t → (h.pc t).Critical → ¬(h.pc u).Critical := fun u hu ht hcrit =>
    hu (hinv.critical_unique ht hcrit)
  refine ⟨hinv.toConcInv.step hok, ?_, fun u b hb => ?_, ?_,
    (concStep_params hok).trans hinv.params⟩
  · rw [hrecord]
    exact hinv.funded.step hstack hpc hother
  · rw [hrecord]
    rcases overlooks_step hinv.segments_nodup hok hb with hold | ⟨-, v, hv, hx⟩
    · exact hinv.mem_lateAfter hok.2 hold
    · cases hv
      show b ∈ (h.pc t).lateAfter h.late
      rw [hx]
      exact List.mem_cons_self
  · rw [hrecord]
    exact (segments_length_step hok.2).trans (Nat.add_le_add_right hinv.segments_le _)

omit [DecidableEq Tid] in
/-- A block that nobody holds while a thread adds a segment is on its freed stack. -/
theorem mem_freedStack_of_idle (hinv : GrowthInv sys params h) {t : Tid} {counter : Nat}
    (hgrow : h.pc t = .grow counter) {b : Block C} (hb : h.IsBlock b) (hlive : b ∉ h.live)
    (hheld : ∀ u, (h.pc u).held ≠ some b) :
    b ∈ (h.world.segmentAt b.segment).freedStack := by
  have hone := hinv.places b
  have htransit : h.inTransit b = 0 := Lib.sum_eq_zero fun u => if_neg (hheld u)
  rw [if_pos hb, ConcState.places, (hinv.funded.dry t counter hgrow).2, htransit,
    List.count_nil, List.count_eq_zero_of_not_mem hlive, ConcInv.freedCount_of_mem hb.1] at hone
  exact List.count_pos_iff.mp (by omega)

end GrowthInv

theorem reachable_growthInv {sys : System} {params : PoolParams} {h : GrowthHistory C Tid}
    (hreach : Lib.Reachable (GrowthHistory.Init params) (GrowthStep sys) h) :
    GrowthInv sys params h :=
  hreach.invariant (fun _ => GrowthInv.init) fun _ _ _ => GrowthInv.step

/-- The idle blocks that a thread overlooks when it adds a segment are blocks that have
come back to their segments since it acquired the mutex. The run has no exceptions:
after one nobody comes to add a segment. -/
theorem grow_overlooks {sys : System} {params : PoolParams} {h : GrowthHistory C Tid}
    (hreach : Lib.Reachable (GrowthHistory.Init params) (GrowthStep sys) h) {t : Tid}
    {counter : Nat} (hgrow : h.pc t = .grow counter) {b : Block C} (hb : h.IsBlock b)
    (hlive : b ∉ h.live) (hheld : ∀ u, (h.pc u).held ≠ some b) :
    b ∈ (h.world.segmentAt b.segment).freedStack ∧ b ∈ h.late := by
  have hinv := reachable_growthInv hreach
  have hfreed := hinv.mem_freedStack_of_idle hgrow hb hlive hheld
  exact ⟨hfreed, hinv.late t b ⟨by rw [hgrow]; trivial, hb.1, hfreed⟩⟩

/-- The next step of thread `t`, and its record. -/
def GrowthHistory.advance (sys : System) (h : GrowthHistory C Tid) (t : Tid) (c : Choice C) :
    Option (GrowthHistory C Tid) :=
  (h.toConcState.advance sys t c).map (h.record t)

omit [Fintype Tid] in
theorem growthRun_of_schedule {sys : System} {h h' : GrowthHistory C Tid}
    {es : List (Tid × Choice C)}
    (hexec : Lib.exec (fun h e => GrowthHistory.advance sys h e.1 e.2) es h = some h') :
    Lib.Run (GrowthStep sys) h (es.map fun e => .normal e.1) h' := by
  refine (Lib.run_of_exec hexec).map fun h e h' hstep => ?_
  obtain ⟨st', hadvance, rfl⟩ := Option.map_eq_some_iff.mp hstep
  exact ⟨advance_sound hadvance, e.1, rfl, rfl⟩

/-- While thread `false` is in the slow path, thread `true` takes the two blocks that it
has collected and returns them: thread `false` adds a segment, and both are idle. -/
theorem grow_overlooks_overcounted :
    ∃ h : GrowthHistory rangeContext Bool, h.pc false = .grow 1 ∧
      twoBlock 1 0 ∈ (h.world.segmentAt 1).freedStack ∧ twoBlock 1 0 ∈ h.late := by
  obtain ⟨h, hexec, hf, ht, hsegs, hblocks, hlive⟩ : ∃ h,
      Lib.exec (fun h e => GrowthHistory.advance stubSystem h e.1 e.2) (overcounted.take 50)
        twoBlockStart.startHistory = some h ∧ h.pc false = .grow 1 ∧ h.pc true = .idle ∧
      h.pool.segments = [1] ∧
      (h.world.segmentAt 1).blocks 1 h.pool.deviceId = [twoBlock 1 0, twoBlock 1 1] ∧
      h.live = [] := ⟨_, rfl, rfl, rfl, rfl, rfl, rfl⟩
  refine ⟨h, hf, ?_⟩
  have hb : h.IsBlock (twoBlock 1 0) := by
    refine ⟨?_, ?_⟩
    · rw [hsegs]
      exact List.mem_singleton.mpr rfl
    · show twoBlock 1 0 ∈ (h.world.segmentAt 1).blocks 1 h.pool.deviceId
      rw [hblocks]
      exact List.mem_cons_self
  refine grow_overlooks (b := twoBlock 1 0)
    ⟨_, _, ⟨twoBlockStart_init, rfl, rfl, rfl⟩, growthRun_of_schedule hexec⟩ hf hb ?_ fun t => ?_
  · rw [hlive]
    exact List.not_mem_nil
  · cases t
    · rw [hf]
      exact nofun
    · rw [ht]
      exact nofun

/-- No block comes back behind a thread that runs alone. -/
theorem not_overlooks_of_solo {sys : System} {st st' : ConcState C Tid} {t : Tid} {b : Block C}
    {ls : List (Label Tid)} (hinv : ConcInv sys st) (hout : ¬(st.pc t).Critical)
    (hrun : Lib.Run (SoloStep sys t) st ls st') : ¬st'.Overlooks t b := by
  have hkeep : ∀ s l s', ConcInv sys s ∧ ¬s.Overlooks t b → SoloStep sys t s l s' →
      ConcInv sys s' ∧ ¬s'.Overlooks t b := by
    rintro s l s' ⟨hs, hnot⟩ ⟨rfl, hok⟩
    refine ⟨hs.step hok, fun hover => ?_⟩
    rcases overlooks_step hs.segments_nodup hok hover with hold | ⟨hcrit, u, hu, hx⟩
    · exact hnot hold
    · cases hu
      rw [hx] at hcrit
      exact hcrit
  exact (hrun.invariant hkeep ⟨hinv, fun hover => hout hover.1.critical⟩).2

/-- A thread that runs alone, from a place outside the critical sections, wherever the
others wait, adds a segment only if no block is idle: whatever has happened before,
every block is live or in the hands of a thread. -/
theorem uncontended_grow {sys : System} {params : PoolParams} {st st' : ConcState C Tid}
    (hreach : Lib.Reachable (ConcState.Init params) (ConcStep sys) st) {t : Tid}
    (hout : ¬(st.pc t).Critical) {ls : List (Label Tid)}
    (hrun : Lib.Run (SoloStep sys t) st ls st') {counter : Nat}
    (hgrow : st'.pc t = .grow counter) {b : Block C} (hb : st'.IsBlock b) :
    b ∈ st'.live ∨ ∃ u, (st'.pc u).held = some b := by
  by_contra hidle
  obtain ⟨hlive, hheld⟩ := not_or.mp hidle
  obtain ⟨st₀, ls₀, hinit, hrun₀⟩ := hreach
  -- The thread has got into the critical section, so nothing has thrown before.
  have hall : Lib.Run (ConcStep sys) st₀ (ls₀ ++ ls) st' :=
    hrun₀.append (by simpa using hrun.map (g := id) fun _ _ _ hstep => hstep.2.2)
  have hnormal := normal_of_critical hinit hall (t := t) (by rw [hgrow]; trivial)
  replace hrun₀ : Lib.Run (ConcStepOk sys) st₀ ls₀ st :=
    hrun₀.guarded fun l hl => hnormal l (List.mem_append_left _ hl)
  have halone := not_overlooks_of_solo (b := b) (reachable_concInv ⟨st₀, ls₀, hinit, hrun₀⟩) hout
    hrun
  obtain ⟨h, rfl, hhistory⟩ := exists_history (h := st₀.startHistory)
    (hrun₀.append (by simpa using hrun.map (g := id) fun _ _ _ hstep => hstep.2))
  have hinv : GrowthInv sys params h := reachable_growthInv ⟨_, _, ⟨hinit, rfl, rfl, rfl⟩, hhistory⟩
  refine halone ⟨by rw [hgrow]; trivial, hb.1, ?_⟩
  exact hinv.mem_freedStack_of_idle hgrow hb hlive fun u hu => hheld ⟨u, hu⟩

/-- After the calls of `overcounted` both blocks of segment 1 are idle. Thread `true` alone
takes them and the block of segment 2 that is left before it adds a segment. -/
theorem uncontended_grow_overcounted :
    ∃ st : ConcState rangeContext Bool, st.pc true = .grow 1 ∧ st.pool.segments = [2, 1] ∧
      ∀ b, st.IsBlock b → b ∈ st.live ∨ ∃ u, (st.pc u).held = some b := by
  obtain ⟨st₀, hexec₀, hout, st, hexec, hpc, hsegs⟩ : ∃ st₀,
      Lib.exec (fun st e => ConcState.advance stubSystem st e.1 e.2) overcounted
        twoBlockStart = some st₀ ∧ st₀.pc true = .idle ∧
      ∃ st, Lib.exec (fun st e => if e.1 then ConcState.advance stubSystem st e.1 e.2 else none)
        ((true, .allocate) :: advanceBy true 2 [2, 1] 3 ++
          (true, .allocate) :: advanceBy true 14 [2, 1] 3 ++
          (true, .allocate) :: advanceBy true 2 [2, 1] 3 ++
          (true, .allocate) :: advanceBy true 9 [2, 1] 3) st₀ = some st ∧
      st.pc true = .grow 1 ∧ st.pool.segments = [2, 1] := ⟨_, rfl, rfl, _, rfl, rfl, rfl⟩
  have hguard : ∀ (_ : ConcState rangeContext Bool) (t : Bool), t = true →
      Label.normal t = .normal true := fun _ _ => congrArg Label.normal
  have hrun : Lib.Run (SoloStep stubSystem true) st₀ _ st := guarded_run_of_schedule hguard hexec
  have hrun₀ := (run_of_schedule hexec₀).map (g := id) fun _ _ _ h => h.2
  exact ⟨st, hpc, hsegs, fun b hb => uncontended_grow ⟨_, _, twoBlockStart_init, hrun₀⟩
    (by rw [hout]; exact id) hrun hpc hb⟩

/-- However the calls interleave, as long as none throws, no more segments are added than
one for each call of `allocate` that has begun and one for each `N` such calls, if the
segments have `N` blocks. -/
theorem registered_le_calls {sys : System} {params : PoolParams} {h : GrowthHistory C Tid}
    (hreach : Lib.Reachable (GrowthHistory.Init params) (GrowthStep sys) h) :
    h.pool.segments.length ≤ h.registered ∧
      segmentBlocks sys params * h.registered ≤ (segmentBlocks sys params + 1) * h.calls := by
  have hinv := reachable_growthInv hreach
  exact ⟨hinv.segments_le, (Nat.le_add_right _ _).trans hinv.funded.total⟩

/-- Five calls, and two segments of two blocks. -/
theorem registered_le_calls_overcounted :
    ∃ h : GrowthHistory rangeContext Bool, h.calls = 5 ∧ h.registered = 2 ∧
      h.pool.segments.length ≤ h.registered ∧ 2 * h.registered ≤ 3 * h.calls := by
  obtain ⟨h, hexec, hcalls, hregistered⟩ : ∃ h,
      Lib.exec (fun h e => GrowthHistory.advance stubSystem h e.1 e.2) overcounted
        twoBlockStart.startHistory = some h ∧ h.calls = 5 ∧ h.registered = 2 := ⟨_, rfl, rfl, rfl⟩
  refine ⟨h, hcalls, hregistered, ?_⟩
  exact registered_le_calls
    ⟨_, _, ⟨twoBlockStart_init, rfl, rfl, rfl⟩, growthRun_of_schedule hexec⟩

end HwMalloc
