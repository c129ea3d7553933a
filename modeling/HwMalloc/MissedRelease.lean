import HwMalloc.ConcurrentInvariant

/-!
# HwMalloc.MissedRelease

Which operation is going to release a complete segment. While all blocks of a
segment are in its freed stack, some call of `free` is still between its push
and its erasure, or the pool is at its reserve and no slow path of `allocate`
has gone past the segment (`AttendedAt`).

**The weak point** is the unlocked test: it can find the counter too high, because a
collector has popped blocks that it has not subtracted yet, and then nobody looks at
the segment again. `TestReliable` excludes just these tests, and under it no complete
segment is forgotten (`no_release_missed`); without it one may be
(`overcounted_missed`).

**How a step is proved.** `Attended` is a statement about the complete segments. Most
steps complete none and take no thread out of the return of a block; they are instances
of one rule (`ConcState.Attended.move`). The steps that matter are the push of a block,
the two tests, the erasure and the growth of the pool, and they have a lemma each.

**Segments without blocks** are complete from the start, and no call of `free` ever
returns a block to them. They are handled apart: a pool whose segments have no blocks
is never idle above its reserve, since the thread that adds segments does not stop.
-/

namespace HwMalloc

variable {C : Context} {Tid : Type}

namespace Pc

/-- The segment to which the operation has returned a block, as long as it can
still release the segment. -/
def returning : Pc C → Option Nat
  | freeInc b | freeTest b | freeLock b | freeRecheck b | freeErase b => some b.segment
  | _ => none

/-- The slow path of `allocate` is not going to empty the freed stack of `s` any
more. -/
def Passed (s : Nat) : Pc C → Prop
  | collectPop s' todo _ | collectPush _ s' todo _ => s ≠ s' ∧ s ∉ todo
  | collectSub _ todo _ => s ∉ todo
  | allocPopCollected | growPop _ | grow _ => True
  | _ => False

/-- In the `while` loop of `allocate`. -/
def Growing : Pc C → Prop
  | growPop _ | grow _ => True
  | _ => False

theorem Passed.critical {s : Nat} {x : Pc C} (h : x.Passed s) : x.Critical := by
  cases x <;> trivial

theorem passed_collectNext {s : Nat} {todo : List Nat} :
    (collectNext todo : Pc C).Passed s ↔ s ∉ todo := by
  cases todo with
  | nil => simp [collectNext, Passed]
  | cons s' todo => simp [collectNext, Passed]

/-- A pop that succeeds ends the slow path. -/
theorem after_onPop {x : Pc C} {next : Block C → Pc C} (h : x.onPop = some next) (b : Block C) :
    x.returning = none ∧ ∀ s, ¬(next b).Passed s := by
  cases x <;> simp only [onPop, Option.some.injEq, reduceCtorEq] at h
  all_goals
    subst h
    exact ⟨rfl, fun _ => id⟩

/-- A pop that fails takes the slow path past no segment that it is to meet. -/
theorem after_onEmpty {x y : Pc C} {order : List Nat} (h : x.onEmpty order = some y) :
    x.returning = none ∧ ∀ s ∈ order, y.Passed s → x.Passed s := by
  cases x <;> simp only [onEmpty, Option.some.injEq, reduceCtorEq] at h
  case allocPopLocked =>
    subst h
    exact ⟨rfl, fun s hs hy => absurd hs (passed_collectNext.mp hy)⟩
  case growPop counter =>
    exact ⟨rfl, fun _ _ _ => trivial⟩
  all_goals
    subst h
    exact ⟨rfl, fun _ _ h => h⟩

/-- A pop that fails does not end the loop. -/
theorem growing_of_onEmpty {x y : Pc C} {order : List Nat} (h : x.onEmpty order = some y)
    (hx : x.Growing) : y.Growing := by
  cases x with
  | growPop counter =>
    simp only [onEmpty, Option.some.injEq] at h
    subst h
    split <;> trivial
  | grow => cases h
  | _ => exact hx.elim

/-- Only an operation that has not counted its block yet delays a counter. -/
theorem returning_of_pendingInc {x : Pc C} {s : Nat} (h : 0 < x.pendingInc s) :
    x.returning = some s := by
  cases x with
  | freeInc b =>
    rw [pendingInc] at h
    split at h
    · next hs => exact congrArg some hs
    · cases h
  | _ => cases h

end Pc

namespace ConcState

/-- All blocks of segment `s` are in its freed stack, and there are some. -/
def Complete (st : ConcState C Tid) (s : Nat) : Prop :=
  0 < (st.world.segmentAt s).numBlocks ∧
    (st.world.segmentAt s).freedStack.length = (st.world.segmentAt s).numBlocks

/-- Somebody can still release segment `s`, or nobody has to: the pool is at its
reserve, and the next slow path empties the freed stack. -/
def AttendedAt (st : ConcState C Tid) (s : Nat) : Prop :=
  (∃ t, (st.pc t).returning = some s) ∨
    st.pool.segments.length ≤ st.pool.numReserveSegments ∧ ∀ t, ¬(st.pc t).Passed s

/-- No complete segment is forgotten. -/
def Attended (st : ConcState C Tid) : Prop :=
  ∀ s ∈ st.pool.segments, st.Complete s → st.AttendedAt s

end ConcState

/-- If the step is the unlocked test of a segment all of whose blocks are in its
freed stack and counted, no collector has popped blocks of the segment that it
has not subtracted yet. -/
def TestReliable [Fintype Tid] (st : ConcState C Tid) (l : Label Tid) : Prop :=
  ∀ t b, l = .normal t → st.pc t = .freeTest b → b.segment ∈ st.pool.segments →
    st.Complete b.segment → st.pendingInc b.segment = 0 → st.pendingSub b.segment = 0

variable [DecidableEq Tid]

/-- The parameters of the pool never change. -/
theorem concStep_params {sys : System} {st st' : ConcState C Tid} {l : Label Tid}
    (h : ConcStepOk sys st l st') : st'.pool.toPoolParams = st.pool.toPoolParams := by
  obtain ⟨⟨t, rfl⟩, h⟩ := h
  cases h with
  | pop _ hpop => rw [ConcState.setPc_pool, (popFree_eq_some hpop).pool]
  | grow _ hadd =>
    obtain ⟨g, -, hgrown⟩ := addSegment_ok hadd
    rw [ConcState.setPc_pool, hgrown.pool]
  | @freeErase _ b _ =>
    by_cases hs : b.segment ∈ st.pool.segments
    · rw [ConcState.setPc_pool, (eraseSegment_erased hs).pool]
    · rw [ConcState.setPc_pool, eraseSegment_of_not_mem hs]
  | _ => rfl

/-! ### One thread moves

Thread `t` goes to `x`, and the rest of the state is that of `st₁`. What has to be
shown for a segment is that the thread still attends to it if it did before, and that it
has not gone past it. -/

/-- A move that does not grow the pool. -/
theorem ConcState.AttendedAt.move {st st₁ : ConcState C Tid} {t : Tid} {x : Pc C} {s : Nat}
    (h : st.AttendedAt s) (hpc : st₁.pc = st.pc)
    (hlen : st₁.pool.segments.length ≤ st.pool.segments.length)
    (hreserve : st₁.pool.numReserveSegments = st.pool.numReserveSegments)
    (hret : (st.pc t).returning = some s → (st₁.setPc t x).AttendedAt s)
    (hpassed : x.Passed s → (st.pc t).Passed s) : (st₁.setPc t x).AttendedAt s := by
  rcases h with ⟨u, hu⟩ | ⟨hsize, hnone⟩
  · by_cases hut : u = t
    · exact hret (hut ▸ hu)
    · refine Or.inl ⟨u, ?_⟩
      rw [ConcState.setPc_pc_ne st₁ t x hut, hpc]
      exact hu
  · refine Or.inr ⟨?_, ?_⟩
    · rw [ConcState.setPc_pool, hreserve]
      exact hlen.trans hsize
    · refine ConcState.forall_setPc st₁ t x (P := fun _ y => ¬y.Passed s)
        (fun hx => hnone t (hpassed hx)) fun u _ => ?_
      rw [hpc]
      exact hnone u

/-- A move that completes no segment and does not end the return of a block. -/
theorem ConcState.Attended.move {st st₁ : ConcState C Tid} {t : Tid} {x : Pc C}
    (h : st.Attended) (hpc : st₁.pc = st.pc)
    (hsegs : st₁.pool.segments = st.pool.segments)
    (hreserve : st₁.pool.numReserveSegments = st.pool.numReserveSegments)
    (hcomplete : ∀ s ∈ st.pool.segments, st₁.Complete s → st.Complete s)
    (hret : ∀ s ∈ st.pool.segments, (st.pc t).returning = some s → x.returning = some s)
    (hpassed : ∀ s ∈ st.pool.segments, st₁.Complete s → x.Passed s → (st.pc t).Passed s) :
    (st₁.setPc t x).Attended := by
  intro s hs hfull
  rw [ConcState.setPc_pool, hsegs] at hs
  refine (h s hs (hcomplete s hs hfull)).move hpc (by rw [hsegs]) hreserve (fun hts => ?_)
    (hpassed s hs hfull)
  exact Or.inl ⟨t, by rw [ConcState.setPc_pc_self]; exact hret s hs hts⟩

/-- A move that leaves the segments alone. -/
theorem ConcState.Attended.stay {st st₁ : ConcState C Tid} {t : Tid} {x : Pc C}
    (h : st.Attended) (hpc : st₁.pc = st.pc) (hworld : st₁.world = st.world)
    (hsegs : st₁.pool.segments = st.pool.segments)
    (hreserve : st₁.pool.numReserveSegments = st.pool.numReserveSegments)
    (hret : ∀ s, (st.pc t).returning = some s → x.returning = some s)
    (hpassed : ∀ s ∈ st.pool.segments, x.Passed s → (st.pc t).Passed s) :
    (st₁.setPc t x).Attended := by
  refine h.move hpc hsegs hreserve (fun s _ hfull => ?_) (fun s _ => hret s)
    fun s hs _ => hpassed s hs
  rwa [ConcState.Complete, hworld] at hfull

/-- An update of a counter: which segments are complete does not depend on it. -/
theorem ConcState.Attended.addFreed {st : ConcState C Tid} {t : Tid} {x : Pc C} {s : Nat}
    {n : Int} (h : st.Attended)
    (hret : ∀ s', (st.pc t).returning = some s' → x.returning = some s')
    (hpassed : ∀ s', x.Passed s' → (st.pc t).Passed s') :
    ((st.modifySegment s (Segment.addFreed n)).setPc t x).Attended := by
  refine h.move rfl rfl rfl (fun s' _ hfull => ?_) (fun s' _ => hret s')
    fun s' _ _ => hpassed s'
  by_cases hss : s' = s <;>
    simpa [ConcState.Complete, ConcState.modifySegment, World.modifySegment_segmentAt, hss]
      using hfull

/-- The slow path finds the freed stack of a segment empty, and passes the
segment. -/
theorem ConcState.Attended.collectEmpty {st : ConcState C Tid} {t : Tid} {s : Nat}
    {todo : List Nat} {n : Nat} (h : st.Attended) (hx : st.pc t = .collectPop s todo n)
    (hfreed : (st.world.segmentAt s).freedStack = []) :
    (st.setPc t (.collectSub s todo n)).Attended := by
  refine h.move rfl rfl rfl (fun _ _ => id) (by simp [hx, Pc.returning]) fun s' _ hfull hp => ?_
  rw [hx]
  refine ⟨?_, hp⟩
  rintro rfl
  obtain ⟨hpos, hlen⟩ := hfull
  rw [hfreed, List.length_nil] at hlen
  exact absurd hlen hpos.ne

/-- A block comes back to its segment: the thread that pushed it attends to the
segment. -/
theorem ConcState.Attended.freePush {st : ConcState C Tid} {t : Tid} {b : Block C}
    (h : st.Attended) (hx : st.pc t = .freePush b) :
    ((st.modifySegment b.segment (Segment.pushFreed b)).setPc t (.freeInc b)).Attended := by
  intro s hs hfull
  by_cases hsb : s = b.segment
  · refine Or.inl ⟨t, ?_⟩
    rw [ConcState.setPc_pc_self, hsb]
    rfl
  · have hold : st.Complete s := by
      simpa [ConcState.Complete, ConcState.modifySegment, World.modifySegment_segmentAt, hsb]
        using hfull
    refine (h s hs hold).move rfl le_rfl rfl (fun hts => ?_) fun hp => hp.elim
    rw [hx] at hts
    cases hts

/-- The pool grows: nobody else is in the slow path, and the growing thread has
gone past every segment, so the complete segments are attended to otherwise. -/
theorem ConcState.Attended.grow {st : ConcState C Tid} {t : Tid} {counter : Nat} {g : Segment C}
    {w : World C} {p : Pool C} (h : st.Attended)
    (hlt : ∀ s ∈ st.pool.segments, s < st.world.nextSegment)
    (hx : st.pc t = .grow counter) (hfreed : g.freedStack = [])
    (hgrown : Grown st.world st.pool g w p) :
    ({ st with world := w, pool := p }.setPc t (.growPop counter)).Attended := by
  intro s hs hfull
  rw [ConcState.Complete, ConcState.setPc_world] at hfull
  rcases hgrown.mem_segments.mp hs with rfl | hs'
  · -- No block has been returned to the new segment.
    rw [hgrown.segmentAt_new, hfreed] at hfull
    exact absurd hfull.2 hfull.1.ne
  · have hold : st.Complete s := by
      rwa [hgrown.segmentAt_old (hlt s hs').ne] at hfull
    rcases h s hs' hold with ⟨u, hu⟩ | ⟨-, hnone⟩
    · refine Or.inl ⟨u, ?_⟩
      have hut : u ≠ t := by
        rintro rfl
        rw [hx] at hu
        cases hu
      rw [ConcState.setPc_pc_ne _ _ _ hut]
      exact hu
    · exact absurd (by rw [hx]; trivial) (hnone t)

variable [Fintype Tid]

omit [DecidableEq Tid] in
/-- A segment whose counter has not reached the block count although all its
blocks are in the freed stack waits for an operation that has not counted its
block. -/
theorem ConcInv.exists_returning {sys : System} {st : ConcState C Tid} (h : ConcInv sys st)
    {s : Nat} (hs : s ∈ st.pool.segments) (hfull : st.Complete s)
    (hempty : (st.world.segmentAt s).isEmpty = false)
    (hsub : st.pendingInc s = 0 → st.pendingSub s = 0) :
    ∃ u, 0 < (st.pc u).pendingInc s := by
  by_contra hnone
  have hinc : st.pendingInc s = 0 := by
    refine Lib.sum_eq_zero fun u => Nat.eq_zero_of_not_pos fun hu => hnone ⟨u, hu⟩
  have hcounter := h.counter s hs
  rw [hinc, hsub hinc, hfull.2] at hcounter
  have hcount : (st.world.segmentAt s).isEmpty = true := by
    rw [Segment.isEmpty_iff]
    simpa using hcounter
  rw [hempty] at hcount
  cases hcount

/-- A test that finds the segment not empty, reliably: if the segment is
complete, another thread has yet to count its block. -/
theorem ConcState.Attended.testFails {sys : System} {st : ConcState C Tid} {t : Tid}
    {b : Block C} {x : Pc C} (h : st.Attended) (hinv : ConcInv sys st)
    (ht : (st.pc t).returning = some b.segment)
    (hcounted : (st.pc t).pendingInc b.segment = 0)
    (hx : ∀ s, ¬x.Passed s)
    (hempty : b.segment ∈ st.pool.segments → (st.world.segmentAt b.segment).isEmpty = false)
    (hsub : b.segment ∈ st.pool.segments → st.Complete b.segment →
      st.pendingInc b.segment = 0 → st.pendingSub b.segment = 0) :
    (st.setPc t x).Attended := by
  intro s hs hfull
  refine (h s hs hfull).move rfl le_rfl rfl (fun hts => ?_) fun hp => absurd hp (hx s)
  obtain rfl : b.segment = s := Option.some.inj (ht.symm.trans hts)
  obtain ⟨u, hu⟩ := hinv.exists_returning hs hfull (hempty hs) (hsub hs hfull)
  have hut : u ≠ t := by
    rintro rfl
    omega
  refine Or.inl ⟨u, ?_⟩
  rw [ConcState.setPc_pc_ne _ _ _ hut]
  exact Pc.returning_of_pendingInc hu

/-- The slow path pops a block from a freed stack: the segment is not complete
afterwards. -/
theorem ConcState.Attended.collectPop {sys : System} {st : ConcState C Tid} {t : Tid} {s : Nat}
    {todo : List Nat} {n : Nat} {b : Block C} {rest : List (Block C)} (h : st.Attended)
    (hinv : ConcInv sys st) (hx : st.pc t = .collectPop s todo n)
    (hfreed : (st.world.segmentAt s).freedStack = b :: rest) :
    ((st.modifySegment s Segment.popFreed).setPc t (.collectPush b s todo (n + 1))).Attended := by
  refine h.move rfl rfl rfl (fun s' hs' hfull => ?_) (by simp [hx, Pc.returning])
    fun s' _ _ hp => by rw [hx]; exact hp
  by_cases hss : s' = s
  · subst hss
    have hle := hinv.freed_length_le hs'
    have hlen := congrArg List.length hfreed
    simp [ConcState.Complete, ConcState.modifySegment, World.modifySegment_segmentAt,
      Segment.popFreed, hfreed] at hfull
    rw [List.length_cons] at hlen
    omega
  · simpa [ConcState.Complete, ConcState.modifySegment, World.modifySegment_segmentAt, hss]
      using hfull

/-- A re-check that finds the segment not empty. Under the mutex no collector is
at work. -/
theorem ConcState.Attended.recheckFails {sys : System} {st : ConcState C Tid} {t : Tid}
    {b : Block C} (h : st.Attended) (hinv : ConcInv sys st) (hx : st.pc t = .freeRecheck b)
    (hempty : b.segment ∈ st.pool.segments → (st.world.segmentAt b.segment).isEmpty = false) :
    (st.setPc t .freeUnlock).Attended := by
  have hcrit : (st.pc t).Critical := by rw [hx]; trivial
  refine h.testFails hinv (by rw [hx]; rfl) (by rw [hx]; rfl) (fun _ => id) hempty
    fun _ _ _ => Lib.sum_eq_zero fun u => ?_
  by_cases hu : (st.pc u).Critical
  · rw [hinv.critical_unique hcrit hu, hx]
    rfl
  · exact Pc.pendingSub_of_not_critical hu _

/-- A re-check that finds the pool at its reserve: nobody has to release the
segment, and under the mutex no slow path has gone past it. -/
theorem ConcState.Attended.recheckReserve {sys : System} {st : ConcState C Tid} {t : Tid}
    {b : Block C} (hinv : ConcInv sys st) (hx : st.pc t = .freeRecheck b)
    (hsize : st.pool.segments.length ≤ st.pool.numReserveSegments) :
    (st.setPc t .freeUnlock).Attended := by
  have hcrit : (st.pc t).Critical := by rw [hx]; trivial
  intro s hs hfull
  refine Or.inr ⟨hsize, ConcState.forall_setPc st t _ (P := fun _ y => ¬y.Passed s) id ?_⟩
  intro u hu hp
  exact hu (hinv.critical_unique hcrit hp.critical)

/-- The erasure of a segment: the others are attended to as before. -/
theorem ConcState.Attended.erase {sys : System} {st : ConcState C Tid} {t : Tid} {b : Block C}
    {w : World C} {p : Pool C} (h : st.Attended) (hinv : ConcInv sys st)
    (hx : st.pc t = .freeErase b) (herased : Erased b.segment st.world st.pool w p) :
    ({ st with world := w, pool := p }.setPc t .freeUnlock).Attended := by
  intro s hs hfull
  have hmem : s ∈ p.segments := hs
  rw [herased.pool] at hmem
  obtain ⟨hne, hmem⟩ := hinv.segments_nodup.mem_erase_iff.mp hmem
  have hold : st.Complete s := by
    rw [ConcState.Complete, ConcState.setPc_world, herased.segmentAt s hne] at hfull
    exact hfull
  refine (h s hmem hold).move rfl ?_ ?_ (fun hts => ?_) fun hp => hp.elim
  · rw [herased.pool]
    exact List.length_erase_le
  · rw [herased.pool]
  · rw [hx] at hts
    exact absurd (Option.some.inj hts).symm hne

/-! ### All steps

The pool must be one that releases segments: with `m_never_free` a call of `free` ends
with the count, and nobody attends to anything. -/

/-- The invariant of the runs in which every unlocked test is reliable. -/
structure AttendedInv (sys : System) (params : PoolParams) (st : ConcState C Tid) : Prop
    extends ConcInv sys st where
  params : st.pool.toPoolParams = params
  attended : st.Attended

theorem ConcState.Attended.step {sys : System} {st st' : ConcState C Tid} {l : Label Tid}
    (h : st.Attended) (hinv : ConcInv sys st) (hnever : st.pool.neverFree = false)
    (htest : TestReliable st l) (hstep : ConcStepOk sys st l st') : st'.Attended := by
  obtain ⟨⟨t, rfl⟩, hstep⟩ := hstep
  cases hstep with
  -- `allocate`: a slow path passes a segment only by finding its freed stack empty.
  | callAllocate hx =>
    exact h.stay rfl rfl rfl rfl (by simp [hx, Pc.returning]) fun _ _ hp => hp.elim
  | pop hx hpop =>
    obtain ⟨hret, hpassed⟩ := Pc.after_onPop hx _
    have hp := (popFree_eq_some hpop).pool
    exact h.stay rfl rfl (by rw [hp]) (by rw [hp]) (by simp [hret])
      fun s _ hps => absurd hps (hpassed s)
  | popEmpty hx _ horder =>
    obtain ⟨hret, hpassed⟩ := Pc.after_onEmpty hx
    exact h.stay rfl rfl rfl rfl (by simp [hret]) fun s hs => hpassed s (horder.mem_iff.mpr hs)
  | allocLock hx _ =>
    exact h.stay rfl rfl rfl rfl (by simp [hx, Pc.returning]) fun _ _ hp => hp.elim
  | collectPop hx hfreed => exact h.collectPop hinv hx hfreed
  | collectEmpty hx hfreed => exact h.collectEmpty hx hfreed
  | collectPush hx =>
    exact h.stay rfl rfl rfl rfl (by simp [hx, Pc.returning]) fun _ _ hp => by rw [hx]; exact hp
  | collectSub hx =>
    exact h.addFreed (by simp [hx, Pc.returning])
      fun _ hp => by rw [hx]; exact Pc.passed_collectNext.mp hp
  | grow hx hadd =>
    obtain ⟨g, hnew, hgrown⟩ := addSegment_ok hadd
    exact h.grow hinv.segments_lt hx hnew.freedStack hgrown
  | allocUnlock hx =>
    exact h.stay rfl rfl rfl rfl (by simp [hx, Pc.returning]) fun _ _ hp => hp.elim
  | allocReturn hx =>
    exact h.stay rfl rfl rfl rfl (by simp [hx, Pc.returning]) fun _ _ hp => hp.elim
  | callFree hx _ =>
    exact h.stay rfl rfl rfl rfl (by simp [hx, Pc.returning]) fun _ _ hp => hp.elim
  -- `free`: from the push to the erasure the thread attends to the segment of its block.
  | freePush hx => exact h.freePush hx
  | freeInc hx =>
    rw [hnever, if_neg Bool.false_ne_true]
    exact h.addFreed (by simp [hx, Pc.returning]) fun _ hp => hp.elim
  | @freeTest _ b read hx hread =>
    cases read with
    | true =>
      exact h.stay rfl rfl rfl rfl (by simp [hx, Pc.returning]) fun _ _ hp => hp.elim
    -- The thread gives up; by the condition on the test it is right to do so.
    | false =>
      exact h.testFails hinv (by rw [hx]; rfl) (by rw [hx]; rfl) (fun _ => id)
        (fun hs => (hread hs).symm) (htest t b rfl hx)
  | freeLock hx _ =>
    exact h.stay rfl rfl rfl rfl (by simp [hx, Pc.returning]) fun _ _ hp => hp.elim
  | @freeRecheck _ b read hx hread =>
    by_cases hcond : (read && decide (st.pool.numReserveSegments < st.pool.segments.length)) = true
    · rw [if_pos hcond]
      exact h.stay rfl rfl rfl rfl (by simp [hx, Pc.returning]) fun _ _ hp => hp.elim
    · rw [if_neg hcond]
      -- Either the segment is not empty, or the pool is at its reserve.
      cases read with
      | false => exact h.recheckFails hinv hx fun hs => (hread hs).symm
      | true => exact .recheckReserve hinv hx (by simpa using hcond)
  | @freeErase _ b hx =>
    by_cases hs : b.segment ∈ st.pool.segments
    · exact h.erase hinv hx (eraseSegment_erased hs)
    · -- There is nothing to erase, and so nothing to attend to.
      rw [eraseSegment_of_not_mem hs]
      refine h.move rfl rfl rfl (fun _ _ => id) (fun s hs' hts => ?_) fun _ _ _ hp => hp.elim
      rw [hx] at hts
      exact absurd (Option.some.inj hts ▸ hs') hs
  | freeUnlock hx =>
    exact h.stay rfl rfl rfl rfl (by simp [hx, Pc.returning]) fun _ _ hp => hp.elim

/-! ### Segments without blocks

If the blocks are larger than the segments, no segment has a block, and the
first thread that has to grow the pool never leaves its loop. -/

/-- A thread is in the loop as soon as there is a segment. -/
def ConcState.Stuck (st : ConcState C Tid) : Prop :=
  st.pool.segments ≠ [] → ∃ t, (st.pc t).Growing

omit [DecidableEq Tid] in
/-- Without blocks the free stack is empty. -/
theorem ConcInv.freeStack_eq_nil {sys : System} {st : ConcState C Tid} (h : ConcInv sys st)
    (hN : segmentBlocks sys st.pool.toPoolParams = 0) : st.pool.freeStack = [] := by
  refine List.eq_nil_iff_forall_not_mem.mpr fun b hb => ?_
  have hpos := List.count_pos_iff.mpr hb
  have hblock : st.IsBlock b := by
    refine h.isBlock_of_places ?_
    simp only [ConcState.places]
    omega
  obtain ⟨i, hi, -⟩ := Segment.mem_blocks.mp hblock.2
  rw [(h.made _ hblock.1).numBlocks, hN] at hi
  exact absurd hi (Nat.not_lt_zero i)

theorem ConcState.Stuck.step {sys : System} {st st' : ConcState C Tid} {l : Label Tid}
    (h : st.Stuck) (hinv : ConcInv sys st)
    (hN : segmentBlocks sys st.pool.toPoolParams = 0) (hstep : ConcStepOk sys st l st') :
    st'.Stuck := by
  obtain ⟨⟨t, rfl⟩, hstep⟩ := hstep
  -- A thread in the loop stays there when another one takes a step.
  have hother : ∀ {st₁ : ConcState C Tid} {x : Pc C}, st₁.pc = st.pc →
      (st₁.pool.segments ≠ [] → st.pool.segments ≠ []) → ¬(st.pc t).Growing →
      (st₁.setPc t x).Stuck := by
    intro st₁ x hpc hsegs ht hne
    obtain ⟨u, hu⟩ := h (hsegs hne)
    refine ⟨u, ?_⟩
    have hut : u ≠ t := by
      rintro rfl
      exact ht hu
    rw [ConcState.setPc_pc_ne st₁ t x hut, hpc]
    exact hu
  have hloops : ∀ {st₁ : ConcState C Tid} {x : Pc C}, x.Growing → (st₁.setPc t x).Stuck :=
    fun {st₁ x} hx _ => ⟨t, by rw [ConcState.setPc_pc_self]; exact hx⟩
  cases hstep with
  -- There is no block to be popped.
  | pop _ hpop =>
    have hfree := (popFree_eq_some hpop).freeStack
    rw [hinv.freeStack_eq_nil hN] at hfree
    cases hfree
  | popEmpty hx =>
    by_cases hgrowing : (st.pc t).Growing
    · exact hloops (Pc.growing_of_onEmpty hx hgrowing)
    · exact hother rfl id hgrowing
  | grow => exact hloops trivial
  -- An erasure does not bring segments into being.
  | @freeErase _ b hx =>
    refine hother rfl (fun hne hnil => ?_) (by rw [hx]; exact id)
    have hs : b.segment ∉ st.pool.segments := by simp [hnil]
    rw [eraseSegment_of_not_mem hs] at hne
    exact hne hnil
  -- No other step changes `m_segments`, or begins in the loop.
  | callAllocate hx => exact hother rfl id (by rw [hx]; exact id)
  | allocLock hx _ => exact hother rfl id (by rw [hx]; exact id)
  | collectPop hx _ => exact hother rfl id (by rw [hx]; exact id)
  | collectEmpty hx _ => exact hother rfl id (by rw [hx]; exact id)
  | collectPush hx => exact hother rfl id (by rw [hx]; exact id)
  | collectSub hx => exact hother rfl id (by rw [hx]; exact id)
  | allocUnlock hx => exact hother rfl id (by rw [hx]; exact id)
  | allocReturn hx => exact hother rfl id (by rw [hx]; exact id)
  | callFree hx _ => exact hother rfl id (by rw [hx]; exact id)
  | freePush hx => exact hother rfl id (by rw [hx]; exact id)
  | freeInc hx => exact hother rfl id (by rw [hx]; exact id)
  | freeTest hx _ => exact hother rfl id (by rw [hx]; exact id)
  | freeLock hx _ => exact hother rfl id (by rw [hx]; exact id)
  | freeRecheck hx _ => exact hother rfl id (by rw [hx]; exact id)
  | freeUnlock hx => exact hother rfl id (by rw [hx]; exact id)

/-- The invariant of the runs of a pool whose segments have no blocks. -/
structure StuckInv (sys : System) (params : PoolParams) (st : ConcState C Tid) : Prop
    extends ConcInv sys st where
  params : st.pool.toPoolParams = params
  stuck : st.Stuck

/-! ### Idle pools above their reserve -/

section

variable {sys : System} {params : PoolParams} {st : ConcState C Tid}

theorem attendedInv_of_reachable (hnever : params.neverFree = false)
    (h : Lib.Reachable (ConcState.Init params) (Lib.Guarded TestReliable (ConcStepOk sys)) st) :
    AttendedInv sys params st := by
  refine h.invariant (fun st₀ hinit => ?_) fun st l st' hinv hstep => ?_
  · refine ⟨ConcInv.init hinit, by rw [hinit.1]; rfl, fun s hs => ?_⟩
    rw [hinit.1] at hs
    cases hs
  · have hnever' : st.pool.neverFree = false := by rw [hinv.params]; exact hnever
    exact ⟨hinv.toConcInv.step hstep.2, (concStep_params hstep.2).trans hinv.params,
      hinv.attended.step hinv.toConcInv hnever' hstep.1 hstep.2⟩

theorem stuckInv_of_reachable (hN : segmentBlocks sys params = 0)
    (h : Lib.Reachable (ConcState.Init params) (Lib.Guarded TestReliable (ConcStepOk sys)) st) :
    StuckInv sys params st := by
  refine h.invariant (fun st₀ hinit => ?_) fun st l st' hinv hstep => ?_
  · refine ⟨ConcInv.init hinit, by rw [hinit.1]; rfl, fun hne => ?_⟩
    rw [hinit.1] at hne
    exact absurd rfl hne
  · exact ⟨hinv.toConcInv.step hstep.2, (concStep_params hstep.2).trans hinv.params,
      hinv.stuck.step hinv.toConcInv (hinv.params ▸ hN) hstep.2⟩

/-- When no operation is in flight, a pool above its reserve has no segment all
of whose blocks are in its freed stack, in every run in which no unlocked test
of a complete segment meets a collector that has yet to reduce the counter. -/
theorem no_release_missed (hnever : params.neverFree = false)
    (h : Lib.Reachable (ConcState.Init params) (Lib.Guarded TestReliable (ConcStepOk sys)) st)
    (hidle : ∀ t, st.pc t = .idle)
    (hsize : max params.numReserveSegments 1 < st.pool.segments.length) :
    ∀ s ∈ st.pool.segments, ∃ b ∈ (st.world.segmentAt s).blocks s st.pool.deviceId,
      b ∉ (st.world.segmentAt s).freedStack := by
  intro s hs
  have hinv := attendedInv_of_reachable hnever h
  have hmade := hinv.made s hs
  by_contra hall
  have hsub : (st.world.segmentAt s).blocks s st.pool.deviceId ⊆
      (st.world.segmentAt s).freedStack := by
    intro b hb
    by_contra hnot
    exact hall ⟨b, hb, hnot⟩
  have hle := (List.subperm_of_subset (hmade.blocks_nodup s st.pool.deviceId) hsub).length_le
  rw [Segment.blocks_length] at hle
  have hfull := le_antisymm (hinv.freed_length_le hs) hle
  rcases Nat.eq_zero_or_pos (st.world.segmentAt s).numBlocks with hzero | hpos
  · -- Segments without blocks: some thread would still be in its loop.
    have hN : segmentBlocks sys params = 0 := by
      rw [← hinv.params, ← hmade.numBlocks, hzero]
    obtain ⟨t, ht⟩ := (stuckInv_of_reachable hN h).stuck (List.ne_nil_of_mem hs)
    rw [hidle t] at ht
    exact ht
  · -- The segment is attended to, by nobody since all are idle, so at the reserve.
    rcases hinv.attended s hs ⟨hpos, hfull⟩ with ⟨t, ht⟩ | ⟨hreserve, -⟩
    · rw [hidle t] at ht
      cases ht
    · have hparams : st.pool.numReserveSegments = params.numReserveSegments := by
        rw [hinv.params]
      have hle := le_max_left params.numReserveSegments 1
      omega

end

/-- The check of `TestReliable`, for two threads. -/
def ConcState.testsReliably (st : ConcState C Bool) (t : Bool) : Bool :=
  match st.pc t with
  | .freeTest b => (st.pc !t).pendingSub b.segment == 0 ||
      (st.world.segmentAt b.segment).freedStack.length !=
        (st.world.segmentAt b.segment).numBlocks
  | _ => true

theorem testReliable_of_testsReliably (st : ConcState C Bool) (t : Bool)
    (h : st.testsReliably t = true) : TestReliable st (.normal t) := by
  intro u b hu hx _ hcomplete _
  cases hu
  rw [ConcState.testsReliably, hx] at h
  have hother : (st.pc !t).pendingSub b.segment = 0 := by simpa [hcomplete.2] using h
  have hself : (st.pc t).pendingSub b.segment = 0 := by rw [hx]; rfl
  refine Finset.sum_eq_zero fun v _ => ?_
  by_cases hv : v = t
  · rw [hv]
    exact hself
  · rw [Bool.eq_not_of_ne hv]
    exact hother

/-- All blocks of three segments are handed out. Thread `false` returns one block of
segment 1 and, while `true` collects it, the other one: its unlocked test reads 2, and
the one under the lock 1, since `true` has subtracted the block that it took. When
`true` returns this block, it releases the segment. -/
def collectAndRelease : List (Bool × Choice rangeContext) :=
  threeAllocations ++
    (true, .allocate) :: advanceBy true 2 [] 1 ++
    (false, .allocate) :: advanceBy false 13 [2, 1] 3 ++
    (true, .allocate) :: advanceBy true 2 [] 1 ++
    (false, .free (twoBlock 1 0)) :: advanceBy false 3 [] 1 ++
    (true, .allocate) :: advanceBy true 6 [1, 3, 2] 1 ++
    (false, .free (twoBlock 1 1)) :: advanceBy false 3 [] 1 ++
    advanceBy true 8 [] 1 ++ advanceBy false 3 [] 1 ++
    (true, .free (twoBlock 1 0)) :: advanceBy true 7 [] 1

theorem no_release_missed_collectAndRelease :
    ∃ st : ConcState rangeContext Bool, st.pool.segments = [3, 2] ∧
      st.live.map Block.segment = [3, 3, 2, 2] ∧
      ∀ s ∈ [3, 2], ∃ b ∈ (st.world.segmentAt s).blocks s st.pool.deviceId,
        b ∉ (st.world.segmentAt s).freedStack := by
  obtain ⟨st, hexec, hsegs, hlive, hf, ht⟩ : ∃ st, Lib.exec (fun st e =>
      if st.testsReliably e.1 then ConcState.advance stubSystem st e.1 e.2 else none)
      collectAndRelease twoBlockStart = some st ∧ st.pool.segments = [3, 2] ∧
      st.live.map Block.segment = [3, 3, 2, 2] ∧
      st.pc false = .idle ∧ st.pc true = .idle := ⟨_, rfl, rfl, rfl, rfl, rfl⟩
  have hrun := guarded_run_of_schedule testReliable_of_testsReliably hexec
  have hidle : ∀ t, st.pc t = .idle := fun t => by cases t <;> assumption
  refine ⟨st, hsegs, hlive, ?_⟩
  rw [← hsegs]
  exact no_release_missed rfl ⟨twoBlockStart, _, twoBlockStart_init, hrun⟩ hidle
    (by rw [hsegs]; decide)

/-! ### A release that is missed

Thread `false` has returned both blocks of segment 1, and its next call of
`allocate` has collected them but not reduced the counter. Thread `true` takes
both blocks and returns them; its tests read 3 and 4 instead of 1 and 2. Then
`false` reduces the counter, finds the free stack empty and adds a segment. -/

/-- The calls. -/
def overcounted : List (Bool × Choice rangeContext) :=
  (false, .allocate) :: advanceBy false 9 [] 1 ++
    (false, .allocate) :: advanceBy false 2 [1] 1 ++
    (false, .free (twoBlock 1 0)) :: advanceBy false 3 [1] 1 ++
    (false, .free (twoBlock 1 1)) :: advanceBy false 6 [1] 1 ++
    (false, .allocate) :: advanceBy false 8 [1] 1 ++
    (true, .allocate) :: advanceBy true 2 [1] 1 ++
    (true, .allocate) :: advanceBy true 2 [1] 1 ++
    (true, .free (twoBlock 1 0)) :: advanceBy true 3 [1] 1 ++
    (true, .free (twoBlock 1 1)) :: advanceBy true 3 [1] 1 ++
    advanceBy false 7 [1] 2

theorem exec_overcounted :
    ∃ st, Lib.exec (fun st e => ConcState.advance stubSystem st e.1 e.2) overcounted
        twoBlockStart = some st ∧
      st.pool.neverFree = false ∧ st.pool.segments = [2, 1] ∧ st.pc false = .idle ∧
      st.pc true = .idle ∧ (st.world.segmentAt 1).freedStack = [twoBlock 1 1, twoBlock 1 0] ∧
      (st.world.segmentAt 1).blocks 1 st.pool.deviceId = [twoBlock 1 0, twoBlock 1 1] :=
  ⟨_, rfl, rfl, rfl, rfl, rfl, rfl, rfl⟩

/-- The reserve is one segment, and segment 1 stays although all its blocks are
in its freed stack. -/
theorem overcounted_missed :
    ∃ st : ConcState rangeContext Bool,
      Lib.Reachable (ConcState.Init twoBlockPool.toPoolParams) (ConcStepOk stubSystem) st ∧
      st.pool.neverFree = false ∧ (∀ t, st.pc t = .idle) ∧
      max twoBlockPool.numReserveSegments 1 < st.pool.segments.length ∧
      ¬∀ s ∈ st.pool.segments, ∃ b ∈ (st.world.segmentAt s).blocks s st.pool.deviceId,
        b ∉ (st.world.segmentAt s).freedStack := by
  obtain ⟨st, hexec, hnever, hsegs, hf, ht, hfreed, hblocks⟩ := exec_overcounted
  refine ⟨st, reachable_of_schedule hexec, hnever, fun t => by cases t <;> assumption,
    by rw [hsegs]; decide, fun hall => ?_⟩
  obtain ⟨b, hb, hnot⟩ := hall 1 (by rw [hsegs]; decide)
  rw [hblocks] at hb
  rw [hfreed] at hnot
  rcases List.mem_pair.mp hb with rfl | rfl
  · exact hnot (by simp)
  · exact hnot (by simp)

end HwMalloc
