import HwMalloc.ArrayRequests
import HwMalloc.Concurrent
import HwMalloc.Lib.Progress

/-!
# HwMalloc.Starvation

What a pool that keeps its segments for ever does not guarantee. The pop without
the lock takes part in no order: while one thread is in the loop of `allocate` that
adds segments, the blocks it has just published may all be popped, and returned,
by another thread. The returned blocks are on the stacks of their segments, which
the loop does not collect again, so it adds the next segment.

`Drained` is the state at the head of the loop, and `drained_round` is one round: it
starts and ends there, with one segment more. An infinite run is then a sequence of
rounds (`Lib.exists_infiniteRun_of_rounds`). Only two threads take steps, one of which
never leaves its call, while the other returns each block before it asks for the next.

It takes a pool that never releases segments: the thread that returns the blocks would
otherwise come to the lock as well, and wait there.
-/

namespace HwMalloc

variable {C : Context} {Tid : Type} [DecidableEq Tid]

/-! ### Two threads -/

/-- The environment can grant the memory and the registrations of a segment. -/
def Grants (C : Context) (sys : System) (params : PoolParams) : Prop :=
  ∀ (w : World C) (p : Pool C), p.toPoolParams = params →
    ∃ env w' p', addSegment sys env w p = (.ok (), w', p')

/-- The steps of the threads `t` and `u`, while `t` owns the mutex and clients hold at
most one block. -/
def ContendedStep (sys : System) (t u : Tid) :
    ConcState C Tid → Label Tid → ConcState C Tid → Prop :=
  Lib.Guarded (fun st l => (l = .normal t ∨ l = .normal u) ∧ st.mutex = some t ∧
    st.live.length ≤ 1) (ConcStepOk sys)

/-- Thread `t` owns the mutex and stands at `x`, thread `u` is between its calls, and
the free stack is `free`; the pool has `k` segments. -/
structure Contended (t u : Tid) (params : PoolParams) (x : Pc C) (free : List (Block C)) (k : Nat)
    (st : ConcState C Tid) : Prop where
  mutex : st.mutex = some t
  inside : st.pc t = x
  outside : st.pc u = .idle
  live : st.live = []
  params : st.pool.toPoolParams = params
  freeStack : st.pool.freeStack = free
  segments : st.pool.segments.length = k

variable {sys : System} {t u : Tid} {params : PoolParams} {x : Pc C} {free : List (Block C)}
  {k : Nat} {st : ConcState C Tid}

namespace Contended

omit [DecidableEq Tid] in
theorem popFree_nil (h : Contended t u params x [] k st) : st.pool.popFree = none := by
  rw [Pool.popFree, h.freeStack]

/-- A step of `t` that touches nothing but `t`. -/
theorem move (h : Contended t u params x free k st) (htu : t ≠ u) (y : Pc C) :
    Contended t u params y free k (st.setPc t y) where
  mutex := h.mutex
  inside := st.setPc_pc_self t y
  outside := by rw [st.setPc_pc_ne t y htu.symm, h.outside]
  live := h.live
  params := h.params
  freeStack := h.freeStack
  segments := h.segments

end Contended

/-- Thread `u` allocates and frees: the block on the top moves to the stack of its
segment. -/
theorem contended_steal {b : Block C} (h : Contended t u params x (b :: free) k st) (htu : t ≠ u)
    (hnever : params.neverFree = true) :
    ∃ ls st', Lib.Run (ContendedStep sys t u) st ls st' ∧
      Contended t u params x free k st' := by
  have hok : ∀ {s s' : ConcState C Tid}, s.mutex = some t → s.live.length ≤ 1 →
      ConcStep sys s (.normal u) s' → ContendedStep sys t u s (.normal u) s' :=
    fun hm hl hstep => ⟨⟨Or.inr rfl, hm, hl⟩, ⟨u, rfl⟩, hstep⟩
  have hpop : st.pool.popFree = some (b, { st.pool with freeStack := free }) := by
    rw [Pool.popFree, h.freeStack]
  have hlive : st.live.length ≤ 1 := by simp [h.live]
  -- The call of `allocate` takes three steps, and the call of `free` another three.
  let st₁ := st.setPc u .allocPop
  let st₂ := { st₁ with pool := { st.pool with freeStack := free } }.setPc u (.allocReturn b)
  let st₃ := { st₂ with live := b :: st₂.live }.setPc u .idle
  let st₄ := { st₃ with live := st₃.live.erase b }.setPc u (.freePush b)
  let st₅ := (st₄.modifySegment b.segment (Segment.pushFreed b)).setPc u (.freeInc b)
  let st₆ := (st₅.modifySegment b.segment (Segment.addFreed 1)).setPc u
    (if st₅.pool.neverFree then .idle else .freeTest b)
  have h₁ : ContendedStep sys t u st (.normal u) st₁ :=
    hok h.mutex hlive (.callAllocate h.outside)
  have h₂ : ContendedStep sys t u st₁ (.normal u) st₂ :=
    hok h.mutex hlive (.pop (by rw [st.setPc_pc_self]; rfl) hpop)
  have h₃ : ContendedStep sys t u st₂ (.normal u) st₃ :=
    hok h.mutex hlive (.allocReturn (ConcState.setPc_pc_self ..))
  have hone : st₃.live = [b] := by
    show b :: st.live = [b]
    rw [h.live]
  have h₄ : ContendedStep sys t u st₃ (.normal u) st₄ :=
    hok h.mutex (by simp [hone]) (.callFree (ConcState.setPc_pc_self ..) (by simp [hone]))
  have hnone : st₄.live = [] := by
    show st₃.live.erase b = []
    simp [hone]
  have h₅ : ContendedStep sys t u st₄ (.normal u) st₅ :=
    hok h.mutex (by simp [hnone]) (.freePush (ConcState.setPc_pc_self ..))
  have h₆ : ContendedStep sys t u st₅ (.normal u) st₆ :=
    hok h.mutex (by show st₄.live.length ≤ 1; simp [hnone])
      (.freeInc (ConcState.setPc_pc_self ..))
  have hend : st₆.pc u = .idle := by
    have hnever' : st₅.pool.neverFree = true :=
      (congrArg PoolParams.neverFree h.params).trans hnever
    rw [ConcState.setPc_pc_self, if_pos hnever']
  refine ⟨_, st₆, (((((Lib.Run.single h₁).snoc h₂).snoc h₃).snoc h₄).snoc h₅).snoc h₆, ?_⟩
  refine ⟨h.mutex, ?_, hend, hnone, h.params, rfl, h.segments⟩
  have hpc : st₆.pc t = st.pc t := by
    simp only [st₆, st₅, st₄, st₃, st₂, st₁, ConcState.setPc_pc_ne _ _ _ htu,
      ConcState.modifySegment]
  rw [hpc, h.inside]

/-- Thread `u` does so with every block of the free stack. -/
theorem contended_drain (sys : System) (htu : t ≠ u) (hnever : params.neverFree = true) :
    ∀ st : ConcState C Tid, Contended t u params x free k st →
      ∃ ls st', Lib.Run (ContendedStep sys t u) st ls st' ∧
        Contended t u params x [] k st' := by
  induction free with
  | nil => exact fun st h => ⟨[], st, .refl st, h⟩
  | cons b free ih =>
    intro st h
    obtain ⟨ls, st₁, hrun, h₁⟩ := contended_steal h htu hnever
    obtain ⟨ls', st₂, hrun', h₂⟩ := ih st₁ h₁
    exact ⟨ls ++ ls', st₂, hrun.append hrun', h₂⟩

/-- Thread `t` finds the free stack empty at the head of its loop. -/
theorem contended_popEmpty (sys : System) {counter : Nat}
    (h : Contended t u params (.growPop counter) [] k st) :
    ContendedStep sys t u st (.normal t) (st.setPc t
      (if counter % 2 = 0 then .grow (counter + 1) else .growPop (counter + 1))) := by
  refine ⟨⟨Or.inl rfl, h.mutex, by simp [h.live]⟩, ⟨t, rfl⟩, ?_⟩
  exact .popEmpty (by rw [h.inside]; rfl) h.popFree_nil (.refl _)

/-! ### One round -/

/-- At the head of the loop of `allocate`, before an addition of a segment; the
free stack is empty. -/
def Drained (t u : Tid) (params : PoolParams) (st : ConcState C Tid) : Prop :=
  ∃ counter, counter % 2 = 0 ∧
    Contended t u params (.growPop counter) [] st.pool.segments.length st

/-- One round: `t` adds a segment, `u` drains the free stack, and `t` finds it empty
twice. -/
theorem drained_round (htu : t ≠ u) (hnever : params.neverFree = true)
    (hgrants : Grants C sys params) (h : Drained t u params st) :
    ∃ ls st', ls ≠ [] ∧ Lib.Run (ContendedStep sys t u) st ls st' ∧ Drained t u params st' ∧
      st.pool.segments.length < st'.pool.segments.length := by
  obtain ⟨counter, heven, h⟩ := h
  have hodd : (counter + 1) % 2 ≠ 0 := by omega
  have hempty := contended_popEmpty sys h
  rw [if_pos heven] at hempty
  have h₁ := h.move htu (.grow (counter + 1))
  obtain ⟨env, w, p, hadd⟩ := hgrants _ _ h₁.params
  obtain ⟨g, -, hgrown⟩ := addSegment_ok hadd
  let st₂ := { st.setPc t (.grow (counter + 1)) with world := w, pool := p }.setPc t
    (.growPop (counter + 1))
  have hgrow : ContendedStep sys t u (st.setPc t (.grow (counter + 1))) (.normal t) st₂ :=
    ⟨⟨Or.inl rfl, h₁.mutex, by simp [h.live]⟩, ⟨t, rfl⟩, .grow h₁.inside hadd⟩
  have h₂ : Contended t u params (.growPop (counter + 1)) p.freeStack
      (st.pool.segments.length + 1) st₂ := by
    refine ⟨h.mutex, ConcState.setPc_pc_self .., ?_, h.live, ?_, rfl, ?_⟩
    · rw [ConcState.setPc_pc_ne _ _ _ htu.symm]
      exact h₁.outside
    · show p.toPoolParams = params
      rw [hgrown.pool]
      exact h.params
    · show p.segments.length = _
      rw [hgrown.pool]
      rfl
  -- The other thread takes all blocks of the new segment, one after the other.
  obtain ⟨ls, st₃, hdrain, h₃⟩ := contended_drain sys htu hnever st₂ h₂
  have hagain := contended_popEmpty sys h₃
  rw [if_neg hodd] at hagain
  have h₄ := h₃.move htu (.growPop (counter + 1 + 1))
  refine ⟨_, _, ?_, ((((Lib.Run.single hempty).snoc hgrow).append hdrain).snoc hagain),
    ⟨_, by omega, h₄.segments ▸ h₄⟩, ?_⟩
  · simp
  · rw [h₄.segments]
    exact Nat.lt_succ_self _

/-! ### The infinite run -/

/-- The first call of a thread gets to the loop, by itself. -/
theorem exists_drained (sys : System) (hinit : st.Init params) (htu : t ≠ u) :
    ∃ ls st', Lib.Run (ConcStepOk sys) st ls st' ∧ Drained t u params st' := by
  obtain ⟨hpool, hmutex, hpc, hlive⟩ := hinit
  have hpop : st.pool.popFree = none := by
    rw [hpool]
    rfl
  have hnil : st.pool.segments = [] := by
    rw [hpool]
    rfl
  let st₁ := st.setPc t .allocPop
  let st₂ := st₁.setPc t .allocLock
  let st₃ := { st₂ with mutex := some t }.setPc t .allocPopLocked
  let st₄ := st₃.setPc t .allocPopCollected
  let st₅ := st₄.setPc t (.growPop 0)
  have hok : ∀ {s s' : ConcState C Tid}, ConcStep sys s (.normal t) s' →
      ConcStepOk sys s (.normal t) s' := fun hstep => ⟨⟨t, rfl⟩, hstep⟩
  have h₁ : ConcStepOk sys st (.normal t) st₁ := hok (.callAllocate (hpc t))
  have h₂ : ConcStepOk sys st₁ (.normal t) st₂ :=
    hok (.popEmpty (by rw [st.setPc_pc_self]; rfl) hpop (.of_eq hnil.symm))
  have h₃ : ConcStepOk sys st₂ (.normal t) st₃ :=
    hok (.allocLock (st₁.setPc_pc_self ..) hmutex)
  have h₄ : ConcStepOk sys st₃ (.normal t) st₄ :=
    hok (.popEmpty (by rw [ConcState.setPc_pc_self]; rfl) hpop (.of_eq hnil.symm))
  have h₅ : ConcStepOk sys st₄ (.normal t) st₅ :=
    hok (.popEmpty (by rw [st₃.setPc_pc_self]; rfl) hpop (.of_eq hnil.symm))
  refine ⟨_, st₅, ((((Lib.Run.single h₁).snoc h₂).snoc h₃).snoc h₄).snoc h₅, 0, rfl, ?_⟩
  refine ⟨rfl, st₄.setPc_pc_self .., ?_, hlive, ?_, ?_, rfl⟩
  · simp only [st₅, st₄, st₃, st₂, st₁, ConcState.setPc_pc_ne _ _ _ htu.symm]
    exact hpc u
  · show st.pool.toPoolParams = params
    rw [hpool]
    rfl
  · show st.pool.freeStack = []
    rw [hpool]
    rfl

/-- A call of `allocate` need not return, and the demand does not bound the memory.
A pool that keeps its segments for ever can be led to a state from which two threads go
on for ever: one of them stays under the lock, segments are added without bound, and the
clients never hold more than one block. -/
theorem allocate_starves {st₀ : ConcState C Tid} (hinit : st₀.Init params) (htu : t ≠ u)
    (hnever : params.neverFree = true) (hgrants : Grants C sys params) :
    ∃ ls st, Lib.Run (ConcStepOk sys) st₀ ls st ∧
      ∃ run : Lib.InfiniteRun (ContendedStep sys t u) st,
        ∀ N, ∃ n, N ≤ (run.state n).pool.segments.length := by
  obtain ⟨ls, st, hrun, hdrained⟩ := exists_drained sys hinit htu
  refine ⟨ls, st, hrun, ?_⟩
  exact Lib.exists_infiniteRun_of_rounds (μ := fun st : ConcState C Tid => st.pool.segments.length)
    (fun _ h => drained_round htu hnever hgrants h) hdrained

/-- The pool of `twoBlockPool`, but it keeps its segments. -/
def keepingStart : ConcState rangeContext Bool :=
  { twoBlockStart with pool := Pool.new (pool 2048 4096 0 true 1) ⟨.sized 0, false, 0⟩ }

theorem allocate_starves_twoBlocks :
    ∃ ls st, Lib.Run (ConcStepOk stubSystem) keepingStart ls st ∧
      ∃ run : Lib.InfiniteRun (ContendedStep stubSystem false true) st,
        ∀ N, ∃ n, N ≤ (run.state n).pool.segments.length := by
  have hinit : keepingStart.Init (pool 2048 4096 0 true 1) := ⟨rfl, rfl, fun _ => rfl, rfl⟩
  refine allocate_starves hinit Bool.false_ne_true rfl fun w p hparams => ?_
  have hnode : p.numaNode = 0 := congrArg PoolParams.numaNode hparams
  have hsize : p.segmentSize = 4096 := congrArg PoolParams.segmentSize hparams
  have hpages : numPages stubSystem p.segmentSize ≠ 0 := by
    rw [hsize]
    decide
  exact ⟨grantAt 4096, addSegment_grantAt (by decide) w
    (congrArg PoolParams.allocateOnDevice hparams) hnode hpages⟩

end HwMalloc
