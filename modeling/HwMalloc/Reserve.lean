import HwMalloc.PoolRuns

/-!
# HwMalloc.Reserve

How many segments an idle pool keeps. A segment is released by the call of
`free` that completes its freed stack, so a pool above its reserve has no
complete freed stack (`Settled`).

That does not bring an idle pool down to its reserve: blocks that the collect loop has
moved to the free stack keep their segments incomplete. `idle_segments` says that this
is the only way. With one block to a segment there is no such remainder: a segment is
live or complete, and the collection happens only when the pool is within its reserve
or has nothing to collect.
-/

namespace HwMalloc

variable {C : Context}

/-! ### Settled pools -/

/-- A pool above its reserve: every segment misses a block in its freed stack,
and with one block in each segment no block is idle. -/
structure Settled (sys : System) (w : World C) (p : Pool C) : Prop where
  incomplete : p.numReserveSegments < p.segments.length → ∀ s ∈ p.segments,
    (w.segmentAt s).freedStack.length < (w.segmentAt s).numBlocks
  all_live : segmentBlocks sys p.toPoolParams = 1 →
    p.numReserveSegments < p.segments.length → p.freeStack = []

namespace Settled

variable {sys : System} {w w' : World C} {p p' : Pool C} {live : List (Block C)}

theorem popped {b : Block C} (h : Settled sys w p) (hpop : Popped p b p') :
    Settled sys w p' := by
  rw [hpop.pool]
  refine ⟨h.incomplete, fun hone hsize => ?_⟩
  have hnil := h.all_live hone hsize
  rw [hpop.freeStack] at hnil
  cases hnil

/-- After the collect loop every freed stack is empty. -/
theorem freed_of_collected {order : List Nat} (horder : order.Perm p.segments)
    (hcol : Collected order w p w' p') {s : Nat} (hs : s ∈ p.segments) :
    (w'.segmentAt s).freedStack = [] ∧ (w'.segmentAt s).numBlocks = (w.segmentAt s).numBlocks := by
  rw [hcol.segmentAt, if_pos (horder.mem_iff.mpr hs)]
  exact ⟨rfl, rfl⟩

theorem collected {order : List Nat} (h : Settled sys w p) (hinv : PoolInv sys w p live)
    (hN : 1 ≤ segmentBlocks sys p.toPoolParams) (horder : order.Perm p.segments)
    (hempty : p.freeStack = []) (hcol : Collected order w p w' p') : Settled sys w' p' := by
  rw [hcol.pool]
  refine ⟨fun _ s hs => ?_, fun hone hsize => ?_⟩
  · obtain ⟨hfreed, hnum⟩ := freed_of_collected horder hcol hs
    rw [hfreed, hnum, (hinv.made s hs).numBlocks]
    exact hN
  · -- With one block in each segment an incomplete freed stack is empty.
    have hfreed : order.flatMap (fun s => (w.segmentAt s).freedStack) = [] := by
      refine List.flatMap_eq_nil_iff.mpr fun s hs => ?_
      have hs' := horder.mem_iff.mp hs
      have hlt := h.incomplete hsize s hs'
      rw [(hinv.made s hs').numBlocks, hone] at hlt
      exact List.length_eq_zero_iff.mp (Nat.lt_one_iff.mp hlt)
    have hfree := hcol.freeStack
    rw [hfreed, hempty, List.append_nil] at hfree
    exact hfree.eq_nil

/-- A new segment comes when no freed stack holds a block. -/
theorem grown {env : GrowEnv C} {g : Segment C} {b : Block C} (hinv : PoolInv sys w p live)
    (hN : 1 ≤ segmentBlocks sys p.toPoolParams)
    (hfreed : ∀ s ∈ p.segments, (w.segmentAt s).freedStack = []) (hempty : p.freeStack = [])
    {p₂ : Pool C} (hnew : NewSegment sys env p.self p.toPoolParams g)
    (hgrown : Grown w p g w' p₂) (hpop : Popped p₂ b p') : Settled sys w' p' := by
  have hinv' := hinv.grown hnew hgrown
  have hnil : ∀ s ∈ p₂.segments, (w'.segmentAt s).freedStack = [] := by
    rw [hgrown.pool]
    refine List.forall_mem_cons.mpr ⟨by rw [hgrown.segmentAt_new, hnew.freedStack], ?_⟩
    intro s hs
    rw [hgrown.segmentAt_old (hinv.segments_lt s hs).ne]
    exact hfreed s hs
  have hparams : p₂.toPoolParams = p.toPoolParams := by rw [hgrown.pool]
  rw [hpop.pool]
  refine ⟨fun _ s hs => ?_, fun hone _ => ?_⟩
  · rw [hnil s hs, (hinv'.made s hs).numBlocks, hparams]
    exact hN
  · change p'.freeStack = []
    have hlen := congrArg List.length hpop.freeStack
    rw [hgrown.pool] at hlen
    simp only [hempty, List.append_nil, Segment.blocks_length, hnew.numBlocks,
      List.length_cons] at hlen
    rw [hparams] at hone
    rw [hone] at hlen
    exact List.length_eq_zero_iff.mp (by omega)

theorem allocated {env : AllocEnv C} {fuel : Nat} {b : Block C} (h : Settled sys w p)
    (hinv : PoolInv sys w p live) (hN : 1 ≤ segmentBlocks sys p.toPoolParams)
    (horder : env.order.Perm p.segments)
    (halloc : p.allocate sys env fuel w = some (.ok b, w', p')) : Settled sys w' p' := by
  have hnodup : env.order.Nodup := horder.nodup_iff.mpr hinv.segments_nodup
  rcases allocate_ok hnodup halloc with
    ⟨rfl, hpop⟩ | ⟨hempty, w₁, p₁, hcol, ⟨rfl, hpop⟩ | ⟨hempty₁, g, p₂, hnew, hgrown, hpop⟩⟩
  · exact h.popped hpop
  · exact (h.collected hinv hN horder hempty hcol).popped hpop
  · have hinv₁ := hinv.collected horder hcol
    have hparams : p₁.toPoolParams = p.toPoolParams := by rw [hcol.pool]
    have hself : p₁.self = p.self := by rw [hcol.pool]
    have hsegs : p₁.segments = p.segments := by rw [hcol.pool]
    refine grown hinv₁ (hparams ▸ hN) ?_ hempty₁ (hself ▸ hparams ▸ hnew) hgrown hpop
    intro s hs
    exact (freed_of_collected horder hcol (hsegs ▸ hs)).1

/-- `free` keeps a complete freed stack only at or below the reserve. -/
theorem freed {b : Block C} (h : Settled sys w p) (hinv : PoolInv sys w p live)
    (hnever : p.neverFree = false) (hb : b ∈ live) :
    Settled sys (p.free b w).1 (p.free b w).2 := by
  have hs := (hinv.live_mem_blocks hb).1
  rcases free_cases b w p with ⟨heq, hkeep⟩ | ⟨heq, -, -, hsize⟩
  · rw [heq]
    refine ⟨fun hsize s hs' => ?_, h.all_live⟩
    have hold := h.incomplete hsize s hs'
    by_cases hself : s = b.segment
    · -- The block did not complete the stack, or the segment would be gone.
      have hne : ((segmentFree b w).segmentAt b.segment).isEmpty ≠ true := fun hempty =>
        hkeep ⟨hnever, hempty, hsize⟩
      rw [Ne, Segment.isEmpty_iff, segmentFree_segmentAt_self, Segment.addFreed_numFreed,
        Segment.pushFreed_numFreed, hinv.numFreed _ hs, Segment.addFreed_numBlocks,
        Segment.pushFreed_numBlocks] at hne
      subst hself
      rw [segmentFree_segmentAt_self, Segment.addFreed_freedStack, Segment.pushFreed_freedStack,
        List.length_cons, Segment.addFreed_numBlocks, Segment.pushFreed_numBlocks]
      omega
    · rw [segmentFree_segmentAt_ne hself]
      exact hold
  · -- The segment is gone, and the others are as they were.
    rw [heq]
    have herased := eraseSegment_erased (w := segmentFree b w) hs
    rw [herased.pool]
    refine ⟨fun _ s hs' => ?_, fun hone _ => h.all_live hone hsize⟩
    have hne : s ≠ b.segment := fun h => hinv.segments_nodup.not_mem_erase (h ▸ hs')
    rw [herased.segmentAt s hne, segmentFree_segmentAt_ne hne]
    exact h.incomplete hsize s (List.mem_of_mem_erase hs')

theorem of_init {params : PoolParams} {st : PoolState C} (h : st.Init params) :
    Settled sys st.world st.pool := by
  rw [h.1]
  exact ⟨fun _ s hs => by simp [Pool.new] at hs, fun _ _ => rfl⟩

end Settled

/-! ### Idle pools -/

/-- The invariant of the runs of a pool that releases segments. -/
structure PoolState.SettledInv (sys : System) (params : PoolParams) (st : PoolState C) : Prop
    extends st.Inv sys params where
  settled : Settled sys st.world st.pool

theorem PoolState.SettledInv.step {sys : System} {params : PoolParams} {st st' : PoolState C}
    {op : PoolOp C} (hnever : params.neverFree = false) (hN : 1 ≤ segmentBlocks sys params)
    (h : st.SettledInv sys params) (hstep : PoolStep sys st op st') :
    st'.SettledInv sys params := by
  refine ⟨h.toInv.step hstep, ?_⟩
  have hN' := h.params ▸ hN
  rcases poolStep_cases hstep with ⟨env, fuel, b, -, horder, halloc, -⟩ | ⟨b, hb, -, rfl⟩
  · exact h.settled.allocated h.inv hN' horder halloc
  · exact h.settled.freed h.inv (by rw [h.params]; exact hnever) hb

/-- Every reachable state of a pool that releases segments is settled. -/
theorem reachable_settled {sys : System} {params : PoolParams} {st : PoolState C}
    (hnever : params.neverFree = false) (hN : 1 ≤ segmentBlocks sys params)
    (h : Lib.Reachable (PoolState.Init params) (PoolStep sys) st) : st.SettledInv sys params :=
  h.invariant (fun _ hinit => ⟨.init hinit, .of_init hinit⟩) fun _ _ _ => .step hnever hN

/-- A segment whose freed stack is incomplete has a block on the free stack when
no block is live. -/
theorem PoolInv.exists_free {sys : System} {w : World C} {p : Pool C}
    (h : PoolInv sys w p []) {s : Nat}
    (hs : s ∈ p.segments)
    (hlt : (w.segmentAt s).freedStack.length < (w.segmentAt s).numBlocks) :
    ∃ b ∈ p.freeStack, b.segment = s := by
  by_contra hnone
  -- Otherwise every block of `s` is in its own freed stack, which is too short.
  have hsub : (w.segmentAt s).blocks s p.deviceId ⊆ (w.segmentAt s).freedStack := by
    intro b hb
    have hseg : b.segment = s := by
      obtain ⟨i, -, rfl⟩ := Segment.mem_blocks.mp hb
      exact Segment.blockAt_segment s _ _ i
    have hmem := h.places.mem_iff.mpr (List.mem_flatMap.mpr ⟨s, hs, hb⟩)
    rw [List.append_nil, List.mem_append] at hmem
    rcases hmem with hfree | hfreed
    · exact absurd ⟨b, hfree, hseg⟩ hnone
    · obtain ⟨s', hs', hb'⟩ := List.mem_flatMap.mp hfreed
      rwa [← hseg, h.freed_own s' hs' b hb']
  have hnodup := (h.made s hs).blocks_nodup s p.deviceId
  have hle := (List.subperm_of_subset hnodup hsub).length_le
  rw [Segment.blocks_length] at hle
  omega

/-- An idle pool keeps no more than its reserve, unless its segments have
several blocks each and every segment has one of them on the free stack. -/
theorem idle_segments {sys : System} {params : PoolParams} {st : PoolState C}
    (hnever : params.neverFree = false) (hN : 1 ≤ segmentBlocks sys params)
    (h : Lib.Reachable (PoolState.Init params) (PoolStep sys) st) (hidle : st.live = []) :
    st.pool.segments.length ≤ max params.numReserveSegments 1 ∨
      2 ≤ segmentBlocks sys params ∧
        ∀ s ∈ st.pool.segments, ∃ b ∈ st.pool.freeStack, b.segment = s := by
  obtain ⟨hinv, hset⟩ := reachable_settled hnever hN h
  have hpool := hidle ▸ hinv.inv
  by_cases hsize : st.pool.segments.length ≤ max params.numReserveSegments 1
  · exact Or.inl hsize
  · right
    have hres : st.pool.numReserveSegments < st.pool.segments.length := by
      rw [hinv.params]
      omega
    have hall : ∀ s ∈ st.pool.segments, ∃ b ∈ st.pool.freeStack, b.segment = s := fun s hs =>
      hpool.exists_free hs (hset.incomplete hres s hs)
    refine ⟨?_, hall⟩
    by_contra hlt
    -- With one block in each segment the free stack of such a pool is empty.
    have hnil := hset.all_live (by rw [hinv.params]; omega) hres
    cases hsegs : st.pool.segments with
    | nil => simp [hsegs] at hres
    | cons s rest =>
      obtain ⟨b, hb, -⟩ := hall s (by simp [hsegs])
      rw [hnil] at hb
      cases hb

/-! ### An idle pool above its reserve

Three segments of two blocks each, all blocks live. One block of each is
returned; the next call of `allocate` collects all three and takes one of them.
When the other blocks come back, two of the segments stay incomplete. -/

/-- A call of `allocate` that meets the segments in the order `order`, and gets
the page `s` if it adds a segment. -/
def allocateAt (order : List Nat) (s : Nat) : PoolOp rangeContext :=
  .allocate { order := order, grow := fun _ => grantAt (4096 * s) } 2

/-- The calls. -/
def partialFrees : List (PoolOp rangeContext) :=
  [allocateAt [] 1, allocateAt [1] 1, allocateAt [1] 2, allocateAt [2, 1] 2,
    allocateAt [2, 1] 3, allocateAt [3, 2, 1] 3,
    .free (twoBlock 1 0), .free (twoBlock 2 0), .free (twoBlock 3 0),
    allocateAt [3, 2, 1] 3,
    .free (twoBlock 1 1), .free (twoBlock 1 0), .free (twoBlock 2 1), .free (twoBlock 3 1)]

/-- The pool before the first call. -/
def twoBlockState : PoolState rangeContext where
  world := emptyWorld
  pool := twoBlockPool
  live := []

theorem exec_partialFrees :
    ∃ st, Lib.exec (PoolState.step stubSystem) partialFrees twoBlockState = some st ∧
      st.live = [] ∧ st.pool.segments = [3, 2] :=
  ⟨_, rfl, rfl, rfl⟩

theorem reachable_of_exec {ops : List (PoolOp rangeContext)} {st : PoolState rangeContext}
    (h : Lib.exec (PoolState.step stubSystem) ops twoBlockState = some st) :
    Lib.Reachable (PoolState.Init twoBlockPool.toPoolParams) (PoolStep stubSystem) st :=
  ⟨twoBlockState, ops, ⟨rfl, rfl⟩, Lib.run_of_exec h⟩

theorem idle_segments_partialFrees :
    ∃ st, Lib.exec (PoolState.step stubSystem) partialFrees twoBlockState = some st ∧
      (st.pool.segments.length ≤ max 1 1 ∨
        2 ≤ segmentBlocks stubSystem twoBlockPool.toPoolParams ∧
          ∀ s ∈ st.pool.segments, ∃ b ∈ st.pool.freeStack, b.segment = s) := by
  obtain ⟨st, hexec, hlive, -⟩ := exec_partialFrees
  exact ⟨st, hexec, idle_segments rfl (by decide) (reachable_of_exec hexec) hlive⟩

/-- With a reserve of one segment, two segments stay when no block is live. -/
theorem idle_above_reserve :
    twoBlockPool.neverFree = false ∧ twoBlockPool.numReserveSegments = 1 ∧
      segmentBlocks stubSystem twoBlockPool.toPoolParams = 2 ∧
      ∃ st : PoolState rangeContext,
        Lib.Reachable (PoolState.Init twoBlockPool.toPoolParams) (PoolStep stubSystem) st ∧
        st.live = [] ∧ ¬st.pool.segments.length ≤ max twoBlockPool.numReserveSegments 1 := by
  refine ⟨rfl, rfl, by decide, ?_⟩
  obtain ⟨st, hexec, hlive, hsegs⟩ := exec_partialFrees
  refine ⟨st, reachable_of_exec hexec, hlive, ?_⟩
  rw [hsegs]
  decide

end HwMalloc
