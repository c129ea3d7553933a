import HwMalloc.Reserve

/-!
# HwMalloc.PoolCounts

How many segments a pool has. The runs carry two numbers that the code does not
store: the largest number of live blocks so far, and the number of segments made
so far.

`PoolInv.allocate_cases` is the common part: a call of `allocate` reuses an idle
block, or every block was live and it adds one segment. From there:

* **Never released.** A pool that never releases segments has as many as its peak
  needs (`registered_eq_ceil_peak`). The invariant brackets the peak between what the
  segments hold and what one less would hold.
* **One block each.** In a pool of one-block segments every `free` makes a segment
  empty, so that the pool shrinks with its clients until it meets its reserve. It has
  exactly the live ones or its reserve (`oneBlock_segments`).

In between, with several blocks to a segment and segments that are released, there is
no such formula: what a pool holds on to depends on which blocks stay live.
-/

namespace HwMalloc

variable {C : Context}

/-- The parameters that a constructor of `pool` sets. -/
def PoolParams.Constructed (params : PoolParams) : Prop :=
  ∃ blockSize segmentSize numaNode neverFree numReserveSegments,
    params = HwMalloc.pool blockSize segmentSize numaNode neverFree numReserveSegments ∨
      ∃ deviceId,
        params = devicePool blockSize segmentSize numaNode deviceId neverFree numReserveSegments

/-- The constructor keeps at least one segment in reserve. -/
theorem PoolParams.Constructed.reserve_pos {params : PoolParams} (h : params.Constructed) :
    1 ≤ params.numReserveSegments := by
  obtain ⟨b, g, n, never, r, rfl | ⟨d, rfl⟩⟩ := h
  · exact le_max_right r 1
  · exact le_max_right r 1

/-- A pool, its clients, and its history. -/
structure PoolHistory (C : Context) extends PoolState C where
  /-- The largest number of live blocks so far. -/
  peak : Nat
  /-- The number of segments made so far. -/
  registered : Nat

/-- One call. Segments are numbered in the order in which they are made. -/
def PoolHistory.step (sys : System) (h : PoolHistory C) (op : PoolOp C) :
    Option (PoolHistory C) :=
  (h.toPoolState.step sys op).map fun st =>
    { st with
      peak := max h.peak st.live.length
      registered := h.registered + (st.world.nextSegment - h.world.nextSegment) }

/-- `PoolHistory.step` as a relation. -/
def HistoryStep (sys : System) (h : PoolHistory C) (op : PoolOp C) (h' : PoolHistory C) : Prop :=
  h.step sys op = some h'

/-- A pool that was just constructed. -/
def PoolHistory.Init (params : PoolParams) (h : PoolHistory C) : Prop :=
  h.toPoolState.Init params ∧ h.peak = 0 ∧ h.registered = 0

theorem historyStep_inv {sys : System} {h h' : PoolHistory C} {op : PoolOp C}
    (hstep : HistoryStep sys h op h') :
    PoolStep sys h.toPoolState op h'.toPoolState ∧ h'.peak = max h.peak h'.live.length ∧
      h'.registered = h.registered + (h'.world.nextSegment - h.world.nextSegment) := by
  obtain ⟨st, hst, rfl⟩ := Option.map_eq_some_iff.mp hstep
  exact ⟨hst, rfl, rfl⟩

/-! ### Counting blocks

The places of the blocks and the blocks of the segments are permutations of each other,
and so have the same length. -/

namespace PoolInv

variable {sys : System} {w w' : World C} {p p' : Pool C} {live : List (Block C)}

theorem blocks_length (h : PoolInv sys w p live) :
    (p.blocks w).length = p.segments.length * segmentBlocks sys p.toPoolParams := by
  have hlen : p.segments.map (fun s => ((w.segmentAt s).blocks s p.deviceId).length) =
      p.segments.map fun _ => segmentBlocks sys p.toPoolParams :=
    List.map_congr_left fun s hs => by rw [Segment.blocks_length, (h.made s hs).numBlocks]
  rw [Pool.blocks, List.length_flatMap, hlen, List.map_const', List.sum_replicate_nat]

theorem places_length (h : PoolInv sys w p live) :
    p.freeStack.length + (p.freed w).length + live.length =
      p.segments.length * segmentBlocks sys p.toPoolParams := by
  have hlen := h.places.length_eq
  rwa [List.length_append, List.length_append, h.blocks_length] at hlen

/-- All blocks are live when there are as many live blocks as blocks. -/
theorem all_live_iff (h : PoolInv sys w p live) :
    (∀ b ∈ p.blocks w, b ∈ live) ↔
      live.length = p.segments.length * segmentBlocks sys p.toPoolParams := by
  have hlen := h.places_length
  constructor
  · intro hall
    have hle := (List.subperm_of_subset h.blocks_nodup hall).length_le
    rw [h.blocks_length] at hle
    omega
  · intro hlive b hb
    have hfree : p.freeStack = [] := List.eq_nil_of_length_eq_zero (by omega)
    have hfreed : p.freed w = [] := List.eq_nil_of_length_eq_zero (by omega)
    have hmem := h.places.mem_iff.mpr hb
    rwa [hfree, hfreed] at hmem

/-- A call of `allocate` that returns has reused an idle block, or every block
was live and it has made one segment. -/
theorem allocate_cases {env : AllocEnv C} {fuel : Nat} {b : Block C} (h : PoolInv sys w p live)
    (horder : env.order.Perm p.segments)
    (halloc : p.allocate sys env fuel w = some (.ok b, w', p')) :
    (p'.segments = p.segments ∧ w'.nextSegment = w.nextSegment ∧
        live.length < p.segments.length * segmentBlocks sys p.toPoolParams) ∨
      p'.segments.length = p.segments.length + 1 ∧ w'.nextSegment = w.nextSegment + 1 ∧
        live.length = p.segments.length * segmentBlocks sys p.toPoolParams := by
  have hnodup : env.order.Nodup := horder.nodup_iff.mpr h.segments_nodup
  -- A pop that succeeds takes an idle block.
  have hidle : ∀ {w₁ : World C} {p₁ : Pool C}, PoolInv sys w₁ p₁ live → Popped p₁ b p' →
      live.length < p₁.segments.length * segmentBlocks sys p₁.toPoolParams := by
    intro w₁ p₁ hinv hpop
    have hlen := hinv.places_length
    rw [hpop.freeStack, List.length_cons] at hlen
    omega
  rcases allocate_ok hnodup halloc with
    ⟨rfl, hpop⟩ | ⟨-, w₁, p₁, hcol, ⟨rfl, hpop⟩ | ⟨hempty, g, p₂, hnew, hgrown, hpop⟩⟩
  · exact Or.inl ⟨by rw [hpop.pool], rfl, hidle h hpop⟩
  · -- The block was freed before, which is an idle block as well.
    have hlt := hidle (h.collected horder hcol) hpop
    rw [hcol.pool] at hlt
    exact Or.inl ⟨by rw [hpop.pool, hcol.pool], by rw [hcol.world], hlt⟩
  · -- After the collection nothing was left, so the clients held all blocks.
    have hlen := (h.collected horder hcol).places_length
    have hfreed : p₁.freed w₁ = [] := by
      rw [hcol.pool]
      exact List.flatMap_eq_nil_iff.mpr fun s hs => (Settled.freed_of_collected horder hcol hs).1
    rw [hempty, hfreed, hcol.pool] at hlen
    refine Or.inr ⟨?_, ?_, by simpa using hlen⟩
    · rw [hpop.pool, hgrown.pool, hcol.pool]
      rfl
    · rw [hgrown.nextSegment, hcol.world]

/-- What a call of `free` does to the number of segments. -/
theorem free_segments {b : Block C} (h : PoolInv sys w p live) (hb : b ∈ live) :
    (p.free b w).1.nextSegment = w.nextSegment ∧
      (((p.free b w).2.segments = p.segments ∧
          ¬(p.neverFree = false ∧ ((segmentFree b w).segmentAt b.segment).isEmpty = true ∧
            p.numReserveSegments < p.segments.length)) ∨
        p.neverFree = false ∧ p.numReserveSegments < p.segments.length ∧
          (p.free b w).2.segments.length + 1 = p.segments.length) := by
  have hs := (h.live_mem_blocks hb).1
  rcases free_cases b w p with ⟨heq, hkeep⟩ | ⟨heq, hnever, -, hsize⟩
  · rw [heq]
    exact ⟨rfl, Or.inl ⟨rfl, hkeep⟩⟩
  · have herased := eraseSegment_erased (w := segmentFree b w) hs
    rw [heq]
    refine ⟨herased.nextSegment, Or.inr ⟨hnever, hsize, ?_⟩⟩
    rw [herased.pool]
    exact List.length_erase_add_one hs

end PoolInv

/-! ### Pools that never release segments -/

section

variable {sys : System} {params : PoolParams} {h h' : PoolHistory C} {op : PoolOp C}

/-- The invariant of a pool that never releases segments: the peak fits in the
segments, and would not fit in one segment less. -/
structure PoolHistory.NeverFreeInv (sys : System) (ps : PoolParams) (h : PoolHistory C) :
    Prop extends h.toPoolState.Inv sys ps where
  registered : h.registered = h.pool.segments.length
  live_le : h.live.length ≤ h.peak
  peak_le : h.peak ≤ h.pool.segments.length * segmentBlocks sys ps
  lt_peak : h.pool.segments.length * segmentBlocks sys ps < h.peak + segmentBlocks sys ps

theorem PoolHistory.NeverFreeInv.step (hnever : params.neverFree = true)
    (hN : 1 ≤ segmentBlocks sys params) (hinv : h.NeverFreeInv sys params)
    (hstep : HistoryStep sys h op h') : h'.NeverFreeInv sys params := by
  obtain ⟨hpool, hpeak, hreg⟩ := historyStep_inv hstep
  have hinv' := hinv.toInv.step hpool
  have hlive := hinv.live_le
  have hle := hinv.peak_le
  have hlt := hinv.lt_peak
  rcases poolStep_cases hpool with ⟨env, fuel, b, -, horder, halloc, hcons⟩ | ⟨b, hb, -, heq⟩
  · have hlen := congrArg List.length hcons
    rw [List.length_cons] at hlen
    rcases hinv.inv.allocate_cases horder halloc with ⟨hsegs, hnext, hidle⟩ | ⟨hsegs, hnext, hall⟩
    · -- The block was idle, so it fits in the segments there are.
      rw [hinv.params] at hidle
      refine ⟨hinv', ?_, ?_, ?_, ?_⟩
      · rw [hreg, hnext, hsegs, Nat.sub_self, Nat.add_zero, hinv.registered]
      · omega
      · rw [hsegs]
        omega
      · rw [hsegs]
        omega
    · -- The peak is one above what the segments could hold.
      rw [hinv.params] at hall
      have hmul : h'.pool.segments.length * segmentBlocks sys params =
          h.pool.segments.length * segmentBlocks sys params + segmentBlocks sys params := by
        rw [hsegs, Nat.succ_mul]
      refine ⟨hinv', ?_, ?_, ?_, ?_⟩
      · rw [hreg, hnext, hsegs, hinv.registered]
        omega
      · omega
      · rw [hmul]
        omega
      · rw [hmul]
        omega
  · -- A call of `free` changes neither the segments nor the peak.
    obtain ⟨hnext, ⟨hsegs, -⟩ | ⟨hfalse, -⟩⟩ := hinv.inv.free_segments hb
    · have hworld : h'.world = (h.pool.free b h.world).1 := congrArg PoolState.world heq
      have hpool' : h'.pool = (h.pool.free b h.world).2 := congrArg PoolState.pool heq
      have hlen := congrArg (fun st => st.live.length) heq
      have herase := List.length_erase_le (a := b) (l := h.live)
      dsimp only at hlen
      have hmax : h'.peak = h.peak := by
        rw [hpeak]
        exact max_eq_left (by omega)
      refine ⟨hinv', ?_, by omega, ?_, ?_⟩
      · rw [hreg, hworld, hnext, Nat.sub_self, Nat.add_zero, hpool', hsegs, hinv.registered]
      · rw [hmax, hpool', hsegs]
        exact hle
      · rw [hmax, hpool', hsegs]
        exact hlt
    · rw [hinv.params, hnever] at hfalse
      cases hfalse

theorem neverFreeInv_of_reachable (hnever : params.neverFree = true)
    (hN : 1 ≤ segmentBlocks sys params)
    (hreach : Lib.Reachable (PoolHistory.Init params) (HistoryStep sys) h) :
    h.NeverFreeInv sys params := by
  refine hreach.invariant (fun h₀ hinit => ?_) fun _ _ _ => .step hnever hN
  obtain ⟨hpool, hpeak, hreg⟩ := hinit
  have hsegs : h₀.pool.segments = [] := by rw [hpool.1]; rfl
  refine ⟨.init hpool, by rw [hreg, hsegs]; rfl, by rw [hpool.2, hpeak]; exact le_rfl,
    by rw [hpeak]; exact Nat.zero_le _, ?_⟩
  rw [hsegs, hpeak, List.length_nil, Nat.zero_mul, Nat.zero_add]
  exact hN

/-- A pool that never releases segments has made as many as hold its peak; a new
one is made only when every block of the pool is live. -/
theorem registered_eq_ceil_peak (hnever : params.neverFree = true)
    (hN : 1 ≤ segmentBlocks sys params)
    (hreach : Lib.Reachable (PoolHistory.Init params) (HistoryStep sys) h) :
    h.registered = (h.peak + segmentBlocks sys params - 1) / segmentBlocks sys params ∧
      ∀ op h', HistoryStep sys h op h' → h'.registered ≠ h.registered →
        ∀ b ∈ h.pool.blocks h.world, b ∈ h.live := by
  have hinv := neverFreeInv_of_reachable hnever hN hreach
  have hle := hinv.peak_le
  have hlt := hinv.lt_peak
  constructor
  · rw [hinv.registered]
    symm
    refine Nat.div_eq_of_lt_le ?_ ?_
    · omega
    · rw [Nat.succ_mul]
      omega
  · intro op h' hstep hne
    obtain ⟨hpool, -, hreg⟩ := historyStep_inv hstep
    rcases poolStep_cases hpool with ⟨env, fuel, b, -, horder, halloc, -⟩ | ⟨b, hb, -, heq⟩
    · rcases hinv.inv.allocate_cases horder halloc with ⟨-, hnext, -⟩ | ⟨-, -, hall⟩
      · rw [hreg, hnext, Nat.sub_self] at hne
        exact absurd rfl hne
      · exact hinv.inv.all_live_iff.mpr hall
    · have hworld : h'.world = (h.pool.free b h.world).1 := congrArg PoolState.world heq
      rw [hreg, hworld, (hinv.inv.free_segments hb).1, Nat.sub_self] at hne
      exact absurd rfl hne

/-- Two blocks in each segment, which are never released. -/
def neverFreePool : Pool rangeContext :=
  Pool.new (HwMalloc.pool 2048 4096 0 true 1) ⟨.sized 0, false, 0⟩

/-- A pool before its first call. -/
def startHistory (p : Pool rangeContext) : PoolHistory rangeContext where
  world := emptyWorld
  pool := p
  live := []
  peak := 0
  registered := 0

theorem reachable_of_history {p : Pool rangeContext}
    {ops : List (PoolOp rangeContext)} {h : PoolHistory rangeContext}
    (hp : p = Pool.new p.toPoolParams p.self)
    (hexec : Lib.exec (PoolHistory.step stubSystem) ops (startHistory p) = some h) :
    Lib.Reachable (PoolHistory.Init p.toPoolParams) (HistoryStep stubSystem) h :=
  ⟨startHistory p, ops, ⟨⟨hp, rfl⟩, rfl, rfl⟩, Lib.run_of_exec hexec⟩

theorem registered_eq_ceil_peak_neverFreePool :
    ∃ h, Lib.exec (PoolHistory.step stubSystem)
        [allocateAt [] 1, allocateAt [1] 1, allocateAt [1] 2, .free (twoBlock 1 0),
          .free (twoBlock 1 1), allocateAt [2, 1] 2, allocateAt [2, 1] 2]
        (startHistory neverFreePool) = some h ∧
      h.registered = (h.peak + 2 - 1) / 2 := by
  obtain ⟨h, hexec⟩ : ∃ h, Lib.exec (PoolHistory.step stubSystem)
      [allocateAt [] 1, allocateAt [1] 1, allocateAt [1] 2, .free (twoBlock 1 0),
        .free (twoBlock 1 1), allocateAt [2, 1] 2, allocateAt [2, 1] 2]
      (startHistory neverFreePool) = some h := ⟨_, rfl⟩
  have hN : segmentBlocks stubSystem neverFreePool.toPoolParams = 2 := by decide
  have hcount := (registered_eq_ceil_peak rfl (by decide) (reachable_of_history rfl hexec)).1
  rw [hN] at hcount
  exact ⟨h, hexec, hcount⟩

/-! ### Segments of one block

A segment is full or empty, and nothing in between. -/

/-- The only block of a segment is live, so none has been returned. -/
theorem PoolInv.freedStack_eq_nil {w : World C} {p : Pool C} {live : List (Block C)} {b : Block C}
    (hinv : PoolInv sys w p live) (hN : segmentBlocks sys p.toPoolParams = 1) (hb : b ∈ live) :
    (w.segmentAt b.segment).freedStack = [] := by
  obtain ⟨hs, hmem⟩ := hinv.live_mem_blocks hb
  obtain ⟨x, hx⟩ := List.length_eq_one_iff.mp
    ((Segment.blocks_length b.segment (w.segmentAt b.segment) p.deviceId).trans
      ((hinv.made _ hs).numBlocks.trans hN))
  rw [hx, List.mem_singleton] at hmem
  refine List.eq_nil_iff_forall_not_mem.mpr fun c hc => ?_
  have hcx := (hinv.freed_subperm hs).2 hc
  rw [hx, List.mem_singleton] at hcx
  rw [hcx.trans hmem.symm] at hc
  -- The block would be in a freed stack and live.
  have hfreed : b ∈ p.freed w := List.mem_flatMap.mpr ⟨_, hs, hc⟩
  exact List.disjoint_of_nodup_append hinv.places_nodup (List.mem_append_right _ hfreed) hb

/-- So returning it makes the segment empty. -/
theorem PoolInv.isEmpty_of_free {w : World C} {p : Pool C} {live : List (Block C)} {b : Block C}
    (hinv : PoolInv sys w p live) (hN : segmentBlocks sys p.toPoolParams = 1) (hb : b ∈ live) :
    ((segmentFree b w).segmentAt b.segment).isEmpty = true := by
  have hs := (hinv.live_mem_blocks hb).1
  rw [Segment.isEmpty_iff, segmentFree_segmentAt_self, Segment.addFreed_numFreed,
    Segment.pushFreed_numFreed, hinv.numFreed _ hs, hinv.freedStack_eq_nil hN hb,
    Segment.addFreed_numBlocks, Segment.pushFreed_numBlocks, (hinv.made _ hs).numBlocks, hN]
  rfl

/-- The invariant of a pool of one-block segments that releases segments. -/
structure PoolHistory.OneBlockInv (sys : System) (ps : PoolParams) (h : PoolHistory C) : Prop
    extends h.toPoolState.Inv sys ps where
  live_le : h.live.length ≤ h.peak
  segments : h.pool.segments.length = max h.live.length (min ps.numReserveSegments h.peak)

theorem PoolHistory.OneBlockInv.step (hnever : params.neverFree = false)
    (hN : segmentBlocks sys params = 1) (hinv : h.OneBlockInv sys params)
    (hstep : HistoryStep sys h op h') : h'.OneBlockInv sys params := by
  obtain ⟨hpool, hpeak, -⟩ := historyStep_inv hstep
  have hinv' := hinv.toInv.step hpool
  have hN' : segmentBlocks sys h.pool.toPoolParams = 1 := hinv.params ▸ hN
  have hlive := hinv.live_le
  have hsegs := hinv.segments
  rcases poolStep_cases hpool with ⟨env, fuel, b, -, horder, halloc, hcons⟩ | ⟨b, hb, -, heq⟩
  · have hlen := congrArg List.length hcons
    rw [List.length_cons] at hlen
    rcases hinv.inv.allocate_cases horder halloc with ⟨hsame, -, hidle⟩ | ⟨hgrown, -, hall⟩
    · -- An idle block means that the pool is within its reserve.
      rw [hN', Nat.mul_one] at hidle
      refine ⟨hinv', by omega, ?_⟩
      rw [hsame]
      omega
    · -- All segments are full, and one more is needed.
      rw [hN', Nat.mul_one] at hall
      refine ⟨hinv', by omega, ?_⟩
      rw [hgrown]
      omega
  · have hpool' : h'.pool = (h.pool.free b h.world).2 := congrArg PoolState.pool heq
    have hlen : h'.live.length = h.live.length - 1 := by
      rw [congrArg PoolState.live heq]
      exact List.length_erase_of_mem hb
    have hpos := List.length_pos_of_mem hb
    have hreserve : h.pool.numReserveSegments = params.numReserveSegments := by rw [hinv.params]
    obtain ⟨-, ⟨hsame, hkeep⟩ | ⟨-, habove, herased⟩⟩ := hinv.inv.free_segments hb
    · -- The segment is empty now, and stays because the pool is within its reserve.
      have hwithin : ¬h.pool.numReserveSegments < h.pool.segments.length := fun habove =>
        hkeep ⟨by rw [hinv.params]; exact hnever, hinv.inv.isEmpty_of_free hN' hb, habove⟩
      refine ⟨hinv', by omega, ?_⟩
      rw [hpool', hsame]
      omega
    · -- Above the reserve the segment of the block goes with the block.
      refine ⟨hinv', by omega, ?_⟩
      rw [hpool']
      omega

theorem oneBlockInv_of_reachable (hnever : params.neverFree = false)
    (hN : segmentBlocks sys params = 1)
    (hreach : Lib.Reachable (PoolHistory.Init params) (HistoryStep sys) h) :
    h.OneBlockInv sys params := by
  refine hreach.invariant (fun h₀ hinit => ?_) fun _ _ _ => .step hnever hN
  obtain ⟨hpool, hpeak, -⟩ := hinit
  have hsegs : h₀.pool.segments = [] := by rw [hpool.1]; rfl
  refine ⟨.init hpool, by rw [hpool.2, hpeak]; exact le_rfl, ?_⟩
  rw [hsegs, hpool.2, hpeak]
  simp

/-- A pool of one-block segments has as many segments as live blocks, or as its
peak needs within the reserve; a call of `allocate` makes a new segment exactly
when every block of the pool is live. -/
theorem oneBlock_segments (hparams : params.Constructed) (hnever : params.neverFree = false)
    (hN : segmentBlocks sys params = 1)
    (hreach : Lib.Reachable (PoolHistory.Init params) (HistoryStep sys) h) :
    h.pool.segments.length =
        max h.live.length (min (max params.numReserveSegments 1) h.peak) ∧
      ∀ env fuel h', HistoryStep sys h (.allocate env fuel) h' →
        (h'.registered = h.registered + 1 ↔ ∀ b ∈ h.pool.blocks h.world, b ∈ h.live) := by
  have hinv := oneBlockInv_of_reachable hnever hN hreach
  constructor
  · rw [max_eq_left hparams.reserve_pos]
    exact hinv.segments
  · intro env fuel h' hstep
    obtain ⟨hpool, -, hreg⟩ := historyStep_inv hstep
    rw [hinv.inv.all_live_iff]
    rcases poolStep_cases hpool with ⟨env', fuel', b, -, horder, halloc, -⟩ | ⟨b, -, hop, -⟩
    · rcases hinv.inv.allocate_cases horder halloc with ⟨-, hnext, hidle⟩ | ⟨-, hnext, hall⟩
      · refine iff_of_false ?_ hidle.ne
        rw [hreg, hnext]
        omega
      · refine iff_of_true ?_ hall
        rw [hreg, hnext]
        omega
    · cases hop

/-- One block in each segment, and a reserve of one segment. -/
def oneBlockPool : Pool rangeContext :=
  Pool.new (HwMalloc.pool 4096 4096 0 false 1) ⟨.sized 0, false, 0⟩

/-- The block of segment `s` of this pool, if the memory of the segment starts at
page `s`. -/
def oneBlock (s : Nat) : Block rangeContext where
  segment := s
  userAllocation := 0
  ptr := 4096 * s
  handle := (4096 * s, 4096)

theorem oneBlock_segments_oneBlockPool :
    ∃ h, Lib.exec (PoolHistory.step stubSystem)
        [allocateAt [] 1, allocateAt [1] 2, allocateAt [2, 1] 3, .free (oneBlock 2)]
        (startHistory oneBlockPool) = some h ∧
      h.live.length = 2 ∧ h.peak = 3 ∧
      h.pool.segments.length = max h.live.length (min (max 1 1) h.peak) := by
  obtain ⟨h, hexec, hlive, hpeak⟩ : ∃ h, Lib.exec (PoolHistory.step stubSystem)
      [allocateAt [] 1, allocateAt [1] 2, allocateAt [2, 1] 3, .free (oneBlock 2)]
      (startHistory oneBlockPool) = some h ∧ h.live.length = 2 ∧ h.peak = 3 :=
    ⟨_, rfl, rfl, rfl⟩
  exact ⟨h, hexec, hlive, hpeak, (oneBlock_segments ⟨4096, 4096, 0, false, 1, Or.inl rfl⟩ rfl
    (by decide) (reachable_of_history rfl hexec)).1⟩

end

end HwMalloc
