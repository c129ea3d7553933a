import HwMalloc.Pool
import HwMalloc.Lib.Run

/-!
# HwMalloc.PoolRuns

Runs of one pool by one thread. `PoolInv` is the invariant: the free stack, the
freed stacks of the segments and the clients together hold every block of every
segment once, and each counter is the height of its freed stack.

The equation `places` is one permutation, with the places of the blocks on one side
and the blocks of the segments on the other. What the operations do to it:

* a pop moves a block from the free stack to the client;
* `collect` moves all freed stacks to the free stack, and empties the counters;
* a new segment adds its blocks to both sides;
* `free` moves a block from the client to the freed stack of its segment;
* an erasure takes the blocks of a segment from both sides. It happens only when the
  counter has reached the number of blocks, and then all of them are in the freed
  stack that goes away with the segment (`PoolInv.freed_perm_of_isEmpty`).

The lemmas `PoolInv.allocated` and `PoolInv.freed` compose these for the two calls, on
a pool in a world that it may share with others; `reachable_inv` is about the runs of
one pool.
-/

namespace HwMalloc

variable {C : Context}

/-- A pool, the world around it, and the blocks the clients hold. -/
structure PoolState (C : Context) where
  world : World C
  pool : Pool C
  live : List (Block C)

/-- A call of a client. -/
inductive PoolOp (C : Context)
  | allocate (env : AllocEnv C) (fuel : Nat)
  | free (b : Block C)

/-- One call that returns. The loop over `m_segments` meets every key once; a
client frees a block it holds. -/
def PoolState.step (sys : System) (st : PoolState C) : PoolOp C → Option (PoolState C)
  | .allocate env fuel =>
    if env.order.Perm st.pool.segments then
      match st.pool.allocate sys env fuel st.world with
      | some (.ok b, w, p) => some ⟨w, p, b :: st.live⟩
      | _ => none
    else none
  | .free b =>
    if b ∈ st.live then
      some ⟨(st.pool.free b st.world).1, (st.pool.free b st.world).2, st.live.erase b⟩
    else none

/-- `PoolState.step` as a relation. -/
def PoolStep (sys : System) (st : PoolState C) (op : PoolOp C) (st' : PoolState C) : Prop :=
  st.step sys op = some st'

/-- A pool that was just constructed. -/
def PoolState.Init (params : PoolParams) (st : PoolState C) : Prop :=
  st.pool = Pool.new params st.pool.self ∧ st.live = []

/-- The blocks of all segments in `m_segments`. -/
def Pool.blocks (w : World C) (p : Pool C) : List (Block C) :=
  p.segments.flatMap fun s => (w.segmentAt s).blocks s p.deviceId

/-- The blocks that were returned to their segments. -/
def Pool.freed (w : World C) (p : Pool C) : List (Block C) :=
  p.segments.flatMap fun s => (w.segmentAt s).freedStack

/-- The invariant of a pool whose clients hold `live`. -/
structure PoolInv (sys : System) (w : World C) (p : Pool C) (live : List (Block C)) :
    Prop where
  segments_nodup : p.segments.Nodup
  segments_lt : ∀ s ∈ p.segments, s < w.nextSegment
  made : ∀ s ∈ p.segments, (w.segmentAt s).MadeBy sys p.self p.toPoolParams
  numFreed : ∀ s ∈ p.segments, (w.segmentAt s).numFreed = (w.segmentAt s).freedStack.length
  freed_own : ∀ s ∈ p.segments, ∀ b ∈ (w.segmentAt s).freedStack, b.segment = s
  places : (p.freeStack ++ p.freed w ++ live).Perm (p.blocks w)

/-! ### Lists of segments

Two facts about concatenations, for the permutation of the invariant. -/

/-- One list of a concatenation grows by one element. -/
theorem flatMap_cons_perm {α β : Type*} [DecidableEq α] {l : List α} {f g : α → List β} {a : α}
    {b : β} (hnodup : l.Nodup) (ha : a ∈ l) (hself : g a = b :: f a)
    (hother : ∀ a' ∈ l, a' ≠ a → g a' = f a') : (l.flatMap g).Perm (b :: l.flatMap f) := by
  have hl := List.perm_cons_erase ha
  have hrest : (l.erase a).flatMap g = (l.erase a).flatMap f := by
    refine List.flatMap_congr fun a' ha' => ?_
    have hne : a' ≠ a := fun h => by simp [h, hnodup.not_mem_erase] at ha'
    exact hother a' (List.mem_of_mem_erase ha') hne
  have hg : (l.flatMap g).Perm ((a :: l.erase a).flatMap g) := hl.flatMap_right g
  rw [List.flatMap_cons, hself, hrest, List.cons_append, ← List.flatMap_cons] at hg
  exact hg.trans ((hl.flatMap_right f).symm.cons b)

/-- A sublist that occurs on both sides cancels. -/
theorem perm_cancel_middle {α : Type*} {a b c d e : List α}
    (h : (a ++ (b ++ c) ++ d).Perm (b ++ e)) : (a ++ c ++ d).Perm e := by
  have hfront : (a ++ (b ++ c) ++ d).Perm (b ++ (a ++ c ++ d)) := by
    rw [List.append_assoc, List.append_assoc, List.append_assoc]
    exact List.perm_append_comm_assoc a b (c ++ d)
  exact (List.perm_append_left_iff b).mp (hfront.symm.trans h)

/-! ### Segments and what the operations make of them

One lemma for each thing that an operation does, in the order in which the calls do
them. -/

namespace Segment.MadeBy

variable {sys : System} {owner : PoolId} {params : PoolParams} {g : Segment C}

theorem collected (h : g.MadeBy sys owner params) : g.collected.MadeBy sys owner params :=
  ⟨h.pool, h.blockSize, h.numBlocks, h.ptr_ne_zero, h.size, h.node, h.onDevice⟩

theorem returned (h : g.MadeBy sys owner params) (b : Block C) :
    ((g.pushFreed b).addFreed 1).MadeBy sys owner params :=
  ⟨h.pool, h.blockSize, h.numBlocks, h.ptr_ne_zero, h.size, h.node, h.onDevice⟩

end Segment.MadeBy

namespace PoolInv

variable {sys : System} {w w' : World C} {p p' : Pool C} {live : List (Block C)}

/-- Only the pool's own segments matter, and that the numbers of new ones stay
fresh. -/
theorem frame (h : PoolInv sys w p live) (hnext : w.nextSegment ≤ w'.nextSegment)
    (hseg : ∀ s ∈ p.segments, w'.segmentAt s = w.segmentAt s) : PoolInv sys w' p live where
  segments_nodup := h.segments_nodup
  segments_lt := fun s hs => lt_of_lt_of_le (h.segments_lt s hs) hnext
  made := fun s hs => by rw [hseg s hs]; exact h.made s hs
  numFreed := fun s hs => by rw [hseg s hs]; exact h.numFreed s hs
  freed_own := fun s hs => by rw [hseg s hs]; exact h.freed_own s hs
  places := by
    have hfreed : p.freed w' = p.freed w := List.flatMap_congr fun s hs => by rw [hseg s hs]
    have hblocks : p.blocks w' = p.blocks w := List.flatMap_congr fun s hs => by rw [hseg s hs]
    rw [hfreed, hblocks]
    exact h.places

/-- A pool without segments and without blocks. -/
theorem nil (hfree : p.freeStack = []) (hsegs : p.segments = []) : PoolInv sys w p [] := by
  refine ⟨?_, ?_, ?_, ?_, ?_, ?_⟩ <;> simp [hfree, hsegs, Pool.freed, Pool.blocks]

/-- A block in one of the places belongs to a segment in `m_segments`, as one of
its blocks. -/
theorem mem_blocks_of_mem (h : PoolInv sys w p live) {b : Block C}
    (hb : b ∈ p.freeStack ++ p.freed w ++ live) :
    b.segment ∈ p.segments ∧ b ∈ (w.segmentAt b.segment).blocks b.segment p.deviceId := by
  obtain ⟨s, hs, hbs⟩ := List.mem_flatMap.mp (h.places.mem_iff.mp hb)
  obtain ⟨i, -, rfl⟩ := Segment.mem_blocks.mp hbs
  rw [Segment.blockAt_segment]
  exact ⟨hs, hbs⟩

theorem live_mem_blocks (h : PoolInv sys w p live) {b : Block C} (hb : b ∈ live) :
    b.segment ∈ p.segments ∧ b ∈ (w.segmentAt b.segment).blocks b.segment p.deviceId :=
  h.mem_blocks_of_mem (List.mem_append_right _ hb)

/-- The order in which the clients got their blocks does not matter. -/
theorem perm {live' : List (Block C)} (h : PoolInv sys w p live) (hperm : live'.Perm live) :
    PoolInv sys w p live' :=
  { h with places := (hperm.append_left _).trans h.places }

/-- No block occurs twice. -/
theorem blocks_nodup (h : PoolInv sys w p live) : (p.blocks w).Nodup := by
  refine List.nodup_flatMap.mpr ⟨?_, ?_⟩
  · intro s hs
    exact (h.made s hs).blocks_nodup s p.deviceId
  · refine h.segments_nodup.imp fun {s s'} hne => ?_
    intro b hb hb'
    obtain ⟨i, -, rfl⟩ := Segment.mem_blocks.mp hb
    obtain ⟨j, -, hj⟩ := Segment.mem_blocks.mp hb'
    refine hne ?_
    rw [← Segment.blockAt_segment s' (w.segmentAt s') p.deviceId j, hj,
      Segment.blockAt_segment]

theorem places_nodup (h : PoolInv sys w p live) :
    (p.freeStack ++ p.freed w ++ live).Nodup :=
  h.places.nodup_iff.mpr h.blocks_nodup

theorem popped {b : Block C} (h : PoolInv sys w p live) (hpop : Popped p b p') :
    PoolInv sys w p' (b :: live) := by
  rw [hpop.pool]
  refine ⟨h.segments_nodup, h.segments_lt, h.made, h.numFreed, h.freed_own, ?_⟩
  have hplaces := h.places
  rw [hpop.freeStack, List.cons_append, List.cons_append] at hplaces
  exact List.perm_middle.trans hplaces

theorem collected {order : List Nat} (h : PoolInv sys w p live)
    (horder : order.Perm p.segments) (hcol : Collected order w p w' p') :
    PoolInv sys w' p' live := by
  have hseg : ∀ s ∈ p.segments, w'.segmentAt s = (w.segmentAt s).collected := fun s hs => by
    rw [hcol.segmentAt, if_pos (horder.mem_iff.mpr hs)]
  have hfreed : p.freed w' = [] :=
    List.flatMap_eq_nil_iff.mpr fun s hs => by rw [hseg s hs, Segment.collected_freedStack]
  have hblocks : p.blocks w' = p.blocks w :=
    List.flatMap_congr fun s hs => by rw [hseg s hs]; rfl
  have hfree : p'.freeStack.Perm (p.freeStack ++ p.freed w) :=
    hcol.freeStack.trans (((horder.flatMap_right _).append_right _).trans List.perm_append_comm)
  have hnext : w'.nextSegment = w.nextSegment := by rw [hcol.world]
  rw [hcol.pool]
  refine ⟨h.segments_nodup, ?_, ?_, ?_, ?_, ?_⟩
  · rw [hnext]
    exact h.segments_lt
  · intro s hs
    rw [hseg s hs]
    exact (h.made s hs).collected
  · intro s hs
    rw [hseg s hs, Segment.collected_numFreed, h.numFreed s hs]
    simp
  · intro s hs b hb
    rw [hseg s hs, Segment.collected_freedStack] at hb
    cases hb
  · -- All freed blocks are on the free stack.
    change (p'.freeStack ++ p.freed w' ++ live).Perm (p.blocks w')
    rw [hfreed, hblocks, List.append_nil]
    exact (hfree.append_right live).trans h.places

theorem grown {env : GrowEnv C} {g : Segment C} (h : PoolInv sys w p live)
    (hnew : NewSegment sys env p.self p.toPoolParams g) (hgrown : Grown w p g w' p') :
    PoolInv sys w' p' live := by
  have hself : w'.segmentAt w.nextSegment = g := hgrown.segmentAt_new
  have hfresh : w.nextSegment ∉ p.segments := fun hs => absurd (h.segments_lt _ hs) (lt_irrefl _)
  have hother : ∀ s ∈ p.segments, w'.segmentAt s = w.segmentAt s := fun s hs =>
    hgrown.segmentAt_old fun heq => hfresh (heq ▸ hs)
  have hold := h.frame (by simp [hgrown.nextSegment]) hother
  rw [hgrown.pool]
  refine ⟨List.nodup_cons.mpr ⟨hfresh, h.segments_nodup⟩, ?_, ?_, ?_, ?_, ?_⟩
  · refine List.forall_mem_cons.mpr ⟨?_, hold.segments_lt⟩
    simp [hgrown.nextSegment]
  · refine List.forall_mem_cons.mpr ⟨?_, hold.made⟩
    rw [hself]
    exact hnew.toMadeBy
  · refine List.forall_mem_cons.mpr ⟨?_, hold.numFreed⟩
    rw [hself, hnew.freedStack, hnew.numFreed]
    rfl
  · refine List.forall_mem_cons.mpr ⟨?_, hold.freed_own⟩
    rw [hself, hnew.freedStack]
    simp
  · -- The new blocks are on the free stack, and the new freed stack is empty.
    have hplaces := hold.places
    simp only [Pool.freed, Pool.blocks, List.flatMap_cons, hself, hnew.freedStack,
      List.nil_append, List.append_assoc] at hplaces ⊢
    exact hplaces.append_left _

theorem returned {b : Block C} (h : PoolInv sys w p live) (hb : b ∈ live) :
    PoolInv sys (segmentFree b w) p (live.erase b) := by
  obtain ⟨hs, hmem⟩ := h.live_mem_blocks hb
  have hblocks : p.blocks (segmentFree b w) = p.blocks w := by
    refine List.flatMap_congr fun s _ => ?_
    by_cases heq : s = b.segment
    · rw [heq, segmentFree_segmentAt_self]
      rfl
    · rw [segmentFree_segmentAt_ne heq]
  have hfreed : (p.freed (segmentFree b w)).Perm (b :: p.freed w) :=
    flatMap_cons_perm h.segments_nodup hs (by simp) fun s _ hne => by
      rw [segmentFree_segmentAt_ne hne]
  have hcases : ∀ {P : Nat → Segment C → Prop},
      P b.segment (((w.segmentAt b.segment).pushFreed b).addFreed 1) →
      (∀ s ∈ p.segments, P s (w.segmentAt s)) →
      ∀ s ∈ p.segments, P s ((segmentFree b w).segmentAt s) := by
    intro P hself hother s hs
    by_cases heq : s = b.segment
    · rw [heq, segmentFree_segmentAt_self]
      exact hself
    · rw [segmentFree_segmentAt_ne heq]
      exact hother s hs
  -- Of the segment of the block, the stack grows and the counter follows it.
  refine ⟨h.segments_nodup, h.segments_lt, ?_, ?_, ?_, ?_⟩
  · exact hcases (P := fun _ g => g.MadeBy sys p.self p.toPoolParams)
      ((h.made _ hs).returned b) h.made
  · refine hcases (P := fun _ g => g.numFreed = g.freedStack.length) ?_ h.numFreed
    simp [h.numFreed _ hs]
  · refine hcases (P := fun s g => ∀ b ∈ g.freedStack, b.segment = s) ?_ h.freed_own
    exact List.forall_mem_cons.mpr ⟨rfl, h.freed_own _ hs⟩
  · rw [hblocks]
    have hlive : (p.freeStack ++ p.freed w ++ live).Perm
        (b :: (p.freeStack ++ p.freed w ++ live.erase b)) :=
      ((List.perm_cons_erase hb).append_left _).trans List.perm_middle
    have hback : (p.freeStack ++ p.freed (segmentFree b w) ++ live.erase b).Perm
        (b :: (p.freeStack ++ p.freed w ++ live.erase b)) :=
      (((hfreed.append_left _).trans List.perm_middle).append_right _)
    exact (hback.trans hlive.symm).trans h.places

/-- The freed stack of a segment holds blocks of the segment, each at most once. -/
theorem freed_subperm (h : PoolInv sys w p live) {s : Nat} (hs : s ∈ p.segments) :
    (w.segmentAt s).freedStack.Nodup ∧
      (w.segmentAt s).freedStack ⊆ (w.segmentAt s).blocks s p.deviceId := by
  have hsub : ∀ b ∈ (w.segmentAt s).freedStack, b ∈ p.freed w := fun b hb =>
    List.mem_flatMap.mpr ⟨s, hs, hb⟩
  have hnodup := (h.places_nodup.of_append_left).of_append_right
  refine ⟨(List.nodup_flatMap.mp hnodup).1 s hs, ?_⟩
  intro b hb
  have hmem := (h.mem_blocks_of_mem
    (List.mem_append_left _ (List.mem_append_right _ (hsub b hb)))).2
  rwa [h.freed_own s hs b hb] at hmem

/-- The counter of a segment reaches the block count when all its blocks are in
its freed stack. -/
theorem freed_perm_of_isEmpty (h : PoolInv sys w p live)
    {s : Nat} (hs : s ∈ p.segments)
    (hempty : (w.segmentAt s).isEmpty = true) :
    (w.segmentAt s).freedStack.Perm ((w.segmentAt s).blocks s p.deviceId) := by
  obtain ⟨hnodup, hsub⟩ := h.freed_subperm hs
  have hcount := h.numFreed s hs
  rw [Segment.isEmpty_iff.mp hempty, Nat.cast_inj] at hcount
  refine (List.subperm_of_subset hnodup hsub).perm_of_length_le ?_
  rw [Segment.blocks_length, hcount]

theorem erased {s : Nat} (h : PoolInv sys w p live) (hs : s ∈ p.segments)
    (hempty : (w.segmentAt s).isEmpty = true) (herased : Erased s w p w' p') :
    PoolInv sys w' p' live := by
  have hmem : ∀ s' ∈ p.segments.erase s, s' ∈ p.segments := fun s' => List.mem_of_mem_erase
  have hrest : PoolInv sys w { p with segments := p.segments.erase s } live := by
    refine ⟨h.segments_nodup.erase s, fun s' hs' => h.segments_lt s' (hmem s' hs'),
      fun s' hs' => h.made s' (hmem s' hs'), fun s' hs' => h.numFreed s' (hmem s' hs'),
      fun s' hs' => h.freed_own s' (hmem s' hs'), ?_⟩
    -- The blocks of `s` leave both sides: all of them were in its freed stack.
    have hfreed := (List.perm_cons_erase hs).flatMap_right fun s => (w.segmentAt s).freedStack
    have hblocks := (List.perm_cons_erase hs).flatMap_right
      fun s => (w.segmentAt s).blocks s p.deviceId
    rw [List.flatMap_cons] at hfreed hblocks
    have hfull := hfreed.trans ((h.freed_perm_of_isEmpty hs hempty).append_right _)
    exact perm_cancel_middle
      (((hfull.append_left p.freeStack).append_right live).symm.trans (h.places.trans hblocks))
  rw [herased.pool]
  refine hrest.frame herased.nextSegment.ge fun s' hs' => herased.segmentAt s' ?_
  exact fun heq => h.segments_nodup.not_mem_erase (heq ▸ hs')

/-- A call of `allocate` that returns hands out a block no client held. -/
theorem allocated {env : AllocEnv C} {fuel : Nat} {b : Block C} (h : PoolInv sys w p live)
    (horder : env.order.Perm p.segments)
    (halloc : p.allocate sys env fuel w = some (.ok b, w', p')) :
    PoolInv sys w' p' (b :: live) := by
  have hnodup : env.order.Nodup := horder.nodup_iff.mpr h.segments_nodup
  rcases allocate_ok hnodup halloc with
    ⟨rfl, hpop⟩ | ⟨-, w₁, p₁, hcol, ⟨rfl, hpop⟩ | ⟨-, g, p₂, hnew, hgrown, hpop⟩⟩
  · -- There was a block on the free stack,
    exact h.popped hpop
  · -- or after the collection,
    exact (h.collected horder hcol).popped hpop
  · -- or after a new segment.
    have hnew' : NewSegment sys (env.grow 0) p₁.self p₁.toPoolParams g := by
      rw [hcol.pool]
      exact hnew
    exact ((h.collected horder hcol).grown hnew' hgrown).popped hpop

/-- A call of `free` takes the block from the client. -/
theorem freed {b : Block C} (h : PoolInv sys w p live) (hb : b ∈ live) :
    PoolInv sys (p.free b w).1 (p.free b w).2 (live.erase b) := by
  have hret := h.returned hb
  rcases free_cases b w p with ⟨heq, -⟩ | ⟨heq, -, hempty, -⟩
  · rw [heq]
    exact hret
  · rw [heq]
    have hs := (h.live_mem_blocks hb).1
    exact hret.erased hs hempty (eraseSegment_erased hs)

end PoolInv

/-! ### Runs -/

/-- What one call that returns can have done to the state. -/
theorem poolStep_cases {sys : System} {st st' : PoolState C} {op : PoolOp C}
    (h : PoolStep sys st op st') :
    (∃ env fuel b, op = .allocate env fuel ∧ env.order.Perm st.pool.segments ∧
        st.pool.allocate sys env fuel st.world = some (.ok b, st'.world, st'.pool) ∧
        st'.live = b :: st.live) ∨
      ∃ b ∈ st.live, op = .free b ∧ st' = ⟨(st.pool.free b st.world).1,
        (st.pool.free b st.world).2, st.live.erase b⟩ := by
  rw [PoolStep, PoolState.step.eq_def] at h
  cases op with
  | allocate env fuel =>
    left
    dsimp only at h
    by_cases horder : env.order.Perm st.pool.segments
    · rw [if_pos horder] at h
      split at h
      · next b w p halloc =>
        cases h
        exact ⟨env, fuel, b, rfl, horder, halloc, rfl⟩
      · cases h
    · rw [if_neg horder] at h
      cases h
  | free b =>
    right
    dsimp only at h
    by_cases hb : b ∈ st.live
    · rw [if_pos hb] at h
      cases h
      exact ⟨b, hb, rfl, rfl⟩
    · rw [if_neg hb] at h
      cases h

theorem Pool.toPoolParams_eq_of_allocate {sys : System} {env : AllocEnv C} {fuel : Nat}
    {w w' : World C} {p p' : Pool C} {b : Block C} (hnodup : env.order.Nodup)
    (h : p.allocate sys env fuel w = some (.ok b, w', p')) :
    p'.toPoolParams = p.toPoolParams ∧ p'.self = p.self := by
  rcases allocate_ok hnodup h with
    ⟨-, hpop⟩ | ⟨-, w₁, p₁, hcol, ⟨-, hpop⟩ | ⟨-, g, p₂, -, hgrown, hpop⟩⟩
  · rw [hpop.pool]
    exact ⟨rfl, rfl⟩
  · rw [hpop.pool, hcol.pool]
    exact ⟨rfl, rfl⟩
  · rw [hpop.pool, hgrown.pool, hcol.pool]
    exact ⟨rfl, rfl⟩

theorem Pool.toPoolParams_eq_of_free (b : Block C) (w : World C) (p : Pool C) :
    (p.free b w).2.toPoolParams = p.toPoolParams ∧ (p.free b w).2.self = p.self := by
  have herase : ∀ (s : Nat) (w : World C),
      (p.eraseSegment s w).2.toPoolParams = p.toPoolParams ∧
        (p.eraseSegment s w).2.self = p.self := by
    intro s w
    unfold Pool.eraseSegment Pool.erase
    cases p.allocateOnDevice <;> by_cases hs : s ∈ p.segments <;> simp [hs]
  rcases free_cases b w p with ⟨heq, -⟩ | ⟨heq, -⟩
  · rw [heq]
    exact ⟨rfl, rfl⟩
  · rw [heq]
    exact herase _ _

/-- The invariant of the runs of a pool with the parameters `params`. -/
structure PoolState.Inv (sys : System) (params : PoolParams) (st : PoolState C) : Prop where
  params : st.pool.toPoolParams = params
  inv : PoolInv sys st.world st.pool st.live

theorem PoolState.Inv.init {sys : System} {params : PoolParams} {st : PoolState C}
    (h : st.Init params) : st.Inv sys params := by
  obtain ⟨hpool, hlive⟩ := h
  refine ⟨by rw [hpool]; rfl, ?_⟩
  rw [hpool, hlive]
  exact .nil rfl rfl

theorem PoolState.Inv.step {sys : System} {params : PoolParams} {st st' : PoolState C}
    {op : PoolOp C} (h : st.Inv sys params)
    (hstep : PoolStep sys st op st') : st'.Inv sys params := by
  rcases poolStep_cases hstep with ⟨env, fuel, b, -, horder, halloc, hlive⟩ | ⟨b, hb, -, rfl⟩
  · have hnodup : env.order.Nodup := horder.nodup_iff.mpr h.inv.segments_nodup
    refine ⟨(Pool.toPoolParams_eq_of_allocate hnodup halloc).1.trans h.params, ?_⟩
    rw [hlive]
    exact h.inv.allocated horder halloc
  · exact ⟨(Pool.toPoolParams_eq_of_free b _ _).1.trans h.params, h.inv.freed hb⟩

/-- The invariant holds in every state that the calls of one thread can reach. -/
theorem reachable_inv {sys : System} {params : PoolParams} {st : PoolState C}
    (h : Lib.Reachable (PoolState.Init params) (PoolStep sys) st) : st.Inv sys params :=
  h.invariant (fun _ => PoolState.Inv.init) fun _ _ _ => PoolState.Inv.step

end HwMalloc
