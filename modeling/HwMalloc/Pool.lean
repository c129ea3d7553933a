import HwMalloc.AddSegment

/-!
# HwMalloc.Pool

`pool::allocate` and `pool::free` as one thread sees them: between the calls
`m_mutex` is free, so the locking leaves no trace here (it is the subject of
`HwMalloc.Concurrent`).

* **`allocate`** pops from `m_free_stack`; if that is empty it collects the freed stacks
  of all segments and pops again; if it is still empty it adds segments, one in every
  second turn of its loop, until the pop succeeds. The loop has no bound of its own. It
  gets a fuel argument; `none` is a run that has not ended within the fuel.
* **`free`** pushes the block to the freed stack of its segment and counts it. If the
  segment is then empty, above the reserve and may be released, it is destroyed.

Each operation has a specification: `Popped`, `Collected`, `Grown`, `Erased`. The two
calls are chains of these (`allocate_ok`, `free_cases`), and nothing after this module
unfolds them again.
-/

namespace HwMalloc

variable {C : Context}

/-- What the environment contributes to one call of `allocate`: the order in
which the range-`for` meets the keys of `m_segments`, and the answers to each
`add_segment` of the call. -/
structure AllocEnv (C : Context) where
  order : List Nat
  grow : Nat → GrowEnv C

/-- `m_free_stack.pop`. -/
def Pool.popFree (p : Pool C) : Option (Block C × Pool C) :=
  match p.freeStack with
  | [] => none
  | b :: stack => some (b, { p with freeStack := stack })

/-- A segment after `collect`: its freed stack has been consumed, and its counter
reduced by the number of blocks consumed. -/
def Segment.collected (g : Segment C) : Segment C :=
  ({ g with freedStack := [] }).addFreed (-g.freedStack.length)

/-- `segment::collect`: the freed stack is popped until it is empty, and every
block pushed to the free stack. -/
def collect (s : Nat) (w : World C) (p : Pool C) : World C × Pool C :=
  (w.modifySegment s Segment.collected,
    { p with
      freeStack := (w.segmentAt s).freedStack.foldl (fun stack b => b :: stack) p.freeStack })

/-- The range-`for` of `allocate`. -/
def collectAll : List Nat → World C → Pool C → World C × Pool C
  | [], w, p => (w, p)
  | s :: order, w, p => collectAll order (collect s w p).1 (collect s w p).2

/-- The `while` loop of `allocate`, with its counter; the counter it ends with
is the number of pops that failed. The counter is a 32-bit integer, and its
parity, all that is read, survives the wrap. -/
def growLoop (sys : System) (grow : Nat → GrowEnv C) :
    Nat → Nat → World C → Pool C →
      Option (Except FailurePoint (Block C × Nat) × World C × Pool C)
  | 0, _, _, _ => none
  | fuel + 1, counter, w, p =>
    match p.popFree with
    | some (b, p) => some (.ok (b, counter), w, p)
    | none =>
      if counter % 2 = 0 then
        match addSegment sys (grow (counter / 2)) w p with
        | (.error e, w, p) => some (.error e, w, p)
        | (.ok (), w, p) => growLoop sys grow fuel (counter + 1) w p
      else growLoop sys grow fuel (counter + 1) w p

/-- `pool::allocate`. -/
def Pool.allocate (sys : System) (env : AllocEnv C) (fuel : Nat) (w : World C) (p : Pool C) :
    Option (Except FailurePoint (Block C) × World C × Pool C) :=
  match p.popFree with
  | some (b, p) => some (.ok b, w, p)
  | none =>
    -- The pop under the lock: alone, the thread finds the stack as it was.
    match p.popFree with
    | some (b, p) => some (.ok b, w, p)
    | none =>
      let (w, p) := collectAll env.order w p
      match p.popFree with
      | some (b, p) => some (.ok b, w, p)
      | none =>
        match growLoop sys env.grow fuel 0 w p with
        | none => none
        | some (.error e, w, p) => some (.error e, w, p)
        | some (.ok (b, _), w, p) => some (.ok b, w, p)

/-- `m_segments.erase`, which destroys the segment if it is there. -/
def Pool.erase (s : Nat) (w : World C) (p : Pool C) : World C × Pool C :=
  if s ∈ p.segments then (destroySegment s w, { p with segments := p.segments.erase s })
  else (w, p)

/-- The erasure under the lock in `pool::free`: on a device pool the device is
made current for it. -/
def Pool.eraseSegment (s : Nat) (w : World C) (p : Pool C) : World C × Pool C :=
  if p.allocateOnDevice then
    let tmp := w.deviceId
    let (w, p) := p.erase s (w.setDeviceId p.deviceId)
    (w.setDeviceId tmp, p)
  else p.erase s w

/-- `segment::free`. -/
def segmentFree (b : Block C) (w : World C) : World C :=
  w.modifySegment b.segment fun g => (g.pushFreed b).addFreed 1

/-- `pool::free`. -/
def Pool.free (b : Block C) (w : World C) (p : Pool C) : World C × Pool C :=
  let w := segmentFree b w
  if !p.neverFree && (w.segmentAt b.segment).isEmpty then
    if (w.segmentAt b.segment).isEmpty && p.numReserveSegments < p.segments.length then
      p.eraseSegment b.segment w
    else (w, p)
  else (w, p)

/-! ### What the operations do

Each record says what has changed, and by that what has not. -/

/-- The effect of a pop from the free stack that succeeded. -/
structure Popped (p : Pool C) (b : Block C) (p' : Pool C) : Prop where
  freeStack : p.freeStack = b :: p'.freeStack
  pool : p' = { p with freeStack := p'.freeStack }

theorem popFree_eq_some {p p' : Pool C} {b : Block C} (h : p.popFree = some (b, p')) :
    Popped p b p' := by
  unfold Pool.popFree at h
  cases hstack : p.freeStack with
  | nil => simp [hstack] at h
  | cons b' stack =>
    rw [hstack] at h
    cases h
    exact ⟨hstack, rfl⟩

theorem popFree_eq_none {p : Pool C} : p.popFree = none ↔ p.freeStack = [] := by
  unfold Pool.popFree
  cases p.freeStack <;> simp

/-- Pushing one block after the other reverses them. -/
theorem foldl_push (bs : List (Block C)) :
    ∀ stack : List (Block C), bs.foldl (fun stack b => b :: stack) stack = bs.reverse ++ stack := by
  induction bs with
  | nil => intro stack; rfl
  | cons b bs ih => intro stack; rw [List.foldl_cons, ih]; simp

@[simp] theorem Segment.collected_freedStack (g : Segment C) : g.collected.freedStack = [] := rfl

@[simp] theorem Segment.collected_numFreed (g : Segment C) :
    g.collected.numFreed = g.numFreed - g.freedStack.length := by
  simp [Segment.collected, sub_eq_add_neg]

/-- The effect of the collect loop: the freed blocks of the segments it met are
on the free stack, and nothing else moved. -/
structure Collected (order : List Nat) (w : World C) (p : Pool C) (w' : World C) (p' : Pool C) :
    Prop where
  pool : p' = { p with freeStack := p'.freeStack }
  freeStack : p'.freeStack.Perm
    (order.flatMap (fun s => (w.segmentAt s).freedStack) ++ p.freeStack)
  segmentAt : ∀ s, w'.segmentAt s =
    if s ∈ order then (w.segmentAt s).collected else w.segmentAt s
  world : w' = { w with segmentAt := w'.segmentAt }

theorem collectAll_collected {order : List Nat} (hnodup : order.Nodup) :
    ∀ (w : World C) (p : Pool C),
      Collected order w p (collectAll order w p).1 (collectAll order w p).2 := by
  induction order with
  | nil =>
    intro w p
    exact ⟨rfl, by simp [collectAll], by simp [collectAll], rfl⟩
  | cons s order ih =>
    intro w p
    obtain ⟨hs, hnodup⟩ := List.nodup_cons.mp hnodup
    obtain ⟨hpool, hfree, hseg, hworld⟩ := ih hnodup (collect s w p).1 (collect s w p).2
    have hother : ∀ s' ∈ order, (collect s w p).1.segmentAt s' = w.segmentAt s' := by
      intro s' hs'
      have hne : s' ≠ s := fun h => hs (h ▸ hs')
      simp [collect, World.modifySegment_segmentAt, hne]
    refine ⟨hpool, ?_, ?_, ?_⟩
    · -- The blocks of `s` are already on the stack that the rest of the loop sees.
      refine hfree.trans ?_
      have hrest : order.flatMap (fun s' => ((collect s w p).1.segmentAt s').freedStack) =
          order.flatMap (fun s' => (w.segmentAt s').freedStack) :=
        List.flatMap_congr fun s' hs' => by rw [hother s' hs']
      rw [hrest, List.flatMap_cons, collect]
      dsimp only
      rw [foldl_push, List.append_assoc]
      refine (List.perm_append_comm_assoc _ _ _).trans ?_
      exact (List.reverse_perm _).append_right _
    · intro s'
      rw [collectAll, hseg]
      by_cases h : s' = s
      · subst h
        simp [hs, collect, World.modifySegment_segmentAt]
      · simp [h, collect, World.modifySegment_segmentAt]
    · rw [collectAll, hworld]
      rfl

/-- If the segments have no blocks, the loop never returns one. -/
theorem growLoop_ne_ok {sys : System} {grow : Nat → GrowEnv C} {bc : Block C × Nat} (fuel : Nat) :
    ∀ {counter : Nat} {w w' : World C} {p p' : Pool C},
      segmentBlocks sys p.toPoolParams = 0 → p.freeStack = [] →
        growLoop sys grow fuel counter w p ≠ some (.ok bc, w', p') := by
  induction fuel with
  | zero =>
    intro counter w w' p p' _ _ h
    cases h
  | succ fuel ih =>
    intro counter w w' p p' hN hempty h
    rw [growLoop, popFree_eq_none.mpr hempty] at h
    dsimp only at h
    by_cases hcounter : counter % 2 = 0
    · rw [if_pos hcounter] at h
      cases hadd : addSegment sys (grow (counter / 2)) w p with
      | mk res rest =>
        rw [hadd] at h
        cases res with
        | error e => cases h
        | ok u =>
          obtain ⟨g, hnew, hgrown⟩ := addSegment_ok hadd
          -- The new segment has no blocks either.
          have hnone : g.blocks w.nextSegment p.deviceId = [] :=
            List.eq_nil_of_length_eq_zero (by rw [Segment.blocks_length, hnew.numBlocks, hN])
          refine ih ?_ ?_ h
          · rw [hgrown.pool]
            exact hN
          · rw [hgrown.pool, hnone, hempty]
            rfl
    · rw [if_neg hcounter] at h
      exact ih hN hempty h

/-- A loop that returns has added exactly one segment to a pool whose free stack
was empty, and taken the first of its blocks. -/
theorem growLoop_grown {sys : System} {grow : Nat → GrowEnv C} {fuel counter : Nat}
    {w w' : World C} {p p' : Pool C} {b : Block C} (hempty : p.freeStack = [])
    (h : growLoop sys grow fuel 0 w p = some (.ok (b, counter), w', p')) :
    ∃ g p₁, NewSegment sys (grow 0) p.self p.toPoolParams g ∧ Grown w p g w' p₁ ∧
      Popped p₁ b p' := by
  have hN : 1 ≤ segmentBlocks sys p.toPoolParams := by
    by_contra hN
    exact growLoop_ne_ok fuel (Nat.lt_one_iff.mp (not_le.mp hN)) hempty h
  cases fuel with
  | zero => cases h
  | succ fuel =>
    rw [growLoop, popFree_eq_none.mpr hempty] at h
    dsimp only at h
    rw [if_pos rfl, Nat.zero_div] at h
    cases hadd : addSegment sys (grow 0) w p with
    | mk res rest =>
      obtain ⟨w₁, p₁⟩ := rest
      rw [hadd] at h
      cases res with
      | error e => cases h
      | ok u =>
        obtain ⟨g, hnew, hgrown⟩ := addSegment_ok hadd
        dsimp only at h
        cases fuel with
        | zero => cases h
        | succ fuel =>
          rw [growLoop] at h
          cases hpop : p₁.popFree with
          | none =>
            -- The new segment has blocks, so this pop does not fail.
            have hlen := congrArg List.length (popFree_eq_none.mp hpop)
            rw [hgrown.pool] at hlen
            simp only [List.length_append, Segment.blocks_length, List.length_nil,
              hnew.numBlocks] at hlen
            omega
          | some bp =>
            rw [hpop] at h
            cases h
            exact ⟨g, p₁, hnew, hgrown, popFree_eq_some hpop⟩

/-- What a call of `allocate` that returns can have done: it popped a block at
once, after the collect loop, or after adding a segment. -/
theorem allocate_ok {sys : System} {env : AllocEnv C} {fuel : Nat} {w w' : World C}
    {p p' : Pool C} {b : Block C} (hnodup : env.order.Nodup)
    (h : p.allocate sys env fuel w = some (.ok b, w', p')) :
    (w' = w ∧ Popped p b p') ∨
      p.freeStack = [] ∧ ∃ w₁ p₁, Collected env.order w p w₁ p₁ ∧
        ((w' = w₁ ∧ Popped p₁ b p') ∨
          p₁.freeStack = [] ∧ ∃ g p₂,
            NewSegment sys (env.grow 0) p.self p.toPoolParams g ∧ Grown w₁ p₁ g w' p₂ ∧
              Popped p₂ b p') := by
  unfold Pool.allocate at h
  cases hpop : p.popFree with
  | some bp =>
    rw [hpop] at h
    cases h
    exact Or.inl ⟨rfl, popFree_eq_some hpop⟩
  | none =>
    rw [hpop] at h
    dsimp only at h
    refine Or.inr ⟨popFree_eq_none.mp hpop, _, _, collectAll_collected hnodup w p, ?_⟩
    cases hpop₁ : (collectAll env.order w p).2.popFree with
    | some bp =>
      rw [hpop₁] at h
      cases h
      exact Or.inl ⟨rfl, popFree_eq_some hpop₁⟩
    | none =>
      rw [hpop₁] at h
      dsimp only at h
      refine Or.inr ⟨popFree_eq_none.mp hpop₁, ?_⟩
      cases hgrow : growLoop sys env.grow fuel 0 (collectAll env.order w p).1
          (collectAll env.order w p).2 with
      | none => rw [hgrow] at h; cases h
      | some res =>
        obtain ⟨res, w₁, p₁⟩ := res
        rw [hgrow] at h
        cases res with
        | error e => cases h
        | ok bc =>
          cases h
          obtain ⟨g, p₂, hnew, hgrown, hpopped⟩ :=
            growLoop_grown (popFree_eq_none.mp hpop₁) hgrow
          refine ⟨g, p₂, ?_, hgrown, hpopped⟩
          rw [(collectAll_collected hnodup w p).pool] at hnew
          exact hnew

/-- The effect of an erasure of a segment of the pool. -/
structure Erased (s : Nat) (w : World C) (p : Pool C) (w' : World C) (p' : Pool C) : Prop where
  pool : p' = { p with segments := p.segments.erase s }
  segmentAt : ∀ s', s' ≠ s → w'.segmentAt s' = w.segmentAt s'
  nextSegment : w'.nextSegment = w.nextSegment
  deviceId : w'.deviceId = w.deviceId
  kept : ∀ r ∈ w.outstanding, r ∉ (w.segmentAt s).resources → r ∈ w'.outstanding
  released : ∀ out, w.outstanding.Perm ((w.segmentAt s).resources ++ out) →
    w'.outstanding.Perm out ∧ w'.misreleases = w.misreleases

theorem erase_erased {s : Nat} {w : World C} {p : Pool C} (hs : s ∈ p.segments) :
    Erased s w p (p.erase s w).1 (p.erase s w).2 := by
  rw [Pool.erase, if_pos hs]
  exact
    { pool := rfl
      segmentAt := fun s' hne => by simp [destroySegment_segmentAt, hne]
      nextSegment := by simp
      deviceId := by simp
      kept := fun r hr hnot => mem_foldl_release _ hr hnot
      released := fun out hout => destroyMembers_perm (w := w.modifySegment s _) hout }

theorem eraseSegment_erased {s : Nat} {w : World C} {p : Pool C} (hs : s ∈ p.segments) :
    Erased s w p (p.eraseSegment s w).1 (p.eraseSegment s w).2 := by
  unfold Pool.eraseSegment
  cases p.allocateOnDevice with
  | false => exact erase_erased hs
  | true =>
    -- The device is switched for the erasure and switched back after it.
    have herased := erase_erased (w := w.setDeviceId p.deviceId) hs
    exact
      { pool := herased.pool
        segmentAt := herased.segmentAt
        nextSegment := herased.nextSegment
        deviceId := rfl
        kept := herased.kept
        released := herased.released }

/-- The erasure of a key that is not there does nothing. -/
theorem eraseSegment_of_not_mem {s : Nat} {w : World C} {p : Pool C} (hs : s ∉ p.segments) :
    p.eraseSegment s w = (w, p) := by
  unfold Pool.eraseSegment Pool.erase
  cases p.allocateOnDevice with
  | false => simp [hs]
  | true =>
    simp only [if_true, if_neg hs]
    rfl

/-- What a call of `free` can have done: it returned the block to its segment,
and erased the segment if that made it full and the pool is above its reserve. -/
theorem free_cases (b : Block C) (w : World C) (p : Pool C) :
    (p.free b w = (segmentFree b w, p) ∧
        ¬(p.neverFree = false ∧ ((segmentFree b w).segmentAt b.segment).isEmpty = true ∧
          p.numReserveSegments < p.segments.length)) ∨
      (p.free b w = p.eraseSegment b.segment (segmentFree b w) ∧ p.neverFree = false ∧
        ((segmentFree b w).segmentAt b.segment).isEmpty = true ∧
        p.numReserveSegments < p.segments.length) := by
  unfold Pool.free
  dsimp only
  cases hnever : p.neverFree <;>
    cases hempty : ((segmentFree b w).segmentAt b.segment).isEmpty <;>
      by_cases hsize : p.numReserveSegments < p.segments.length <;>
        simp [hsize]

@[simp] theorem segmentFree_segmentAt_self (b : Block C) (w : World C) :
    (segmentFree b w).segmentAt b.segment =
      ((w.segmentAt b.segment).pushFreed b).addFreed 1 := by
  simp [segmentFree, World.modifySegment_segmentAt]

theorem segmentFree_segmentAt_ne {b : Block C} {w : World C} {s : Nat} (h : s ≠ b.segment) :
    (segmentFree b w).segmentAt s = w.segmentAt s := by
  simp [segmentFree, World.modifySegment_segmentAt, h]

end HwMalloc
