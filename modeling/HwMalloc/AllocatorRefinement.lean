import HwMalloc.HeapProgress
import HwMalloc.Lib.Allocator
import HwMalloc.NumaTools

/-!
# HwMalloc.AllocatorRefinement

The heap is an allocator, to any number of threads: what its clients see of a run
is what they may see of the allocator of `HwMalloc.Lib.Allocator`.

The allocator knows a set of blocks that are held and the requests that are under way,
and nothing else: no pools, no stacks, no segments. Its steps are those that a client
can see, a request, the block that is granted, and the block that is returned. The
heap takes many steps between these, and any of them may stand between two steps of
another thread, so the refinement is one with hidden steps (`Lib.Run.refine`).

* **What is seen.** `ConcHeap.observe` reads an event off a step: the call of
  `allocate` or `free`, or its return with a block. All else is hidden.
* **What fits.** A granted block has the size, the node and the device that were asked
  for (`Request.Fits`), which is read off the segment that the block lies in.
* **What is remembered.** A request is under way from the call of `allocate` to its
  return, although the heap forgets it as soon as it has chosen a pool; the pool that
  was chosen is what remembers that the block fits (`HeapPc.Pending`).

`heap_refines_allocator` is the simulation along whole runs without exceptions.
-/

namespace HwMalloc

variable {C : Context} {Tid : Type}

/-! ### What clients see

A client sees addresses, and may rely on the bytes behind them. Which pool or segment
they are from is none of its business, and does not occur in what is observed. -/

/-- What a client may rely on: the bytes from the address of the block, the node
they are on, and the device of their mirror. -/
structure Extent where
  bytes : Nat
  node : Nat
  device : Option Int
  deriving DecidableEq

/-- The extent of a block. -/
def World.extent (w : World C) (b : Block C) : Extent where
  bytes := (w.segmentAt b.segment).blockSize
  node := (w.segmentAt b.segment).allocation.node
  device := if (w.segmentAt b.segment).deviceRegion.isSome then some b.deviceId else none

/-- The extent of the blocks of a pool. -/
def PoolParams.extent (p : PoolParams) : Extent where
  bytes := p.blockSize
  node := p.numaNode
  device := if p.allocateOnDevice then some p.deviceId else none

/-- A request gets what it asks for, on a machine with the local nodes `ids` and
`D` devices: the size, up to `2 ^ 31` bytes, the node, or that of the caller if it
is not a local one, and the device. -/
structure Request.Fits (ids : List Nat) (D : Nat) (q : Request) (x : Extent) : Prop where
  bytes : 1 ≤ q.size → q.size ≤ 2 ^ 31 → q.size ≤ x.bytes
  node : ValidDevice D q.deviceId → x.node = if q.numaNode ∈ ids then q.numaNode else q.localNode
  device : ValidDevice D q.deviceId → x.device = q.deviceId

/-- What a client sees of a step. -/
def ConcHeap.observe (st : ConcHeap C Tid) (l : Label Tid) (st' : ConcHeap C Tid) :
    Option (Lib.AllocEvent Tid Request (Block C) Extent) :=
  match st.pc l.thread, st'.pc l.thread with
  | .idle, .hugeLock q | .idle, .dispatch q _ => some (.requested l.thread q)
  | .idle, .inPool _ (.freePush b) => some (.returned l.thread b)
  | .inPool _ (.allocReturn b), _ => some (.granted l.thread b (st.world.extent b))
  | _, _ => none

/-- A step without exception, with what is seen of it. -/
def ObservedStep [DecidableEq Tid] (sys : System) (st : ConcHeap C Tid)
    (e : Label Tid × Option (Lib.AllocEvent Tid Request (Block C) Extent))
    (st' : ConcHeap C Tid) : Prop :=
  ConcHeapStepOk sys st e.1 st' ∧ e.2 = st.observe e.1 st'

/-! ### The pool that is chosen

The routing by size, node and device, and the segment that a block of the chosen pool
lies in, have the same extent: `add_segment` asks for memory on the node of the pool,
and mirrors it on the device if the pool is one for a device. -/

/-- The blocks of a pool for node `n` and device `d`. -/
theorem extent_poolFor (b g : Nat) (never : Bool) (r n : Nat) (d : Option Int) :
    (poolFor b g never r n d).extent = ⟨b, n, d⟩ := by
  cases d <;> rfl

/-- The pool to which a request is sent has blocks that fit. -/
theorem fits_of_params {ids : List Nat} {D : Nat} (hnodup : ids.Nodup) {a : HeapConfigArgs}
    {c : HeapConfig} (hc : heapConfig a = .ok c) {h : Heap}
    (hw : h.WellFormed (topologyOf ids D) c) {q : Request} {slot : Bool × Nat}
    (hslot : poolSlot h.topo q.localNode q.numaNode q.deviceId = some slot)
    {params : PoolParams}
    (hparams : h.params? ⟨(h.select q.size).2, slot.1, slot.2⟩ = some params) :
    q.Fits ids D params.extent := by
  obtain ⟨f, hf, hget⟩ := Option.bind_eq_some_iff.mp hparams
  have hbytes : 1 ≤ q.size → q.size ≤ 2 ^ 31 → q.size ≤ f.blockSize := fun h1 h2 =>
    le_blockSize_of_select hc hw h1 h2 (Heap.find?_select h q.size hf)
  obtain ⟨b, g, rfl⟩ := Heap.find?_eq_some hw hf
  obtain ⟨n, d, rfl, -⟩ := poolAt_eq_some hget
  rw [extent_poolFor]
  -- The slot is that of the node that `numa_node_index` finds.
  have hexact : ValidDevice D q.deviceId →
      (⟨b, n, d⟩ : Extent) =
        ⟨b, if q.numaNode ∈ ids then q.numaNode else q.localNode, q.deviceId⟩ := by
    intro hd
    have hindex := numaNodeIndex_topologyOf (D := D) hnodup q.localNode q.numaNode
    rw [hw.topo_eq] at hslot
    have hsome : (numaNodeIndex (topologyOf ids D) q.localNode q.numaNode).isSome := by
      cases hnone : numaNodeIndex (topologyOf ids D) q.localNode q.numaNode with
      | some i => rfl
      | none =>
        rw [poolSlot, hnone] at hslot
        cases hslot
    obtain ⟨m, hm, hmids, hidx⟩ : ∃ m, (m = if q.numaNode ∈ ids then q.numaNode else q.localNode) ∧
        m ∈ ids ∧ numaNodeIndex (topologyOf ids D) q.localNode q.numaNode =
          some ((ids.insertionSort (· ≤ ·)).idxOf m) := by
      by_cases hn : q.numaNode ∈ ids
      · exact ⟨_, (if_pos hn).symm, hn, by rw [hindex, if_pos hn]⟩
      · by_cases hl : q.localNode ∈ ids
        · exact ⟨_, (if_neg hn).symm, hl, by rw [hindex, if_neg hn, if_pos hl]⟩
        · rw [hindex, if_neg hn, if_neg hl] at hsome
          cases hsome
    have hpool : (makeFixedSizeHeap (topologyOf ids D) c b g).requestPool (topologyOf ids D)
        q.localNode q.numaNode q.deviceId =
          some (poolFor b g c.neverFree c.numReserveSegments m q.deviceId) :=
      requestPool_of_index hmids hidx hd
    rw [FixedSizeHeap.requestPool, hslot, Option.bind_some] at hpool
    have heq := congrArg PoolParams.extent (Option.some.inj (hget.symm.trans hpool))
    rw [extent_poolFor, extent_poolFor] at heq
    rw [heq, hm]
  refine ⟨hbytes, fun hd => ?_, fun hd => ?_⟩
  · exact congrArg Extent.node (hexact hd)
  · exact congrArg Extent.device (hexact hd)

/-- A block of a pool has the extent that the parameters of the pool say. -/
theorem extent_of_isBlock [Fintype Tid] {sys : System} {st : ConcState C Tid} {b : Block C}
    (h : ConcInv sys st) (hb : st.IsBlock b) :
    st.world.extent b = st.pool.toPoolParams.extent := by
  have hmade := h.made b.segment hb.1
  obtain ⟨i, -, hi⟩ := Segment.mem_blocks.mp hb.2
  have hdevice : (st.world.segmentAt b.segment).deviceRegion.isSome →
      b.deviceId = st.pool.deviceId := by
    intro hsome
    obtain ⟨r, hr⟩ := Option.isSome_iff_exists.mp hsome
    rw [← hi, Segment.blockAt, hr]
  rw [World.extent, PoolParams.extent, hmade.blockSize, hmade.node, hmade.onDevice]
  by_cases hon : st.pool.allocateOnDevice
  · rw [if_pos hon, if_pos hon, hdevice (by rw [hmade.onDevice, hon])]
  · rw [if_neg hon, if_neg hon]

/-! ### What the heap remembers of a request

Before the dispatch the size decides, and after it the pool does. The entry that was
chosen stays right when other threads add entries to `m_huge_heaps`, since no entry is
ever removed or replaced. -/

/-- In `pool::allocate`. -/
def Pc.Allocating : Pc C → Prop
  | .allocPop | .allocLock | .allocPopLocked | .collectPop _ _ _ | .collectPush _ _ _ _
  | .collectSub _ _ _ | .allocPopCollected | .growPop _ | .grow _ | .allocUnlock _
  | .allocReturn _ => True
  | _ => False

/-- What is known of a thread whose request is `p`. -/
def HeapPc.Pending (ids : List Nat) (D : Nat) (h : Heap) (p : Option Request) : HeapPc C → Prop
  | .idle => p = none
  | .hugeLock q | .hugeFind q | .hugeUnlock q =>
    p = some q ∧ (h.select q.size).2 = .huge (roundToPowOf2 q.size)
  | .dispatch q ref => p = some q ∧ (h.select q.size).2 = ref
  | .inPool id x =>
    (x.Allocating → ∃ q params, p = some q ∧ h.params? id = some params ∧
      q.Fits ids D params.extent) ∧ (¬x.Allocating → p = none)

theorem Pc.allocating_collectNext (todo : List Nat) : (collectNext todo : Pc C).Allocating := by
  cases todo <;> trivial

theorem Pc.allocating_of_onPop {x : Pc C} {next : Block C → Pc C} (h : x.onPop = some next)
    (b : Block C) : (next b).Allocating ∧ x.Allocating := by
  cases x <;> simp only [onPop, Option.some.injEq, reduceCtorEq] at h
  all_goals
    subst h
    exact ⟨trivial, trivial⟩

theorem Pc.allocating_of_onEmpty {x y : Pc C} {order : List Nat} (h : x.onEmpty order = some y) :
    y.Allocating ∧ x.Allocating := by
  cases x <;> simp only [onEmpty, Option.some.injEq, reduceCtorEq] at h
  case allocPopLocked =>
    subst h
    exact ⟨allocating_collectNext order, trivial⟩
  case growPop counter =>
    subst h
    refine ⟨?_, trivial⟩
    split <;> trivial
  all_goals
    subst h
    exact ⟨trivial, trivial⟩

/-- A step of a call of a pool either hands out the block, or it is a step within
the call, which no client sees. -/
theorem concStep_seen [DecidableEq Tid] {sys : System} {st st' : ConcState C Tid} {t : Tid}
    (hbusy : st.pc t ≠ .idle) (h : ConcStep sys st (.normal t) st') :
    (∃ b, st.pc t = .allocReturn b ∧ st'.pc t = .idle ∧ st'.live = b :: st.live) ∨
      ((∀ b, st.pc t ≠ .allocReturn b) ∧ st'.live = st.live ∧
        ((st'.pc t).Allocating ↔ (st.pc t).Allocating)) := by
  -- Most steps stay in the same call.
  have hwithin : ∀ {st₁ : ConcState C Tid} {x y : Pc C}, st.pc t = x → st₁.live = st.live →
      (∀ b, x ≠ .allocReturn b) → (y.Allocating ↔ x.Allocating) →
      ((∀ b, st.pc t ≠ .allocReturn b) ∧ (st₁.setPc t y).live = st.live ∧
        (((st₁.setPc t y).pc t).Allocating ↔ (st.pc t).Allocating)) := by
    intro st₁ x y hx hlive hnot hy
    rw [hx, ConcState.setPc_pc_self]
    exact ⟨hnot, hlive, hy⟩
  cases h with
  -- The calls themselves are steps of the heap.
  | callAllocate hx => exact absurd hx hbusy
  | callFree hx _ => exact absurd hx hbusy
  | pop hx _ =>
    obtain ⟨hnext, hold⟩ := Pc.allocating_of_onPop hx _
    refine Or.inr (hwithin rfl rfl (fun b hb => ?_) (iff_of_true hnext hold))
    rw [hb] at hx
    cases hx
  | popEmpty hx _ _ =>
    obtain ⟨hnext, hold⟩ := Pc.allocating_of_onEmpty hx
    refine Or.inr (hwithin rfl rfl (fun b hb => ?_) (iff_of_true hnext hold))
    rw [hb] at hx
    cases hx
  -- The return of `allocate` is the only step that hands a block out.
  | @allocReturn _ b hx => exact Or.inl ⟨b, hx, ConcState.setPc_pc_self _ _ _, rfl⟩
  | collectSub hx =>
    exact Or.inr (hwithin hx rfl (by simp) (iff_of_true (Pc.allocating_collectNext _) trivial))
  -- A test leads to one of two places, both of the same call.
  | freeInc hx => exact Or.inr (hwithin hx rfl (by simp) (by split <;> exact Iff.rfl))
  | freeTest hx _ => exact Or.inr (hwithin hx rfl (by simp) (by split <;> exact Iff.rfl))
  | freeRecheck hx _ => exact Or.inr (hwithin hx rfl (by simp) (by split <;> exact Iff.rfl))
  -- The others lead on within the call.
  | allocLock hx _ => exact Or.inr (hwithin hx rfl (by simp) Iff.rfl)
  | collectPop hx _ => exact Or.inr (hwithin hx rfl (by simp) Iff.rfl)
  | collectEmpty hx _ => exact Or.inr (hwithin hx rfl (by simp) Iff.rfl)
  | collectPush hx => exact Or.inr (hwithin hx rfl (by simp) Iff.rfl)
  | grow hx _ => exact Or.inr (hwithin hx rfl (by simp) Iff.rfl)
  | allocUnlock hx => exact Or.inr (hwithin hx rfl (by simp) Iff.rfl)
  | freePush hx => exact Or.inr (hwithin hx rfl (by simp) Iff.rfl)
  | freeLock hx _ => exact Or.inr (hwithin hx rfl (by simp) Iff.rfl)
  | freeErase hx => exact Or.inr (hwithin hx rfl (by simp) Iff.rfl)
  | freeUnlock hx => exact Or.inr (hwithin hx rfl (by simp) Iff.rfl)

/-- The choice of the heap does not depend on the entries of `m_huge_heaps`. -/
theorem Heap.select_hugeEntry (h : Heap) (key size : Nat) :
    ((h.hugeEntry key).select size).2 = (h.select size).2 := by
  have hsame : (h.hugeEntry key).config = h.config ∧ (h.hugeEntry key).maxSize = h.maxSize := by
    unfold hugeEntry
    split <;> exact ⟨rfl, rfl⟩
  rw [select, select, hsame.1, hsame.2]
  split
  · rfl
  · split <;> rfl

theorem HeapPc.Pending.hugeEntry {ids : List Nat} {D : Nat} {h : Heap} {p : Option Request}
    {x : HeapPc C} (hx : x.Pending ids D h p) (key : Nat) :
    x.Pending ids D (h.hugeEntry key) p := by
  cases x with
  | idle => exact hx
  | inPool id x =>
    refine ⟨fun halloc => ?_, hx.2⟩
    obtain ⟨q, params, hp, hparams, hfits⟩ := hx.1 halloc
    exact ⟨q, params, hp, h.params?_hugeEntry key hparams, hfits⟩
  | _ => exact ⟨hx.1, (Heap.select_hugeEntry h key _).trans hx.2⟩

theorem HeapPc.Pending.ofPool {ids : List Nat} {D : Nat} {h : Heap} {p : Option Request}
    {id : PoolId} {x : Pc C} (hx : (HeapPc.inPool id x).Pending ids D h p) :
    (HeapPc.ofPool id x).Pending ids D h p := by
  cases x with
  | idle => exact hx.2 fun halloc => halloc
  | _ => exact hx

/-! ### The blocks that clients hold

To the allocator the blocks that are held are one set, to the heap one list for each
pool. No block is in two of them, and none is in one of them twice, because every block
has one place in its pool and one pool through its segment. -/

namespace ConcHeapInv

variable [Fintype Tid] {sys : System} {c : HeapConfig} {st : ConcHeap C Tid}

theorem live_nodup (h : ConcHeapInv sys c st) (id : PoolId) : (st.live id).Nodup := by
  refine List.nodup_iff_count_le_one.mpr fun b => ?_
  cases hparams : st.heap.params? id with
  | none => simp [(h.absent id hparams).2.1]
  | some params =>
    have hplaces := (h.pool id params hparams).places_le_one b
    have hle : (st.live id).count b ≤ (st.view id params).places b := by
      show (st.view id params).live.count b ≤ _
      simp only [ConcState.places]
      omega
    exact hle.trans hplaces

/-- No block is held under two pools. -/
theorem live_unique (h : ConcHeapInv sys c st) {id id' : PoolId} {b : Block C}
    (hb : b ∈ st.live id) (hb' : b ∈ st.live id') : id = id' :=
  (h.live_segment hb).2.symm.trans (h.live_segment hb').2

/-- A block that a thread is about to hand out is held by nobody. -/
theorem not_live_of_held (h : ConcHeapInv sys c st) {t : Tid} {id : PoolId} {b : Block C}
    {params : PoolParams} (hparams : st.heap.params? id = some params)
    (hheld : ((st.pc t).within id).held = some b) (id' : PoolId) : b ∉ st.live id' := by
  intro hb
  have hinv := h.pool id params hparams
  have hblock := hinv.isBlock_of_held (t := t) hheld
  obtain rfl : id' = id := (h.live_segment hb).2.symm.trans (h.segment_pool hblock.1).2
  have hplaces := hinv.places_le_one b
  have htransit := ConcInv.holds_le_inTransit (st.view id' params) t b
  have hone : ((st.view id' params).pc t).holds b = 1 := if_pos hheld
  have hlive : 0 < (st.view id' params).live.count b := List.count_pos_iff.mpr hb
  simp only [ConcState.places] at hplaces
  omega

end ConcHeapInv

/-! ### The simulation

One step of the heap is one step of the allocator or none (`Observes.step`). Where it
is one, the allocator must be able to take it, and that is where the invariant of the
heap is used: a block that is granted is held by nobody. -/

/-- The allocator `a` as the clients of the heap see it. -/
structure Observes (ids : List Nat) (D : Nat) (st : ConcHeap C Tid)
    (a : Lib.Allocator Tid Request (Block C)) : Prop where
  live : ∀ b, b ∈ a.live ↔ ∃ id, b ∈ st.live id
  pending : ∀ t, (st.pc t).Pending ids D st.heap (a.pending t)

namespace Observes

variable {ids : List Nat} {D : Nat} {st : ConcHeap C Tid}
  {a a' : Lib.Allocator Tid Request (Block C)}

theorem init {sys : System} {c : HeapConfig} (h : st.Init sys c) : Observes ids D st .new where
  live := fun b => by simp [Lib.Allocator.new, h.live]
  pending := fun t => by
    rw [h.pc t]
    rfl

variable [DecidableEq Tid]

/-- A thread moves to `x`. -/
theorem setPc {heap : Heap} {m : Option Tid} {live : PoolId → List (Block C)} {t : Tid}
    {x : HeapPc C} (hlive : ∀ b, b ∈ a'.live ↔ ∃ id, b ∈ live id)
    (hx : x.Pending ids D heap (a'.pending t))
    (hothers : ∀ u, u ≠ t → (st.pc u).Pending ids D heap (a'.pending u)) :
    Observes ids D ({ st with heap := heap, mutex := m, live := live }.setPc t x) a' where
  live := hlive
  pending := fun u => by
    by_cases hu : u = t
    · subst hu
      simpa [ConcHeap.setPc] using hx
    · simpa [ConcHeap.setPc, hu] using hothers u hu

/-- A thread makes a step in the pool `id`. -/
theorem put {t : Tid} {id : PoolId} {st₁ : ConcState C Tid}
    (hlive : ∀ b, b ∈ a'.live ↔ ∃ id', b ∈ Function.update st.live id st₁.live id')
    (hx : (HeapPc.inPool id (st₁.pc t)).Pending ids D st.heap (a'.pending t))
    (hothers : ∀ u, u ≠ t → (st.pc u).Pending ids D st.heap (a'.pending u)) :
    Observes ids D (st.put id t st₁) a' where
  live := hlive
  pending := fun u => by
    by_cases hu : u = t
    · subst hu
      simpa [ConcHeap.put] using hx.ofPool
    · simpa [ConcHeap.put, hu] using hothers u hu

/-- Every step is one of the allocator, or is not seen. -/
theorem step [Fintype Tid] {sys : System} {args : HeapConfigArgs} {c : HeapConfig}
    {st' : ConcHeap C Tid} {l : Label Tid} (hc : heapConfig args = .ok c) (hnodup : ids.Nodup)
    (htopo : sys.topo = topologyOf ids D) (hinv : ConcHeapInv sys c st)
    (h : Observes ids D st a) (hstep : ConcHeapStepOk sys st l st') :
    (st.observe l st' = none ∧ Observes ids D st' a) ∨
      ∃ o a', st.observe l st' = some o ∧ Lib.AllocatorStep (Request.Fits ids D) a o a' ∧
        Observes ids D st' a' := by
  obtain ⟨⟨t, rfl⟩, hstep⟩ := hstep
  have hpending := h.pending t
  cases hstep with
  | @callAllocate _ q hx _ =>
    -- A new request, which may start in the search of `m_huge_heaps`.
    rw [hx] at hpending
    refine Or.inr ⟨.requested t q, ⟨Function.update a.pending t (some q), a.live⟩, ?_,
      .requested hpending, setPc h.live ?_ fun u hu => ?_⟩
    · by_cases hhuge : st.heap.IsHuge q.size <;>
        simp [ConcHeap.observe, ConcHeap.setPc, Label.thread, hx, hhuge]
    · by_cases hhuge : st.heap.IsHuge q.size
      · simp [hhuge, HeapPc.Pending, Heap.select_of_isHuge hhuge]
      · simp [hhuge, HeapPc.Pending]
    · simpa [hu] using h.pending u
  -- The search of `m_huge_heaps` is hidden. It may add an entry, which changes the
  -- choice for no request that is under way.
  | hugeLock hx _ =>
    rw [hx] at hpending
    refine Or.inl ⟨by simp [ConcHeap.observe, Label.thread, hx], setPc h.live hpending ?_⟩
    exact fun u _ => h.pending u
  | hugeFind hx =>
    rw [hx] at hpending
    refine Or.inl ⟨by simp [ConcHeap.observe, Label.thread, hx],
      setPc h.live (hpending.hugeEntry _) ?_⟩
    exact fun u _ => (h.pending u).hugeEntry _
  | hugeUnlock hx =>
    rw [hx] at hpending
    refine Or.inl ⟨by simp [ConcHeap.observe, Label.thread, hx], setPc h.live hpending ?_⟩
    exact fun u _ => h.pending u
  | @dispatch _ q ref slot hx hslot hsome =>
    -- The pool is chosen, and is from now on what is known of the request.
    rw [hx] at hpending
    obtain ⟨hp, href⟩ := hpending
    obtain ⟨params, hparams⟩ := Option.isSome_iff_exists.mp hsome
    refine Or.inl ⟨by simp [ConcHeap.observe, Label.thread, hx], setPc h.live ⟨fun _ => ?_, ?_⟩
      fun u _ => h.pending u⟩
    · refine ⟨q, params, hp, hparams, fits_of_params hnodup hc (htopo ▸ hinv.heap) hslot ?_⟩
      rw [href]
      exact hparams
    · exact fun hnot => absurd trivial hnot
  | @callFree _ id b hx hb _ =>
    -- A block that is held under one pool is held under no other, so that the set
    -- without it is what is left.
    rw [hx] at hpending
    refine Or.inr ⟨.returned t b, ⟨a.pending, a.live \ {b}⟩,
      by simp [ConcHeap.observe, ConcHeap.setPc, Label.thread, hx],
      .returned hpending ((h.live b).mpr ⟨id, hb⟩), setPc (fun b' => ?_) ?_ fun u _ => h.pending u⟩
    · rw [Set.mem_sdiff, h.live, Set.mem_singleton_iff]
      constructor
      · rintro ⟨⟨id', hb'⟩, hne⟩
        refine ⟨id', ?_⟩
        by_cases hid : id' = id
        · subst hid
          simpa [hne] using hb'
        · simpa [hid] using hb'
      · rintro ⟨id', hb'⟩
        by_cases hid : id' = id
        · subst hid
          rw [Function.update_self, (hinv.live_nodup id').mem_erase_iff] at hb'
          exact ⟨⟨id', hb'.2⟩, hb'.1⟩
        · rw [Function.update_of_ne hid] at hb'
          refine ⟨⟨id', hb'⟩, ?_⟩
          rintro rfl
          exact hid (hinv.live_unique hb' hb)
    · exact ⟨fun halloc => halloc.elim, fun _ => hpending⟩
  | @inPool _ id x params st₁ hx hne hparams hstep =>
    have hx : st.pc t = .inPool id x := hx
    have hwithin : (st.view id params).pc t = x := by
      show (st.pc t).within id = x
      rw [hx]
      exact if_pos rfl
    rw [hx] at hpending
    rcases concStep_seen (hwithin ▸ hne) hstep with
      ⟨b, hret, hidle, hlive⟩ | ⟨hnot, hlive, hsame⟩
    · -- The block is handed out: it fits, and nobody holds it.
      rw [hwithin] at hret
      subst hret
      obtain ⟨q, params', hp, hparams', hfits⟩ := hpending.1 trivial
      obtain rfl := Option.some.inj (hparams.symm.trans hparams')
      have hheld : ((st.pc t).within id).held = some b := by
        rw [show (st.pc t).within id = _ from hwithin]
        rfl
      have hpool := hinv.pool id params hparams
      have hextent : st.world.extent b = params.extent :=
        extent_of_isBlock hpool (hpool.isBlock_of_held (t := t) hheld)
      refine Or.inr ⟨.granted t b (st.world.extent b),
        ⟨Function.update a.pending t none, insert b a.live⟩,
        by simp [ConcHeap.observe, Label.thread, hx], .granted hp (hextent ▸ hfits) ?_,
        put (t := t) (fun b' => ?_) ?_ fun u hu => ?_⟩
      · rw [h.live]
        rintro ⟨id', hb⟩
        exact hinv.not_live_of_held hparams hheld id' hb
      · rw [hlive, Set.mem_insert_iff, h.live]
        constructor
        · rintro (rfl | ⟨id', hb'⟩)
          · exact ⟨id, by simp⟩
          · by_cases hid : id' = id
            · exact ⟨id, by simpa using Or.inr (hid ▸ hb')⟩
            · exact ⟨id', by simpa [hid] using hb'⟩
        · rintro ⟨id', hb'⟩
          by_cases hid : id' = id
          · subst hid
            rw [Function.update_self] at hb'
            exact (List.mem_cons.mp hb').imp id fun hb' => ⟨id', hb'⟩
          · rw [Function.update_of_ne hid] at hb'
            exact Or.inr ⟨id', hb'⟩
      · rw [hidle]
        exact ⟨fun halloc => halloc.elim, fun _ => by simp⟩
      · simpa [hu] using h.pending u
    · -- Within a call of the pool nothing is seen.
      rw [hwithin] at hnot hsame
      refine Or.inl ⟨?_, put (t := t) (fun b => ?_) ⟨fun halloc => ?_, fun hfree => ?_⟩
        fun u _ => h.pending u⟩
      · cases x <;> simp [ConcHeap.observe, Label.thread, hx] at hnot ⊢
      · have hsame : st₁.live = st.live id := hlive
        rw [hsame, Function.update_eq_self]
        exact h.live b
      · exact hpending.1 (hsame.mp halloc)
      · exact hpending.2 fun halloc => hfree (hsame.mpr halloc)

end Observes

/-- The simulation: an allocator that the clients cannot tell from the heap. -/
structure Refines [Fintype Tid] (sys : System) (c : HeapConfig) (ids : List Nat) (D : Nat)
    (st : ConcHeap C Tid) (s : Lib.Allocator Tid Request (Block C)) : Prop
    extends ConcHeapInv sys c st, Observes ids D st s

namespace Refines

variable [Fintype Tid] [DecidableEq Tid] {sys : System} {ids : List Nat} {D : Nat}
  {a : HeapConfigArgs} {c : HeapConfig} {st st' : ConcHeap C Tid} {l : Label Tid}
  {s : Lib.Allocator Tid Request (Block C)}

theorem hidden (h : Refines sys c ids D st s) (hc : heapConfig a = .ok c) (hnodup : ids.Nodup)
    (htopo : sys.topo = topologyOf ids D) (hstep : ConcHeapStepOk sys st l st')
    (hnone : st.observe l st' = none) : Refines sys c ids D st' s := by
  rcases h.toObserves.step hc hnodup htopo h.toConcHeapInv hstep with ⟨-, hobs⟩ | ⟨o, s', ho, -⟩
  · exact ⟨h.toConcHeapInv.step hstep, hobs⟩
  · cases ho.symm.trans hnone

theorem observed (h : Refines sys c ids D st s) (hc : heapConfig a = .ok c) (hnodup : ids.Nodup)
    (htopo : sys.topo = topologyOf ids D) (hstep : ConcHeapStepOk sys st l st')
    {o : Lib.AllocEvent Tid Request (Block C) Extent} (hsome : st.observe l st' = some o) :
    ∃ s', Lib.AllocatorStep (Request.Fits ids D) s o s' ∧ Refines sys c ids D st' s' := by
  rcases h.toObserves.step hc hnodup htopo h.toConcHeapInv hstep with
    ⟨hnone, -⟩ | ⟨o', s', ho, hs, hobs⟩
  · cases hnone.symm.trans hsome
  · obtain rfl := Option.some.inj (ho.symm.trans hsome)
    exact ⟨s', hs, h.toConcHeapInv.step hstep, hobs⟩

end Refines

/-- The heap refines the allocator: whatever any number of threads do, what they
see is what they may see of an allocator that hands out blocks that nobody holds
and that fit the requests; a block was handed out once more than it was taken back
if a client holds it, and else as often. -/
theorem heap_refines_allocator [Fintype Tid] [DecidableEq Tid] {sys : System} {ids : List Nat}
    {D : Nat} {a : HeapConfigArgs} {c : HeapConfig} (hc : heapConfig a = .ok c)
    (hnodup : ids.Nodup) (htopo : sys.topo = topologyOf ids D) {st₀ st : ConcHeap C Tid}
    {es : List (Label Tid × Option (Lib.AllocEvent Tid Request (Block C) Extent))}
    (hinit : st₀.Init sys c) (hrun : Lib.Run (ObservedStep sys) st₀ es st) :
    (∃ s, Lib.Run (Lib.AllocatorStep (Request.Fits ids D)) .new (es.filterMap Prod.snd) s ∧
        ∀ b, b ∈ s.live ↔ ∃ id, b ∈ st.live id) ∧
      ∀ b,
        ((∃ id, b ∈ st.live id) → (es.filterMap Prod.snd).countP (Lib.AllocEvent.grants b) =
          (es.filterMap Prod.snd).countP (Lib.AllocEvent.returns b) + 1) ∧
        ((¬∃ id, b ∈ st.live id) → (es.filterMap Prod.snd).countP (Lib.AllocEvent.grants b) =
          (es.filterMap Prod.snd).countP (Lib.AllocEvent.returns b)) := by
  have hhidden : ∀ st (e : Label Tid × Option (Lib.AllocEvent Tid Request (Block C) Extent)) st' s,
      Refines sys c ids D st s → ObservedStep sys st e st' → e.2 = none →
        Refines sys c ids D st' s := fun _ _ _ _ h hstep hnone =>
    h.hidden hc hnodup htopo hstep.1 (hstep.2.symm.trans hnone)
  have hobserved : ∀ st (e : Label Tid × Option (Lib.AllocEvent Tid Request (Block C) Extent)) st'
      s o, Refines sys c ids D st s → ObservedStep sys st e st' → e.2 = some o →
        ∃ s', Lib.AllocatorStep (Request.Fits ids D) s o s' ∧ Refines sys c ids D st' s' :=
    fun _ _ _ _ _ h hstep hsome =>
      h.observed hc hnodup htopo hstep.1 (hstep.2.symm.trans hsome)
  obtain ⟨s, hspec, hs⟩ := hrun.refine hhidden hobserved ⟨.init hinit, .init hinit⟩
  refine ⟨⟨s, hspec, hs.live⟩, fun b => ?_⟩
  rw [← hs.live b]
  exact Lib.granted_eq_returned hspec b

/-- One of the three blocks has been returned, and the others are with the clients of
their pools. -/
theorem heap_refines_allocator_twoPoolsReturn :
    ∃ (st : ConcHeap rangeContext Bool) (b : Block rangeContext)
      (es : List (Label Bool × Option (Lib.AllocEvent Bool Request (Block rangeContext) Extent))),
      Lib.Run (ObservedStep smallPages) smallHeapStart es st ∧
      st.live ⟨.tiny 7, false, 0⟩ = [smallBlock 1] ∧ st.live ⟨.tiny 2, false, 0⟩ = [b] ∧
      (∃ s, Lib.Run (Lib.AllocatorStep (Request.Fits [0] 0)) .new (es.filterMap Prod.snd) s ∧
        smallBlock 1 ∈ s.live ∧ b ∈ s.live) ∧
      (es.filterMap Prod.snd).countP (Lib.AllocEvent.grants (smallBlock 1)) =
        (es.filterMap Prod.snd).countP (Lib.AllocEvent.returns (smallBlock 1)) + 1 ∧
      (es.filterMap Prod.snd).countP (Lib.AllocEvent.grants (smallBlock 0)) =
        (es.filterMap Prod.snd).countP (Lib.AllocEvent.returns (smallBlock 0)) := by
  obtain ⟨st, b, hexec, hlive, hlive'⟩ : ∃ st b,
      Lib.exec (fun st e => ConcHeap.advance smallPages st e.1 e.2) twoPoolsReturn
          smallHeapStart = some st ∧
        st.live ⟨.tiny 7, false, 0⟩ = [smallBlock 1] ∧ st.live ⟨.tiny 2, false, 0⟩ = [b] :=
    ⟨_, _, rfl, rfl, rfl⟩
  have hok := heapRun_of_schedule hexec
  obtain ⟨es, -, hrun⟩ := hok.annotate fun st l st' => st.observe l st'
  have hnodup : [0].Nodup := by decide
  have htopo : smallPages.topo = topologyOf [0] 0 := rfl
  obtain ⟨⟨s, hspec, hs⟩, hcount⟩ := heap_refines_allocator heapConfig_smallSegment hnodup htopo
    smallHeapStart_init hrun
  have hheld : ∃ id, smallBlock 1 ∈ st.live id := ⟨⟨.tiny 7, false, 0⟩, by simp [hlive]⟩
  have hheld' : ∃ id, b ∈ st.live id := ⟨⟨.tiny 2, false, 0⟩, by simp [hlive']⟩
  -- No other pool has the block: its segment names the pool for 64 bytes.
  have hreturned : ¬∃ id, smallBlock 0 ∈ st.live id := by
    rintro ⟨id, hb⟩
    have hinv := reachable_concHeapInv ⟨_, _, smallHeapStart_init, hok⟩
    have hb₁ : smallBlock 1 ∈ st.live ⟨.tiny 7, false, 0⟩ := by simp [hlive]
    obtain rfl := (hinv.live_segment hb).2.symm.trans (hinv.live_segment hb₁).2
    rw [hlive] at hb
    exact absurd (congrArg Block.ptr (List.mem_singleton.mp hb)) (by decide)
  exact ⟨st, b, es, hrun, hlive, hlive', ⟨s, hspec, (hs _).mpr hheld, (hs _).mpr hheld'⟩,
    (hcount _).1 hheld, (hcount _).2 hreturned⟩

end HwMalloc
