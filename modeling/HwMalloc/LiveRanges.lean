import HwMalloc.HeapRuns
import HwMalloc.Lib.Allocator

/-!
# HwMalloc.LiveRanges

The heap as an allocator: in every state that its calls can reach, the blocks
that clients hold are ranges of their size class, inside the memory of their own
segments and disjoint from each other, and their handles stand for exactly these
ranges.

* **The environment.** Two assumptions about it carry this (`Honest`): the memory that
  the operating system returns does not overlap any that is outstanding, and the
  handles of a region stand for the ranges they were asked for. What a handle is
  remains open; `HandleRanges` reads the range off it.
* **The segments.** On the side of the code it rests on `MemoryInv`: the memory of
  every segment of every pool is outstanding, so a new segment is disjoint from all of
  them. A segment may go away, and its memory come back under another one.
* **The blocks.** Two blocks of one segment are different cells of it, and two blocks
  of different segments are in disjoint memory (`RangesInv.owned`).

`heap_correct` puts this together: the state is correct, every call that returns is,
and every block that a client holds can be returned.
-/

namespace HwMalloc

variable {C : Context}

/-! ### The environment

The assumptions are about the memory that one call obtains, given what is outstanding
when it does; nothing is assumed about memory that was given back. -/

/-- What the handles of a context stand for: an address and a length. -/
structure HandleRanges (C : Context) where
  host : C.Handle → Nat × Nat
  device : C.DeviceHandle → Nat × Nat

/-- The addresses of an allocation. -/
def Allocation.addrs (a : Allocation) : Set Nat := Lib.addrs a.ptr a.size

/-- The memory that `add_segment` gets from these answers. -/
def GrowEnv.memory (sys : System) (env : GrowEnv C) (params : PoolParams) (w : World C) :
    Allocation :=
  (numaAllocate sys env.numa (numPages sys params.segmentSize) params.numaNode w).1

/-- The operating system returns memory that does not overlap any outstanding
one, and the regions of a segment hand out handles for ranges inside it. -/
structure GrowEnv.Honest (M : HandleRanges C) (sys : System) (params : PoolParams) (w : World C)
    (env : GrowEnv C) : Prop where
  fresh : ∀ a : Allocation, a.resource ∈ w.outstanding →
    Disjoint (env.memory sys params w).addrs a.addrs
  handle : ∀ r, env.registerMemory = some r → ∀ o s, o + s ≤ (env.memory sys params w).size →
    M.host (r.getHandle o s) = ((env.memory sys params w).ptr + o, s)
  deviceHandle : ∀ r ptr, env.registerDeviceMemory = some r → env.deviceMalloc = some ptr →
    ∀ o s, o + s ≤ (env.memory sys params w).size →
      M.device (r.getHandle o s) = (ptr + o, s)

/-- A request for an existing entry of the two tables, on an honest machine. -/
def Proper (M : HandleRanges C) (sys : System) (c : HeapConfig) (st : HeapState C) :
    HeapOp C → Prop
  | .allocate q env _ =>
    1 ≤ q.size ∧ q.size ≤ maxSize c ∧
      ∀ h id params, st.heap.route q = some (h, id, params) →
        ∀ k, (env.grow k).Honest M sys params st.world
  | .free _ => True

/-! ### What the calls do to the memory

A call of `allocate` obtains the memory of at most one segment and gives nothing back;
a call of `free` gives back the memory of at most one, with all that belongs to it. -/

theorem Allocation.resource_inj {a a' : Allocation} (h : a.resource = a'.resource) : a = a' := by
  unfold Allocation.resource at h
  split at h <;> split at h <;> cases h <;> rfl

/-- The only memory among the resources of a segment is its own. -/
theorem Segment.allocation_eq_of_mem {g : Segment C} {a : Allocation}
    (h : a.resource ∈ g.resources) : a = g.allocation := by
  have hkind : a.resource = .numa a ∨ a.resource = .malloc a := by
    unfold Allocation.resource
    split
    · exact Or.inl rfl
    · exact Or.inr rfl
  unfold Segment.resources at h
  rw [List.mem_append, List.mem_append, List.mem_append] at h
  rcases h with ((h | h) | h) | h
  · split at h
    · rcases hkind with hk | hk <;> simp [hk] at h
    · cases h
  · split at h
    · cases h
    · rcases hkind with hk | hk <;> simp [hk] at h
  · rcases hkind with hk | hk <;> simp [hk] at h
  · split at h
    · cases h
    · exact Allocation.resource_inj (List.mem_singleton.mp h)

/-- The effect of a call of `allocate` on the memory: none, or one new segment
with at least one block. -/
theorem allocate_memory {sys : System} {env : AllocEnv C} {fuel : Nat} {w w' : World C}
    {p p' : Pool C} {b : Block C} (hnodup : env.order.Nodup)
    (halloc : p.allocate sys env fuel w = some (.ok b, w', p')) :
    (p'.segments = p.segments ∧ w'.outstanding = w.outstanding) ∨
      ∃ g, NewSegment sys (env.grow 0) p.self p.toPoolParams g ∧
        w'.segmentAt w.nextSegment = g ∧ w'.outstanding.Perm (g.resources ++ w.outstanding) ∧
        p'.segments = w.nextSegment :: p.segments ∧ 1 ≤ g.numBlocks := by
  rcases allocate_ok hnodup halloc with
    ⟨rfl, hpop⟩ | ⟨-, w₁, p₁, hcol, ⟨rfl, hpop⟩ | ⟨hempty, g, p₂, hnew, hgrown, hpop⟩⟩
  · exact Or.inl ⟨by rw [hpop.pool], rfl⟩
  · exact Or.inl ⟨by rw [hpop.pool, hcol.pool], by rw [hcol.world]⟩
  · have hnext : w₁.nextSegment = w.nextSegment := by rw [hcol.world]
    have hout : w₁.outstanding = w.outstanding := by rw [hcol.world]
    refine Or.inr ⟨g, hnew, ?_, ?_, ?_, ?_⟩
    · rw [← hnext]
      exact hgrown.segmentAt_new
    · rw [← hout]
      exact hgrown.outstanding
    · rw [hpop.pool, hgrown.pool, hcol.pool, hnext]
    · -- The block that was popped is one of the new segment.
      have hlen := congrArg List.length hpop.freeStack
      rw [hgrown.pool, List.length_cons] at hlen
      simp only [List.length_append, Segment.blocks_length, hempty, List.length_nil] at hlen
      omega

/-- The effect of a call of `free`: none, or the resources of one segment are
given back. -/
theorem free_memory {w : World C} {p : Pool C} {b : Block C} (hb : b.segment ∈ p.segments) :
    ((p.free b w).2.segments = p.segments ∧ (p.free b w).1.outstanding = w.outstanding) ∨
      ((p.free b w).2.segments = p.segments.erase b.segment ∧
        ∀ r ∈ w.outstanding, r ∉ (w.segmentAt b.segment).resources →
          r ∈ (p.free b w).1.outstanding) := by
  rcases free_cases b w p with ⟨heq, -⟩ | ⟨heq, -⟩
  · rw [heq]
    exact Or.inl ⟨rfl, rfl⟩
  · have herased := eraseSegment_erased (w := segmentFree b w) hb
    rw [heq]
    refine Or.inr ⟨by rw [herased.pool], fun r hr hnot => herased.kept r hr ?_⟩
    rw [segmentFree_segmentAt_self]
    exact hnot

/-! ### The memory of the segments

The invariant over all pools at once. Both calls are instances of `MemoryInv.next`: the
segments that stay keep their memory outstanding, and at most one is new. -/

/-- The memory of a segment is outstanding and not empty, and its regions hand out
handles for ranges inside it. -/
structure SegmentMemory (M : HandleRanges C) (out : List Resource) (g : Segment C) : Prop where
  outstanding : g.allocation.resource ∈ out
  size_pos : 1 ≤ g.allocation.size
  handle : ∀ o s, o + s ≤ g.allocation.size →
    M.host (g.region.getHandle o s) = (g.allocation.ptr + o, s)
  deviceHandle : ∀ r, g.deviceRegion = some r → ∀ o s, o + s ≤ g.allocation.size →
    M.device (r.getHandle o s) = (g.devicePtr + o, s)

/-- Only what is fixed in a segment matters. -/
theorem SegmentMemory.congr {M : HandleRanges C} {out out' : List Resource} {g g' : Segment C}
    (h : SegmentMemory M out g) (hfixed : g'.fixed = g.fixed)
    (hout : g.allocation.resource ∈ out') : SegmentMemory M out' g' := by
  have hmem : SegmentMemory M out' g.fixed := ⟨hout, h.size_pos, h.handle, h.deviceHandle⟩
  rw [← hfixed] at hmem
  exact ⟨hmem.outstanding, hmem.size_pos, hmem.handle, hmem.deviceHandle⟩

/-- `s` is a segment of some pool. -/
def HeapState.Registered (st : HeapState C) (s : Nat) : Prop := ∃ id, s ∈ (st.data id).segments

/-- The memory of the segments of all pools. -/
structure MemoryInv (M : HandleRanges C) (st : HeapState C) : Prop where
  segment : ∀ s, st.Registered s → SegmentMemory M st.world.outstanding (st.world.segmentAt s)
  disjoint : ∀ s s', st.Registered s → st.Registered s' → s ≠ s' →
    Disjoint (st.world.segmentAt s).allocation.addrs (st.world.segmentAt s').allocation.addrs

/-- A new segment of an honest machine, next to those there are. -/
theorem NewSegment.memory {M : HandleRanges C} {sys : System} {env : GrowEnv C} {owner : PoolId}
    {params : PoolParams} {g : Segment C} {w : World C} {out : List Resource}
    (h : NewSegment sys env owner params g) (hhonest : env.Honest M sys params w)
    (hblocks : 1 ≤ g.numBlocks) (hout : out.Perm (g.resources ++ w.outstanding)) :
    SegmentMemory M out g := by
  have hmem : env.memory sys params w = g.allocation := h.allocation w
  have hhandle := hhonest.handle
  have hdevice := hhonest.deviceHandle
  rw [hmem] at hhandle hdevice
  refine ⟨?_, ?_, hhandle g.region h.region, fun r hr => ?_⟩
  · refine hout.mem_iff.mpr (List.mem_append_left _ ?_)
    simp [Segment.resources, h.ptr_ne_zero]
  · -- A segment with a block is not empty.
    refine Nat.pos_of_ne_zero fun hzero => ?_
    rw [h.numBlocks, segmentBlocks, ← h.size, hzero, Nat.zero_div] at hblocks
    omega
  · have hdev : params.allocateOnDevice = true := by rw [← h.onDevice, hr]; rfl
    obtain ⟨hptr, hreg⟩ := h.device hdev
    exact hdevice r g.devicePtr (hreg.trans hr) hptr

theorem Segment.allocation_of_fixed {g g' : Segment C} (h : g.fixed = g'.fixed) :
    g.allocation = g'.allocation :=
  show g.fixed.allocation = g'.fixed.allocation by rw [h]

namespace MemoryInv

variable {M : HandleRanges C} {st st' : HeapState C}

/-- A step keeps the memory of the segments that stay, and brings at most one new
segment, whose memory is disjoint from theirs. -/
theorem next (h : MemoryInv M st) (new : Nat)
    (hkept : ∀ s, st'.Registered s → st.Registered s →
      (st'.world.segmentAt s).fixed = (st.world.segmentAt s).fixed ∧
        (st.world.segmentAt s).allocation.resource ∈ st'.world.outstanding)
    (hnew : ∀ s, st'.Registered s → ¬st.Registered s →
      s = new ∧ SegmentMemory M st'.world.outstanding (st'.world.segmentAt s) ∧
        ∀ s', st.Registered s' → Disjoint (st'.world.segmentAt s).allocation.addrs
          (st.world.segmentAt s').allocation.addrs) :
    MemoryInv M st' := by
  have halloc : ∀ s, st'.Registered s → st.Registered s →
      (st'.world.segmentAt s).allocation = (st.world.segmentAt s).allocation := fun s hs' hs =>
    Segment.allocation_of_fixed (hkept s hs' hs).1
  refine ⟨fun s hs' => ?_, fun s₁ s₂ h₁' h₂' hne => ?_⟩
  · by_cases hs : st.Registered s
    · obtain ⟨hfixed, hout⟩ := hkept s hs' hs
      exact (h.segment s hs).congr hfixed hout
    · exact (hnew s hs' hs).2.1
  · -- Both segments stay, or one of them is new; two cannot be.
    by_cases h₁ : st.Registered s₁ <;> by_cases h₂ : st.Registered s₂
    · rw [halloc s₁ h₁' h₁, halloc s₂ h₂' h₂]
      exact h.disjoint s₁ s₂ h₁ h₂ hne
    · rw [halloc s₁ h₁' h₁]
      exact ((hnew s₂ h₂' h₂).2.2 s₁ h₁).symm
    · rw [halloc s₂ h₂' h₂]
      exact (hnew s₁ h₁' h₁).2.2 s₂ h₂
    · exact absurd ((hnew s₁ h₁' h₁).1.trans (hnew s₂ h₂' h₂).1.symm) hne

/-- Two segments have different memory. -/
theorem allocation_ne (h : MemoryInv M st) {s s' : Nat} (hs : st.Registered s)
    (hs' : st.Registered s') (hne : s ≠ s') :
    (st.world.segmentAt s).allocation ≠ (st.world.segmentAt s').allocation := by
  intro heq
  have hdisj := h.disjoint s s' hs hs' hne
  rw [heq] at hdisj
  exact Lib.not_disjoint_self (h.segment s' hs').size_pos hdisj

end MemoryInv

/-- After a call on one pool, the segments are those of the other pools and its
own. -/
theorem registered_setPool {st : HeapState C} {id : PoolId} {w : World C} {p : Pool C} {s : Nat}
    (h : (st.setPool id w p).Registered s) :
    s ∈ p.segments ∨ ∃ id' ≠ id, s ∈ (st.data id').segments := by
  obtain ⟨id', hs⟩ := h
  change s ∈ (Function.update st.data id ⟨p.freeStack, p.segments⟩ id').segments at hs
  by_cases hid : id' = id
  · subst hid
    rw [Function.update_self] at hs
    exact Or.inl hs
  · rw [Function.update_of_ne hid] at hs
    exact Or.inr ⟨id', hid, hs⟩

/-- A segment that was not registered before the call is one of this pool. -/
theorem mem_of_registered_setPool {st : HeapState C} {id : PoolId} {w : World C} {p : Pool C}
    {s : Nat} (h : (st.setPool id w p).Registered s) (hs : ¬st.Registered s) :
    s ∈ p.segments := by
  rcases registered_setPool h with hmem | ⟨id', -, hmem⟩
  · exact hmem
  · exact absurd ⟨id', hmem⟩ hs

theorem MemoryInv.allocated {M : HandleRanges C} {sys : System} {c : HeapConfig} {st : HeapState C}
    {env : AllocEnv C} {fuel : Nat} {id : PoolId} {params : PoolParams} {b : Block C} {w : World C}
    {p : Pool C} (h : MemoryInv M st) (hinv : HeapInv sys c st)
    (hparams : st.heap.params? id = some params)
    (hhonest : (env.grow 0).Honest M sys params st.world)
    (horder : env.order.Perm (st.data id).segments)
    (halloc : (st.poolAt id params).allocate sys env fuel st.world = some (.ok b, w, p)) :
    MemoryInv M (st.setPool id w p) := by
  have hpool := hinv.pool id params hparams
  have hfixed := (allocate_untouched hpool.segments_nodup horder halloc).1.fixed
  have hlt : ∀ s, st.Registered s → s < st.world.nextSegment := fun s ⟨id', hs⟩ =>
    (hinv.segment_pool hs).1
  rcases allocate_memory (horder.nodup_iff.mpr hpool.segments_nodup) halloc with
    ⟨hsegs, hout⟩ | ⟨g, hnew, hg, hout, hsegs, hblocks⟩
  · refine h.next 0 (fun s _ hs => ⟨hfixed s (hlt s hs), ?_⟩) fun s hs' hs => ?_
    · change _ ∈ w.outstanding
      rw [hout]
      exact (h.segment s hs).outstanding
    · have hmem := mem_of_registered_setPool hs' hs
      rw [hsegs] at hmem
      exact absurd ⟨id, hmem⟩ hs
  · refine h.next st.world.nextSegment (fun s _ hs => ⟨hfixed s (hlt s hs), ?_⟩) fun s hs' hs => ?_
    · exact hout.mem_iff.mpr (List.mem_append_right _ (h.segment s hs).outstanding)
    · have heq : s = st.world.nextSegment := by
        have hmem := mem_of_registered_setPool hs' hs
        rw [hsegs] at hmem
        exact (List.mem_cons.mp hmem).resolve_right fun hold => hs ⟨id, hold⟩
      subst heq
      change _ = _ ∧ SegmentMemory M w.outstanding (w.segmentAt _) ∧ ∀ s',
        st.Registered s' → Disjoint (w.segmentAt _).allocation.addrs _
      rw [hg]
      refine ⟨rfl, hnew.memory hhonest hblocks hout, fun s' hs' => ?_⟩
      -- The memory of the other segments was outstanding.
      have hmem : (env.grow 0).memory sys params st.world = g.allocation :=
        hnew.allocation st.world
      rw [← hmem]
      exact hhonest.fresh _ (h.segment s' hs').outstanding

theorem MemoryInv.freed {M : HandleRanges C} {sys : System} {c : HeapConfig} {st : HeapState C}
    {id : PoolId} {params : PoolParams} {b : Block C} (h : MemoryInv M st)
    (hinv : HeapInv sys c st) (hparams : st.heap.params? id = some params)
    (hb : b ∈ st.live id) :
    MemoryInv M (st.setPool id ((st.poolAt id params).free b st.world).1
      ((st.poolAt id params).free b st.world).2) := by
  have hmem := (hinv.live_segment hb).1
  have hpool := hinv.pool id params hparams
  have hfixed := (free_untouched (w := st.world) (p := st.poolAt id params) hmem).1.fixed
  have hlt : ∀ s, st.Registered s → s < st.world.nextSegment := fun s ⟨id', hs⟩ =>
    (hinv.segment_pool hs).1
  rcases free_memory (w := st.world) (p := st.poolAt id params) hmem with
    ⟨hsegs, hout⟩ | ⟨hsegs, hkept⟩
  · refine h.next 0 (fun s _ hs => ⟨hfixed s (hlt s hs), ?_⟩) fun s hs' hs => ?_
    · change _ ∈ ((st.poolAt id params).free b st.world).1.outstanding
      rw [hout]
      exact (h.segment s hs).outstanding
    · have hmem := mem_of_registered_setPool hs' hs
      rw [hsegs] at hmem
      exact absurd ⟨id, hmem⟩ hs
  · refine h.next 0 (fun s hs' hs => ⟨hfixed s (hlt s hs), ?_⟩) fun s hs' hs => ?_
    · refine hkept _ (h.segment s hs).outstanding fun hres => ?_
      -- The segment that goes away is not one that stays.
      have hne : s ≠ b.segment := by
        rintro rfl
        rcases registered_setPool hs' with hmem' | ⟨id', hid, hmem'⟩
        · rw [hsegs] at hmem'
          exact hpool.segments_nodup.not_mem_erase hmem'
        · exact hid ((hinv.segment_pool hmem').2.symm.trans (hinv.segment_pool hmem).2)
      exact h.allocation_ne hs ⟨id, hmem⟩ hne (Segment.allocation_eq_of_mem hres)
    · have hmem' := mem_of_registered_setPool hs' hs
      rw [hsegs] at hmem'
      exact absurd ⟨id, List.mem_of_mem_erase hmem'⟩ hs

/-! ### Runs -/

/-- Both invariants. -/
structure RangesInv (M : HandleRanges C) (sys : System) (c : HeapConfig) (st : HeapState C) :
    Prop extends HeapInv sys c st where
  memory : MemoryInv M st

theorem RangesInv.init {M : HandleRanges C} {sys : System} {c : HeapConfig} {st : HeapState C}
    (h : st.Init sys c) : RangesInv M sys c st := by
  have hnone : ∀ s, ¬st.Registered s := fun s ⟨id, hs⟩ => by
    rw [h.data] at hs
    cases hs
  exact ⟨.init h, fun s hs => absurd hs (hnone s), fun s _ hs => absurd hs (hnone s)⟩

theorem RangesInv.step {M : HandleRanges C} {sys : System} {c : HeapConfig} {st st' : HeapState C}
    {op : HeapOp C} (h : RangesInv M sys c st) (hproper : Proper M sys c st op)
    (hstep : HeapStep sys st op st') : RangesInv M sys c st' := by
  refine ⟨h.toHeapInv.step hstep, ?_⟩
  rcases heapStep_cases hstep with
    ⟨q, env, fuel, id, params, b, w, p, rfl, hroute, hparams, horder, halloc, rfl⟩ |
    ⟨b, id, st₁, -, -, hb, hrelease, rfl⟩
  · have hmemory : MemoryInv M { st with heap := (st.heap.select q.size).1 } :=
      ⟨h.memory.segment, h.memory.disjoint⟩
    have hnext := hmemory.allocated (h.toHeapInv.select q.size) hparams
      (hproper.2.2 _ _ _ hroute 0) horder halloc
    exact ⟨hnext.segment, hnext.disjoint⟩
  · obtain ⟨params, hparams, rfl⟩ := release_of_live h.toHeapInv hb hrelease
    have hnext := h.memory.freed h.toHeapInv hparams hb
    exact ⟨hnext.segment, hnext.disjoint⟩

/-! ### The heap as an allocator

What a client may rely on, without a word about pools or stacks: of one state, that the
blocks that are held own disjoint ranges, and of one call, that it grants or takes one
block and leaves the others where they are. -/

/-- The addresses of a block. -/
def HeapState.addrs (st : HeapState C) (b : Block C) : Set Nat :=
  Lib.addrs b.ptr (st.world.segmentAt b.segment).blockSize

/-- A block that is held under `id` is a range of its size class: it lies in the
memory of its own segment, a segment of this pool, and its handles stand for it. -/
structure OwnsRange (M : HandleRanges C) (st : HeapState C) (id : PoolId) (b : Block C) :
    Prop where
  segment : b.segment ∈ (st.data id).segments
  blockSize : ∃ f, st.heap.find? id.heap = some f ∧
    (st.world.segmentAt b.segment).blockSize = f.blockSize
  inside : st.addrs b ⊆ (st.world.segmentAt b.segment).allocation.addrs
  handle : M.host b.handle = (b.ptr, (st.world.segmentAt b.segment).blockSize)
  /-- On a device the block lies at the same offset. -/
  device : id.device = true →
    ∃ o, b.ptr = (st.world.segmentAt b.segment).allocation.ptr + o ∧
      b.devicePtr = (st.world.segmentAt b.segment).devicePtr + o ∧
      M.device b.deviceHandle = (b.devicePtr, (st.world.segmentAt b.segment).blockSize)

/-- The blocks that clients hold are disjoint ranges. -/
structure CorrectState (M : HandleRanges C) (st : HeapState C) : Prop where
  owned : ∀ id, ∀ b ∈ st.live id, OwnsRange M st id b
  nodup : ∀ id, (st.live id).Nodup
  disjoint : ∀ id id' b b', b ∈ st.live id → b' ∈ st.live id' → (id, b) ≠ (id', b') →
    Disjoint (st.addrs b) (st.addrs b')

/-- `allocate` hands out a block of the selected heap, which is large enough;
`free` hands the block back to the freed stack of its own segment, in the pool it
came from, unless all blocks of the segment are back and the segment is
released. -/
def CorrectStep (st : HeapState C) (op : HeapOp C) (st' : HeapState C) : Prop :=
  match op with
  | .allocate q _ _ => ∃ id b f, id.heap = (st.heap.select q.size).2 ∧
      st'.heap.find? id.heap = some f ∧ q.size ≤ f.blockSize ∧
      st'.live = Function.update st.live id (b :: st.live id)
  | .free b => ∃ id params, b ∈ st.live id ∧ st.heap.params? id = some params ∧
      st'.live = Function.update st.live id ((st.live id).erase b) ∧
      ((b.segment ∈ (st'.data id).segments ∧
          (st'.world.segmentAt b.segment).freedStack =
            b :: (st.world.segmentAt b.segment).freedStack) ∨
        (b.segment ∉ (st'.data id).segments ∧
          (b :: (st.world.segmentAt b.segment).freedStack).Perm
            ((st.world.segmentAt b.segment).blocks b.segment params.deviceId)))

/-- The blocks of a segment fit in its memory. -/
theorem Segment.MadeBy.blocks_fit {sys : System} {owner : PoolId} {params : PoolParams}
    {g : Segment C} (h : g.MadeBy sys owner params) :
    g.numBlocks * g.blockSize ≤ g.allocation.size := by
  rw [h.numBlocks, h.blockSize, h.size]
  exact Nat.div_mul_le_self _ _

/-- A block that is held lies in the memory of its segment. -/
theorem HeapInv.addrs_subset {sys : System} {c : HeapConfig} {st : HeapState C}
    (h : HeapInv sys c st) {id : PoolId} {b : Block C} (hb : b ∈ st.live id) :
    st.addrs b ⊆ (st.world.segmentAt b.segment).allocation.addrs := by
  obtain ⟨params, i, -, hi, hblock, hmade⟩ := h.live_cell hb
  have hptr : b.ptr = (st.world.segmentAt b.segment).allocation.ptr +
      i * (st.world.segmentAt b.segment).blockSize := by
    rw [← Segment.blockAt_ptr b.segment (st.world.segmentAt b.segment) params.deviceId, hblock]
  rw [HeapState.addrs, hptr]
  exact Lib.cell_subset hi hmade.blocks_fit

namespace RangesInv

variable {M : HandleRanges C} {sys : System} {c : HeapConfig} {st : HeapState C}

theorem owned (h : RangesInv M sys c st) {id : PoolId} {b : Block C} (hb : b ∈ st.live id) :
    OwnsRange M st id b := by
  obtain ⟨hs, -, -⟩ := h.live_segment hb
  obtain ⟨params, i, hparams, hi, hblock, hmade⟩ := h.live_cell hb
  obtain ⟨f, hf, hsize, hdev⟩ := Heap.params?_eq_some h.heap hparams
  have hmem := h.memory.segment _ ⟨id, hs⟩
  have hfit := hmade.blocks_fit
  -- The cell, and so its offset and its size, are inside the memory.
  have hcell : i * (st.world.segmentAt b.segment).blockSize +
      (st.world.segmentAt b.segment).blockSize ≤
        (st.world.segmentAt b.segment).allocation.size := by
    have hle := Nat.mul_le_mul_right (st.world.segmentAt b.segment).blockSize hi
    rw [Nat.succ_mul] at hle
    exact hle.trans hfit
  have hptr : b.ptr = (st.world.segmentAt b.segment).allocation.ptr +
      i * (st.world.segmentAt b.segment).blockSize := by
    rw [← Segment.blockAt_ptr b.segment (st.world.segmentAt b.segment) params.deviceId, hblock]
  refine ⟨hs, ⟨f, hf, hmade.blockSize.trans hsize⟩, h.addrs_subset hb, ?_, fun hdevice => ?_⟩
  · have hhandle := Segment.blockAt_handle b.segment (st.world.segmentAt b.segment)
      params.deviceId i
    rw [hblock] at hhandle
    rw [hhandle, hmem.handle _ _ hcell, hptr]
  · have hsome := hmade.onDevice
    rw [hdev, hdevice] at hsome
    obtain ⟨r, hr⟩ := Option.isSome_iff_exists.mp hsome
    have hb' : b.devicePtr = (st.world.segmentAt b.segment).devicePtr +
          i * (st.world.segmentAt b.segment).blockSize ∧
        b.deviceHandle = r.getHandle (i * (st.world.segmentAt b.segment).blockSize)
          (st.world.segmentAt b.segment).blockSize := by
      have hdevPtr := congrArg Block.devicePtr hblock
      have hdevHandle := congrArg Block.deviceHandle hblock
      unfold Segment.blockAt at hdevPtr hdevHandle
      rw [hr] at hdevPtr hdevHandle
      exact ⟨hdevPtr.symm, hdevHandle.symm⟩
    refine ⟨_, hptr, hb'.1, ?_⟩
    rw [hb'.2, hb'.1]
    exact hmem.deviceHandle r hr _ _ hcell

theorem correctState (h : RangesInv M sys c st) : CorrectState M st := by
  refine ⟨fun id b hb => h.owned hb, fun id => ?_, fun id id' b b' hb hb' hne => ?_⟩
  · cases hparams : st.heap.params? id with
    | none =>
      rw [(h.absent id hparams).2]
      exact List.nodup_nil
    | some params => exact (h.pool id params hparams).places_nodup.of_append_right
  · obtain ⟨hs, -, hid⟩ := h.live_segment hb
    obtain ⟨hs', -, hid'⟩ := h.live_segment hb'
    by_cases hseg : b.segment = b'.segment
    · -- Two cells of one segment.
      rw [← hseg, hid] at hid'
      subst hid'
      obtain ⟨params, i, hparams, -, hblock, -⟩ := h.live_cell hb
      obtain ⟨params', j, hparams', -, hblock', -⟩ := h.live_cell hb'
      obtain rfl := Option.some.inj (hparams.symm.trans hparams')
      rw [← hseg] at hblock'
      have hij : i ≠ j := by
        rintro rfl
        exact hne (by rw [← hblock, hblock'])
      rw [HeapState.addrs, HeapState.addrs, ← hseg, ← hblock, ← hblock', Segment.blockAt_ptr,
        Segment.blockAt_ptr, Segment.blockAt_segment]
      exact Lib.cells_disjoint hij
    · exact (h.memory.disjoint _ _ ⟨id, hs⟩ ⟨id', hs'⟩ hseg).mono (h.owned hb).inside
        (h.owned hb').inside

end RangesInv

/-- A call of `allocate` serves the request. -/
theorem correctStep_allocate {sys : System} {a : HeapConfigArgs} {c : HeapConfig}
    {st st' : HeapState C} {q : Request} {env : AllocEnv C} {fuel : Nat}
    (hc : heapConfig a = .ok c) (h : HeapInv sys c st) (h1 : 1 ≤ q.size) (h2 : q.size ≤ 2 ^ 31)
    (hstep : HeapStep sys st (.allocate q env fuel) st') :
    CorrectStep st (.allocate q env fuel) st' := by
  rcases heapStep_cases hstep with
    ⟨q', env', fuel', id, params, b, w, p, hop, hroute, hparams, -, -, rfl⟩ | ⟨b, id, st₁, hop, -⟩
  · cases hop
    obtain ⟨-, hid, -⟩ := Heap.route_eq_some hroute
    have hw := Heap.select_wellFormed h.heap q.size
    obtain ⟨f, hf, -, -⟩ := Heap.params?_eq_some hw hparams
    refine ⟨id, b, f, hid, hf, ?_, rfl⟩
    rw [hid] at hf
    exact le_blockSize_of_select hc h.heap h1 h2 hf
  · cases hop

/-- A call of `free` hands the block back. -/
theorem correctStep_free {sys : System} {c : HeapConfig} {st st' : HeapState C} {b : Block C}
    (h : HeapInv sys c st) (hstep : HeapStep sys st (.free b) st') :
    CorrectStep st (.free b) st' := by
  rcases heapStep_cases hstep with
    ⟨q, env, fuel, id, params, b', w, p, hop, -⟩ | ⟨b', id, st₁, hop, -, hb, hrelease, rfl⟩
  · cases hop
  · cases hop
    obtain ⟨params, hparams, rfl⟩ := release_of_live h hb hrelease
    have hpool := h.pool id params hparams
    have hs := (h.live_segment hb).1
    refine ⟨id, params, hb, hparams, rfl, ?_⟩
    have hdata : ((st.setPool id ((st.poolAt id params).free b st.world).1
        ((st.poolAt id params).free b st.world).2).takeBack id b).data id =
          ⟨((st.poolAt id params).free b st.world).2.freeStack,
            ((st.poolAt id params).free b st.world).2.segments⟩ :=
      Function.update_self ..
    rw [hdata]
    rcases free_cases b st.world (st.poolAt id params) with ⟨heq, -⟩ | ⟨heq, -, hempty, -⟩
    · left
      refine ⟨?_, ?_⟩
      · rw [heq]
        exact hs
      · change (((st.poolAt id params).free b st.world).1.segmentAt b.segment).freedStack = _
        rw [heq, segmentFree_segmentAt_self]
        rfl
    · right
      refine ⟨?_, ?_⟩
      · rw [heq, (eraseSegment_erased hs).pool]
        exact hpool.segments_nodup.not_mem_erase
      · have hperm := (hpool.returned hb).freed_perm_of_isEmpty hs hempty
        rw [segmentFree_segmentAt_self] at hperm
        exact hperm

/-- Over whole runs on an honest machine, from any accepted configuration, the heap
is a correct allocator: in every state the blocks that clients hold are disjoint
ranges of their own segments, each of them can be returned, and every call does what
it should. -/
theorem heap_correct {M : HandleRanges C} {sys : System} {a : HeapConfigArgs} {c : HeapConfig}
    {st : HeapState C} (hc : heapConfig a = .ok c)
    (hreach : Lib.Reachable (HeapState.Init sys c)
      (Lib.Guarded (Proper M sys c) (HeapStep sys)) st) :
    CorrectState M st ∧ (∀ id, ∀ b ∈ st.live id, ∃ st', HeapStep sys st (.free b) st') ∧
      ∀ op st', Proper M sys c st op → HeapStep sys st op st' → CorrectStep st op st' := by
  have hstep : ∀ (s : HeapState C) (op : HeapOp C) (s' : HeapState C), RangesInv M sys c s →
      Lib.Guarded (Proper M sys c) (HeapStep sys) s op s' → RangesInv M sys c s' :=
    fun _ _ _ h hguarded => h.step hguarded.1 hguarded.2
  have hinv : RangesInv M sys c st := hreach.invariant (fun _ => RangesInv.init) hstep
  refine ⟨hinv.correctState, fun id b hb => hinv.toHeapInv.exists_free hb,
    fun op st' hproper hop => ?_⟩
  cases op with
  | allocate q env fuel =>
    exact correctStep_allocate hc hinv.toHeapInv hproper.1
      (hproper.2.1.trans (maxSize_le hc)) hop
  | free b => exact correctStep_free hinv.toHeapInv hop

/-! ### A run -/

/-- The handles of `rangeContext` are the ranges themselves. -/
def rangeHandles : HandleRanges rangeContext := ⟨id, id⟩

/-- Pages of 64 bytes. -/
def smallPages : System where
  pageSize := 64
  topo := stubTopology

/-- Tiny segments of 128 bytes. -/
def smallSegmentArgs : HeapConfigArgs :=
  { defaultArgs with tinySegmentSize := 128 }

def smallSegmentConfig : HeapConfig :=
  { defaultConfig with tinySegmentSize := 128 }

theorem heapConfig_smallSegment : heapConfig smallSegmentArgs = .ok smallSegmentConfig := by
  refine heapConfig_ok_iff.mpr ⟨?_, by decide, by decide⟩
  simp only [HeapConfig.init, roundToPowOf2, log2C_eq]
  decide

/-- The heap before the first request. -/
def smallSegmentHeap : HeapState rangeContext := freshHeap smallPages smallSegmentConfig

/-- Whether the memory of the resource ends at `p` or before. -/
def Resource.below (p : Nat) : Resource → Bool
  | .numa a | .malloc a => a.ptr + a.size ≤ p
  | _ => true

/-- Memory from `p` on overlaps nothing that ends at `p`. -/
theorem disjoint_of_below {a a' : Allocation} (h : a'.resource.below a.ptr = true) :
    Disjoint a.addrs a'.addrs := by
  have hle : a'.ptr + a'.size ≤ a.ptr := by
    unfold Allocation.resource at h
    split at h <;> exact of_decide_eq_true h
  exact Set.disjoint_left.mpr fun x hx hx' => absurd (hx'.2.trans_le hle) (not_lt.mpr hx.1)

/-- The memory from `p` on, if it is granted and nothing outstanding is above. -/
theorem honest_grantAt {params : PoolParams} {w : World rangeContext} {p : Nat}
    (hptr : ((grantAt p).memory smallPages params w).ptr = p)
    (hbelow : ∀ r ∈ w.outstanding, r.below p = true) :
    (grantAt p).Honest rangeHandles smallPages params w where
  fresh := fun a ha => disjoint_of_below (hptr.symm ▸ hbelow _ ha)
  handle := fun r hr o s _ => by
    cases hr
    rw [hptr]
    rfl
  deviceHandle := fun r ptr hr hdev o s _ => by
    cases hr
    cases hdev
    rfl

/-- A request that finds the memory at `p`, should it need a segment. -/
def requestAt (q : Request) (order : List Nat) (p : Nat) : HeapOp rangeContext :=
  .allocate q { order := order, grow := fun _ => grantAt p } 2

/-- The memory at `p` would be granted to the pool that serves the request, and is
above all that is outstanding. -/
def FreeAt (q : Request) (p : Nat) (st : HeapState rangeContext) : Prop :=
  ∃ r, st.heap.route q = some r ∧ ((grantAt p).memory smallPages r.2.2 st.world).ptr = p ∧
    st.world.outstanding.all (Resource.below p) = true

/-- One more call on the honest machine. -/
theorem reachable_requestAt {c : HeapConfig} {st st' : HeapState rangeContext} {q : Request}
    {order : List Nat} {p : Nat} (h : Lib.Reachable (HeapState.Init smallPages c)
      (Lib.Guarded (Proper rangeHandles smallPages c) (HeapStep smallPages)) st)
    (h1 : 1 ≤ q.size) (h2 : q.size ≤ maxSize c) (hfree : FreeAt q p st)
    (hstep : HeapStep smallPages st (requestAt q order p) st') :
    Lib.Reachable (HeapState.Init smallPages c)
      (Lib.Guarded (Proper rangeHandles smallPages c) (HeapStep smallPages)) st' := by
  obtain ⟨r, hroute, hptr, hbelow⟩ := hfree
  have hproper : Proper rangeHandles smallPages c st (requestAt q order p) := by
    refine ⟨h1, h2, fun h id params hsome k => ?_⟩
    cases hroute.symm.trans hsome
    exact honest_grantAt hptr (List.all_eq_true.mp hbelow)
  exact h.tail ⟨hproper, hstep⟩

/-- Two blocks of 64 bytes fill the first segment; one of 24 bytes comes from another
pool. Then a block of the first segment comes back. -/
theorem heap_correct_twoClasses :
    ∃ (st st' : HeapState rangeContext) (b b' b'' : Block rangeContext),
      st.live ⟨.tiny 7, false, 0⟩ = [b', b] ∧ st.live ⟨.tiny 2, false, 0⟩ = [b''] ∧
      CorrectState rangeHandles st ∧
      Disjoint (st.addrs b) (st.addrs b') ∧ Disjoint (st.addrs b) (st.addrs b'') ∧
      HeapStep smallPages st (.free b) st' ∧ CorrectStep st (.free b) st' := by
  obtain ⟨st₁, st₂, st, b, b', b'', ⟨hfree₁, h₁⟩, ⟨hfree₂, h₂⟩, ⟨hfree₃, h₃⟩, hlive, hlive', hptr,
      hptr'⟩ : ∃ st₁ st₂ st b b' b'',
      (FreeAt ⟨64, 0, none, 0⟩ 4096 smallSegmentHeap ∧
        HeapStep smallPages smallSegmentHeap (requestAt ⟨64, 0, none, 0⟩ [] 4096) st₁) ∧
      (FreeAt ⟨64, 0, none, 0⟩ 8192 st₁ ∧
        HeapStep smallPages st₁ (requestAt ⟨64, 0, none, 0⟩ [1] 8192) st₂) ∧
      (FreeAt ⟨24, 0, none, 0⟩ 8192 st₂ ∧
        HeapStep smallPages st₂ (requestAt ⟨24, 0, none, 0⟩ [] 8192) st) ∧
      st.live ⟨.tiny 7, false, 0⟩ = [b', b] ∧ st.live ⟨.tiny 2, false, 0⟩ = [b''] ∧
      b.ptr = 4096 ∧ b'.ptr = 4160 :=
    ⟨_, _, _, _, _, _, ⟨⟨_, rfl, rfl, rfl⟩, rfl⟩, ⟨⟨_, rfl, rfl, rfl⟩, rfl⟩,
      ⟨⟨_, rfl, rfl, rfl⟩, rfl⟩, rfl, rfl, rfl, rfl⟩
  have hmax : 64 ≤ maxSize smallSegmentConfig := le_trans (by decide) (le_max_right _ _)
  have hreach₁ := reachable_requestAt (.of_init (freshHeap_init _ _)) (by decide) hmax hfree₁ h₁
  have hreach₂ := reachable_requestAt hreach₁ (by decide) hmax hfree₂ h₂
  have hreach := reachable_requestAt hreach₂ (by decide) (le_trans (by decide) hmax) hfree₃ h₃
  obtain ⟨hcorrect, hreturn, hcalls⟩ := heap_correct heapConfig_smallSegment hreach
  have hb : b ∈ st.live ⟨.tiny 7, false, 0⟩ := by simp [hlive]
  have hb' : b' ∈ st.live ⟨.tiny 7, false, 0⟩ := by simp [hlive]
  have hb'' : b'' ∈ st.live ⟨.tiny 2, false, 0⟩ := by simp [hlive']
  obtain ⟨st', hst'⟩ := hreturn _ b hb
  refine ⟨st, st', b, b', b'', hlive, hlive', hcorrect, ?_, ?_, hst', hcalls _ _ trivial hst'⟩
  · refine hcorrect.disjoint _ _ b b' hb hb' fun heq => ?_
    rw [← (Prod.mk.inj heq).2, hptr] at hptr'
    cases hptr'
  · exact hcorrect.disjoint _ _ b b'' hb hb'' (by simp)

end HwMalloc
