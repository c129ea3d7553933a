import HwMalloc.ConcurrentHeapInvariant

/-!
# HwMalloc.HeapLifetime

The resources of the heap, from its construction to its destruction: the memory that
was mapped, its registrations, the memory on the device and the registrations of that.

* **During the life.** What is outstanding is at any moment what the segments of all
  pools own, and what was outstanding before (`Accounted`). This is carried by one
  lemma about the steps: a step registers one new segment, which owns what the step
  obtained, or destroys one, or changes no segment and no resource
  (`heapStep_segments`).
* **At the end.** The destructor of the heap destroys the members in reverse order,
  and each pool its `m_segments`. It meets every pool once, since the tables have
  different keys, and every segment once, since a segment has one pool. So it gives
  back everything, once each (`heap_gives_back`), in whatever order the sets of
  segments are walked through.

The accounts are permutations of lists and not sets, so that what is given back twice
would be missed.
-/

namespace HwMalloc

variable {C : Context} {Tid : Type}

/-! ### What a step does to the segments

The three cases of `SegmentsStep` are all that the rest of this module, and the
modules that follow the memory of the segments, need to know of the steps. -/

/-- The change of the segments and of the resources by one step. -/
inductive SegmentsStep (sys : System) (st st' : HeapState C) : Prop
  | kept
      (registered : ∀ s, st'.Registered s ↔ st.Registered s)
      (outstanding : st'.world.outstanding = st.world.outstanding)
      (misreleases : st'.world.misreleases = st.world.misreleases)
      (deviceId : st'.world.deviceId = st.world.deviceId)
  | grown (env : GrowEnv C) (owner : PoolId) (params : PoolParams) (g : Segment C)
      (new : NewSegment sys env owner params g)
      (registered : ∀ s, st'.Registered s ↔ s = st.world.nextSegment ∨ st.Registered s)
      (segmentAt : st'.world.segmentAt st.world.nextSegment = g)
      (outstanding : st'.world.outstanding.Perm (g.resources ++ st.world.outstanding))
      (misreleases : st'.world.misreleases = st.world.misreleases)
      (deviceId : st'.world.deviceId = st.world.deviceId)
  | erased (k : Nat) (old : st.Registered k)
      (registered : ∀ s, st'.Registered s ↔ s ≠ k ∧ st.Registered s)
      (released : ∀ out, st.world.outstanding.Perm ((st.world.segmentAt k).resources ++ out) →
        st'.world.outstanding.Perm out ∧ st'.world.misreleases = st.world.misreleases)
      (deviceId : st'.world.deviceId = st.world.deviceId)

section

variable [DecidableEq Tid] {sys : System}

/-- What a step in one pool does to its segments. -/
theorem concStep_segments {st st' : ConcState C Tid} {l : Label Tid}
    (h : ConcStepOk sys st l st') :
    (st'.pool.segments = st.pool.segments ∧ st'.world.outstanding = st.world.outstanding ∧
        st'.world.misreleases = st.world.misreleases ∧
        st'.world.deviceId = st.world.deviceId) ∨
      (∃ env g, NewSegment sys env st.pool.self st.pool.toPoolParams g ∧
        Grown st.world st.pool g st'.world st'.pool) ∨
      ∃ s ∈ st.pool.segments, Erased s st.world st.pool st'.world st'.pool := by
  obtain ⟨⟨t, rfl⟩, h⟩ := h
  cases h with
  | pop _ hpop =>
    -- A pop changes the pool, but not its segments.
    left
    rw [ConcState.setPc_pool, (popFree_eq_some hpop).pool]
    exact ⟨rfl, rfl, rfl, rfl⟩
  | grow _ hadd =>
    obtain ⟨g, hnew, hgrown⟩ := addSegment_ok hadd
    exact Or.inr (Or.inl ⟨_, g, hnew, hgrown⟩)
  | @freeErase _ b _ =>
    by_cases hs : b.segment ∈ st.pool.segments
    · exact Or.inr (Or.inr ⟨_, hs, eraseSegment_erased hs⟩)
    · left
      rw [eraseSegment_of_not_mem hs]
      exact ⟨rfl, rfl, rfl, rfl⟩
  | _ => exact Or.inl ⟨rfl, rfl, rfl, rfl⟩

end

/-- The segments are those of one pool, and those of the others. -/
theorem HeapState.registered_split (st : HeapState C) (id : PoolId) {s : Nat} :
    st.Registered s ↔
      s ∈ (st.data id).segments ∨ ∃ id' ≠ id, s ∈ (st.data id').segments := by
  constructor
  · rintro ⟨id', hs⟩
    by_cases hid : id' = id
    · exact Or.inl (hid ▸ hs)
    · exact Or.inr ⟨id', hid, hs⟩
  · rintro (hs | ⟨id', -, hs⟩)
    · exact ⟨id, hs⟩
    · exact ⟨id', hs⟩

namespace ConcHeap

variable {st : ConcHeap C Tid}

/-- The segments of the other pools, and those of the pool. -/
theorem registered_put [DecidableEq Tid] {id : PoolId} {t : Tid} {st₁ : ConcState C Tid} {s : Nat} :
    (st.put id t st₁).Registered s ↔
      s ∈ st₁.pool.segments ∨ ∃ id' ≠ id, s ∈ (st.data id').segments := by
  constructor
  · rintro ⟨id', hs⟩
    by_cases hid : id' = id
    · subst hid
      exact Or.inl (by simpa [put] using hs)
    · exact Or.inr ⟨id', hid, by simpa [put, hid] using hs⟩
  · rintro (hs | ⟨id', hid, hs⟩)
    · exact ⟨id, by simpa [put] using hs⟩
    · exact ⟨id', by simpa [put, hid] using hs⟩

end ConcHeap

/-- Each registered segment is registered once, with the pool that it knows. -/
structure HeapState.SegmentsOwned (st : HeapState C) : Prop where
  owner : ∀ id, ∀ s ∈ (st.data id).segments,
    s < st.world.nextSegment ∧ (st.world.segmentAt s).pool = id
  nodup : ∀ id, (st.data id).segments.Nodup
  pool : ∀ id, ∀ s ∈ (st.data id).segments, ∃ params, st.heap.params? id = some params

namespace HeapState.SegmentsOwned

/-- Registered are the segments that their own pools have. -/
theorem registered_iff {st : HeapState C} (h : st.SegmentsOwned) {s : Nat} :
    st.Registered s ↔
      s < st.world.nextSegment ∧ s ∈ (st.data (st.world.segmentAt s).pool).segments := by
  constructor
  · rintro ⟨id, hs⟩
    obtain ⟨hlt, hpool⟩ := h.owner id s hs
    rw [hpool]
    exact ⟨hlt, hs⟩
  · rintro ⟨-, hs⟩
    exact ⟨_, hs⟩

/-- The step of one pool, seen from the heap. -/
theorem put_segments [DecidableEq Tid] {sys : System} {st : ConcHeap C Tid}
    (h : st.SegmentsOwned) {t : Tid} {id : PoolId} {params : PoolParams} {st₁ : ConcState C Tid}
    (hstep : ConcStepOk sys (st.view id params) (.normal t) st₁) :
    SegmentsStep sys st.toHeapState (st.put id t st₁).toHeapState := by
  rcases concStep_segments hstep with
    ⟨hsegs, hout, hmis, hdev⟩ | ⟨env, g, hnew, hgrown⟩ | ⟨k, hk, herased⟩
  · refine .kept (fun s => ?_) hout hmis hdev
    rw [ConcHeap.registered_put, hsegs, HeapState.registered_split st.toHeapState id]
    exact Iff.rfl
  · -- The new segment has a number that none had before.
    refine .grown env _ _ g hnew (fun s => ?_) hgrown.segmentAt_new hgrown.outstanding
      hgrown.misreleases hgrown.deviceId
    rw [ConcHeap.registered_put, hgrown.mem_segments,
      HeapState.registered_split st.toHeapState id, or_assoc]
    exact Iff.rfl
  · -- The erased segment is in no other pool.
    refine .erased k ⟨id, hk⟩ (fun s => ?_) herased.released herased.deviceId
    have hmem : s ∈ st₁.pool.segments ↔ s ≠ k ∧ s ∈ (st.data id).segments := by
      rw [herased.pool]
      exact (h.nodup id).mem_erase_iff
    rw [ConcHeap.registered_put, hmem, HeapState.registered_split st.toHeapState id]
    constructor
    · rintro (⟨hne, hs⟩ | ⟨id', hid, hs⟩)
      · exact ⟨hne, Or.inl hs⟩
      · refine ⟨?_, Or.inr ⟨id', hid, hs⟩⟩
        rintro rfl
        exact hid ((h.owner id' s hs).2.symm.trans (h.owner id s hk).2)
    · rintro ⟨hne, hs | hs⟩
      · exact Or.inl ⟨hne, hs⟩
      · exact Or.inr hs

end HeapState.SegmentsOwned

namespace ConcHeapInv

variable [Fintype Tid] {sys : System} {c : HeapConfig} {st st' : ConcHeap C Tid}

theorem segmentsOwned (h : ConcHeapInv sys c st) : st.SegmentsOwned where
  owner := fun id s hs => h.segment_pool hs
  nodup := fun id => by
    cases hparams : st.heap.params? id with
    | some params => exact (h.pool id params hparams).segments_nodup
    | none =>
      rw [(h.absent id hparams).1]
      exact List.nodup_nil
  pool := fun id s hs => h.params?_of_segment hs

variable [DecidableEq Tid]

/-- What a step does to the segments and the resources; what is fixed in a
segment stays. -/
theorem heapStep_segments {l : Label Tid} (h : ConcHeapInv sys c st)
    (hstep : ConcHeapStepOk sys st l st') :
    SegmentsStep sys st.toHeapState st'.toHeapState ∧
      ∀ s, st.Registered s → (st'.world.segmentAt s).fixed = (st.world.segmentAt s).fixed := by
  obtain ⟨⟨t, rfl⟩, hstep⟩ := hstep
  cases hstep with
  | @inPool _ id x params st₁ hx hne hparams hstep =>
    refine ⟨h.segmentsOwned.put_segments ⟨⟨t, rfl⟩, hstep⟩, fun s hs => ?_⟩
    obtain ⟨huntouched, -⟩ := concStep_untouched (h.pool id params hparams) ⟨⟨t, rfl⟩, hstep⟩
    exact huntouched.fixed s (h.segmentsOwned.registered_iff.mp hs).1
  | _ => exact ⟨.kept (fun _ => Iff.rfl) rfl rfl rfl, fun _ _ => rfl⟩

end ConcHeapInv

/-! ### What is outstanding

The segments of all pools in one list, in the order of their construction: those below
the next number whose own pool has them. A segment keeps what it owns, so that only its
registration and its destruction change the account. -/

/-- The segments of all pools: a segment knows its pool. -/
def HeapState.segments (st : HeapState C) : List Nat :=
  (List.range st.world.nextSegment).filter fun s =>
    s ∈ (st.data (st.world.segmentAt s).pool).segments

/-- What the segments of all pools own. -/
def HeapState.resources (st : HeapState C) : List Resource :=
  st.segments.flatMap fun s => (st.world.segmentAt s).resources

theorem HeapState.segments_nodup (st : HeapState C) : st.segments.Nodup :=
  List.nodup_range.filter _

theorem HeapState.SegmentsOwned.mem_segments {st : HeapState C} (h : st.SegmentsOwned) {s : Nat} :
    s ∈ st.segments ↔ st.Registered s := by
  rw [h.registered_iff]
  simp [HeapState.segments]

/-- What is fixed in a segment decides what it owns. -/
theorem Segment.resources_of_fixed {g g' : Segment C} (h : g.fixed = g'.fixed) :
    g.resources = g'.resources :=
  show g.fixed.resources = g'.fixed.resources by rw [h]

/-- What is outstanding is what the segments own, and what was outstanding in the
world `w₀`; nothing was given back by mistake, and the current device is that of
`w₀`. -/
structure HeapState.Accounted (w₀ : World C) (st : HeapState C) : Prop where
  outstanding : st.world.outstanding.Perm (st.resources ++ w₀.outstanding)
  misreleases : st.world.misreleases = w₀.misreleases
  deviceId : st.world.deviceId = w₀.deviceId

/-- The resources of a list of segments that stay as they are. -/
theorem flatMap_resources_congr {w w' : World C} {segs segs' : List Nat} (hperm : segs'.Perm segs)
    (hfixed : ∀ s ∈ segs, (w'.segmentAt s).fixed = (w.segmentAt s).fixed) :
    (segs'.flatMap fun s => (w'.segmentAt s).resources).Perm
      (segs.flatMap fun s => (w.segmentAt s).resources) := by
  refine (hperm.flatMap_right _).trans (.of_eq (List.flatMap_congr fun s hs => ?_))
  exact Segment.resources_of_fixed (hfixed s hs)

/-- The same segments own the same. -/
theorem HeapState.resources_perm {st st' : HeapState C} (h : st.SegmentsOwned)
    (h' : st'.SegmentsOwned) (hreg : ∀ s, st'.Registered s ↔ st.Registered s)
    (hfixed : ∀ s ∈ st.segments, (st'.world.segmentAt s).fixed = (st.world.segmentAt s).fixed) :
    st'.resources.Perm st.resources := by
  refine flatMap_resources_congr ?_ hfixed
  refine (List.perm_ext_iff_of_nodup st'.segments_nodup st.segments_nodup).mpr fun s => ?_
  rw [h'.mem_segments, h.mem_segments, hreg]

/-- What is outstanding besides what the segments own stays the same. -/
theorem SegmentsStep.outstanding {sys : System} {st st' : HeapState C} {out : List Resource}
    (hstep : SegmentsStep sys st st') (h : st.SegmentsOwned) (h' : st'.SegmentsOwned)
    (hfixed : ∀ s, st.Registered s →
      (st'.world.segmentAt s).fixed = (st.world.segmentAt s).fixed)
    (hout : st.world.outstanding.Perm (st.resources ++ out)) :
    st'.world.outstanding.Perm (st'.resources ++ out) ∧
      st'.world.misreleases = st.world.misreleases := by
  have hfixed : ∀ s ∈ st.segments, (st'.world.segmentAt s).fixed = (st.world.segmentAt s).fixed :=
    fun s hs => hfixed s (h.mem_segments.mp hs)
  cases hstep with
  | kept hreg hsame hmis _ =>
    refine ⟨?_, hmis⟩
    rw [hsame]
    exact hout.trans ((HeapState.resources_perm h h' hreg hfixed).symm.append_right _)
  | grown env owner params g _ hreg hself hnew hmis _ =>
    -- One more segment, with what the step has obtained.
    refine ⟨?_, hmis⟩
    have hfresh : st.world.nextSegment ∉ st.segments := fun hs =>
      absurd (h.registered_iff.mp (h.mem_segments.mp hs)).1 (lt_irrefl _)
    have hperm : st'.segments.Perm (st.world.nextSegment :: st.segments) := by
      refine (List.perm_ext_iff_of_nodup st'.segments_nodup
        (List.nodup_cons.mpr ⟨hfresh, st.segments_nodup⟩)).mpr fun s => ?_
      rw [h'.mem_segments, hreg, List.mem_cons, h.mem_segments]
    have hres : st'.resources.Perm (g.resources ++ st.resources) := by
      refine (hperm.flatMap_right _).trans ?_
      rw [List.flatMap_cons, hself]
      exact (flatMap_resources_congr (.refl _) hfixed).append_left _
    refine (hnew.trans (hout.append_left _)).trans ?_
    rw [← List.append_assoc]
    exact hres.symm.append_right _
  | erased k hold hreg hrel _ =>
    -- One segment less, with what it has given back.
    have hperm : st.segments.Perm (k :: st'.segments) := by
      have hgone : k ∉ st'.segments := fun hk =>
        ((hreg k).mp (h'.mem_segments.mp hk)).1 rfl
      refine (List.perm_ext_iff_of_nodup st.segments_nodup
        (List.nodup_cons.mpr ⟨hgone, st'.segments_nodup⟩)).mpr fun s => ?_
      rw [List.mem_cons, h'.mem_segments, hreg, h.mem_segments]
      by_cases hs : s = k
      · simp [hs, hold]
      · simp [hs]
    have hres : st.resources.Perm ((st.world.segmentAt k).resources ++ st'.resources) := by
      refine (hperm.flatMap_right _).trans ?_
      rw [List.flatMap_cons]
      refine (flatMap_resources_congr (.refl _) fun s hs => ?_).symm.append_left _
      exact hfixed s (h.mem_segments.mpr ((hreg s).mp (h'.mem_segments.mp hs)).2)
    refine hrel _ ?_
    rw [← List.append_assoc]
    exact hout.trans (hres.append_right _)

theorem SegmentsStep.deviceId {sys : System} {st st' : HeapState C}
    (hstep : SegmentsStep sys st st') : st'.world.deviceId = st.world.deviceId := by
  cases hstep <;> assumption

namespace ConcHeapInv

variable [Fintype Tid] [DecidableEq Tid] {sys : System} {c : HeapConfig}
  {st st' : ConcHeap C Tid} {w₀ : World C}

/-- Every step keeps the account. -/
theorem accounted_step {l : Label Tid} (h : ConcHeapInv sys c st) (hacc : st.Accounted w₀)
    (hstep : ConcHeapStepOk sys st l st') : st'.Accounted w₀ := by
  obtain ⟨hsegs, hfixed⟩ := h.heapStep_segments hstep
  obtain ⟨hout, hmis⟩ := hsegs.outstanding h.segmentsOwned (h.step hstep).segmentsOwned hfixed
    hacc.outstanding
  exact ⟨hout, hmis.trans hacc.misreleases, hsegs.deviceId.trans hacc.deviceId⟩

omit [Fintype Tid] [DecidableEq Tid] in
theorem accounted_init (h : st.Init sys c) : st.Accounted st.world := by
  have hnone : st.segments = [] := by
    simp [HeapState.segments, h.data]
  exact ⟨by simp [HeapState.resources, hnone], rfl, rfl⟩

end ConcHeapInv

/-! ### The destructor

The members of `heap` are destroyed in reverse order of their declaration, and so are
those of `fixed_size_heap`. Both are lists of pools here, the null pointers among them,
which own nothing. -/

/-- The slots of `m_device_pools` and of `m_pools`, as they are destroyed. -/
def FixedSizeHeap.slots (f : FixedSizeHeap) : List (Bool × Nat) :=
  (List.range f.devicePools.length).map (Prod.mk true) ++
    (List.range f.pools.length).map (Prod.mk false)

/-- The members of `heap` that hold a `fixed_size_heap`, as they are destroyed. -/
def Heap.refs (h : Heap) : List HeapRef :=
  h.hugeHeaps.map (fun entry => .huge entry.1) ++
    (List.range h.heaps.length).map .sized ++ (List.range h.tinyHeaps.length).map .tiny

/-- All pools of a heap; a slot without a pool stands for a null pointer. -/
def Heap.poolIds (h : Heap) : List PoolId :=
  h.refs.flatMap fun ref =>
    match h.find? ref with
    | some f => f.slots.map fun slot => ⟨ref, slot.1, slot.2⟩
    | none => []

/-- The segments `segs` are destroyed one after the other. -/
def destroySegments (segs : List Nat) (w : World C) : World C :=
  segs.foldl (fun w s => destroySegment s w) w

/-- `heap::~heap`: each pool destroys `m_segments`, in the order that `order` gives
for it. -/
def HeapState.destroy (order : PoolId → List Nat) (st : HeapState C) : World C :=
  st.heap.poolIds.foldl (fun w id => destroySegments (order id) w) st.world

/-- `m_huge_heaps` is a map. -/
def Heap.KeysNodup (h : Heap) : Prop := (h.hugeHeaps.map Prod.fst).Nodup

namespace Heap

variable {h : Heap}

theorem hugeEntry_keysNodup (hkeys : h.KeysNodup) (key : Nat) : (h.hugeEntry key).KeysNodup := by
  unfold hugeEntry
  cases hkey : h.hugeHeaps.lookup key with
  | some f => exact hkeys
  | none =>
    refine List.nodup_cons.mpr ⟨fun hmem => ?_, hkeys⟩
    obtain ⟨entry, hentry, heq⟩ := List.mem_map.mp hmem
    rw [List.lookup_eq_none_iff] at hkey
    exact absurd (hkey entry hentry) (by simp [show entry.1 = key from heq])

theorem refs_nodup (hkeys : h.KeysNodup) : h.refs.Nodup := by
  refine List.Nodup.append (List.Nodup.append ?_ ?_ ?_) ?_ ?_
  · rw [show (fun entry : Nat × FixedSizeHeap => HeapRef.huge entry.1) =
      HeapRef.huge ∘ Prod.fst from rfl, ← List.map_map]
    exact hkeys.map fun _ _ heq => HeapRef.huge.inj heq
  · exact List.nodup_range.map fun _ _ heq => HeapRef.sized.inj heq
  · intro ref hhuge hsized
    obtain ⟨_, -, rfl⟩ := List.mem_map.mp hhuge
    simp at hsized
  · exact List.nodup_range.map fun _ _ heq => HeapRef.tiny.inj heq
  · intro ref hother htiny
    obtain ⟨_, -, rfl⟩ := List.mem_map.mp htiny
    simp at hother

theorem mem_refs {ref : HeapRef} {f : FixedSizeHeap} (hf : h.find? ref = some f) :
    ref ∈ h.refs := by
  cases ref with
  | tiny i =>
    obtain ⟨hi, -⟩ := List.getElem?_eq_some_iff.mp (Option.join_eq_some_iff.mp hf)
    simp [refs, hi]
  | sized i =>
    obtain ⟨hi, -⟩ := List.getElem?_eq_some_iff.mp (Option.join_eq_some_iff.mp hf)
    simp [refs, hi]
  | huge key =>
    have hmem : ∃ a ∈ h.hugeHeaps, (key == a.1) = true := by
      by_contra hnone
      have hnone : h.hugeHeaps.lookup key = none :=
        List.lookup_eq_none_iff.mpr fun p hp => by
          by_contra heq
          exact hnone ⟨p, hp, by simpa using heq⟩
      rw [find?, hnone] at hf
      cases hf
    obtain ⟨a, ha, heq⟩ := hmem
    simp only [refs, List.mem_append, List.mem_map]
    exact Or.inl (Or.inl ⟨a, ha, by rw [beq_iff_eq.mp heq]⟩)

theorem slots_nodup (f : FixedSizeHeap) : f.slots.Nodup := by
  refine List.Nodup.append ?_ ?_ ?_
  · exact List.nodup_range.map fun _ _ heq => (Prod.mk.inj heq).2
  · exact List.nodup_range.map fun _ _ heq => (Prod.mk.inj heq).2
  · intro slot hdevice hhost
    obtain ⟨_, -, rfl⟩ := List.mem_map.mp hdevice
    simp at hhost

/-- No pool is destroyed twice. -/
theorem poolIds_nodup (hkeys : h.KeysNodup) : h.poolIds.Nodup := by
  refine List.nodup_flatMap.mpr ⟨fun ref _ => ?_, ?_⟩
  · cases h.find? ref with
    | none => exact List.nodup_nil
    | some f =>
      exact (slots_nodup f).map fun _ _ heq =>
        Prod.ext (congrArg PoolId.device heq) (congrArg PoolId.slot heq)
  · refine (refs_nodup hkeys).imp fun {ref ref'} hne => ?_
    have hheap : ∀ {ref : HeapRef} {id : PoolId}, (id ∈ match h.find? ref with
        | some f => f.slots.map fun slot : Bool × Nat => (⟨ref, slot.1, slot.2⟩ : PoolId)
        | none => []) → id.heap = ref := by
      intro ref id hid
      cases hf : h.find? ref with
      | none => rw [hf] at hid; cases hid
      | some f =>
        rw [hf] at hid
        obtain ⟨slot, -, rfl⟩ := List.mem_map.mp hid
        rfl
    intro id hid hid'
    exact hne ((hheap hid).symm.trans (hheap hid'))

/-- Every pool that exists is destroyed. -/
theorem mem_poolIds {id : PoolId} {params : PoolParams} (hp : h.params? id = some params) :
    id ∈ h.poolIds := by
  obtain ⟨f, hf, hslot⟩ := Option.bind_eq_some_iff.mp hp
  refine List.mem_flatMap.mpr ⟨id.heap, mem_refs hf, ?_⟩
  rw [hf]
  refine List.mem_map.mpr ⟨(id.device, id.slot), ?_, rfl⟩
  obtain ⟨hi, -⟩ := List.getElem?_eq_some_iff.mp (Option.join_eq_some_iff.mp hslot)
  cases hd : id.device with
  | true => rw [hd] at hi; simp_all [FixedSizeHeap.slots]
  | false => rw [hd] at hi; simp_all [FixedSizeHeap.slots]

end Heap

/-- The destruction of segments gives back what they own, and nothing else. -/
theorem destroySegments_perm (segs : List Nat) :
    ∀ {w : World C} {out : List Resource},
      w.outstanding.Perm ((segs.flatMap fun s => (w.segmentAt s).resources) ++ out) →
        (destroySegments segs w).outstanding.Perm out ∧
          (destroySegments segs w).misreleases = w.misreleases ∧
          (destroySegments segs w).deviceId = w.deviceId := by
  induction segs with
  | nil =>
    intro w out h
    exact ⟨h, rfl, rfl⟩
  | cons s segs ih =>
    intro w out h
    rw [List.flatMap_cons, List.append_assoc] at h
    obtain ⟨hout, hmis⟩ := destroyMembers_perm (g := w.segmentAt s)
      (w := w.modifySegment s fun g => { g with freedStack := [] }) h
    have hsame : ∀ s' ∈ segs, ((destroySegment s w).segmentAt s').resources =
        (w.segmentAt s').resources := fun s' _ => by
      rw [destroySegment_segmentAt]
      split
      · next heq => rw [heq]; rfl
      · rfl
    rw [← List.flatMap_congr hsame] at hout
    obtain ⟨hout', hmis', hdev'⟩ := ih hout
    exact ⟨hout', hmis'.trans hmis, hdev'.trans (destroySegment_deviceId s w)⟩

theorem HeapState.destroy_eq (order : PoolId → List Nat) (st : HeapState C) :
    st.destroy order = destroySegments (st.heap.poolIds.flatMap order) st.world := by
  rw [destroy, destroySegments, List.foldl_flatMap]
  rfl

/-- The destructor meets every segment once. -/
theorem HeapState.SegmentsOwned.destroyed_perm {st : HeapState C} (h : st.SegmentsOwned)
    (hkeys : st.heap.KeysNodup) {order : PoolId → List Nat}
    (horder : ∀ id, (order id).Perm (st.data id).segments) :
    (st.heap.poolIds.flatMap order).Perm st.segments := by
  have hmem : ∀ {id s}, s ∈ order id → s ∈ (st.data id).segments := fun {id s} hs =>
    (horder id).mem_iff.mp hs
  have hnodup : (st.heap.poolIds.flatMap order).Nodup := by
    refine List.nodup_flatMap.mpr ⟨fun id _ => (horder id).nodup_iff.mpr (h.nodup id), ?_⟩
    refine (Heap.poolIds_nodup hkeys).imp fun {id id'} hne s hs hs' => hne ?_
    exact (h.owner id s (hmem hs)).2.symm.trans (h.owner id' s (hmem hs')).2
  refine (List.perm_ext_iff_of_nodup hnodup st.segments_nodup).mpr fun s => ?_
  rw [h.mem_segments, List.mem_flatMap]
  constructor
  · rintro ⟨id, -, hs⟩
    exact ⟨id, hmem hs⟩
  · rintro ⟨id, hs⟩
    obtain ⟨params, hparams⟩ := h.pool id s hs
    exact ⟨id, Heap.mem_poolIds hparams, (horder id).mem_iff.mpr hs⟩

/-- The destructor gives back what the segments own, and nothing else. -/
theorem HeapState.SegmentsOwned.destroy_spec {st : HeapState C} (h : st.SegmentsOwned)
    (hkeys : st.heap.KeysNodup) {out : List Resource}
    (hout : st.world.outstanding.Perm (st.resources ++ out)) {order : PoolId → List Nat}
    (horder : ∀ id, (order id).Perm (st.data id).segments) :
    (st.destroy order).outstanding.Perm out ∧
      (st.destroy order).misreleases = st.world.misreleases ∧
      (st.destroy order).deviceId = st.world.deviceId := by
  have hperm := (h.destroyed_perm hkeys horder).flatMap_right
    fun s => (st.world.segmentAt s).resources
  rw [HeapState.destroy_eq]
  exact destroySegments_perm _ (hout.trans (hperm.symm.append_right _))

section

variable [Fintype Tid] {sys : System} {c : HeapConfig} {st : ConcHeap C Tid}

theorem ConcHeapInv.destroy_spec (h : ConcHeapInv sys c st) (hkeys : st.heap.KeysNodup)
    {w₀ : World C} (hacc : st.Accounted w₀) {order : PoolId → List Nat}
    (horder : ∀ id, (order id).Perm (st.data id).segments) :
    (st.destroy order).outstanding.Perm w₀.outstanding ∧
      (st.destroy order).misreleases = w₀.misreleases ∧
      (st.destroy order).deviceId = w₀.deviceId := by
  obtain ⟨hout, hmis, hdev⟩ := h.segmentsOwned.destroy_spec hkeys hacc.outstanding horder
  exact ⟨hout, hmis.trans hacc.misreleases, hdev.trans hacc.deviceId⟩

variable [DecidableEq Tid]

omit [Fintype Tid] in
theorem keysNodup_step {st' : ConcHeap C Tid} {l : Label Tid} (hkeys : st.heap.KeysNodup)
    (hstep : ConcHeapStep sys st l st') : st'.heap.KeysNodup := by
  cases hstep with
  | hugeFind _ => exact Heap.hugeEntry_keysNodup hkeys _
  | _ => exact hkeys

/-- Whatever any number of threads have done without an exception, what is outstanding
is what the segments of all pools own and what was outstanding before the construction
of the heap; and its destructor gives back all of the former and none of the latter,
each with the deallocator it needs. -/
theorem heap_gives_back {st₀ : ConcHeap C Tid} {ls : List (Label Tid)} (hinit : st₀.Init sys c)
    (hrun : Lib.Run (ConcHeapStepOk sys) st₀ ls st) {order : PoolId → List Nat}
    (horder : ∀ id, (order id).Perm (st.data id).segments) :
    st.Accounted st₀.world ∧
      (st.destroy order).outstanding.Perm st₀.world.outstanding ∧
      (st.destroy order).misreleases = st₀.world.misreleases ∧
      (st.destroy order).deviceId = st₀.world.deviceId := by
  have hstep : ∀ (st : ConcHeap C Tid) l st',
      (ConcHeapInv sys c st ∧ st.Accounted st₀.world ∧ st.heap.KeysNodup) →
        ConcHeapStepOk sys st l st' →
          ConcHeapInv sys c st' ∧ st'.Accounted st₀.world ∧ st'.heap.KeysNodup := by
    rintro st l st' ⟨hinv, hacc, hkeys⟩ hstep
    exact ⟨hinv.step hstep, hinv.accounted_step hacc hstep, keysNodup_step hkeys hstep.2⟩
  have hempty : st₀.heap.KeysNodup := by
    rw [hinit.heap]
    exact List.nodup_nil
  obtain ⟨hinv, hacc, hkeys⟩ :=
    hrun.invariant hstep ⟨.init hinit, ConcHeapInv.accounted_init hinit, hempty⟩
  exact ⟨hacc, hinv.destroy_spec hkeys hacc horder⟩

end

theorem heap_gives_back_twoPools :
    ∃ st : ConcHeap rangeContext Bool, st.segments.length = 2 ∧
      (st.destroy fun id => (st.data id).segments).outstanding.Perm [] := by
  obtain ⟨st, hexec, hlen⟩ : ∃ st,
      Lib.exec (fun st e => ConcHeap.advance smallPages st e.1 e.2) twoPools smallHeapStart =
        some st ∧ st.segments.length = 2 := ⟨_, rfl, rfl⟩
  exact ⟨st, hlen, (heap_gives_back smallHeapStart_init (heapRun_of_schedule hexec)
    fun id => .refl _).2.1⟩

end HwMalloc
