import HwMalloc.ArrayRequests

/-!
# HwMalloc.Alignment

Natural alignment: a power of two that divides the size of a request divides the
block size of the class that serves it, so the blocks of a segment are aligned
whenever its memory is.

There are two reasons for it. The tiny classes step by 8, so for an alignment above 8
the class has exactly the size of the request; the other classes are powers of two that
are not smaller than the alignment. Neither class asks for an alignment of the memory
itself, which is whatever the operating system returns.

For an array the size is a multiple of the size of an element, and so respects its
alignment as well.
-/

namespace HwMalloc

variable {C : Context}

/-! ### Classes and blocks -/

/-- The classes respect every alignment that the size has. -/
theorem dvd_blockSize {topo : Topology} {a : HeapConfigArgs} {c : HeapConfig} {h : Heap}
    (hc : heapConfig a = .ok c) (hw : h.WellFormed topo c) {size k : Nat} (h1 : 1 ≤ size)
    (h2 : size ≤ maxSize c) (hk : 2 ^ k ∣ size) {f : FixedSizeHeap}
    (hf : (h.select size).1.find? (h.select size).2 = some f) : 2 ^ k ∣ f.blockSize := by
  rcases select_class hc hw h1 hf with ⟨-, hmul⟩ | ⟨-, -, hpow⟩ | ⟨hlarge, -⟩
  · rw [tinyIncrement_eq, show 8 = 2 ^ 3 from rfl] at hmul
    exact hmul.dvd hk
  · exact hpow.dvd h1 hk
  · exact absurd (h2.trans (maxSize_le hc)) (not_le.mpr hlarge)

/-- In a segment whose memory is aligned, blocks of an aligned size are aligned. -/
theorem HeapInv.dvd_ptr {sys : System} {c : HeapConfig} {st : HeapState C} (h : HeapInv sys c st)
    {id : PoolId} {b : Block C} (hb : b ∈ st.live id) {f : FixedSizeHeap}
    (hf : st.heap.find? id.heap = some f) {k : Nat} (hk : 2 ^ k ∣ f.blockSize)
    (hbase : 2 ^ k ∣ (st.world.segmentAt b.segment).allocation.ptr) : 2 ^ k ∣ b.ptr := by
  obtain ⟨params, i, hparams, -, hblock, hmade⟩ := h.live_cell hb
  obtain ⟨f', hf', hsize, -⟩ := Heap.params?_eq_some h.heap hparams
  obtain rfl := Option.some.inj (hf.symm.trans hf')
  rw [← hblock, Segment.blockAt_ptr, hmade.blockSize, hsize]
  exact Nat.dvd_add hbase (hk.mul_left i)

/-! ### Calls -/

/-- The call leads from `st` to `st'` and has handed out a block that is aligned
to `a` if the memory of its segment is. -/
def HandsOutAligned (st : HeapState C) (a : Nat) (st' : HeapState C) : Prop :=
  ∃ id b, st'.live = Function.update st.live id (b :: st.live id) ∧
    (a ∣ (st'.world.segmentAt b.segment).allocation.ptr → a ∣ b.ptr)

theorem handsOutAligned {sys : System} {a : HeapConfigArgs} {c : HeapConfig} {st st' : HeapState C}
    {q : Request} {env : AllocEnv C} {fuel k : Nat} (hc : heapConfig a = .ok c)
    (h : HeapInv sys c st) (h1 : 1 ≤ q.size) (h2 : q.size ≤ maxSize c) (hk : 2 ^ k ∣ q.size)
    (hstep : HeapStep sys st (.allocate q env fuel) st') : HandsOutAligned st (2 ^ k) st' := by
  have hinv' := h.step hstep
  rcases heapStep_cases hstep with
    ⟨q', env', fuel', id, params, b, w, p, hop, hroute, hparams, -, -, rfl⟩ | ⟨b, id, st₁, hop, -⟩
  · cases hop
    obtain ⟨-, hid, -⟩ := Heap.route_eq_some hroute
    obtain ⟨f, hf, -⟩ := Heap.params?_eq_some (Heap.select_wellFormed h.heap q.size) hparams
    have hclass := hf
    rw [hid] at hclass
    exact ⟨id, b, rfl, hinv'.dvd_ptr (HeapState.mem_handOut_live _ id b) hf
      (dvd_blockSize hc h.heap h1 h2 hk hclass)⟩
  · cases hop

/-- Every class, every request and every array allocation respects the
alignments of its size. -/
theorem natural_alignment {sys : System} {a : HeapConfigArgs} {c : HeapConfig} {st : HeapState C}
    (hc : heapConfig a = .ok c)
    (hreach : Lib.Reachable (HeapState.Init sys c) (HeapStep sys) st) (k : Nat) :
    (∀ size f, 1 ≤ size → size ≤ maxSize c → 2 ^ k ∣ size →
        (st.heap.select size).1.find? (st.heap.select size).2 = some f → 2 ^ k ∣ f.blockSize) ∧
      (∀ (q : Request) env fuel st', 1 ≤ q.size → q.size ≤ maxSize c → 2 ^ k ∣ q.size →
        HeapStep sys st (.allocate q env fuel) st' → HandsOutAligned st (2 ^ k) st') ∧
      ∀ n w numaNode localNode env fuel st', 1 ≤ n → 1 ≤ w → n * w ≤ maxSize c → 2 ^ k ∣ w →
        HeapStep sys st (.allocate (allocatorRequest n w numaNode localNode) env fuel) st' →
          HandsOutAligned st (2 ^ k) st' := by
  have hinv := reachable_heapInv hreach
  refine ⟨fun size f h1 h2 hk hf => dvd_blockSize hc hinv.heap h1 h2 hk hf,
    fun q env fuel st' h1 h2 hk hstep => handsOutAligned hc hinv h1 h2 hk hstep, ?_⟩
  intro n w numaNode localNode env fuel st' hn hw h2 hk hstep
  have hmax := maxSize_le hc
  have hsize : (allocatorRequest n w numaNode localNode).size = n * w :=
    mulSize_of_lt (lt_of_le_of_lt (h2.trans hmax) (by decide))
  refine handsOutAligned hc hinv ?_ ?_ ?_ hstep <;> rw [hsize]
  · exact Nat.mul_pos hn hw
  · exact h2
  · exact hk.mul_left n

/-- The only block that clients hold after a call is the one it has handed out. -/
theorem HandsOutAligned.dvd_ptr {st st' : HeapState C} {a : Nat} {id : PoolId} {b : Block C}
    (h : HandsOutAligned st a st') (hlive : st'.live = Function.update (fun _ => []) id [b])
    (hbase : a ∣ (st'.world.segmentAt b.segment).allocation.ptr) : a ∣ b.ptr := by
  obtain ⟨id', b', hlive', haligned⟩ := h
  have hmem : b' ∈ st'.live id' := by
    rw [hlive', Function.update_self]
    exact List.mem_cons_self
  rw [hlive] at hmem
  by_cases hid : id' = id
  · rw [hid, Function.update_self] at hmem
    obtain rfl := List.mem_singleton.mp hmem
    exact haligned hbase
  · rw [Function.update_of_ne hid] at hmem
    cases hmem

/-- An array of three elements of 32 bytes is served by the class of 96 bytes, which is no
power of two, and its block is aligned as the elements are; so is a block for one request
of that size. The class for 4096 bytes is a power of two. -/
theorem natural_alignment_threeElements :
    (∃ f, (smallSegmentHeap.heap.select 96).1.find? (smallSegmentHeap.heap.select 96).2 = some f ∧
        f.blockSize = 96 ∧ 2 ^ 5 ∣ f.blockSize) ∧
      (∃ f, (smallSegmentHeap.heap.select 4096).1.find? (smallSegmentHeap.heap.select 4096).2 =
        some f ∧ 2 ^ 5 ∣ f.blockSize) ∧
      ∀ q ∈ [⟨96, 0, none, 0⟩, allocatorRequest 3 32 0 0], ∃ st' b,
        HeapStep smallPages smallSegmentHeap (requestAt q [] 4096) st' ∧
          b ∈ st'.live ⟨.tiny 11, false, 0⟩ ∧ 2 ^ 5 ∣ b.ptr := by
  have hle : 4096 ≤ maxSize smallSegmentConfig := le_trans (by decide) (le_max_right _ _)
  have hle' : 96 ≤ maxSize smallSegmentConfig := le_trans (by decide) hle
  have hreach : Lib.Reachable (HeapState.Init smallPages smallSegmentConfig) (HeapStep smallPages)
      smallSegmentHeap := .of_init (freshHeap_init _ _)
  obtain ⟨hclass, hcall, harray⟩ := natural_alignment heapConfig_smallSegment hreach 5
  obtain ⟨f, hf, hsize⟩ : ∃ f, (smallSegmentHeap.heap.select 96).1.find?
      (smallSegmentHeap.heap.select 96).2 = some f ∧ f.blockSize = 96 := ⟨_, rfl, rfl⟩
  obtain ⟨f', hf'⟩ := exists_select heapConfig_smallSegment (by decide)
    (reachable_heapInv hreach).heap (show 1 ≤ 4096 by decide)
  refine ⟨⟨f, hf, hsize, hclass 96 f (by decide) hle' (by decide) hf⟩,
    ⟨f', hf', hclass 4096 f' (by decide) hle (by decide) hf'⟩, ?_⟩
  have hserved : ∀ {st' : HeapState rangeContext} {b : Block rangeContext},
      HandsOutAligned smallSegmentHeap (2 ^ 5) st' →
      st'.live = Function.update (fun _ => []) ⟨.tiny 11, false, 0⟩ [b] →
      (st'.world.segmentAt b.segment).allocation.ptr = 4096 →
      b ∈ st'.live ⟨.tiny 11, false, 0⟩ ∧ 2 ^ 5 ∣ b.ptr := by
    intro st' b haligned hlive hbase
    refine ⟨?_, haligned.dvd_ptr hlive (by rw [hbase]; decide)⟩
    rw [hlive, Function.update_self]
    exact List.mem_singleton.mpr rfl
  intro q hq
  rcases List.mem_pair.mp hq with rfl | rfl
  · obtain ⟨st', b, hstep, hlive, hbase⟩ : ∃ st' b,
        HeapStep smallPages smallSegmentHeap (requestAt ⟨96, 0, none, 0⟩ [] 4096) st' ∧
        st'.live = Function.update (fun _ => []) ⟨.tiny 11, false, 0⟩ [b] ∧
        (st'.world.segmentAt b.segment).allocation.ptr = 4096 := ⟨_, _, rfl, rfl, rfl⟩
    exact ⟨st', b, hstep, hserved (hcall _ _ _ _ (by decide) hle' (by decide) hstep) hlive hbase⟩
  · obtain ⟨st', b, hstep, hlive, hbase⟩ : ∃ st' b,
        HeapStep smallPages smallSegmentHeap (requestAt (allocatorRequest 3 32 0 0) [] 4096) st' ∧
        st'.live = Function.update (fun _ => []) ⟨.tiny 11, false, 0⟩ [b] ∧
        (st'.world.segmentAt b.segment).allocation.ptr = 4096 := ⟨_, _, rfl, rfl, rfl⟩
    exact ⟨st', b, hstep, hserved
      (harray 3 32 0 0 _ _ _ (by decide) (by decide) hle' (by decide) hstep) hlive hbase⟩

end HwMalloc
