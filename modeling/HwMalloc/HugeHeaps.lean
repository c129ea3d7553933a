import HwMalloc.HeapTables
import HwMalloc.Lib.Run

/-!
# HwMalloc.HugeHeaps

The size dispatch of `heap::allocate`: a request goes to a slot of one of the
two tables, or, above `m_max_size`, to an entry of `m_huge_heaps` that is
created on demand. Both overloads of `allocate` (host and device) start with
this dispatch.

The key of a huge request is `roundToPowOf2 size`, which shifts a 32-bit one.
So the entry fits the request exactly up to `2 ^ 31` (`hugeRequests_fit_iff`). Above,
the shift is by more than 31 bits and wraps, and the key is that of a small class.

The states of a heap are those that its own requests can reach (`Heap.Reachable`): the
tables are as constructed, and the entries of `m_huge_heaps` belong to earlier
requests. An entry is found again by a request with the same key, and that is why the
answer does not depend on the history.
-/

namespace HwMalloc

/-- The members of `heap` that the size dispatch reads and writes. -/
structure Heap where
  topo : Topology
  config : HeapConfig
  maxSize : Nat
  tinyHeaps : List (Option FixedSizeHeap)
  heaps : List (Option FixedSizeHeap)
  hugeHeaps : List (Nat × FixedSizeHeap)

/-- `heap::heap`. -/
def heap (topo : Topology) (c : HeapConfig) : Heap :=
  { topo := topo
    config := c
    maxSize := maxSize c
    tinyHeaps := tinyHeaps topo c
    heaps := heaps topo c
    hugeHeaps := [] }

namespace Heap

/-- The heap a reference points to; `none` is an index outside the vector, an
empty slot or an absent key. -/
def find? (h : Heap) : HeapRef → Option FixedSizeHeap
  | .tiny i => h.tinyHeaps[i]?.join
  | .sized i => h.heaps[i]?.join
  | .huge key => h.hugeHeaps.lookup key

/-- `m_huge_heaps[s]`, created when it is missing. -/
def hugeEntry (h : Heap) (s : Nat) : Heap :=
  match h.hugeHeaps.lookup s with
  | some _ => h
  | none => { h with hugeHeaps := (s, makeFixedSizeHeap h.topo h.config s s) :: h.hugeHeaps }

/-- The dispatch of `heap::allocate` on the size. -/
def select (h : Heap) (size : Nat) : Heap × HeapRef :=
  if size ≤ h.config.tinyLimit then
    (h, .tiny (tinyBucketIndex size tinyIncrement tinyIncrementShift))
  else if size ≤ h.maxSize then
    (h, .sized (bucketIndex size h.config.bucketShift))
  else
    (h.hugeEntry (roundToPowOf2 size), .huge (roundToPowOf2 size))

/-- The heaps that a constructed heap can become: requests only add entries to
`m_huge_heaps`. -/
def Reachable (topo : Topology) (c : HeapConfig) (h : Heap) : Prop :=
  Lib.Reachable (· = heap topo c) (fun h size h' => h' = (select h size).1) h

/-- What every request leaves as it is, and what every entry of `m_huge_heaps`
looks like. -/
structure WellFormed (topo : Topology) (c : HeapConfig) (h : Heap) : Prop where
  topo_eq : h.topo = topo
  config_eq : h.config = c
  maxSize_eq : h.maxSize = HwMalloc.maxSize c
  tinyHeaps_eq : h.tinyHeaps = HwMalloc.tinyHeaps topo c
  heaps_eq : h.heaps = HwMalloc.heaps topo c
  huge : ∀ key f, h.hugeHeaps.lookup key = some f → f = makeFixedSizeHeap topo c key key

variable {topo : Topology} {c : HeapConfig} {h : Heap}

theorem heap_wellFormed : (heap topo c).WellFormed topo c where
  topo_eq := rfl
  config_eq := rfl
  maxSize_eq := rfl
  tinyHeaps_eq := rfl
  heaps_eq := rfl
  huge := by
    intro key f hf
    simp [heap] at hf

theorem hugeEntry_wellFormed (hw : h.WellFormed topo c) (s : Nat) :
    (h.hugeEntry s).WellFormed topo c := by
  unfold hugeEntry
  split
  · exact hw
  · refine { hw with huge := fun key f hf => ?_ }
    rw [List.lookup_cons] at hf
    by_cases hk : key = s
    · subst hk
      simp only [beq_self_eq_true] at hf
      rw [← Option.some.inj hf, hw.topo_eq, hw.config_eq]
    · rw [beq_eq_false_iff_ne.mpr hk] at hf
      exact hw.huge key f hf

/-- After the entry was asked for, it is there. -/
theorem hugeEntry_lookup (hw : h.WellFormed topo c) (s : Nat) :
    (h.hugeEntry s).hugeHeaps.lookup s = some (makeFixedSizeHeap topo c s s) := by
  unfold hugeEntry
  cases hs : h.hugeHeaps.lookup s with
  | some f =>
    dsimp only
    rw [hs, hw.huge s f hs]
  | none =>
    dsimp only
    rw [List.lookup_cons, beq_self_eq_true, hw.topo_eq, hw.config_eq]

theorem select_wellFormed (hw : h.WellFormed topo c) (size : Nat) :
    (h.select size).1.WellFormed topo c := by
  unfold select
  split
  · exact hw
  · split
    · exact hw
    · exact hugeEntry_wellFormed hw _

theorem Reachable.wellFormed (hr : Reachable topo c h) : h.WellFormed topo c := by
  refine Lib.Reachable.invariant ?_ ?_ hr
  · intro h₀ h₀eq
    rw [h₀eq]
    exact heap_wellFormed
  · intro h₁ size h₂ hw hstep
    rw [hstep]
    exact select_wellFormed hw size

theorem select_huge (hw : h.WellFormed topo c) (hlt : c.tinyLimit ≤ HwMalloc.maxSize c) {size : Nat}
    (hsize : HwMalloc.maxSize c < size) :
    h.select size = (h.hugeEntry (roundToPowOf2 size), .huge (roundToPowOf2 size)) := by
  rw [select, hw.config_eq, hw.maxSize_eq, if_neg (by omega), if_neg (by omega)]

/-- A huge request is routed to an entry whose key, block size and segment size
are the least power of two that is not smaller. -/
def HugeFits (h : Heap) (size : Nat) : Prop :=
  ∃ p f, Lib.LeastPow p size ∧ (h.select size).2 = .huge p ∧
    (h.select size).1.find? (.huge p) = some f ∧ f.blockSize = p ∧ f.segmentSize = p ∧
    size ≤ f.blockSize

end Heap

open Heap

/-- The limits of an accepted configuration are below `m_max_size`. -/
theorem limits_le_maxSize {a : HeapConfigArgs} {c : HeapConfig} (h : heapConfig a = .ok c) :
    c.tinyLimit ≤ maxSize c ∧ 2 ≤ maxSize c := by
  obtain ⟨-, ⟨hts, hsl⟩, -⟩ := heapConfig_ok_iff.mp h
  have hmax : c.largeLimit ≤ maxSize c := le_max_right _ _
  omega

theorem maxSize_le {a : HeapConfigArgs} {c : HeapConfig} (h : heapConfig a = .ok c) :
    maxSize c ≤ 2 ^ 31 := by
  obtain ⟨t, s, l, hshape⟩ := heapConfig_shape h
  rw [maxSize_eq hshape]
  exact Nat.pow_le_pow_right (by omega) (min_le_right _ _)

/-- What the dispatch finds for a positive size: the tiny class of the least
multiple of the increment, or the class of the least power of two, unless the
size is above `2 ^ 31`. -/
theorem select_class {topo : Topology} {a : HeapConfigArgs} {c : HeapConfig} {h : Heap}
    (hc : heapConfig a = .ok c) (hw : h.WellFormed topo c) {size : Nat} (h1 : 1 ≤ size)
    {f : FixedSizeHeap} (hf : (h.select size).1.find? (h.select size).2 = some f) :
    (size ≤ c.tinyLimit ∧ Lib.LeastMul f.blockSize tinyIncrement size) ∨
      (c.tinyLimit < size ∧ size ≤ 2 ^ 31 ∧ Lib.LeastPow f.blockSize size) ∨
      (2 ^ 31 < size ∧ f.blockSize ≤ 2 ^ 31) := by
  obtain ⟨t, s, l, hshape⟩ := heapConfig_shape hc
  obtain ⟨htiny, hmax⟩ := limits_le_maxSize hc
  by_cases htinySize : size ≤ c.tinyLimit
  · left
    rw [select, hw.config_eq, if_pos htinySize, find?, hw.tinyHeaps_eq] at hf
    by_cases hle : tinyIncrement ≤ c.tinyLimit
    · have hfits : TinyFits topo c size := tinyFits_of_le hshape hle h1 htinySize
      obtain ⟨-, f', hget, hmul⟩ := hfits
      rw [hget] at hf
      cases hf
      exact ⟨htinySize, hmul⟩
    · -- There is no tiny class at all.
      have hnone : numTinySlots c = 0 := Nat.div_eq_of_lt (not_le.mp hle)
      rw [tinyHeaps, hnone, List.getElem?_eq_none (by simp)] at hf
      cases hf
  · right
    by_cases hsized : size ≤ maxSize c
    · left
      rw [select, hw.config_eq, hw.maxSize_eq, if_neg htinySize, if_pos hsized, find?,
        hw.heaps_eq] at hf
      obtain ⟨f', hget, hpow, -⟩ :=
        @heaps_bucketIndex topo _ _ _ _ hshape _ (not_le.mp htinySize) hsized
      rw [hget] at hf
      cases hf
      exact ⟨not_le.mp htinySize, hsized.trans (maxSize_le hc), hpow⟩
    · have hlookup := hugeEntry_lookup hw (roundToPowOf2 size)
      rw [select_huge hw htiny (not_le.mp hsized)] at hf
      obtain rfl := Option.some.inj (hlookup.symm.trans hf)
      by_cases hround : size ≤ 2 ^ 31
      · exact Or.inl ⟨not_le.mp htinySize, hround,
          roundToPowOf2_leastPow (hmax.trans (not_le.mp hsized).le) hround⟩
      · right
        obtain ⟨k, hk, hkE⟩ := roundToPowOf2_two_pow_form size
        refine ⟨not_le.mp hround, ?_⟩
        rw [makeFixedSizeHeap_blockSize, hkE]
        exact Nat.pow_le_pow_right (by omega) (Nat.lt_succ_iff.mp hk)

/-- Up to `2 ^ 31` bytes the blocks of the class that is found are large enough. -/
theorem le_blockSize_of_select {topo : Topology} {a : HeapConfigArgs} {c : HeapConfig} {h : Heap}
    (hc : heapConfig a = .ok c) (hw : h.WellFormed topo c) {size : Nat} (h1 : 1 ≤ size)
    (h2 : size ≤ 2 ^ 31) {f : FixedSizeHeap}
    (hf : (h.select size).1.find? (h.select size).2 = some f) : size ≤ f.blockSize := by
  rcases select_class hc hw h1 hf with ⟨-, hmul⟩ | ⟨-, -, hpow⟩ | ⟨hlarge, -⟩
  · exact hmul.le
  · exact hpow.le
  · exact absurd h2 (not_le.mpr hlarge)

theorem hugeFits_iff {topo : Topology} {a : HeapConfigArgs} {c : HeapConfig} {h : Heap}
    (hc : heapConfig a = .ok c) (hr : Heap.Reachable topo c h) {size : Nat}
    (hlo : maxSize c < size) : h.HugeFits size ↔ size ≤ 2 ^ 31 := by
  have hw := hr.wellFormed
  obtain ⟨htiny, hmax⟩ := limits_le_maxSize hc
  have hsel := select_huge hw htiny hlo
  constructor
  · rintro ⟨p, f, hp, href, -⟩
    rw [hsel] at href
    obtain rfl := HeapRef.huge.inj href
    -- a one-bit 32-bit word is at most `2 ^ 31`
    obtain ⟨k, hk, hkE⟩ := roundToPowOf2_two_pow_form size
    have hle := hp.le
    rw [hkE] at hle
    exact le_trans hle (Nat.pow_le_pow_right (by omega) (by omega))
  · intro hhi
    have hp := roundToPowOf2_leastPow (by omega) hhi
    refine ⟨_, makeFixedSizeHeap topo c _ _, hp, by rw [hsel], ?_, rfl, rfl, hp.le⟩
    rw [hsel]
    exact hugeEntry_lookup hw _

/-- Two huge requests to one heap, at any times: each is served by a block that
fits, and they share a heap exactly when their least powers of two agree, if
and only if neither is above `2 ^ 31`. -/
theorem hugeRequests_fit_iff {topo : Topology} {a : HeapConfigArgs} {c : HeapConfig}
    {h₁ h₂ : Heap} (hc : heapConfig a = .ok c) (hr₁ : Heap.Reachable topo c h₁)
    (hr₂ : Heap.Reachable topo c h₂) {n₁ n₂ : Nat} (hlo₁ : maxSize c < n₁)
    (hlo₂ : maxSize c < n₂) :
    (h₁.HugeFits n₁ ∧ h₂.HugeFits n₂ ∧
        ((h₁.select n₁).2 = (h₂.select n₂).2 ↔ ∀ p, Lib.LeastPow p n₁ ↔ Lib.LeastPow p n₂)) ↔
      n₁ ≤ 2 ^ 31 ∧ n₂ ≤ 2 ^ 31 := by
  obtain ⟨htiny, hmax⟩ := limits_le_maxSize hc
  rw [hugeFits_iff hc hr₁ hlo₁, hugeFits_iff hc hr₂ hlo₂]
  constructor
  · rintro ⟨h₁, h₂, -⟩
    exact ⟨h₁, h₂⟩
  · rintro ⟨hn₁, hn₂⟩
    refine ⟨hn₁, hn₂, ?_⟩
    have hp₁ := roundToPowOf2_leastPow (by omega) hn₁
    have hp₂ := roundToPowOf2_leastPow (by omega) hn₂
    rw [select_huge hr₁.wellFormed htiny hlo₁, select_huge hr₂.wellFormed htiny hlo₂,
      HeapRef.huge.injEq]
    constructor
    · intro heq p
      constructor
      · intro hp
        rw [hp.unique hp₁, heq]
        exact hp₂
      · intro hp
        rw [hp.unique hp₂, ← heq]
        exact hp₁
    · intro hiff
      exact ((hiff _).mp hp₁).unique hp₂

theorem maxSize_default : maxSize defaultConfig = 4194304 := by
  rw [maxSize, roundToPowOf2, log2C_eq]
  decide

theorem hugeRequests_fit_iff_default :
    ((heap stubTopology defaultConfig).HugeFits 5000000 ∧
        (heap stubTopology defaultConfig).HugeFits 6000000 ∧
        (((heap stubTopology defaultConfig).select 5000000).2 =
            ((heap stubTopology defaultConfig).select 6000000).2 ↔
          ∀ p, Lib.LeastPow p 5000000 ↔ Lib.LeastPow p 6000000)) ↔
      5000000 ≤ 2 ^ 31 ∧ 6000000 ≤ 2 ^ 31 :=
  hugeRequests_fit_iff heapConfig_default (Lib.Reachable.of_init rfl) (Lib.Reachable.of_init rfl)
    (by rw [maxSize_default]; decide) (by rw [maxSize_default]; decide)

/-- A request for 4 GiB is routed to the entry for blocks of one byte. -/
theorem fourGiB_not_fits :
    maxSize defaultConfig < 2 ^ 32 ∧
      ((heap stubTopology defaultConfig).select (2 ^ 32)).2 = .huge 1 ∧
      ¬(heap stubTopology defaultConfig).HugeFits (2 ^ 32) := by
  have hlo : maxSize defaultConfig < 2 ^ 32 := by
    rw [maxSize_default]
    decide
  have hround : roundToPowOf2 (2 ^ 32) = 1 := by
    rw [roundToPowOf2, log2C_eq]
    decide
  refine ⟨hlo, ?_, ?_⟩
  · rw [select_huge heap_wellFormed (limits_le_maxSize heapConfig_default).1 hlo, hround]
  · rw [hugeFits_iff heapConfig_default (Lib.Reachable.of_init rfl) hlo]
    decide

end HwMalloc
