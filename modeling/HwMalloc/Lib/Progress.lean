import HwMalloc.Lib.Run
import Mathlib.Order.OrderIsoNat
import Mathlib.Data.Prod.Lex

/-!
# HwMalloc.Lib.Progress

Runs that come to an end, and runs that do not.

**Termination.** A measure that every step decreases, under an invariant, leaves no
infinite run (`isEmpty_infiniteRun`), and every run can be continued to one that cannot
be continued any more (`exists_run_stuck`). The measure may be in any well-founded
order; `lex₃` is the lexicographic one of three numbers.

**Rounds.** Where a run leads from every state of a kind to another one of this kind, an
infinite run goes through all of them (`exists_infiniteRun_of_rounds`). A number that
each round increases is unbounded along it.
-/

namespace HwMalloc.Lib

variable {σ ε : Type*}

/-- An infinite run from `s`. -/
structure InfiniteRun (step : σ → ε → σ → Prop) (s : σ) where
  state : ℕ → σ
  label : ℕ → ε
  start : state 0 = s
  next : ∀ n, step (state n) (label n) (state (n + 1))

/-- No step is possible. -/
def Stuck (step : σ → ε → σ → Prop) (s : σ) : Prop := ∀ e s', ¬step s e s'

section

variable {α : Type*} [Preorder α] [WellFoundedLT α] {step : σ → ε → σ → Prop} {inv : σ → Prop}
  {μ : σ → α} (hinv : ∀ s e s', inv s → step s e s' → inv s')
  (hdec : ∀ s e s', inv s → step s e s' → μ s' < μ s)
include hinv hdec

/-- There is no infinite run. -/
theorem isEmpty_infiniteRun {s : σ} (hs : inv s) : IsEmpty (InfiniteRun step s) := by
  refine ⟨fun run => ?_⟩
  have hall : ∀ n, inv (run.state n) := by
    intro n
    induction n with
    | zero =>
      rw [run.start]
      exact hs
    | succ n ih => exact hinv _ _ _ ih (run.next n)
  exact not_strictAnti_of_wellFoundedLT (fun n => μ (run.state n))
    (strictAnti_nat_of_succ_lt fun n => hdec _ _ _ (hall n) (run.next n))

/-- Every run can be continued until no step is possible. -/
theorem exists_run_stuck {s : σ} (hs : inv s) : ∃ es s', Run step s es s' ∧ Stuck step s' := by
  induction hm : μ s using WellFoundedLT.induction generalizing s with
  | _ m ih =>
    by_cases hstuck : Stuck step s
    · exact ⟨[], s, .refl s, hstuck⟩
    · obtain ⟨e, s₁, hstep⟩ : ∃ e s₁, step s e s₁ := by
        simpa [Stuck, not_forall] using hstuck
      obtain ⟨es, s', hrun, hend⟩ := ih _ (hm ▸ hdec s e s₁ hs hstep) (hinv s e s₁ hs hstep) rfl
      exact ⟨e :: es, s', (Run.single hstep).append hrun, hend⟩

end

/-! ### Runs without an end -/

/-- The first step of a run. -/
theorem Run.eq_nil_or_cons {step : σ → ε → σ → Prop} {s s' : σ} {es : List ε}
    (h : Run step s es s') :
    (es = [] ∧ s = s') ∨
      ∃ e es' s₁, es = e :: es' ∧ step s e s₁ ∧ Run step s₁ es' s' := by
  induction h with
  | refl => exact Or.inl ⟨rfl, rfl⟩
  | @snoc s₁ s₂ es e _ hlast ih =>
    right
    obtain ⟨rfl, rfl⟩ | ⟨e', es', s₃, rfl, hfirst, hrest⟩ := ih
    · exact ⟨e, [], s₂, rfl, hlast, .refl _⟩
    · exact ⟨e', es' ++ [e], s₃, rfl, hfirst, hrest.snoc hlast⟩

section

variable {step : σ → ε → σ → Prop} {ready : σ → Prop} {μ : σ → ℕ}

/-- A state `d` steps before a ready state with a measure of at least `m`. -/
def Toward (step : σ → ε → σ → Prop) (ready : σ → Prop) (μ : σ → ℕ) (s : σ) (d m : ℕ) : Prop :=
  ∃ es s', es.length = d ∧ Run step s es s' ∧ ready s' ∧ m ≤ μ s'

/-- If every ready state leads to another one with a greater measure, then there is
an infinite run in which the measure is unbounded. -/
theorem exists_infiniteRun_of_rounds
    (hround : ∀ s, ready s → ∃ es s', es ≠ [] ∧ Run step s es s' ∧ ready s' ∧ μ s < μ s')
    {s : σ} (hs : ready s) : ∃ run : InfiniteRun step s, ∀ N, ∃ n, N ≤ μ (run.state n) := by
  -- The states of the run, with what is ahead of them: `d` counts down to the next
  -- ready state, and `m` counts these states.
  let Point := { c : σ × ℕ × ℕ // Toward step ready μ c.1 c.2.1 c.2.2 }
  have hnext : ∀ c : Point, ∃ e, ∃ c' : Point, step c.1.1 e c'.1.1 ∧
      ((c.1.2.1 = 0 ∧ c'.1.2.2 = c.1.2.2 + 1) ∨
        (c.1.2.1 = c'.1.2.1 + 1 ∧ c'.1.2.2 = c.1.2.2)) := by
    intro ⟨⟨s, d, m⟩, es, s', hlength, hrun, hready, hm⟩
    obtain ⟨rfl, rfl⟩ | ⟨e, es', s₁, rfl, hfirst, hrest⟩ := hrun.eq_nil_or_cons
    · obtain ⟨es, s', hne, hrun, hready', hμ⟩ := hround s hready
      obtain ⟨rfl, -⟩ | ⟨e, es', s₁, rfl, hfirst, hrest⟩ := hrun.eq_nil_or_cons
      · exact absurd rfl hne
      · have htoward : Toward step ready μ s₁ es'.length (m + 1) :=
          ⟨es', s', rfl, hrest, hready', Nat.succ_le_of_lt (lt_of_le_of_lt hm hμ)⟩
        exact ⟨e, ⟨⟨s₁, es'.length, m + 1⟩, htoward⟩, hfirst, Or.inl ⟨hlength.symm, rfl⟩⟩
    · have htoward : Toward step ready μ s₁ es'.length m := ⟨es', s', rfl, hrest, hready, hm⟩
      exact ⟨e, ⟨⟨s₁, es'.length, m⟩, htoward⟩, hfirst, Or.inr ⟨hlength.symm, rfl⟩⟩
  choose label next hstep hcount using hnext
  let start : Point := ⟨⟨s, 0, 0⟩, [], s, rfl, .refl s, hs, Nat.zero_le _⟩
  let point : ℕ → Point := fun n => next^[n] start
  have hsucc : ∀ n, point (n + 1) = next (point n) := fun n => Function.iterate_succ_apply' ..
  let run : InfiniteRun step s :=
    { state := fun n => (point n).1.1
      label := fun n => label (point n)
      start := rfl
      next := fun n => by
        rw [hsucc]
        exact hstep _ }
  -- From any point the run gets to the next ready state.
  have hdown : ∀ d n, (point n).1.2.1 = d →
      ∃ n', (point n').1.2.1 = 0 ∧ (point n').1.2.2 = (point n).1.2.2 := by
    intro d
    induction d with
    | zero => exact fun n hn => ⟨n, hn, rfl⟩
    | succ d ih =>
      intro n hn
      obtain ⟨hzero, -⟩ | ⟨hdec, hm⟩ := hcount (point n)
      · omega
      · obtain ⟨n', hn', hm'⟩ := ih (n + 1) (by rw [hsucc]; omega)
        exact ⟨n', hn', by rw [hm', hsucc, hm]⟩
  have hrounds : ∀ N, ∃ n, (point n).1.2.1 = 0 ∧ (point n).1.2.2 = N := by
    intro N
    induction N with
    | zero => exact ⟨0, rfl, rfl⟩
    | succ N ih =>
      obtain ⟨n, hn, hm⟩ := ih
      obtain ⟨-, hm'⟩ | ⟨hdec, -⟩ := hcount (point n)
      · obtain ⟨n', hn', hm''⟩ := hdown _ (n + 1) rfl
        exact ⟨n', hn', by rw [hm'', hsucc, hm', hm]⟩
      · omega
  refine ⟨run, fun N => ?_⟩
  obtain ⟨n, hn, hm⟩ := hrounds N
  obtain ⟨es, s', hlength, hrun, -, hμ⟩ := (point n).2
  rw [hn] at hlength
  rw [List.eq_nil_of_length_eq_zero hlength] at hrun
  refine ⟨n, ?_⟩
  obtain ⟨-, heq⟩ | ⟨e, es', s₁, hcons, -⟩ := hrun.eq_nil_or_cons
  · show N ≤ μ (point n).1.1
    rw [heq, ← hm]
    exact hμ
  · cases hcons

end

/-! ### Three measures in a row -/

/-- The lexicographic order of three numbers. -/
def lex₃ (a b c : ℕ) : ℕ ×ₗ ℕ ×ₗ ℕ := toLex (a, toLex (b, c))

variable {a a' b b' c c' : ℕ}

theorem lex₃_lt_of_fst (h : a < a') : lex₃ a b c < lex₃ a' b' c' :=
  Prod.Lex.toLex_lt_toLex.mpr (Or.inl h)

theorem lex₃_lt_of_snd (ha : a ≤ a') (h : b < b') : lex₃ a b c < lex₃ a' b' c' := by
  rcases ha.lt_or_eq with ha | rfl
  · exact lex₃_lt_of_fst ha
  · exact Prod.Lex.toLex_lt_toLex.mpr (Or.inr ⟨rfl, Prod.Lex.toLex_lt_toLex.mpr (Or.inl h)⟩)

theorem lex₃_lt_of_trd (ha : a ≤ a') (hb : b ≤ b') (h : c < c') :
    lex₃ a b c < lex₃ a' b' c' := by
  rcases hb.lt_or_eq with hb | rfl
  · exact lex₃_lt_of_snd ha hb
  · rcases ha.lt_or_eq with ha | rfl
    · exact lex₃_lt_of_fst ha
    · exact Prod.Lex.toLex_lt_toLex.mpr
        (Or.inr ⟨rfl, Prod.Lex.toLex_lt_toLex.mpr (Or.inr ⟨rfl, h⟩)⟩)

end HwMalloc.Lib
