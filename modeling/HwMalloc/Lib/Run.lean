import Mathlib.Data.List.Forall2

/-!
# HwMalloc.Lib.Run

Finite runs of a labelled transition relation, and the rules for invariants.

**The labels.** A run is indexed by the list of the labels of its steps, in order. The
list tells two runs between the same states apart: what was asked for, which thread
moved, whether a step was an exceptional one, how many steps of a kind there were.

**Invariants.** `Reachable.invariant` and `Run.invariant` are the induction over a run.
`Guarded` restricts a relation to the steps whose state and label meet a condition; a
property that holds under a condition on the steps is an invariant of the guarded
relation (`Run.guarded`).

**Changes of the relation.** `Run.map` takes a run of one relation to a run of another
with the same states, `Run.simulate` follows it in the states of a second system, and
`Run.absorbing` is for a state of affairs that one step brings about and none undoes.

**Execution.** `exec` folds a partial step function over a list of labels; what it
computes is a run (`run_of_exec`).
-/

namespace HwMalloc.Lib

variable {σ ε : Type*}

/-- `Run step s es s'`: the steps labelled `es` lead from `s` to `s'`. -/
inductive Run (step : σ → ε → σ → Prop) : σ → List ε → σ → Prop
  | refl (s : σ) : Run step s [] s
  | snoc {s s' s'' : σ} {es : List ε} {e : ε} :
      Run step s es s' → step s' e s'' → Run step s (es ++ [e]) s''

/-- The steps of `step` that meet the condition `guard`. -/
def Guarded (guard : σ → ε → Prop) (step : σ → ε → σ → Prop) : σ → ε → σ → Prop :=
  fun s e s' => guard s e ∧ step s e s'

/-- Reachable from an initial state. -/
def Reachable (init : σ → Prop) (step : σ → ε → σ → Prop) (s : σ) : Prop :=
  ∃ s₀ es, init s₀ ∧ Run step s₀ es s

variable {step : σ → ε → σ → Prop} {init : σ → Prop}

/-- Runs compose. -/
theorem Run.append {s s' s'' : σ} {es es' : List ε} (h : Run step s es s')
    (h' : Run step s' es' s'') : Run step s (es ++ es') s'' := by
  induction h' with
  | refl => simpa using h
  | snoc _ hlast ih =>
    rw [← List.append_assoc]
    exact ih.snoc hlast

theorem Run.single {s s' : σ} {e : ε} (h : step s e s') : Run step s [e] s' :=
  (Run.refl s).snoc h

/-- What every step preserves, every run preserves. -/
theorem Run.invariant {inv : σ → Prop} {s s' : σ} {es : List ε} (h : Run step s es s')
    (hstep : ∀ s e s', inv s → step s e s' → inv s') (hs : inv s) : inv s' := by
  induction h with
  | refl => exact hs
  | snoc _ hlast ih => exact hstep _ _ _ ih hlast

/-- An invariant holds in every reachable state. -/
theorem Reachable.invariant {inv : σ → Prop} {s : σ} (hinit : ∀ s, init s → inv s)
    (hstep : ∀ s e s', inv s → step s e s' → inv s') (h : Reachable init step s) : inv s := by
  obtain ⟨s₀, es, h₀, hrun⟩ := h
  exact hrun.invariant hstep (hinit s₀ h₀)

theorem Reachable.of_init {s : σ} (h : init s) : Reachable init step s :=
  ⟨s, [], h, .refl s⟩

theorem Reachable.tail {s s' : σ} {e : ε} (h : Reachable init step s) (hs : step s e s') :
    Reachable init step s' := by
  obtain ⟨s₀, es, h₀, hrun⟩ := h
  exact ⟨s₀, es ++ [e], h₀, hrun.snoc hs⟩

/-- If every step of one relation is a step of another one, under other labels,
then so is every run. -/
theorem Run.map {ε' : Type*} {step' : σ → ε' → σ → Prop} {g : ε → ε'} {s s' : σ} {es : List ε}
    (hle : ∀ s e s', step s e s' → step' s (g e) s') (h : Run step s es s') :
    Run step' s (es.map g) s' := by
  induction h with
  | refl => exact .refl _
  | snoc _ hlast ih =>
    rw [List.map_append]
    exact ih.snoc (hle _ _ _ hlast)

/-- Forward simulation: if every step is matched by a step of the abstract
relation between the abstractions of its states, with a matching label, then so
is every run. -/
theorem Run.simulate {σ' ε' : Type*} {step' : σ' → ε' → σ' → Prop} {f : σ → σ'}
    {R : ε → ε' → Prop} {s s' : σ} {es : List ε}
    (hsim : ∀ s e s', step s e s' → ∃ e', R e e' ∧ step' (f s) e' (f s'))
    (h : Run step s es s') : ∃ es', List.Forall₂ R es es' ∧ Run step' (f s) es' (f s') := by
  induction h with
  | refl => exact ⟨[], .nil, .refl _⟩
  | snoc _ hlast ih =>
    obtain ⟨es', hes, hrun⟩ := ih
    obtain ⟨e', he, hstep⟩ := hsim _ _ _ hlast
    exact ⟨es' ++ [e'], List.rel_append hes (.cons he .nil), hrun.snoc hstep⟩

/-- Weak forward simulation: of the steps some are observed, and these are matched
by an abstract step each; the others are matched by none. -/
theorem Run.refine {σ' o : Type*} {step' : σ' → o → σ' → Prop} {R : σ → σ' → Prop}
    {obs : ε → Option o}
    (hhidden : ∀ s e s' a, R s a → step s e s' → obs e = none → R s' a)
    (hobserved : ∀ s e s' a o, R s a → step s e s' → obs e = some o → ∃ a', step' a o a' ∧ R s' a')
    {s s' : σ} {es : List ε} {a : σ'} (h : Run step s es s') (hR : R s a) :
    ∃ a', Run step' a (es.filterMap obs) a' ∧ R s' a' := by
  induction h with
  | refl => exact ⟨a, .refl a, hR⟩
  | snoc _ hlast ih =>
    obtain ⟨a₁, hrun, hR₁⟩ := ih
    rw [List.filterMap_append]
    cases ho : obs _ with
    | none => exact ⟨a₁, by simpa [ho] using hrun, hhidden _ _ _ _ hR₁ hlast ho⟩
    | some o =>
      obtain ⟨a₂, hstep, hR₂⟩ := hobserved _ _ _ _ o hR₁ hlast ho
      exact ⟨a₂, by simpa [ho] using hrun.snoc hstep, hR₂⟩

/-- The steps of a run can be labelled with whatever can be read off them. -/
theorem Run.annotate {o : Type*} (f : σ → ε → σ → o) {s s' : σ} {es : List ε}
    (h : Run step s es s') :
    ∃ fs, fs.map Prod.fst = es ∧ Run (fun s e s' => step s e.1 s' ∧ e.2 = f s e.1 s') s fs s' := by
  induction h with
  | refl => exact ⟨[], rfl, .refl _⟩
  | @snoc s₁ s₂ es e _ hlast ih =>
    obtain ⟨fs, rfl, hrun⟩ := ih
    exact ⟨fs ++ [(e, f s₁ e s₂)], by simp, hrun.snoc ⟨hlast, rfl⟩⟩

/-- A run whose labels all meet a condition is a run of the guarded relation. -/
theorem Run.guarded {ok : ε → Prop} {s s' : σ} {es : List ε} (h : Run step s es s')
    (hok : ∀ e ∈ es, ok e) : Run (Guarded (fun _ e => ok e) step) s es s' := by
  induction h with
  | refl => exact .refl _
  | snoc _ hlast ih =>
    exact (ih fun e he => hok e (List.mem_append_left _ he)).snoc ⟨hok _ (by simp), hlast⟩

/-- A state with a property that no step undoes keeps it to the end of the run:
if some step of the run established it, it holds at the end. -/
theorem Run.absorbing {inv bad : σ → Prop} {trigger : ε → Prop} {s s' : σ} {es : List ε}
    (h : Run step s es s')
    (hinv : ∀ s e s', inv s → step s e s' → inv s')
    (hset : ∀ s e s', inv s → trigger e → step s e s' → bad s')
    (hkeep : ∀ s e s', inv s → bad s → step s e s' → bad s')
    (hs : inv s) (htrig : ∃ e ∈ es, trigger e) : bad s' := by
  induction h with
  | refl => simp at htrig
  | snoc hrun hlast ih =>
    have hinv' := hrun.invariant hinv hs
    obtain ⟨e, he, ht⟩ := htrig
    rcases List.mem_append.mp he with he | he
    · exact hkeep _ _ _ hinv' (ih ⟨e, he, ht⟩) hlast
    · rw [List.mem_singleton.mp he] at ht
      exact hset _ _ _ hinv' ht hlast

/-! ### Runs of a partial function -/

/-- Take the steps `es` one after the other, as long as they are possible. -/
def exec (f : σ → ε → Option σ) : List ε → σ → Option σ
  | [], s => some s
  | e :: es, s =>
    match f s e with
    | none => none
    | some s' => exec f es s'

theorem run_of_exec {f : σ → ε → Option σ} {es : List ε} :
    ∀ {s s' : σ}, exec f es s = some s' → Run (fun s e s' => f s e = some s') s es s' := by
  induction es with
  | nil =>
    intro s s' h
    cases h
    exact .refl s
  | cons e es ih =>
    intro s s' h
    rw [exec] at h
    cases hf : f s e with
    | none => rw [hf] at h; cases h
    | some s₁ =>
      rw [hf] at h
      exact (Run.single hf).append (ih h)

end HwMalloc.Lib
