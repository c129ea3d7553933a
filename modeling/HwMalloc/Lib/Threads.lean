import HwMalloc.Lib.Run
import Mathlib.Algebra.Order.BigOperators.Group.Finset

/-!
# HwMalloc.Lib.Threads

What holds of any set of threads, whatever program they run.

**Sums over threads.** Each thread stands somewhere, and what the thread contributes
to a quantity depends on where it stands. When one thread moves, the sum changes by
the difference of its two contributions (`sum_update`).

**A mutex** and the critical sections it guards. A thread enters its critical section
by acquiring the mutex and leaves it either by releasing the mutex or, on an
exceptional path that forgets to, by abandoning it. An abandoned mutex stays with its
owner for ever (`owner_inside_iff`).
-/

namespace HwMalloc.Lib

/-! ### Sums -/

section

variable {ι α : Type*} [Fintype ι]

/-- One thread moves. -/
theorem sum_update [DecidableEq ι] (f : α → Nat) (pc : ι → α) (t : ι) (x : α) :
    ∑ u, f (Function.update pc t x u) + f (pc t) = ∑ u, f (pc u) + f x := by
  have hrest : ∑ u ∈ Finset.univ.erase t, f (Function.update pc t x u) =
      ∑ u ∈ Finset.univ.erase t, f (pc u) := by
    refine Finset.sum_congr rfl fun u hu => ?_
    rw [Function.update_of_ne (Finset.ne_of_mem_erase hu)]
  have hnew := Finset.add_sum_erase Finset.univ (fun u => f (Function.update pc t x u))
    (Finset.mem_univ t)
  have hold := Finset.add_sum_erase Finset.univ (fun u => f (pc u)) (Finset.mem_univ t)
  simp only [Function.update_self] at hnew hold
  omega

/-- What one thread contributes is in the sum. -/
theorem le_sum (f : α → Nat) (pc : ι → α) (t : ι) : f (pc t) ≤ ∑ u, f (pc u) :=
  Finset.single_le_sum (f := fun u => f (pc u)) (fun _ _ => Nat.zero_le _) (Finset.mem_univ t)

/-- Nobody contributes. -/
theorem sum_eq_zero {f : α → Nat} {pc : ι → α} (h : ∀ u, f (pc u) = 0) : ∑ u, f (pc u) = 0 :=
  Finset.sum_eq_zero fun u _ => h u

end

/-! ### A mutex -/

variable {ι : Type*}

/-- Who owns the mutex, and who is in its critical section. -/
@[ext] structure MutexState (ι : Type*) where
  owner : Option ι
  inside : ι → Prop

/-- What a step does with the mutex. -/
inductive MutexLabel (ι : Type*)
  | keep
  | acquire (t : ι)
  | release (t : ι)
  | abandon (t : ι)

/-- The steps of threads that acquire the mutex when they enter. -/
inductive MutexStep [DecidableEq ι] : MutexState ι → MutexLabel ι → MutexState ι → Prop
  | keep {m : MutexState ι} : MutexStep m .keep m
  | acquire {m : MutexState ι} {t : ι} :
      m.owner = none → ¬m.inside t →
      MutexStep m (.acquire t) ⟨some t, Function.update m.inside t True⟩
  | release {m : MutexState ι} {t : ι} :
      m.inside t → MutexStep m (.release t) ⟨none, Function.update m.inside t False⟩
  | abandon {m : MutexState ι} {t : ι} :
      m.inside t → MutexStep m (.abandon t) ⟨m.owner, Function.update m.inside t False⟩

namespace MutexState

/-- The mutex is free, and nobody is inside. -/
def Init (m : MutexState ι) : Prop := m.owner = none ∧ ∀ t, ¬m.inside t

/-- Whoever is inside owns the mutex. -/
def Exclusive (m : MutexState ι) : Prop := ∀ t, m.inside t → m.owner = some t

/-- The mutex is owned only by a thread that is inside. -/
def Sound (m : MutexState ι) : Prop := ∀ t, m.owner = some t → m.inside t

/-- The mutex is owned by a thread that is not inside. -/
def Leaked (m : MutexState ι) : Prop := ∃ t, m.owner = some t ∧ ¬m.inside t

end MutexState

variable [DecidableEq ι] {m m' : MutexState ι} {l : MutexLabel ι}

namespace MutexState

theorem Exclusive.step (h : m.Exclusive) (hstep : MutexStep m l m') : m'.Exclusive := by
  cases hstep with
  | keep => exact h
  | @acquire t hfree _ =>
    intro u hu
    by_cases hut : u = t
    · rw [hut]
    · have hin : m.inside u := by simpa [Function.update_of_ne hut] using hu
      rw [h u hin] at hfree
      cases hfree
  | @release t hin =>
    intro u hu
    by_cases hut : u = t
    · simp [hut] at hu
    · have hinu : m.inside u := by simpa [Function.update_of_ne hut] using hu
      exact absurd (Option.some.inj ((h u hinu).symm.trans (h t hin))) hut
  | @abandon t hin =>
    intro u hu
    by_cases hut : u = t
    · simp [hut] at hu
    · exact h u (by simpa [Function.update_of_ne hut] using hu)

/-- Soundness is lost only by abandoning the mutex. -/
theorem Sound.step (h : m.Sound) (hl : ∀ t, l ≠ .abandon t) (hstep : MutexStep m l m') :
    m'.Sound := by
  cases hstep with
  | keep => exact h
  | @acquire t _ _ =>
    intro u hu
    cases hu
    simp
  | release _ =>
    intro u hu
    cases hu
  | @abandon t _ => exact absurd rfl (hl t)

/-- The thread that abandons the mutex keeps owning it. -/
theorem Exclusive.abandon {t : ι} (h : m.Exclusive) (hstep : MutexStep m (.abandon t) m') :
    m'.Leaked := by
  cases hstep with
  | abandon hin => exact ⟨t, h t hin, by simp⟩

/-- Nobody can repair that: the owner is outside, and nobody else can get in. -/
theorem Exclusive.leaked_step (h : m.Exclusive) (hleaked : m.Leaked)
    (hstep : MutexStep m l m') : m'.Leaked := by
  obtain ⟨t, howner, hout⟩ := hleaked
  have hnobody : ∀ u, ¬m.inside u := by
    intro u hu
    have hut : u = t := Option.some.inj ((h u hu).symm.trans howner)
    exact hout (hut ▸ hu)
  cases hstep with
  | keep => exact ⟨t, howner, hout⟩
  | acquire hfree _ =>
    rw [howner] at hfree
    cases hfree
  | @release u hin => exact absurd hin (hnobody u)
  | @abandon u hin => exact absurd hin (hnobody u)

end MutexState

/-- At the end of a run the mutex is owned only from inside exactly when no step
of the run abandoned it. -/
theorem owner_inside_iff {ls : List (MutexLabel ι)} (h : Run MutexStep m ls m')
    (hinit : m.Init) : m'.Sound ↔ ∀ l ∈ ls, ∀ t, l ≠ .abandon t := by
  have hex : m.Exclusive := fun t ht => absurd ht (hinit.2 t)
  constructor
  · intro hsound l hl t heq
    have hset : ∀ n l n', MutexState.Exclusive n → (l = MutexLabel.abandon t) →
        MutexStep n l n' → n'.Leaked := by
      rintro n _ n' hex rfl hstep
      exact hex.abandon hstep
    have htrig : ∃ l ∈ ls, l = MutexLabel.abandon t := ⟨l, hl, heq⟩
    obtain ⟨u, howner, hout⟩ := h.absorbing (fun _ _ _ => MutexState.Exclusive.step) hset
      (fun _ _ _ => MutexState.Exclusive.leaked_step) hex htrig
    exact hout (hsound u howner)
  · intro hls
    refine (h.guarded hls).invariant (fun _ _ _ hsound hstep => hsound.step hstep.1 hstep.2) ?_
    intro t ht
    rw [hinit.1] at ht
    cases ht

end HwMalloc.Lib
