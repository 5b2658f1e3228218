import Uartd.Lib.Transition

/-!
# Progress

What a system must come to by its own steps. `A` says which steps those are: it
leaves out what the environment does and what may happen for no reason. A
property is inevitable if it holds after finitely many such steps whichever of
them are taken, as long as one is taken whenever there is one.

* `inevitable_of_variant` — every step lowers a measure, and a state that is not
  there yet has a step;
* `not_inevitable` — it is not inevitable where the steps never lead to it.
-/

namespace Uartd.Lib.System

variable {σ ε : Type*} {S : System σ ε} {A : σ → ε → σ → Prop} {G I : σ → Prop}

/-- By the steps in `A`, however they are scheduled, the system comes to `G`. -/
inductive Inevitable (S : System σ ε) (A : σ → ε → σ → Prop) (G : σ → Prop) : σ → Prop
  | now {s : σ} : G s → Inevitable S A G s
  | later {s : σ} : (∃ e s', S.step s e s' ∧ A s e s') →
      (∀ e s', S.step s e s' → A s e s' → Inevitable S A G s') → Inevitable S A G s

/-- **Variant rule.** -/
theorem inevitable_of_variant (μ : σ → ℕ)
    (hkeep : ∀ s e s', I s → S.step s e s' → I s')
    (hlower : ∀ s e s', I s → ¬ G s → S.step s e s' → A s e s' → μ s' < μ s)
    (hstep : ∀ s, I s → ¬ G s → ∃ e s', S.step s e s' ∧ A s e s') {s : σ} (hs : I s) :
    Inevitable S A G s := by
  induction hm : μ s using Nat.strongRecOn generalizing s with
  | ind m ih =>
    by_cases hG : G s
    · exact .now hG
    · refine .later (hstep s hs hG) fun e s' hst hA => ?_
      have hlt := hlower s e s' hs hG hst hA
      exact ih (μ s') (hm ▸ hlt) (hkeep s e s' hs hst) rfl

/-- A trap: a property that excludes `G` and that the steps in `A` keep. -/
theorem not_inevitable {s : σ} (hI : I s) (hG : ∀ s, I s → ¬ G s)
    (hkeep : ∀ s e s', I s → S.step s e s' → A s e s' → I s') : ¬ Inevitable S A G s := by
  intro h
  induction h with
  | now hnow => exact hG _ hI hnow
  | later hstep _ ih =>
    obtain ⟨e, s', hst, hA⟩ := hstep
    exact ih e s' hst hA (hkeep _ e s' hI hst hA)

end Uartd.Lib.System
