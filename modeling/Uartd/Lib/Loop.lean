import Mathlib.Data.Nat.Notation

/-!
# While loops

A loop is given by its body: from a state the body faults, ends the loop, or goes
on in another state. `loop` runs it with a bound on the number of iterations.

* `loop_done_of_variant` — an invariant and a variant that falls: the loop ends;
* `loop_running_of_invariant` — an invariant under which the body always goes
  on: no number of iterations is enough;
* `loop_done_unique` — where a loop ends does not depend on the bound.
-/

namespace Uartd.Lib

variable {σ : Type*}

/-- What became of a loop: it ended in a state, it faulted, or the bound was
reached first. -/
inductive LoopEnd (σ : Type*) where
  | done (s : σ)
  | fault
  | running

/-- At most `fuel` iterations. The body returns whether the loop goes on. -/
def loop (body : σ → Option (Bool × σ)) : ℕ → σ → LoopEnd σ
  | 0, _ => .running
  | fuel + 1, s =>
    match body s with
    | none => .fault
    | some (false, s') => .done s'
    | some (true, s') => loop body fuel s'

variable {body : σ → Option (Bool × σ)} {s s' : σ}

theorem loop_end (h : body s = some (false, s')) (fuel : ℕ) :
    loop body (fuel + 1) s = .done s' := by
  rw [loop, h]

theorem loop_next (h : body s = some (true, s')) (fuel : ℕ) :
    loop body (fuel + 1) s = loop body fuel s' := by
  rw [loop, h]

/-- **Total correctness.** Under the invariant `I` the body does not fault; where
it goes on it keeps `I` and the variant falls, where it ends the loop `Q` holds. -/
theorem loop_done_of_variant {I Q : σ → Prop} (v : σ → ℕ)
    (hbody : ∀ s, I s → ∃ b s', body s = some (b, s') ∧
      (b = true → I s' ∧ v s' < v s) ∧ (b = false → Q s'))
    (hs : I s) : ∃ fuel s', loop body fuel s = .done s' ∧ Q s' := by
  induction hv : v s using Nat.strongRecOn generalizing s with
  | ind n ih =>
    obtain ⟨b, s', hrun, hnext, hend⟩ := hbody s hs
    cases b with
    | false => exact ⟨1, s', loop_end hrun 0, hend rfl⟩
    | true =>
      obtain ⟨hI, hlt⟩ := hnext rfl
      obtain ⟨fuel, s'', hdone, hQ⟩ := ih (v s') (hv ▸ hlt) hI rfl
      exact ⟨fuel + 1, s'', (loop_next hrun fuel).trans hdone, hQ⟩

/-- **Divergence.** Under the invariant `I` the body goes on and keeps `I`. -/
theorem loop_running_of_invariant {I : σ → Prop}
    (hbody : ∀ s, I s → ∃ s', body s = some (true, s') ∧ I s') (hs : I s) (fuel : ℕ) :
    loop body fuel s = .running := by
  induction fuel generalizing s with
  | zero => rfl
  | succ fuel ih =>
    obtain ⟨s', hrun, hI⟩ := hbody s hs
    rw [loop_next hrun, ih hI]

/-- Under the invariant `I` the body goes on and keeps `I`, or faults. -/
theorem loop_ne_done_of_invariant {I : σ → Prop}
    (hbody : ∀ s, I s → body s = none ∨ ∃ s', body s = some (true, s') ∧ I s') (hs : I s)
    (fuel : ℕ) (t : σ) : loop body fuel s ≠ .done t := by
  induction fuel generalizing s with
  | zero => simp [loop]
  | succ fuel ih =>
    rcases hbody s hs with hfault | ⟨s', hrun, hI⟩
    · simp [loop, hfault]
    · rw [loop_next hrun]
      exact ih hI

/-- Two bounds that are both large enough give the same end. -/
theorem loop_done_unique {m n : ℕ} {t u : σ} (ht : loop body m s = .done t)
    (hu : loop body n s = .done u) : t = u := by
  induction m generalizing n s with
  | zero => simp [loop] at ht
  | succ m ih =>
    cases n with
    | zero => simp [loop] at hu
    | succ n =>
      rw [loop] at ht hu
      cases hrun : body s with
      | none => simp [hrun] at ht
      | some r =>
        obtain ⟨b, s'⟩ := r
        rw [hrun] at ht hu
        cases b with
        | false =>
          simp only [LoopEnd.done.injEq] at ht hu
          rw [← ht, ← hu]
        | true => exact ih ht hu

end Uartd.Lib
