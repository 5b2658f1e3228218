import Mathlib.Data.List.Basic

/-!
# Labelled transition systems

Runs of a system as traces: the events so far, oldest first, and the state
they lead to. Everything a development proves about every interleaving is
proved here once as a rule:

* `Run.invariant` — what holds initially and is kept by every step of a run
  holds of every run (of its trace and its state together);
* `Run.at_event` — an event in the middle of a trace was a step between two
  states the run went through;
* `Run.ledger` — what came out and what is held is what went in;
* `Run.append` — runs are put together;
* `restrict` — the runs whose steps all meet a condition on the state before
  the step and the event;
* `record` — the runs with a record of what happened so far;
* `Run.simulation`, `Run.project` — a forward simulation carries runs of one
  system to runs of another, where some events are internal.
-/

namespace Uartd.Lib

/-- What a trace selects grows with its last event. -/
theorem filterMap_append_one {α β : Type*} (f : α → Option β) (l : List α) (x : α) :
    (l ++ [x]).filterMap f = l.filterMap f ++ (f x).toList := by
  rw [List.filterMap_append]
  cases hx : f x <;> simp [hx]

/-- A labelled transition system: its initial states and its steps. -/
structure System (σ ε : Type*) where
  init : σ → Prop
  step : σ → ε → σ → Prop

namespace System

variable {σ ε : Type*} {S : System σ ε}

/-- The runs of a system: the events so far and the state reached. -/
inductive Run (S : System σ ε) : List ε → σ → Prop
  | init {s : σ} : S.init s → Run S [] s
  | step {tr : List ε} {s s' : σ} {e : ε} :
      Run S tr s → S.step s e s' → Run S (tr ++ [e]) s'

/-- A state is reachable if some run ends in it. -/
def Reachable (S : System σ ε) (s : σ) : Prop := ∃ tr, S.Run tr s

/-- **Invariant rule.** The step obligation may use that the state before the
step was reached by a run, so invariants can be proved one after another. -/
theorem Run.invariant {I : List ε → σ → Prop}
    (hInit : ∀ s, S.init s → I [] s)
    (hStep : ∀ tr s e s', S.Run tr s → I tr s → S.step s e s' → I (tr ++ [e]) s')
    {tr : List ε} {s : σ} (h : S.Run tr s) : I tr s := by
  induction h with
  | init hs => exact hInit _ hs
  | step hr hst ih => exact hStep _ _ _ _ hr ih hst

/-- Invariant rule for a property of the state alone. -/
theorem Run.state_invariant {I : σ → Prop}
    (hInit : ∀ s, S.init s → I s)
    (hStep : ∀ s e s', S.Reachable s → I s → S.step s e s' → I s')
    {tr : List ε} {s : σ} (h : S.Run tr s) : I s :=
  Run.invariant (I := fun _ s => I s) hInit
    (fun tr s e s' hr hi hst => hStep s e s' ⟨tr, hr⟩ hi hst) h

/-- Every event of a trace was a step between two states of the run. -/
theorem Run.at_event {tr : List ε} {s : σ} (h : S.Run tr s) :
    ∀ (pre post : List ε) (e : ε), tr = pre ++ e :: post →
      ∃ s₁ s₂, S.Run pre s₁ ∧ S.step s₁ e s₂ := by
  induction h with
  | init _ => intro pre post e he; simp at he
  | step hr hst ih =>
    intro pre post e he
    rcases List.eq_nil_or_concat post with rfl | ⟨post', x, rfl⟩
    · obtain ⟨rfl, hx⟩ := List.append_inj' he rfl
      simp only [List.cons.injEq, and_true] at hx
      subst hx
      exact ⟨_, _, hr, hst⟩
    · rw [List.concat_eq_append, ← List.cons_append, ← List.append_assoc] at he
      exact ih pre post' e (List.append_inj' he rfl).1

/-- **Ledger rule.** What a step puts out, then what is held after it, is what
was held before, then what it takes in; so along every run what came out,
followed by what is held, is what went in. -/
theorem Run.ledger {β : Type*} (out inn : ε → List β) (hold : σ → List β)
    (hInit : ∀ s, S.init s → hold s = [])
    (hStep : ∀ s e s', S.Reachable s → S.step s e s' → out e ++ hold s' = hold s ++ inn e)
    {tr : List ε} {s : σ} (h : S.Run tr s) : tr.flatMap out ++ hold s = tr.flatMap inn := by
  induction h with
  | init hs => exact hInit _ hs
  | @step tr s s' e hr hst ih =>
    calc (tr ++ [e]).flatMap out ++ hold s'
        = tr.flatMap out ++ (out e ++ hold s') := by simp
      _ = tr.flatMap out ++ hold s ++ inn e := by
        rw [hStep s e s' ⟨tr, hr⟩ hst, List.append_assoc]
      _ = (tr ++ [e]).flatMap inn := by rw [ih]; simp

/-- The system whose steps are those of `S` that meet the condition `G` on the
state before the step and the event. -/
def restrict (S : System σ ε) (G : σ → ε → Prop) : System σ ε where
  init := S.init
  step s e s' := S.step s e s' ∧ G s e

theorem Run.of_restrict {G : σ → ε → Prop} {tr : List ε} {s : σ}
    (h : (S.restrict G).Run tr s) : S.Run tr s := by
  induction h with
  | init hs => exact .init hs
  | step _ hst ih => exact .step ih hst.1

/-- The system with a record of its events: `g₀` before the first one, and after
an event what `next` makes of it. -/
def record {γ : Type*} (S : System σ ε) (g₀ : γ) (next : γ → ε → γ) : System (σ × γ) ε where
  init p := S.init p.1 ∧ p.2 = g₀
  step p e p' := S.step p.1 e p'.1 ∧ p'.2 = next p.2 e

theorem Run.record {γ : Type*} {g₀ : γ} {next : γ → ε → γ} {tr : List ε} {s : σ}
    (h : S.Run tr s) : (S.record g₀ next).Run tr (s, tr.foldl next g₀) := by
  induction h with
  | init hs => exact .init ⟨hs, rfl⟩
  | step _ hst ih => exact .step ih ⟨hst, by rw [List.foldl_append]; rfl⟩

/-- The record restricts no run, and the trace says what it is. -/
theorem run_record_iff {γ : Type*} {g₀ : γ} {next : γ → ε → γ} {tr : List ε} {p : σ × γ} :
    (S.record g₀ next).Run tr p ↔ S.Run tr p.1 ∧ p.2 = tr.foldl next g₀ := by
  constructor
  · intro h
    induction h with
    | init hp => exact ⟨.init hp.1, hp.2⟩
    | step _ hst ih => exact ⟨.step ih.1 hst.1, by rw [hst.2, ih.2, List.foldl_append]; rfl⟩
  · rintro ⟨h, hp⟩
    obtain ⟨s, g⟩ := p
    obtain rfl : g = tr.foldl next g₀ := hp
    exact h.record

/-- The system started in a given state. -/
def startAt (S : System σ ε) (s : σ) : System σ ε where
  init t := t = s
  step := S.step

/-- A run goes on with a run from where it is. -/
theorem Run.append {tr es : List ε} {s s' : σ} (h : S.Run tr s) (h' : (S.startAt s).Run es s') :
    S.Run (tr ++ es) s' := by
  induction h' with
  | init ht =>
    obtain rfl := ht
    rw [List.append_nil]
    exact h
  | step _ hst ih =>
    rw [← List.append_assoc]
    exact .step ih hst

/-- Where a run began. -/
theorem Run.startAt {tr : List ε} {s : σ} (h : S.Run tr s) :
    ∃ s₀, S.init s₀ ∧ (S.startAt s₀).Run tr s := by
  induction h with
  | init hs => exact ⟨_, hs, .init rfl⟩
  | step _ hst ih =>
    obtain ⟨s₀, hs₀, h₀⟩ := ih
    exact ⟨s₀, hs₀, .step h₀ hst⟩

/-! ## Simulation -/

/-- What a step labelled `e` must be matched by, when `f` says which events of
the concrete system the abstract one sees. -/
def Matches {τ δ : Type*} (T : System τ δ) (R : τ → Prop) (f : ε → Option δ)
    (e : ε) (t : τ) : Prop :=
  match f e with
  | none => R t
  | some d => ∃ t', T.step t d t' ∧ R t'

/-- **Forward simulation.** -/
theorem Run.simulation {τ δ : Type*} {T : System τ δ} {R : List ε → σ → τ → Prop}
    {f : ε → Option δ}
    (hInit : ∀ s, S.init s → ∃ t, T.init t ∧ R [] s t)
    (hStep : ∀ tr s e s' t, S.Run tr s → R tr s t → S.step s e s' →
      Matches T (R (tr ++ [e]) s') f e t)
    {tr : List ε} {s : σ} (h : S.Run tr s) :
    ∃ t, T.Run (tr.filterMap f) t ∧ R tr s t := by
  induction h with
  | init hs =>
    obtain ⟨t, ht, hR⟩ := hInit _ hs
    exact ⟨t, .init ht, hR⟩
  | @step tr s s' e hr hst ih =>
    obtain ⟨t, hT, hR⟩ := ih
    have hm := hStep _ _ _ _ _ hr hR hst
    unfold Matches at hm
    cases he : f e with
    | none =>
      rw [he] at hm
      exact ⟨t, by simpa [List.filterMap_append, he] using hT, hm⟩
    | some d =>
      rw [he] at hm
      obtain ⟨t', hst', hR'⟩ := hm
      refine ⟨t', ?_, hR'⟩
      rw [List.filterMap_append, List.filterMap_cons_some he, List.filterMap_nil]
      exact .step hT hst'

/-- **Projection.** A simulation by a function of the state. -/
theorem Run.project {τ δ : Type*} {T : System τ δ} {g : σ → τ} {f : ε → Option δ}
    (hInit : ∀ s, S.init s → T.init (g s))
    (hStep : ∀ s e s', S.step s e s' → Matches T (fun t => t = g s') f e (g s))
    {tr : List ε} {s : σ} (h : S.Run tr s) : T.Run (tr.filterMap f) (g s) := by
  have hsim : ∃ t, T.Run (tr.filterMap f) t ∧ t = g s := by
    refine Run.simulation (R := fun _ s t => t = g s) ?_ ?_ h
    · intro s hs
      exact ⟨g s, hInit s hs, rfl⟩
    · rintro tr s e s' t - rfl hst
      exact hStep s e s' hst
  obtain ⟨t, hrun, rfl⟩ := hsim
  exact hrun

/-- A matching step of the abstract system that also meets a condition. -/
theorem Matches.restrict {τ δ : Type*} {T : System τ δ} {R : τ → Prop} {f : ε → Option δ} {e : ε}
    {t : τ} {K : τ → δ → Prop} (h : Matches T R f e t) (hK : ∀ d, f e = some d → K t d) :
    Matches (T.restrict K) R f e t := by
  unfold Matches at h ⊢
  cases hf : f e with
  | none =>
    rw [hf] at h
    exact h
  | some d =>
    rw [hf] at h
    obtain ⟨t', hst, hR⟩ := h
    exact ⟨t', ⟨hst, hK d hf⟩, hR⟩

end System

end Uartd.Lib
