import Uartd.Lib.Family
import Uartd.Lib.Progress

/-!
# Critical sections

Operations on data that one mutex protects. The code of an operation between
the lock and the unlock takes steps of its own (`Section`), and a thread may be
interrupted between any two of them: `Section.threads` interleaves any number
of threads that call operations, wait for the mutex, work, unlock and return.
`atomic T` is the same with each operation done in one step of `T`, at some
moment between its call and its return.

* `Section.linearizable` — where the code of each operation, undisturbed, does
  what `T` says and faults nowhere, every run of the threads is a run of
  `atomic T` with the same calls and the same results, the moment of an
  operation being its unlock; and no step faults;
* `run_of_atomic` — the operations, in the order of their moments, are a run
  of `T`;
* `called_eq`, `performed_eq` — each thread's operations happen in the order it
  called them, and each call returns what its operation gave;
* `Section.calls_return` — where each operation's code ends, all threads return
  if no further calls are made, whatever the scheduler does.
-/

namespace Uartd.Lib

/-- What a step inside a critical section comes to: a place to go on from and
the data then, or the result with which the section is left. -/
inductive Outcome (Loc Ret σ : Type*) where
  | go (l : Loc) (s : σ)
  | done (r : Ret)

/-- The code of operations between the lock and the unlock of one mutex. -/
structure Section (Op Loc Ret σ Err : Type*) where
  enter : Op → Loc
  step  : Op → Loc → σ → Except Err (Outcome Loc Ret σ)

/-- Where a thread is. -/
inductive Phase (Op Loc Ret : Type*) where
  | outside
  | waiting (op : Op)
  | inside (op : Op) (l : Loc)
  | leaving (op : Op) (r : Ret)

/-- Threads that share data and its mutex. -/
structure Threads (P Op Loc Ret σ : Type*) where
  phase : P → Phase Op Loc Ret
  owner : Option P
  data  : σ

inductive ThreadEvent (P Op Ret Err : Type*) where
  | call (p : P) (op : Op)
  | lock (p : P)
  | work (p : P)
  | unlock (p : P) (op : Op) (r : Ret)
  | fault (p : P) (e : Err)
  | ret (p : P) (op : Op) (r : Ret)

/-- Where a client of an atomic object is. -/
inductive Stage (Op Ret : Type*) where
  | idle
  | called (op : Op)
  | performed (op : Op) (r : Ret)

/-- The clients of an atomic object. -/
structure Clients (P Op Ret τ : Type*) where
  stage : P → Stage Op Ret
  data  : τ

inductive ClientEvent (P Op Ret : Type*) where
  | call (p : P) (op : Op)
  | perform (p : P) (op : Op) (r : Ret)
  | ret (p : P) (op : Op) (r : Ret)

variable {P Op Loc Ret σ τ δ Err : Type*} [DecidableEq P]

/-! ## The two systems -/

/-- A step of the threads. A thread calls only operations in `Legal`. -/
inductive Section.Step (C : Section Op Loc Ret σ Err) (Legal : Op → Prop) :
    Threads P Op Loc Ret σ → ThreadEvent P Op Ret Err → Threads P Op Loc Ret σ → Prop
  | call {s : Threads P Op Loc Ret σ} (p : P) (op : Op) : s.phase p = .outside → Legal op →
      Step C Legal s (.call p op) { s with phase := Function.update s.phase p (.waiting op) }
  | lock {s : Threads P Op Loc Ret σ} (p : P) (op : Op) : s.phase p = .waiting op →
      s.owner = none →
      Step C Legal s (.lock p)
        { s with phase := Function.update s.phase p (.inside op (C.enter op)), owner := some p }
  | work {s : Threads P Op Loc Ret σ} (p : P) (op : Op) (l l' : Loc) (d : σ) :
      s.phase p = .inside op l → C.step op l s.data = .ok (.go l' d) →
      Step C Legal s (.work p)
        { s with phase := Function.update s.phase p (.inside op l'), data := d }
  | unlock {s : Threads P Op Loc Ret σ} (p : P) (op : Op) (l : Loc) (r : Ret) :
      s.phase p = .inside op l → C.step op l s.data = .ok (.done r) →
      Step C Legal s (.unlock p op r)
        { s with phase := Function.update s.phase p (.leaving op r), owner := none }
  | fault {s : Threads P Op Loc Ret σ} (p : P) (op : Op) (l : Loc) (e : Err) :
      s.phase p = .inside op l → C.step op l s.data = .error e → Step C Legal s (.fault p e) s
  | ret {s : Threads P Op Loc Ret σ} (p : P) (op : Op) (r : Ret) : s.phase p = .leaving op r →
      Step C Legal s (.ret p op r) { s with phase := Function.update s.phase p .outside }

/-- The threads, all outside and the mutex free at first. -/
def Section.threads (C : Section Op Loc Ret σ Err) (Legal : Op → Prop) (Init : σ → Prop) (P : Type*)
    [DecidableEq P] : System (Threads P Op Loc Ret σ) (ThreadEvent P Op Ret Err) where
  init s := (∀ p, s.phase p = .outside) ∧ s.owner = none ∧ Init s.data
  step := C.Step Legal

/-- A step of the clients of an atomic object. -/
inductive AtomicStep (T : System τ δ) (label : Op → Ret → δ) :
    Clients P Op Ret τ → ClientEvent P Op Ret → Clients P Op Ret τ → Prop
  | call {c : Clients P Op Ret τ} (p : P) (op : Op) : c.stage p = .idle →
      AtomicStep T label c (.call p op) { c with stage := Function.update c.stage p (.called op) }
  | perform {c : Clients P Op Ret τ} (p : P) (op : Op) (r : Ret) (t : τ) :
      c.stage p = .called op → T.step c.data (label op r) t →
      AtomicStep T label c (.perform p op r)
        { c with stage := Function.update c.stage p (.performed op r), data := t }
  | ret {c : Clients P Op Ret τ} (p : P) (op : Op) (r : Ret) : c.stage p = .performed op r →
      AtomicStep T label c (.ret p op r) { c with stage := Function.update c.stage p .idle }

/-- An object whose operations are single steps of `T`, labelled by `label`. -/
def atomic (T : System τ δ) (label : Op → Ret → δ) (P : Type*) [DecidableEq P] :
    System (Clients P Op Ret τ) (ClientEvent P Op Ret) where
  init c := (∀ p, c.stage p = .idle) ∧ T.init c.data
  step := AtomicStep T label

/-! ## Operations of an atomic object -/

namespace ClientEvent

def performed? (label : Op → Ret → δ) : ClientEvent P Op Ret → Option δ
  | .perform _ op r => some (label op r)
  | _ => none

def calledBy (p : P) : ClientEvent P Op Ret → List Op
  | .call q op => if q = p then [op] else []
  | _ => []

def performedBy (p : P) : ClientEvent P Op Ret → List (Op × Ret)
  | .perform q op r => if q = p then [(op, r)] else []
  | _ => []

def returnedTo (p : P) : ClientEvent P Op Ret → List (Op × Ret)
  | .ret q op r => if q = p then [(op, r)] else []
  | _ => []

end ClientEvent

/-- The operation that is called and not yet performed. -/
def Stage.pending : Stage Op Ret → List Op
  | .called op => [op]
  | _ => []

/-- The operation that is performed and has not returned. -/
def Stage.result : Stage Op Ret → List (Op × Ret)
  | .performed op r => [(op, r)]
  | _ => []

section Atomic

variable {T : System τ δ} {label : Op → Ret → δ} {tr : List (ClientEvent P Op Ret)}
  {c : Clients P Op Ret τ}

/-- The operations in the order of their moments. -/
theorem run_of_atomic (h : (atomic T label P).Run tr c) :
    T.Run (tr.filterMap (ClientEvent.performed? label)) c.data := by
  refine System.Run.project (g := Clients.data) ?_ ?_ h
  · intro c hc
    exact hc.2
  · intro c e c' hst
    cases hst with
    | call p op hp => rfl
    | perform p op r t hp ht => exact ⟨t, ht, rfl⟩
    | ret p op r hp => rfl

/-- **What a thread called** is what it performed and what is pending, in order. -/
theorem called_eq (h : (atomic T label P).Run tr c) (p : P) :
    (tr.flatMap (ClientEvent.performedBy p)).map Prod.fst ++ (c.stage p).pending =
      tr.flatMap (ClientEvent.calledBy p) := by
  rw [List.map_flatMap]
  refine System.Run.ledger (S := atomic T label P)
    (fun e => (ClientEvent.performedBy p e).map Prod.fst) (ClientEvent.calledBy p)
    (fun c => (c.stage p).pending) ?_ ?_ h
  · intro c hc
    show (c.stage p).pending = []
    rw [hc.1 p]
    rfl
  · intro c e c' _ hst
    cases hst with
    | call q op hq =>
      by_cases hqp : q = p
      · subst hqp
        simp [ClientEvent.performedBy, ClientEvent.calledBy, hq, Stage.pending]
      · simp [ClientEvent.performedBy, ClientEvent.calledBy, hqp,
          Function.update_of_ne (Ne.symm hqp)]
    | perform q op r t hq ht =>
      by_cases hqp : q = p
      · subst hqp
        simp [ClientEvent.performedBy, ClientEvent.calledBy, hq, Stage.pending]
      · simp [ClientEvent.performedBy, ClientEvent.calledBy, hqp,
          Function.update_of_ne (Ne.symm hqp)]
    | ret q op r hq =>
      by_cases hqp : q = p
      · subst hqp
        simp [ClientEvent.performedBy, ClientEvent.calledBy, hq, Stage.pending]
      · simp [ClientEvent.performedBy, ClientEvent.calledBy,
          Function.update_of_ne (Ne.symm hqp)]

/-- **What a thread performed** is what returned to it and what is about to, in order. -/
theorem performed_eq (h : (atomic T label P).Run tr c) (p : P) :
    tr.flatMap (ClientEvent.returnedTo p) ++ (c.stage p).result =
      tr.flatMap (ClientEvent.performedBy p) := by
  refine System.Run.ledger (S := atomic T label P) (ClientEvent.returnedTo p)
    (ClientEvent.performedBy p) (fun c => (c.stage p).result) ?_ ?_ h
  · intro c hc
    show (c.stage p).result = []
    rw [hc.1 p]
    rfl
  · intro c e c' _ hst
    cases hst with
    | call q op hq =>
      by_cases hqp : q = p
      · subst hqp
        simp [ClientEvent.performedBy, ClientEvent.returnedTo, hq, Stage.result]
      · simp [ClientEvent.performedBy, ClientEvent.returnedTo,
          Function.update_of_ne (Ne.symm hqp)]
    | perform q op r t hq ht =>
      by_cases hqp : q = p
      · subst hqp
        simp [ClientEvent.performedBy, ClientEvent.returnedTo, hq, Stage.result]
      · simp [ClientEvent.performedBy, ClientEvent.returnedTo, hqp,
          Function.update_of_ne (Ne.symm hqp)]
    | ret q op r hq =>
      by_cases hqp : q = p
      · subst hqp
        simp [ClientEvent.performedBy, ClientEvent.returnedTo, hq, Stage.result]
      · simp [ClientEvent.performedBy, ClientEvent.returnedTo, hqp,
          Function.update_of_ne (Ne.symm hqp)]

end Atomic

/-! ## The code of an operation, undisturbed -/

namespace Section

/-- The places an operation comes to from the data `s₀`, and the data there. -/
inductive At (C : Section Op Loc Ret σ Err) (op : Op) (s₀ : σ) : Loc → σ → Prop
  | enter : At C op s₀ (C.enter op) s₀
  | go {l l' : Loc} {s s' : σ} : At C op s₀ l s → C.step op l s = .ok (.go l' s') →
      At C op s₀ l' s'

/-- The code of `C` does what `T` says, on the data that `R` relates to a state of `T`. -/
structure Implements (C : Section Op Loc Ret σ Err) (Legal : Op → Prop) (Init : σ → Prop)
    (T : System τ δ) (label : Op → Ret → δ) (R : σ → τ → Prop) : Prop where
  init    : ∀ s, Init s → ∃ t, T.init t ∧ R s t
  goesOn  : ∀ op s₀ t l s, Legal op → R s₀ t → C.At op s₀ l s → ∃ o, C.step op l s = .ok o
  does    : ∀ op s₀ t l s r, Legal op → R s₀ t → C.At op s₀ l s → C.step op l s = .ok (.done r) →
    ∃ t', T.step t (label op r) t' ∧ R s t'

end Section

/-- The stage of a thread, seen from outside. -/
def Phase.stage : Phase Op Loc Ret → Stage Op Ret
  | .outside => .idle
  | .waiting op => .called op
  | .inside op _ => .called op
  | .leaving op r => .performed op r

/-- The moment of an operation is its unlock. -/
def ThreadEvent.seen : ThreadEvent P Op Ret Err → Option (ClientEvent P Op Ret)
  | .call p op => some (.call p op)
  | .unlock p op r => some (.perform p op r)
  | .ret p op r => some (.ret p op r)
  | _ => none

namespace Section

variable {C : Section Op Loc Ret σ Err} {Legal : Op → Prop} {Init : σ → Prop} {T : System τ δ}
  {label : Op → Ret → δ} {R : σ → τ → Prop}

/-- What holds between the threads and the clients of the atomic object. The data
is the object's while the mutex is free; the owner of the mutex is on its way
through an operation that began on such data. -/
structure Linked (C : Section Op Loc Ret σ Err) (Legal : Op → Prop) (R : σ → τ → Prop)
    (s : Threads P Op Loc Ret σ) (c : Clients P Op Ret τ) : Prop where
  stage  : ∀ p, c.stage p = (s.phase p).stage
  legal  : ∀ p op, (s.phase p).stage = .called op → Legal op
  free   : s.owner = none → R s.data c.data
  owner  : ∀ p op l, s.phase p = .inside op l → s.owner = some p
  holds  : ∀ p, s.owner = some p → ∃ op l s₀, s.phase p = .inside op l ∧ R s₀ c.data ∧
    C.At op s₀ l s.data

omit [DecidableEq P] in
/-- At most one thread is inside. -/
theorem Linked.one {s : Threads P Op Loc Ret σ} {c : Clients P Op Ret τ} (h : Linked C Legal R s c)
    {p q : P} {op op' : Op} {l l' : Loc} (hp : s.phase p = .inside op l)
    (hq : s.phase q = .inside op' l') : p = q :=
  Option.some.inj ((h.owner p op l hp).symm.trans (h.owner q op' l' hq))

omit [DecidableEq P] in
/-- The thread inside, and where its operation began. -/
theorem Linked.inside {s : Threads P Op Loc Ret σ} {c : Clients P Op Ret τ}
    (h : Linked C Legal R s c) {p : P} {op : Op} {l : Loc} (hp : s.phase p = .inside op l) :
    Legal op ∧ ∃ s₀, R s₀ c.data ∧ C.At op s₀ l s.data := by
  obtain ⟨op', l', s₀, hp', hR, hat⟩ := h.holds p (h.owner p op l hp)
  rw [hp] at hp'
  obtain ⟨rfl, rfl⟩ := Phase.inside.inj hp'
  exact ⟨h.legal p op (by rw [hp]; rfl), s₀, hR, hat⟩

theorem stage_update {s : Threads P Op Loc Ret σ} {c : Clients P Op Ret τ}
    (h : ∀ p, c.stage p = (s.phase p).stage) (p : P) (ph : Phase Op Loc Ret) (q : P) :
    Function.update c.stage p ph.stage q = (Function.update s.phase p ph q).stage := by
  by_cases hqp : q = p
  · subst hqp
    rw [Function.update_self, Function.update_self]
  · rw [Function.update_of_ne hqp, Function.update_of_ne hqp, h q]

/-- A move that the object does not see. -/
theorem stage_update_same {s : Threads P Op Loc Ret σ} {c : Clients P Op Ret τ}
    (h : ∀ p, c.stage p = (s.phase p).stage) {p : P} {ph : Phase Op Loc Ret}
    (hp : (s.phase p).stage = ph.stage) (q : P) :
    c.stage q = (Function.update s.phase p ph q).stage := by
  by_cases hqp : q = p
  · subst hqp
    rw [Function.update_self, h q, hp]
  · rw [Function.update_of_ne hqp, h q]

/-- A thread that is called something after a move was so before, or it is the one that moved. -/
theorem legal_update {s : Threads P Op Loc Ret σ}
    (h : ∀ p op, (s.phase p).stage = .called op → Legal op) {p : P} {ph : Phase Op Loc Ret}
    (hp : ∀ op, ph.stage = .called op → Legal op) (q : P) (op : Op)
    (hq : (Function.update s.phase p ph q).stage = .called op) : Legal op := by
  by_cases hqp : q = p
  · subst hqp
    rw [Function.update_self] at hq
    exact hp op hq
  · rw [Function.update_of_ne hqp] at hq
    exact h q op hq

/-- A step of the threads, and how the object follows. -/
theorem Linked.step (hC : C.Implements Legal Init T label R) {s s' : Threads P Op Loc Ret σ}
    {c : Clients P Op Ret τ} {e : ThreadEvent P Op Ret Err} (h : Linked C Legal R s c)
    (hst : C.Step Legal s e s') :
    System.Matches (atomic T label P) (Linked C Legal R s') ThreadEvent.seen e c := by
  cases hst with
  | call p op hp hlegal =>
    refine ⟨_, .call p op (by rw [h.stage p, hp]; rfl), ?_⟩
    refine ⟨stage_update h.stage p (.waiting op), legal_update h.legal ?_, h.free, ?_, ?_⟩
    · intro op' hop
      obtain rfl := Stage.called.inj hop
      exact hlegal
    · intro q op' l hq
      rcases update_eq_cases hq with ⟨-, hph⟩ | ⟨-, hph⟩
      · cases hph
      · exact h.owner q op' l hph
    · intro q hq
      obtain ⟨op', l, s₀, hin, hR, hat⟩ := h.holds q hq
      have hqp : q ≠ p := by
        rintro rfl
        rw [hp] at hin
        cases hin
      exact ⟨op', l, s₀, by rw [← hin]; exact Function.update_of_ne hqp _ _, hR, hat⟩
  | lock p op hp hfree =>
    refine ⟨stage_update_same h.stage (by rw [hp]; rfl), legal_update h.legal ?_, ?_, ?_, ?_⟩
    · intro op' hop
      obtain rfl := Stage.called.inj hop
      exact h.legal p op (by rw [hp]; rfl)
    · intro hnone
      cases hnone
    · intro q op' l hq
      rcases update_eq_cases hq with ⟨rfl, -⟩ | ⟨-, hph⟩
      · rfl
      · -- nobody was inside
        have howner := h.owner q op' l hph
        rw [hfree] at howner
        cases howner
    · intro q hq
      obtain rfl : p = q := Option.some.inj hq
      exact ⟨op, C.enter op, s.data, Function.update_self .., h.free hfree, .enter⟩
  | work p op l l' d hp hgo =>
    refine ⟨stage_update_same h.stage (by rw [hp]; rfl), legal_update h.legal ?_, ?_, ?_, ?_⟩
    · intro op' hop
      obtain rfl := Stage.called.inj hop
      exact h.legal p op (by rw [hp]; rfl)
    · intro hnone
      have howner := h.owner p op l hp
      rw [show s.owner = none from hnone] at howner
      cases howner
    · intro q op' l₁ hq
      rcases update_eq_cases hq with ⟨rfl, -⟩ | ⟨-, hph⟩
      · exact h.owner q op l hp
      · exact h.owner q op' l₁ hph
    · intro q hq
      obtain rfl : p = q :=
        Option.some.inj ((h.owner p op l hp).symm.trans (show s.owner = some q from hq))
      obtain ⟨-, s₀, hR, hat⟩ := h.inside hp
      exact ⟨op, l', s₀, Function.update_self .., hR, .go hat hgo⟩
  | unlock p op l r hp hdone =>
    obtain ⟨hlegal, s₀, hR, hat⟩ := h.inside hp
    obtain ⟨t', ht', hR'⟩ := hC.does op s₀ c.data l s.data r hlegal hR hat hdone
    refine ⟨_, .perform p op r t' (by rw [h.stage p, hp]; rfl) ht', ?_⟩
    refine ⟨stage_update h.stage p (.leaving op r), legal_update h.legal ?_, fun _ => hR', ?_, ?_⟩
    · intro op' hop
      cases hop
    · intro q op' l' hq
      rcases update_eq_cases hq with ⟨-, hph⟩ | ⟨hqp, hph⟩
      · cases hph
      · exact absurd (h.one hph hp) hqp
    · intro q hq
      cases hq
  | fault p op l e hp he =>
    obtain ⟨hlegal, s₀, hR, hat⟩ := h.inside hp
    obtain ⟨o, ho⟩ := hC.goesOn op s₀ c.data l s.data hlegal hR hat
    rw [he] at ho
    cases ho
  | ret p op r hp =>
    refine ⟨_, .ret p op r (by rw [h.stage p, hp]; rfl), ?_⟩
    refine ⟨stage_update h.stage p .outside, legal_update h.legal ?_, h.free, ?_, ?_⟩
    · intro op' hop
      cases hop
    · intro q op' l hq
      rcases update_eq_cases hq with ⟨-, hph⟩ | ⟨-, hph⟩
      · cases hph
      · exact h.owner q op' l hph
    · intro q hq
      obtain ⟨op', l, s₀, hin, hR, hat⟩ := h.holds q hq
      have hqp : q ≠ p := by
        rintro rfl
        rw [hp] at hin
        cases hin
      exact ⟨op', l, s₀, by rw [← hin]; exact Function.update_of_ne hqp _ _, hR, hat⟩

variable {tr : List (ThreadEvent P Op Ret Err)} {s : Threads P Op Loc Ret σ}

/-- **Operations under one mutex are atomic.** -/
theorem linearizable (hC : C.Implements Legal Init T label R)
    (h : (C.threads Legal Init P).Run tr s) :
    ∃ c, (atomic T label P).Run (tr.filterMap ThreadEvent.seen) c ∧ Linked C Legal R s c := by
  refine System.Run.simulation (R := fun _ s c => Linked C Legal R s c) ?_ ?_ h
  · rintro s ⟨hout, hfree, hinit⟩
    obtain ⟨t, ht, hR⟩ := hC.init s.data hinit
    refine ⟨⟨fun _ => .idle, t⟩, ⟨fun _ => rfl, ht⟩, ?_, ?_, fun _ => hR, ?_, ?_⟩
    · intro p
      rw [hout p]
      rfl
    · intro p op hop
      rw [hout p] at hop
      cases hop
    · intro p op l hp
      rw [hout p] at hp
      cases hp
    · intro p hp
      rw [hfree] at hp
      cases hp
  · intro tr s e s' c _ hlinked hst
    exact hlinked.step hC hst

/-- No step inside faults. -/
theorem no_fault (hC : C.Implements Legal Init T label R) (h : (C.threads Legal Init P).Run tr s)
    (p : P) (e : Err) : .fault p e ∉ tr := by
  intro hmem
  obtain ⟨pre, post, rfl⟩ := List.append_of_mem hmem
  obtain ⟨s₁, s₂, hpre, hst⟩ := h.at_event pre post _ rfl
  obtain ⟨c, -, hlinked⟩ := linearizable hC hpre
  cases hst with
  | fault p op l e hp he =>
    obtain ⟨hlegal, s₀, hR, hat⟩ := hlinked.inside hp
    obtain ⟨o, ho⟩ := hC.goesOn op s₀ c.data l s₁.data hlegal hR hat
    rw [he] at ho
    cases ho

/-! ## Every call returns -/

/-- The steps a thread has before it is outside again, where `cost` bounds those inside. -/
def todo (C : Section Op Loc Ret σ Err) (cost : Op → Loc → ℕ) : Phase Op Loc Ret → ℕ
  | .outside => 0
  | .waiting op => cost op (C.enter op) + 3
  | .inside op l => cost op l + 2
  | .leaving _ _ => 1

/-- A step that is not a new call. -/
def NoCall (_ : Threads P Op Loc Ret σ) (e : ThreadEvent P Op Ret Err)
    (_ : Threads P Op Loc Ret σ) : Prop := ∀ p op, e ≠ .call p op

/-- All threads are outside. -/
def Quiet (s : Threads P Op Loc Ret σ) : Prop := ∀ p, s.phase p = .outside

/-- A thread that is not outside: the owner of the mutex can go on, or the thread itself. -/
theorem Linked.moves (hC : C.Implements Legal Init T label R) {s : Threads P Op Loc Ret σ}
    {c : Clients P Op Ret τ} (h : Linked C Legal R s c) (hbusy : ¬ Quiet s) :
    ∃ e s', C.Step Legal s e s' ∧ NoCall s e s' := by
  cases howner : s.owner with
  | some p =>
    obtain ⟨op, l, s₀, hp, hR, hat⟩ := h.holds p howner
    obtain ⟨o, ho⟩ := hC.goesOn op s₀ c.data l s.data (h.inside hp).1 hR hat
    cases o with
    | go l' d => exact ⟨_, _, .work p op l l' d hp ho, nofun⟩
    | done r => exact ⟨_, _, .unlock p op l r hp ho, nofun⟩
  | none =>
    simp only [Quiet, not_forall] at hbusy
    obtain ⟨p, hp⟩ := hbusy
    cases hphase : s.phase p with
    | outside => exact absurd hphase hp
    | waiting op => exact ⟨_, _, .lock p op hphase howner, nofun⟩
    | inside op l =>
      have hin := h.owner p op l hphase
      rw [howner] at hin
      cases hin
    | leaving op r => exact ⟨_, _, .ret p op r hphase, nofun⟩

variable [Fintype P]

/-- A step that is not a new call leaves less to do. -/
theorem todo_lt {cost : Op → Loc → ℕ}
    (hcost : ∀ op l s l' s', C.step op l s = .ok (.go l' s') → cost op l' < cost op l)
    {s s' : Threads P Op Loc Ret σ} {e : ThreadEvent P Op Ret Err} (hst : C.Step Legal s e s')
    (hcall : NoCall s e s') (hfault : ∀ p x, e ≠ .fault p x) :
    total (todo C cost) s'.phase < total (todo C cost) s.phase := by
  have hmove : ∀ p ph, todo C cost ph < todo C cost (s.phase p) →
      total (todo C cost) (Function.update s.phase p ph) <
        total (todo C cost) s.phase := by
    intro p ph hlt
    have htotal := total_update (w := todo C cost) (f := s.phase) p ph
    omega
  cases hst with
  | call p op _ _ => exact absurd rfl (hcall p op)
  | lock p op hp _ =>
    refine hmove p _ ?_
    rw [hp]
    simp [todo]
  | work p op l l' d hp hgo =>
    refine hmove p _ ?_
    rw [hp]
    simpa [todo] using hcost op l s.data l' d hgo
  | unlock p op l r hp _ =>
    refine hmove p _ ?_
    rw [hp]
    simp [todo]
  | fault p op l x _ _ => exact absurd rfl (hfault p x)
  | ret p op r hp =>
    refine hmove p _ ?_
    rw [hp]
    simp [todo]

/-- **Every call returns**, however the threads are scheduled, if no further calls
are made. -/
theorem calls_return (hC : C.Implements Legal Init T label R) {cost : Op → Loc → ℕ}
    (hcost : ∀ op l s l' s', C.step op l s = .ok (.go l' s') → cost op l' < cost op l)
    (h : (C.threads Legal Init P).Run tr s) :
    System.Inevitable (C.threads Legal Init P) NoCall Quiet s := by
  refine System.inevitable_of_variant (I := (C.threads Legal Init P).Reachable)
    (fun s => total (todo C cost) s.phase) ?_ ?_ ?_ ⟨tr, h⟩
  · rintro s e s' ⟨tr, hrun⟩ hst
    exact ⟨_, hrun.step hst⟩
  · rintro s e s' ⟨tr, hrun⟩ - hst hcall
    refine todo_lt hcost hst hcall fun p x he => ?_
    subst he
    exact no_fault hC (hrun.step hst) p x (List.mem_append_right _ (List.mem_singleton_self _))
  · rintro s ⟨tr, hrun⟩ hbusy
    obtain ⟨c, -, hlinked⟩ := linearizable hC hrun
    exact hlinked.moves hC hbusy

end Section

end Uartd.Lib
