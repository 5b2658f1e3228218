import Mathlib.Data.Multiset.Count
import Uartd.Receive.Basic

/-!
# Uartd — the threads of the receive side and the pool

The main loop and the handlers move in step with the pool inside (`ThreadsInv`):
the main thread is in a call of `threadpool_add_job` only where its program
point says so, and a worker is inside a handler only while it runs a callback,
at one of the program points of that callback.
-/

namespace Uartd.Receive

open Uartd.Lib Uartd.ThreadPool

variable {n queueMaxNum : ℕ} {needSockServer : Bool}

/-! ## Jobs by their function -/

/-- How many of some jobs call `f`. -/
def jobsOf (f : Callback) (js : Multiset (Callback × Arg)) : ℕ := js.countP fun j => j.1 = f

theorem jobsOf_add (f : Callback) (js js' : Multiset (Callback × Arg)) :
    jobsOf f (js + js') = jobsOf f js + jobsOf f js' :=
  Multiset.countP_add _ _ _

theorem jobsOf_ofOption (f g : Callback) (a : Arg) :
    jobsOf f (ofOption (some (g, a))) = if g = f then 1 else 0 := by
  show Multiset.countP _ {(g, a)} = _
  rw [← Multiset.cons_zero, Multiset.countP_cons, Multiset.countP_zero, zero_add]

/-- A step of the pool, and the jobs for `f` on their way. -/
theorem jobsOf_step (f : Callback) {p p' : ThreadPool.State n Unit Callback Arg}
    {e : ThreadPool.Event n Unit Callback Arg} {q : List (Entry Callback Arg)}
    (h : Inv queueMaxNum p q) (hst : ThreadPool.Step p e p') :
    ∃ q', Inv queueMaxNum p' q' ∧
      jobsOf f (pendingJobs p' q') + jobsOf f (ofOption e.started?) +
          jobsOf f (ofOption e.refused?) =
        jobsOf f (pendingJobs p q) + jobsOf f (ofOption e.called?) := by
  obtain ⟨q', hinv, hstep⟩ := pendingJobs_step h hst
  have hcount := congrArg (jobsOf f) hstep
  simp only [jobsOf_add] at hcount
  exact ⟨q', hinv, hcount⟩

/-! ## Program points -/

/-- The callback worker `w` is in. -/
def State.callback? (s : State n) (w : Fin n) : Option Callback :=
  (s.pool.worker w).callback?

/-- The program points of a callback. -/
def Callback.At : Callback → HandlerPc → Prop
  | .dataProcess, pc | .sendOutHandler, pc => pc = .serving
  | .initDataToBtOnstart, pc => pc = .returning
  | .uartConnectHandler, pc =>
    match pc with
    | .wholeRead _ | .toAdd _ | .toInsert _ | .toSignal | .returning => True
    | _ => False
  | .pipeConnectHandler, pc =>
    match pc with
    | .toRead fd => fd = .pipe
    | .toInsert _ | .toSignal | .returning => True
    | _ => False
  | .sockAcceptHandler, pc =>
    match pc with
    | .toAccept | .returning => True
    | _ => False
  | .sockRecvHandler, pc =>
    match pc with
    | .toLoad _ | .toRead _ | .toInsert _ | .toSignal | .returning => True
    | _ => False

structure ThreadsInv (s : State n) : Prop where
  idle    : ∀ w, s.callback? w = none → s.handler w = .idle
  inside  : ∀ w f, s.callback? w = some f → f.At (s.handler w)
  outside : (∀ next, s.main ≠ .calling next) → s.pool.producer () = .outside

theorem ThreadsInv.callback_ne {s : State n} (h : ThreadsInv s) {w : Fin n} {f : Callback}
    (hat : ¬ f.At (s.handler w)) : s.callback? w ≠ some f :=
  fun hf => hat (h.inside w f hf)

/-- The jobs of the start-up watch no descriptor. -/
theorem startJobs_ne {k : ℕ} {f : Callback} (h : startJobs[k]? = some f) :
    f ≠ .uartConnectHandler ∧ f ≠ .pipeConnectHandler := by
  have hmem := List.mem_of_getElem? h
  constructor
  · rintro rfl
    exact absurd hmem (by decide)
  · rintro rfl
    exact absurd hmem (by decide)

theorem entry_at {f : Callback} {a : Arg} {pc : HandlerPc} (h : f.entry a = some pc) : f.At pc := by
  cases f with
  | sockRecvHandler =>
    obtain ⟨i, -, rfl⟩ := Option.map_eq_some_iff.mp h
    trivial
  | _ =>
    simp only [Callback.entry, Option.some.injEq] at h
    subst h
    simp [Callback.At]

/-- A callback that does not serve forever returns. -/
theorem at_returning {f : Callback} {pc : HandlerPc} (h : f.At pc) (hpc : pc ≠ .serving) :
    f.At .returning := by
  cases f with
  | dataProcess | sendOutHandler => exact absurd h hpc
  | initDataToBtOnstart => rfl
  | _ => trivial

/-- After its read a handler has a message to insert, or returns. -/
theorem at_afterRead {f : Callback} (hinsert : ∀ m, f.At (.toInsert m)) (hreturn : f.At .returning)
    (fd : Fd) (data : List InputByte) : f.At (afterRead fd data) := by
  unfold afterRead
  split
  · exact hreturn
  · exact hinsert _

/-- A step of one handler. -/
theorem ThreadsInv.handler {s : State n} (h : ThreadsInv s) {w : Fin n} {pc pc' : HandlerPc}
    (hpc : s.handler w = pc) (hw : pc ≠ .idle) (hat : ∀ f : Callback, f.At pc → f.At pc')
    {interest : Fd → Option Trigger} {input : Fd → Input} :
    ThreadsInv { s with
      interest := interest, input := input, handler := Function.update s.handler w pc' } := by
  subst hpc
  refine ⟨fun x hx => ?_, fun x f hx => ?_, h.outside⟩
  · have hxw : x ≠ w := by
      rintro rfl
      exact hw (h.idle x hx)
    exact (Function.update_of_ne hxw _ _).trans (h.idle x hx)
  · show f.At (Function.update s.handler w pc' x)
    by_cases hxw : x = w
    · rw [hxw, Function.update_self]
      exact hat f (hxw ▸ h.inside x f hx)
    · rw [Function.update_of_ne hxw]
      exact h.inside x f hx

section Pool

variable {s : State n} {pool' : ThreadPool.State n Unit Callback Arg}
  {e : ThreadPool.Event n Unit Callback Arg}

/-- A step of the pool that neither starts nor finishes a callback. -/
theorem callback_other (hst : ThreadPool.Step s.pool e pool') (hstart : ∀ w f a, e ≠ .start w f a)
    (hfinish : ∀ w f a, e ≠ .finish w f a) :
    (fun x => (pool'.worker x).callback?) = s.callback? := by
  funext x
  rcases callback_step hst x with hsame | ⟨f, a, he, -⟩ | ⟨f, a, he, -⟩
  · exact hsame
  · exact absurd he (hstart x f a)
  · exact absurd he (hfinish x f a)

theorem callback_start {w : Fin n} {f : Callback} {a : Arg}
    (hst : ThreadPool.Step s.pool (.start w f a) pool') :
    (fun x => (pool'.worker x).callback?) = Function.update s.callback? w (some f) := by
  funext x
  by_cases hx : x = w
  · subst hx
    rw [Function.update_self]
    exact (callback_of_start hst).2
  · rw [Function.update_of_ne hx]
    rcases callback_step hst x with hsame | ⟨f', a', he, -⟩ | ⟨f', a', he, -⟩
    · exact hsame
    · cases he
      exact absurd rfl hx
    · cases he

theorem callback_finish {w : Fin n} {f : Callback} {a : Arg}
    (hst : ThreadPool.Step s.pool (.finish w f a) pool') :
    (fun x => (pool'.worker x).callback?) = Function.update s.callback? w none := by
  funext x
  by_cases hx : x = w
  · subst hx
    rw [Function.update_self]
    exact callback_of_finish hst
  · rw [Function.update_of_ne hx]
    rcases callback_step hst x with hsame | ⟨f', a', he, -⟩ | ⟨f', a', he, -⟩
    · exact hsame
    · cases he
    · cases he
      exact absurd rfl hx

/-- A step of the pool outside the callbacks. -/
theorem ThreadsInv.poolStep (h : ThreadsInv s) (hst : ThreadPool.Step s.pool e pool')
    (hstart : ∀ w f a, e ≠ .start w f a) (hfinish : ∀ w f a, e ≠ .finish w f a) {main' : MainPc}
    (hmain : (∀ next, main' ≠ .calling next) → pool'.producer () = .outside) :
    ThreadsInv { s with pool := pool', main := main' } := by
  have hsame := congrFun (callback_other hst hstart hfinish)
  exact ⟨fun x hx => h.idle x ((hsame x).symm.trans hx),
    fun x f hx => h.inside x f ((hsame x).symm.trans hx), hmain⟩

end Pool

/-- **Step lemma.** -/
theorem threadsInv_step {s s' : State n} {e : Event n} (h : ThreadsInv s)
    (hst : Step needSockServer s e s') : ThreadsInv s' := by
  -- the main loop outside a call
  have hmove : ∀ {main' : MainPc}, (∀ next, s.main ≠ .calling next) →
      ThreadsInv { s with main := main' } :=
    fun hmain => ⟨h.idle, h.inside, fun _ => h.outside hmain⟩
  cases hst with
  | startJob hmain hjob hpool =>
    exact h.poolStep hpool (by simp) (by simp) fun hcalling => absurd rfl (hcalling _)
  | started hmain _ => exact hmove (by simp [hmain])
  | epollWait batch hmain _ _ _ => exact ⟨h.idle, h.inside, fun _ => h.outside (by simp [hmain])⟩
  | del hmain _ _ => exact ⟨h.idle, h.inside, fun _ => h.outside (by simp [hmain])⟩
  | uartJob hmain hpool =>
    exact h.poolStep hpool (by simp) (by simp) fun hcalling => absurd rfl (hcalling _)
  | job hmain _ _ _ hpool =>
    exact h.poolStep hpool (by simp) (by simp) fun hcalling => absurd rfl (hcalling _)
  | nothing hmain _ _ => exact hmove (by simp [hmain])
  | loopEnd hmain _ => exact hmove (by simp [hmain])
  | jobAdded hmain hpool =>
    exact h.poolStep hpool (by simp) (by simp) fun _ => outside_of_addRet hpool
  | @pool e pool' hown hpool _ =>
    refine h.poolStep hpool ?_ ?_ fun (hcalling : ∀ next, s.main ≠ .calling next) => ?_
    · rintro w f a rfl
      exact hown
    · rintro w f a rfl
      exact hown
    · rcases outside_step hpool (h.outside hcalling) with hout | ⟨f, a, rfl⟩
      · exact hout
      · exact hown.elim
  | @start w f a pc pool' hpool hentry =>
    have hcallback := congrFun (callback_start hpool)
    refine ⟨fun x hx => ?_, fun x f' hx => ?_, fun hcalling => ?_⟩
    · have hnow := (hcallback x).symm.trans hx
      by_cases hxw : x = w
      · rw [hxw, Function.update_self] at hnow
        cases hnow
      · rw [Function.update_of_ne hxw] at hnow
        exact (Function.update_of_ne hxw _ _).trans (h.idle x hnow)
    · have hnow := (hcallback x).symm.trans hx
      show f'.At (Function.update s.handler w pc x)
      by_cases hxw : x = w
      · rw [hxw, Function.update_self] at hnow ⊢
        cases hnow
        exact entry_at hentry
      · rw [Function.update_of_ne hxw] at hnow ⊢
        exact h.inside x f' hnow
    · rcases outside_step hpool (h.outside hcalling) with hout | ⟨f', a', he⟩
      · exact hout
      · cases he
  | @finish w f a pool' hpc hpool =>
    have hcallback := congrFun (callback_finish hpool)
    refine ⟨fun x hx => ?_, fun x f' hx => ?_, fun hcalling => ?_⟩
    · by_cases hxw : x = w
      · rw [hxw]
        exact Function.update_self _ _ _
      · have hnow := (hcallback x).symm.trans hx
        rw [Function.update_of_ne hxw] at hnow
        exact (Function.update_of_ne hxw _ _).trans (h.idle x hnow)
    · have hnow := (hcallback x).symm.trans hx
      show f'.At (Function.update s.handler w .idle x)
      by_cases hxw : x = w
      · rw [hxw, Function.update_self] at hnow
        cases hnow
      · rw [Function.update_of_ne hxw] at hnow ⊢
        exact h.inside x f' hnow
    · rcases outside_step hpool (h.outside hcalling) with hout | ⟨f', a', he⟩
      · exact hout
      · cases he
  | uartStore w _ hpc _ _ | uartBreak w _ hpc _ _ =>
    refine h.handler hpc nofun fun f hf => ?_
    cases f with
    | dataProcess | sendOutHandler | initDataToBtOnstart => cases hf
    | _ => exact hf
  | add w hpc =>
    refine h.handler hpc nofun fun f hf => ?_
    cases f with
    | uartConnectHandler =>
      exact at_afterRead (f := .uartConnectHandler) (fun _ => trivial) trivial _ _
    | _ => cases hf
  | load w hpc =>
    refine h.handler hpc nofun fun f hf => ?_
    cases f with
    | sockRecvHandler => trivial
    | _ => cases hf
  | read w hpc _ =>
    refine h.handler hpc nofun fun f hf => ?_
    cases f with
    | pipeConnectHandler =>
      exact at_afterRead (f := .pipeConnectHandler) (fun _ => trivial) trivial _ _
    | sockRecvHandler =>
      exact at_afterRead (f := .sockRecvHandler) (fun _ => trivial) trivial _ _
    | _ => cases hf
  | readListening w hpc =>
    refine h.handler hpc nofun fun f hf => ?_
    cases f with
    | sockRecvHandler => trivial
    | _ => cases hf
  | accept w k hpc _ _ _ => exact h.handler hpc nofun fun f hf => at_returning hf nofun
  | insert w hpc =>
    refine h.handler hpc nofun fun f hf => ?_
    cases f with
    | dataProcess | sendOutHandler | initDataToBtOnstart => cases hf
    | _ => exact hf
  | acceptFailed w hpc | initNodeFailed w hpc | signal w hpc =>
    exact h.handler hpc nofun fun f hf => at_returning hf nofun
  | arrive fd bytes => exact ⟨h.idle, h.inside, h.outside⟩

/-- **Run lemma.** -/
theorem run_threadsInv {tr : List (Event n)} {s : State n}
    (h : (receiveSystem n queueMaxNum needSockServer).Run tr s) : ThreadsInv s := by
  refine System.Run.state_invariant (I := ThreadsInv) ?_ ?_ h
  · rintro s ⟨events, rfl⟩
    refine ⟨fun _ _ => rfl, fun w f hw => ?_, fun _ => rfl⟩
    simp [epollStart, State.callback?, threadpoolInit, WorkerPc.callback?] at hw
  · intro s e s' _ hinv hst
    exact threadsInv_step hinv hst

end Uartd.Receive
