import Uartd.Receive.Servers
import Uartd.Receive.WholeRead
import Uartd.ThreadPool.Progress

/-!
# Uartd — the main loop and the number of workers

`threadpool_init(5, 10)`: two of the workers are taken for good by
`data_process` and `send_out_handler`, and the queue is bounded, so the main loop
can block in `threadpool_add_job`. Whether it always gets back to `epoll_wait`
depends on the number of workers alone (`main_loop_returns_iff`):

* with three workers one is left for the handlers, which all return
  (`own_step_of_busy`), and every step brings the loop closer (`work_step`);
* with two the jobs of the loop stay on the queue until it is full, and then the
  loop sleeps for good (`Blocked`).

`init_data_to_bt_onstart` is taken to return; one that does not costs another
worker.
-/

namespace Uartd.Receive

open Uartd.Lib Uartd.ThreadPool

variable {n queueMaxNum : ℕ} {needSockServer : Bool}

/-! ## The measure -/

/-- What a call of `threadpool_add_job` stands for: what it puts into the pool,
and its own return. -/
def callWork (n : ℕ) : ℕ := 8 * (jobWork 1 + n + 2) + 2

def MainPc.work (n : ℕ) : MainPc → ℕ
  | .starting k => (startJobs.length - k) * callWork n + 1
  | .waiting => 0
  | .handling i nfds => (nfds - i) * (callWork n + 1) + 1
  | .removed i nfds => (nfds - (i + 1)) * (callWork n + 1) + callWork n + 1
  | .calling next => next.work n + 1

def HandlerPc.work : HandlerPc → ℕ
  | .idle | .serving => 0
  | .returning => 1
  | .toSignal | .toAccept => 2
  | .toInsert _ => 3
  | .toAdd _ | .toRead _ => 4
  | .wholeRead _ | .toLoad _ => 5

/-- The steps left to the threads, while no more input arrives. -/
def State.work (s : State n) : ℕ :=
  8 * s.pool.work + s.main.work n + total HandlerPc.work s.handler +
    (s.input .uart).unread.length

/-- What the threads do by themselves: no input arrives, and nobody wakes up for
no reason. -/
def OwnStep (s : State n) (e : Event n) (s' : State n) : Prop :=
  (∀ fd bytes, e ≠ .arrive fd bytes) ∧ ∀ pe, e = .pool pe → ¬ Spurious s.pool s'.pool

theorem work_afterRead (fd : Fd) (data : List InputByte) : (afterRead fd data).work ≤ 3 := by
  unfold afterRead
  split <;> simp [HandlerPc.work]

theorem entry_work {f : Callback} {a : Arg} {pc : HandlerPc} (h : f.entry a = some pc) :
    pc.work ≤ 5 := by
  rcases Callback.entry_cases h with rfl | rfl | rfl | rfl | rfl | ⟨i, rfl⟩ <;>
    simp [HandlerPc.work]

/-- A read leaves no more than there was. -/
theorem unread_le (input : Fd → Input) (fd : Fd) (count : ℕ) :
    (Function.update input fd ((input fd).advance count) .uart).unread.length ≤
      (input .uart).unread.length := by
  by_cases hfd : fd = .uart
  · rw [hfd, Function.update_self, unread_advance, List.length_drop]
    exact Nat.sub_le _ _
  · rw [Function.update_of_ne (Ne.symm hfd)]

/-- A read of the UART that delivers something leaves less. -/
theorem unread_lt {inp : Input} {count : ℕ} (h : inp.chunk count ≠ []) :
    (inp.advance count).unread.length < inp.unread.length := by
  have hall := congrArg List.length (chunk_append_unread inp count)
  rw [List.length_append] at hall
  have hpos := List.length_pos_of_ne_nil h
  omega

/-- A step of one handler. -/
theorem work_handler {s : State n} {w : Fin n} {pc : HandlerPc} (h : pc.work < (s.handler w).work)
    {interest : Fd → Option Trigger} {input : Fd → Input}
    (hinput : (input .uart).unread.length ≤ (s.input .uart).unread.length) :
    State.work { s with
      interest := interest, input := input, handler := Function.update s.handler w pc } <
      s.work := by
  have htotal := total_update (w := HandlerPc.work) (f := s.handler) w pc
  unfold State.work
  dsimp only
  omega

/-- A call puts its job into the pool. -/
theorem work_call {p p' : ThreadPool.State n Unit Callback Arg} {f : Callback} {a : Arg}
    (hst : ThreadPool.Step p (.call () f a) p') : p'.work = p.work + (jobWork 1 + n + 2) := by
  cases hst with
  | call _ _ _ halive hout =>
    have htotal := total_update (w := ProducerPc.work n (Fintype.card Unit)) (f := p.producer) ()
      (.entering f a)
    rw [hout] at htotal
    unfold ThreadPool.State.work
    dsimp only
    rw [Fintype.card_unit] at htotal ⊢
    simp only [ProducerPc.work] at htotal
    omega

/-- The main loop begins a call. -/
theorem work_main {s : State n} {pool' : ThreadPool.State n Unit Callback Arg} {f : Callback}
    {a : Arg} (hst : ThreadPool.Step s.pool (.call () f a) pool') {next : MainPc}
    (hnext : next.work n + callWork n ≤ s.main.work n) :
    State.work { s with pool := pool', main := .calling next } < s.work := by
  have hcall := work_call hst
  unfold callWork at hnext
  unfold State.work
  dsimp only
  rw [hcall, MainPc.work]
  omega

/-- The main loop alone. -/
theorem work_move {s : State n} {main' : MainPc} (h : main'.work n < s.main.work n)
    {interest : Fd → Option Trigger} :
    State.work { s with interest := interest, main := main' } < s.work := by
  unfold State.work
  dsimp only
  omega

theorem work_handling {i nfds : ℕ} (h : i < nfds) :
    (MainPc.handling i nfds).work n = (MainPc.handling (i + 1) nfds).work n + callWork n + 1 := by
  show (nfds - i) * _ + 1 = (nfds - (i + 1)) * _ + 1 + _ + 1
  rw [show nfds - i = nfds - (i + 1) + 1 by omega, Nat.succ_mul]
  omega

section Step

variable {s s' : State n} {e : Event n} {q : List (Entry Callback Arg)}

/-- A step of the pool alone. -/
theorem work_pool (h : Inv queueMaxNum s.pool q)
    {pool' : ThreadPool.State n Unit Callback Arg} {pe : ThreadPool.Event n Unit Callback Arg}
    (hst : ThreadPool.Step s.pool pe pool') (hcalled : pe.called? = none)
    (hopen' : pool'.destroyer = .outside) (hspurious : ¬ Spurious s.pool pool') :
    8 * pool'.work + 8 ≤ 8 * s.pool.work := by
  have hlt := ThreadPool.work_step h hst ⟨hcalled, fun _ => hopen', hspurious⟩
  omega

/-- **Step lemma.** Until the main loop is in `epoll_wait`, an own step lowers
the measure. -/
theorem work_step (h : Inv queueMaxNum s.pool q) (hopen : s.pool.destroyer = .outside)
    (hthreads : ThreadsInv s) (hmain : s.main ≠ .waiting) (hst : Step needSockServer s e s')
    (hown : OwnStep s e s') : s'.work < s.work := by
  obtain ⟨harrive, hspurious⟩ := hown
  cases hst with
  | @startJob k f pool' hk hjob hpool =>
    refine work_main hpool ?_
    obtain ⟨hlt, -⟩ := List.getElem?_eq_some_iff.mp hjob
    rw [hk]
    show (startJobs.length - (k + 1)) * _ + 1 + _ ≤ (startJobs.length - k) * _ + 1
    rw [show startJobs.length - k = startJobs.length - (k + 1) + 1 by omega, Nat.succ_mul]
    omega
  | started hk _ =>
    refine work_move ?_
    rw [hk]
    exact Nat.succ_pos _
  | epollWait batch hwait _ _ _ => exact absurd hwait hmain
  | @del i nfds hi hlt hfd =>
    refine work_move ?_
    rw [hi, work_handling hlt]
    show (nfds - (i + 1)) * _ + _ + 1 < (nfds - (i + 1)) * _ + 1 + _ + 1
    omega
  | @uartJob i nfds pool' hi hpool =>
    refine work_main hpool ?_
    rw [hi]
    show (nfds - (i + 1)) * _ + 1 + _ ≤ (nfds - (i + 1)) * _ + _ + 1
    omega
  | @job i nfds f a pool' hi hlt hfd hdisp hpool =>
    refine work_main hpool ?_
    rw [hi, work_handling hlt]
    omega
  | nothing hi hlt hdisp =>
    refine work_move ?_
    rw [hi, work_handling hlt]
    omega
  | loopEnd hi hlt =>
    refine work_move ?_
    rw [hi]
    exact Nat.succ_pos _
  | @jobAdded next f a v pool' hcalling hpool =>
    have hopen' : pool'.destroyer = .outside := by
      cases hpool
      exact hopen
    have hpoolWork := work_pool h hpool rfl hopen' (hspurious _ rfl)
    unfold State.work
    dsimp only
    rw [hcalling, MainPc.work]
    omega
  | @pool pe pool' hpe hpool hopen' =>
    have hcalled : pe.called? = none := by
      cases pe with
      | internal | dequeue w f a => rfl
      | _ => exact hpe.elim
    have hpoolWork := work_pool h hpool hcalled hopen' (hspurious _ rfl)
    unfold State.work
    dsimp only
    omega
  | @start w f a pc pool' hpool hentry =>
    have hopen' : pool'.destroyer = .outside := by
      cases hpool
      exact hopen
    have hpoolWork := work_pool h hpool rfl hopen' (hspurious _ rfl)
    -- the step into the callback pays for the way through it
    have htotal := total_update (w := HandlerPc.work) (f := s.handler) w pc
    rw [hthreads.idle w (callback_of_start hpool).1] at htotal
    have hpc := entry_work hentry
    unfold State.work
    dsimp only
    omega
  | @finish w f a pool' hpc hpool =>
    have hopen' : pool'.destroyer = .outside := by
      cases hpool
      exact hopen
    have hpoolWork := work_pool h hpool rfl hopen' (hspurious _ rfl)
    have htotal := total_update (w := HandlerPc.work) (f := s.handler) w .idle
    rw [hpc] at htotal
    simp only [HandlerPc.work] at htotal
    unfold State.work
    dsimp only
    omega
  | @uartStore buf buf' w count hpc hcount hbody =>
    obtain ⟨hne, -, -⟩ := wholeReadBody_eq_some_iff.mp hbody
    have hless := unread_lt hne
    have htotal := total_update_eq (w := HandlerPc.work) (f := s.handler) (i := w)
      (b := .wholeRead buf') (by rw [hpc]; rfl)
    unfold State.work
    dsimp only
    rw [htotal, Function.update_self]
    omega
  | uartBreak w count hpc hcount hbody =>
    exact work_handler (by rw [hpc]; simp [HandlerPc.work]) (unread_le _ _ _)
  | add w hpc =>
    refine work_handler ?_ (Nat.le_refl _)
    rw [hpc]
    exact Nat.lt_of_le_of_lt (work_afterRead _ _) (by simp [HandlerPc.work])
  | read w hpc hsock =>
    refine work_handler ?_ (unread_le _ _ _)
    rw [hpc]
    exact Nat.lt_of_le_of_lt (work_afterRead _ _) (by simp [HandlerPc.work])
  | accept w k hpc _ _ _ =>
    exact work_handler (by rw [hpc]; simp [HandlerPc.work]) (unread_le _ _ _)
  | load w hpc | readListening w hpc | acceptFailed w hpc | insert w hpc | initNodeFailed w hpc
  | signal w hpc => exact work_handler (by rw [hpc]; simp [HandlerPc.work]) (Nat.le_refl _)
  | arrive fd bytes => exact absurd rfl (harrive fd bytes)

end Step

/-! ## With three workers -/

/-- The main thread is in the call its program point says, nobody destroys the
pool, and every job on its way can be entered. -/
structure CallInv (s : State n) (q : List (Entry Callback Arg)) : Prop where
  opened : s.pool.destroyer = .outside
  inside : ∀ next, s.main = .calling next → s.pool.producer () ≠ .outside
  flat   : ∀ next, s.main = .calling next → ∀ next', next ≠ .calling next'
  enters : ∀ j ∈ pendingJobs s.pool q, j.1.entry j.2 ≠ none

theorem dispatch_enters {i : ℕ} {ev : EpollEvent} {f : Callback} {a : Arg}
    (h : dispatch needSockServer i ev = some (f, a)) : f.entry a ≠ none := by
  unfold dispatch at h
  split at h <;> try split at h
  all_goals
    simp only [Option.some.injEq, Prod.mk.injEq, reduceCtorEq] at h
  all_goals
    obtain ⟨rfl, rfl⟩ := h
    simp [Callback.entry]

/-- The start-up passes NULL to functions that do not look at it. -/
theorem startJobs_enters {k : ℕ} {f : Callback} (h : startJobs[k]? = some f) :
    f.entry none ≠ none := by
  have hmem := List.mem_of_getElem? h
  intro hnone
  cases f with
  | sockRecvHandler => exact absurd hmem (by decide)
  | _ => cases hnone

section Step

variable {s s' : State n} {e : Event n} {q q' : List (Entry Callback Arg)}

/-- The main loop begins a call. -/
theorem CallInv.call (h : CallInv s q) (hpool : Inv queueMaxNum s.pool q)
    {pool' : ThreadPool.State n Unit Callback Arg} {f : Callback} {a : Arg}
    (hst : ThreadPool.Step s.pool (.call () f a) pool') (hq : QueueStep q (.call () f a :
      ThreadPool.Event n Unit Callback Arg) q') (henters : f.entry a ≠ none) {next : MainPc}
    (hnext : ∀ next', next ≠ .calling next') :
    CallInv { s with pool := pool', main := .calling next } q' := by
  refine ⟨?_, fun _ _ => ?_, fun _ heq => MainPc.calling.inj heq ▸ hnext, fun j hj => ?_⟩
  · cases hst
    exact h.opened
  · cases hst with
    | call _ _ _ halive hout => simp
  · rcases pendingJobs_of_step hpool hst hq hj with hold | hcalled
    · exact h.enters j hold
    · cases hcalled
      exact henters

/-- Another step of the pool. -/
theorem CallInv.poolStep (h : CallInv s q) (hpool : Inv queueMaxNum s.pool q)
    {pool' : ThreadPool.State n Unit Callback Arg} {pe : ThreadPool.Event n Unit Callback Arg}
    (hst : ThreadPool.Step s.pool pe pool') (hq : QueueStep q pe q') (hcalled : pe.called? = none)
    (hopen : pool'.destroyer = .outside) {main' : MainPc}
    (hmain : ∀ next, main' = .calling next →
      s.main = .calling next ∧ pool'.producer () ≠ .outside)
    (handler' : Fin n → HandlerPc) :
    CallInv { s with pool := pool', main := main', handler := handler' } q' := by
  refine ⟨hopen, fun next hnext => (hmain next hnext).2,
    fun next hnext => h.flat next (hmain next hnext).1, fun j hj => ?_⟩
  rcases pendingJobs_of_step hpool hst hq hj with hold | hnew
  · exact h.enters j hold
  · rw [hcalled] at hnew
    cases hnew

/-- A pool step that is no return keeps a call going. -/
theorem CallInv.stays (h : CallInv s q) {pool' : ThreadPool.State n Unit Callback Arg}
    {pe : ThreadPool.Event n Unit Callback Arg} (hst : ThreadPool.Step s.pool pe pool')
    (hret : pe.returned? = none) (next : MainPc) (hmain : s.main = .calling next) :
    s.main = .calling next ∧ pool'.producer () ≠ .outside := by
  refine ⟨hmain, ?_⟩
  rcases inside_step hst (h.inside next hmain) with hin | ⟨f, a, v, rfl⟩
  · exact hin
  · cases hret

/-- **Step lemma.** -/
theorem callInv_step (h : CallInv s q) (hinv : Inv queueMaxNum s.pool q)
    (hst : Step needSockServer s e s') :
    ∃ q', Inv queueMaxNum s'.pool q' ∧ CallInv s' q' := by
  -- the main loop outside a call, or a handler
  have hmove : ∀ {t : State n}, t.pool = s.pool →
      (∀ next, t.main = .calling next → s.main = .calling next) →
      ∃ q', Inv queueMaxNum t.pool q' ∧ CallInv t q' := by
    intro t hpool hmain
    refine ⟨q, hpool ▸ hinv, hpool ▸ h.opened, fun next hnext => ?_,
      fun next hnext => h.flat next (hmain next hnext), hpool ▸ h.enters⟩
    rw [hpool]
    exact h.inside next (hmain next hnext)
  cases hst with
  | startJob hmain hjob hpool =>
    obtain ⟨q', hinv', hq⟩ := inv_step hinv hpool
    exact ⟨q', hinv', h.call hinv hpool hq (startJobs_enters hjob) (by simp)⟩
  | uartJob hmain hpool =>
    obtain ⟨q', hinv', hq⟩ := inv_step hinv hpool
    exact ⟨q', hinv', h.call hinv hpool hq (by simp [Callback.entry]) (by simp)⟩
  | job hmain hlt hfd hdisp hpool =>
    obtain ⟨q', hinv', hq⟩ := inv_step hinv hpool
    exact ⟨q', hinv', h.call hinv hpool hq (dispatch_enters hdisp) (by simp)⟩
  | @jobAdded next f a v pool' hmain hpool =>
    obtain ⟨q', hinv', hq⟩ := inv_step hinv hpool
    refine ⟨q', hinv', h.poolStep hinv hpool hq rfl ?_ (fun next' hnext => ?_) s.handler⟩
    · cases hpool
      exact h.opened
    · exact absurd hnext (h.flat next hmain next')
  | @pool pe pool' hpe hpool hopen =>
    obtain ⟨q', hinv', hq⟩ := inv_step hinv hpool
    have hkind : pe.called? = none ∧ pe.returned? = none := by
      cases pe with
      | internal | dequeue w f a => exact ⟨rfl, rfl⟩
      | _ => exact hpe.elim
    exact ⟨q', hinv', h.poolStep hinv hpool hq hkind.1 hopen (h.stays hpool hkind.2) s.handler⟩
  | start hpool _ =>
    obtain ⟨q', hinv', hq⟩ := inv_step hinv hpool
    refine ⟨q', hinv', h.poolStep hinv hpool hq rfl ?_ (h.stays hpool rfl) _⟩
    cases hpool
    exact h.opened
  | finish _ hpool =>
    obtain ⟨q', hinv', hq⟩ := inv_step hinv hpool
    refine ⟨q', hinv', h.poolStep hinv hpool hq rfl ?_ (h.stays hpool rfl) _⟩
    cases hpool
    exact h.opened
  | started _ _ | epollWait _ _ _ _ _ | del _ _ _ | nothing _ _ _ | loopEnd _ _ =>
    exact hmove rfl fun _ hnext => by cases hnext
  | _ => exact hmove rfl fun _ hnext => hnext

end Step

/-- **Run lemma.** -/
theorem run_callInv {tr : List (Event n)} {s : State n}
    (h : (receiveSystem n queueMaxNum needSockServer).Run tr s) :
    ∃ q, Inv queueMaxNum s.pool q ∧ CallInv s q := by
  refine System.Run.state_invariant
    (I := fun s => ∃ q, Inv queueMaxNum s.pool q ∧ CallInv s q) ?_ ?_ h
  · rintro s ⟨events, rfl⟩
    refine ⟨[], inv_init (Int.natCast_nonneg _), rfl, by simp [epollStart], by simp [epollStart],
      fun j hj => ?_⟩
    rw [show (epollStart n queueMaxNum needSockServer events).pool =
      threadpoolInit n Unit Callback Arg queueMaxNum from rfl, pendingJobs_init] at hj
    exact absurd hj (Multiset.notMem_zero j)
  · rintro s e s' ⟨tr, hrun⟩ ⟨q, hinv, hcall⟩ hst
    exact callInv_step hcall hinv hst

/-- A step of a handler is an own step. -/
theorem own_of_handler {s s' : State n} {e : Event n} (harrive : ∀ fd bytes, e ≠ .arrive fd bytes)
    (hpool : ∀ pe, e ≠ .pool pe) : OwnStep s e s' :=
  ⟨harrive, fun pe he => absurd he (hpool pe)⟩

/-- A worker in a handler that is not one of the two consumers has a step. -/
theorem handler_moves {s : State n} (hthreads : ThreadsInv s) {w : Fin n} {f : Callback}
    (hw : s.callback? w = some f) (hf : ¬ f.Serves) :
    ∃ e s', Step needSockServer s e s' ∧ OwnStep s e s' := by
  have hat := hthreads.inside w f hw
  cases hpc : s.handler w with
  | idle =>
    rw [hpc] at hat
    cases f with
    | initDataToBtOnstart | dataProcess | sendOutHandler => cases hat
    | _ => exact hat.elim
  | serving =>
    rw [hpc] at hat
    cases f with
    | dataProcess => exact absurd (.inl rfl) hf
    | sendOutHandler => exact absurd (.inr rfl) hf
    | initDataToBtOnstart => cases hat
    | _ => exact hat.elim
  | wholeRead buf =>
    exact ⟨_, _, .uartBreak w 0 hpc (Nat.zero_le _) (if_pos List.take_zero),
      own_of_handler (by simp) (by simp)⟩
  | toAdd buf => exact ⟨_, _, .add w hpc, own_of_handler (by simp) (by simp)⟩
  | toRead fd =>
    by_cases hfd : fd = .sock
    · subst hfd
      exact ⟨_, _, .readListening w hpc, own_of_handler (by simp) (by simp)⟩
    · exact ⟨_, _, .read w hpc hfd, own_of_handler (by simp) (by simp)⟩
  | toLoad i => exact ⟨_, _, .load w hpc, own_of_handler (by simp) (by simp)⟩
  | toAccept => exact ⟨_, _, .acceptFailed w hpc, own_of_handler (by simp) (by simp)⟩
  | toInsert m => exact ⟨_, _, .insert w hpc, own_of_handler (by simp) (by simp)⟩
  | toSignal => exact ⟨_, _, .signal w hpc, own_of_handler (by simp) (by simp)⟩
  | returning =>
    cases hworker : s.pool.worker w with
    | running id g a =>
      refine ⟨_, _, .finish hpc (.workerFinish w hworker), by simp, fun pe _ =>
        not_spurious_of_worker (w := w) (by rw [hworker]; simp) ?_⟩
      rw [hworker]
      simp
    | _ =>
      rw [State.callback?, hworker] at hw
      cases hw

/-- While no own step is possible, a worker sleeps or serves. -/
theorem asleep_or_serves {s : State n} {q : List (Entry Callback Arg)}
    (hinv : Inv queueMaxNum s.pool q) (hcall : CallInv s q) (hthreads : ThreadsInv s)
    (hnone : ¬ ∃ e s', Step needSockServer s e s' ∧ OwnStep s e s') (w : Fin n) :
    s.pool.worker w = .asleep ∨ ∃ f : Callback, f.Serves ∧ s.callback? w = some f := by
  by_contra hw
  rw [not_or] at hw
  obtain ⟨hawake, hserves⟩ := hw
  refine hnone ?_
  cases hpc : s.pool.worker w with
  | asleep => exact absurd hpc hawake
  | ready | woken =>
    obtain ⟨pe, pool', hst, he, hmove, hopen⟩ := awake_worker_moves hinv (w := w) (by simp [hpc])
    refine ⟨_, _, .pool ?_ hst (hopen hcall.opened), by simp,
      fun _ _ => not_spurious_of_worker hawake hmove⟩
    rcases he with rfl | ⟨f, a, rfl⟩ <;> trivial
  | holding id =>
    obtain ⟨f, a, pool', hst, hmove, -⟩ := holding_worker_moves hinv hpc
    -- the job is on its way, so its callback can be entered
    have hpending : (f, a) ∈ pendingJobs s.pool q :=
      Multiset.mem_add.mpr (.inr (Multiset.mem_sum.mpr
        ⟨w, Finset.mem_univ w, unstarted_of_start hst⟩))
    obtain ⟨pc, hentry⟩ := Option.ne_none_iff_exists'.mp (hcall.enters _ hpending)
    exact ⟨_, _, .start hst hentry, by simp, fun _ _ => not_spurious_of_worker hawake hmove⟩
  | running id f a =>
    have hf : s.callback? w = some f := by
      rw [State.callback?, hpc]
      rfl
    exact handler_moves hthreads hf fun hserve => hserves ⟨f, hserve, hf⟩
  | returned id =>
    obtain ⟨pool', hst, hmove, hopen⟩ := returned_worker_moves hinv hpc
    exact ⟨_, _, Step.pool (e := .internal) trivial hst (hopen.trans hcall.opened), by simp,
      fun _ _ => not_spurious_of_worker hawake hmove⟩
  | exited =>
    have hopen := (hinv.destroyerAt hcall.opened).2
    rw [hinv.join.exited w hpc] at hopen
    cases hopen

/-- Of three workers that sleep or serve, one sleeps: there is one worker for
each of the two consumers. -/
theorem exists_asleep {s : State n} (hn : 3 ≤ n)
    (hall : ∀ w, s.pool.worker w = .asleep ∨ ∃ f : Callback, f.Serves ∧ s.callback? w = some f)
    (hone : ∀ f : Callback, f.Serves → ∀ w w', s.callback? w = some f → s.callback? w' = some f →
      w = w') : ∃ w, s.pool.worker w = .asleep := by
  by_contra hnone
  rw [not_exists] at hnone
  have hserves : ∀ w, s.callback? w = some .dataProcess ∨ s.callback? w = some .sendOutHandler := by
    intro w
    obtain ⟨f, rfl | rfl, hf⟩ := (hall w).resolve_left (hnone w)
    · exact .inl hf
    · exact .inr hf
  have hdata := hone .dataProcess (.inl rfl)
  have hsend := hone .sendOutHandler (.inr rfl)
  have h₀₁ : (⟨0, by omega⟩ : Fin n) ≠ ⟨1, by omega⟩ := by simp
  have h₀₂ : (⟨0, by omega⟩ : Fin n) ≠ ⟨2, by omega⟩ := by simp
  have h₁₂ : (⟨1, by omega⟩ : Fin n) ≠ ⟨2, by omega⟩ := by simp
  rcases hserves ⟨0, by omega⟩ with h₀ | h₀ <;> rcases hserves ⟨1, by omega⟩ with h₁ | h₁
  · exact h₀₁ (hdata _ _ h₀ h₁)
  · rcases hserves ⟨2, by omega⟩ with h₂ | h₂
    · exact h₀₂ (hdata _ _ h₀ h₂)
    · exact h₁₂ (hsend _ _ h₁ h₂)
  · rcases hserves ⟨2, by omega⟩ with h₂ | h₂
    · exact h₁₂ (hdata _ _ h₁ h₂)
    · exact h₀₂ (hsend _ _ h₀ h₂)
  · exact h₀₁ (hsend _ _ h₀ h₁)

/-- The main loop in a call has a step while the queue has room. -/
theorem calling_moves {s : State n} {q : List (Entry Callback Arg)}
    (hinv : Inv queueMaxNum s.pool q) (hcall : CallInv s q) {next : MainPc}
    (hmain : s.main = .calling next) (hroom : s.pool.pool.queueCurNum ≠ queueMaxNum) :
    ∃ e s', Step needSockServer s e s' ∧ OwnStep s e s' := by
  have halive : s.pool.alive := ⟨by simp [hcall.opened], by simp [hcall.opened]⟩
  cases hp : s.pool.producer () with
  | outside => exact absurd hp (hcall.inside next hmain)
  | asleep f a => exact absurd (producer_asleep hinv hp) hroom
  | entering f a | woken f a =>
    obtain ⟨pe, pool', hst, he, hmove, hopen⟩ :=
      acquiring_producer_moves hinv (p := ()) (f := f) (a := a) halive (by rw [hp]; rfl)
    have hown : ¬ Spurious s.pool pool' := not_spurious_of_producer (by rw [hp]; rfl) hmove
    rcases he with rfl | ⟨v, rfl⟩
    · exact ⟨_, _, Step.pool (e := .internal) trivial hst (hopen.trans hcall.opened), by simp,
        fun _ _ => hown⟩
    · exact ⟨_, _, .jobAdded hmain hst, by simp, fun _ _ => hown⟩

/-- The main loop outside a call has a step, unless it is in `epoll_wait`. -/
theorem main_moves {s : State n} {q : List (Entry Callback Arg)} (hcall : CallInv s q)
    (hthreads : ThreadsInv s) (hwaiting : s.main ≠ .waiting)
    (hcalling : ∀ next, s.main ≠ .calling next) :
    ∃ e s', Step needSockServer s e s' ∧ OwnStep s e s' := by
  have halive : s.pool.alive := ⟨by simp [hcall.opened], by simp [hcall.opened]⟩
  have hout := hthreads.outside hcalling
  have hstep := fun (f : Callback) (a : Arg) => ThreadPool.Step.call () f a halive hout
  have hown : ∀ (f : Callback) (a : Arg), ¬ Spurious s.pool { s.pool with
      producer := Function.update s.pool.producer () (.entering f a) } := by
    intro f a
    refine not_spurious_of_producer (p := ()) (by rw [hout]; rfl) ?_
    rw [hout]
    simp
  cases hmain : s.main with
  | starting k =>
    cases hjob : startJobs[k]? with
    | none => exact ⟨_, _, .started hmain hjob, own_of_handler (by simp) (by simp)⟩
    | some f =>
      exact ⟨_, _, .startJob hmain hjob (hstep f none), by simp, fun _ _ => hown f none⟩
  | waiting => exact absurd hmain hwaiting
  | handling i nfds =>
    by_cases hi : i < nfds
    · by_cases hfd : (s.events i).fd = .uart
      · exact ⟨_, _, .del hmain hi hfd, own_of_handler (by simp) (by simp)⟩
      · cases hdisp : dispatch needSockServer i (s.events i) with
        | none => exact ⟨_, _, .nothing hmain hi hdisp, own_of_handler (by simp) (by simp)⟩
        | some j =>
          exact ⟨_, _, .job hmain hi hfd hdisp (hstep j.1 j.2), by simp, fun _ _ => hown j.1 j.2⟩
    · exact ⟨_, _, .loopEnd hmain hi, own_of_handler (by simp) (by simp)⟩
  | removed i nfds =>
    exact ⟨_, _, .uartJob hmain (hstep .uartConnectHandler none), by simp,
      fun _ _ => hown .uartConnectHandler none⟩
  | calling next => exact absurd hmain (hcalling next)

/-- **No deadlock with three workers.** Until the main loop is in `epoll_wait`,
some thread has an own step. -/
theorem own_step_of_busy (hn : 3 ≤ n) (hmax : 0 < queueMaxNum) {tr : List (Event n)} {s : State n}
    (h : (receiveSystem n queueMaxNum needSockServer).Run tr s) (hmain : s.main ≠ .waiting) :
    ∃ e s', Step needSockServer s e s' ∧ OwnStep s e s' := by
  by_contra hnone
  obtain ⟨q, hinv, hcall⟩ := run_callInv h
  have hthreads := run_threadsInv h
  obtain ⟨w, hw⟩ := exists_asleep hn (asleep_or_serves hinv hcall hthreads hnone)
    fun f hf w w' => eq_of_runs (run_runs_le h hf.mem)
  have hempty := worker_asleep hinv hw
  by_cases hcalling : ∃ next, s.main = .calling next
  · obtain ⟨next, hnext⟩ := hcalling
    exact hnone (calling_moves hinv hcall hnext (by omega))
  · exact hnone (main_moves hcall hthreads hmain (not_exists.mp hcalling))

/-! ## With fewer -/

/-- The main loop is in a call, the queue is full, and no worker will take
anything from it: there is no place in it, or all workers serve. -/
structure Blocked (s : State n) : Prop where
  opened : s.pool.pool.queueClose = false ∧ s.pool.pool.poolClose = false
  destroyer : s.pool.destroyer = .outside
  full   : s.pool.pool.queueCurNum = s.pool.pool.queueMaxNum
  main   : ∃ next, s.main = .calling next
  stuck  : s.pool.pool.queueCurNum = 0 ∨
    ∀ w, s.handler w = .serving ∧ ∃ f, s.callback? w = some f

section Step

variable {s s' : State n} {e : Event n}

/-- A pool whose queue stays full does nothing to it. -/
theorem pool_of_blocked (h : Blocked s) {pool' : ThreadPool.State n Unit Callback Arg}
    {pe : ThreadPool.Event n Unit Callback Arg} (hst : ThreadPool.Step s.pool pe pool')
    (hopen : pool'.destroyer = .outside) : pool'.pool = s.pool.pool ∧ ∀ v f a,
      pe ≠ .addRet () f a v := by
  have hfull := h.full
  -- a call finds the queue full, a worker finds it empty or there is none to look
  have hadd : ∀ {alloc f a r}, threadpoolAddJob s.pool.pool s.pool.heap alloc f a = some r →
      r.ends = .wait ∧ r.pool = s.pool.pool := by
    intro alloc f a r hrun
    unfold threadpoolAddJob at hrun
    rw [if_pos ⟨hfull, by simp [h.opened]⟩] at hrun
    rw [← Option.some.inj hrun]
    exact ⟨rfl, rfl⟩
  have hworker : ∀ {w r}, s.pool.worker w = .ready ∨ s.pool.worker w = .woken →
      threadpoolFunction s.pool.pool s.pool.heap = some r →
      r.ends = .wait ∧ r.pool = s.pool.pool := by
    intro w r hw hrun
    rcases h.stuck with hempty | hserving
    · rw [threadpoolFunction, if_pos ⟨hempty, by simp [h.opened]⟩] at hrun
      rw [← Option.some.inj hrun]
      exact ⟨rfl, rfl⟩
    · obtain ⟨-, f, hf⟩ := hserving w
      unfold State.callback? at hf
      rcases hw with hw | hw <;> rw [hw] at hf <;> cases hf
  cases hst with
  | addWait p halive hacq hrun hends => exact ⟨(hadd hrun).2, by simp⟩
  | addRet p alloc halive hacq hfresh hrun hends =>
    rw [(hadd hrun).1] at hends
    cases hends
  | workerWait w hw hrun hends => exact ⟨(hworker hw hrun).2, by simp⟩
  | workerExit w hw hrun hends =>
    rw [(hworker hw hrun).1] at hends
    cases hends
  | workerDequeue w hw hrun hends hjob =>
    rw [(hworker hw hrun).1] at hends
    cases hends
  | destroyCall hd => cases hopen
  | destroyRefused hd _ | destroyEnterWait hd _ | destroyEnterDrained hd _ | destroyWait hd _
  | destroyDrained hd _ | destroySpurious hd | destroyBroadcastNotEmpty hd
  | destroyBroadcastNotFull hd | destroyJoin _ hd _ _ | destroyCleanup hd _ | destroyDiscard hd _ _
  | destroyFree hd _ =>
    rw [h.destroyer] at hd
    cases hd
  | _ => exact ⟨rfl, by simp⟩

/-- A step of the pool keeps the main loop blocked, unless it starts or finishes
a callback. -/
theorem Blocked.poolStep (h : Blocked s) {pool' : ThreadPool.State n Unit Callback Arg}
    {pe : ThreadPool.Event n Unit Callback Arg} (hst : ThreadPool.Step s.pool pe pool')
    (hopen : pool'.destroyer = .outside) {handler' : Fin n → HandlerPc}
    (hserving : (∀ w, s.handler w = .serving ∧ ∃ f, s.callback? w = some f) →
      ∀ w, handler' w = .serving ∧ ∃ f, (pool'.worker w).callback? = some f) :
    Blocked { s with pool := pool', handler := handler' } := by
  obtain ⟨hsame, -⟩ := pool_of_blocked h hst hopen
  refine ⟨?_, hopen, ?_, h.main, ?_⟩
  · show pool'.pool.queueClose = false ∧ pool'.pool.poolClose = false
    rw [hsame]
    exact h.opened
  · show pool'.pool.queueCurNum = pool'.pool.queueMaxNum
    rw [hsame]
    exact h.full
  · show pool'.pool.queueCurNum = 0 ∨ _
    rw [hsame]
    exact h.stuck.imp id hserving

/-- **Step lemma.** A blocked main loop stays blocked. -/
theorem blocked_step (h : Blocked s) (hst : Step needSockServer s e s') : Blocked s' := by
  obtain ⟨next, hmain⟩ := h.main
  -- a worker in a handler is not one that serves
  have hhandler : ∀ {w pc interest input}, s.handler w ≠ .serving → Blocked { s with
      interest := interest, input := input, handler := Function.update s.handler w pc } := by
    intro w pc interest input hw
    refine ⟨h.opened, h.destroyer, h.full, h.main, h.stuck.imp id fun hserving => ?_⟩
    exact absurd (hserving w).1 hw
  have hother : ∀ {m : MainPc}, s.main = m → (∀ next, m ≠ .calling next) → Blocked s' := by
    intro m hm hne
    exact absurd (hm.symm.trans hmain) (hne next)
  cases hst with
  | startJob hm _ _ | started hm _ | epollWait _ hm _ _ _ | del hm _ _ | uartJob hm _
  | job hm _ _ _ _ | nothing hm _ _ | loopEnd hm _ => exact hother hm (by simp)
  | jobAdded hm hpool =>
    have hopen := h.destroyer
    cases hpool with
    | addRet _ alloc halive hacq hfresh hrun hends =>
      exact absurd rfl ((pool_of_blocked h (.addRet () alloc halive hacq hfresh hrun hends)
        hopen).2 _ _ _)
  | @pool pe pool' hpe hpool hopen =>
    refine h.poolStep hpool hopen fun hserving w => ⟨(hserving w).1, ?_⟩
    obtain ⟨f, hf⟩ := (hserving w).2
    refine ⟨f, Eq.trans ?_ hf⟩
    refine congrFun (callback_other hpool ?_ ?_) w
    · rintro x g a rfl
      exact hpe
    · rintro x g a rfl
      exact hpe
  | @start w f a pc pool' hpool hentry =>
    have hnone := (callback_of_start hpool).1
    refine h.poolStep hpool (by cases hpool; exact h.destroyer) fun hserving => ?_
    obtain ⟨f', hf'⟩ := (hserving w).2
    rw [State.callback?, hnone] at hf'
    cases hf'
  | @finish w f a pool' hpc hpool =>
    refine h.poolStep hpool (by cases hpool; exact h.destroyer) fun hserving => ?_
    rw [(hserving w).1] at hpc
    cases hpc
  | uartStore w _ hpc _ _ | uartBreak w _ hpc _ _ | add w hpc | load w hpc | read w hpc _
  | readListening w hpc | accept w _ hpc _ _ _ | acceptFailed w hpc | insert w hpc
  | initNodeFailed w hpc | signal w hpc => exact hhandler (by rw [hpc]; simp)
  | arrive fd bytes => exact ⟨h.opened, h.destroyer, h.full, h.main, h.stuck⟩

end Step

/-- A blocked main loop does not come back. -/
theorem not_inevitable_of_blocked {s : State n} (h : Blocked s) :
    ¬ System.Inevitable (receiveSystem n queueMaxNum needSockServer) OwnStep
      (fun s => s.main = .waiting) s := by
  refine System.not_inevitable (I := Blocked) h ?_ fun s e s' hs hst _ => blocked_step hs hst
  intro s hs hwaiting
  obtain ⟨next, hnext⟩ := hs.main
  rw [hnext] at hwaiting
  cases hwaiting

/-- All workers serve, the main thread is outside the pool, and there is memory. -/
structure AllServe (s : State n) : Prop where
  serving   : ∀ w, s.handler w = .serving ∧ ∃ f, s.callback? w = some f
  opened    : s.pool.pool.queueClose = false ∧ s.pool.pool.poolClose = false
  destroyer : s.pool.destroyer = .outside
  outside   : s.pool.producer () = .outside
  fresh     : ∃ k, ∀ id, k ≤ id → s.pool.heap id = none
  pipe      : s.interest .pipe = some .edge
  main      : (∃ j, s.main = .starting j) ∨ s.main = .waiting

/-- `s'` is `s` with the main thread in a call, to go on outside of it. -/
structure Called (s s' : State n) (f : Callback) (a : Arg) (next : MainPc) : Prop where
  pool    : s'.pool = { s.pool with producer := Function.update s.pool.producer () (.entering f a) }
  main    : s'.main = .calling next
  next    : (∃ j, next = .starting j) ∨ next = .handling 1 1
  handler : s'.handler = s.handler
  pipe    : s'.interest .pipe = some .edge

variable (queueMaxNum needSockServer) in
/-- When all workers serve, a byte for the pipe makes the main loop call. -/
theorem pipe_call {s : State n} (h : AllServe s) (hmain : s.main = .waiting) :
    ∃ es s' f a next, ((receiveSystem n queueMaxNum needSockServer).startAt s).Run es s' ∧
      Called s s' f a next := by
  have halive : s.pool.alive := ⟨by simp [h.destroyer], by simp [h.destroyer]⟩
  have h₀ : ((receiveSystem n queueMaxNum needSockServer).startAt s).Run [] s := .init rfl
  have harrive := h₀.step (Step.arrive .pipe [0])
  have hwait := harrive.step (Step.epollWait [⟨.pipe, true⟩] hmain (by decide) (by simp) (by
    intro ev hev
    obtain rfl := List.mem_singleton.mp hev
    simp only [State.Reportable, h.pipe]
    show Function.update s.edge .pipe true .pipe = true
    rw [Function.update_self]))
  have hjob := hwait.step (Step.job (i := 0) (f := .pipeConnectHandler) (a := none) rfl Nat.one_pos
    (by simp) rfl (.call () _ _ halive h.outside))
  exact ⟨_, _, _, _, _, hjob, rfl, rfl, .inr rfl, rfl, h.pipe⟩

variable (queueMaxNum needSockServer) in
/-- When all workers serve, the main loop goes on to its next call. -/
theorem next_call {s : State n} (h : AllServe s) :
    ∃ es s' f a next, ((receiveSystem n queueMaxNum needSockServer).startAt s).Run es s' ∧
      Called s s' f a next := by
  have halive : s.pool.alive := ⟨by simp [h.destroyer], by simp [h.destroyer]⟩
  have h₀ : ((receiveSystem n queueMaxNum needSockServer).startAt s).Run [] s := .init rfl
  rcases h.main with ⟨j, hmain⟩ | hmain
  · cases hjob : startJobs[j]? with
    | some f =>
      have hcall := h₀.step (Step.startJob hmain hjob (.call () f none halive h.outside))
      exact ⟨_, _, _, _, _, hcall, rfl, rfl, .inl ⟨_, rfl⟩, rfl, h.pipe⟩
    | none =>
      have hstarted := h₀.step (Step.started hmain hjob)
      obtain ⟨es, s', f, a, next, hrun, hcalled⟩ := pipe_call queueMaxNum needSockServer
        (s := { s with main := .waiting }) { h with main := .inr rfl } rfl
      exact ⟨_, s', f, a, next, hstarted.append hrun, ⟨hcalled.pool, hcalled.main, hcalled.next,
        hcalled.handler, hcalled.pipe⟩⟩
  · exact pipe_call queueMaxNum needSockServer h hmain

section Called

variable {s s' : State n} {q : List (Entry Callback Arg)} {f : Callback} {a : Arg} {next : MainPc}

variable (queueMaxNum needSockServer) in
/-- The main loop goes on from the call, outside of it again. -/
theorem call_over (hnext : (∃ j, next = .starting j) ∨ next = .handling 1 1)
    (hmain : s.main = next) (h : ∀ main', (∃ j, main' = .starting j) ∨ main' = .waiting →
      AllServe { s with main := main' }) :
    ∃ es main', ((receiveSystem n queueMaxNum needSockServer).startAt s).Run es
        { s with main := main' } ∧ AllServe { s with main := main' } := by
  have h₀ : ((receiveSystem n queueMaxNum needSockServer).startAt s).Run [] s := .init rfl
  rcases hnext with ⟨j, rfl⟩ | rfl
  · refine ⟨[], s.main, h₀, h _ (.inl ⟨j, hmain⟩)⟩
  · exact ⟨_, _, h₀.step (Step.loopEnd hmain (by decide)), h _ (.inr rfl)⟩

/-- The call is accepted while the queue has room, and the main loop goes on. -/
theorem call_accepted (h : AllServe s) (hinv : Inv queueMaxNum s'.pool q)
    (hcalled : Called s s' f a next)
    (hroom : s.pool.pool.queueCurNum ≠ s.pool.pool.queueMaxNum) :
    ∃ es s'', ((receiveSystem n queueMaxNum needSockServer).startAt s').Run es s'' ∧
      AllServe s'' ∧ s''.pool.pool.queueCurNum = s.pool.pool.queueCurNum + 1 := by
  obtain ⟨k, hfresh⟩ := h.fresh
  have hproducer : s'.pool.producer () = .entering f a := by
    rw [hcalled.pool]
    simp
  have hpool : s'.pool.pool = s.pool.pool := by rw [hcalled.pool]
  have hheap : s'.pool.heap = s.pool.heap := by rw [hcalled.pool]
  have hworker : s'.pool.worker = s.pool.worker := by rw [hcalled.pool]
  have hdestroyer : s'.pool.destroyer = .outside := by rw [hcalled.pool]; exact h.destroyer
  have halloc : ∀ id, (some k : Option JobId) = some id → s'.pool.heap id = none := by
    rintro id ⟨⟩
    rw [hheap]
    exact hfresh k (Nat.le_refl k)
  obtain ⟨r, hrun, hends⟩ := threadpoolAddJob_accepts hinv.chain.rep (by rw [hpool]; exact h.opened)
    (by rw [hpool]; exact hroom) k f a
  have hret := ThreadPool.Step.addRet (s := s'.pool) () (some k)
    ⟨by simp [hdestroyer], by simp [hdestroyer]⟩ (by rw [hproducer]; rfl) halloc hrun hends
  obtain ⟨hmismatch, -⟩ | ⟨-, id, -, -, -, -, hrep, -, -, hclose, hpclose, -, hpayload⟩ :=
    threadpoolAddJob_ret hinv.chain.rep halloc hrun hends
  · cases hmismatch
  have hadded : Step needSockServer s' (.pool (.addRet () f a 0)) _ := .jobAdded hcalled.main hret
  have hserve : ∀ main', (∃ j, main' = .starting j) ∨ main' = .waiting → AllServe { s' with
      pool := { s'.pool with
        pool := r.pool, heap := r.heap
        producer := Function.update s'.pool.producer () .outside
        worker := if r.broadcastNotEmpty then fun w => (s'.pool.worker w).wake
          else s'.pool.worker }
      main := main' } := by
    intro main' hmain'
    refine ⟨fun w => ?_, ?_, hdestroyer, by simp, ?_, hcalled.pipe, hmain'⟩
    · -- a broadcast wakes nobody who serves
      obtain ⟨hserving, f', hf'⟩ := h.serving w
      refine ⟨by rw [← hserving, ← hcalled.handler], f', ?_⟩
      rw [State.callback?, ← hworker] at hf'
      show WorkerPc.callback? ((if _ then _ else _ : Fin n → WorkerPc Callback Arg) w) = _
      split
      · rw [WorkerPc.wake_callback]
        exact hf'
      · exact hf'
    · rw [hpool] at hclose hpclose
      show r.pool.queueClose = false ∧ r.pool.poolClose = false
      rw [hclose, hpclose]
      exact h.opened
    · refine ⟨max k (id + 1), fun j hj => ?_⟩
      obtain ⟨hk, hid⟩ := max_le_iff.mp hj
      have hfree := hpayload j (Nat.ne_of_gt hid)
      rw [hheap, hfresh j hk] at hfree
      exact Option.map_eq_none_iff.mp hfree
  obtain ⟨es, main', hrest, hdone⟩ := call_over queueMaxNum needSockServer (s := { s' with
      pool := { s'.pool with
        pool := r.pool, heap := r.heap
        producer := Function.update s'.pool.producer () .outside
        worker := if r.broadcastNotEmpty then fun w => (s'.pool.worker w).wake
          else s'.pool.worker }
      main := next }) hcalled.next rfl hserve
  have h₀ : ((receiveSystem n queueMaxNum needSockServer).startAt s').Run [] s' := .init rfl
  refine ⟨_, _, (h₀.step hadded).append hrest, hdone, ?_⟩
  have hcount := hinv.chain.rep.count
  have hcount' := hrep.count
  rw [List.length_append, List.length_singleton] at hcount'
  rw [hpool] at hcount
  show r.pool.queueCurNum = _
  omega

end Called

/-- When all workers serve, the main loop can come to block. -/
theorem blocked_of_allServe {tr : List (Event n)} {s : State n}
    (hrun : (receiveSystem n queueMaxNum needSockServer).Run tr s) (h : AllServe s) :
    ∃ tr' s', (receiveSystem n queueMaxNum needSockServer).Run tr' s' ∧ Blocked s' := by
  induction hm : (queueMaxNum - s.pool.pool.queueCurNum).toNat generalizing tr s with
  | zero =>
    obtain ⟨q, hinv, -⟩ := run_callInv hrun
    have hbound := hinv.wait.bound
    have hmax := hinv.wait.maxNum
    obtain ⟨es, s', f, a, next, hes, hcalled⟩ := next_call queueMaxNum needSockServer h
    refine ⟨_, s', hrun.append hes, ⟨?_, ?_, ?_, ⟨next, hcalled.main⟩, .inr fun w => ?_⟩⟩
    · rw [hcalled.pool]
      exact h.opened
    · rw [hcalled.pool]
      exact h.destroyer
    · rw [hcalled.pool]
      show s.pool.pool.queueCurNum = s.pool.pool.queueMaxNum
      omega
    · rw [hcalled.handler, State.callback?, hcalled.pool]
      exact h.serving w
  | succ m ih =>
    obtain ⟨q, hinv, -⟩ := run_callInv hrun
    have hmax := hinv.wait.maxNum
    obtain ⟨es, s', f, a, next, hes, hcalled⟩ := next_call queueMaxNum needSockServer h
    obtain ⟨q', hinv', -⟩ := run_callInv (hrun.append hes)
    obtain ⟨es', s'', hes', hserve, hcount⟩ := call_accepted h hinv' hcalled (by omega)
    exact ih ((hrun.append hes).append hes') hserve (by omega)

/-- With at most two workers all of them come to serve. -/
theorem allServe_reachable (hn : n < 3) (hmax : 0 < queueMaxNum) :
    ∃ tr s, (receiveSystem n queueMaxNum needSockServer).Run tr s ∧ AllServe s := by
  have hcases : n = 0 ∨ n = 1 ∨ n = 2 := by omega
  have hinit : (receiveSystem n queueMaxNum needSockServer).Run []
      (epollStart n queueMaxNum needSockServer fun _ => ⟨.uart, true⟩) := .init ⟨_, rfl⟩
  -- a worker that runs one of the two jobs serves
  have hserves : ∀ {tr s w f}, (receiveSystem n queueMaxNum needSockServer).Run tr s →
      f.Serves → s.callback? w = some f → s.handler w = .serving ∧ ∃ f, s.callback? w = some f :=
    fun hrun hf hw => ⟨hf.at ((run_threadsInv hrun).inside _ _ hw), _, hw⟩
  have hrest : ∀ {s : State n} {k : ℕ}, AtRest s.pool k → (∃ j, s.main = .starting j) →
      s.interest = registered needSockServer →
      (∀ w, s.handler w = .serving ∧ ∃ f, s.callback? w = some f) → AllServe s :=
    fun hrest hmain hinterest hserving => ⟨hserving, hrest.opened, hrest.destroyer, hrest.outside,
      ⟨_, hrest.fresh⟩, by rw [hinterest]; rfl, .inl hmain⟩
  have hatRest := atRest_init (n := n) (F := Callback) (A := Arg) (Int.natCast_pos.mpr hmax)
  rcases hcases with rfl | rfl | rfl
  · exact ⟨_, _, hinit, hrest hatRest ⟨0, rfl⟩ rfl fun w => w.elim0⟩
  · obtain ⟨es, s, hes, hmain, hrest₁, hinterest, -, -, -, hworker, -⟩ :=
      start_job queueMaxNum needSockServer
        (s := epollStart 1 queueMaxNum needSockServer fun _ => ⟨.uart, true⟩) (w := 0)
        rfl rfl rfl hatRest rfl 0
    refine ⟨_, s, hinit.append hes, hrest hrest₁ ⟨1, hmain⟩ hinterest fun w => ?_⟩
    refine hserves (hinit.append hes) (.inl rfl) ?_
    rw [State.callback?, hworker, Subsingleton.elim w 0]
    rfl
  · obtain ⟨es, s, hes, hmain, hrest₁, hinterest, -, -, -, hworker, -⟩ :=
      start_job queueMaxNum needSockServer
        (s := epollStart 2 queueMaxNum needSockServer fun _ => ⟨.uart, true⟩) (w := 0)
        rfl rfl rfl hatRest rfl 0
    obtain ⟨es', s', hes', hmain', hrest₂, hinterest', -, -, -, hworker', -⟩ :=
      start_job queueMaxNum needSockServer (w := 1) hmain rfl rfl hrest₁
        (by rw [hworker, Function.update_of_ne (by decide)]; rfl) 0
    have hrun := (hinit.append hes).append hes'
    refine ⟨_, s', hrun, hrest hrest₂ ⟨2, hmain'⟩ (hinterest'.trans hinterest) fun w => ?_⟩
    by_cases hw : w = 1
    · refine hserves hrun (.inr rfl) ?_
      rw [State.callback?, hworker', hw]
      rfl
    · obtain rfl : w = 0 := by omega
      refine hserves hrun (.inl rfl) ?_
      rw [State.callback?, hworker', Function.update_of_ne (by decide), hworker]
      rfl

/-- With no place in the queue the first call blocks. -/
theorem blocked_of_no_room :
    ∃ tr s, (receiveSystem n 0 needSockServer).Run tr s ∧ Blocked s := by
  have hinit : (receiveSystem n 0 needSockServer).Run []
      (epollStart n 0 needSockServer fun _ => ⟨.uart, true⟩) := .init ⟨_, rfl⟩
  have hcall := hinit.step (Step.startJob (f := .dataProcess) rfl rfl
    (.call () _ none ⟨by simp [epollStart, threadpoolInit], by simp [epollStart, threadpoolInit]⟩
      rfl))
  exact ⟨_, _, hcall, ⟨rfl, rfl⟩, rfl, rfl, ⟨_, rfl⟩, .inl rfl⟩

/-- **The main loop needs three workers.** For any number of workers and any
size of the queue: whatever state a run has led to, the threads by themselves,
however they are scheduled, bring the main loop back to `epoll_wait` while no
more input arrives and nobody wakes up for no reason, if and only if there are at
least three workers and the queue has a place. `init_data_to_bt_onstart` returns. -/
theorem main_loop_returns_iff (n queueMaxNum : ℕ) :
    (∀ tr s, (receiveSystem n queueMaxNum false).Run tr s →
      System.Inevitable (receiveSystem n queueMaxNum false) OwnStep
        (fun s => s.main = .waiting) s) ↔ 3 ≤ n ∧ 0 < queueMaxNum := by
  constructor
  · intro hall
    by_contra hfew
    have hblocked : ∃ tr s, (receiveSystem n queueMaxNum false).Run tr s ∧ Blocked s := by
      rcases Nat.eq_zero_or_pos queueMaxNum with rfl | hmax
      · exact blocked_of_no_room
      · obtain ⟨tr, s, hrun, hserve⟩ := allServe_reachable (n := n) (by omega) hmax
        exact blocked_of_allServe hrun hserve
    obtain ⟨tr, s, hrun, hblock⟩ := hblocked
    exact not_inevitable_of_blocked hblock (hall tr s hrun)
  · rintro ⟨hn, hmax⟩ tr s hrun
    refine System.inevitable_of_variant (I := (receiveSystem n queueMaxNum false).Reachable)
      State.work ?_ ?_ ?_ ⟨tr, hrun⟩
    · rintro s e s' ⟨tr, hrun⟩ hst
      exact ⟨_, hrun.step hst⟩
    · rintro s e s' ⟨tr, hrun⟩ hmain hst hown
      obtain ⟨q, hinv, hcall⟩ := run_callInv hrun
      exact work_step hinv hcall.opened (run_threadsInv hrun) hmain hst hown
    · rintro s ⟨tr, hrun⟩ hmain
      exact own_step_of_busy hn hmax hrun hmain

end Uartd.Receive
