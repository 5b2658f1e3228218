import Uartd.Receive.Rounds
import Uartd.Receive.Tickets

/-!
# Uartd — the two consumers

Both message queues are written for one consumer: it empties its queue without
the mutex of the queue's producers. `epoll_start` adds `data_process` and
`send_out_handler` once each, and neither returns; so of each there is one job
in the pool or one worker that runs it, never both and never two
(`run_servers`), and the worker that got it keeps it (`consumer_for_good`).
What the main loop adds later is never one of the jobs of the start-up.
-/

namespace Uartd.Receive

open Uartd.Lib Uartd.ThreadPool

variable {n queueMaxNum : ℕ} {needSockServer : Bool}

/-- How many `f` jobs the start-up has still to add. -/
def MainPc.ahead (f : Callback) : MainPc → ℕ
  | .starting k => (startJobs.drop k).count f
  | .calling next => next.ahead f
  | _ => 0

/-- Whether a worker runs `f`. -/
def runs (f : Callback) (pc : WorkerPc Callback Arg) : ℕ := jobsOf f pc.inProgress

/-- Everything there is of `f`: still to be added, on its way through the pool
(`q` is the chain), and running. -/
def servers (f : Callback) (s : State n) (q : List (Entry Callback Arg)) : ℕ :=
  s.main.ahead f + jobsOf f (pendingJobs s.pool q) + total (runs f) s.pool.worker

theorem runs_of_callback {f : Callback} {pc : WorkerPc Callback Arg} (h : pc.callback? = some f) :
    runs f pc = 1 := by
  cases pc with
  | running id g a =>
    simp only [WorkerPc.callback?, Option.some.injEq] at h
    subst h
    exact (jobsOf_ofOption g g a).trans (if_pos rfl)
  | _ => cases h

/-- The running jobs, counted worker by worker. -/
theorem jobsOf_inProgress (f : Callback) (worker : Fin n → WorkerPc Callback Arg) :
    jobsOf f (total WorkerPc.inProgress worker) = total (runs f) worker :=
  map_sum (Multiset.countPAddMonoidHom fun j : Callback × Arg => j.1 = f) _ _

/-- The next job of the start-up. -/
theorem ahead_starting (f : Callback) {k : ℕ} {g : Callback} (h : startJobs[k]? = some g) :
    (MainPc.starting k).ahead f = (MainPc.starting (k + 1)).ahead f + if g = f then 1 else 0 := by
  obtain ⟨hk, rfl⟩ := List.getElem?_eq_some_iff.mp h
  show (startJobs.drop k).count f = (startJobs.drop (k + 1)).count f + _
  rw [List.drop_eq_getElem_cons hk, List.count_cons]
  simp only [beq_iff_eq]

/-- The main loop never adds an `f` job once it runs. -/
def NotDispatched (needSockServer : Bool) (f : Callback) : Prop :=
  f ≠ .uartConnectHandler ∧ ∀ i ev a, dispatch needSockServer i ev ≠ some (f, a)

/-- What the main loop adds for an event. -/
theorem dispatch_cases {i : ℕ} {ev : EpollEvent} {f : Callback} {a : Arg}
    (h : dispatch needSockServer i ev = some (f, a)) :
    (f = .uartConnectHandler ∨ f = .pipeConnectHandler) ∨
      needSockServer = true ∧ (f = .sockAcceptHandler ∨ f = .sockRecvHandler) := by
  cases needSockServer <;> cases ev with
  | mk fd epollin => cases fd <;> cases epollin <;> simp_all [dispatch]

theorem startJobs_notDispatched {f : Callback} (hf : f ∈ startJobs) :
    NotDispatched needSockServer f := by
  refine ⟨?_, fun i ev a h => ?_⟩
  · rintro rfl
    exact absurd hf (by decide)
  · rcases dispatch_cases h with (rfl | rfl) | ⟨-, rfl | rfl⟩ <;> exact absurd hf (by decide)

/-- Without a socket server nothing is received from a socket. -/
theorem sockRecv_notDispatched : NotDispatched false .sockRecvHandler := by
  refine ⟨by decide, fun i ev a h => ?_⟩
  rcases dispatch_cases h with (h | h) | ⟨h, -⟩ <;> cases h

section Step

variable {s s' : State n} {e : Event n} {q : List (Entry Callback Arg)} {f : Callback}

/-- A step of the pool: a call puts a job in that was ahead. -/
theorem servers_pool (h : Inv queueMaxNum s.pool q) {pool' : ThreadPool.State n Unit Callback Arg}
    {pe : ThreadPool.Event n Unit Callback Arg} (hst : ThreadPool.Step s.pool pe pool')
    {main' : MainPc} (hahead : main'.ahead f + jobsOf f (ofOption pe.called?) ≤ s.main.ahead f)
    (handler' : Fin n → HandlerPc) :
    ∃ q', Inv queueMaxNum pool' q' ∧
      servers f { s with pool := pool', main := main', handler := handler' } q' ≤
        servers f s q := by
  obtain ⟨q', hinv, hpending⟩ := jobsOf_step f h hst
  have hrunning := congrArg (jobsOf f) (inProgress_step hst)
  rw [jobsOf_add, jobsOf_add, jobsOf_inProgress, jobsOf_inProgress] at hrunning
  refine ⟨q', hinv, ?_⟩
  unfold servers
  dsimp only
  omega

/-- **Step lemma.** What the main loop does not add does not multiply. -/
theorem servers_step (h : Inv queueMaxNum s.pool q) (hf : NotDispatched needSockServer f)
    (hst : Step needSockServer s e s') :
    ∃ q', Inv queueMaxNum s'.pool q' ∧ servers f s' q' ≤ servers f s q := by
  -- the main loop alone, or a handler
  have hmove : ∀ {t : State n}, t.pool = s.pool → t.main.ahead f ≤ s.main.ahead f →
      ∃ q', Inv queueMaxNum t.pool q' ∧ servers f t q' ≤ servers f s q := by
    intro t hpool hahead
    refine ⟨q, hpool ▸ h, ?_⟩
    unfold servers
    rw [hpool]
    omega
  cases hst with
  | @startJob k g pool' hmain hjob hpool =>
    refine servers_pool h hpool ?_ s.handler
    rw [hmain, ahead_starting f hjob]
    show _ + jobsOf f (ofOption (some (g, none))) ≤ _
    rw [jobsOf_ofOption]
    exact Nat.le_refl _
  | uartJob hmain hpool =>
    refine servers_pool h hpool ?_ s.handler
    rw [hmain]
    show 0 + jobsOf f (ofOption (some (_, none))) ≤ 0
    rw [jobsOf_ofOption, if_neg fun heq => hf.1 heq.symm]
  | @job i nfds g a pool' hmain hlt hfd hdisp hpool =>
    refine servers_pool h hpool ?_ s.handler
    rw [hmain]
    show 0 + jobsOf f (ofOption (some (g, a))) ≤ 0
    rw [jobsOf_ofOption, if_neg fun heq : g = f => hf.2 _ _ _ (heq ▸ hdisp)]
  | jobAdded hmain hpool =>
    refine servers_pool h hpool ?_ s.handler
    rw [hmain]
    exact Nat.le_refl _
  | @pool pe pool' hown hpool _ =>
    refine servers_pool h hpool ?_ s.handler
    cases pe with
    | internal | dequeue w g a => exact Nat.le_refl _
    | _ => exact hown.elim
  | start hpool _ => exact servers_pool h hpool (Nat.le_refl _) _
  | finish _ hpool => exact servers_pool h hpool (Nat.le_refl _) _
  | started _ _ | loopEnd _ _ => exact hmove rfl (Nat.zero_le _)
  | epollWait _ _ _ _ _ => exact hmove rfl (Nat.zero_le _)
  | del _ _ _ | nothing _ _ _ => exact hmove rfl (Nat.zero_le _)
  | _ => exact hmove rfl (Nat.le_refl _)

end Step

/-- **Run lemma.** In every reachable state there is at most what the start-up adds. -/
theorem run_servers {tr : List (Event n)} {s : State n}
    (h : (receiveSystem n queueMaxNum needSockServer).Run tr s) {f : Callback}
    (hf : NotDispatched needSockServer f) :
    ∃ q, Inv queueMaxNum s.pool q ∧ servers f s q ≤ startJobs.count f := by
  refine System.Run.state_invariant
    (I := fun s => ∃ q, Inv queueMaxNum s.pool q ∧ servers f s q ≤ startJobs.count f) ?_ ?_ h
  · rintro s ⟨events, rfl⟩
    have hnone : total (runs f) (fun _ : Fin n => (.ready : WorkerPc Callback Arg)) = 0 :=
      total_eq_zero fun _ => rfl
    refine ⟨[], inv_init (Int.natCast_nonneg _), ?_⟩
    show (startJobs.drop 0).count f +
      jobsOf f (pendingJobs (threadpoolInit n Unit Callback Arg queueMaxNum) []) +
      total (runs f) (fun _ : Fin n => (.ready : WorkerPc Callback Arg)) ≤ _
    rw [pendingJobs_init, hnone]
    exact Nat.le_refl _
  · rintro s e s' - ⟨q, hinv, hone⟩ hst
    obtain ⟨q', hinv', hle⟩ := servers_step hinv hf hst
    exact ⟨q', hinv', hle.trans hone⟩

theorem startJobs_count_le (f : Callback) : startJobs.count f ≤ 1 :=
  List.nodup_iff_count_le_one.mp (by decide) f

/-- Two workers never run the same job of the start-up. -/
theorem eq_of_runs {f : Callback} {worker : Fin n → WorkerPc Callback Arg}
    (hone : total (runs f) worker ≤ 1) {w w' : Fin n} (hw : (worker w).callback? = some f)
    (hw' : (worker w').callback? = some f) : w = w' := by
  by_contra hne
  have htwo := add_le_total (w := runs f) (f := worker) hne
  rw [runs_of_callback hw, runs_of_callback hw'] at htwo
  omega

theorem run_runs_le {tr : List (Event n)} {s : State n}
    (h : (receiveSystem n queueMaxNum needSockServer).Run tr s) {f : Callback}
    (hf : f ∈ startJobs) : total (runs f) s.pool.worker ≤ 1 := by
  obtain ⟨q, -, hone⟩ := run_servers h (startJobs_notDispatched hf)
  have hcount := startJobs_count_le f
  unfold servers at hone
  omega

/-- Without a socket server no worker is in `sock_recv_handler`. -/
theorem run_no_sockRecv {tr : List (Event n)} {s : State n}
    (h : (receiveSystem n queueMaxNum false).Run tr s) (w : Fin n) :
    s.callback? w ≠ some .sockRecvHandler := by
  intro hw
  obtain ⟨q, -, hnone⟩ := run_servers h sockRecv_notDispatched
  have hone := le_total (w := runs .sockRecvHandler) (f := s.pool.worker) w
  rw [runs_of_callback hw] at hone
  have hcount : startJobs.count .sockRecvHandler = 0 := by decide
  unfold servers at hnone
  omega

/-- `data_process` and `send_out_handler`. -/
def Callback.Serves (f : Callback) : Prop := f = .dataProcess ∨ f = .sendOutHandler

theorem Callback.Serves.mem {f : Callback} (h : f.Serves) : f ∈ startJobs := by
  rcases h with rfl | rfl <;> decide

theorem Callback.Serves.at {f : Callback} {pc : HandlerPc} (h : f.Serves) (hat : f.At pc) :
    pc = .serving := by
  rcases h with rfl | rfl <;> exact hat

/-- A worker does not leave a callback that does not return. -/
theorem serves_step {s s' : State n} {e : Event n} {f : Callback} (h : ThreadsInv s)
    (hf : f.Serves) (hst : Step needSockServer s e s') {w : Fin n}
    (hw : s.callback? w = some f) : s'.callback? w = some f := by
  rcases pool_or_same hst with ⟨pe, rfl, hpool⟩ | ⟨hsame, -⟩
  · rcases callback_step hpool w with hkeep | ⟨g, a, -, hnone, -⟩ | ⟨g, a, rfl, -⟩
    · exact hkeep.trans hw
    · rw [State.callback?, hnone] at hw
      cases hw
    · -- a worker finishes from the return of its callback only
      have hserving := hf.at (h.inside w f hw)
      have hreturning : s.handler w = .returning := by
        cases hst with
        | finish hpc _ => exact hpc
        | pool hown _ _ => exact hown.elim
      rw [hserving] at hreturning
      cases hreturning
  · rw [State.callback?, hsame]
    exact hw

/-- **One consumer each, for good.** For any number of workers: the worker that
has entered `data_process` stays in it, and however the run goes on no other
worker is in `data_process` and no such job is on its way through the pool; and
the same for `send_out_handler`. -/
theorem consumer_for_good {tr : List (Event n)} {s : State n}
    (h : (receiveSystem n queueMaxNum needSockServer).Run tr s) {f : Callback}
    (hf : f = .dataProcess ∨ f = .sendOutHandler) {w : Fin n} (hw : s.callback? w = some f)
    {es : List (Event n)} {s' : State n}
    (hes : ((receiveSystem n queueMaxNum needSockServer).startAt s).Run es s') :
    s'.callback? w = some f ∧ s'.handler w = .serving ∧
      (∀ w', s'.callback? w' = some f → w' = w) ∧
      ∃ q, Rep s'.pool.pool s'.pool.heap q ∧ ∀ j ∈ pendingJobs s'.pool q, j.1 ≠ f := by
  have hstays : s'.callback? w = some f := by
    refine System.Run.invariant (I := fun _ t => t.callback? w = some f) ?_ ?_ hes
    · rintro t rfl
      exact hw
    · intro es t e t' hrun ht hst
      exact serves_step (run_threadsInv (h.append hrun)) hf hst ht
  have hrun := h.append hes
  obtain ⟨q, hinv, hone⟩ := run_servers hrun (startJobs_notDispatched (Callback.Serves.mem hf))
  have hcount := startJobs_count_le f
  have hrunning := le_total (w := runs f) (f := s'.pool.worker) w
  rw [runs_of_callback hstays] at hrunning
  unfold servers at hone
  refine ⟨hstays, Callback.Serves.at hf ((run_threadsInv hrun).inside w f hstays),
    fun w' hw' => eq_of_runs (by omega) hw' hstays, q, hinv.chain.rep, fun j hj hjf => ?_⟩
  have hpending : 0 < jobsOf f (pendingJobs s'.pool q) :=
    Multiset.countP_pos.mpr ⟨j, hj, hjf⟩
  omega

/-- The theorem at work: five workers, two of them serve, and while a third one
brings in a text from the UART they go on serving. -/
theorem consumer_for_good_five :
    ∃ tr s es s', (receiveSystem 5 10 false).Run tr s ∧
      ((receiveSystem 5 10 false).startAt s).Run es s' ∧
      (∃ m, s'.handler 3 = .toInsert m) ∧
      (s'.handler 0 = .serving ∧ ∀ w', s'.callback? w' = some .dataProcess → w' = 0) ∧
      s'.handler 1 = .serving ∧ ∀ w', s'.callback? w' = some .sendOutHandler → w' = 1 := by
  obtain ⟨tr, s, hrun, hquiet, -, -, -, hworker, hidle⟩ := start_up (n := 5) 10 false (by decide)
    0 1 2 (by decide) (by decide) (by decide) (fun _ => ⟨.uart, true⟩) 3
  have hzero : s.callback? 0 = some .dataProcess := by
    rw [State.callback?, hworker]
    rfl
  have hone : s.callback? 1 = some .sendOutHandler := by
    rw [State.callback?, hworker]
    rfl
  obtain ⟨es, s', hes, hround, -, -⟩ := uart_round 10 false hquiet
    (hidle 3 (by decide) (by decide) (by decide)).1 [65, 66] (by decide) (by decide)
  obtain ⟨-, hserves₀, halone₀, -⟩ := consumer_for_good hrun (.inl rfl) hzero hes
  obtain ⟨-, hserves₁, halone₁, -⟩ := consumer_for_good hrun (.inr rfl) hone hes
  exact ⟨tr, s, es, s', hrun, hes, ⟨_, by rw [hround.handler, Function.update_self]⟩,
    ⟨hserves₀, halone₀⟩, hserves₁, halone₁⟩

end Uartd.Receive
