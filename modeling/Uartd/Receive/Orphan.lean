import Uartd.Receive.Token

/-!
# Uartd — the UART without a reader

The main loop removes the UART from epoll before it adds the job that will
register it again, and it does not look at what `threadpool_add_job` returns. A
call that fails for want of memory loses the token for good.

`watched_iff` reads the books of `run_tokens` at the states in which the main
loop waits in `epoll_wait`: the UART is registered, or a job that will register
it is on its way, exactly while no such call has failed.
-/

namespace Uartd.Receive

open Uartd.Lib Uartd.ThreadPool

variable {n queueMaxNum : ℕ} {needSockServer : Bool}

/-- The UART is registered in epoll, or one of its readers will register it. -/
def UartWatched (s : State n) (q : List (Entry Callback Arg)) : Prop :=
  s.interest .uart ≠ none ∨ 1 ≤ uartReaders s q

/-- `threadpool_add_job(pool, uart_connect_handler, ..)` returned -1. -/
def Event.UartJobRefused : Event n → Prop
  | .pool (.addRet _ f _ v) => f = .uartConnectHandler ∧ v = -1
  | _ => False

theorem lost_eq_zero_iff (e : Event n) : e.lost = 0 ↔ ¬ e.UartJobRefused := by
  cases e with
  | pool e =>
    cases e with
    | addRet p f a v =>
      show uartJobs (ofOption (if v = -1 then some (f, a) else none)) = 0 ↔
        ¬ (f = .uartConnectHandler ∧ v = -1)
      by_cases hv : v = -1
      · rw [if_pos hv, uartJobs_ofOption]
        simp [hv]
      · rw [if_neg hv]
        simp [hv, uartJobs, ofOption]
    | _ => exact ⟨fun _ h => h, fun _ => rfl⟩
  | _ => exact ⟨fun _ h => h, fun _ => rfl⟩

theorem lostTokens_eq_zero_iff (tr : List (Event n)) :
    lostTokens tr = 0 ↔ ∀ e ∈ tr, ¬ e.UartJobRefused := by
  rw [lostTokens, List.sum_eq_zero_iff]
  simp only [List.mem_map, forall_exists_index, and_imp, forall_apply_eq_imp_iff₂,
    lost_eq_zero_iff]

/-- In `epoll_wait` the main loop has nothing of its own, so the token is
registered or with a reader. -/
theorem tokens_of_waiting {s : State n} (hthreads : ThreadsInv s) (hmain : s.main = .waiting)
    (q : List (Entry Callback Arg)) : tokens s q = s.uartRegistered + uartReaders s q := by
  have hcall : total ProducerPc.inCall s.pool.producer = 0 := by
    refine total_eq_zero fun p => ?_
    rw [hthreads.outside (by simp [hmain])]
    rfl
  unfold tokens pendingJobs uartReaders
  rw [uartJobs_add, uartJobs_add, hcall, hmain]
  show _ + 0 + (0 + _ + _) + _ = _
  omega

/-- **The books at `epoll_wait`.** -/
theorem watched_iff {tr : List (Event n)} {s : State n}
    (h : (receiveSystem n queueMaxNum needSockServer).Run tr s) (hmain : s.main = .waiting)
    {q : List (Entry Callback Arg)} (hq : Rep s.pool.pool s.pool.heap q) :
    UartWatched s q ↔ ∀ e ∈ tr, ¬ e.UartJobRefused := by
  obtain ⟨q', hinv, hbooks⟩ := run_tokens h
  obtain rfl : q = q' := hq.functional hinv.pool.chain.rep
  rw [tokens_of_waiting (run_threadsInv h) hmain] at hbooks
  rw [← lostTokens_eq_zero_iff]
  have hreg : s.interest .uart ≠ none ↔ s.uartRegistered = 1 := by
    unfold State.uartRegistered
    split
    · rename_i hnone
      simp [hnone]
    · rename_i hsome
      simp [hsome]
  unfold UartWatched
  rw [hreg]
  omega

/-- **The UART is watched exactly while no job for it was refused.** In every
state in which the main loop is in `epoll_wait`, for the chain `q` of the pool:
the UART is registered in epoll or a `uart_connect_handler` job is queued or
running before its ADD, if and only if no `threadpool_add_job` for such a job
has returned -1. -/
theorem uart_watched_iff {tr : List (Event n)} {s : State n}
    (h : (receiveSystem n queueMaxNum needSockServer).Run tr s) (hmain : s.main = .waiting) :
    ∃ q, Rep s.pool.pool s.pool.heap q ∧ (UartWatched s q ↔ ∀ e ∈ tr, ¬ e.UartJobRefused) := by
  obtain ⟨q, hinv, -⟩ := run_tokens h
  exact ⟨q, hinv.pool.chain.rep, watched_iff h hmain hinv.pool.chain.rep⟩

/-- The theorem at work: after the start-up the UART is watched. -/
theorem uart_watched_iff_start :
    ∃ tr s q, (receiveSystem 5 10 false).Run tr s ∧ s.main = .waiting ∧
      Rep s.pool.pool s.pool.heap q ∧ UartWatched s q := by
  obtain ⟨es, s, hrun, hquiet, -, -, ⟨-, -, hrefuse, -⟩, -, -⟩ :=
    start_up (n := 5) 10 false (by decide) 0 1 2 (by decide) (by decide) (by decide)
      (fun _ => ⟨.uart, true⟩) 3
  obtain ⟨q, hrep, hiff⟩ := uart_watched_iff hrun hquiet.main
  refine ⟨es, s, q, hrun, hquiet.main, hrep, hiff.mpr fun e he hbad => ?_⟩
  cases e with
  | pool e =>
    cases e with
    | addRet p f a v =>
      obtain ⟨-, rfl⟩ := hbad
      exact hrefuse _ he f a rfl
    | _ => exact hbad
  | _ => exact hbad

variable (queueMaxNum needSockServer) in
/-- A byte arrives at the UART and the job for it finds no memory. -/
theorem uart_round_refused {s : State n} {k : ℕ} (h : Quiet s k) :
    ∃ es s', ((receiveSystem n queueMaxNum needSockServer).startAt s).Run es s' ∧
      s'.main = .waiting ∧ ∃ e ∈ es, e.UartJobRefused := by
  have h₀ : ((receiveSystem n queueMaxNum needSockServer).startAt s).Run [] s := .init rfl
  have harrive := h₀.step (Step.arrive .uart [65])
  have hwait := harrive.step (Step.epollWait [⟨.uart, true⟩] h.main (by decide) (by simp) (by
    intro ev hev
    obtain rfl := List.mem_singleton.mp hev
    obtain ⟨t, ht⟩ := Option.ne_none_iff_exists'.mp h.uart
    simp only [State.Reportable, ht]
    cases t with
    | level => trivial
    | edge => exact Function.update_self _ _ _))
  have hdel := hwait.step (Step.del (i := 0) rfl (by decide) rfl)
  obtain ⟨p₁, p₂, hcall, hret, -⟩ := refuse h.rest .uartConnectHandler none
  have hjob := hdel.step (Step.uartJob rfl hcall)
  have hadded := hjob.step (Step.jobAdded rfl hret)
  have hend := hadded.step (Step.loopEnd rfl (by decide))
  exact ⟨_, _, hend, rfl, .pool (.addRet () .uartConnectHandler none (-1)), by simp, rfl, rfl⟩

/-- The UART can be left without a reader while the main loop waits for it. -/
theorem uart_orphaned : ¬ ∀ tr s, (receiveSystem 5 10 false).Run tr s → s.main = .waiting →
    ∀ q, Rep s.pool.pool s.pool.heap q → UartWatched s q := by
  intro hclaim
  obtain ⟨es, s, hrun, hquiet, -⟩ :=
    start_up (n := 5) 10 false (by decide) 0 1 2 (by decide) (by decide) (by decide)
      (fun _ => ⟨.uart, true⟩) 3
  obtain ⟨es', s', hround, hmain, e, he, hbad⟩ :=
    uart_round_refused 10 false hquiet
  have hrun' := hrun.append hround
  obtain ⟨q, hinv, -⟩ := run_tokens hrun'
  have hwatched := hclaim _ _ hrun' hmain q hinv.pool.chain.rep
  exact (watched_iff hrun' hmain hinv.pool.chain.rep).mp hwatched e
    (List.mem_append_right _ he) hbad

end Uartd.Receive
