import Uartd.Lib.Fifo
import Uartd.ThreadPool.Invariant

/-!
# Uartd — the pool is a bounded FIFO queue

`Event.fifo?` says which steps an observer of the queue sees: an `add_job` that
returns 0 enqueues its job, a worker's dequeue takes one. `run_simulates`
carries every run of the pool to a run of `boundedFifo`, and the law of that
queue (`run_deqs_append`) becomes the law of the pool: the jobs dequeued by all
workers together, followed by the jobs on the chain, are the jobs accepted.

Two accepted jobs may carry the same callback and argument; the job accepted
`k`-th is the one dequeued `k`-th (`dequeued_by`).
-/

namespace Uartd.ThreadPool

open Uartd.Lib

variable {n : ℕ} {P F A : Type} [DecidableEq P] {queueMaxNum : Int}

/-- The queue operation an event is. -/
def Event.fifo? : Event n P F A → Option (FifoEvent (F × A))
  | .addRet _ f a v => if v = 0 then some (.enq (f, a)) else none
  | .dequeue _ f a => some (.deq (f, a))
  | _ => none

omit [DecidableEq P] in
theorem fifo_enqs (tr : List (Event n P F A)) :
    (tr.filterMap Event.fifo?).filterMap FifoEvent.enq? = acceptedJobs tr := by
  rw [acceptedJobs, List.filterMap_filterMap]
  congr 1
  funext e
  cases e with
  | addRet p f a v =>
    by_cases hv : v = 0 <;> simp [Event.fifo?, Event.accepted?, hv, FifoEvent.enq?]
  | _ => rfl

omit [DecidableEq P] in
theorem fifo_deqs (tr : List (Event n P F A)) :
    (tr.filterMap Event.fifo?).filterMap FifoEvent.deq? = dequeuedJobs tr := by
  rw [dequeuedJobs, dequeues, List.filterMap_filterMap, List.map_filterMap]
  congr 1
  funext e
  cases e with
  | addRet p f a v =>
    by_cases hv : v = 0 <;> simp [Event.fifo?, Event.dequeued?, hv, FifoEvent.deq?]
  | _ => rfl

omit [DecidableEq P] in
/-- What a step does to the chain, the bounded queue can do to its contents. -/
theorem QueueStep.matches {s' : State n P F A} {e : Event n P F A} {q q' : List (Entry F A)}
    (hq : QueueStep q e q') (hinv : Inv queueMaxNum s' q') :
    System.Matches (boundedFifo (F × A) queueMaxNum.toNat)
      (fun t => ∃ q, Inv queueMaxNum s' q ∧ q.map Prod.snd = t) Event.fifo? e
      (q.map Prod.snd) := by
  -- an event that does not touch the queue
  have hkeep : e.accepted? = none → e.dequeued? = none → ∃ q₀, Inv queueMaxNum s' q₀ ∧
      q₀.map Prod.snd = q.map Prod.snd := by
    intro hacc hdeq
    unfold QueueStep at hq
    rw [hacc, hdeq] at hq
    exact ⟨q', hinv, by rw [hq]⟩
  unfold System.Matches
  cases e with
  | addRet p f a v =>
    by_cases hv : v = 0
    · simp only [QueueStep, Event.accepted?, hv, if_true] at hq
      obtain ⟨id, rfl⟩ := hq
      have hbound := hinv.wait.bound
      rw [hinv.chain.rep.count, List.length_append, List.length_singleton] at hbound
      simp only [Event.fifo?, hv, if_true]
      refine ⟨_, ⟨?_, rfl⟩, _, hinv, by simp⟩
      rw [List.length_map]
      omega
    · simpa [Event.fifo?, hv] using hkeep (by simp [Event.accepted?, hv]) rfl
  | dequeue w f a =>
    obtain ⟨id, rfl⟩ := hq
    exact ⟨_, rfl, q', hinv, rfl⟩
  | _ => exact hkeep rfl rfl

/-- **The pool refines the bounded queue.** -/
theorem run_simulates (hmax : 0 ≤ queueMaxNum) {tr : List (Event n P F A)} {s : State n P F A}
    (h : (poolSystem n P F A queueMaxNum).Run tr s) :
    ∃ q, (boundedFifo (F × A) queueMaxNum.toNat).Run (tr.filterMap Event.fifo?)
      (q.map Prod.snd) ∧ Inv queueMaxNum s q := by
  have hsim : ∃ t, (boundedFifo (F × A) queueMaxNum.toNat).Run (tr.filterMap Event.fifo?) t ∧
      ∃ q, Inv queueMaxNum s q ∧ q.map Prod.snd = t := by
    refine System.Run.simulation (R := fun _ s t => ∃ q, Inv queueMaxNum s q ∧
      q.map Prod.snd = t) ?_ ?_ h
    · rintro s rfl
      exact ⟨[], rfl, [], inv_init hmax, rfl⟩
    · rintro tr s e s' _ - ⟨q, hinv, rfl⟩ hst
      obtain ⟨q', hinv', hq⟩ := inv_step hinv hst
      exact hq.matches hinv'
  obtain ⟨_, hrun, q, hinv, rfl⟩ := hsim
  exact ⟨q, hrun, hinv⟩

/-- **Run lemma.** After any run the invariant holds for the queue of the jobs
accepted and not yet dequeued. -/
theorem run_inv (hmax : 0 ≤ queueMaxNum) {tr : List (Event n P F A)} {s : State n P F A}
    (h : (poolSystem n P F A queueMaxNum).Run tr s) :
    ∃ q, Inv queueMaxNum s q ∧ dequeuedJobs tr ++ q.map Prod.snd = acceptedJobs tr := by
  obtain ⟨q, hrun, hinv⟩ := run_simulates hmax h
  obtain ⟨hlaw, -⟩ := run_deqs_append hrun
  rw [fifo_enqs, fifo_deqs] at hlaw
  exact ⟨q, hinv, hlaw⟩

-- ---------------------------------------------------------------------------
-- The refinement theorem
-- ---------------------------------------------------------------------------

omit [DecidableEq P] in
/-- The job accepted `k`-th is taken by one worker, in the `k`-th dequeue, or is
still in the queue. -/
theorem dequeued_by {tr : List (Event n P F A)} {q : List (F × A)}
    (hlaw : dequeuedJobs tr ++ q = acceptedJobs tr) {k : ℕ} {j : F × A}
    (hk : (acceptedJobs tr)[k]? = some j) :
    (∃! w, (dequeues tr)[k]? = some (w, j)) ∨
      ((dequeues tr)[k]? = none ∧ q[k - (dequeues tr).length]? = some j) := by
  rw [← hlaw] at hk
  have hlen : (dequeuedJobs tr).length = (dequeues tr).length := by simp [dequeuedJobs]
  by_cases hlt : k < (dequeues tr).length
  · left
    rw [List.getElem?_append_left (by omega), dequeuedJobs, List.getElem?_map,
      List.getElem?_eq_getElem hlt, Option.map_some, Option.some.injEq] at hk
    refine ⟨(dequeues tr)[k].1, ?_, ?_⟩
    · show (dequeues tr)[k]? = some ((dequeues tr)[k].1, j)
      rw [List.getElem?_eq_getElem hlt, ← hk]
    · intro w hw
      rw [List.getElem?_eq_getElem hlt, Option.some.injEq] at hw
      rw [hw]
  · right
    rw [List.getElem?_append_right (by omega), hlen] at hk
    exact ⟨List.getElem?_eq_none (by omega), hk⟩

/-- A refused `add_job` leaves the queue as it is. -/
theorem refused_unchanged {s s' : State n P F A} {q : List (Entry F A)}
    (h : Rep s.pool s.heap q) {p : P} {f : F} {a : A} (hst : Step s (.addRet p f a (-1)) s') :
    s'.pool = s.pool ∧ s'.heap = s.heap := by
  cases hst with
  | addRet _ alloc _ hacq hfresh hrun hends =>
    rcases threadpoolAddJob_ret h hfresh hrun hends with ⟨-, hp, hh, -⟩ | ⟨hv, -⟩
    · exact ⟨hp, hh⟩
    · simp at hv

/-- **The thread pool is a bounded FIFO queue.** In every state a run of any
number of workers and producers reaches, for the jobs `q` on the chain:

* the chain from `head` to `tail` holds exactly `q`, `queue_cur_num` counts it
  and stays within its bounds, and `head` is NULL exactly when it is 0;
* the run is a run of the bounded queue: the jobs dequeued, followed by `q`,
  are the jobs accepted, in acceptance order;
* each accepted job is taken by one worker or still in the queue, and no two
  workers hold the same job, nor one that is on the chain;
* an `add_job` that returns -1 changes neither the pool nor the heap;
* no region faults, whatever `malloc` returns. -/
theorem threadpool_refines_fifo (hmax : 1 ≤ queueMaxNum) {tr : List (Event n P F A)}
    {s : State n P F A} (h : (poolSystem n P F A queueMaxNum).Run tr s) :
    ∃ q : List (Entry F A), Rep s.pool s.heap q ∧
      0 ≤ s.pool.queueCurNum ∧ s.pool.queueCurNum ≤ queueMaxNum ∧
      (s.pool.head = none ↔ s.pool.queueCurNum = 0) ∧
      (boundedFifo (F × A) queueMaxNum.toNat).Run (tr.filterMap Event.fifo?) (q.map Prod.snd) ∧
      dequeuedJobs tr ++ q.map Prod.snd = acceptedJobs tr ∧
      dequeuedJobs tr <+: acceptedJobs tr ∧
      (∀ (k : ℕ) (j : F × A), (acceptedJobs tr)[k]? = some j →
        (∃! w, (dequeues tr)[k]? = some (w, j)) ∨
          ((dequeues tr)[k]? = none ∧
            (q.map Prod.snd)[k - (dequeues tr).length]? = some j)) ∧
      (∀ w id, (s.worker w).held? = some id → id ∉ q.map Prod.fst ∧
        ∀ w', (s.worker w').held? = some id → w' = w) ∧
      (∀ p f a s', Step s (.addRet p f a (-1)) s' → s'.pool = s.pool ∧ s'.heap = s.heap) ∧
      (∀ alloc f a, threadpoolAddJob s.pool s.heap alloc f a ≠ none) ∧
      threadpoolFunction s.pool s.heap ≠ none := by
  obtain ⟨q, hrun, hinv⟩ := run_simulates (by omega) h
  obtain ⟨hlaw, -⟩ := run_deqs_append hrun
  rw [fifo_enqs, fifo_deqs] at hlaw
  have hrep := hinv.chain.rep
  have hcount := hrep.count
  refine ⟨q, hrep, by omega, hinv.wait.bound, ?_, hrun, hlaw, ⟨_, hlaw⟩,
    fun k j hk => dequeued_by hlaw hk, ?_, fun p f a s' hst => refused_unchanged hrep hst,
    threadpoolAddJob_ne_none hrep, threadpoolFunction_ne_none hrep⟩
  · rw [hrep.head_eq_none_iff, hrep.count_eq_zero_iff]
  · intro w id hw
    exact ⟨hinv.chain.heldOff w id hw, fun w' hw' => hinv.chain.heldInj w' w id hw' hw⟩

/-- The theorem at work: one job goes through a queue of capacity 1. -/
theorem threadpool_refines_fifo_one :
    ∃ s : State 1 Unit ℕ ℕ,
      (poolSystem 1 Unit ℕ ℕ 1).Run [.call () 7 8, .addRet () 7 8 0, .dequeue 0 7 8] s ∧
      ∃ q : List (Entry ℕ ℕ), Rep s.pool s.heap q ∧
        [(7, 8)] ++ q.map Prod.snd = acceptedJobs (n := 1) (P := Unit)
          [.call () 7 8, .addRet () 7 8 0, .dequeue 0 7 8] := by
  have hcall := System.Run.step (S := poolSystem 1 Unit ℕ ℕ 1) (.init rfl)
    (Step.call () 7 8 ⟨by decide, by decide⟩ rfl)
  have hadd := hcall.step (Step.addRet () (some 0) ⟨by decide, by decide⟩ rfl
    (fun _ _ => rfl) rfl rfl)
  have hdeq := hadd.step (Step.workerDequeue 0 (.inl rfl) rfl rfl rfl)
  obtain ⟨q, hrep, -, -, -, -, hlaw, -⟩ := threadpool_refines_fifo (by decide) hdeq
  exact ⟨_, hdeq, q, hrep, hlaw⟩

end Uartd.ThreadPool
