import Uartd.Lib.Family
import Uartd.ThreadPool.Refinement

/-!
# Uartd — what `threadpool_destroy` leaves behind

When `threadpool_destroy` returns 0, every accepted job has run exactly once
and no other job has run. The books that show it count jobs with multiplicity:

* `dequeues_ledger` — the jobs dequeued are the jobs started and the jobs in
  the hands of a worker that has not started them (`WorkerPc.unstarted`);
* `starts_ledger` — the jobs started are the jobs finished and the ones in
  progress (`WorkerPc.inProgress`).

Once all workers are joined both of the pending sums are zero, and the queue is
empty, so nothing is left to discard (`no_discards`). A call of `add_job` can
only be accepted before `queue_close` was set (`none_accepted_after_close`).
-/

namespace Uartd.ThreadPool

open Uartd.Lib

variable {n : ℕ} {P F A : Type} {queueMaxNum : Int}

/-- The job a worker has taken from the queue and not yet started. -/
def WorkerPc.unstarted (heap : Heap F A) : WorkerPc F A → Multiset (F × A)
  | .holding id => ((heap id).map Job.payload).elim 0 fun j => {j}
  | _ => 0

/-- The job whose callback a worker is running. -/
def WorkerPc.inProgress : WorkerPc F A → Multiset (F × A)
  | .running _ f a => {(f, a)}
  | _ => 0

@[simp] theorem WorkerPc.wake_unstarted (heap : Heap F A) (pc : WorkerPc F A) :
    pc.wake.unstarted heap = pc.unstarted heap := by
  cases pc <;> rfl

@[simp] theorem WorkerPc.wake_inProgress (pc : WorkerPc F A) :
    pc.wake.inProgress = pc.inProgress := by
  cases pc <;> rfl

/-- The jobs in workers' hands keep their payload when other cells change. -/
theorem unstarted_congr {heap heap' : Heap F A} {pc : WorkerPc F A}
    (h : ∀ id, pc.held? = some id → (heap' id).map Job.payload = (heap id).map Job.payload) :
    pc.unstarted heap' = pc.unstarted heap := by
  cases pc with
  | holding id =>
    show ((heap' id).map Job.payload).elim 0 _ = ((heap id).map Job.payload).elim 0 _
    rw [h id rfl]
  | _ => rfl

variable [DecidableEq P]

-- ---------------------------------------------------------------------------
-- The ledgers
-- ---------------------------------------------------------------------------

/-- The job worker `x` starts by an event. -/
def Event.startedBy? (x : Fin n) : Event n P F A → Option (F × A)
  | .start w f a => if w = x then some (f, a) else none
  | _ => none

/-- The job worker `x` takes by an event. -/
def Event.dequeuedBy? (x : Fin n) : Event n P F A → Option (F × A)
  | .dequeue w f a => if w = x then some (f, a) else none
  | _ => none

omit [DecidableEq P] in
/-- A worker moves between program points with the same unstarted job. -/
theorem unstarted_update {s : State n P F A} {w : Fin n} {pc : WorkerPc F A}
    (hpc : pc.unstarted s.heap = (s.worker w).unstarted s.heap) (x : Fin n) :
    (Function.update s.worker w pc x).unstarted s.heap = (s.worker x).unstarted s.heap := by
  by_cases hx : x = w
  · rw [hx, Function.update_self, hpc]
  · rw [Function.update_of_ne hx]

/-- **One worker and one step of the pool**: it holds an unstarted job from the
dequeue to the start. -/
theorem unstarted_at {s s' : State n P F A} {e : Event n P F A} {q : List (Entry F A)}
    (h : Inv queueMaxNum s q) (hst : Step s e s') (x : Fin n) :
    (s'.worker x).unstarted s'.heap + ofOption (e.startedBy? x) =
      (s.worker x).unstarted s.heap + ofOption (e.dequeuedBy? x) := by
  cases hst with
  | addWait p _ hacq hrun hends =>
    obtain ⟨-, hh, -⟩ := threadpoolAddJob_wait h.chain.rep (by simp) hrun hends
    show (s.worker x).unstarted _ + _ = _
    rw [hh]
    rfl
  | @addRet f a r v p alloc _ hacq hfresh hrun hends =>
    -- the cells of held jobs are not the new one, so their payloads stay
    have hpay : ∀ id, (s.worker x).held? = some id →
        (r.heap id).map Job.payload = (s.heap id).map Job.payload := by
      intro id hx
      rcases threadpoolAddJob_ret h.chain.rep hfresh hrun hends with
        ⟨-, -, hh, -⟩ | ⟨-, new, hnew, -, -, -, -, -, -, -, -, -, hpay⟩
      · rw [hh]
      · refine hpay id ?_
        intro heq
        exact h.chain.heldAlloc x id hx (heq ▸ hnew)
    show WorkerPc.unstarted r.heap _ + 0 = (s.worker x).unstarted s.heap + 0
    congr 1
    split
    · rw [WorkerPc.wake_unstarted]
      exact unstarted_congr hpay
    · exact unstarted_congr hpay
  | workerWait w hw hrun hends =>
    show (Function.update s.worker w .asleep x).unstarted s.heap + 0 = _ + 0
    rw [unstarted_update (by rcases hw with hw | hw <;> rw [hw] <;> rfl)]
  | workerExit w hw hrun hends =>
    show (Function.update s.worker w .exited x).unstarted s.heap + 0 = _ + 0
    rw [unstarted_update (by rcases hw with hw | hw <;> rw [hw] <;> rfl)]
  | @workerDequeue r pjob job w hw hrun hends hjob =>
    show (Function.update s.worker w (.holding pjob) x).unstarted s.heap + 0 =
      _ + ofOption (if w = x then some job.payload else none)
    by_cases hx : x = w
    · subst hx
      have hzero : (s.worker x).unstarted s.heap = 0 := by
        rcases hw with hw | hw <;> rw [hw] <;> rfl
      rw [Function.update_self, if_pos rfl, hzero, zero_add, add_zero, WorkerPc.unstarted, hjob]
      rfl
    · rw [Function.update_of_ne hx, if_neg (Ne.symm hx)]
      rfl
  | workerSpurious w =>
    show (Function.update s.worker w (s.worker w).wake x).unstarted s.heap + 0 = _ + 0
    rw [unstarted_update (WorkerPc.wake_unstarted _ _)]
  | @workerStart pjob job w hw hjob =>
    show (Function.update s.worker w (.running pjob job.callbackFunction job.arg) x).unstarted
      s.heap + ofOption (if w = x then some job.payload else none) = _ + 0
    by_cases hx : x = w
    · subst hx
      rw [Function.update_self, if_pos rfl, hw]
      show 0 + ofOption (some job.payload) =
        ((s.heap pjob).map Job.payload).elim 0 (fun j => {j}) + 0
      rw [hjob, zero_add, add_zero]
      rfl
    · rw [Function.update_of_ne hx, if_neg (Ne.symm hx)]
      rfl
  | workerFinish w hw =>
    show (Function.update s.worker w _ x).unstarted s.heap + 0 = _ + 0
    rw [unstarted_update (by rw [hw]; rfl)]
  | @workerFree pjob w hw halloc =>
    show (Function.update s.worker w .ready x).unstarted (Function.update s.heap pjob none) + 0 =
      _ + 0
    have hheld : (s.worker w).held? = some pjob := by rw [hw]; rfl
    by_cases hxw : x = w
    · rw [hxw, Function.update_self, hw]
      rfl
    · -- the freed job is in no other worker's hands
      rw [Function.update_of_ne hxw]
      congr 1
      refine unstarted_congr fun id hid => ?_
      have hne : id ≠ pjob := by
        intro heq
        exact hxw (h.chain.heldInj x w id hid (heq ▸ hheld))
      rw [Function.update_of_ne hne]
  | destroyBroadcastNotEmpty hd =>
    show (s.worker x).wake.unstarted s.heap + 0 = _ + 0
    rw [WorkerPc.wake_unstarted]
  | @destroyDiscard p job hd hhead hjob =>
    rw [h.head_of_freeing hd] at hhead
    simp at hhead
  | _ => rfl

/-- A job in the hands of a worker was there before, or has just been taken. -/
theorem unstarted_of_step {s s' : State n P F A} {e : Event n P F A} {q : List (Entry F A)}
    (h : Inv queueMaxNum s q) (hst : Step s e s') {x : Fin n} {j : F × A}
    (hj : j ∈ (s'.worker x).unstarted s'.heap) :
    j ∈ (s.worker x).unstarted s.heap ∨ e = .dequeue x j.1 j.2 := by
  have hmem := Multiset.mem_add.mpr (.inl (b := j ∈ ofOption (e.startedBy? x)) hj)
  rw [unstarted_at h hst x, Multiset.mem_add] at hmem
  refine hmem.imp id fun htaken => ?_
  cases e with
  | dequeue w f a =>
    by_cases hw : w = x
    · rw [Event.dequeuedBy?, if_pos hw] at htaken
      rw [Multiset.mem_singleton.mp htaken, hw]
    · rw [Event.dequeuedBy?, if_neg hw] at htaken
      exact absurd htaken (Multiset.notMem_zero j)
  | _ => exact absurd htaken (Multiset.notMem_zero j)

/-- A worker starts the job in its hands. -/
theorem unstarted_of_start {s s' : State n P F A} {w : Fin n} {f : F} {a : A}
    (hst : Step s (.start w f a) s') : (f, a) ∈ (s.worker w).unstarted s.heap := by
  cases hst with
  | @workerStart pjob job _ hw hjob =>
    rw [hw, WorkerPc.unstarted, hjob]
    exact Multiset.mem_singleton_self job.payload

theorem sum_jobs_ite (w : Fin n) (j : F × A) :
    ∑ x : Fin n, ofOption (if w = x then some j else none) = ofOption (some j) := by
  rw [Finset.sum_eq_single w (fun x _ hx => by rw [if_neg (Ne.symm hx)]; rfl)
    fun hw => absurd (Finset.mem_univ w) hw, if_pos rfl]

/-- One step of the pool, in the first ledger. -/
theorem unstarted_step {s s' : State n P F A} {e : Event n P F A} {q : List (Entry F A)}
    (h : Inv queueMaxNum s q) (hst : Step s e s') :
    total (WorkerPc.unstarted s'.heap) s'.worker + ofOption e.started? =
      total (WorkerPc.unstarted s.heap) s.worker + ofOption (e.dequeued?.map Prod.snd) := by
  have hstarted : ∑ x, ofOption (e.startedBy? x) = ofOption e.started? := by
    cases e with
    | start w f a => exact sum_jobs_ite w (f, a)
    | _ => exact Finset.sum_eq_zero fun _ _ => rfl
  have hdequeued : ∑ x, ofOption (e.dequeuedBy? x) = ofOption (e.dequeued?.map Prod.snd) := by
    cases e with
    | dequeue w f a => exact sum_jobs_ite w (f, a)
    | _ => exact Finset.sum_eq_zero fun _ _ => rfl
  rw [← hstarted, ← hdequeued, total, total, ← Finset.sum_add_distrib, ← Finset.sum_add_distrib]
  exact Finset.sum_congr rfl fun x _ => unstarted_at h hst x

/-- One step of the pool, in the second ledger. -/
theorem inProgress_step {s s' : State n P F A} {e : Event n P F A} (hst : Step s e s') :
    total WorkerPc.inProgress s'.worker + ofOption e.finished? =
      total WorkerPc.inProgress s.worker + ofOption e.started? := by
  -- a worker that can enter its loop runs nothing
  have hidle : ∀ {w}, s.worker w = .ready ∨ s.worker w = .woken →
      (s.worker w).inProgress = 0 := by
    intro w hw
    rcases hw with hw | hw <;> rw [hw] <;> rfl
  cases hst with
  | addRet p alloc _ hacq hfresh hrun hends =>
    show total WorkerPc.inProgress _ + 0 = _ + 0
    congr 1
    refine total_congr fun w => ?_
    split
    · rw [WorkerPc.wake_inProgress]
    · rfl
  | workerWait w hw hrun hends =>
    show total _ (Function.update s.worker w .asleep) + 0 = _ + 0
    rw [total_update_eq (by rw [hidle hw]; rfl)]
  | workerExit w hw hrun hends =>
    show total _ (Function.update s.worker w .exited) + 0 = _ + 0
    rw [total_update_eq (by rw [hidle hw]; rfl)]
  | @workerDequeue r pjob job w hw hrun hends hjob =>
    show total _ (Function.update s.worker w (.holding pjob)) + 0 = _ + 0
    rw [total_update_eq (by rw [hidle hw]; rfl)]
  | workerSpurious w =>
    show total _ (Function.update s.worker w (s.worker w).wake) + 0 = _ + 0
    rw [total_update_eq (WorkerPc.wake_inProgress _)]
  | @workerStart pjob job w hw hjob =>
    have htotal := total_update (w := WorkerPc.inProgress) (f := s.worker) w
      (.running pjob job.callbackFunction job.arg)
    rw [hw] at htotal
    exact htotal
  | @workerFinish pjob f a w hw =>
    have htotal := total_update (w := WorkerPc.inProgress) (f := s.worker) w (.returned pjob)
    rw [hw] at htotal
    exact htotal
  | workerFree w hw halloc =>
    show total _ (Function.update s.worker w .ready) + 0 = _ + 0
    rw [total_update_eq (by rw [hw]; rfl)]
  | destroyBroadcastNotEmpty hd =>
    show total _ (fun w => (s.worker w).wake) + 0 = _ + 0
    rw [total_map WorkerPc.wake_inProgress]
  | _ => rfl

/-- **First ledger.** Dequeued is started plus taken and not started. -/
theorem dequeues_ledger (hmax : 0 ≤ queueMaxNum) {tr : List (Event n P F A)} {s : State n P F A}
    (h : (poolSystem n P F A queueMaxNum).Run tr s) :
    (dequeuedJobs tr : Multiset (F × A)) =
      startedJobs tr + total (WorkerPc.unstarted s.heap) s.worker := by
  refine System.Run.invariant (I := fun tr s => (dequeuedJobs tr : Multiset (F × A)) =
    (startedJobs tr : Multiset (F × A)) + total (WorkerPc.unstarted s.heap) s.worker) ?_ ?_ h
  · rintro s rfl
    show (0 : Multiset (F × A)) = 0 + total _ _
    rw [zero_add]
    exact (total_eq_zero fun _ => rfl).symm
  · intro tr s e s' hrun hledger hst
    obtain ⟨q, hinv, -⟩ := run_inv hmax hrun
    have hstep := unstarted_step hinv hst
    simp only [dequeuedJobs, dequeues, startedJobs, List.map_filterMap] at hledger ⊢
    rw [coe_filterMap_append_one, coe_filterMap_append_one, hledger]
    rw [add_assoc, add_assoc, ← hstep, add_comm (ofOption e.started?)]

/-- **Second ledger.** Started is finished plus in progress. -/
theorem starts_ledger {tr : List (Event n P F A)} {s : State n P F A}
    (h : (poolSystem n P F A queueMaxNum).Run tr s) :
    (startedJobs tr : Multiset (F × A)) =
      finishedJobs tr + total WorkerPc.inProgress s.worker := by
  refine System.Run.invariant (I := fun tr s => (startedJobs tr : Multiset (F × A)) =
    (finishedJobs tr : Multiset (F × A)) + total WorkerPc.inProgress s.worker) ?_ ?_ h
  · rintro s rfl
    show (0 : Multiset (F × A)) = 0 + total _ _
    rw [zero_add]
    exact (total_eq_zero fun _ => rfl).symm
  · intro tr s e s' _ hledger hst
    have hstep := inProgress_step hst
    simp only [startedJobs, finishedJobs] at hledger ⊢
    rw [coe_filterMap_append_one, coe_filterMap_append_one, hledger]
    rw [add_assoc, add_assoc, ← hstep, add_comm (ofOption e.finished?)]

-- ---------------------------------------------------------------------------
-- Closing the queue
-- ---------------------------------------------------------------------------

/-- `queue_close` is never reset, and `threadpool_destroy` sets it. -/
theorem queueClose_step {s s' : State n P F A} {e : Event n P F A} {q : List (Entry F A)}
    (h : Inv queueMaxNum s q) (hst : Step s e s')
    (hset : s.pool.queueClose = true ∨ e = .close) : s'.pool.queueClose = true := by
  have hrep := h.chain.rep
  cases hst with
  | addWait p _ hacq hrun hends =>
    simpa [threadpoolAddJob_queueClose hrep (by simp) hrun] using hset
  | addRet p alloc _ hacq hfresh hrun hends =>
    simpa [threadpoolAddJob_queueClose hrep hfresh hrun] using hset
  | workerWait w hw hrun hends => simpa [threadpoolFunction_queueClose hrep hrun] using hset
  | workerExit w hw hrun hends => simpa [threadpoolFunction_queueClose hrep hrun] using hset
  | workerDequeue w hw hrun hends hjob =>
    simpa [threadpoolFunction_queueClose hrep hrun] using hset
  | destroyRefused hd hrun =>
    rw [destroyEnter_eq (h.destroyerAt hd)] at hrun
    exact absurd hrun destroyDrain_ne_ret
  | destroyEnterWait hd hrun =>
    rw [destroyEnter_eq (h.destroyerAt hd)] at hrun
    obtain ⟨-, rfl⟩ := destroyDrain_wait hrun
    rfl
  | destroyEnterDrained hd hrun =>
    rw [destroyEnter_eq (h.destroyerAt hd)] at hrun
    obtain ⟨-, rfl⟩ := destroyDrain_drained hrun
    rfl
  | destroyWait hd hrun =>
    obtain ⟨-, rfl⟩ := destroyDrain_wait hrun
    simpa using hset
  | destroyDrained hd hrun =>
    obtain ⟨-, rfl⟩ := destroyDrain_drained hrun
    simpa using hset
  | _ => simpa using hset

theorem queueClose_of_close (hmax : 0 ≤ queueMaxNum) {tr : List (Event n P F A)}
    {s : State n P F A} (h : (poolSystem n P F A queueMaxNum).Run tr s) (hmem : .close ∈ tr) :
    s.pool.queueClose = true := by
  refine System.Run.invariant
    (I := fun tr s => Event.close ∈ tr → s.pool.queueClose = true) ?_ ?_ h hmem
  · intro s _ hmem
    simp at hmem
  · intro tr s e s' hrun hset hst hmem
    obtain ⟨q, hinv, -⟩ := run_inv hmax hrun
    refine queueClose_step hinv hst ?_
    rcases List.mem_append.mp hmem with hmem | hmem
    · exact .inl (hset hmem)
    · exact .inr (List.mem_singleton.mp hmem).symm

/-- No job is accepted after `queue_close` was set. -/
theorem none_accepted_after_close (hmax : 0 ≤ queueMaxNum) {pre post : List (Event n P F A)}
    {s : State n P F A}
    (h : (poolSystem n P F A queueMaxNum).Run (pre ++ .close :: post) s) :
    acceptedJobs post = [] := by
  refine List.filterMap_eq_nil_iff.mpr fun e he => ?_
  by_contra hacc
  -- the state in which this call was accepted
  obtain ⟨l₁, l₂, rfl⟩ := List.append_of_mem he
  obtain ⟨s₁, s₂, hrun, hst⟩ := h.at_event (pre ++ .close :: l₁) l₂ e (by simp)
  obtain ⟨q, hinv, -⟩ := run_inv hmax hrun
  have hset := queueClose_of_close hmax hrun (by simp)
  cases hst with
  | addRet p alloc _ hacq hfresh hadd hends =>
    rcases threadpoolAddJob_ret hinv.chain.rep hfresh hadd hends with ⟨hr, -⟩ |
      ⟨-, id, -, hopen, -⟩
    · simp [Event.accepted?, hr] at hacc
    · rw [hset] at hopen
      simp at hopen
  | _ => exact hacc rfl

/-- The loop that frees leftover jobs never finds one. -/
theorem no_discards (hmax : 0 ≤ queueMaxNum) {tr : List (Event n P F A)} {s : State n P F A}
    (h : (poolSystem n P F A queueMaxNum).Run tr s) : discardedJobs tr = [] := by
  refine List.filterMap_eq_nil_iff.mpr fun e he => ?_
  obtain ⟨pre, post, rfl⟩ := List.append_of_mem he
  obtain ⟨s₁, s₂, hrun, hst⟩ := h.at_event pre post e rfl
  obtain ⟨q, hinv, -⟩ := run_inv hmax hrun
  cases hst with
  | destroyDiscard hd hhead hjob =>
    rw [hinv.head_of_freeing hd] at hhead
    simp at hhead
  | _ => rfl

-- ---------------------------------------------------------------------------
-- The shutdown theorem
-- ---------------------------------------------------------------------------

/-- When `threadpool_destroy` returns 0 all workers have exited and the chain is
empty. -/
theorem at_destroyRet (hmax : 0 ≤ queueMaxNum) {tr : List (Event n P F A)}
    {s s' : State n P F A} (h : (poolSystem n P F A queueMaxNum).Run tr s)
    (hret : Step s (.destroyRet 0) s') :
    (∀ w, s.worker w = .exited) ∧ s.pool.head = none ∧ dequeuedJobs tr = acceptedJobs tr := by
  obtain ⟨q, hinv, hlaw⟩ := run_inv hmax h
  cases hret with
  | destroyRefused hd hrun =>
    rw [destroyEnter_eq (hinv.destroyerAt hd)] at hrun
    exact absurd hrun destroyDrain_ne_ret
  | destroyFree hd hhead =>
    have hnil := hinv.chain.rep.head_eq_none_iff.mp hhead
    rw [hnil, List.map_nil, List.append_nil] at hlaw
    exact ⟨hinv.join.done (.inl hd), hhead, hlaw⟩

/-- **Shutdown is complete.** At the moment `threadpool_destroy` returns 0: the
callbacks run to completion are the accepted jobs, each exactly once (as
multisets, so an argument passed to one call only identifies its job); the
callbacks started are the same ones, so no refused job was run; no job was
accepted after `queue_close` was set; and no job was discarded, the chain being
empty. -/
theorem destroy_completes_accepted (hmax : 1 ≤ queueMaxNum) {tr : List (Event n P F A)}
    {s s' : State n P F A} (h : (poolSystem n P F A queueMaxNum).Run tr s)
    (hret : Step s (.destroyRet 0) s') :
    (finishedJobs tr).Perm (acceptedJobs tr) ∧
    (startedJobs tr).Perm (acceptedJobs tr) ∧
    (∀ j ∈ refusedJobs tr, j ∉ acceptedJobs tr → j ∉ startedJobs tr) ∧
    (∀ pre post, tr = pre ++ .close :: post → acceptedJobs post = []) ∧
    s.pool.head = none ∧ discardedJobs tr = [] := by
  obtain ⟨hexited, hhead, hdeq⟩ := at_destroyRet (by omega) h hret
  -- nobody holds a job any more, so both ledgers are closed
  have hstarted := dequeues_ledger (by omega) h
  rw [total_eq_zero fun w => by rw [hexited w]; rfl, add_zero, Multiset.coe_eq_coe, hdeq]
    at hstarted
  have hfinished := starts_ledger h
  rw [total_eq_zero fun w => by rw [hexited w]; rfl, add_zero, Multiset.coe_eq_coe] at hfinished
  refine ⟨(hstarted.trans hfinished).symm, hstarted.symm, ?_, ?_, hhead, no_discards (by omega) h⟩
  · intro j _ hj hmem
    exact hj (hstarted.mem_iff.mpr hmem)
  · rintro pre post rfl
    exact none_accepted_after_close (by omega) h

/-- The theorem at work: one job is added and run, then the pool is destroyed. -/
theorem destroy_completes_accepted_one :
    ∃ (tr : List (Event 1 Unit ℕ ℕ)) (s s' : State 1 Unit ℕ ℕ),
      (poolSystem 1 Unit ℕ ℕ 1).Run tr s ∧ Step s (.destroyRet 0) s' ∧
      acceptedJobs tr = [(7, 8)] ∧ finishedJobs tr = [(7, 8)] := by
  have hcall := System.Run.step (S := poolSystem 1 Unit ℕ ℕ 1) (.init rfl)
    (Step.call () 7 8 ⟨by decide, by decide⟩ rfl)
  have hadd := hcall.step (Step.addRet () (some 0) ⟨by decide, by decide⟩ rfl
    (fun _ _ => rfl) rfl rfl)
  have hdeq := hadd.step (Step.workerDequeue 0 (.inl rfl) rfl rfl rfl)
  have hstart := hdeq.step (Step.workerStart 0 rfl rfl)
  have hfinish := hstart.step (Step.workerFinish 0 rfl)
  have hfree := hfinish.step (Step.workerFree 0 rfl (by simp))
  have hclose := (hfree.step (Step.destroyCall rfl)).step (Step.destroyEnterDrained rfl rfl)
  have hbroadcast := (hclose.step (Step.destroyBroadcastNotEmpty rfl)).step
    (Step.destroyBroadcastNotFull rfl)
  have hexit := hbroadcast.step (Step.workerExit 0 (.inl rfl) rfl rfl)
  have hjoin := (hexit.step (Step.destroyJoin 0 rfl (by decide) rfl)).step
    (Step.destroyCleanup rfl (by decide))
  obtain ⟨hperm, -⟩ := destroy_completes_accepted (by decide) hjoin (.destroyFree rfl rfl)
  exact ⟨_, _, _, hjoin, .destroyFree rfl rfl, rfl, List.perm_singleton.mp hperm⟩

end Uartd.ThreadPool
