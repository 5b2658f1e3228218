import Uartd.ThreadPool.Shutdown

/-!
# Uartd — jobs on their way through the pool

A job handed to `threadpool_add_job` is in the call, then on the chain, then in
the hands of a worker, until its callback is called. `pendingJobs` are the jobs
on that way, with multiplicity; `pendingJobs_step` is what one step of the pool
does to them: a call puts a job in, a refusal or a start takes it out.

`callback_step` and `outside_step` say when a worker is in a callback and a
thread in a call of `threadpool_add_job`, for the systems around a pool.

`handOver` is the way of one job through an idle pool, step by step.
-/

namespace Uartd.ThreadPool

open Uartd.Lib

variable {n : ℕ} {P F A : Type} {queueMaxNum : Int}

/-- The job of the call of `threadpool_add_job` a thread is in. -/
def ProducerPc.inCall : ProducerPc F A → Multiset (F × A)
  | .outside => 0
  | .entering f a | .asleep f a | .woken f a => {(f, a)}

/-- The job a call of `threadpool_add_job` begins with. -/
def Event.called? : Event n P F A → Option (F × A)
  | .call _ f a => some (f, a)
  | _ => none

/-- The job a call of `threadpool_add_job` ends with. -/
def Event.returned? : Event n P F A → Option (F × A)
  | .addRet _ f a _ => some (f, a)
  | _ => none

theorem ProducerPc.wake_inCall (pc : ProducerPc F A) : pc.wake.inCall = pc.inCall := by
  cases pc <;> rfl

theorem ProducerPc.inCall_of_acquiring {pc : ProducerPc F A} {f : F} {a : A}
    (h : pc.acquiring = some (f, a)) : pc.inCall = {(f, a)} := by
  cases pc with
  | entering f' a' | woken f' a' =>
    simp only [ProducerPc.acquiring, Option.some.injEq] at h
    rw [← h]
    rfl
  | outside | asleep f' a' => simp [ProducerPc.acquiring] at h

variable [Fintype P]

/-- The jobs whose callback has not been called: in a call of `add_job`, on the
chain `q`, or just taken by a worker. -/
def pendingJobs (s : State n P F A) (q : List (Entry F A)) : Multiset (F × A) :=
  total ProducerPc.inCall s.producer + (q.map Prod.snd : List (F × A)) +
    total (WorkerPc.unstarted s.heap) s.worker

theorem pendingJobs_init : pendingJobs (threadpoolInit n P F A queueMaxNum) [] = 0 := by
  have hcalls : total ProducerPc.inCall (fun _ : P => (.outside : ProducerPc F A)) = 0 :=
    total_eq_zero fun _ => rfl
  have hhands : total (WorkerPc.unstarted fun _ => none)
      (fun _ : Fin n => (.ready : WorkerPc F A)) = 0 :=
    total_eq_zero fun _ => rfl
  show total ProducerPc.inCall (fun _ : P => (.outside : ProducerPc F A)) + 0 +
    total (WorkerPc.unstarted fun _ => none) (fun _ : Fin n => (.ready : WorkerPc F A)) = 0
  rw [hcalls, hhands]
  rfl

variable [DecidableEq P]

/-- One step of the pool, and the jobs in calls of `add_job`. -/
theorem inCall_step {s s' : State n P F A} {e : Event n P F A} (hst : Step s e s') :
    total ProducerPc.inCall s'.producer + ofOption e.returned? =
      total ProducerPc.inCall s.producer + ofOption e.called? := by
  cases hst with
  | call p f a halive hout =>
    have htotal := total_update (w := ProducerPc.inCall) (f := s.producer) p (.entering f a)
    rw [hout] at htotal
    exact htotal
  | @addWait f a r p _ hacq hrun hends =>
    show total _ (Function.update s.producer p (.asleep f a)) + 0 = _ + 0
    rw [total_update_eq (by rw [ProducerPc.inCall_of_acquiring hacq]; rfl)]
  | @addRet f a r v p alloc _ hacq hfresh hrun hends =>
    have htotal := total_update (w := ProducerPc.inCall) (f := s.producer) p .outside
    rw [ProducerPc.inCall_of_acquiring hacq] at htotal
    exact htotal
  | producerSpurious p =>
    show total _ (Function.update s.producer p (s.producer p).wake) + 0 = _ + 0
    rw [total_update_eq (ProducerPc.wake_inCall _)]
  | workerDequeue w hw hrun hends hjob =>
    show total ProducerPc.inCall _ + 0 = _ + 0
    congr 1
    split
    · exact total_map ProducerPc.wake_inCall
    · rfl
  | destroyBroadcastNotFull hd =>
    show total _ (fun p => (s.producer p).wake) + 0 = _ + 0
    rw [total_map ProducerPc.wake_inCall]
  | _ => rfl

omit [Fintype P] in
/-- A call that returns has handed its job over or gives it back. -/
theorem returned_step {s s' : State n P F A} {e : Event n P F A} {q : List (Entry F A)}
    (h : Inv queueMaxNum s q) (hst : Step s e s') :
    ofOption e.returned? = ofOption e.accepted? + ofOption e.refused? := by
  cases hst with
  | @addRet f a r v p alloc _ hacq hfresh hrun hends =>
    rcases threadpoolAddJob_ret h.chain.rep hfresh hrun hends with ⟨rfl, -⟩ | ⟨rfl, -⟩ <;>
      simp [ofOption, Event.returned?, Event.accepted?, Event.refused?]
  | _ => exact (add_zero _).symm

omit [Fintype P] [DecidableEq P] in
theorem QueueStep.coe {e : Event n P F A} {q q' : List (Entry F A)} (h : QueueStep q e q') :
    ((q'.map Prod.snd : List (F × A)) : Multiset (F × A)) + ofOption (e.dequeued?.map Prod.snd) =
      (q.map Prod.snd : List (F × A)) + ofOption e.accepted? := by
  unfold QueueStep at h
  cases e with
  | addRet p f a v =>
    by_cases hv : v = 0
    · simp only [Event.accepted?, hv, if_true] at h
      obtain ⟨id, rfl⟩ := h
      simp [ofOption, Event.accepted?, Event.dequeued?, hv, ← Multiset.coe_add]
    · simp only [Event.accepted?, hv, if_false, Event.dequeued?] at h
      simp [ofOption, Event.accepted?, Event.dequeued?, hv, h]
  | dequeue w f a =>
    obtain ⟨id, rfl⟩ := h
    simp [ofOption, Event.accepted?, Event.dequeued?, add_comm]
  | _ =>
    obtain rfl : q' = q := h
    rfl

/-- What goes in by a call comes out by a refusal or a start. -/
theorem pendingJobs_eq {s s' : State n P F A} {e : Event n P F A} {q q' : List (Entry F A)}
    (h : Inv queueMaxNum s q) (hst : Step s e s') (hq : QueueStep q e q') :
    pendingJobs s' q' + ofOption e.started? + ofOption e.refused? =
      pendingJobs s q + ofOption e.called? := by
  have hcall := inCall_step hst
  rw [returned_step h hst] at hcall
  have hqueue := hq.coe
  have hhands := unstarted_step h hst
  have hsum := congrArg₂ (· + ·) (congrArg₂ (· + ·) hcall hqueue) hhands
  refine add_right_cancel (b := ofOption e.accepted? + ofOption (e.dequeued?.map Prod.snd)) ?_
  simp only [pendingJobs] at hsum ⊢
  calc _ = _ := by abel
    _ = _ := hsum
    _ = _ := by abel

/-- **Step lemma.** The pool keeps its invariant and its jobs. -/
theorem pendingJobs_step {s s' : State n P F A} {e : Event n P F A} {q : List (Entry F A)}
    (h : Inv queueMaxNum s q) (hst : Step s e s') :
    ∃ q', Inv queueMaxNum s' q' ∧
      pendingJobs s' q' + ofOption e.started? + ofOption e.refused? =
        pendingJobs s q + ofOption e.called? := by
  obtain ⟨q', hinv, hq⟩ := inv_step h hst
  exact ⟨q', hinv, pendingJobs_eq h hst hq⟩

/-- A job on its way was on its way before, or has just been handed over. -/
theorem pendingJobs_of_step {s s' : State n P F A} {e : Event n P F A} {q q' : List (Entry F A)}
    (h : Inv queueMaxNum s q) (hst : Step s e s') (hq : QueueStep q e q') {j : F × A}
    (hj : j ∈ pendingJobs s' q') : j ∈ pendingJobs s q ∨ e.called? = some j := by
  have hmem : j ∈ pendingJobs s q + ofOption e.called? := by
    rw [← pendingJobs_eq h hst hq, add_assoc]
    exact Multiset.mem_add.mpr (.inl hj)
  refine (Multiset.mem_add.mp hmem).imp id fun hcalled => ?_
  cases hc : e.called? with
  | none =>
    rw [hc] at hcalled
    exact absurd hcalled (Multiset.notMem_zero j)
  | some j' =>
    rw [hc] at hcalled
    rw [Multiset.mem_singleton.mp hcalled]

-- ---------------------------------------------------------------------------
-- Inside and outside
-- ---------------------------------------------------------------------------

/-- The callback a worker is in. -/
def WorkerPc.callback? : WorkerPc F A → Option F
  | .running _ f _ => some f
  | _ => none

theorem WorkerPc.wake_callback (pc : WorkerPc F A) : pc.wake.callback? = pc.callback? := by
  cases pc <;> rfl

omit [Fintype P] in
/-- A worker enters a callback by a start and leaves it by a finish. -/
theorem callback_step {s s' : State n P F A} {e : Event n P F A} (hst : Step s e s') (x : Fin n) :
    (s'.worker x).callback? = (s.worker x).callback? ∨
      (∃ f a, e = .start x f a ∧ (s.worker x).callback? = none ∧
        (s'.worker x).callback? = some f) ∨
      ∃ f a, e = .finish x f a ∧ (s'.worker x).callback? = none := by
  -- a worker that moves outside its callback
  have hmove : ∀ {w : Fin n} {pc : WorkerPc F A}, (s.worker w).callback? = none →
      pc.callback? = none →
      (Function.update s.worker w pc x).callback? = (s.worker x).callback? := by
    intro w pc hw hpc
    by_cases hx : x = w
    · rw [hx, Function.update_self, hpc, hw]
    · rw [Function.update_of_ne hx]
  have hawake : ∀ {w : Fin n}, s.worker w = .ready ∨ s.worker w = .woken →
      (s.worker w).callback? = none := by
    intro w hw
    rcases hw with hw | hw <;> rw [hw] <;> rfl
  cases hst with
  | addRet p alloc _ hacq hfresh hrun hends =>
    left
    dsimp only
    split
    · exact WorkerPc.wake_callback _
    · rfl
  | workerWait w hw hrun hends => exact .inl (hmove (hawake hw) rfl)
  | workerExit w hw hrun hends => exact .inl (hmove (hawake hw) rfl)
  | workerDequeue w hw hrun hends hjob => exact .inl (hmove (hawake hw) rfl)
  | workerSpurious w =>
    left
    by_cases hx : x = w
    · rw [hx]
      show (Function.update s.worker w _ w).callback? = _
      rw [Function.update_self, WorkerPc.wake_callback]
    · show (Function.update s.worker w _ x).callback? = _
      rw [Function.update_of_ne hx]
  | @workerStart pjob job w hw hjob =>
    by_cases hx : x = w
    · subst hx
      refine .inr (.inl ⟨_, _, rfl, by rw [hw]; rfl, ?_⟩)
      show (Function.update s.worker x _ x).callback? = _
      rw [Function.update_self]
      rfl
    · left
      show (Function.update s.worker w _ x).callback? = _
      rw [Function.update_of_ne hx]
  | @workerFinish pjob f a w hw =>
    by_cases hx : x = w
    · subst hx
      refine .inr (.inr ⟨_, _, rfl, ?_⟩)
      show (Function.update s.worker x _ x).callback? = _
      rw [Function.update_self]
      rfl
    · left
      show (Function.update s.worker w _ x).callback? = _
      rw [Function.update_of_ne hx]
  | workerFree w hw halloc => exact .inl (hmove (by rw [hw]; rfl) rfl)
  | destroyBroadcastNotEmpty hd => exact .inl (WorkerPc.wake_callback _)
  | _ => exact .inl rfl

omit [Fintype P] in
/-- A start puts its worker into the callback. -/
theorem callback_of_start {s s' : State n P F A} {w : Fin n} {f : F} {a : A}
    (hst : Step s (.start w f a) s') :
    (s.worker w).callback? = none ∧ (s'.worker w).callback? = some f := by
  cases hst with
  | workerStart _ hw hjob =>
    refine ⟨by rw [hw]; rfl, ?_⟩
    show (Function.update s.worker w _ w).callback? = _
    rw [Function.update_self]
    rfl

omit [Fintype P] in
/-- A finish takes its worker out of the callback. -/
theorem callback_of_finish {s s' : State n P F A} {w : Fin n} {f : F} {a : A}
    (hst : Step s (.finish w f a) s') : (s'.worker w).callback? = none := by
  cases hst with
  | workerFinish _ hw =>
    show (Function.update s.worker w _ w).callback? = _
    rw [Function.update_self]
    rfl

omit [Fintype P] in
/-- A worker that takes a job holds none, and is in no callback before and after. -/
theorem free_of_dequeue {s s' : State n P F A} {w : Fin n} {f : F} {a : A}
    (hst : Step s (.dequeue w f a) s') : (s.worker w).unstarted s.heap = 0 ∧
      (s.worker w).callback? = none ∧ (s'.worker w).callback? = none := by
  cases hst with
  | workerDequeue _ hw hrun hends hjob =>
    refine ⟨by rcases hw with hw | hw <;> rw [hw] <;> rfl,
      by rcases hw with hw | hw <;> rw [hw] <;> rfl, ?_⟩
    show (Function.update s.worker w _ w).callback? = _
    rw [Function.update_self]
    rfl

theorem ProducerPc.wake_outside {pc : ProducerPc F A} (h : pc = .outside) :
    pc.wake = .outside := by
  rw [h]
  rfl

omit [Fintype P] in
/-- A thread outside `threadpool_add_job` stays outside until it calls it. -/
theorem outside_step {s s' : State n P F A} {e : Event n P F A} (hst : Step s e s') {p : P}
    (h : s.producer p = .outside) :
    s'.producer p = .outside ∨ ∃ f a, e = .call p f a := by
  cases hst with
  | call p' f a halive hout =>
    by_cases hp : p = p'
    · exact .inr ⟨f, a, by rw [hp]⟩
    · left
      show Function.update s.producer p' _ p = .outside
      rw [Function.update_of_ne hp, h]
  | addWait p' halive hacq hrun hends =>
    left
    have hp : p ≠ p' := by
      rintro rfl
      simp [h, ProducerPc.acquiring] at hacq
    show Function.update s.producer p' _ p = .outside
    rw [Function.update_of_ne hp, h]
  | addRet p' alloc _ hacq hfresh hrun hends =>
    left
    show Function.update s.producer p' .outside p = .outside
    by_cases hp : p = p'
    · rw [hp, Function.update_self]
    · rw [Function.update_of_ne hp, h]
  | producerSpurious p' =>
    left
    show Function.update s.producer p' _ p = .outside
    by_cases hp : p = p'
    · rw [hp, Function.update_self, ProducerPc.wake_outside (hp ▸ h)]
    · rw [Function.update_of_ne hp, h]
  | workerDequeue w hw hrun hends hjob =>
    left
    dsimp only
    split
    · exact ProducerPc.wake_outside h
    · exact h
  | destroyBroadcastNotFull hd => exact .inl (ProducerPc.wake_outside h)
  | _ => exact .inl h

omit [Fintype P] in
/-- A call that returns leaves its thread outside. -/
theorem outside_of_addRet {s s' : State n P F A} {p : P} {f : F} {a : A} {v : Int}
    (hst : Step s (.addRet p f a v) s') : s'.producer p = .outside := by
  cases hst with
  | addRet _ alloc _ hacq hfresh hrun hends => exact Function.update_self _ _ _

-- ---------------------------------------------------------------------------
-- The way of one job
-- ---------------------------------------------------------------------------

/-- An open pool with nothing queued, its only producer outside and nobody
asleep; the cells from `k` on are free. -/
structure AtRest (s : State n Unit F A) (k : ℕ) : Prop where
  head     : s.pool.head = none
  count    : s.pool.queueCurNum = 0
  room     : 0 < s.pool.queueMaxNum
  opened   : s.pool.queueClose = false ∧ s.pool.poolClose = false
  outside  : s.producer () = .outside
  destroyer : s.destroyer = .outside
  fresh    : ∀ id, k ≤ id → s.heap id = none
  awake    : ∀ w, s.worker w ≠ .asleep

theorem WorkerPc.wake_of_ne {pc : WorkerPc F A} (h : pc ≠ .asleep) : pc.wake = pc := by
  cases pc with
  | asleep => exact absurd rfl h
  | _ => rfl

/-- In a pool at rest no job is on its way, unless a worker holds one. -/
theorem pendingJobs_of_rest {s : State n Unit F A} {k : ℕ} (h : AtRest s k)
    {q : List (Entry F A)} (hq : Rep s.pool s.heap q)
    (hworker : ∀ w, (s.worker w).unstarted s.heap = 0) : pendingJobs s q = 0 := by
  have hcall : total ProducerPc.inCall s.producer = 0 := by
    refine total_eq_zero fun p => ?_
    rw [h.outside]
    rfl
  obtain rfl := hq.head_eq_none_iff.mp h.head
  rw [pendingJobs, hcall, total_eq_zero hworker]
  rfl

/-- A pool at rest takes a job, and any worker that is ready can run it. -/
theorem handOver {s : State n Unit F A} {k : ℕ} (h : AtRest s k) {w : Fin n}
    (hw : s.worker w = .ready) (f : F) (a : A) :
    ∃ s₁ s₂ s₃ s₄, Step s (.call () f a) s₁ ∧ Step s₁ (.addRet () f a 0) s₂ ∧
      Step s₂ (.dequeue w f a) s₃ ∧ s₃.destroyer = .outside ∧ Step s₃ (.start w f a) s₄ ∧
      AtRest s₄ (k + 1) ∧ s₄.worker = Function.update s.worker w (.running k f a) := by
  have hroom := h.room
  have hopen := h.opened
  have halive : s.alive := ⟨by rw [h.destroyer]; simp, by rw [h.destroyer]; simp⟩
  have hadd : threadpoolAddJob s.pool s.heap (some k) f a = some ⟨.ret 0,
      { s.pool with head := some k, tail := some k, queueCurNum := 1 },
      Function.update s.heap k (some ⟨f, a, none⟩), true⟩ := by
    unfold threadpoolAddJob
    rw [if_neg (by rw [h.count]; omega), if_neg (by simp [hopen]), h.head, h.count]
    rfl
  have hcall := Step.call () f a halive h.outside
  -- nobody sleeps, so the broadcast finds every worker where it is
  have hwake : (fun x => (s.worker x).wake) = s.worker :=
    funext fun x => WorkerPc.wake_of_ne (h.awake x)
  obtain ⟨s₂, hret, hpool, hheap, hworker, hproducer, hdestroyer⟩ : ∃ s₂ : State n Unit F A,
      Step { s with producer := Function.update s.producer () (.entering f a) }
        (.addRet () f a 0) s₂ ∧
      s₂.pool = { s.pool with head := some k, tail := some k, queueCurNum := 1 } ∧
      s₂.heap = Function.update s.heap k (some ⟨f, a, none⟩) ∧ s₂.worker = s.worker ∧
      s₂.producer () = .outside ∧ s₂.destroyer = .outside :=
    ⟨_, .addRet () (some k) halive (by simp [ProducerPc.acquiring])
      (by simpa using h.fresh k (Nat.le_refl k)) hadd rfl, rfl, rfl, hwake, by simp, h.destroyer⟩
  have htake : threadpoolFunction s₂.pool s₂.heap = some ⟨.job k,
      { s.pool with head := none, tail := none, queueCurNum := 0 }, true,
      0 = s.pool.queueMaxNum - 1⟩ := by
    rw [hpool, hheap]
    unfold threadpoolFunction
    rw [if_neg (by simp), if_neg (by simp [hopen])]
    rfl
  have hjob : s₂.heap k = some ⟨f, a, none⟩ := by rw [hheap, Function.update_self]
  have hdeq := Step.workerDequeue w (.inl (hworker ▸ hw)) htake rfl hjob
  have hstart := Step.workerStart (s := { s₂ with
    pool := { s.pool with head := none, tail := none, queueCurNum := 0 }
    worker := Function.update s₂.worker w (.holding k)
    destroyer := if true then s₂.destroyer.wake else s₂.destroyer
    producer := if decide (0 = s.pool.queueMaxNum - 1) then fun p => (s₂.producer p).wake
      else s₂.producer }) w (Function.update_self _ _ _) hjob
  have hrunning : s₂.destroyer.wake = .outside := by
    rw [hdestroyer]
    rfl
  refine ⟨_, s₂, _, _, hcall, hret, hdeq, hrunning, hstart, ?_, ?_⟩
  · refine ⟨rfl, rfl, hroom, hopen, ?_, hrunning, ?_, ?_⟩
    · show (if _ then _ else _ : Unit → ProducerPc F A) () = _
      split <;> simp [ProducerPc.wake, hproducer]
    · intro id hid
      show s₂.heap id = none
      rw [hheap, Function.update_of_ne (show id ≠ k by omega)]
      exact h.fresh id (by omega)
    · intro x hx
      have hx' : Function.update s₂.worker w (.running k f a) x = .asleep := by
        simpa using hx
      rcases update_eq_cases hx' with ⟨-, hpc⟩ | ⟨-, hpc⟩
      · simp at hpc
      · rw [hworker] at hpc
        exact h.awake x hpc
  · show Function.update (Function.update s₂.worker w _) w _ = _
    rw [Function.update_idem, hworker]

/-- A worker that comes out of its callback frees its job and is ready again. -/
theorem comeBack {s : State n Unit F A} {k : ℕ} (h : AtRest s k) {w : Fin n} {j : JobId} {f : F}
    {a : A} (hw : s.worker w = .running j f a) (hjob : s.heap j ≠ none) :
    ∃ s₁ s₂, Step s (.finish w f a) s₁ ∧ Step s₁ .internal s₂ ∧ s₂.destroyer = .outside ∧
      AtRest s₂ k ∧ s₂.worker = Function.update s.worker w .ready := by
  have hfinish := Step.workerFinish w hw
  have hfree := Step.workerFree (s := { s with
    worker := Function.update s.worker w (.returned j) }) w (Function.update_self _ _ _) hjob
  refine ⟨_, _, hfinish, hfree, h.destroyer, ?_, Function.update_idem _ _ _⟩
  refine ⟨h.head, h.count, h.room, h.opened, h.outside, h.destroyer, fun id hid => ?_,
    fun x hx => ?_⟩
  · by_cases hid' : id = j
    · rw [hid']
      exact Function.update_self _ _ _
    · exact (Function.update_of_ne hid' _ _).trans (h.fresh id hid)
  · have hx' : Function.update s.worker w .ready x = .asleep := by simpa using hx
    rcases update_eq_cases hx' with ⟨-, hpc⟩ | ⟨-, hpc⟩
    · cases hpc
    · exact h.awake x hpc

/-- A pool at rest refuses a job when `malloc` fails, and is as it was. -/
theorem refuse {s : State n Unit F A} {k : ℕ} (h : AtRest s k) (f : F) (a : A) :
    ∃ s₁ s₂, Step s (.call () f a) s₁ ∧ Step s₁ (.addRet () f a (-1)) s₂ ∧ AtRest s₂ k := by
  have hroom := h.room
  have hopen := h.opened
  have halive : s.alive := ⟨by rw [h.destroyer]; simp, by rw [h.destroyer]; simp⟩
  have hadd :
      threadpoolAddJob s.pool s.heap none f a = some ⟨.ret (-1), s.pool, s.heap, false⟩ := by
    unfold threadpoolAddJob
    rw [if_neg (by rw [h.count]; omega), if_neg (by simp [hopen])]
  refine ⟨_, _, .call () f a halive h.outside, .addRet () none halive
    (by simp [ProducerPc.acquiring]) (by simp) hadd rfl, h.head, h.count, hroom, hopen, ?_,
    h.destroyer, h.fresh, h.awake⟩
  simp

theorem atRest_init {queueMaxNum : Int} (hmax : 0 < queueMaxNum) :
    AtRest (threadpoolInit n Unit F A queueMaxNum) 0 :=
  ⟨rfl, rfl, hmax, ⟨rfl, rfl⟩, rfl, rfl, fun _ _ => rfl, fun _ => by simp [threadpoolInit]⟩

end Uartd.ThreadPool
