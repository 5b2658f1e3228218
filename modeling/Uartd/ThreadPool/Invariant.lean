import Uartd.Lib.Family
import Uartd.ThreadPool.Chain

/-!
# Uartd — the invariant of the thread pool

Three groups of facts hold in every reachable state:

* `ChainInv s q` — the chain represents `q`; the jobs workers have taken are
  still allocated, off the chain, and each in the hands of one worker;
* `WaitInv` — the close flags agree with the program point of
  `threadpool_destroy`, and a thread asleep without a signal is asleep for a
  reason: a worker because the queue is empty, a producer because it is full,
  the destroyer because it is not empty;
* `JoinInv` — workers exit only after `pool_close`, and stay exited; the
  workers joined so far have exited.

`inv_step` says that every step keeps them and what it does to the queue
(`QueueStep`). The wake-ups carry `WaitInv`: the first job put into an empty
queue broadcasts `queue_not_empty`, the first job taken from a full one
broadcasts `queue_not_full`, the last job taken signals `queue_empty`.
-/

namespace Uartd.ThreadPool

open Uartd.Lib

variable {n : ℕ} {P F A : Type} {queueMaxNum : Int}

/-- The job a worker has taken and not yet freed. -/
def WorkerPc.held? : WorkerPc F A → Option JobId
  | .holding id => some id
  | .running id _ _ => some id
  | .returned id => some id
  | _ => none

structure ChainInv (s : State n P F A) (q : List (Entry F A)) : Prop where
  rep       : Rep s.pool s.heap q
  heldOff   : ∀ w id, (s.worker w).held? = some id → id ∉ q.map Prod.fst
  heldAlloc : ∀ w id, (s.worker w).held? = some id → s.heap id ≠ none
  heldInj   : ∀ w w' id, (s.worker w).held? = some id → (s.worker w').held? = some id → w = w'

/-- The close flags at a program point of `threadpool_destroy`. -/
def DestroyerOk (pool : Threadpool) : DestroyerPc → Prop
  | .outside | .entering => pool.queueClose = false ∧ pool.poolClose = false
  | .asleep => pool.queueClose = true ∧ pool.poolClose = false ∧ pool.queueCurNum ≠ 0
  | .woken => pool.queueClose = true ∧ pool.poolClose = false
  | .unlocked | .wokeWorkers | .joining _ | .freeing =>
    pool.queueClose = true ∧ pool.poolClose = true ∧ pool.queueCurNum = 0
  | .returned v =>
    v = 0 ∧ pool.queueClose = true ∧ pool.poolClose = true ∧ pool.queueCurNum = 0

/-- `pool_close` is only set once the queue has drained. -/
theorem DestroyerOk.drained {pool : Threadpool} {d : DestroyerPc} (h : DestroyerOk pool d)
    (hclose : pool.poolClose = true) : pool.queueCurNum = 0 := by
  cases d with
  | outside | entering | woken => simp [h.2] at hclose
  | asleep => simp [h.2.1] at hclose
  | unlocked | wokeWorkers | joining _ | freeing => exact h.2.2
  | returned _ => exact h.2.2.2

structure WaitInv (queueMaxNum : Int) (s : State n P F A) : Prop where
  threadNum : s.pool.threadNum = n
  maxNum    : s.pool.queueMaxNum = queueMaxNum
  bound     : s.pool.queueCurNum ≤ queueMaxNum
  destroyer : DestroyerOk s.pool s.destroyer
  workerAsleep : ∀ w, s.worker w = .asleep →
    s.pool.queueCurNum = 0 ∧ (s.pool.poolClose = true → s.destroyer = .unlocked)
  producerAsleep : ∀ p f a, s.producer p = .asleep f a → s.pool.queueCurNum = queueMaxNum

structure JoinInv (s : State n P F A) : Prop where
  exited : ∀ w, s.worker w = .exited → s.pool.poolClose = true
  joined : ∀ i, s.destroyer = .joining i → ∀ w : Fin n, w.val < i → s.worker w = .exited
  done   : s.destroyer = .freeing ∨ s.destroyer = .returned 0 → ∀ w, s.worker w = .exited

structure Inv (queueMaxNum : Int) (s : State n P F A) (q : List (Entry F A)) : Prop where
  chain : ChainInv s q
  wait  : WaitInv queueMaxNum s
  join  : JoinInv s

theorem Inv.destroyerAt {s : State n P F A} {q : List (Entry F A)} (h : Inv queueMaxNum s q)
    {d : DestroyerPc} (hd : s.destroyer = d) : DestroyerOk s.pool d := by
  rw [← hd]
  exact h.wait.destroyer

/-- The pool was drained before it was closed: the last loop of
`threadpool_destroy` finds nothing. -/
theorem Inv.head_of_freeing {s : State n P F A} {q : List (Entry F A)} (h : Inv queueMaxNum s q)
    (hd : s.destroyer = .freeing) : s.pool.head = none := by
  have hok := h.destroyerAt hd
  rw [h.chain.rep.head_eq_none_iff, ← h.chain.rep.count_eq_zero_iff]
  exact hok.2.2

/-- What an event does to the queue. -/
def QueueStep (q : List (Entry F A)) (e : Event n P F A) (q' : List (Entry F A)) : Prop :=
  match e.accepted?, e.dequeued? with
  | some j, _ => ∃ id, q' = q ++ [(id, j)]
  | none, some (_, j) => ∃ id, q = (id, j) :: q'
  | none, none => q' = q

-- ---------------------------------------------------------------------------
-- Wake-ups and program points
-- ---------------------------------------------------------------------------

@[simp] theorem WorkerPc.wake_held (pc : WorkerPc F A) : pc.wake.held? = pc.held? := by
  cases pc <;> rfl

@[simp] theorem WorkerPc.wake_ne_asleep (pc : WorkerPc F A) : pc.wake ≠ .asleep := by
  cases pc <;> simp [WorkerPc.wake]

@[simp] theorem WorkerPc.wake_eq_exited {pc : WorkerPc F A} : pc.wake = .exited ↔ pc = .exited := by
  cases pc <;> simp [WorkerPc.wake]

@[simp] theorem ProducerPc.wake_ne_asleep (pc : ProducerPc F A) (f : F) (a : A) :
    pc.wake ≠ .asleep f a := by
  cases pc <;> simp [ProducerPc.wake]

theorem DestroyerPc.eq_of_wake_eq {pc d : DestroyerPc} (hd : d ≠ .woken) (h : pc.wake = d) :
    pc = d := by
  cases pc with
  | asleep => exact absurd h.symm hd
  | _ => exact h

theorem held_update_cases {g : Fin n → WorkerPc F A} {w x : Fin n} {pc : WorkerPc F A} {id : JobId}
    (h : (Function.update g w pc x).held? = some id) :
    (x = w ∧ pc.held? = some id) ∨ (x ≠ w ∧ (g x).held? = some id) := by
  by_cases hxw : x = w
  · subst hxw
    rw [Function.update_self] at h
    exact .inl ⟨rfl, h⟩
  · rw [Function.update_of_ne hxw] at h
    exact .inr ⟨hxw, h⟩

-- ---------------------------------------------------------------------------
-- The chain and the jobs in workers' hands
-- ---------------------------------------------------------------------------

/-- A step that leaves the chain alone and hands no job to a worker. -/
theorem ChainInv.keep {s s' : State n P F A} {q : List (Entry F A)} (h : ChainInv s q)
    (hhead : s'.pool.head = s.pool.head) (htail : s'.pool.tail = s.pool.tail)
    (hcur : s'.pool.queueCurNum = s.pool.queueCurNum) (hheap : s'.heap = s.heap)
    (hheld : ∀ w id, (s'.worker w).held? = some id → (s.worker w).held? = some id) :
    ChainInv s' q where
  rep := by
    rw [hheap]
    exact h.rep.congr_pool hhead htail hcur
  heldOff w id hw := h.heldOff w id (hheld w id hw)
  heldAlloc w id hw := by
    rw [hheap]
    exact h.heldAlloc w id (hheld w id hw)
  heldInj w w' id hw hw' := h.heldInj w w' id (hheld w id hw) (hheld w' id hw')

/-- A step of a producer or of the destroyer. -/
theorem ChainInv.same {s s' : State n P F A} {q : List (Entry F A)} (h : ChainInv s q)
    (hpool : s'.pool = s.pool) (hheap : s'.heap = s.heap) (hworker : s'.worker = s.worker) :
    ChainInv s' q := by
  refine h.keep (by rw [hpool]) (by rw [hpool]) (by rw [hpool]) hheap fun w id hw => ?_
  rw [hworker] at hw
  exact hw

/-- A worker moves between program points that hold the same job, or none. -/
theorem held_of_update {s : State n P F A} {w : Fin n} {pc : WorkerPc F A}
    (hpc : pc.held? = none ∨ pc.held? = (s.worker w).held?) :
    ∀ x id, (Function.update s.worker w pc x).held? = some id → (s.worker x).held? = some id := by
  intro x id hx
  rcases held_update_cases hx with ⟨rfl, hid⟩ | ⟨-, hid⟩
  · rcases hpc with hnone | hsame
    · rw [hnone] at hid
      simp at hid
    · rw [← hsame]
      exact hid
  · exact hid

-- The pool after threadpool_destroy set its flags, by how the region ended.
theorem destroyDrain_wait {pool pool' : Threadpool}
    (h : threadpoolDestroyDrain pool = (.wait, pool')) : pool.queueCurNum ≠ 0 ∧ pool' = pool := by
  unfold threadpoolDestroyDrain at h
  split at h
  · rename_i hne
    simp only [Prod.mk.injEq, true_and] at h
    exact ⟨hne, h.symm⟩
  · simp at h

theorem destroyDrain_drained {pool pool' : Threadpool}
    (h : threadpoolDestroyDrain pool = (.drained, pool')) :
    pool.queueCurNum = 0 ∧ pool' = { pool with poolClose := true } := by
  unfold threadpoolDestroyDrain at h
  split at h
  · simp at h
  · rename_i hz
    simp only [Prod.mk.injEq, true_and] at h
    exact ⟨not_not.mp hz, h.symm⟩

theorem destroyDrain_ne_ret {pool pool' : Threadpool} {v : Int} :
    threadpoolDestroyDrain pool ≠ (.ret v, pool') := by
  unfold threadpoolDestroyDrain
  split <;> simp

/-- The call of an open pool sets `queue_close` and goes on. -/
theorem destroyEnter_eq {pool : Threadpool}
    (hopen : pool.queueClose = false ∧ pool.poolClose = false) :
    threadpoolDestroyEnter pool = threadpoolDestroyDrain { pool with queueClose := true } := by
  unfold threadpoolDestroyEnter
  rw [if_neg (by simp [hopen])]

variable [DecidableEq P]

theorem chain_step {s s' : State n P F A} {e : Event n P F A} {q : List (Entry F A)}
    (h : Inv queueMaxNum s q) (hst : Step s e s') :
    ∃ q', ChainInv s' q' ∧ QueueStep q e q' := by
  have hc := h.chain
  cases hst with
  | call p f a => exact ⟨q, hc.same rfl rfl rfl, rfl⟩
  | addWait p _ hacq hrun hends =>
    obtain ⟨hp, hh, -⟩ := threadpoolAddJob_wait hc.rep (by simp) hrun hends
    exact ⟨q, hc.keep (by rw [hp]) (by rw [hp]) (by rw [hp]) hh fun _ _ hw => hw, rfl⟩
  | @addRet f a r v p alloc _ hacq hfresh hrun hends =>
    rcases threadpoolAddJob_ret hc.rep hfresh hrun hends with ⟨rfl, hp, hh, hb⟩ |
      ⟨rfl, id, hnew, -, -, -, hrep, -, -, -, -, hb, hpay⟩
    · -- refused: nothing changed
      refine ⟨q, hc.keep (by rw [hp]) (by rw [hp]) (by rw [hp]) hh ?_, by simp [QueueStep,
        Event.accepted?, Event.dequeued?]⟩
      intro w id hw
      simpa [hb] using hw
    · -- accepted: the new job is in no worker's hands
      have hheld : ∀ w j, ((if r.broadcastNotEmpty then fun w => (s.worker w).wake
          else s.worker) w).held? = some j → (s.worker w).held? = some j := by
        intro w j hw
        split at hw
        · rwa [WorkerPc.wake_held] at hw
        · exact hw
      have hne : ∀ w j, (s.worker w).held? = some j → j ≠ id := by
        rintro w j hw rfl
        exact hc.heldAlloc w j hw hnew
      refine ⟨q ++ [(id, f, a)], ⟨hrep, ?_, ?_, ?_⟩, by
        simp [QueueStep, Event.accepted?]⟩
      · intro w j hw hmem
        have hw' := hheld w j hw
        simp only [List.map_append, List.mem_append, List.map_cons, List.map_nil,
          List.mem_singleton] at hmem
        rcases hmem with hmem | hmem
        · exact hc.heldOff w j hw' hmem
        · exact hne w j hw' hmem
      · intro w j hw
        have hw' := hheld w j hw
        have halloc := hc.heldAlloc w j hw'
        have hsame := hpay j (hne w j hw')
        intro hnone
        rw [show r.heap j = none from hnone] at hsame
        exact halloc (by simpa using hsame.symm)
      · intro w w' j hw hw'
        exact hc.heldInj w w' j (hheld w j hw) (hheld w' j hw')
  | producerSpurious p => exact ⟨q, hc.same rfl rfl rfl, rfl⟩
  | workerWait w hw hrun hends =>
    obtain ⟨hp, -⟩ := threadpoolFunction_wait hc.rep hrun hends
    exact ⟨q, hc.keep (by rw [hp]) (by rw [hp]) (by rw [hp]) rfl (held_of_update (.inl rfl)), rfl⟩
  | workerExit w hw hrun hends =>
    obtain ⟨hp, -⟩ := threadpoolFunction_exit hc.rep hrun hends
    exact ⟨q, hc.keep (by rw [hp]) (by rw [hp]) (by rw [hp]) rfl (held_of_update (.inl rfl)), rfl⟩
  | @workerDequeue r pjob job w hw hrun hends hjob =>
    obtain ⟨f, a, q', rfl, -, hrep, -⟩ := threadpoolFunction_job hc.rep hrun hends
    have hnd := hc.rep.nodup
    simp only [List.map_cons, List.nodup_cons] at hnd
    obtain ⟨c, hcell, hpay⟩ := hc.rep.seg.lookup (x := pjob) (d := (f, a)) (by simp)
    rw [hjob, Option.some.injEq] at hcell
    subst hcell
    refine ⟨q', ⟨hrep, ?_, ?_, ?_⟩, ⟨pjob, ?_⟩⟩
    · intro x j hx
      rcases held_update_cases hx with ⟨-, hj⟩ | ⟨-, hj⟩
      · simp only [WorkerPc.held?, Option.some.injEq] at hj
        exact hj ▸ hnd.1
      · have := hc.heldOff x j hj
        simp only [List.map_cons, List.mem_cons, not_or] at this
        exact this.2
    · intro x j hx
      rcases held_update_cases hx with ⟨-, hj⟩ | ⟨-, hj⟩
      · simp only [WorkerPc.held?, Option.some.injEq] at hj
        subst hj
        simp [hjob]
      · exact hc.heldAlloc x j hj
    · -- a job on the chain was in nobody's hands
      have hfree : ∀ x, (s.worker x).held? ≠ some pjob := by
        intro x hx
        exact hc.heldOff x pjob hx (by simp)
      intro x x' j hx hx'
      rcases held_update_cases hx with ⟨rfl, hj⟩ | ⟨-, hj⟩ <;>
        rcases held_update_cases hx' with ⟨rfl, hj'⟩ | ⟨-, hj'⟩
      · rfl
      · simp only [WorkerPc.held?, Option.some.injEq] at hj
        exact absurd (hj ▸ hj') (hfree x')
      · simp only [WorkerPc.held?, Option.some.injEq] at hj'
        exact absurd (hj' ▸ hj) (hfree x)
      · exact hc.heldInj x x' j hj hj'
    · rw [← hpay]
      rfl
  | workerSpurious w =>
    exact ⟨q, hc.keep rfl rfl rfl rfl (held_of_update (.inr (WorkerPc.wake_held _))), rfl⟩
  | workerStart w hw hjob =>
    exact ⟨q, hc.keep rfl rfl rfl rfl (held_of_update (.inr (by rw [hw]; rfl))), rfl⟩
  | workerFinish w hw =>
    exact ⟨q, hc.keep rfl rfl rfl rfl (held_of_update (.inr (by rw [hw]; rfl))), rfl⟩
  | @workerFree pjob w hw halloc =>
    have hheld : (s.worker w).held? = some pjob := by rw [hw]; rfl
    refine ⟨q, ⟨⟨hc.rep.seg.frame (hc.heldOff w pjob hheld), hc.rep.tail, hc.rep.nodup,
      hc.rep.count⟩, ?_, ?_, ?_⟩, rfl⟩
    · intro x j hx
      exact hc.heldOff x j (held_of_update (.inl rfl) x j hx)
    · intro x j hx
      rcases held_update_cases hx with ⟨-, hj⟩ | ⟨hxw, hj⟩
      · simp [WorkerPc.held?] at hj
      · have hne : j ≠ pjob := by
          rintro rfl
          exact hxw (hc.heldInj x w j hj hheld)
        show Function.update s.heap pjob none j ≠ none
        rw [Function.update_of_ne hne]
        exact hc.heldAlloc x j hj
    · intro x x' j hx hx'
      exact hc.heldInj x x' j (held_of_update (.inl rfl) x j hx)
        (held_of_update (.inl rfl) x' j hx')
  | destroyCall hd => exact ⟨q, hc.same rfl rfl rfl, rfl⟩
  | destroyRefused hd hrun =>
    rw [destroyEnter_eq (h.destroyerAt hd)] at hrun
    exact absurd hrun destroyDrain_ne_ret
  | destroyEnterWait hd hrun =>
    rw [destroyEnter_eq (h.destroyerAt hd)] at hrun
    obtain ⟨-, rfl⟩ := destroyDrain_wait hrun
    exact ⟨q, hc.keep rfl rfl rfl rfl fun _ _ hw => hw, rfl⟩
  | destroyEnterDrained hd hrun =>
    rw [destroyEnter_eq (h.destroyerAt hd)] at hrun
    obtain ⟨-, rfl⟩ := destroyDrain_drained hrun
    exact ⟨q, hc.keep rfl rfl rfl rfl fun _ _ hw => hw, rfl⟩
  | destroyWait hd hrun =>
    obtain ⟨-, rfl⟩ := destroyDrain_wait hrun
    exact ⟨q, hc.keep rfl rfl rfl rfl fun _ _ hw => hw, rfl⟩
  | destroyDrained hd hrun =>
    obtain ⟨-, rfl⟩ := destroyDrain_drained hrun
    exact ⟨q, hc.keep rfl rfl rfl rfl fun _ _ hw => hw, rfl⟩
  | destroySpurious hd => exact ⟨q, hc.same rfl rfl rfl, rfl⟩
  | destroyBroadcastNotEmpty hd =>
    exact ⟨q, hc.keep rfl rfl rfl rfl fun w id hw => by rwa [WorkerPc.wake_held] at hw, rfl⟩
  | destroyBroadcastNotFull hd => exact ⟨q, hc.same rfl rfl rfl, rfl⟩
  | destroyJoin w hd hlt hw => exact ⟨q, hc.same rfl rfl rfl, rfl⟩
  | destroyCleanup hd hge => exact ⟨q, hc.same rfl rfl rfl, rfl⟩
  | destroyDiscard hd hhead hjob =>
    rw [h.head_of_freeing hd] at hhead
    simp at hhead
  | destroyFree hd hhead => exact ⟨q, hc.same rfl rfl rfl, rfl⟩

-- ---------------------------------------------------------------------------
-- Flags and sleepers
-- ---------------------------------------------------------------------------

omit [DecidableEq P] in
/-- A step that leaves the pool and the destroyer alone and puts nobody to sleep. -/
theorem WaitInv.keep {s s' : State n P F A} (h : WaitInv queueMaxNum s)
    (hpool : s'.pool = s.pool) (hdest : s'.destroyer = s.destroyer)
    (hworker : ∀ w, s'.worker w = .asleep → s.worker w = .asleep)
    (hproducer : ∀ p f a, s'.producer p = .asleep f a → s.producer p = .asleep f a) :
    WaitInv queueMaxNum s' where
  threadNum := by rw [hpool]; exact h.threadNum
  maxNum := by rw [hpool]; exact h.maxNum
  bound := by rw [hpool]; exact h.bound
  destroyer := by rw [hpool, hdest]; exact h.destroyer
  workerAsleep w hw := by rw [hpool, hdest]; exact h.workerAsleep w (hworker w hw)
  producerAsleep p f a hp := by rw [hpool]; exact h.producerAsleep p f a (hproducer p f a hp)

omit [DecidableEq P] in
/-- Once the first of the two final broadcasts is out, no worker sleeps. -/
theorem WaitInv.workerAwake {s : State n P F A} (h : WaitInv queueMaxNum s)
    (hclosed : s.pool.poolClose = true) (hd : s.destroyer ≠ .unlocked) (x : Fin n) :
    s.worker x ≠ .asleep := by
  intro hx
  exact hd ((h.workerAsleep x hx).2 hclosed)

omit [DecidableEq P] in
theorem not_asleep_of_update {s : State n P F A} {w : Fin n} {pc : WorkerPc F A}
    (hpc : pc ≠ .asleep) :
    ∀ x, Function.update s.worker w pc x = .asleep → s.worker x = .asleep := by
  intro x hx
  rcases update_eq_cases hx with ⟨-, hpc'⟩ | ⟨-, hx'⟩
  · exact absurd hpc' hpc
  · exact hx'

theorem producer_not_asleep_of_update {s : State n P F A} {p : P} {pc : ProducerPc F A}
    (hpc : ∀ f a, pc ≠ .asleep f a) :
    ∀ x f a, Function.update s.producer p pc x = .asleep f a → s.producer x = .asleep f a := by
  intro x f a hx
  rcases update_eq_cases hx with ⟨-, hpc'⟩ | ⟨-, hx'⟩
  · exact absurd hpc' (hpc f a)
  · exact hx'

theorem wait_step {s s' : State n P F A} {e : Event n P F A} {q : List (Entry F A)}
    (h : Inv queueMaxNum s q) (hst : Step s e s') :
    WaitInv queueMaxNum s' := by
  have hc := h.chain
  have hw := h.wait
  cases hst with
  | call p f a =>
    exact hw.keep rfl rfl (fun _ hx => hx) (producer_not_asleep_of_update (by simp))
  | @addWait f a r p _ hacq hrun hends =>
    -- it sleeps because the queue is full
    obtain ⟨hp, -, hfull⟩ := threadpoolAddJob_wait hc.rep (by simp) hrun hends
    refine ⟨by rw [hp]; exact hw.threadNum, by rw [hp]; exact hw.maxNum,
      by rw [hp]; exact hw.bound, by rw [hp]; exact hw.destroyer,
      by rw [hp]; exact hw.workerAsleep, ?_⟩
    intro x f' a' hx
    rw [hp]
    rcases update_eq_cases hx with ⟨-, -⟩ | ⟨-, hx'⟩
    · rw [hfull, hw.maxNum]
    · exact hw.producerAsleep x f' a' hx'
  | @addRet f a r v p alloc _ hacq hfresh hrun hends =>
    rcases threadpoolAddJob_ret hc.rep hfresh hrun hends with ⟨-, hp, -, hb⟩ |
      ⟨-, id, -, hqc, hpc, hfull, hrep, htn, hmn, hqc', hpc', hb, -⟩
    · exact hw.keep hp rfl (fun x hx => by simpa [hb] using hx)
        (producer_not_asleep_of_update (by simp))
    · -- accepted: the queue was not full, so no producer slept; if it was
      -- empty the broadcast wakes every worker
      have hcur : r.pool.queueCurNum = s.pool.queueCurNum + 1 := by
        rw [hrep.count, hc.rep.count]
        simp
      have hbound := hw.bound
      have hmaxNum := hw.maxNum
      refine ⟨by rw [htn]; exact hw.threadNum, by rw [hmn]; exact hw.maxNum, ?_, ?_, ?_, ?_⟩
      · show r.pool.queueCurNum ≤ queueMaxNum
        omega
      · have hd := hw.destroyer
        show DestroyerOk r.pool s.destroyer
        cases hds : s.destroyer <;> rw [hds] at hd <;>
          simp_all [DestroyerOk]
      · intro x hx
        exfalso
        by_cases hq : q = []
        · simp [hb, hq] at hx
        · have hx' : s.worker x = .asleep := by simpa [hb, hq] using hx
          exact hq (hc.rep.count_eq_zero_iff.mp (hw.workerAsleep x hx').1)
      · intro x f' a' hx
        have hx' := producer_not_asleep_of_update (by simp) x f' a' hx
        have := hw.producerAsleep x f' a' hx'
        omega
  | producerSpurious p =>
    exact hw.keep rfl rfl (fun _ hx => hx) (producer_not_asleep_of_update (by simp))
  | @workerWait r w hpc hrun hends =>
    -- it sleeps because the queue is empty
    obtain ⟨hp, hcur, hopen⟩ := threadpoolFunction_wait hc.rep hrun hends
    refine ⟨by rw [hp]; exact hw.threadNum, by rw [hp]; exact hw.maxNum,
      by rw [hp]; exact hw.bound, by rw [hp]; exact hw.destroyer, ?_,
      by rw [hp]; exact hw.producerAsleep⟩
    intro x hx
    rw [hp]
    exact ⟨hcur, by simp [hopen]⟩
  | @workerExit r w hpc hrun hends =>
    obtain ⟨hp, -⟩ := threadpoolFunction_exit hc.rep hrun hends
    exact hw.keep hp rfl (not_asleep_of_update (by simp)) (fun _ _ _ hx => hx)
  | @workerDequeue r pjob job w hpc hrun hends hjob =>
    obtain ⟨f, a, q', hq, hopen, hrep, htn, hmn, hqc', hpc', hsig, hbc⟩ :=
      threadpoolFunction_job hc.rep hrun hends
    have hcur : r.pool.queueCurNum = s.pool.queueCurNum - 1 := by
      rw [hrep.count, hc.rep.count, hq]
      simp
    have hpos : s.pool.queueCurNum ≠ 0 := by
      rw [Ne, hc.rep.count_eq_zero_iff, hq]
      simp
    have hbound := hw.bound
    have hmaxNum := hw.maxNum
    refine ⟨by rw [htn]; exact hw.threadNum, by rw [hmn]; exact hw.maxNum, ?_, ?_, ?_, ?_⟩
    · show r.pool.queueCurNum ≤ queueMaxNum
      omega
    · -- the last job signals a sleeping destroyer
      have hd := hw.destroyer
      show DestroyerOk r.pool (if r.signalEmpty then s.destroyer.wake else s.destroyer)
      rw [hsig]
      cases hds : s.destroyer <;> rw [hds] at hd <;>
        by_cases hz : r.pool.queueCurNum = 0 <;>
        simp_all [DestroyerOk, DestroyerPc.wake]
    · intro x hx
      have hx' := not_asleep_of_update (by simp) x hx
      exact absurd (hw.workerAsleep x hx').1 hpos
    · intro x f' a' hx
      by_cases hlast : r.pool.queueCurNum = s.pool.queueMaxNum - 1
      · simp [hbc, hlast] at hx
      · have hx' : s.producer x = .asleep f' a' := by simpa [hbc, hlast] using hx
        have := hw.producerAsleep x f' a' hx'
        omega
  | workerSpurious w =>
    exact hw.keep rfl rfl (not_asleep_of_update (by simp)) (fun _ _ _ hx => hx)
  | workerStart w hpc hjob =>
    exact hw.keep rfl rfl (not_asleep_of_update (by simp)) (fun _ _ _ hx => hx)
  | workerFinish w hpc =>
    exact hw.keep rfl rfl (not_asleep_of_update (by simp)) (fun _ _ _ hx => hx)
  | workerFree w hpc halloc =>
    exact hw.keep rfl rfl (not_asleep_of_update (by simp)) (fun _ _ _ hx => hx)
  | destroyCall hd =>
    have hok := h.destroyerAt hd
    refine ⟨hw.threadNum, hw.maxNum, hw.bound, hok, ?_, hw.producerAsleep⟩
    intro x hx
    exact ⟨(hw.workerAsleep x hx).1, fun hclosed => by simp [hok.2] at hclosed⟩
  | destroyRefused hd hrun =>
    rw [destroyEnter_eq (h.destroyerAt hd)] at hrun
    exact absurd hrun destroyDrain_ne_ret
  | destroyEnterWait hd hrun =>
    have hok := h.destroyerAt hd
    rw [destroyEnter_eq hok] at hrun
    obtain ⟨hcur, rfl⟩ := destroyDrain_wait hrun
    refine ⟨hw.threadNum, hw.maxNum, hw.bound, ⟨rfl, hok.2, hcur⟩, ?_, hw.producerAsleep⟩
    intro x hx
    exact absurd (hw.workerAsleep x hx).1 hcur
  | destroyEnterDrained hd hrun =>
    rw [destroyEnter_eq (h.destroyerAt hd)] at hrun
    obtain ⟨hcur, rfl⟩ := destroyDrain_drained hrun
    exact ⟨hw.threadNum, hw.maxNum, hw.bound, ⟨rfl, rfl, hcur⟩,
      fun x hx => ⟨hcur, fun _ => rfl⟩, hw.producerAsleep⟩
  | destroyWait hd hrun =>
    have hok := h.destroyerAt hd
    obtain ⟨hcur, rfl⟩ := destroyDrain_wait hrun
    refine ⟨hw.threadNum, hw.maxNum, hw.bound, ⟨hok.1, hok.2, hcur⟩, ?_, hw.producerAsleep⟩
    intro x hx
    exact absurd (hw.workerAsleep x hx).1 hcur
  | destroyDrained hd hrun =>
    have hok := h.destroyerAt hd
    obtain ⟨hcur, rfl⟩ := destroyDrain_drained hrun
    exact ⟨hw.threadNum, hw.maxNum, hw.bound, ⟨hok.1, rfl, hcur⟩,
      fun x hx => ⟨hcur, fun _ => rfl⟩, hw.producerAsleep⟩
  | destroySpurious hd =>
    have hok := h.destroyerAt hd
    refine ⟨hw.threadNum, hw.maxNum, hw.bound, ⟨hok.1, hok.2.1⟩, ?_, hw.producerAsleep⟩
    intro x hx
    exact ⟨(hw.workerAsleep x hx).1, fun hclosed => by simp [hok.2.1] at hclosed⟩
  | destroyBroadcastNotEmpty hd =>
    have hok := h.destroyerAt hd
    exact ⟨hw.threadNum, hw.maxNum, hw.bound, hok, fun x hx => absurd hx (by simp),
      hw.producerAsleep⟩
  | destroyBroadcastNotFull hd =>
    have hok := h.destroyerAt hd
    exact ⟨hw.threadNum, hw.maxNum, hw.bound, hok,
      fun x hx => absurd hx (hw.workerAwake hok.2.1 (by simp [hd]) x),
      fun p f a hp => absurd hp (by simp)⟩
  | destroyJoin w hd hlt hpc =>
    have hok := h.destroyerAt hd
    exact ⟨hw.threadNum, hw.maxNum, hw.bound, hok,
      fun x hx => absurd hx (hw.workerAwake hok.2.1 (by simp [hd]) x), hw.producerAsleep⟩
  | destroyCleanup hd hge =>
    have hok := h.destroyerAt hd
    exact ⟨hw.threadNum, hw.maxNum, hw.bound, hok,
      fun x hx => absurd hx (hw.workerAwake hok.2.1 (by simp [hd]) x), hw.producerAsleep⟩
  | destroyDiscard hd hhead hjob =>
    rw [h.head_of_freeing hd] at hhead
    simp at hhead
  | destroyFree hd hhead =>
    have hok := h.destroyerAt hd
    exact ⟨hw.threadNum, hw.maxNum, hw.bound, ⟨rfl, hok⟩,
      fun x hx => absurd hx (hw.workerAwake hok.2.1 (by simp [hd]) x), hw.producerAsleep⟩

-- ---------------------------------------------------------------------------
-- Exits and joins
-- ---------------------------------------------------------------------------

omit [DecidableEq P] in
/-- A step that moves no worker to or from its exit and not the destroyer. -/
theorem JoinInv.keep {s s' : State n P F A} (h : JoinInv s)
    (hclose : s.pool.poolClose = true → s'.pool.poolClose = true)
    (hdest : s'.destroyer = s.destroyer)
    (hworker : ∀ w, s'.worker w = .exited ↔ s.worker w = .exited) : JoinInv s' where
  exited w hw := hclose (h.exited w ((hworker w).mp hw))
  joined i hi w hlt := (hworker w).mpr (h.joined i (hdest ▸ hi) w hlt)
  done hd w := (hworker w).mpr (h.done (hdest ▸ hd) w)

omit [DecidableEq P] in
theorem exited_update_iff {s : State n P F A} {w : Fin n} {pc : WorkerPc F A}
    (hpc : pc ≠ .exited) (hw : s.worker w ≠ .exited) :
    ∀ x, Function.update s.worker w pc x = .exited ↔ s.worker x = .exited := by
  intro x
  by_cases hxw : x = w
  · subst hxw
    simp [hpc, hw]
  · rw [Function.update_of_ne hxw]

theorem join_step {s s' : State n P F A} {e : Event n P F A} {q : List (Entry F A)}
    (h : Inv queueMaxNum s q) (hst : Step s e s') : JoinInv s' := by
  have hc := h.chain
  have hj := h.join
  -- a thread that can run has not exited
  have hrunnable : ∀ {w}, s.worker w = .ready ∨ s.worker w = .woken → s.worker w ≠ .exited := by
    rintro w (hw | hw) <;> simp [hw]
  -- the destroyer is at a point where nothing has been joined yet
  have hfresh : ∀ {d : DestroyerPc}, (∀ i, d ≠ .joining i) → d ≠ .freeing → d ≠ .returned 0 →
      ∀ (pool : Threadpool) (worker : Fin n → WorkerPc F A) (producer : P → ProducerPc F A),
      (∀ w, worker w = .exited → pool.poolClose = true) →
      JoinInv (⟨pool, s.heap, worker, producer, d⟩ : State n P F A) := by
    intro d h₁ h₂ h₃ pool worker producer hex
    refine ⟨hex, fun i hi => absurd hi (h₁ i), ?_⟩
    rintro (hd | hd)
    · exact absurd hd h₂
    · exact absurd hd h₃
  cases hst with
  | call p f a => exact hj.keep (fun hx => hx) rfl (fun _ => Iff.rfl)
  | addWait p _ hacq hrun hends =>
    have hclose := threadpoolAddJob_poolClose hc.rep (by simp) hrun
    exact hj.keep (fun hx => hclose.trans hx) rfl (fun _ => Iff.rfl)
  | @addRet f a r v p alloc _ hacq hfresh' hrun hends =>
    have hclose := threadpoolAddJob_poolClose hc.rep hfresh' hrun
    refine hj.keep (fun hx => hclose.trans hx) rfl fun w => ?_
    show (if r.broadcastNotEmpty then fun w => (s.worker w).wake else s.worker) w = .exited ↔ _
    split
    · exact WorkerPc.wake_eq_exited
    · exact Iff.rfl
  | producerSpurious p => exact hj.keep (fun hx => hx) rfl (fun _ => Iff.rfl)
  | workerWait w hw hrun hends =>
    obtain ⟨hp, -⟩ := threadpoolFunction_wait hc.rep hrun hends
    exact hj.keep (by rw [hp]; exact fun hx => hx) rfl (exited_update_iff (by simp) (hrunnable hw))
  | workerExit w hw hrun hends =>
    obtain ⟨hp, hclosed⟩ := threadpoolFunction_exit hc.rep hrun hends
    have hstay : ∀ x, s.worker x = .exited → Function.update s.worker w .exited x = .exited := by
      intro x hx
      by_cases hxw : x = w
      · rw [hxw, Function.update_self]
      · rw [Function.update_of_ne hxw, hx]
    refine ⟨fun x _ => ?_, fun i hi x hlt => hstay x (hj.joined i hi x hlt),
      fun hd x => hstay x (hj.done hd x)⟩
    rw [hp]
    exact hclosed
  | @workerDequeue r pjob job w hw hrun hends hjob =>
    obtain ⟨f, a, q', hq, hopen, -⟩ := threadpoolFunction_job hc.rep hrun hends
    -- jobs are only taken while the pool is open, so nothing was joined
    have hnone : ∀ x, s.worker x ≠ .exited := fun x hx => by
      simp [hj.exited x hx] at hopen
    have hback : ∀ d, d ≠ .woken → (if r.signalEmpty then s.destroyer.wake else s.destroyer) = d →
        DestroyerOk s.pool d := by
      intro d hd heq
      have hok := h.wait.destroyer
      split at heq
      · rwa [DestroyerPc.eq_of_wake_eq hd heq] at hok
      · rwa [heq] at hok
    refine ⟨fun x hx => ?_, fun i hi x hlt => ?_, fun hd x => ?_⟩
    · exact absurd ((exited_update_iff (by simp) (hrunnable hw) x).mp hx) (hnone x)
    · have hok := hback _ (by simp) hi
      simp [hok.2.1] at hopen
    · rcases hd with hd | hd
      · have hok := hback _ (by simp) hd
        simp [hok.2.1] at hopen
      · have hok := hback _ (by simp) hd
        simp [hok.2.2.1] at hopen
  | workerSpurious w =>
    refine hj.keep (fun hx => hx) rfl fun x => ?_
    show Function.update s.worker w (s.worker w).wake x = .exited ↔ _
    by_cases hxw : x = w
    · subst hxw
      rw [Function.update_self, WorkerPc.wake_eq_exited]
    · rw [Function.update_of_ne hxw]
  | workerStart w hw hjob =>
    exact hj.keep (fun hx => hx) rfl (exited_update_iff (by simp) (by simp [hw]))
  | workerFinish w hw =>
    exact hj.keep (fun hx => hx) rfl (exited_update_iff (by simp) (by simp [hw]))
  | workerFree w hw halloc =>
    exact hj.keep (fun hx => hx) rfl (exited_update_iff (by simp) (by simp [hw]))
  | destroyCall hd => exact hfresh (by simp) (by simp) (by simp) _ _ _ hj.exited
  | destroyRefused hd hrun =>
    rw [destroyEnter_eq (h.destroyerAt hd)] at hrun
    exact absurd hrun destroyDrain_ne_ret
  | destroyEnterWait hd hrun =>
    rw [destroyEnter_eq (h.destroyerAt hd)] at hrun
    obtain ⟨-, rfl⟩ := destroyDrain_wait hrun
    exact hfresh (by simp) (by simp) (by simp) _ _ _ hj.exited
  | destroyEnterDrained hd hrun =>
    rw [destroyEnter_eq (h.destroyerAt hd)] at hrun
    obtain ⟨-, rfl⟩ := destroyDrain_drained hrun
    exact hfresh (by simp) (by simp) (by simp) _ _ _ fun _ _ => rfl
  | destroyWait hd hrun =>
    obtain ⟨-, rfl⟩ := destroyDrain_wait hrun
    exact hfresh (by simp) (by simp) (by simp) _ _ _ hj.exited
  | destroyDrained hd hrun =>
    obtain ⟨-, rfl⟩ := destroyDrain_drained hrun
    exact hfresh (by simp) (by simp) (by simp) _ _ _ fun _ _ => rfl
  | destroySpurious hd => exact hfresh (by simp) (by simp) (by simp) _ _ _ hj.exited
  | destroyBroadcastNotEmpty hd =>
    exact hfresh (by simp) (by simp) (by simp) _ _ _
      fun w hw => hj.exited w (WorkerPc.wake_eq_exited.mp hw)
  | destroyBroadcastNotFull hd =>
    refine ⟨hj.exited, fun i hi w hlt => ?_, fun hd' => ?_⟩
    · simp only [DestroyerPc.joining.injEq] at hi
      omega
    · simp at hd'
  | destroyJoin w hd hlt hw =>
    refine ⟨hj.exited, fun i hi x hxi => ?_, fun hd' => ?_⟩
    · simp only [DestroyerPc.joining.injEq] at hi
      by_cases hxw : x = w
      · rw [hxw]
        exact hw
      · have hne : x.val ≠ w.val := fun heq => hxw (Fin.ext heq)
        exact hj.joined w hd x (by omega)
    · simp at hd'
  | @destroyCleanup i hd hge =>
    -- the loop ran over all thread_num workers
    have hall : ∀ x, s.worker x = .exited := by
      intro x
      have hn := h.wait.threadNum
      have hx := x.isLt
      exact hj.joined i hd x (by omega)
    exact ⟨hj.exited, fun j hj' => by simp at hj', fun _ => hall⟩
  | destroyDiscard hd hhead hjob =>
    exact ⟨hj.exited, hj.joined, hj.done⟩
  | destroyFree hd hhead =>
    exact ⟨hj.exited, fun i hi => by simp at hi, fun _ => hj.done (.inl hd)⟩

-- ---------------------------------------------------------------------------
-- All together
-- ---------------------------------------------------------------------------

/-- **Step lemma.** Every step keeps the invariant, and changes the queue as
its event says. -/
theorem inv_step {s s' : State n P F A} {e : Event n P F A} {q : List (Entry F A)}
    (h : Inv queueMaxNum s q) (hst : Step s e s') :
    ∃ q', Inv queueMaxNum s' q' ∧ QueueStep q e q' := by
  obtain ⟨q', hchain, hq⟩ := chain_step h hst
  exact ⟨q', ⟨hchain, wait_step h hst, join_step h hst⟩, hq⟩

omit [DecidableEq P] in
theorem inv_init (hmax : 0 ≤ queueMaxNum) :
    Inv queueMaxNum (threadpoolInit n P F A queueMaxNum) [] where
  chain := ⟨⟨rfl, rfl, by simp, rfl⟩, by simp, by simp [threadpoolInit, WorkerPc.held?],
    by simp [threadpoolInit, WorkerPc.held?]⟩
  wait := ⟨rfl, rfl, hmax, ⟨rfl, rfl⟩, by simp [threadpoolInit], by simp [threadpoolInit]⟩
  join := ⟨by simp [threadpoolInit], by simp [threadpoolInit], by simp [threadpoolInit]⟩

end Uartd.ThreadPool
