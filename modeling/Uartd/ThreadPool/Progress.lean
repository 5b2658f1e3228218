import Uartd.Lib.Progress
import Uartd.ThreadPool.Handover
import Uartd.ThreadPool.Wakeups

/-!
# Uartd — the pool comes to rest

What the threads of a pool do by themselves ends: `State.work` is a measure that
every step lowers, unless the step begins a call of `threadpool_add_job` or
`threadpool_destroy` or is a spurious wake-up (`work_step`). The prices follow
from who wakes whom: a job on the queue pays for the worker that takes it and
for the producers its dequeue wakes, a call pays for its job and the workers the
broadcast wakes, and `threadpool_destroy` pays for its two broadcasts.

While the pool has workers and room, it does not stop before it has settled
(`own_step_of_unsettled`): somebody can move as long as a job is queued, a call
has not returned or a callback runs. Here a callback returns when it likes; what
becomes of a pool whose callbacks do not return is in `Uartd.Receive.Progress`.
-/

namespace Uartd.ThreadPool

open Uartd.Lib

variable {n : ℕ} {P F A : Type} {queueMaxNum : Int}

/-! ## The measure -/

def WorkerPc.work : WorkerPc F A → ℕ
  | .exited => 0
  | .asleep => 1
  | .ready | .woken => 2
  | .returned _ => 3
  | .running _ _ _ => 4
  | .holding _ => 5

/-- What a queued job stands for, with `k` producers its dequeue may wake. -/
def jobWork (k : ℕ) : ℕ := k + 5

/-- A call stands for its job and the `n` workers it may wake. -/
def ProducerPc.work (n k : ℕ) : ProducerPc F A → ℕ
  | .outside => 0
  | .asleep _ _ => jobWork k + n + 1
  | .entering _ _ | .woken _ _ => jobWork k + n + 2

def DestroyerPc.work (n k : ℕ) : DestroyerPc → ℕ
  | .outside | .returned _ => 0
  | .freeing => 1
  | .joining i => n - i + 2
  | .wokeWorkers => n + k + 3
  | .unlocked => 2 * n + k + 4
  | .asleep => 2 * n + k + 5
  | .woken => 2 * n + k + 6
  | .entering => 2 * n + k + 7

variable [Fintype P]

def State.work (s : State n P F A) : ℕ :=
  total WorkerPc.work s.worker + s.pool.queueCurNum.toNat * jobWork (Fintype.card P) +
    total (ProducerPc.work n (Fintype.card P)) s.producer +
    s.destroyer.work n (Fintype.card P)

theorem WorkerPc.wake_work (pc : WorkerPc F A) : pc.wake.work ≤ pc.work + 1 := by
  cases pc <;> simp [WorkerPc.wake, WorkerPc.work]

theorem ProducerPc.wake_work (n k : ℕ) (pc : ProducerPc F A) :
    pc.wake.work n k ≤ pc.work n k + 1 := by
  cases pc <;> simp [ProducerPc.wake, ProducerPc.work]

theorem DestroyerPc.wake_work (n k : ℕ) (pc : DestroyerPc) :
    pc.wake.work n k ≤ pc.work n k + 1 := by
  cases pc <;> simp [DestroyerPc.wake, DestroyerPc.work]

omit [Fintype P] in
/-- A broadcast to the workers. -/
theorem total_wake_workers (f : Fin n → WorkerPc F A) :
    total WorkerPc.work (fun w => (f w).wake) ≤ total WorkerPc.work f + n := by
  have hle := total_le_add (f := f) fun w => WorkerPc.wake_work (f w)
  rwa [Fintype.card_fin, Nat.mul_one] at hle

/-- A broadcast to the producers. -/
theorem total_wake_producers (n k : ℕ) (f : P → ProducerPc F A) :
    total (ProducerPc.work n k) (fun p => (f p).wake) ≤
      total (ProducerPc.work n k) f + Fintype.card P := by
  have hle := total_le_add (f := f) fun p => ProducerPc.wake_work n k (f p)
  rwa [Nat.mul_one] at hle

omit [Fintype P] in
theorem ProducerPc.work_of_acquiring {pc : ProducerPc F A} {f : F} {a : A} (n k : ℕ)
    (h : pc.acquiring = some (f, a)) : pc.work n k = jobWork k + n + 2 := by
  cases pc with
  | entering _ _ | woken _ _ => rfl
  | outside | asleep _ _ => simp [ProducerPc.acquiring] at h

omit [Fintype P] in
theorem WorkerPc.work_of_awake {pc : WorkerPc F A} (h : pc = .ready ∨ pc = .woken) :
    pc.work = 2 := by
  rcases h with rfl | rfl <;> rfl

/-! ## Own steps -/

variable [DecidableEq P]

/-- A thread wakes up, or seems to, for no reason. -/
def Spurious (s s' : State n P F A) : Prop :=
  (∃ w, s' = { s with worker := Function.update s.worker w (s.worker w).wake }) ∨
    (∃ p, s' = { s with producer := Function.update s.producer p (s.producer p).wake }) ∨
      s' = { s with destroyer := s.destroyer.wake }

/-- What the threads in the pool do by themselves: nobody begins a call, and
nobody wakes up for no reason. -/
def OwnStep (s : State n P F A) (e : Event n P F A) (s' : State n P F A) : Prop :=
  e.called? = none ∧ (s.destroyer = .outside → s'.destroyer = .outside) ∧ ¬ Spurious s s'

omit [DecidableEq P] in
/-- The move of one worker. -/
theorem work_worker {s : State n P F A} {w : Fin n} {pc : WorkerPc F A}
    (h : pc.work < (s.worker w).work) {heap : Heap F A} {pool : Threadpool}
    (hpool : pool.queueCurNum = s.pool.queueCurNum) :
    State.work { s with
      pool := pool, heap := heap, worker := Function.update s.worker w pc } < s.work := by
  have htotal := total_update (w := WorkerPc.work) (f := s.worker) w pc
  unfold State.work
  dsimp only
  rw [hpool]
  omega

omit [DecidableEq P] in
/-- The move of the thread in `threadpool_destroy`. -/
theorem work_destroyer {s : State n P F A} {d : DestroyerPc}
    (h : d.work n (Fintype.card P) < s.destroyer.work n (Fintype.card P)) {pool : Threadpool}
    (hpool : pool.queueCurNum = s.pool.queueCurNum) :
    State.work { s with pool := pool, destroyer := d } < s.work := by
  unfold State.work
  dsimp only
  rw [hpool]
  omega

/-- **Step lemma.** An own step lowers the measure. -/
theorem work_step {s s' : State n P F A} {e : Event n P F A} {q : List (Entry F A)}
    (h : Inv queueMaxNum s q) (hst : Step s e s') (hown : OwnStep s e s') : s'.work < s.work := by
  obtain ⟨hcalled, houtside, hspurious⟩ := hown
  cases hst with
  | call p f a _ _ => cases hcalled
  | @addWait f a r p _ hacq hrun hends =>
    obtain ⟨hp, -, -⟩ := threadpoolAddJob_wait h.chain.rep (by simp) hrun hends
    have htotal := total_update (w := ProducerPc.work n (Fintype.card P)) (f := s.producer) p
      (.asleep f a)
    rw [ProducerPc.work_of_acquiring _ _ hacq, ProducerPc.work] at htotal
    unfold State.work
    dsimp only
    rw [hp]
    omega
  | @addRet f a r v p alloc _ hacq hfresh hrun hends =>
    have htotal := total_update (w := ProducerPc.work n (Fintype.card P)) (f := s.producer) p
      .outside
    rw [ProducerPc.work_of_acquiring _ _ hacq, ProducerPc.work] at htotal
    unfold State.work
    dsimp only
    rcases threadpoolAddJob_ret h.chain.rep hfresh hrun hends with
      ⟨-, hp, -, hwake⟩ | ⟨-, id, -, -, -, -, hrep, -⟩
    · rw [hp, if_neg (by simp [hwake])]
      omega
    · -- the call pays for the job and for the workers it wakes
      have hcount := h.chain.rep.count
      have hcount' := hrep.count
      rw [List.length_append, List.length_singleton] at hcount'
      have hone : r.pool.queueCurNum.toNat = s.pool.queueCurNum.toNat + 1 := by omega
      have hworkers : total WorkerPc.work (if r.broadcastNotEmpty = true
          then fun w => (s.worker w).wake else s.worker) ≤ total WorkerPc.work s.worker + n := by
        split
        · exact total_wake_workers s.worker
        · exact Nat.le_add_right _ _
      rw [hone, Nat.succ_mul]
      omega
  | producerSpurious p => exact absurd (.inr (.inl ⟨p, rfl⟩)) hspurious
  | workerWait w hw hrun hends =>
    obtain ⟨hp, -, -⟩ := threadpoolFunction_wait h.chain.rep hrun hends
    exact work_worker (by rw [WorkerPc.work_of_awake hw]; simp [WorkerPc.work]) (by rw [hp])
  | workerExit w hw hrun hends =>
    obtain ⟨hp, -⟩ := threadpoolFunction_exit h.chain.rep hrun hends
    exact work_worker (by rw [WorkerPc.work_of_awake hw]; simp [WorkerPc.work]) (by rw [hp])
  | @workerDequeue r pjob job w hw hrun hends hjob =>
    obtain ⟨f, a, q', rfl, -, hrep, -⟩ := threadpoolFunction_job h.chain.rep hrun hends
    have htotal := total_update (w := WorkerPc.work) (f := s.worker) w (.holding pjob)
    rw [WorkerPc.work_of_awake hw, WorkerPc.work] at htotal
    have hcount := h.chain.rep.count
    have hcount' := hrep.count
    rw [List.length_cons] at hcount
    have hone : s.pool.queueCurNum.toNat = r.pool.queueCurNum.toNat + 1 := by omega
    -- the job pays for the producers and the destroyer its dequeue wakes
    have hproducers : total (ProducerPc.work n (Fintype.card P)) (if r.broadcastNotFull = true
        then fun p => (s.producer p).wake else s.producer) ≤
        total (ProducerPc.work n (Fintype.card P)) s.producer + Fintype.card P := by
      split
      · exact total_wake_producers _ _ s.producer
      · exact Nat.le_add_right _ _
    have hdestroyer : (if r.signalEmpty = true then s.destroyer.wake else s.destroyer).work n
        (Fintype.card P) ≤ s.destroyer.work n (Fintype.card P) + 1 := by
      split
      · exact DestroyerPc.wake_work _ _ _
      · exact Nat.le_succ _
    have hprice : jobWork (Fintype.card P) = Fintype.card P + 5 := rfl
    unfold State.work
    dsimp only
    rw [hone, Nat.succ_mul]
    omega
  | workerSpurious w => exact absurd (.inl ⟨w, rfl⟩) hspurious
  | workerStart w hw hjob => exact work_worker (by rw [hw]; simp [WorkerPc.work]) rfl
  | workerFinish w hw => exact work_worker (by rw [hw]; simp [WorkerPc.work]) rfl
  | workerFree w hw halloc => exact work_worker (by rw [hw]; simp [WorkerPc.work]) rfl
  | destroyCall hd => cases houtside hd
  | destroyRefused hd hrun =>
    rw [destroyEnter_eq (h.destroyerAt hd)] at hrun
    exact absurd hrun destroyDrain_ne_ret
  | destroyEnterWait hd hrun =>
    rw [destroyEnter_eq (h.destroyerAt hd)] at hrun
    obtain ⟨-, rfl⟩ := destroyDrain_wait hrun
    exact work_destroyer (by rw [hd]; simp only [DestroyerPc.work]; omega) rfl
  | destroyEnterDrained hd hrun =>
    rw [destroyEnter_eq (h.destroyerAt hd)] at hrun
    obtain ⟨-, rfl⟩ := destroyDrain_drained hrun
    exact work_destroyer (by rw [hd]; simp only [DestroyerPc.work]; omega) rfl
  | destroyWait hd hrun =>
    obtain ⟨-, rfl⟩ := destroyDrain_wait hrun
    exact work_destroyer (by rw [hd]; simp only [DestroyerPc.work]; omega) rfl
  | destroyDrained hd hrun =>
    obtain ⟨-, rfl⟩ := destroyDrain_drained hrun
    exact work_destroyer (by rw [hd]; simp only [DestroyerPc.work]; omega) rfl
  | destroySpurious hd => exact absurd (.inr (.inr (by rw [hd]; rfl))) hspurious
  | destroyBroadcastNotEmpty hd =>
    have hworkers := total_wake_workers s.worker
    unfold State.work
    rw [hd]
    simp only [DestroyerPc.work]
    omega
  | destroyBroadcastNotFull hd =>
    have hproducers := total_wake_producers n (Fintype.card P) s.producer
    unfold State.work
    rw [hd]
    simp only [DestroyerPc.work]
    omega
  | destroyJoin w hd hlt hw =>
    refine work_destroyer ?_ rfl
    rw [hd]
    simp only [DestroyerPc.work]
    omega
  | destroyCleanup hd hge =>
    refine work_destroyer ?_ rfl
    rw [hd]
    simp only [DestroyerPc.work]
    omega
  | destroyDiscard hd hhead hjob =>
    rw [h.head_of_freeing hd] at hhead
    simp at hhead
  | destroyFree hd hhead =>
    refine work_destroyer ?_ rfl
    rw [hd]
    simp only [DestroyerPc.work]
    omega

/-! ## Somebody can move -/

/-- A call of `threadpool_add_job` that has the mutex and finds room and memory
is accepted. -/
theorem threadpoolAddJob_accepts {pool : Threadpool} {heap : Heap F A} {q : List (Entry F A)}
    (h : Rep pool heap q) (hopen : pool.queueClose = false ∧ pool.poolClose = false)
    (hroom : pool.queueCurNum ≠ pool.queueMaxNum) (id : JobId) (f : F) (a : A) :
    ∃ r, threadpoolAddJob pool heap (some id) f a = some r ∧ r.ends = .ret 0 := by
  obtain ⟨r, hrun⟩ := Option.ne_none_iff_exists'.mp (threadpoolAddJob_ne_none h (some id) f a)
  refine ⟨r, hrun, ?_⟩
  unfold threadpoolAddJob at hrun
  rw [if_neg (fun hfull => hroom hfull.1), if_neg (by simp [hopen])] at hrun
  dsimp only at hrun
  split at hrun
  · rw [← Option.some.inj hrun]
  · simp only [Option.bind_eq_bind, Option.bind_eq_some_iff, Option.some.injEq] at hrun
    obtain ⟨t, -, tjob, -, rfl⟩ := hrun
    rfl

omit [Fintype P] in
/-- A thread in a call of `threadpool_add_job` stays in it until it returns. -/
theorem inside_step {s s' : State n P F A} {e : Event n P F A} (hst : Step s e s') {p : P}
    (h : s.producer p ≠ .outside) :
    s'.producer p ≠ .outside ∨ ∃ f a v, e = .addRet p f a v := by
  have hwake : ∀ pc : ProducerPc F A, pc ≠ .outside → pc.wake ≠ .outside := by
    intro pc hpc
    cases pc with
    | outside => exact absurd rfl hpc
    | _ => simp [ProducerPc.wake]
  have hmove : ∀ {x : P} {pc : ProducerPc F A}, pc ≠ .outside →
      Function.update s.producer x pc p ≠ .outside := by
    intro x pc hpc hout
    rcases update_eq_cases hout with ⟨-, hx⟩ | ⟨-, hx⟩
    · exact hpc hx
    · exact h hx
  cases hst with
  | call x f a halive hout => exact .inl (hmove (by simp))
  | addWait x halive hacq hrun hends => exact .inl (hmove (by simp))
  | addRet x alloc halive hacq hfresh hrun hends =>
    by_cases hx : p = x
    · exact .inr ⟨_, _, _, by rw [hx]⟩
    · left
      show Function.update s.producer x .outside p ≠ .outside
      rwa [Function.update_of_ne hx]
  | producerSpurious x =>
    left
    by_cases hx : x = p
    · subst hx
      show Function.update s.producer x _ x ≠ .outside
      rw [Function.update_self]
      exact hwake _ h
    · show Function.update s.producer x _ p ≠ .outside
      rwa [Function.update_of_ne (Ne.symm hx)]
  | workerDequeue w hw hrun hends hjob =>
    left
    dsimp only
    split
    · exact hwake _ h
    · exact h
  | destroyBroadcastNotFull hd => exact .inl (hwake _ h)
  | _ => exact .inl h

section Moves

variable {s : State n P F A} {q : List (Entry F A)}

omit [Fintype P] in
theorem not_spurious_of_worker {s s' : State n P F A} {w : Fin n} (hw : s.worker w ≠ .asleep)
    (hmove : s'.worker w ≠ s.worker w) : ¬ Spurious s s' := by
  rintro (⟨x, rfl⟩ | ⟨p, rfl⟩ | rfl)
  · by_cases hx : w = x
    · subst hx
      refine hmove ?_
      show Function.update s.worker w _ w = _
      rw [Function.update_self, WorkerPc.wake_of_ne hw]
    · exact hmove (Function.update_of_ne hx _ _)
  · exact hmove rfl
  · exact hmove rfl

omit [Fintype P] in
theorem not_spurious_of_producer {s s' : State n P F A} {p : P}
    (hp : (s.producer p).wake = s.producer p) (hmove : s'.producer p ≠ s.producer p) :
    ¬ Spurious s s' := by
  rintro (⟨w, rfl⟩ | ⟨x, rfl⟩ | rfl)
  · exact hmove rfl
  · by_cases hx : p = x
    · subst hx
      refine hmove ?_
      show Function.update s.producer p _ p = _
      rw [Function.update_self, hp]
    · exact hmove (Function.update_of_ne hx _ _)
  · exact hmove rfl

omit [Fintype P] in
theorem not_spurious_of_destroyer {s s' : State n P F A} (hd : s.destroyer.wake = s.destroyer)
    (hmove : s'.destroyer ≠ s.destroyer) : ¬ Spurious s s' := by
  rintro (⟨w, rfl⟩ | ⟨p, rfl⟩ | rfl)
  · exact hmove rfl
  · exact hmove rfl
  · exact hmove hd

variable (h : Inv queueMaxNum s q)

include h

omit [Fintype P] in
/-- A worker that runs its loop sleeps, exits or takes a job. -/
theorem awake_worker_moves {w : Fin n} (hw : s.worker w = .ready ∨ s.worker w = .woken) :
    ∃ e s', Step s e s' ∧ (e = .internal ∨ ∃ f a, e = .dequeue w f a) ∧
      s'.worker w ≠ s.worker w ∧ (s.destroyer = .outside → s'.destroyer = .outside) := by
  have hmove : ∀ pc : WorkerPc F A, pc ≠ .ready → pc ≠ .woken →
      Function.update s.worker w pc w ≠ s.worker w := by
    intro pc hready hwoken
    rw [Function.update_self]
    rcases hw with hw | hw <;> rw [hw]
    · exact hready
    · exact hwoken
  obtain ⟨r, hrun⟩ := Option.ne_none_iff_exists'.mp (threadpoolFunction_ne_none h.chain.rep)
  rcases threadpoolFunction_cases h.chain.rep hrun with ⟨hends, -⟩ | ⟨hends, -⟩ |
    ⟨id, f, a, q', hends, rfl, -⟩
  · exact ⟨_, _, .workerWait w hw hrun hends, .inl rfl, hmove _ (by simp) (by simp), id⟩
  · exact ⟨_, _, .workerExit w hw hrun hends, .inl rfl, hmove _ (by simp) (by simp), id⟩
  · obtain ⟨job, hjob, -⟩ := h.chain.rep.seg.lookup (x := id) (d := (f, a)) (by simp)
    refine ⟨_, _, .workerDequeue w hw hrun hends hjob, .inr ⟨_, _, rfl⟩,
      hmove _ (by simp) (by simp), fun hd => ?_⟩
    dsimp only
    rw [hd]
    split <;> rfl

omit [Fintype P] in
/-- A worker that has taken a job calls its callback. -/
theorem holding_worker_moves {w : Fin n} {id : JobId} (hw : s.worker w = .holding id) :
    ∃ f a s', Step s (.start w f a) s' ∧ s'.worker w ≠ s.worker w ∧
      s'.destroyer = s.destroyer := by
  obtain ⟨job, hjob⟩ := Option.ne_none_iff_exists'.mp
    (h.chain.heldAlloc w id (by rw [hw]; rfl))
  refine ⟨_, _, _, .workerStart w hw hjob, ?_, rfl⟩
  rw [hw]
  simp

omit [Fintype P] in
/-- A worker whose callback returned frees the job. -/
theorem returned_worker_moves {w : Fin n} {id : JobId} (hw : s.worker w = .returned id) :
    ∃ s', Step s .internal s' ∧ s'.worker w ≠ s.worker w ∧ s'.destroyer = s.destroyer := by
  refine ⟨_, .workerFree w hw (h.chain.heldAlloc w id (by rw [hw]; rfl)), ?_, rfl⟩
  rw [hw]
  simp

omit [Fintype P] in
/-- A call of `threadpool_add_job` that has the mutex goes to sleep or returns. -/
theorem acquiring_producer_moves {p : P} {f : F} {a : A} (halive : s.alive)
    (hacq : (s.producer p).acquiring = some (f, a)) :
    ∃ e s', Step s e s' ∧ (e = .internal ∨ ∃ v, e = .addRet p f a v) ∧
      s'.producer p ≠ s.producer p ∧ s'.destroyer = s.destroyer := by
  have hmove : ∀ pc : ProducerPc F A, pc.acquiring = none →
      Function.update s.producer p pc p ≠ s.producer p := by
    intro pc hpc heq
    rw [Function.update_self] at heq
    rw [← heq, hpc] at hacq
    cases hacq
  obtain ⟨r, hrun⟩ :=
    Option.ne_none_iff_exists'.mp (threadpoolAddJob_ne_none h.chain.rep none f a)
  cases hends : r.ends with
  | wait => exact ⟨_, _, .addWait p halive hacq hrun hends, .inl rfl, hmove _ rfl, rfl⟩
  | ret v =>
    exact ⟨_, _, .addRet p none halive hacq (by simp) hrun hends, .inr ⟨v, rfl⟩, hmove _ rfl, rfl⟩

omit [Fintype P] in
/-- The thread in `threadpool_destroy` has a step, unless it waits for a worker. -/
theorem destroyer_moves (hout : s.destroyer ≠ .outside) (hret : s.destroyer ≠ .returned 0)
    (hasleep : s.destroyer = .asleep → s.pool.queueCurNum = 0)
    (hworker : s.pool.poolClose = true → ∀ w, s.worker w = .asleep ∨ s.worker w = .exited) :
    ∃ e s', Step s e s' ∧ e.called? = none ∧ s.destroyer.wake = s.destroyer ∧
      s'.destroyer ≠ s.destroyer := by
  cases hd : s.destroyer with
  | outside => exact absurd hd hout
  | entering =>
    have henter := destroyEnter_eq (h.destroyerAt hd)
    by_cases hcur : s.pool.queueCurNum = 0
    · exact ⟨_, _, .destroyEnterDrained hd
        (henter.trans (if_neg fun hne => hne hcur)), rfl, rfl, by simp⟩
    · exact ⟨_, _, .destroyEnterWait hd (henter.trans (if_pos hcur)), rfl, rfl, by simp⟩
  | asleep =>
    have hempty := hasleep hd
    have hqueued := destroyer_asleep h hd
    omega
  | woken =>
    by_cases hcur : s.pool.queueCurNum = 0
    · exact ⟨_, _, .destroyDrained hd (if_neg fun hne => hne hcur), rfl, rfl, by simp⟩
    · exact ⟨_, _, .destroyWait hd (if_pos hcur), rfl, rfl, by simp⟩
  | unlocked => exact ⟨_, _, .destroyBroadcastNotEmpty hd, rfl, rfl, by simp⟩
  | wokeWorkers => exact ⟨_, _, .destroyBroadcastNotFull hd, rfl, rfl, by simp⟩
  | joining i =>
    have hn := h.wait.threadNum
    by_cases hi : (i : Int) < s.pool.threadNum
    · -- the broadcast left no worker asleep, so the one to join has exited
      have hclosed := (h.destroyerAt hd).2.1
      have hw : s.worker ⟨i, by omega⟩ = .exited := by
        refine (hworker hclosed ⟨i, by omega⟩).resolve_left fun hw => ?_
        have hunlocked := (h.wait.workerAsleep _ hw).2 hclosed
        rw [hd] at hunlocked
        cases hunlocked
      exact ⟨_, _, .destroyJoin ⟨i, by omega⟩ hd hi hw, rfl, rfl, by simp⟩
    · exact ⟨_, _, .destroyCleanup hd hi, rfl, rfl, by simp⟩
  | freeing => exact ⟨_, _, .destroyFree hd (h.head_of_freeing hd), rfl, rfl, by simp⟩
  | returned v =>
    obtain ⟨rfl, -⟩ := h.destroyerAt hd
    exact absurd hd hret

end Moves

/-- Nothing is left to do: no job is queued or in a worker's hands, and either
`threadpool_destroy` was not called and every call of `threadpool_add_job` has
returned, or it has returned 0. A call that is inside then stays there: the pool
it waits at is gone. -/
structure Settled (s : State n P F A) : Prop where
  queue     : s.pool.queueCurNum = 0
  worker    : ∀ w, s.worker w = .asleep ∨ s.worker w = .exited
  calls     : s.destroyer = .outside → ∀ p, s.producer p = .outside
  destroyer : s.destroyer = .outside ∨ s.destroyer = .returned 0

omit [Fintype P] in
/-- **No deadlock.** A pool that has not settled has an own step. -/
theorem own_step_of_unsettled {s : State n P F A} {q : List (Entry F A)} (hn : 0 < n)
    (hmax : 0 < queueMaxNum) (h : Inv queueMaxNum s q) (hs : ¬ Settled s) :
    ∃ e s', Step s e s' ∧ OwnStep s e s' := by
  by_contra hnone
  have hworker : ∀ w, s.worker w = .asleep ∨ s.worker w = .exited := by
    intro w
    by_contra hw
    rw [not_or] at hw
    refine hnone ?_
    cases hpc : s.worker w with
    | asleep => exact absurd hpc hw.1
    | exited => exact absurd hpc hw.2
    | ready | woken =>
      obtain ⟨e, s', hst, he, hmove, hout⟩ := awake_worker_moves h (w := w) (by simp [hpc])
      refine ⟨e, s', hst, ?_, hout, not_spurious_of_worker hw.1 hmove⟩
      rcases he with rfl | ⟨f, a, rfl⟩ <;> rfl
    | holding id =>
      obtain ⟨f, a, s', hst, hmove, hd⟩ := holding_worker_moves h hpc
      exact ⟨_, s', hst, rfl, fun hout => hd.trans hout, not_spurious_of_worker hw.1 hmove⟩
    | running id f a =>
      refine ⟨_, _, .workerFinish w hpc, rfl, fun hout => hout, not_spurious_of_worker hw.1 ?_⟩
      rw [hpc]
      simp
    | returned id =>
      obtain ⟨s', hst, hmove, hd⟩ := returned_worker_moves h hpc
      exact ⟨_, s', hst, rfl, fun hout => hd.trans hout, not_spurious_of_worker hw.1 hmove⟩
  have hqueue : s.pool.queueCurNum = 0 := by
    rcases hworker ⟨0, hn⟩ with hw | hw
    · exact worker_asleep h hw
    · exact h.wait.destroyer.drained (h.join.exited _ hw)
  have hcalls : s.destroyer = .outside → ∀ p, s.producer p = .outside := by
    intro hd p
    have halive : s.alive := ⟨by simp [hd], by simp [hd]⟩
    by_contra hp
    refine hnone ?_
    cases hpc : s.producer p with
    | outside => exact absurd hpc hp
    | asleep f a =>
      have hfull := producer_asleep h hpc
      omega
    | entering f a | woken f a =>
      obtain ⟨e, s', hst, he, hmove, hout⟩ :=
        acquiring_producer_moves h (p := p) (f := f) (a := a) halive (by rw [hpc]; rfl)
      refine ⟨e, s', hst, ?_, fun _ => hout.trans hd,
        not_spurious_of_producer (by rw [hpc]; rfl) hmove⟩
      rcases he with rfl | ⟨v, rfl⟩ <;> rfl
  refine hs ⟨hqueue, hworker, hcalls, ?_⟩
  by_contra hd
  rw [not_or] at hd
  obtain ⟨e, s', hst, he, hwake, hmove⟩ :=
    destroyer_moves h hd.1 hd.2 (fun _ => hqueue) fun _ => hworker
  exact hnone ⟨e, s', hst, he, fun hout => absurd hout hd.1, not_spurious_of_destroyer hwake hmove⟩

omit [Fintype P] in
/-- In a settled pool every accepted job has been run to completion. -/
theorem finished_of_settled (hmax : 0 ≤ queueMaxNum) {tr : List (Event n P F A)}
    {s : State n P F A} (h : (poolSystem n P F A queueMaxNum).Run tr s) (hs : Settled s) :
    (finishedJobs tr).Perm (acceptedJobs tr) := by
  obtain ⟨q, hinv, hlaw⟩ := run_inv hmax h
  obtain rfl := hinv.chain.rep.count_eq_zero_iff.mp hs.queue
  rw [List.map_nil, List.append_nil] at hlaw
  have hstarted := dequeues_ledger hmax h
  rw [total_eq_zero fun w => by rcases hs.worker w with hw | hw <;> rw [hw] <;> rfl, add_zero,
    Multiset.coe_eq_coe, hlaw] at hstarted
  have hfinished := starts_ledger h
  rw [total_eq_zero fun w => by rcases hs.worker w with hw | hw <;> rw [hw] <;> rfl, add_zero,
    Multiset.coe_eq_coe] at hfinished
  exact (hstarted.trans hfinished).symm

/-- **The pool comes to rest.** In a pool with workers and room, whatever state a
run has led to and however its threads are scheduled from there: as long as
nobody begins a call, nobody wakes up for no reason and the callbacks return,
after finitely many steps the queue is empty, no worker has a job, every call of
`threadpool_add_job` has returned unless `threadpool_destroy` was called, and a
`threadpool_destroy` that was called has returned 0. And whenever the pool has
come to rest, the jobs run to completion are the accepted ones. -/
theorem pool_comes_to_rest (hn : 0 < n) (hmax : 0 < queueMaxNum) {tr : List (Event n P F A)}
    {s : State n P F A} (h : (poolSystem n P F A queueMaxNum).Run tr s) :
    System.Inevitable (poolSystem n P F A queueMaxNum) OwnStep Settled s ∧
      (Settled s → (finishedJobs tr).Perm (acceptedJobs tr)) := by
  obtain ⟨q, hinv, -⟩ := run_inv (Int.le_of_lt hmax) h
  refine ⟨?_, finished_of_settled (Int.le_of_lt hmax) h⟩
  refine System.inevitable_of_variant (I := fun s => ∃ q, Inv queueMaxNum s q) State.work
    ?_ ?_ ?_ ⟨q, hinv⟩
  · rintro s e s' ⟨q, hinv⟩ hst
    obtain ⟨q', hinv', -⟩ := inv_step hinv hst
    exact ⟨q', hinv'⟩
  · rintro s e s' ⟨q, hinv⟩ - hst hown
    exact work_step hinv hst hown
  · rintro s ⟨q, hinv⟩ hs
    exact own_step_of_unsettled hn hmax hinv hs

/-- The theorem at work: two calls wait for the only place of the queue, one of
them asleep. -/
theorem pool_comes_to_rest_two :
    ∃ (tr : List (Event 1 Bool ℕ ℕ)) (s : State 1 Bool ℕ ℕ), (poolSystem 1 Bool ℕ ℕ 1).Run tr s ∧
      ¬ Settled s ∧
      System.Inevitable (poolSystem 1 Bool ℕ ℕ 1) OwnStep Settled s := by
  have hcall := System.Run.step (S := poolSystem 1 Bool ℕ ℕ 1) (.init rfl)
    (Step.call false 7 8 ⟨by decide, by decide⟩ rfl)
  have hadd := hcall.step (Step.addRet false (some 0) ⟨by decide, by decide⟩ rfl
    (fun _ _ => rfl) rfl rfl)
  have hagain := (hadd.step (Step.call false 9 8 ⟨by decide, by decide⟩ rfl)).step
    (Step.call true 7 8 ⟨by decide, by decide⟩ rfl)
  have hwait := hagain.step (Step.addWait false ⟨by decide, by decide⟩ rfl rfl rfl)
  refine ⟨_, _, hwait, ?_, (pool_comes_to_rest (by decide) (by decide) hwait).1⟩
  intro hs
  exact absurd hs.queue (by decide)

end Uartd.ThreadPool
