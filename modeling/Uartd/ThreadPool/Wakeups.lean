import Uartd.ThreadPool.Refinement

/-!
# Uartd — the pool loses no wake-up

A thread that sleeps with no signal on its way sleeps for a reason that still
holds. The signals are sent on three transitions only (empty to not empty, full
to one below, one to empty), and a job put into a queue that already holds one
wakes nobody; `WaitInv` is what makes that enough.

* `worker_asleep`, `producer_asleep`, `destroyer_asleep` — the three reasons;
* `none_asleep_after_broadcasts` — the two broadcasts of `threadpool_destroy`
  leave nobody behind;
* `worker_awake_of_queued` — a queued job has an awake worker, and that worker
  can take it (`awake_worker_dequeues`).
-/

namespace Uartd.ThreadPool

open Uartd.Lib

variable {n : ℕ} {P F A : Type} {queueMaxNum : Int}

/-- `threadpool_destroy` has issued both of its final broadcasts. -/
def DestroyerPc.broadcastsDone : DestroyerPc → Prop
  | .joining _ | .freeing | .returned 0 => True
  | _ => False

section Inv

variable {s : State n P F A} {q : List (Entry F A)} (h : Inv queueMaxNum s q)

include h

theorem worker_asleep {w : Fin n} (hw : s.worker w = .asleep) : s.pool.queueCurNum = 0 :=
  (h.wait.workerAsleep w hw).1

theorem producer_asleep {p : P} {f : F} {a : A} (hp : s.producer p = .asleep f a) :
    s.pool.queueCurNum = queueMaxNum :=
  h.wait.producerAsleep p f a hp

theorem destroyer_asleep (hd : s.destroyer = .asleep) : 0 < s.pool.queueCurNum := by
  have hcur := (h.destroyerAt hd).2.2
  have hcount := h.chain.rep.count
  omega

/-- After the broadcasts the pool is closed and its queue is empty. -/
theorem drained_of_broadcastsDone (hd : s.destroyer.broadcastsDone) :
    s.pool.poolClose = true ∧ s.pool.queueCurNum = 0 ∧ s.destroyer ≠ .unlocked := by
  cases hds : s.destroyer with
  | joining i =>
    have hok := h.destroyerAt hds
    exact ⟨hok.2.1, hok.2.2, by simp⟩
  | freeing =>
    have hok := h.destroyerAt hds
    exact ⟨hok.2.1, hok.2.2, by simp⟩
  | returned v =>
    have hok := h.destroyerAt hds
    exact ⟨hok.2.2.1, hok.2.2.2, by simp⟩
  | _ =>
    rw [hds] at hd
    exact hd.elim

theorem none_asleep_after_broadcasts (hmax : 1 ≤ queueMaxNum) (hd : s.destroyer.broadcastsDone) :
    (∀ w, s.worker w ≠ .asleep) ∧ ∀ p f a, s.producer p ≠ .asleep f a := by
  obtain ⟨hclosed, hcur, hds⟩ := drained_of_broadcastsDone h hd
  constructor
  · intro w hw
    exact hds ((h.wait.workerAsleep w hw).2 hclosed)
  · -- a producer sleeps on a full queue, and this one is empty
    intro p f a hp
    have hfull := producer_asleep h hp
    omega

theorem worker_awake_of_queued (hn : 1 ≤ n) (hq : 0 < s.pool.queueCurNum) :
    ∃ w, s.worker w ≠ .asleep := by
  refine ⟨⟨0, hn⟩, ?_⟩
  intro hw
  have hempty := worker_asleep h hw
  omega

/-- A worker that runs its loop while a job is queued takes it, unless the pool
was closed, which it is not while anything is queued. -/
theorem awake_worker_dequeues [DecidableEq P] {w : Fin n}
    (hw : s.worker w = .ready ∨ s.worker w = .woken) (hq : 0 < s.pool.queueCurNum) :
    ∃ f a s', Step s (.dequeue w f a) s' := by
  obtain ⟨r, hrun⟩ := Option.ne_none_iff_exists'.mp (threadpoolFunction_ne_none h.chain.rep)
  rcases threadpoolFunction_cases h.chain.rep hrun with ⟨-, -, hcur, -⟩ | ⟨-, -, hclosed⟩ |
    ⟨id, f, a, q', hends, rfl, -⟩
  · omega
  · have hcur := h.wait.destroyer.drained hclosed
    omega
  · obtain ⟨job, hjob, -⟩ := h.chain.rep.seg.lookup (x := id) (d := (f, a)) (by simp)
    exact ⟨_, _, _, .workerDequeue w hw hrun hends hjob⟩

end Inv

variable [DecidableEq P]

/-- **No lost wake-up.** In every state a run of the pool reaches: a sleeping
worker has nothing to take, a sleeping producer has no room, a sleeping
destroyer has jobs to wait for; after the final broadcasts no worker and no
producer sleeps; and while a job is queued not all workers sleep. -/
theorem threadpool_no_lost_wakeup (hn : 1 ≤ n) (hmax : 1 ≤ queueMaxNum)
    {tr : List (Event n P F A)} {s : State n P F A}
    (h : (poolSystem n P F A queueMaxNum).Run tr s) :
    (∀ w, s.worker w = .asleep → s.pool.queueCurNum = 0) ∧
    (∀ p f a, s.producer p = .asleep f a → s.pool.queueCurNum = queueMaxNum) ∧
    (s.destroyer = .asleep → 0 < s.pool.queueCurNum) ∧
    (s.destroyer.broadcastsDone →
      (∀ w, s.worker w ≠ .asleep) ∧ ∀ p f a, s.producer p ≠ .asleep f a) ∧
    ¬ (0 < s.pool.queueCurNum ∧ ∀ w, s.worker w = .asleep) := by
  obtain ⟨q, hinv, -⟩ := run_inv (by omega) h
  refine ⟨fun w hw => worker_asleep hinv hw, fun p f a hp => producer_asleep hinv hp,
    fun hd => destroyer_asleep hinv hd, fun hd => none_asleep_after_broadcasts hinv hmax hd, ?_⟩
  rintro ⟨hq, hall⟩
  obtain ⟨w, hw⟩ := worker_awake_of_queued hinv hn hq
  exact hw (hall w)

/-- The theorem at work: the only worker goes to sleep, and the job added then
wakes it. -/
theorem threadpool_no_lost_wakeup_one :
    ∃ s s' : State 1 Unit ℕ ℕ, (poolSystem 1 Unit ℕ ℕ 1).Run [.internal] s ∧
      s.worker 0 = .asleep ∧ s.pool.queueCurNum = 0 ∧
      (poolSystem 1 Unit ℕ ℕ 1).Run [.internal, .call () 7 8, .addRet () 7 8 0] s' ∧
      s'.pool.queueCurNum = 1 ∧ s'.worker 0 ≠ .asleep := by
  have hwait := System.Run.step (S := poolSystem 1 Unit ℕ ℕ 1) (.init rfl)
    (Step.workerWait 0 (.inl rfl) rfl rfl)
  have hcall := hwait.step (Step.call () 7 8 ⟨by decide, by decide⟩ rfl)
  have hadd := hcall.step (Step.addRet () (some 0) ⟨by decide, by decide⟩ rfl
    (fun _ _ => rfl) rfl rfl)
  refine ⟨_, _, hwait, rfl, (threadpool_no_lost_wakeup (by decide) (by decide) hwait).1 0 rfl,
    hadd, rfl, ?_⟩
  intro hasleep
  have hempty := (threadpool_no_lost_wakeup (by decide) (by decide) hadd).1 0 hasleep
  exact absurd hempty (by decide)

end Uartd.ThreadPool
