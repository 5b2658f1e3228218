import Uartd.ThreadPool.Handover

/-!
# Uartd — the pool after its destruction

`threadpool_destroy` joins its workers and nobody else. A thread that is still
inside `threadpool_add_job` when the mutex is destroyed has yet to acquire it,
to test the flags, or to unlock it: all of it on a freed pool.

`Step` gives no such step. `teardownSystem` adds them: it has the runs of the
pool (`run_teardown_of_pool`, `run_pool_of_teardown`), with the destruction of
the mutex as an event of its own, and the event `touch` for a step of
`threadpool_add_job` on the destroyed pool. What a touch does is undefined, so
it is only recorded. A region of `threadpool_add_job` has its place at its
unlock or its wait, so a thread in the middle of one is still inside.

A producer leaves when it gets the mutex, since `queue_close` is set
(`leaves_of_closed`); but nothing makes `threadpool_destroy` wait for it
(`destroyed_pool_untouched`, `destroyed_pool_touched`).
-/

namespace Uartd.ThreadPool

open Uartd.Lib

variable {n : ℕ} {P F A : Type} [DecidableEq P] {queueMaxNum : Int}

inductive TeardownEvent (n : ℕ) (P F A : Type) where
  | step (e : Event n P F A)
  | destroyMutex
  | touch (p : P)

inductive TeardownStep : State n P F A → TeardownEvent n P F A → State n P F A → Prop
  | step {s e s'} : Step s e s' → (s.alive → s'.alive) → TeardownStep s (.step e) s'
  -- from pthread_mutex_destroy to free(pool->pthreads)
  | destroyMutex {s} {i : ℕ} : s.destroyer = .joining i → ¬ (i : Int) < s.pool.threadNum →
      TeardownStep s .destroyMutex { s with destroyer := .freeing }
  | touch {s} (p : P) : ¬ s.alive → (s.producer p).acquiring ≠ none →
      TeardownStep s (.touch p) s

/-- The pool, and what is done to it after its destruction. -/
def teardownSystem (n : ℕ) (P F A : Type) [DecidableEq P] (queueMaxNum : Int) :
    System (State n P F A) (TeardownEvent n P F A) where
  init s := s = threadpoolInit n P F A queueMaxNum
  step := TeardownStep

-- ---------------------------------------------------------------------------
-- The same runs
-- ---------------------------------------------------------------------------

/-- The event of the pool. -/
def TeardownEvent.pool? : TeardownEvent n P F A → Option (Event n P F A)
  | .step e => some e
  | .destroyMutex => some .internal
  | .touch _ => none

theorem run_pool_of_teardown {tr : List (TeardownEvent n P F A)} {s : State n P F A}
    (h : (teardownSystem n P F A queueMaxNum).Run tr s) :
    (poolSystem n P F A queueMaxNum).Run (tr.filterMap TeardownEvent.pool?) s := by
  refine System.Run.project (g := fun s => s) ?_ ?_ h
  · intro s hs
    exact hs
  · intro s e s' hst
    unfold System.Matches
    cases hst with
    | step hst halive => exact ⟨_, hst, rfl⟩
    | destroyMutex hd hi => exact ⟨_, .destroyCleanup hd hi, rfl⟩
    | touch p hdead hin => rfl

theorem destroyEnter_ret {pool pool' : Threadpool} {v : Int}
    (h : threadpoolDestroyEnter pool = (.ret v, pool')) : v = -1 := by
  unfold threadpoolDestroyEnter at h
  split at h
  · cases h
    rfl
  · exact absurd h destroyDrain_ne_ret

/-- The mutex is destroyed in one place. -/
theorem step_of_dead {s s' : State n P F A} {e : Event n P F A} (hst : Step s e s')
    (halive : s.alive) (hdead : ¬ s'.alive) : TeardownStep s .destroyMutex s' ∧ e = .internal := by
  cases hst with
  | destroyCleanup hd hi => exact ⟨.destroyMutex hd hi, rfl⟩
  | @destroyRefused pool v hd hrun =>
    obtain rfl := destroyEnter_ret hrun
    exact absurd ⟨by simp, by simp⟩ hdead
  | workerDequeue w hw hrun hends hjob =>
    refine absurd ?_ hdead
    dsimp only [State.alive]
    obtain ⟨hfreeing, hreturned⟩ := halive
    split
    · refine ⟨fun hd => hfreeing ?_, fun hd => hreturned ?_⟩
      · exact DestroyerPc.eq_of_wake_eq (by simp) hd
      · exact DestroyerPc.eq_of_wake_eq (by simp) hd
    · exact ⟨hfreeing, hreturned⟩
  | destroyDiscard hd hhead hjob => exact absurd hd halive.1
  | destroyFree hd hhead => exact absurd hd halive.1
  | _ => first
    | exact absurd halive hdead
    | exact absurd (show State.alive _ from ⟨by simp, by simp⟩) hdead

theorem run_teardown_of_pool {tr : List (Event n P F A)} {s : State n P F A}
    (h : (poolSystem n P F A queueMaxNum).Run tr s) :
    ∃ tr', (teardownSystem n P F A queueMaxNum).Run tr' s ∧
      tr'.filterMap TeardownEvent.pool? = tr := by
  induction h with
  | init hs => exact ⟨[], .init hs, rfl⟩
  | @step tr s s' e hrun hst ih =>
    obtain ⟨tr', hrun', htr⟩ := ih
    by_cases halive : s.alive → s'.alive
    · refine ⟨_, hrun'.step (TeardownStep.step hst halive), ?_⟩
      rw [List.filterMap_append, htr]
      rfl
    · obtain ⟨hlive, hdead⟩ := Classical.not_imp.mp halive
      obtain ⟨hdestroy, rfl⟩ := step_of_dead hst hlive hdead
      refine ⟨_, hrun'.step hdestroy, ?_⟩
      rw [List.filterMap_append, htr]
      rfl

-- ---------------------------------------------------------------------------
-- Who is left inside
-- ---------------------------------------------------------------------------

/-- When the mutex is destroyed, every call of `threadpool_add_job` has returned. -/
def NobodyInside (s : State n P F A) (e : TeardownEvent n P F A) : Prop :=
  e = .destroyMutex → ∀ p, s.producer p = .outside

/-- Once `threadpool_destroy` has closed the queue, a producer that gets the
mutex can only leave. -/
theorem leaves_of_closed {s : State n P F A} {p : P} {f : F} {a : A} (halive : s.alive)
    (hclose : s.pool.queueClose = true) (hacq : (s.producer p).acquiring = some (f, a)) :
    ∃ s', Step s (.addRet p f a (-1)) s' ∧ s'.producer p = .outside := by
  have hrun : threadpoolAddJob s.pool s.heap none f a =
      some ⟨.ret (-1), s.pool, s.heap, false⟩ := by
    unfold threadpoolAddJob
    rw [if_neg (by simp [hclose]), if_pos (.inl hclose)]
  exact ⟨_, .addRet p none halive hacq nofun hrun rfl, Function.update_self _ _ _⟩

/-- **Step lemma.** Nobody gets into a destroyed pool. -/
theorem outside_of_dead_step {s s' : State n P F A} {e : TeardownEvent n P F A}
    (h : ¬ s.alive → ∀ p, s.producer p = .outside) (hst : TeardownStep s e s')
    (hcond : NobodyInside s e) (hdead : ¬ s'.alive) (p : P) : s'.producer p = .outside := by
  cases hst with
  | step hst halive =>
    have hgone : ¬ s.alive := fun hlive => hdead (halive hlive)
    rcases outside_step hst (h hgone p) with hout | ⟨f, a, rfl⟩
    · exact hout
    · cases hst with
      | call _ _ _ hlive _ => exact absurd hlive hgone
  | destroyMutex hd hi => exact hcond rfl p
  | touch p' hgone hin => exact h hgone p

variable (queueMaxNum) in
/-- Whoever is left inside can take a step. -/
theorem touch_of_inside {s : State n P F A} {p : P} (hdead : ¬ s.alive)
    (hp : s.producer p ≠ .outside) :
    ∃ es s', ((teardownSystem n P F A queueMaxNum).startAt s).Run es s' ∧ .touch p ∈ es := by
  have h₀ : ((teardownSystem n P F A queueMaxNum).startAt s).Run [] s := .init rfl
  by_cases hacq : (s.producer p).acquiring = none
  · -- it sleeps, and a spurious wake-up is enough
    have hwoken : (s.producer p).wake.acquiring ≠ none := by
      cases hpc : s.producer p with
      | outside => exact absurd hpc hp
      | asleep f a => simp [ProducerPc.wake, ProducerPc.acquiring]
      | entering f a => simp [hpc, ProducerPc.acquiring] at hacq
      | woken f a => simp [hpc, ProducerPc.acquiring] at hacq
    have hwake := h₀.step (TeardownStep.step (Step.producerSpurious p)
      fun halive => absurd halive hdead)
    refine ⟨_, _, hwake.step (.touch p hdead ?_), by simp⟩
    show (Function.update s.producer p (s.producer p).wake p).acquiring ≠ none
    rw [Function.update_self]
    exact hwoken
  · exact ⟨_, _, h₀.step (.touch p hdead hacq), by simp⟩

/-- **A destroyed pool is left alone exactly if nobody was left inside.** In
every run in which all calls of `threadpool_add_job` have returned when
`threadpool_destroy` destroys the mutex, no step of such a call is on the
destroyed pool, and nobody is inside once it is destroyed. And wherever a run
destroys the mutex with somebody inside, it can go on to such a step. -/
theorem destroyed_pool_untouched {tr : List (TeardownEvent n P F A)} {s : State n P F A}
    (h : ((teardownSystem n P F A queueMaxNum).restrict NobodyInside).Run tr s) :
    (∀ p, .touch p ∉ tr) ∧ (¬ s.alive → ∀ p, s.producer p = .outside) ∧
      ∀ s', TeardownStep s .destroyMutex s' → ¬ NobodyInside s .destroyMutex →
        ∃ es s'' p, ((teardownSystem n P F A queueMaxNum).startAt s').Run es s'' ∧
          .touch p ∈ es := by
  have hinv : (∀ p, .touch p ∉ tr) ∧ (¬ s.alive → ∀ p, s.producer p = .outside) := by
    refine System.Run.invariant
      (I := fun tr s => (∀ p, .touch p ∉ tr) ∧ (¬ s.alive → ∀ p, s.producer p = .outside)) ?_ ?_ h
    · rintro s rfl
      exact ⟨fun p hp => absurd hp (by simp), fun _ _ => rfl⟩
    · intro tr s e s' hrun ih hst
      obtain ⟨huntouched, hout⟩ := ih
      refine ⟨?_, outside_of_dead_step hout hst.1 hst.2⟩
      intro p hp
      rcases List.mem_append.mp hp with hp | hp
      · exact huntouched p hp
      · obtain rfl := List.mem_singleton.mp hp
        cases hst.1 with
        | touch _ hdead hin =>
          rw [hout hdead p] at hin
          exact hin rfl
  refine ⟨hinv.1, hinv.2, ?_⟩
  intro s' hst hcond
  obtain ⟨-, hinside⟩ := Classical.not_imp.mp hcond
  obtain ⟨p, hp⟩ := Classical.not_forall.mp hinside
  cases hst with
  | destroyMutex hd hi =>
    obtain ⟨es, s'', hrun, hmem⟩ :=
      touch_of_inside queueMaxNum (s := { s with destroyer := .freeing })
        (fun halive => halive.1 rfl) hp
    exact ⟨es, s'', p, hrun, hmem⟩

/-- The theorem at work: a thread inside when the pool closes gets the mutex
before the joins are done. -/
theorem destroyed_pool_untouched_one :
    ∃ (tr : List (TeardownEvent 1 Unit ℕ ℕ)) (s : State 1 Unit ℕ ℕ),
      ((teardownSystem 1 Unit ℕ ℕ 1).restrict NobodyInside).Run tr s ∧
      .step (.addRet () 7 8 (-1)) ∈ tr ∧ ¬ s.alive ∧ ∀ p, .touch p ∉ tr := by
  have hinit : ((teardownSystem 1 Unit ℕ ℕ 1).restrict NobodyInside).Run []
      (threadpoolInit 1 Unit ℕ ℕ 1) := .init rfl
  have hcall := hinit.step ⟨TeardownStep.step (Step.call () 7 8 ⟨by decide, by decide⟩ rfl)
    fun _ => ⟨by decide, by decide⟩, nofun⟩
  have hdestroy := hcall.step ⟨TeardownStep.step (Step.destroyCall rfl)
    fun _ => ⟨by decide, by decide⟩, nofun⟩
  have hclose := hdestroy.step ⟨TeardownStep.step (Step.destroyEnterDrained rfl rfl)
    fun _ => ⟨by decide, by decide⟩, nofun⟩
  have hleave := hclose.step ⟨TeardownStep.step (Step.addRet () none ⟨by decide, by decide⟩
    (f := 7) (a := 8) (v := -1) rfl nofun rfl rfl) fun _ => ⟨by decide, by decide⟩, nofun⟩
  have hwake := hleave.step ⟨TeardownStep.step (Step.destroyBroadcastNotEmpty rfl)
    fun _ => ⟨by decide, by decide⟩, nofun⟩
  have hwake' := hwake.step ⟨TeardownStep.step (Step.destroyBroadcastNotFull rfl)
    fun _ => ⟨by decide, by decide⟩, nofun⟩
  have hexit := hwake'.step ⟨TeardownStep.step (Step.workerExit 0 (.inl rfl) rfl rfl)
    fun _ => ⟨by decide, by decide⟩, nofun⟩
  have hjoin := hexit.step ⟨TeardownStep.step (Step.destroyJoin 0 rfl (by decide) rfl)
    fun _ => ⟨by decide, by decide⟩, nofun⟩
  have hmutex := hjoin.step ⟨TeardownStep.destroyMutex rfl (by decide), fun _ p => rfl⟩
  exact ⟨_, _, hmutex, by simp, fun halive => halive.1 rfl, (destroyed_pool_untouched hmutex).1⟩

/-- The queue is full and a producer waits; the drain wakes it, but the worker
exits and the mutex is destroyed before it runs. -/
theorem destroyed_pool_touched : ¬ ∀ (tr : List (TeardownEvent 1 Unit ℕ ℕ)) (s : State 1 Unit ℕ ℕ),
    (teardownSystem 1 Unit ℕ ℕ 1).Run tr s → ∀ p, .touch p ∉ tr := by
  intro hclaim
  have hinit : (teardownSystem 1 Unit ℕ ℕ 1).Run [] (threadpoolInit 1 Unit ℕ ℕ 1) := .init rfl
  have hstay : ∀ {s : State 1 Unit ℕ ℕ}, s.alive → s.alive := id
  -- the first job fills the queue, the call for the second one waits
  have hcall := hinit.step (TeardownStep.step (Step.call () 7 8 ⟨by decide, by decide⟩ rfl) hstay)
  have hadd := hcall.step (TeardownStep.step (Step.addRet () (some 0) ⟨by decide, by decide⟩ rfl
    (fun _ _ => rfl) rfl rfl) hstay)
  have hcall' := hadd.step (TeardownStep.step (Step.call () 9 10 ⟨by decide, by decide⟩ rfl) hstay)
  have hwait := hcall'.step (TeardownStep.step (Step.addWait () ⟨by decide, by decide⟩ rfl rfl rfl)
    hstay)
  -- threadpool_destroy waits for the queue
  have hdestroy := hwait.step (TeardownStep.step (Step.destroyCall rfl)
    fun _ => ⟨by decide, by decide⟩)
  have hclose := hdestroy.step (TeardownStep.step (Step.destroyEnterWait rfl rfl)
    fun _ => ⟨by decide, by decide⟩)
  have htake := hclose.step (TeardownStep.step (Step.workerDequeue 0 (.inl rfl) rfl rfl rfl)
    fun _ => ⟨by decide, by decide⟩)
  have hstart := htake.step (TeardownStep.step (Step.workerStart 0 rfl rfl) hstay)
  have hfinish := hstart.step (TeardownStep.step (Step.workerFinish 0 rfl) hstay)
  have hfree := hfinish.step (TeardownStep.step (Step.workerFree 0 rfl nofun) hstay)
  -- the worker exits and is joined, the producer has not run
  have hdrained := hfree.step (TeardownStep.step (Step.destroyDrained rfl rfl)
    fun _ => ⟨by decide, by decide⟩)
  have hwake := hdrained.step (TeardownStep.step (Step.destroyBroadcastNotEmpty rfl)
    fun _ => ⟨by decide, by decide⟩)
  have hwake' := hwake.step (TeardownStep.step (Step.destroyBroadcastNotFull rfl)
    fun _ => ⟨by decide, by decide⟩)
  have hexit := hwake'.step (TeardownStep.step (Step.workerExit 0 (.inl rfl) rfl rfl) hstay)
  have hjoin := hexit.step (TeardownStep.step (Step.destroyJoin 0 rfl (by decide) rfl)
    fun _ => ⟨by decide, by decide⟩)
  have hmutex := hjoin.step (TeardownStep.destroyMutex rfl (by decide))
  have htouch := hmutex.step (TeardownStep.touch () (fun halive => halive.1 rfl) nofun)
  exact hclaim _ _ htouch () (by simp)

end Uartd.ThreadPool
