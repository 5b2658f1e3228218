import Uartd.Lib.Segment
import Uartd.Lib.Transition

/-!
# Uartd — the thread pool (thread_pool.c)

A pool of `n` worker threads and a bounded queue of jobs, used by any number of
threads calling `threadpool_add_job` and by one thread calling
`threadpool_destroy`.

The pool structure is only touched under `pool->mutex`, so a step of the system
is one mutex-held region: from acquiring the mutex to unlocking it or to
sleeping in `pthread_cond_wait`. The regions are the functions
`threadpoolAddJob`, `threadpoolFunction`, `threadpoolDestroyEnter` and
`threadpoolDestroyDrain`; `Step` interleaves them with the steps a thread takes
without the mutex (the callback, `free`, the two broadcasts and the joins of
`threadpool_destroy`) and with spurious wake-ups. The mutex is free in every
state of the system.

A thread waiting for a condition is `asleep` until a signal or a spurious
wake-up makes it `woken`; a woken thread still has to acquire the mutex and
tests its condition again.

The pool works for any callback type `F` and argument type `A`. A worker that
`pthread_create` failed to start is one that never takes a step.
-/

namespace Uartd.ThreadPool

open Uartd.Lib

abbrev JobId := ℕ

/-- `struct job`. -/
structure Job (F A : Type) where
  callbackFunction : F
  arg  : A
  next : Option JobId

/-- `struct threadpool`, without its mutex, conditions and thread handles. -/
structure Threadpool where
  threadNum   : Int
  queueMaxNum : Int
  head : Option JobId
  tail : Option JobId
  queueCurNum : Int
  queueClose  : Bool
  poolClose   : Bool

abbrev Heap (F A : Type) := JobId → Option (Job F A)

variable {F A : Type}

/-! ## The mutex-held regions -/

/-- How a region of `threadpool_add_job` ends. -/
inductive AddJobEnd where
  | wait
  | ret (v : Int)
  deriving DecidableEq

structure AddJobRegion (F A : Type) where
  ends : AddJobEnd
  pool : Threadpool
  heap : Heap F A
  broadcastNotEmpty : Bool

/-- `threadpool_add_job` from acquiring the mutex on, at the call or after a
wake-up; `alloc` is what `malloc(sizeof(job))` returns. -/
def threadpoolAddJob (pool : Threadpool) (heap : Heap F A) (alloc : Option JobId)
    (f : F) (a : A) : Option (AddJobRegion F A) :=
  if pool.queueCurNum = pool.queueMaxNum ∧ ¬(pool.queueClose ∨ pool.poolClose) then
    some ⟨.wait, pool, heap, false⟩
  else if pool.queueClose ∨ pool.poolClose then
    some ⟨.ret (-1), pool, heap, false⟩
  else
    match alloc with
    | none => some ⟨.ret (-1), pool, heap, false⟩
    | some pjob =>
      let heap := Function.update heap pjob (some ⟨f, a, none⟩)
      match pool.head with
      | none =>
        some ⟨.ret 0, { pool with
          head := some pjob, tail := some pjob, queueCurNum := pool.queueCurNum + 1 }, heap, true⟩
      | some _ => do
        -- pool->tail->next = pjob
        let t ← pool.tail
        let tjob ← heap t
        let heap := Function.update heap t (some { tjob with next := some pjob })
        some ⟨.ret 0, { pool with tail := some pjob, queueCurNum := pool.queueCurNum + 1 },
          heap, false⟩

/-- How a region of `threadpool_function` ends. -/
inductive WorkerEnd where
  | wait
  | exit
  | job (pjob : JobId)
  deriving DecidableEq

structure WorkerRegion where
  ends : WorkerEnd
  pool : Threadpool
  signalEmpty : Bool
  broadcastNotFull : Bool

/-- The loop body of `threadpool_function` up to the unlock. -/
def threadpoolFunction (pool : Threadpool) (heap : Heap F A) : Option WorkerRegion :=
  if pool.queueCurNum = 0 ∧ ¬pool.poolClose then some ⟨.wait, pool, false, false⟩
  else if pool.poolClose then some ⟨.exit, pool, false, false⟩
  else do
    let cur := pool.queueCurNum - 1
    -- a NULL head is dereferenced at the latest by the callback
    let pjob ← pool.head
    let pool ←
      if cur = 0 then some { pool with queueCurNum := cur, head := none, tail := none }
      else (heap pjob).map fun job => { pool with queueCurNum := cur, head := job.next }
    some ⟨.job pjob, pool, cur = 0, cur = pool.queueMaxNum - 1⟩

/-- How a region of `threadpool_destroy` ends. -/
inductive DestroyEnd where
  | wait
  | ret (v : Int)
  | drained
  deriving DecidableEq

/-- `threadpool_destroy` after a wake-up: the wait loop and what follows it up
to the unlock. -/
def threadpoolDestroyDrain (pool : Threadpool) : DestroyEnd × Threadpool :=
  if pool.queueCurNum ≠ 0 then (.wait, pool)
  else (.drained, { pool with poolClose := true })

/-- `threadpool_destroy` from the call on. -/
def threadpoolDestroyEnter (pool : Threadpool) : DestroyEnd × Threadpool :=
  if pool.queueClose ∨ pool.poolClose then (.ret (-1), pool)
  else threadpoolDestroyDrain { pool with queueClose := true }

/-! ## Program points -/

/-- Where a worker is in `threadpool_function`. -/
inductive WorkerPc (F A : Type) where
  | ready
  | asleep
  | woken
  | holding (pjob : JobId)
  | running (pjob : JobId) (f : F) (a : A)
  | returned (pjob : JobId)
  | exited

/-- Where a thread is in a call of `threadpool_add_job`. -/
inductive ProducerPc (F A : Type) where
  | outside
  | entering (f : F) (a : A)
  | asleep (f : F) (a : A)
  | woken (f : F) (a : A)

/-- Where the destroying thread is in `threadpool_destroy`. -/
inductive DestroyerPc where
  | outside
  | entering
  | asleep
  | woken
  | unlocked
  | wokeWorkers
  | joining (i : ℕ)
  | freeing
  | returned (v : Int)
  deriving DecidableEq

def WorkerPc.wake : WorkerPc F A → WorkerPc F A
  | .asleep => .woken
  | pc => pc

def ProducerPc.wake : ProducerPc F A → ProducerPc F A
  | .asleep f a => .woken f a
  | pc => pc

def DestroyerPc.wake : DestroyerPc → DestroyerPc
  | .asleep => .woken
  | pc => pc

/-- The call a thread about to acquire the mutex is in. -/
def ProducerPc.acquiring : ProducerPc F A → Option (F × A)
  | .entering f a => some (f, a)
  | .woken f a => some (f, a)
  | _ => none

/-! ## The system -/

structure State (n : ℕ) (P F A : Type) where
  pool : Threadpool
  heap : Heap F A
  worker : Fin n → WorkerPc F A
  producer : P → ProducerPc F A
  destroyer : DestroyerPc

/-- What an observer sees of a step. -/
inductive Event (n : ℕ) (P F A : Type) where
  | internal
  | call (p : P) (f : F) (a : A)
  | addRet (p : P) (f : F) (a : A) (v : Int)
  | dequeue (w : Fin n) (f : F) (a : A)
  | start (w : Fin n) (f : F) (a : A)
  | finish (w : Fin n) (f : F) (a : A)
  | close
  | discard (f : F) (a : A)
  | destroyRet (v : Int)

variable {n : ℕ} {P : Type} [DecidableEq P]

/-- The mutex has not been destroyed. -/
def State.alive (s : State n P F A) : Prop :=
  s.destroyer ≠ .freeing ∧ s.destroyer ≠ .returned 0

/-- `threadpool_init` has created the pool. -/
def threadpoolInit (n : ℕ) (P F A : Type) (queueMaxNum : Int) : State n P F A where
  pool :=
    { threadNum := n, queueMaxNum := queueMaxNum, head := none, tail := none,
      queueCurNum := 0, queueClose := false, poolClose := false }
  heap _ := none
  worker _ := .ready
  producer _ := .outside
  destroyer := .outside

/-- The steps of the threads. No step of `threadpool_add_job` is given for a
destroyed pool: what such a step does is undefined. -/
inductive Step : State n P F A → Event n P F A → State n P F A → Prop
  -- threadpool_add_job
  | call {s} (p : P) (f : F) (a : A) : s.alive → s.producer p = .outside →
      Step s (.call p f a) { s with producer := Function.update s.producer p (.entering f a) }
  -- a region that ends in a wait does not reach malloc
  | addWait {s f a r} (p : P) : s.alive →
      (s.producer p).acquiring = some (f, a) →
      threadpoolAddJob s.pool s.heap none f a = some r → r.ends = .wait →
      Step s .internal { s with
        pool := r.pool, heap := r.heap
        producer := Function.update s.producer p (.asleep f a) }
  | addRet {s f a r v} (p : P) (alloc : Option JobId) : s.alive →
      (s.producer p).acquiring = some (f, a) →
      (∀ id, alloc = some id → s.heap id = none) →
      threadpoolAddJob s.pool s.heap alloc f a = some r → r.ends = .ret v →
      Step s (.addRet p f a v) { s with
        pool := r.pool, heap := r.heap
        producer := Function.update s.producer p .outside
        worker := if r.broadcastNotEmpty then fun w => (s.worker w).wake else s.worker }
  | producerSpurious {s} (p : P) :
      Step s .internal { s with
        producer := Function.update s.producer p (s.producer p).wake }
  -- threadpool_function
  | workerWait {s r} (w : Fin n) : s.worker w = .ready ∨ s.worker w = .woken →
      threadpoolFunction s.pool s.heap = some r → r.ends = .wait →
      Step s .internal { s with pool := r.pool, worker := Function.update s.worker w .asleep }
  | workerExit {s r} (w : Fin n) : s.worker w = .ready ∨ s.worker w = .woken →
      threadpoolFunction s.pool s.heap = some r → r.ends = .exit →
      Step s .internal { s with pool := r.pool, worker := Function.update s.worker w .exited }
  | workerDequeue {s r pjob job} (w : Fin n) : s.worker w = .ready ∨ s.worker w = .woken →
      threadpoolFunction s.pool s.heap = some r → r.ends = .job pjob → s.heap pjob = some job →
      Step s (.dequeue w job.callbackFunction job.arg) { s with
        pool := r.pool
        worker := Function.update s.worker w (.holding pjob)
        destroyer := if r.signalEmpty then s.destroyer.wake else s.destroyer
        producer := if r.broadcastNotFull then fun p => (s.producer p).wake else s.producer }
  | workerSpurious {s} (w : Fin n) :
      Step s .internal { s with worker := Function.update s.worker w (s.worker w).wake }
  | workerStart {s pjob job} (w : Fin n) : s.worker w = .holding pjob → s.heap pjob = some job →
      Step s (.start w job.callbackFunction job.arg) { s with
        worker := Function.update s.worker w (.running pjob job.callbackFunction job.arg) }
  | workerFinish {s pjob f a} (w : Fin n) : s.worker w = .running pjob f a →
      Step s (.finish w f a) { s with worker := Function.update s.worker w (.returned pjob) }
  | workerFree {s pjob} (w : Fin n) : s.worker w = .returned pjob → s.heap pjob ≠ none →
      Step s .internal { s with
        heap := Function.update s.heap pjob none
        worker := Function.update s.worker w .ready }
  -- threadpool_destroy
  | destroyCall {s} : s.destroyer = .outside →
      Step s .internal { s with destroyer := .entering }
  | destroyRefused {s pool v} : s.destroyer = .entering →
      threadpoolDestroyEnter s.pool = (.ret v, pool) →
      Step s (.destroyRet v) { s with pool := pool, destroyer := .returned v }
  | destroyEnterWait {s pool} : s.destroyer = .entering →
      threadpoolDestroyEnter s.pool = (.wait, pool) →
      Step s .close { s with pool := pool, destroyer := .asleep }
  | destroyEnterDrained {s pool} : s.destroyer = .entering →
      threadpoolDestroyEnter s.pool = (.drained, pool) →
      Step s .close { s with pool := pool, destroyer := .unlocked }
  | destroyWait {s pool} : s.destroyer = .woken →
      threadpoolDestroyDrain s.pool = (.wait, pool) →
      Step s .internal { s with pool := pool, destroyer := .asleep }
  | destroyDrained {s pool} : s.destroyer = .woken →
      threadpoolDestroyDrain s.pool = (.drained, pool) →
      Step s .internal { s with pool := pool, destroyer := .unlocked }
  | destroySpurious {s} : s.destroyer = .asleep →
      Step s .internal { s with destroyer := .woken }
  | destroyBroadcastNotEmpty {s} : s.destroyer = .unlocked →
      Step s .internal { s with
        worker := fun w => (s.worker w).wake, destroyer := .wokeWorkers }
  | destroyBroadcastNotFull {s} : s.destroyer = .wokeWorkers →
      Step s .internal { s with
        producer := fun p => (s.producer p).wake, destroyer := .joining 0 }
  | destroyJoin {s} (w : Fin n) : s.destroyer = .joining w →
      ((w : ℕ) : Int) < s.pool.threadNum → s.worker w = .exited →
      Step s .internal { s with destroyer := .joining (w + 1) }
  | destroyCleanup {s} {i : ℕ} : s.destroyer = .joining i → ¬ (i : Int) < s.pool.threadNum →
      Step s .internal { s with destroyer := .freeing }
  | destroyDiscard {s p job} : s.destroyer = .freeing → s.pool.head = some p →
      s.heap p = some job →
      Step s (.discard job.callbackFunction job.arg) { s with
        pool := { s.pool with head := job.next }, heap := Function.update s.heap p none }
  | destroyFree {s} : s.destroyer = .freeing → s.pool.head = none →
      Step s (.destroyRet 0) { s with destroyer := .returned 0 }

/-- A pool of `n` workers with a queue of `queueMaxNum` jobs. -/
def poolSystem (n : ℕ) (P F A : Type) [DecidableEq P] (queueMaxNum : Int) :
    System (State n P F A) (Event n P F A) where
  init s := s = threadpoolInit n P F A queueMaxNum
  step := Step

/-! ## What a trace says -/

namespace Event

/-- The job of a call of `threadpool_add_job` that returned 0. -/
def accepted? : Event n P F A → Option (F × A)
  | .addRet _ f a v => if v = 0 then some (f, a) else none
  | _ => none

/-- The job of a call of `threadpool_add_job` that returned -1. -/
def refused? : Event n P F A → Option (F × A)
  | .addRet _ f a v => if v = -1 then some (f, a) else none
  | _ => none

/-- The worker and the job of a dequeue. -/
def dequeued? : Event n P F A → Option (Fin n × F × A)
  | .dequeue w f a => some (w, f, a)
  | _ => none

def started? : Event n P F A → Option (F × A)
  | .start _ f a => some (f, a)
  | _ => none

def finished? : Event n P F A → Option (F × A)
  | .finish _ f a => some (f, a)
  | _ => none

def discarded? : Event n P F A → Option (F × A)
  | .discard f a => some (f, a)
  | _ => none

end Event

/-- The jobs accepted along a trace, in acceptance order. -/
def acceptedJobs (tr : List (Event n P F A)) : List (F × A) := tr.filterMap Event.accepted?

/-- The jobs refused along a trace. -/
def refusedJobs (tr : List (Event n P F A)) : List (F × A) := tr.filterMap Event.refused?

/-- The jobs dequeued along a trace, by all workers together, in order. -/
def dequeues (tr : List (Event n P F A)) : List (Fin n × F × A) := tr.filterMap Event.dequeued?

def dequeuedJobs (tr : List (Event n P F A)) : List (F × A) := (dequeues tr).map Prod.snd

def startedJobs (tr : List (Event n P F A)) : List (F × A) := tr.filterMap Event.started?

def finishedJobs (tr : List (Event n P F A)) : List (F × A) := tr.filterMap Event.finished?

def discardedJobs (tr : List (Event n P F A)) : List (F × A) := tr.filterMap Event.discarded?

end Uartd.ThreadPool
