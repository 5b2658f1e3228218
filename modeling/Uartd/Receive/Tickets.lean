import Uartd.Receive.Threads

/-!
# Uartd — tickets for the jobs of the receive side

The argument of a `sock_recv_handler` job is the address of a slot of `events`,
and the slot is read when the job runs. To say what it should find there, every
job that `threadpool_add_job` accepts gets a ticket: the job, and the descriptor
its slot held at that moment. The tickets are a function of the trace (`tickets`);
they move with the jobs, from the queue to the worker that takes the job.

* `pool_or_same`, `events_step`, `source_step` — what one step may change;
* `TicketInv` — the tickets and the jobs agree, and slots that are passed on have
  been filled in by `epoll_wait`;
* `ticketInv_step`, `run_tickets` — in every run.
-/

namespace Uartd.Receive

open Uartd.Lib Uartd.ThreadPool

variable {n queueMaxNum : ℕ} {needSockServer : Bool}

/-! ## Tickets -/

/-- A job and the descriptor of the event it was added for. -/
structure Ticket where
  job : Callback × Arg
  fd  : Option Fd

/-- The tickets of the jobs in the queue, oldest first, and of the job each worker
took last; `slots` is what `epoll_wait` wrote into `events`. -/
structure Tickets (n : ℕ) where
  slots : ℕ → Option Fd
  queue : List Ticket
  hand  : Fin n → Option Ticket

def Tickets.none : Tickets n := ⟨fun _ => .none, [], fun _ => .none⟩

/-- The main thread is in the call of `threadpool_add_job` until it returns, so a
slot is then what it was when its address was taken. -/
def Tickets.next (g : Tickets n) : Event n → Tickets n
  | .epollWait batch => { g with slots := fun i => (batch[i]?.map EpollEvent.fd).or (g.slots i) }
  | .pool (.addRet _ f a v) =>
    if v = 0 then { g with queue := g.queue ++ [⟨(f, a), a.bind g.slots⟩] } else g
  | .pool (.dequeue w _ _) =>
    { g with queue := g.queue.tail, hand := Function.update g.hand w g.queue.head? }
  | _ => g

/-- The tickets after a trace. -/
def tickets (tr : List (Event n)) : Tickets n := tr.foldl Tickets.next .none

/-! ## What a step may change -/

variable {s s' : State n} {e : Event n}

/-- A step is one of the pool, or leaves the pool alone. -/
theorem pool_or_same (hst : Step needSockServer s e s') :
    (∃ pe, e = .pool pe ∧ ThreadPool.Step s.pool pe s'.pool) ∨
      s'.pool = s.pool ∧ ∀ pe, e ≠ .pool pe := by
  cases hst with
  | startJob _ _ hpool => exact .inl ⟨_, rfl, hpool⟩
  | uartJob _ hpool => exact .inl ⟨_, rfl, hpool⟩
  | job _ _ _ _ hpool => exact .inl ⟨_, rfl, hpool⟩
  | jobAdded _ hpool => exact .inl ⟨_, rfl, hpool⟩
  | pool _ hpool _ => exact .inl ⟨_, rfl, hpool⟩
  | start hpool _ => exact .inl ⟨_, rfl, hpool⟩
  | finish _ hpool => exact .inl ⟨_, rfl, hpool⟩
  | _ => exact .inr ⟨rfl, by simp⟩

/-- Only `epoll_wait` writes into `events`. -/
theorem events_step (hst : Step needSockServer s e s') :
    (∃ batch, e = .epollWait batch ∧ s'.events = fun i => batch[i]?.getD (s.events i)) ∨
      s'.events = s.events ∧ ∀ batch, e ≠ .epollWait batch := by
  cases hst with
  | epollWait batch _ _ _ _ => exact .inl ⟨batch, rfl, rfl⟩
  | _ => exact .inr ⟨rfl, by simp⟩

/-- The descriptor a handler reads from, or has read from. -/
def HandlerPc.source? : HandlerPc → Option Fd
  | .wholeRead _ | .toAdd _ => some .uart
  | .toRead fd => some fd
  | .toInsert m => some m.fd
  | _ => none

theorem source_afterRead {fd fd' : Fd} {data : List InputByte}
    (h : (afterRead fd data).source? = some fd') : fd' = fd := by
  unfold afterRead at h
  split at h
  · cases h
  · exact (Option.some.inj h).symm

/-- What a step does to the descriptor a worker reads from: it stays or goes, or
it comes with the start of a callback, or it is loaded from a slot. -/
inductive SourceStep (s : State n) (e : Event n) (s' : State n) (w : Fin n) : Prop
  | keep : (∀ i, s'.handler w = .toLoad i → s.handler w = .toLoad i) →
      (∀ fd, (s'.handler w).source? = some fd → (s.handler w).source? = some fd) →
      SourceStep s e s' w
  | start (f : Callback) (a : Arg) : e = .pool (.start w f a) →
      f.entry a = some (s'.handler w) → SourceStep s e s' w
  | load (i : ℕ) : s.handler w = .toLoad i → s'.handler w = .toRead (s.events i).fd →
      SourceStep s e s' w

/-- The handlers of other workers. -/
theorem SourceStep.other {x w : Fin n} {pc : HandlerPc}
    (h : s'.handler = Function.update s.handler x pc) (hw : w ≠ x) : SourceStep s e s' w := by
  have hkeep : s'.handler w = s.handler w := by rw [h, Function.update_of_ne hw]
  refine .keep ?_ ?_
  · rw [hkeep]
    exact fun _ hi => hi
  · rw [hkeep]
    exact fun _ hfd => hfd

/-- A move of one handler to a point with no new descriptor. -/
theorem SourceStep.move {x : Fin n} {pc : HandlerPc}
    (h : s'.handler = Function.update s.handler x pc) (hload : ∀ i, pc ≠ .toLoad i)
    (hsource : ∀ fd, pc.source? = some fd → (s.handler x).source? = some fd) (w : Fin n) :
    SourceStep s e s' w := by
  by_cases hw : w = x
  · subst hw
    have hpc : s'.handler w = pc := by rw [h, Function.update_self]
    refine .keep ?_ ?_
    · rw [hpc]
      exact fun i hi => absurd hi (hload i)
    · rw [hpc]
      exact hsource
  · exact .other h hw

theorem afterRead_ne_toLoad (fd : Fd) (data : List InputByte) (i : ℕ) :
    afterRead fd data ≠ .toLoad i := by
  unfold afterRead
  split <;> simp

/-- **Inversion.** -/
theorem source_step (hst : Step needSockServer s e s') (w : Fin n) : SourceStep s e s' w := by
  cases hst with
  | @start x f a pc pool' hpool hentry =>
    by_cases hw : w = x
    · subst hw
      refine .start f a rfl ?_
      show f.entry a = some (Function.update s.handler w pc w)
      rw [Function.update_self, hentry]
    · exact .other rfl hw
  | @load i x hpc =>
    by_cases hw : w = x
    · subst hw
      exact .load i hpc (Function.update_self _ _ _)
    · exact .other rfl hw
  | finish _ _ | readListening _ _ | accept _ _ _ _ _ _ | acceptFailed _ _ =>
    exact .move rfl (by simp) (by simp [HandlerPc.source?]) w
  | insert _ _ | initNodeFailed _ _ | signal _ _ =>
    exact .move rfl (by simp) (by simp [HandlerPc.source?]) w
  | uartStore x count hpc _ _ =>
    exact .move rfl (by simp) (fun fd hfd => by rw [hpc]; exact hfd) w
  | uartBreak x count hpc _ _ =>
    exact .move rfl (by simp) (fun fd hfd => by rw [hpc]; exact hfd) w
  | add x hpc =>
    exact .move rfl (afterRead_ne_toLoad _ _)
      (fun fd hfd => by rw [hpc, source_afterRead hfd]; rfl) w
  | @read fd x hpc _ =>
    exact .move rfl (afterRead_ne_toLoad _ _)
      (fun fd' hfd => by rw [hpc, source_afterRead hfd]; rfl) w
  | _ => exact .keep (fun _ hi => hi) fun _ hfd => hfd

/-- What is known of the number of slots `epoll_wait` filled in for a batch. -/
def MainPc.batchSize : MainPc → ℕ
  | .handling _ nfds | .removed _ nfds => nfds
  | .calling next => next.batchSize
  | _ => 0

/-- The slot whose address a job gets is one of the batch. -/
theorem dispatch_slot {i j : ℕ} {ev : EpollEvent} {f : Callback}
    (h : dispatch needSockServer i ev = some (f, some j)) : j = i := by
  unfold dispatch at h
  split at h
  · simp at h
  · simp at h
  · split at h <;> simp at h
  · split at h
    · simp only [Option.some.injEq, Prod.mk.injEq] at h
      exact h.2.symm
    · simp at h

/-- A slot whose address is passed to `threadpool_add_job` is one of the batch. -/
theorem call_slot {f : Callback} {i : ℕ}
    (hst : Step needSockServer s (.pool (.call () f (some i))) s') : i < s.main.batchSize := by
  cases hst with
  | job hmain hlt _ hdisp _ =>
    obtain rfl := dispatch_slot hdisp
    rw [hmain]
    exact hlt
  | pool hown _ _ => exact hown.elim

/-- The batch is the one `epoll_wait` returned last. -/
theorem batchSize_step (hst : Step needSockServer s e s') :
    (∃ batch, e = .epollWait batch ∧ s'.main.batchSize = batch.length) ∨
      s'.main.batchSize ≤ s.main.batchSize := by
  cases hst with
  | epollWait batch _ _ _ _ => exact .inl ⟨batch, rfl, rfl⟩
  | startJob _ _ _ => exact .inr (Nat.zero_le _)
  | started _ _ => exact .inr (Nat.zero_le _)
  | loopEnd _ _ => exact .inr (Nat.zero_le _)
  | del hmain _ _ => exact .inr (by rw [hmain]; exact Nat.le_refl _)
  | uartJob hmain _ => exact .inr (by rw [hmain]; exact Nat.le_refl _)
  | job hmain _ _ _ _ => exact .inr (by rw [hmain]; exact Nat.le_refl _)
  | nothing hmain _ _ => exact .inr (by rw [hmain]; exact Nat.le_refl _)
  | jobAdded hmain _ => exact .inr (by rw [hmain]; exact Nat.le_refl _)
  | _ => exact .inr (Nat.le_refl _)

/-! ## Tickets and jobs -/

/-- The tickets go with the jobs: from the queue to the worker that takes one. -/
structure TicketInv (queueMaxNum : ℕ) (s : State n) (g : Tickets n)
    (q : List (Entry Callback Arg)) : Prop where
  pool    : Inv queueMaxNum s.pool q
  queue   : g.queue.map Ticket.job = q.map Prod.snd
  taken   : ∀ w, ∀ j ∈ (s.pool.worker w).unstarted s.pool.heap,
    ∃ t, g.hand w = some t ∧ t.job = j
  running : ∀ w f, s.callback? w = some f → ∃ t, g.hand w = some t ∧ t.job.1 = f
  toLoad  : ∀ w i, s.handler w = .toLoad i →
    ∃ t, g.hand w = some t ∧ t.job = (.sockRecvHandler, some i)
  slots   : ∀ i fd, g.slots i = some fd → (s.events i).fd = fd
  filled  : ∀ i < s.main.batchSize, g.slots i ≠ none
  pending : ∀ j ∈ pendingJobs s.pool q, ∀ i, j.2 = some i → g.slots i ≠ none

variable {g : Tickets n} {q q' : List (Entry Callback Arg)}

/-- What a step does to the jobs on their way and in workers' hands. -/
structure JobStep (s : State n) (e : Event n) (s' : State n) (q q' : List (Entry Callback Arg)) :
    Prop where
  pending  : ∀ j ∈ pendingJobs s'.pool q', j ∈ pendingJobs s.pool q ∨ e = .pool (.call () j.1 j.2)
  taken    : ∀ w, ∀ j ∈ (s'.pool.worker w).unstarted s'.pool.heap,
    j ∈ (s.pool.worker w).unstarted s.pool.heap ∨ e = .pool (.dequeue w j.1 j.2)
  running  : ∀ w f, s'.callback? w = some f →
    s.callback? w = some f ∨ ∃ a, e = .pool (.start w f a)
  started  : ∀ w f a, e = .pool (.start w f a) →
    (f, a) ∈ (s.pool.worker w).unstarted s.pool.heap
  dequeued : ∀ w f a, e = .pool (.dequeue w f a) →
    (q.map Prod.snd).head? = some (f, a) ∧ (s.pool.worker w).unstarted s.pool.heap = 0 ∧
      s.callback? w = none ∧ s'.callback? w = none

/-- The tickets in the queue are those of the jobs in it. -/
theorem queue_next {pe : ThreadPool.Event n Unit Callback Arg}
    (hqueue : g.queue.map Ticket.job = q.map Prod.snd) (hq : QueueStep q pe q') :
    (g.next (.pool pe)).queue.map Ticket.job = q'.map Prod.snd := by
  unfold QueueStep at hq
  cases pe with
  | addRet u f a v =>
    by_cases hv : v = 0
    · simp only [ThreadPool.Event.accepted?, hv, if_true] at hq
      obtain ⟨id, rfl⟩ := hq
      simp only [Tickets.next, hv, if_true, List.map_append, hqueue, List.map_cons, List.map_nil]
    · simp only [ThreadPool.Event.accepted?, hv, if_false, ThreadPool.Event.dequeued?] at hq
      simp only [Tickets.next, hv, if_false, hqueue, hq]
  | dequeue w f a =>
    obtain ⟨id, rfl⟩ := hq
    simp only [Tickets.next, List.map_tail, hqueue, List.map_cons, List.tail_cons]
  | _ =>
    obtain rfl : q' = q := hq
    exact hqueue

/-- **Inversion.** What a step does to the jobs, and to the tickets in the queue. -/
theorem job_step (h : Inv queueMaxNum s.pool q) (hqueue : g.queue.map Ticket.job = q.map Prod.snd)
    (hst : Step needSockServer s e s') :
    ∃ q', Inv queueMaxNum s'.pool q' ∧ (g.next e).queue.map Ticket.job = q'.map Prod.snd ∧
      JobStep s e s' q q' := by
  rcases pool_or_same hst with ⟨pe, rfl, hpool⟩ | ⟨hpool, he⟩
  · obtain ⟨q', hinv, hq⟩ := inv_step h hpool
    refine ⟨q', hinv, ?_, ⟨fun j hj => ?_, fun w j hj => ?_, fun w f hf => ?_,
      fun w f a he => ?_, fun w f a he => ?_⟩⟩
    · exact queue_next hqueue hq
    · refine (pendingJobs_of_step h hpool hq hj).imp id fun hcalled => ?_
      cases pe with
      | call u f a =>
        obtain rfl := Option.some.inj hcalled
        rfl
      | _ => cases hcalled
    · refine (unstarted_of_step h hpool hj).imp id fun hdeq => ?_
      rw [hdeq]
    · rcases callback_step hpool w with hsame | ⟨f', a, rfl, -, hnow⟩ | ⟨f', a, rfl, hnow⟩
      · exact .inl (hsame.symm.trans hf)
      · obtain rfl : f' = f := Option.some.inj (hnow.symm.trans hf)
        exact .inr ⟨a, rfl⟩
      · exact absurd (hnow.symm.trans hf) (by simp)
    · cases he
      exact unstarted_of_start hpool
    · cases he
      obtain ⟨id, rfl⟩ : ∃ id, q = (id, f, a) :: q' := hq
      exact ⟨rfl, free_of_dequeue hpool⟩
  · refine ⟨q, hpool ▸ h, ?_, ⟨fun j hj => ?_, fun w j hj => ?_, fun w f hf => ?_,
      fun w f a hstart => absurd hstart (he _), fun w f a hdeq => absurd hdeq (he _)⟩⟩
    · cases e with
      | pool pe => exact absurd rfl (he pe)
      | _ => exact hqueue
    · rw [hpool] at hj
      exact .inl hj
    · rw [hpool] at hj
      exact .inl hj
    · rw [State.callback?, hpool] at hf
      exact .inl hf

/-! ## The step lemma -/

theorem hand_next (g : Tickets n) (e : Event n) (w : Fin n) :
    (g.next e).hand w = g.hand w ∨
      ∃ f a, e = .pool (.dequeue w f a) ∧ (g.next e).hand w = g.queue.head? := by
  cases e with
  | pool pe =>
    cases pe with
    | addRet u f a v =>
      left
      simp only [Tickets.next]
      split <;> rfl
    | dequeue x f a =>
      by_cases hx : w = x
      · subst hx
        exact .inr ⟨f, a, rfl, Function.update_self _ _ _⟩
      · exact .inl (Function.update_of_ne hx _ _)
    | _ => exact .inl rfl
  | _ => exact .inl rfl

theorem slots_next (g : Tickets n) (e : Event n) :
    (∃ batch, e = .epollWait batch ∧
      (g.next e).slots = fun i => (batch[i]?.map EpollEvent.fd).or (g.slots i)) ∨
        (g.next e).slots = g.slots ∧ ∀ batch, e ≠ .epollWait batch := by
  cases e with
  | epollWait batch => exact .inl ⟨batch, rfl, rfl⟩
  | pool pe =>
    refine .inr ⟨?_, nofun⟩
    cases pe with
    | addRet u f a v =>
      simp only [Tickets.next]
      split <;> rfl
    | _ => rfl
  | _ => exact .inr ⟨rfl, nofun⟩

/-- A slot stays filled in. -/
theorem slots_mono {i : ℕ} (h : g.slots i ≠ none) (e : Event n) : (g.next e).slots i ≠ none := by
  rcases slots_next g e with ⟨batch, -, hslots⟩ | ⟨hslots, -⟩
  · rw [hslots]
    simp [h]
  · rwa [hslots]

/-- A worker without a job at hand keeps its last ticket until it takes a job. -/
theorem hand_kept (hjobs : JobStep s e s' q q') {w : Fin n}
    (h : s.callback? w ≠ none ∨ s'.callback? w ≠ none ∨
      ∃ j, j ∈ (s.pool.worker w).unstarted s.pool.heap) (g : Tickets n) :
    (g.next e).hand w = g.hand w := by
  rcases hand_next g e w with hsame | ⟨f, a, he, -⟩
  · exact hsame
  · obtain ⟨-, hfree, hbefore, hafter⟩ := hjobs.dequeued w f a he
    rcases h with h | h | ⟨j, hj⟩
    · exact absurd hbefore h
    · exact absurd hafter h
    · rw [hfree] at hj
      exact absurd hj (Multiset.notMem_zero j)

/-- `events` and the record of it. -/
theorem TicketInv.slots_step (h : TicketInv queueMaxNum s g q)
    (hst : Step needSockServer s e s') (i : ℕ) (fd : Fd)
    (hi : (g.next e).slots i = some fd) : (s'.events i).fd = fd := by
  rcases slots_next g e with ⟨batch, rfl, hslots⟩ | ⟨hslots, hbatch⟩
  · rcases events_step hst with ⟨batch', he, hevents⟩ | ⟨-, hbatch⟩
    · cases he
      simp only [hslots] at hi
      simp only [hevents]
      cases hb : batch[i]? with
      | none =>
        rw [hb] at hi
        exact h.slots i fd hi
      | some ev =>
        rw [hb] at hi
        exact Option.some.inj hi
    · exact absurd rfl (hbatch batch)
  · rcases events_step hst with ⟨batch', he, -⟩ | ⟨hevents, -⟩
    · exact absurd he (hbatch batch')
    · rw [hevents]
      exact h.slots i fd (hslots ▸ hi)

/-- The slots of the batch. -/
theorem TicketInv.filled_step (h : TicketInv queueMaxNum s g q)
    (hst : Step needSockServer s e s') (i : ℕ) (hi : i < s'.main.batchSize) :
    (g.next e).slots i ≠ none := by
  rcases batchSize_step hst with ⟨batch, rfl, hsize⟩ | hle
  · rw [hsize] at hi
    simp [Tickets.next, List.getElem?_eq_getElem hi]
  · exact slots_mono (h.filled i (Nat.lt_of_lt_of_le hi hle)) e

/-- **Step lemma.** -/
theorem ticketInv_step (h : TicketInv queueMaxNum s g q) (hthreads : ThreadsInv s)
    (hst : Step needSockServer s e s') : ∃ q', TicketInv queueMaxNum s' (g.next e) q' := by
  obtain ⟨q', hinv, hqueue, hjobs⟩ := job_step h.pool h.queue hst
  -- a worker that holds a job has its ticket, and keeps it
  have hheld : ∀ w, ∀ j ∈ (s.pool.worker w).unstarted s.pool.heap,
      ∃ t, (g.next e).hand w = some t ∧ t.job = j := by
    intro w j hj
    rw [hand_kept hjobs (.inr (.inr ⟨j, hj⟩))]
    exact h.taken w j hj
  refine ⟨q', hinv, hqueue, fun w j hj => ?_, fun w f hf => ?_, fun w i hi => ?_,
    h.slots_step hst, h.filled_step hst, fun j hj i hi => ?_⟩
  · rcases hjobs.taken w j hj with hold | rfl
    · exact hheld w j hold
    · -- the job is the first of the queue
      have hhead := (hjobs.dequeued w j.1 j.2 rfl).1
      rw [← h.queue, List.head?_map] at hhead
      obtain ⟨t, ht, hjob⟩ := Option.map_eq_some_iff.mp hhead
      exact ⟨t, (Function.update_self _ _ _).trans ht, hjob⟩
  · have hne : s'.callback? w ≠ none := by rw [hf]; simp
    rcases hjobs.running w f hf with hold | ⟨a, he⟩
    · rw [hand_kept hjobs (.inr (.inl hne))]
      exact h.running w f hold
    · obtain ⟨t, ht, hjob⟩ := hheld w (f, a) (hjobs.started w f a he)
      exact ⟨t, ht, by rw [hjob]⟩
  · rcases source_step hst w with ⟨hload, -⟩ | ⟨f, a, he, hentry⟩ | ⟨j, hpc, hnow⟩
    · have hold := hload i hi
      have hne : s.callback? w ≠ none := by
        intro hnone
        rw [hthreads.idle w hnone] at hold
        cases hold
      rw [hand_kept hjobs (.inl hne)]
      exact h.toLoad w i hold
    · obtain ⟨t, ht, hjob⟩ := hheld w (f, a) (hjobs.started w f a he)
      rw [hi] at hentry
      cases f with
      | sockRecvHandler =>
        obtain ⟨j, rfl, hj⟩ := Option.map_eq_some_iff.mp hentry
        cases hj
        exact ⟨t, ht, hjob⟩
      | _ => cases hentry
    · rw [hnow] at hi
      cases hi
  · rcases hjobs.pending j hj with hold | rfl
    · exact slots_mono (h.pending j hold i hi) e
    · obtain ⟨f, a⟩ := j
      obtain rfl : a = some i := hi
      exact slots_mono (h.filled i (call_slot hst)) _

/-- **Run lemma.** -/
theorem run_tickets {tr : List (Event n)}
    (h : (receiveSystem n queueMaxNum needSockServer).Run tr s) :
    ∃ q, TicketInv queueMaxNum s (tickets tr) q := by
  refine System.Run.invariant (I := fun tr s => ∃ q, TicketInv queueMaxNum s (tickets tr) q)
    ?_ ?_ h
  · rintro s ⟨events, rfl⟩
    refine ⟨[], inv_init (Int.natCast_nonneg _), rfl, fun w j hj => ?_, fun w f hf => ?_, nofun,
      nofun, nofun, fun j hj => ?_⟩
    · exact absurd hj (Multiset.notMem_zero j)
    · cases hf
    · have hzero : pendingJobs (epollStart n queueMaxNum needSockServer events).pool [] = 0 :=
        pendingJobs_init
      rw [hzero] at hj
      exact absurd hj (Multiset.notMem_zero j)
  · intro tr s e s' hr ⟨q, hinv⟩ hst
    obtain ⟨q', hinv'⟩ := ticketInv_step hinv (run_threadsInv hr) hst
    refine ⟨q', ?_⟩
    rw [tickets, List.foldl_append]
    exact hinv'

end Uartd.Receive
