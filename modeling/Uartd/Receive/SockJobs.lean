import Uartd.Receive.Rounds
import Uartd.Receive.Tickets

/-!
# Uartd — which descriptor a socket job reads

`epoll_start` passes `sock_recv_handler` the address of `events[i].data.fd`, and
the handler reads it when a worker gets to it. By then the main loop may be back
from another `epoll_wait`, which has written other events into the array.

The condition is on `epoll_wait` (`SlotsKept`): a slot whose address is in a job
that has not loaded its argument yet is left alone, or gets the same descriptor.

* `unread_next` — a ticket is new when its job is accepted, and only then;
* `current_step`, `run_current` — under the condition slots hold what the tickets
  say, and so do the handlers that have loaded one;
* `socket_jobs_read_own` — under the condition every socket job reads the
  descriptor it was added for, and stores it as `recv_fd`;
* `socket_job_reads_pipe` — without it, a job for a client reads from the pipe, in a
  run in which `epoll_wait` reports what is ready and nothing else.
-/

namespace Uartd.Receive

open Uartd.Lib Uartd.ThreadPool

variable {n queueMaxNum : ℕ} {needSockServer : Bool}

/-! ## The condition -/

/-- Worker `w` has a job and has not loaded its argument. -/
def State.Unloaded (s : State n) (w : Fin n) : Prop :=
  (∃ j, j ∈ (s.pool.worker w).unstarted s.pool.heap) ∨ ∃ i, s.handler w = .toLoad i

/-- The job of `t` is in the queue, or a worker has it and has not loaded its argument. -/
def Unread (s : State n) (g : Tickets n) (t : Ticket) : Prop :=
  t ∈ g.queue ∨ ∃ w, g.hand w = some t ∧ s.Unloaded w

/-- `epoll_wait` writes no other descriptor into a slot that is still to be read. -/
def SlotsKept (p : State n × Tickets n) : Event n → Prop
  | .epollWait batch => ∀ t, Unread p.1 p.2 t → ∀ i ev, t.job.2 = some i → batch[i]? = some ev →
      t.fd = some ev.fd
  | _ => True

/-- The receive side with tickets, as long as the slots are kept. -/
def keptSystem (n queueMaxNum : ℕ) (needSockServer : Bool) :
    System (State n × Tickets n) (Event n) :=
  ((receiveSystem n queueMaxNum needSockServer).record Tickets.none Tickets.next).restrict SlotsKept

variable {s s' : State n} {e : Event n} {g : Tickets n} {q q' : List (Entry Callback Arg)}

/-! ## One step -/

/-- A worker has an unloaded job by taking it from the queue. -/
theorem unloaded_step (hjobs : JobStep s e s' q q') (hst : Step needSockServer s e s') {w : Fin n}
    (h : s'.Unloaded w) : s.Unloaded w ∨ ∃ f a, e = .pool (.dequeue w f a) := by
  rcases h with ⟨j, hj⟩ | ⟨i, hi⟩
  · rcases hjobs.taken w j hj with hold | he
    · exact .inl (.inl ⟨j, hold⟩)
    · exact .inr ⟨_, _, he⟩
  · left
    rcases source_step hst w with ⟨hload, -⟩ | ⟨f, a, he, -⟩ | ⟨j, -, hnow⟩
    · exact .inr ⟨i, hload i hi⟩
    · exact .inl ⟨_, hjobs.started w f a he⟩
    · rw [hnow] at hi
      cases hi

/-- A ticket in the queue was there before, or its job has just been accepted. -/
theorem queued_next {t : Ticket} (h : t ∈ (g.next e).queue) :
    t ∈ g.queue ∨ (g.next e).slots = g.slots ∧ t.fd = t.job.2.bind g.slots := by
  cases e with
  | pool pe =>
    cases pe with
    | addRet u f a v =>
      by_cases hv : v = 0
      · have hnext : g.next (.pool (.addRet u f a v)) =
            { g with queue := g.queue ++ [⟨(f, a), a.bind g.slots⟩] } := if_pos hv
        rw [hnext] at h ⊢
        rcases List.mem_append.mp h with hold | hnew
        · exact .inl hold
        · obtain rfl := List.mem_singleton.mp hnew
          exact .inr ⟨rfl, rfl⟩
      · simp only [Tickets.next, hv, if_false] at h
        exact .inl h
    | dequeue w f a => exact .inl (List.mem_of_mem_tail h)
    | _ => exact .inl h
  | _ => exact .inl h

/-- **Inversion.** A ticket is still to be read after a step if it was before, or
its job has just been accepted. -/
theorem unread_next (hjobs : JobStep s e s' q q') (hst : Step needSockServer s e s') {t : Ticket}
    (h : Unread s' (g.next e) t) :
    Unread s g t ∨ t ∈ (g.next e).queue ∧ (g.next e).slots = g.slots ∧
      t.fd = t.job.2.bind g.slots := by
  rcases h with hqueued | ⟨w, hhand, hunloaded⟩
  · exact (queued_next hqueued).imp .inl fun hnew => ⟨hqueued, hnew⟩
  · left
    rcases hand_next g e w with hsame | ⟨f, a, -, hhead⟩
    · rcases unloaded_step hjobs hst hunloaded with hold | ⟨f, a, rfl⟩
      · exact .inr ⟨w, hsame ▸ hhand, hold⟩
      · have hhead : (g.next (.pool (.dequeue w f a))).hand w = g.queue.head? :=
          Function.update_self _ _ _
        exact .inl (List.mem_of_head? (hhead ▸ hhand))
    · exact .inl (List.mem_of_head? (hhead ▸ hhand))

/-! ## The invariant -/

/-- What is still to be read, and what has been read, is the descriptor on the ticket. -/
structure Current (s : State n) (g : Tickets n) : Prop where
  unread : ∀ t, Unread s g t → ∀ i, t.job.2 = some i → t.fd = some (s.events i).fd
  read   : ∀ w fd t, (s.handler w).source? = some fd → g.hand w = some t →
    t.job.1 = .sockRecvHandler → t.fd = some fd

/-- A slot whose address is in a queued job has been filled in. -/
theorem TicketInv.filled_of_queued (h : TicketInv queueMaxNum s g q) {t : Ticket} {i : ℕ}
    (ht : t ∈ g.queue) (hi : t.job.2 = some i) : g.slots i ≠ none := by
  have hmem : t.job ∈ q.map Prod.snd := h.queue ▸ List.mem_map_of_mem ht
  refine h.pending t.job ?_ i hi
  unfold pendingJobs
  exact Multiset.mem_add.mpr (.inl (Multiset.mem_add.mpr (.inr (Multiset.mem_coe.mpr hmem))))

theorem callback_of_handler (h : ThreadsInv s) {w : Fin n} (hw : s.handler w ≠ .idle) :
    s.callback? w ≠ none :=
  fun hnone => hw (h.idle w hnone)

theorem callback_of_source (h : ThreadsInv s) {w : Fin n} {fd : Fd}
    (hw : (s.handler w).source? = some fd) : s.callback? w ≠ none := by
  refine callback_of_handler h fun hidle => ?_
  rw [hidle] at hw
  cases hw

/-- A callback that knows its descriptor at its entry is not `sock_recv_handler`. -/
theorem entry_source {f : Callback} {a : Arg} {pc : HandlerPc} {fd : Fd}
    (h : f.entry a = some pc) (hsource : pc.source? = some fd) : f ≠ .sockRecvHandler := by
  rintro rfl
  obtain ⟨i, -, rfl⟩ := Option.map_eq_some_iff.mp h
  cases hsource

/-- **Step lemma.** -/
theorem current_step (h : Current s g) (htickets : TicketInv queueMaxNum s g q)
    (hthreads : ThreadsInv s) (hst : Step needSockServer s e s') (hkept : SlotsKept (s, g) e) :
    Current s' (g.next e) := by
  obtain ⟨_, -, -, hjobs⟩ := job_step htickets.pool htickets.queue hst
  obtain ⟨_, htickets'⟩ := ticketInv_step htickets hthreads hst
  refine ⟨fun t ht i hi => ?_, fun w fd t hfd hhand hsock => ?_⟩
  · rcases unread_next hjobs hst ht with hold | ⟨hqueued, hslots, hfd⟩
    · rcases events_step hst with ⟨batch, rfl, hevents⟩ | ⟨hevents, -⟩
      · simp only [hevents]
        cases hb : batch[i]? with
        | none => exact h.unread t hold i hi
        | some ev => exact hkept t hold i ev hi hb
      · rw [hevents]
        exact h.unread t hold i hi
    · -- the slot was filled in, and the main thread has not left the call
      obtain ⟨fd, hslot⟩ := Option.ne_none_iff_exists'.mp (htickets'.filled_of_queued hqueued hi)
      rw [htickets'.slots i fd hslot, hfd, hi, ← hslots]
      exact hslot
  · rcases source_step hst w with ⟨-, hkeep⟩ | ⟨f, a, he, hentry⟩ | ⟨i, hpc, hnow⟩
    · have hold := hkeep fd hfd
      rw [hand_kept hjobs (.inl (callback_of_source hthreads hold))] at hhand
      exact h.read w fd t hold hhand hsock
    · have hstarted := hjobs.started w f a he
      obtain ⟨t', ht', hjob⟩ := htickets.taken w _ hstarted
      rw [hand_kept hjobs (.inr (.inr ⟨_, hstarted⟩)), ht'] at hhand
      obtain rfl := Option.some.inj hhand
      rw [hjob] at hsock
      exact absurd hsock (entry_source hentry hfd)
    · have hbusy := callback_of_handler hthreads (by rw [hpc]; exact nofun)
      rw [hand_kept hjobs (.inl hbusy)] at hhand
      obtain ⟨t', ht', hjob⟩ := htickets.toLoad w i hpc
      obtain rfl := Option.some.inj (ht'.symm.trans hhand)
      rw [hnow] at hfd
      obtain rfl := Option.some.inj hfd
      exact h.unread t' (.inr ⟨w, ht', .inr ⟨i, hpc⟩⟩) i (by rw [hjob])

theorem run_kept_iff {tr : List (Event n)} {p : State n × Tickets n}
    (h : (keptSystem n queueMaxNum needSockServer).Run tr p) :
    (receiveSystem n queueMaxNum needSockServer).Run tr p.1 ∧ p.2 = tickets tr :=
  System.run_record_iff.mp h.of_restrict

/-- **Run lemma.** -/
theorem run_current {tr : List (Event n)} {p : State n × Tickets n}
    (h : (keptSystem n queueMaxNum needSockServer).Run tr p) : Current p.1 p.2 := by
  refine System.Run.invariant (I := fun _ p => Current p.1 p.2) ?_ ?_ h
  · rintro ⟨s, g⟩ ⟨⟨events, rfl⟩, rfl⟩
    refine ⟨fun t ht => ?_, nofun⟩
    rcases ht with ht | ⟨w, hhand, -⟩
    · cases ht
    · cases hhand
  · rintro tr ⟨s, g⟩ e ⟨s', g'⟩ hr hinv ⟨⟨hst, rfl⟩, hkept⟩
    obtain ⟨hrun, rfl⟩ := run_kept_iff hr
    obtain ⟨q, htickets⟩ := run_tickets hrun
    exact current_step hinv htickets (run_threadsInv hrun) hst hkept

/-! ## What the workers read -/

/-- The descriptor a worker loads from its slot, reads from, or stores as `recv_fd`. -/
def Event.descriptor? : Event n → Option (Fin n × Fd)
  | .load w _ fd | .read w fd _ => some (w, fd)
  | .insert w m => some (w, m.fd)
  | _ => none

/-- Whenever a worker uses a descriptor it has a ticket, and if that is for a
socket job the descriptor is the one on the ticket. -/
def ReadsOwnDescriptor (tr : List (Event n)) : Prop :=
  ∀ pre e post, tr = pre ++ e :: post → ∀ w fd, e.descriptor? = some (w, fd) →
    ∃ t, (tickets pre).hand w = some t ∧ (t.job.1 = .sockRecvHandler → t.fd = some fd)

/-- Where the descriptor comes from. -/
theorem descriptor_source {w : Fin n} {fd : Fd} (hst : Step needSockServer s e s')
    (h : e.descriptor? = some (w, fd)) : (s.handler w).source? = some fd ∨
      ∃ i, s.handler w = .toLoad i ∧ (s.events i).fd = fd := by
  cases hst with
  | load x hpc =>
    cases h
    exact .inr ⟨_, hpc, rfl⟩
  | uartStore x _ hpc _ _ | uartBreak x _ hpc _ _ | read x hpc _ | readListening x hpc
  | insert x hpc =>
    cases h
    left
    rw [hpc]
    rfl
  | _ => cases h

/-- **Every socket job reads its own descriptor, as long as the slots are kept.**
In every run of the receive side with `NEED_SOCK_SERVER`, for any pool, any
clients and any batches, in which no `epoll_wait` writes another descriptor into a
slot whose address is in a job that has not loaded its argument yet: what a
`sock_recv_handler` job loads, reads from and stores as `recv_fd` is the descriptor
of the event it was added for. -/
theorem socket_jobs_read_own {tr : List (Event n)} {p : State n × Tickets n}
    (h : (keptSystem n queueMaxNum true).Run tr p) : ReadsOwnDescriptor tr := by
  intro pre e post htr w fd hfd
  obtain ⟨⟨s, g⟩, ⟨s', g'⟩, hpre, ⟨hst, -⟩, -⟩ := h.at_event pre post e htr
  have hcurrent := run_current hpre
  obtain ⟨hrun, rfl⟩ := run_kept_iff hpre
  obtain ⟨q, htickets⟩ := run_tickets hrun
  rcases descriptor_source hst hfd with hsource | ⟨i, hpc, rfl⟩
  · obtain ⟨f, hf⟩ := Option.ne_none_iff_exists'.mp
      (callback_of_source (run_threadsInv hrun) hsource)
    obtain ⟨t, hhand, -⟩ := htickets.running w f hf
    exact ⟨t, hhand, hcurrent.read w fd t hsource hhand⟩
  · obtain ⟨t, hhand, hjob⟩ := htickets.toLoad w i hpc
    exact ⟨t, hhand, fun _ => hcurrent.unread t (.inr ⟨w, hhand, .inr ⟨i, hpc⟩⟩) i (by rw [hjob])⟩

/-! ## A client is reported twice, then the pipe -/

/-- What `epoll_wait` has to report: where input has arrived since the last report,
and, level-triggered, where input has not been read. -/
def State.Ready (s : State n) (fd : Fd) : Prop :=
  match s.interest fd with
  | none => False
  | some .edge => s.edge fd = true
  | some .level => (s.input fd).unread ≠ []

/-- `epoll_wait` reports what is ready, and all of it. -/
def ReportsReady (s : State n) : Event n → Prop
  | .epollWait batch => ∀ fd, fd ∈ batch.map EpollEvent.fd ↔ s.Ready fd
  | _ => True

theorem State.Ready.reportable {fd : Fd} (h : s.Ready fd) : s.Reportable fd := by
  unfold State.Ready at h
  unfold State.Reportable
  cases hfd : s.interest fd with
  | none => simp [hfd] at h
  | some t =>
    cases t with
    | edge => simpa [hfd] using h
    | level => trivial

/-- The slots are kept, and everything that is ready is reported. -/
def reportedSystem (n queueMaxNum : ℕ) (needSockServer : Bool) :
    System (State n × Tickets n) (Event n) :=
  (keptSystem n queueMaxNum needSockServer).restrict fun p => ReportsReady p.1

theorem run_reported {tr : List (Event n)} {p : State n × Tickets n}
    (h : (reportedSystem n queueMaxNum needSockServer).Run tr p) :
    ((receiveSystem n queueMaxNum needSockServer).restrict ReportsReady).Run tr p.1 := by
  induction h with
  | init hinit => exact .init hinit.1
  | step _ hst ih => exact ih.step ⟨hst.1.1.1, hst.2⟩

theorem reported_step {tr : List (Event n)}
    (h : (reportedSystem n queueMaxNum needSockServer).Run tr (s, g))
    (hst : Step needSockServer s e s') (hkept : SlotsKept (s, g) e) (hready : ReportsReady s e) :
    (reportedSystem n queueMaxNum needSockServer).Run (tr ++ [e]) (s', g.next e) :=
  h.step ⟨⟨⟨hst, rfl⟩, hkept⟩, hready⟩

/-- Steps outside `epoll_wait`. -/
theorem reported_append {tr es : List (Event n)}
    (h : (reportedSystem n queueMaxNum needSockServer).Run tr (s, g))
    (hes : ((receiveSystem n queueMaxNum needSockServer).startAt s).Run es s')
    (hwait : WaitsNever es) :
    (reportedSystem n queueMaxNum needSockServer).Run (tr ++ es) (s', es.foldl Tickets.next g) := by
  induction hes with
  | init hs =>
    obtain rfl := hs
    rw [List.append_nil]
    exact h
  | @step es s₁ s₂ e hes hst ih =>
    obtain ⟨hpast, hnow⟩ := List.forall_mem_append.mp hwait
    have hfree : SlotsKept (s₁, es.foldl Tickets.next g) e ∧ ReportsReady s₁ e := by
      cases e with
      | epollWait batch => exact absurd rfl (hnow _ (List.mem_singleton_self _) batch)
      | _ => exact ⟨trivial, trivial⟩
    rw [← List.append_assoc, List.foldl_append]
    exact reported_step (ih hpast) hst hfree.1 hfree.2

/-- A worker that is ready, or in another callback, has loaded what it had to. -/
theorem not_unloaded (h : ThreadsInv s) {w : Fin n}
    (hunstarted : (s.pool.worker w).unstarted s.pool.heap = 0)
    (hcallback : s.callback? w ≠ some .sockRecvHandler) : ¬ s.Unloaded w := by
  rintro (⟨j, hj⟩ | ⟨i, hi⟩)
  · rw [hunstarted] at hj
    exact Multiset.notMem_zero j hj
  · obtain ⟨f, hf⟩ := Option.ne_none_iff_exists'.mp
      (callback_of_handler h (by rw [hi]; exact nofun))
    have hat := h.inside w f hf
    rw [hi] at hat
    cases f with
    | sockRecvHandler => exact hcallback hf
    | dataProcess | sendOutHandler | initDataToBtOnstart => cases hat
    | _ => exact hat

/-- With nothing left to load every batch keeps the slots. -/
theorem slotsKept_of_rest {tr : List (Event n)} {k : ℕ}
    (h : (reportedSystem n queueMaxNum needSockServer).Run tr (s, g)) (hrest : AtRest s.pool k)
    (hworker : ∀ w, (s.pool.worker w).unstarted s.pool.heap = 0 ∧
      s.callback? w ≠ some .sockRecvHandler) (e : Event n) : SlotsKept (s, g) e := by
  obtain ⟨hrun, rfl⟩ := run_kept_iff h.of_restrict
  obtain ⟨q, htickets⟩ := run_tickets hrun
  obtain rfl := htickets.pool.chain.rep.head_eq_none_iff.mp hrest.head
  have hqueue : (tickets tr).queue = [] := List.map_eq_nil_iff.mp htickets.queue
  cases e with
  | epollWait batch =>
    rintro t (ht | ⟨w, -, hunloaded⟩)
    · rw [hqueue] at ht
      cases ht
    · exact absurd hunloaded (not_unloaded (run_threadsInv hrun) (hworker w).1 (hworker w).2)
  | _ => trivial

/-- A batch that leaves the first slot as it is. -/
theorem slotsKept_same {tr : List (Event n)}
    (h : (reportedSystem n queueMaxNum needSockServer).Run tr (s, g)) {ev : EpollEvent}
    (hev : (s.events 0).fd = ev.fd) : SlotsKept (s, g) (.epollWait [ev]) := by
  intro t ht i ev' hi hslot
  have hcurrent := (run_current h.of_restrict).unread t ht i hi
  cases i with
  | zero =>
    obtain rfl := Option.some.inj hslot
    rw [hcurrent, hev]
  | succ i => cases hslot

/-- A batch of one event: its job reaches worker `w`, and the main loop is back. -/
theorem reported_round {tr : List (Event n)} {k : ℕ} (ev : EpollEvent)
    (h : (reportedSystem n queueMaxNum needSockServer).Run tr (s, g)) (hmain : s.main = .waiting)
    (hrest : AtRest s.pool k) (hkept : SlotsKept (s, g) (.epollWait [ev]))
    (hready : ∀ fd, s.Ready fd ↔ fd = ev.fd) (huart : ev.fd ≠ .uart) {f : Callback} {a : Arg}
    {pc : HandlerPc} (hdisp : dispatch needSockServer 0 ev = some (f, a))
    (hentry : f.entry a = some pc) {w : Fin n} (hw : s.pool.worker w = .ready) :
    ∃ tr' s' g', (reportedSystem n queueMaxNum needSockServer).Run tr' (s', g') ∧
      s'.main = .waiting ∧ AtRest s'.pool (k + 1) ∧
      s'.pool.worker = Function.update s.pool.worker w (.running k f a) ∧
      s'.handler = Function.update s.handler w pc ∧ s'.events 0 = ev ∧
      s'.interest = s.interest ∧ s'.input = s.input ∧
      s'.edge = fun fd => s.edge fd && !(fd ∈ [ev.fd]) := by
  have hwait : Step needSockServer s (.epollWait [ev]) { s with
      events := fun i => [ev][i]?.getD (s.events i)
      edge := fun fd => s.edge fd && !(fd ∈ [ev].map EpollEvent.fd)
      main := .handling 0 1 } := by
    refine .epollWait [ev] hmain (by simp) (List.nodup_singleton _) fun ev' hev => ?_
    rw [List.mem_singleton.mp hev]
    exact State.Ready.reportable ((hready _).mpr rfl)
  have hbatch := reported_step h hwait hkept fun fd => List.mem_singleton.trans (hready fd).symm
  obtain ⟨pool', hhand, hrest', hworker'⟩ := hand queueMaxNum needSockServer (s := { s with
      events := fun i => [ev][i]?.getD (s.events i)
      edge := fun fd => s.edge fd && !(fd ∈ [ev].map EpollEvent.fd)
      main := .handling 0 1 }) hrest hw hentry (.handling 1 1)
    fun pool' hstep => .job rfl Nat.one_pos huart hdisp hstep
  have hjob := reported_append hbatch hhand (by simp [WaitsNever])
  have hend := reported_step hjob (.loopEnd rfl (by decide)) trivial trivial
  exact ⟨_, _, _, hend, rfl, hrest', hworker', rfl, rfl, rfl, rfl, rfl⟩

/-- The main loop waits, a client is connected, and nothing else is ready. -/
structure Connected (s : State n) (k : ℕ) : Prop where
  main     : s.main = .waiting
  rest     : AtRest s.pool k
  interest : s.interest = Function.update (registered true) (.client 0) (some .level)
  edge     : ∀ fd, fd ≠ .client 0 → s.edge fd = false

theorem Connected.ready_iff {k : ℕ} (h : Connected s k) (fd : Fd) :
    s.Ready fd ↔ fd = .client 0 ∧ (s.input (.client 0)).unread ≠ [] := by
  unfold State.Ready
  rw [h.interest]
  by_cases hfd : fd = .client 0
  · rw [hfd, Function.update_self]
    simp
  · rw [Function.update_of_ne hfd]
    refine iff_of_false ?_ fun hclient => hfd hclient.1
    cases fd with
    | client k => exact id
    | _ =>
      show s.edge _ ≠ true
      rw [h.edge _ hfd]
      exact Bool.false_ne_true

/-- Input of the client. -/
theorem Connected.arrive {k : ℕ} (h : Connected s k) (bytes : List UInt8) :
    Connected { s with
      input := Function.update s.input (.client 0) ((s.input (.client 0)).arrive bytes)
      edge := Function.update s.edge (.client 0) true } k :=
  ⟨h.main, h.rest, h.interest, fun fd hfd =>
    (Function.update_of_ne hfd _ _).trans (h.edge fd hfd)⟩

/-- After the start-up nobody has a socket job. -/
theorem startWorkers_rested (heap : Heap Callback Arg) (w : Fin 5) :
    (startWorkers 0 1 2 w).unstarted heap = 0 ∧
      (startWorkers 0 1 2 w).callback? ≠ some .sockRecvHandler := by
  match w with
  | 0 | 1 | 2 | 3 | 4 => exact ⟨rfl, nofun⟩

/-- A client wants to connect, and the job that accepts it reaches worker 3. -/
theorem listener_reported : ∃ tr s g, (reportedSystem 5 10 true).Run tr (s, g) ∧
    s.main = .waiting ∧ AtRest s.pool 4 ∧
    s.pool.worker = Function.update (startWorkers 0 1 2) 3 (.running 3 .sockAcceptHandler none) ∧
    s.handler 3 = .toAccept ∧ s.interest = registered true ∧ (∀ fd, s.edge fd = false) ∧
    s.input .sock = { arrived := [0], taken := 0 } ∧
    ∀ k, s.input (.client k) = { arrived := [], taken := 0 } := by
  obtain ⟨es, s, hrun, hquiet, hinput, hinterest, ⟨-, -, -, hwait⟩, hworker, -⟩ :=
    start_up (n := 5) 10 true (by decide) 0 1 2 (by decide) (by decide) (by decide)
      (fun _ => ⟨.uart, true⟩) 3
  obtain ⟨s₀, hinit, hes⟩ := hrun.startAt
  have hstart :=
    reported_append (.init ⟨hinit, rfl⟩ : (reportedSystem 5 10 true).Run [] (s₀, .none))
    hes hwait
  have harrive := reported_step hstart (.arrive .sock [0]) trivial trivial
  have hrested : ∀ w, (s.pool.worker w).unstarted s.pool.heap = 0 ∧
      (s.pool.worker w).callback? ≠ some .sockRecvHandler := by
    rw [hworker]
    exact startWorkers_rested s.pool.heap
  have hready : ∀ fd, State.Ready { s with
      input := Function.update s.input .sock ((s.input .sock).arrive [0])
      edge := Function.update s.edge .sock true } fd ↔ fd = .sock := by
    intro fd
    unfold State.Ready
    dsimp only
    rw [hinterest]
    by_cases hfd : fd = .sock
    · simp [hfd, registered]
    · rw [Function.update_of_ne hfd, hquiet.edge]
      cases fd <;> simp [registered] at hfd ⊢
  have hfree : s.pool.worker 3 = .ready := by
    rw [hworker]
    rfl
  obtain ⟨tr, s', g, hrun', hmain, hrest, hworker', hhandler, -, hinterest', hinput', hedge⟩ :=
    reported_round ⟨.sock, true⟩ harrive hquiet.main hquiet.rest
      (slotsKept_of_rest harrive hquiet.rest hrested _) hready (by decide) rfl rfl (w := 3)
      (f := .sockAcceptHandler) hfree
  refine ⟨tr, s', g, hrun', hmain, hrest, ?_, ?_, hinterest'.trans hinterest, fun fd => ?_, ?_,
    fun k => ?_⟩
  · rw [hworker', ← hworker]
  · rw [hhandler, Function.update_self]
  · rw [hedge]
    exact edge_reported hquiet.edge _ _
  · rw [hinput']
    dsimp only
    rw [Function.update_self, hinput]
    rfl
  · rw [hinput']
    dsimp only
    rw [Function.update_of_ne (fun h => Fd.noConfusion h), hinput]

/-- The client is connected, and the worker that accepted it is ready again. -/
theorem client_accepted : ∃ tr s g, (reportedSystem 5 10 true).Run tr (s, g) ∧ Connected s 4 ∧
    s.input (.client 0) = { arrived := [], taken := 0 } ∧
    s.pool.worker = startWorkers 0 1 2 := by
  obtain ⟨tr, s, g, hrun, hmain, hrest, hworker, hhandler, hinterest, hedge, hsock, hclient⟩ :=
    listener_reported
  have haccept := reported_step hrun (.accept 3 0 hhandler (by rw [hsock]; decide)
    (by rw [hinterest]; rfl) (by rw [hclient])) trivial trivial
  have hrunning : s.pool.worker 3 = .running 3 .sockAcceptHandler none := by
    rw [hworker, Function.update_self]
  obtain ⟨q, htickets⟩ := run_tickets (run_kept_iff hrun.of_restrict).1
  have hjob : s.pool.heap 3 ≠ none := htickets.pool.chain.heldAlloc 3 3 (by rw [hrunning]; rfl)
  obtain ⟨pool', hleave, hrest', hworker'⟩ := leave 10 true (s := { s with
      input := Function.update s.input .sock ((s.input .sock).advance 1)
      interest := Function.update s.interest (.client 0) (some .level)
      handler := Function.update s.handler 3 .returning }) hrest hrunning hjob
    (Function.update_self 3 _ s.handler)
  refine ⟨_, _, _, reported_append haccept hleave (by simp [WaitsNever]),
    ⟨hmain, hrest', ?_, fun fd _ => hedge fd⟩, ?_, ?_⟩
  · show Function.update s.interest _ _ = _
    rw [hinterest]
  · show Function.update s.input .sock ((s.input .sock).advance 1) (.client 0) = _
    rw [Function.update_of_ne (by decide), hclient]
  · show pool'.worker = _
    rw [hworker']
    show Function.update s.pool.worker 3 .ready = _
    rw [hworker, Function.update_idem]
    exact Function.update_eq_self_iff.mpr rfl

/-- The client is reported, and the job reaches worker `w`. -/
theorem client_round {tr : List (Event 5)} {s : State 5} {g : Tickets 5} {k : ℕ}
    (h : (reportedSystem 5 10 true).Run tr (s, g)) (hconn : Connected s k)
    (hkept : SlotsKept (s, g) (.epollWait [⟨.client 0, true⟩]))
    (hunread : (s.input (.client 0)).unread ≠ []) {w : Fin 5} (hw : s.pool.worker w = .ready) :
    ∃ tr' s' g', (reportedSystem 5 10 true).Run tr' (s', g') ∧ Connected s' (k + 1) ∧
      s'.input = s.input ∧ s'.handler = Function.update s.handler w (.toLoad 0) ∧
      s'.pool.worker = Function.update s.pool.worker w (.running k .sockRecvHandler (some 0)) ∧
      (s'.events 0).fd = .client 0 := by
  obtain ⟨tr', s', g', hrun, hmain, hrest, hworker, hhandler, hevent, hinterest, hinput, hedge⟩ :=
    reported_round ⟨.client 0, true⟩ h hconn.main hconn.rest hkept
      (fun fd => (hconn.ready_iff fd).trans (and_iff_left hunread)) nofun rfl rfl hw
  refine ⟨tr', s', g', hrun, ⟨hmain, hrest, hinterest.trans hconn.interest, fun fd hfd => ?_⟩,
    hinput, hhandler, hworker, by rw [hevent]⟩
  rw [hedge]
  dsimp only
  rw [hconn.edge fd hfd, Bool.false_and]

/-- The client sends a byte, and is reported twice before a worker has read it. -/
theorem client_reported : ∃ tr s g, (reportedSystem 5 10 true).Run tr (s, g) ∧ Connected s 6 ∧
    s.input (.client 0) = { arrived := [66], taken := 0 } ∧ s.handler 3 = .toLoad 0 ∧
    s.handler 4 = .toLoad 0 ∧ (s.events 0).fd = .client 0 := by
  obtain ⟨tr, s, g, hrun, hconn, hinput, hworker⟩ := client_accepted
  have harrive := reported_step hrun (.arrive (.client 0) [66]) trivial trivial
  have hbyte : Function.update s.input (.client 0) ((s.input (.client 0)).arrive [66]) (.client 0) =
      { arrived := [66], taken := 0 } := by
    rw [Function.update_self, hinput]
    rfl
  have hrested : ∀ w, (s.pool.worker w).unstarted s.pool.heap = 0 ∧
      (s.pool.worker w).callback? ≠ some .sockRecvHandler := by
    rw [hworker]
    exact startWorkers_rested s.pool.heap
  obtain ⟨tr₁, s₁, g₁, hrun₁, hconn₁, hinput₁, hhandler₁, hworker₁, hevent₁⟩ :=
    client_round harrive (hconn.arrive [66]) (slotsKept_of_rest harrive hconn.rest hrested _)
      (by
        dsimp only
        rw [hbyte]
        decide) (w := 3) (by
        show s.pool.worker 3 = _
        rw [hworker]
        rfl)
  -- the client is still ready, and gets the same slot
  obtain ⟨tr₂, s₂, g₂, hrun₂, hconn₂, hinput₂, hhandler₂, -, hevent₂⟩ :=
    client_round hrun₁ hconn₁ (slotsKept_same hrun₁ hevent₁)
      (by
        rw [hinput₁]
        dsimp only
        rw [hbyte]
        decide) (w := 4) (by
        rw [hworker₁]
        show Function.update s.pool.worker 3 _ 4 = _
        rw [Function.update_of_ne (by decide), hworker]
        rfl)
  refine ⟨tr₂, s₂, g₂, hrun₂, hconn₂, ?_, ?_, ?_, hevent₂⟩
  · rw [hinput₂, hinput₁]
    exact hbyte
  · rw [hhandler₂, Function.update_of_ne (by decide), hhandler₁, Function.update_self]
  · rw [hhandler₂, Function.update_self]

/-- The first of the two jobs loads the client, and reads and inserts the byte. -/
theorem client_read : ∃ tr s g, (reportedSystem 5 10 true).Run (tr ++ [.load 3 0 (.client 0),
      .read 3 (.client 0) [(66, 0)], .insert 3 ⟨.client 0, [(66, 0)], by simp⟩]) (s, g) ∧
    Connected s 6 ∧ (s.input (.client 0)).unread = [] ∧ s.handler 4 = .toLoad 0 ∧
    (s.events 0).fd = .client 0 := by
  obtain ⟨tr, s, g, hrun, hconn, hinput, hhandler₃, hhandler₄, hevent⟩ := client_reported
  have hload := reported_step hrun (.load 3 hhandler₃) trivial trivial
  rw [hevent] at hload
  have hread := reported_step hload
    (.read 3 (Function.update_self 3 _ s.handler) (by decide)) trivial trivial
  have hchunk : (s.input (.client 0)).chunk recvBufSize = [(66, 0)] := by
    rw [hinput]
    rfl
  dsimp only at hread
  rw [hchunk] at hread
  have hinsert := reported_step hread (.insert (m := ⟨.client 0, [(66, 0)], by simp⟩) 3
    (Function.update_self 3 _ (Function.update s.handler 3 (.toRead (.client 0))))) trivial trivial
  rw [List.append_assoc, List.append_assoc] at hinsert
  refine ⟨tr, _, _, hinsert, ⟨hconn.main, hconn.rest, hconn.interest, hconn.edge⟩, ?_, ?_, hevent⟩
  · dsimp only
    rw [Function.update_self, hinput]
    rfl
  · dsimp only
    rw [Function.update_of_ne (by decide), Function.update_of_ne (by decide),
      Function.update_of_ne (by decide)]
    exact hhandler₄

/-- The theorem at work: worker 3 loads the descriptor of the client, reads from it
and stores it. -/
theorem socket_jobs_read_own_client : ∃ tr : List (Event 5), ReadsOwnDescriptor
    (tr ++ [.load 3 0 (.client 0), .read 3 (.client 0) [(66, 0)],
      .insert 3 ⟨.client 0, [(66, 0)], by simp⟩]) := by
  obtain ⟨tr, s, g, hrun, -⟩ := client_read
  exact ⟨tr, socket_jobs_read_own hrun.of_restrict⟩

/-- While the second job for the client is on its way to its load, `epoll_wait`
reports the pipe in the same slot: a socket job reads from the pipe. In the run
`epoll_wait` always reports what is ready. -/
theorem socket_job_reads_pipe : ¬ ∀ tr s,
    ((receiveSystem 5 10 true).restrict ReportsReady).Run tr s → ReadsOwnDescriptor tr := by
  intro hclaim
  obtain ⟨tr₀, s, g, hreported, hconn, hunread, hhandler, hevent⟩ := client_read
  obtain ⟨tr, htr⟩ : ∃ tr, tr = tr₀ ++ [.load 3 0 (.client 0), .read 3 (.client 0) [(66, 0)],
      .insert 3 ⟨.client 0, [(66, 0)], by simp⟩] := ⟨_, rfl⟩
  rw [← htr] at hreported
  obtain ⟨hrun, rfl⟩ := run_kept_iff hreported.of_restrict
  have harrive := (run_reported hreported).step ⟨.arrive .pipe [65], trivial⟩
  have hready : ReportsReady { s with
      input := Function.update s.input .pipe ((s.input .pipe).arrive [65])
      edge := Function.update s.edge .pipe true } (.epollWait [⟨.pipe, true⟩] : Event 5) := by
    intro fd
    unfold State.Ready
    dsimp only
    rw [hconn.interest]
    by_cases hclient : fd = .client 0
    · rw [hclient, Function.update_self]
      refine iff_of_false (by simp) (not_not_intro ?_)
      rw [Function.update_of_ne (by decide)]
      exact hunread
    · rw [Function.update_of_ne hclient]
      by_cases hpipe : fd = .pipe
      · simp [hpipe, registered]
      · rw [Function.update_of_ne hpipe, hconn.edge fd hclient]
        cases fd <;> simp [registered] at hpipe ⊢
  have hwait := harrive.step ⟨.epollWait [⟨.pipe, true⟩] hconn.main (by decide) (by simp) (by
    intro ev hev
    obtain rfl := List.mem_singleton.mp hev
    exact State.Ready.reportable ((hready .pipe).mp (List.mem_singleton_self _))), hready⟩
  have hload := hwait.step ⟨.load 4 hhandler, trivial⟩
  obtain ⟨t, hhand, hown⟩ := hclaim _ _ hload _ _ [] rfl 4 .pipe rfl
  -- the ticket is for the client
  obtain ⟨q, htickets⟩ := run_tickets hrun
  obtain ⟨t', hhand', hjob⟩ := htickets.toLoad 4 0 hhandler
  have hsame : (tickets (tr ++ [.arrive .pipe [65]] ++
      [.epollWait [⟨.pipe, true⟩]])).hand 4 = (tickets tr).hand 4 := by
    simp only [tickets, List.foldl_append, List.foldl_cons, List.foldl_nil, Tickets.next]
  obtain rfl : t' = t := Option.some.inj (hhand'.symm.trans (hsame.symm.trans hhand))
  have hclient := (run_current hreported.of_restrict).unread t'
    (.inr ⟨4, hhand', .inr ⟨0, hhandler⟩⟩) 0 (by rw [hjob])
  rw [hown (by rw [hjob]), hevent] at hclient
  simp at hclient

end Uartd.Receive
