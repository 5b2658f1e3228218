import Uartd.Message.Threads
import Uartd.Receive.Servers

/-!
# Uartd — the daemon

The receive side and the message side put together. The workers of the pool are
the producers of `G_recv_linklist`: the insert and the signal at the end of a
receiving handler are steps of both sides, all other steps of one. A step of a
consumer is taken by the worker that runs it, `data_process` or
`send_out_handler`; nothing in the message side says that there is such a
worker, or only one.

A run of the daemon is a run of each side (`run_receive`, `run_message`), and
the two sides agree where each worker is (`run_synced`). So what was proved of a
side holds in the daemon, and here the sides meet: one worker is the consumer
(`Uartd.Daemon.Consumers`), what a handler is called with is input
(`Uartd.Daemon.Requests`). In turn a run of either side is one of the daemon
(`follow_run`, `follow_consumer`).
-/

namespace Uartd.Daemon

open Uartd.Lib Uartd.LinkList

variable {n queueMaxNum : ℕ} {P E : Type} [DecidableEq P] {needSockServer : Bool}

/-! ## Descriptors -/

/-- The numbers of the descriptors, of which the message side knows two. -/
structure Descriptors (cfg : Message.Config E) where
  number : Receive.Fd → Int
  injective : Function.Injective number
  uart : number .uart = cfg.uartfd
  pipe : number .pipe = cfg.pipefd

variable {cfg : Message.Config E}

/-- The node the receiving handlers insert for a message. -/
def Descriptors.node (d : Descriptors cfg) (m : Receive.Message) : DataInf :=
  Message.receivedMessage (d.number m.fd) m.bytes

/-- The callback a consumer's step belongs to. -/
def callbackOf : Message.Thread (Fin n) P → Option Receive.Callback
  | .process => some .dataProcess
  | .sender => some .sendOutHandler
  | _ => none

/-! ## The system -/

structure State (n : ℕ) (P : Type) where
  receive : Receive.State n
  message : Message.DispatchState (Fin n) P

inductive Event (n : ℕ) (P E : Type) where
  | receive (e : Receive.Event n)
  | insert (w : Fin n) (m : Receive.Message)
  | signal (w : Fin n)
  | consumer (w : Fin n) (e : Message.DispatchEvent (Fin n) P E)
  | readySend (p : P) (e : Message.DispatchEvent (Fin n) P E)

/-- A step of the receive side that leaves the queue alone. -/
def Apart (s : Receive.State n) (e : Receive.Event n) (s' : Receive.State n) : Prop :=
  (∀ w m, e ≠ .insert w m) ∧ ∀ w, s.handler w = .toSignal → s'.handler w = .toSignal

inductive Step (d : Descriptors cfg) (needSockServer : Bool) :
    State n P → Event n P E → State n P → Prop
  | receive {s e receive'} : Receive.Step needSockServer s.receive e receive' →
      Apart s.receive e receive' →
      Step d needSockServer s (.receive e) { s with receive := receive' }
  | insert {s receive' message'} (w : Fin n) (m : Receive.Message) :
      Receive.Step needSockServer s.receive (.insert w m) receive' →
      Message.DispatchStep cfg s.message (.base (.recv (.insert w (d.node m)))) message' →
      Step d needSockServer s (.insert w m) ⟨receive', message'⟩
  | signal {s message'} (w : Fin n) : s.receive.handler w = .toSignal →
      Message.DispatchStep cfg s.message (.base (.recv (.signal w))) message' →
      Step d needSockServer s (.signal w)
        ⟨{ s.receive with handler := Function.update s.receive.handler w .returning }, message'⟩
  -- data_process and send_out_handler
  | consumer {s e f message'} (w : Fin n) : callbackOf e.event.thread = some f →
      s.receive.callback? w = some f → Message.DispatchStep cfg s.message e message' →
      Step d needSockServer s (.consumer w e) { s with message := message' }
  -- ready_send_data, called by any other thread
  | readySend {s e message'} (p : P) : e.event.thread = .other p →
      Message.DispatchStep cfg s.message e message' →
      Step d needSockServer s (.readySend p e) { s with message := message' }

/-- The daemon, with both queues new and the pool just created. -/
def daemonSystem (n queueMaxNum : ℕ) (P : Type) [DecidableEq P] (d : Descriptors cfg)
    (needSockServer : Bool) : System (State n P) (Event n P E) where
  init s := (Receive.receiveSystem n queueMaxNum needSockServer).init s.receive ∧
    (Message.dispatchSystem (Fin n) P cfg).init s.message
  step := Step d needSockServer

/-! ## The two sides -/

/-- What the receive side sees of a step. -/
def Event.receive? : Event n P E → Option (Receive.Event n)
  | .receive e => some e
  | .insert w m => some (.insert w m)
  | .signal _ => some .internal
  | .consumer _ _ | .readySend _ _ => none

/-- What the message side sees of a step. -/
def Event.message? (d : Descriptors cfg) :
    Event n P E → Option (Message.DispatchEvent (Fin n) P E)
  | .receive _ => none
  | .insert w m => some (.base (.recv (.insert w (d.node m))))
  | .signal w => some (.base (.recv (.signal w)))
  | .consumer _ e | .readySend _ e => some e

section Sides

variable {d : Descriptors cfg} {tr : List (Event n P E)} {s : State n P}

theorem run_receive (h : (daemonSystem n queueMaxNum P d needSockServer).Run tr s) :
    (Receive.receiveSystem n queueMaxNum needSockServer).Run (tr.filterMap Event.receive?)
      s.receive := by
  refine System.Run.project (S := daemonSystem n queueMaxNum P d needSockServer)
    (g := fun s => s.receive) (fun _ hs => hs.1) ?_ h
  intro s e s' hst
  unfold System.Matches
  cases hst with
  | receive hst _ => exact ⟨_, hst, rfl⟩
  | insert w m hst _ => exact ⟨_, hst, rfl⟩
  | signal w hpc _ => exact ⟨_, .signal w hpc, rfl⟩
  | consumer _ _ _ _ => rfl
  | readySend _ _ _ => rfl

theorem run_message (h : (daemonSystem n queueMaxNum P d needSockServer).Run tr s) :
    (Message.dispatchSystem (Fin n) P cfg).Run (tr.filterMap (Event.message? d)) s.message := by
  refine System.Run.project (S := daemonSystem n queueMaxNum P d needSockServer)
    (g := fun s => s.message) (fun _ hs => hs.2) ?_ h
  intro s e s' hst
  unfold System.Matches
  cases hst with
  | receive _ _ => rfl
  | insert w m _ hst => exact ⟨_, hst, rfl⟩
  | signal w _ hst => exact ⟨_, hst, rfl⟩
  | consumer _ _ _ hst => exact ⟨_, hst, rfl⟩
  | readySend _ _ hst => exact ⟨_, hst, rfl⟩

end Sides

/-! ## Where the workers are -/

/-- A worker that has inserted and not signalled yet is so on both sides. -/
def Synced (s : State n P) : Prop :=
  ∀ w, s.message.base.recv.producer w = .inserted ↔ s.receive.handler w = .toSignal

/-- A worker is about to signal because it was, or because it has just inserted. -/
theorem toSignal_of_step {s s' : Receive.State n} {e : Receive.Event n}
    (hst : Receive.Step needSockServer s e s') {w : Fin n} (hw : s'.handler w = .toSignal) :
    s.handler w = .toSignal ∨ ∃ m, e = .insert w m := by
  -- another program point for one worker
  have hupdate : ∀ {x : Fin n} {pc : Receive.HandlerPc}, pc ≠ .toSignal →
      Function.update s.handler x pc w = .toSignal → s.handler w = .toSignal := by
    intro x pc hpc hx
    by_cases hwx : w = x
    · rw [hwx, Function.update_self] at hx
      exact absurd hx hpc
    · rwa [Function.update_of_ne hwx] at hx
  have hread : ∀ (fd : Receive.Fd) (data : List Receive.InputByte),
      Receive.afterRead fd data ≠ .toSignal := by
    intro fd data
    unfold Receive.afterRead
    split <;> simp
  cases hst with
  | start _ hentry =>
    refine .inl (hupdate ?_ hw)
    rcases Receive.Callback.entry_cases hentry with rfl | rfl | rfl | rfl | rfl | ⟨i, rfl⟩ <;> simp
  | add x _ | read x _ _ => exact .inl (hupdate (hread _ _) hw)
  | @insert m x hpc =>
    by_cases hwx : w = x
    · exact .inr ⟨m, by rw [hwx]⟩
    · exact .inl ((Function.update_of_ne hwx _ _).symm.trans hw)
  | finish _ _ | uartStore _ _ _ _ _ | uartBreak _ _ _ _ _ | load _ _ | readListening _ _
  | accept _ _ _ _ _ _ | acceptFailed _ _ | initNodeFailed _ _ | signal _ _ =>
    exact .inl (hupdate (by simp) hw)
  | _ => exact .inl hw

omit [DecidableEq P] in
/-- Neither consumer is a receiving handler. -/
theorem thread_of_callback {t : Message.Thread (Fin n) P} {f : Receive.Callback}
    (h : callbackOf t = some f) (w : Fin n) : t ≠ .handler w := by
  rintro rfl
  cases h

theorem synced_step {d : Descriptors cfg} {s s' : State n P} {e : Event n P E} (h : Synced s)
    (hst : Step d needSockServer s e s') : Synced s' := by
  cases hst with
  | receive hst hapart =>
    intro w
    refine (h w).trans ⟨hapart.2 w, fun hw => ?_⟩
    exact (toSignal_of_step hst hw).resolve_right fun ⟨m, hm⟩ => hapart.1 w m hm
  | insert w m hst hmessage =>
    cases hst with
    | insert _ hpc =>
      cases hmessage with
      | base hmessage _ =>
        cases hmessage with
        | receive r fd data _ hchan =>
          cases hchan with
          | insert r d hidle _ =>
            intro x
            by_cases hx : x = w
            · rw [hx]
              simp
            · simpa [Function.update_of_ne hx] using h x
        | processWait _ hwait _ => exact hwait.elim
  | signal w hpc hmessage =>
    cases hmessage with
    | base hmessage _ =>
      cases hmessage with
      | receiveSignal r hchan =>
        cases hchan with
        | signal r _ =>
          intro x
          by_cases hx : x = w
          · rw [hx]
            simp
          · simpa [Function.update_of_ne hx] using h x
      | processWait _ hwait _ => exact hwait.elim
  | consumer w hthread _ hst =>
    intro x
    show _ ↔ s.receive.handler x = _
    rw [Message.recvProducer_step hst (thread_of_callback hthread)]
    exact h x
  | readySend p hthread hst =>
    intro x
    show _ ↔ s.receive.handler x = _
    rw [Message.recvProducer_step hst (fun w hw => by rw [hthread] at hw; cases hw)]
    exact h x

theorem run_synced {d : Descriptors cfg} {tr : List (Event n P E)} {s : State n P}
    (h : (daemonSystem n queueMaxNum P d needSockServer).Run tr s) : Synced s := by
  refine System.Run.state_invariant (I := Synced) ?_ ?_ h
  · rintro s ⟨⟨events, hreceive⟩, hmessage⟩ w
    rw [hreceive, hmessage.1.1.2.2]
    simp [Receive.epollStart]
  · intro s e s' _ hs hst
    exact synced_step hs hst

/-! ## The receive side is free to run -/

/-- **Inversion.** A step of the receive side leaves the queue alone, or is an
insert or a signal. -/
theorem apart_or {s s' : Receive.State n} {e : Receive.Event n} (h : Receive.ThreadsInv s)
    (hst : Receive.Step needSockServer s e s') : Apart s e s' ∨
      (∃ w m, e = .insert w m ∧ s.handler w = .toInsert m) ∨
      ∃ w, s.handler w = .toSignal ∧ e = .internal ∧
        s' = { s with handler := Function.update s.handler w .returning } := by
  -- a worker that is not about to signal moves
  have hupdate : ∀ {x : Fin n} {pc : Receive.HandlerPc}, s.handler x ≠ .toSignal →
      ∀ w, s.handler w = .toSignal → Function.update s.handler x pc w = .toSignal := by
    intro x pc hx w hw
    have hwx : w ≠ x := by
      rintro rfl
      exact hx hw
    rw [Function.update_of_ne hwx]
    exact hw
  cases hst with
  | @start w f a pc pool' hpool hentry =>
    have hidle := h.idle w (ThreadPool.callback_of_start hpool).1
    exact .inl ⟨nofun, hupdate (by simp [hidle])⟩
  | finish hpc _ => exact .inl ⟨nofun, hupdate (by simp [hpc])⟩
  | uartStore w _ hpc _ _ | uartBreak w _ hpc _ _ | add w hpc | load w hpc | read w hpc _
  | readListening w hpc | accept w _ hpc _ _ _ | acceptFailed w hpc | initNodeFailed w hpc =>
    exact .inl ⟨nofun, hupdate (by simp [hpc])⟩
  | @insert m w hpc => exact .inr (.inl ⟨w, m, rfl, hpc⟩)
  | signal w hpc => exact .inr (.inr ⟨w, hpc, rfl, rfl⟩)
  | _ => exact .inl ⟨nofun, fun _ hw => hw⟩

/-- The heap of the receive queue has room for any number of nodes. -/
def Roomy (s : State n P) : Prop := {id | s.message.base.recv.list.heap id = none}.Infinite

/-- **Step lemma.** Whatever the consumers do, the daemon follows the receive side. -/
theorem follow_receive {d : Descriptors cfg} {s : State n P}
    (hthreads : Receive.ThreadsInv s.receive) (hsynced : Synced s) (hroom : Roomy s)
    {e : Receive.Event n} {r' : Receive.State n}
    (hst : Receive.Step needSockServer s.receive e r') :
    ∃ (e' : Event n P E) (s' : State n P), Step d needSockServer s e' s' ∧ e'.receive? = some e ∧
      s'.receive = r' ∧ Roomy s' := by
  rcases apart_or hthreads hst with hapart | ⟨w, m, rfl, hw⟩ | ⟨w, hw, rfl, rfl⟩
  · exact ⟨.receive e, _, .receive hst hapart, rfl, rfl, hroom⟩
  · have hidle : s.message.base.recv.producer w = .idle := by
      cases hp : s.message.base.recv.producer w with
      | idle => rfl
      | inserted =>
        have hsignal := (hsynced w).mp hp
        rw [hw] at hsignal
        cases hsignal
    obtain ⟨id, hid⟩ := hroom.nonempty
    obtain ⟨list', hinserted⟩ := MessageList.exists_inserted s.message.base.recv.list id
      (d := d.node m) hid ⟨_, rfl, Int.natCast_nonneg _, Int.le_refl _⟩
    have hmessage : Message.DispatchStep cfg s.message (.base (.recv (.insert w (d.node m)))) _ :=
      .base (.receive w _ _ m.bytes_ne_nil (.insert w _ hidle hinserted)) nofun
    refine ⟨.insert w m, _, .insert w m hst hmessage, rfl, rfl, ?_⟩
    refine Set.Infinite.mono ?_ (hroom.sdiff (Set.finite_singleton id))
    rintro x ⟨hx, hxid⟩
    exact hinserted.fresh hxid hx
  · have hmessage : Message.DispatchStep cfg s.message (.base (.recv (.signal w))) _ :=
      .base (.receiveSignal w (.signal w ((hsynced w).mpr hw))) nofun
    exact ⟨.signal w, _, .signal w hw hmessage, rfl, rfl, hroom⟩

/-- Only the receive side and its inserts and signals. -/
def Receiving (es : List (Event n P E)) : Prop := ∀ e ∈ es, e.receive? ≠ none

/-- **Run lemma.** -/
theorem follow_run {d : Descriptors cfg} {tr : List (Event n P E)} {s : State n P}
    (h : (daemonSystem n queueMaxNum P d needSockServer).Run tr s) (hroom : Roomy s)
    {es : List (Receive.Event n)} {r : Receive.State n}
    (hes : ((Receive.receiveSystem n queueMaxNum needSockServer).startAt s.receive).Run es r) :
    ∃ (es' : List (Event n P E)) (s' : State n P),
      ((daemonSystem n queueMaxNum P d needSockServer).startAt s).Run es' s' ∧
      es'.filterMap Event.receive? = es ∧ s'.receive = r ∧ Receiving es' ∧ Roomy s' := by
  induction hes with
  | init hr =>
    obtain rfl := hr
    exact ⟨[], s, .init rfl, rfl, rfl, fun _ he => absurd he List.not_mem_nil, hroom⟩
  | step _ hst ih =>
    obtain ⟨es', s', hrun, rfl, rfl, hreceiving, hroom'⟩ := ih
    have hrun' := h.append hrun
    obtain ⟨e', s'', hst', hsees, rfl, hroom''⟩ := follow_receive (d := d)
      (Receive.run_threadsInv (run_receive hrun')) (run_synced hrun') hroom' hst
    refine ⟨es' ++ [e'], s'', hrun.step hst', ?_, rfl, ?_, hroom''⟩
    · rw [List.filterMap_append, List.filterMap_cons_some hsees, List.filterMap_nil]
    · intro e he
      rcases List.mem_append.mp he with he | he
      · exact hreceiving e he
      · obtain rfl := List.mem_singleton.mp he
        rw [hsees]
        exact Option.some_ne_none _

/-- The daemon follows a consumer in its worker. -/
theorem follow_consumer {d : Descriptors cfg} {receive : Receive.State n} {w : Fin n}
    {f : Receive.Callback} (hw : receive.callback? w = some f)
    {es : List (Message.DispatchEvent (Fin n) P E)}
    {message message' : Message.DispatchState (Fin n) P}
    (hes : ((Message.dispatchSystem (Fin n) P cfg).startAt message).Run es message')
    (hthread : ∀ e ∈ es, callbackOf e.event.thread = some f) :
    ((daemonSystem n queueMaxNum P d needSockServer).startAt ⟨receive, message⟩).Run
      (es.map (.consumer w)) ⟨receive, message'⟩ := by
  induction hes with
  | init hm =>
    obtain rfl := hm
    exact .init rfl
  | step _ hst ih =>
    obtain ⟨hpast, hnow⟩ := List.forall_mem_append.mp hthread
    rw [List.map_append]
    exact (ih hpast).step (.consumer w (hnow _ (List.mem_singleton_self _)) hw hst)

/-! ## A start -/

/-- The pool just created, both queues new. -/
def start (n queueMaxNum : ℕ) (P : Type) (needSockServer : Bool)
    (events : ℕ → Receive.EpollEvent) : State n P where
  receive := Receive.epollStart n queueMaxNum needSockServer events
  message :=
    { base :=
        { recv := { list := .new, wait := .unlocked, producer := fun _ => .idle }
          process := .waiting
          processNode := Message.consumerNode
          send := { list := .new, wait := .unlocked, producer := fun _ => .idle }
          sender := .waiting
          sendNode := Message.consumerNode }
      analy := ⟨List.replicate 64 0, List.replicate 128 0⟩ }

variable (n queueMaxNum P needSockServer) in
theorem start_run (d : Descriptors cfg) (events : ℕ → Receive.EpollEvent) :
    (daemonSystem n queueMaxNum P d needSockServer).Run []
      (start n queueMaxNum P needSockServer events) :=
  .init ⟨⟨events, rfl⟩, ⟨⟨MessageList.new_initial, rfl, rfl⟩, rfl, rfl,
    ⟨MessageList.new_initial, rfl, rfl⟩, rfl, rfl⟩, rfl⟩

omit [DecidableEq P] in
theorem start_roomy (events : ℕ → Receive.EpollEvent) :
    Roomy (start n queueMaxNum P needSockServer events) := by
  refine Set.Infinite.mono ?_ (Set.finite_singleton 0).infinite_compl
  intro id hid
  have hne : id ≠ 0 := hid
  show MessageList.new.heap id = none
  simp [MessageList.new, hne]

/-- Some numbers for the descriptors. -/
def fdNumber (cfg : Message.Config E) : Receive.Fd → Int
  | .uart => cfg.uartfd
  | .pipe => cfg.pipefd
  | .sock => cfg.uartfd.natAbs + cfg.pipefd.natAbs + 1
  | .client k => cfg.uartfd.natAbs + cfg.pipefd.natAbs + 2 + k

theorem fdNumber_injective (cfg : Message.Config E) (hne : cfg.uartfd ≠ cfg.pipefd) :
    Function.Injective (fdNumber cfg) := by
  intro a b hab
  cases a <;> cases b <;> simp only [fdNumber, Receive.Fd.client.injEq, reduceCtorEq] at hab ⊢ <;>
    omega

def descriptors (cfg : Message.Config E) (hne : cfg.uartfd ≠ cfg.pipefd) : Descriptors cfg where
  number := fdNumber cfg
  injective := fdNumber_injective cfg hne
  uart := rfl
  pipe := rfl

/-- Every run of the receive side is one of the daemon's. -/
theorem exists_run (d : Descriptors cfg) {es : List (Receive.Event n)} {r : Receive.State n}
    (hes : (Receive.receiveSystem n queueMaxNum needSockServer).Run es r) :
    ∃ events, ∃ (tr : List (Event n P E)) (s : State n P),
      (daemonSystem n queueMaxNum P d needSockServer).Run tr s ∧
      ((daemonSystem n queueMaxNum P d needSockServer).startAt
        (start n queueMaxNum P needSockServer events)).Run tr s ∧
      tr.filterMap Event.receive? = es ∧ s.receive = r ∧ Receiving tr ∧ Roomy s := by
  obtain ⟨r₀, ⟨events, rfl⟩, hes₀⟩ := hes.startAt
  have hstart := start_run n queueMaxNum P needSockServer d events
  obtain ⟨tr, s, hrun, hfollowed⟩ := follow_run hstart (start_roomy events) hes₀
  exact ⟨events, tr, s, hstart.append hrun, hrun, hfollowed⟩

end Uartd.Daemon
