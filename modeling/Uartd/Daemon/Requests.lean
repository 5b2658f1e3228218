import Uartd.Daemon.Rounds
import Uartd.Receive.Contiguous

/-!
# Uartd — what the handlers are called with

From the descriptors to the handlers of the two tables. What a receiving handler
inserts is what `data_parse` gets, in the order of the inserts (`run_parsed`), a
message goes to the table of its source (`dispatch_node`), and it is a piece
of the input of that source (`Receive.run_pieces`) of which no byte is in
another message (`Receive.inserted_nodup`).

So whatever the threads do, no handler is called for bytes that did not arrive,
did not arrive next to each other, or arrived at the other descriptor, and none
is called for the same bytes twice (`calls_follow_input`).
-/

namespace Uartd.Daemon

open Uartd.Lib Uartd.LinkList

variable {n queueMaxNum : ℕ} {P E : Type} [DecidableEq P] {needSockServer : Bool}
  {cfg : Message.Config E} {d : Descriptors cfg} {tr : List (Event n P E)} {s : State n P}

/-! ## Inserted and handled -/

/-- The message an event inserts into `G_recv_linklist`. -/
def Event.inserted? : Event n P E → Option Receive.Message
  | .insert _ m => some m
  | _ => none

/-- The messages inserted along a trace, from both sources. -/
def messages (tr : List (Event n P E)) : List Receive.Message := tr.filterMap Event.inserted?

/-- The calls of handlers along a trace. -/
def calls (d : Descriptors cfg) (tr : List (Event n P E)) : List (Message.Invocation E) :=
  (tr.filterMap (Event.message? d)).flatMap Message.DispatchEvent.calls

/-- The handlers a message is for: those of the entries of the table of its
source whose keyword it begins with. -/
def handlersOf (cfg : Message.Config E) (m : Receive.Message) :
    List (Message.Source × ℕ × List UInt8 × Int) :=
  match m.fd with
  | .uart => (Message.matchingAt cfg.uartHandle 0 m.bytes).map fun x =>
      (.uart, x.2, m.bytes, m.bytes.length)
  | .pipe => (Message.matchingAt cfg.pipeHandle 0 m.bytes).map fun x =>
      (.pipe, x.2, m.bytes, m.bytes.length)
  | .sock | .client _ => []

theorem node_bytes (d : Descriptors cfg) (m : Receive.Message) : (d.node m).bytes = m.bytes := by
  show m.bytes.take (m.bytes.length : Int).toNat = m.bytes
  rw [Int.toNat_natCast, List.take_length]

theorem sourceOf_node (d : Descriptors cfg) (m : Receive.Message) :
    cfg.sourceOf (d.node m).recvFd = if m.fd = .uart then some .uart
      else if m.fd = .pipe then some .pipe else none := by
  have huart : d.number m.fd = cfg.uartfd ↔ m.fd = .uart := by
    rw [← d.uart, d.injective.eq_iff]
  have hpipe : d.number m.fd = cfg.pipefd ↔ m.fd = .pipe := by
    rw [← d.pipe, d.injective.eq_iff]
  show (if d.number m.fd = cfg.uartfd then _ else if d.number m.fd = cfg.pipefd then _ else _) = _
  simp only [huart, hpipe]

/-- The number of its descriptor takes a message to its table. -/
theorem dispatch_node (d : Descriptors cfg) (m : Receive.Message) :
    Message.dispatch cfg (some (d.node m)) = handlersOf cfg m := by
  unfold Message.dispatch handlersOf
  dsimp only
  rw [sourceOf_node, node_bytes]
  cases m.fd <;> rfl

/-- What the message side sees of a trace. -/
def messageEvents (d : Descriptors cfg) (tr : List (Event n P E)) :
    List (Message.Event (Fin n) P) :=
  (tr.filterMap (Event.message? d)).map Message.DispatchEvent.event

theorem run_events (hcfg : cfg.Fits)
    (h : (daemonSystem n queueMaxNum P d needSockServer).Run tr s) :
    (Message.messageSystem (Fin n) P cfg).Run (messageEvents d tr) s.message.base :=
  (Message.run_dispatch hcfg (run_message h)).run

/-- What is put into the queue along a trace. -/
def queued (d : Descriptors cfg) (tr : List (Event n P E)) : List DataInf :=
  (insertions ((messageEvents d tr).filterMap Message.Event.recv?)).map Prod.snd

omit [DecidableEq P] in
theorem messages_append (tr es : List (Event n P E)) :
    messages (tr ++ es) = messages tr ++ messages es :=
  List.filterMap_append

omit [DecidableEq P] in
theorem queued_append (tr es : List (Event n P E)) :
    queued d (tr ++ es) = queued d tr ++ queued d es := by
  simp [queued, messageEvents, insertions]

omit [DecidableEq P] in
/-- The other threads put nothing into it. -/
theorem insertions_of_thread {e : Message.Event (Fin n) P} (h : ∀ w, e.thread ≠ .handler w) :
    insertions ([e].filterMap Message.Event.recv?) = [] := by
  cases e with
  | recv e =>
    cases e with
    | insert w x => exact absurd rfl (h w)
    | _ => rfl
  | _ => rfl

/-- What is put into the queue are the nodes of the messages. -/
theorem run_queued (h : (daemonSystem n queueMaxNum P d needSockServer).Run tr s) :
    queued d tr = (messages tr).map d.node := by
  refine System.Run.invariant (I := fun tr _ => queued d tr = (messages tr).map d.node)
    (fun _ _ => rfl) ?_ h
  intro tr s e s' _ ih hst
  rw [queued_append, ih, messages_append, List.map_append]
  congr 1
  cases hst with
  | consumer w hthread _ _ =>
    exact congrArg (List.map Prod.snd) (insertions_of_thread (thread_of_callback hthread))
  | readySend p hthread _ =>
    refine congrArg (List.map Prod.snd) (insertions_of_thread fun w hw => ?_)
    rw [hthread] at hw
    cases hw
  | _ => rfl

omit [DecidableEq P] in
theorem calls_seen (tr : List (Message.DispatchEvent (Fin n) P E)) :
    (tr.flatMap Message.DispatchEvent.calls).map Message.Invocation.seen =
      (tr.flatMap Message.DispatchEvent.dispatched).flatMap Prod.snd := by
  rw [List.map_flatMap, List.flatMap_assoc]
  refine List.flatMap_congr fun e _ => ?_
  cases e with
  | base e => rfl
  | parse m env calls => exact (List.append_nil _).symm

/-- A pop that found the queue empty calls nothing. -/
theorem dispatch_filterMap (cfg : Message.Config E) (ms : List (Option DataInf)) :
    ms.flatMap (Message.dispatch cfg) =
      (ms.filterMap id).flatMap fun m => Message.dispatch cfg (some m) := by
  induction ms with
  | nil => rfl
  | cons m ms ih =>
    cases m with
    | none => exact ih
    | some m => exact congrArg (Message.dispatch cfg (some m) ++ ·) ih

/-- **Run lemma.** `data_parse` gets the first messages inserted. -/
theorem run_parsed (hcfg : cfg.Fits)
    (h : (daemonSystem n queueMaxNum P d needSockServer).Run tr s) :
    ∃ handled rest, messages tr = handled ++ rest ∧
      ((messageEvents d tr).flatMap Message.Event.trigger).filterMap id = handled.map d.node := by
  have hrun := run_events hcfg h
  have hparsed := congrArg (List.filterMap id) (Message.run_triggers hrun)
  have hpopped := run_taken_append (Message.run_recv hrun)
  rw [← Message.recvDequeued_eq_taken, Message.recvDequeued, ← hparsed, List.filterMap_append,
    List.append_assoc] at hpopped
  obtain ⟨handled, rest, hmessages, hhandled, -⟩ :=
    List.append_eq_map_iff.mp (hpopped.trans (run_queued h))
  exact ⟨handled, rest, hmessages, hhandled.symm⟩

/-- The handlers are called for what `data_parse` gets. -/
theorem run_calls (hcfg : cfg.Fits)
    (h : (daemonSystem n queueMaxNum P d needSockServer).Run tr s) :
    (calls d tr).map Message.Invocation.seen =
      (((messageEvents d tr).flatMap Message.Event.trigger).filterMap id).flatMap fun m =>
        Message.dispatch cfg (some m) := by
  have hinv := Message.run_dispatch hcfg (run_message h)
  rw [calls, calls_seen, hinv.seen, List.flatMap_map, dispatch_filterMap]
  rfl

/-! ## The theorem -/

/-- Both sides have the same messages of a source. -/
theorem run_inserted (h : (daemonSystem n queueMaxNum P d needSockServer).Run tr s)
    (fd : Receive.Fd) : Receive.inserted fd (tr.filterMap Event.receive?) =
      (messages tr).filter fun m => m.fd = fd := by
  refine System.Run.invariant (I := fun tr _ => Receive.inserted fd (tr.filterMap Event.receive?) =
    (messages tr).filter fun m => m.fd = fd) (fun _ _ => rfl) ?_ h
  intro tr s e s' _ ih hst
  rw [List.filterMap_append, Receive.inserted_append, ih, messages_append, List.filter_append]
  congr 1
  cases hst with
  | @receive e _ _ hapart =>
    cases e with
    | insert w m => exact absurd rfl (hapart.1 w m)
    | _ => rfl
  | insert w m _ _ =>
    show [Receive.Event.insert w m].filterMap (Receive.Event.inserted? fd) =
      [m].filter fun m => m.fd = fd
    by_cases hm : m.fd = fd <;> simp [Receive.Event.inserted?, hm]
  | _ => rfl

/-- No byte of a source is in two messages, or twice in one. -/
theorem messages_nodup (h : (daemonSystem n queueMaxNum P d needSockServer).Run tr s)
    {fd : Receive.Fd} (hfd : fd ≠ .sock) :
    (((messages tr).filter fun m => m.fd = fd).flatMap Receive.Message.data).Nodup :=
  run_inserted h fd ▸ Receive.inserted_nodup (run_receive h) hfd

/-- A message is a piece of the input of its source. -/
theorem run_messages (h : (daemonSystem n queueMaxNum P d false).Run tr s) :
    ∀ m ∈ messages tr, m.data <:+: (s.receive.input m.fd).read ∧ m.Sized := by
  intro m hm
  obtain ⟨e, he, hinserted⟩ := List.mem_filterMap.mp hm
  cases e with
  | insert w m' =>
    obtain rfl := Option.some.inj hinserted
    exact (Receive.run_pieces (run_receive h)).2 w m' (List.mem_filterMap.mpr ⟨_, he, rfl⟩)
  | _ => cases hinserted

/-- **Handlers are called for input only.** In every run of the daemon, with any
number of workers and for any tables that fit: the calls of handlers are those
for the first messages inserted, in their order, each message by its own bytes
and in the table of its own source; a message is one piece of the input of its
source, of at most 1023 bytes from the UART and 1024 from the pipe; and no byte
of the input is handled twice. -/
theorem calls_follow_input (hcfg : cfg.Fits)
    (h : (daemonSystem n queueMaxNum P d false).Run tr s) :
    ∃ handled rest, messages tr = handled ++ rest ∧
      (calls d tr).map Message.Invocation.seen = handled.flatMap (handlersOf cfg) ∧
      (∀ m ∈ handled, m.data <:+: (s.receive.input m.fd).read ∧ m.Sized) ∧
      ∀ fd, ((handled.filter fun m => m.fd = fd).flatMap Receive.Message.data).Nodup := by
  obtain ⟨handled, rest, hmessages, hparsed⟩ := run_parsed hcfg h
  have hcalls : (calls d tr).map Message.Invocation.seen = handled.flatMap (handlersOf cfg) := by
    rw [run_calls hcfg h, hparsed, List.flatMap_map]
    exact List.flatMap_congr fun m _ => dispatch_node d m
  have hpieces : ∀ m ∈ handled, m.data <:+: (s.receive.input m.fd).read ∧ m.Sized :=
    fun m hm => run_messages h m (hmessages ▸ List.mem_append_left _ hm)
  refine ⟨handled, rest, hmessages, hcalls, hpieces, fun fd => ?_⟩
  by_cases hfd : fd = .sock
  · -- nothing is received from the listening socket
    have hnone : (handled.filter fun m => m.fd = fd) = [] := by
      refine List.filter_eq_nil_iff.mpr fun m hm => ?_
      rcases (hpieces m hm).2 with ⟨huart, -⟩ | ⟨hpipe, -⟩ <;> simp_all
    rw [hnone]
    exact List.nodup_nil
  · refine (messages_nodup h hfd).sublist (List.Sublist.flatMap ?_ _)
    rw [hmessages, List.filter_append]
    exact List.sublist_append_left _ _

omit [DecidableEq P] in
/-- One message was inserted. -/
theorem messages_inserted {w : Fin n} (m : Receive.Message)
    (hnone : Receive.InsertsNothing (tr.filterMap Event.receive?)) :
    messages (tr ++ [.insert w m, .signal w]) = [m] := by
  have htr : messages tr = [] := by
    refine List.filterMap_eq_nil_iff.mpr fun e he => ?_
    cases e with
    | insert x m' => exact absurd rfl (hnone _ (List.mem_filterMap.mpr ⟨_, he, rfl⟩) x m')
    | _ => rfl
  rw [messages_append, htr]
  rfl

omit [DecidableEq P] in
theorem messages_consumer (w : Fin n) (es : List (Message.DispatchEvent (Fin n) P E)) :
    messages (es.map (.consumer w)) = [] := by
  refine List.filterMap_eq_nil_iff.mpr fun e he => ?_
  obtain ⟨-, -, rfl⟩ := List.mem_map.mp he
  rfl

/-- The theorem at work: "time!" from the UART, and the two handlers called for it. -/
theorem calls_follow_input_time : ∃ tr s,
    (daemonSystem 5 10 Empty (descriptors Message.threeKeywords (by decide)) false).Run tr s ∧
      messages tr = [timeMessage] ∧
      (calls (descriptors Message.threeKeywords (by decide)) tr).map Message.Invocation.seen =
        [(.uart, 0, [116, 105, 109, 101, 33], 5), (.uart, 2, [116, 105, 109, 101, 33], 5)] := by
  obtain ⟨tr, s, -, hnone, hrun, hprocess, -, hparsing, -⟩ := text_taken Empty
    (descriptors Message.threeKeywords (by decide)) [116, 105, 109, 101, 33] (by decide)
    (by decide) (show timeMessage = _ from rfl)
  obtain ⟨analy', cs, hparse, hparsed⟩ :=
    (Message.run_dispatch Message.threeKeywords_fits (run_message hrun)).parsed
      Message.threeKeywords_fits hparsing
  have hrun' := hrun.append (follow_consumer hprocess (.step (.init rfl)
    (Message.DispatchStep.parse () hparsing hparse)) (List.map_eq_replicate_iff.mp rfl))
  obtain ⟨handled, rest, hhandled, hcalls, -⟩ := calls_follow_input Message.threeKeywords_fits hrun'
  have hmessages := hhandled
  rw [messages_append, messages_append, messages_consumer, messages_consumer,
    messages_inserted timeMessage hnone] at hmessages
  refine ⟨_, _, hrun', hhandled.trans hmessages.symm, ?_⟩
  rw [hcalls]
  cases handled with
  | nil =>
    -- the last step called handlers
    rw [calls, List.filterMap_append, List.flatMap_append, List.map_append] at hcalls
    have hnil : cs.map Message.Invocation.seen = [] := by
      simpa [Event.message?, Message.DispatchEvent.calls] using (List.append_eq_nil_iff.mp hcalls).2
    rw [hparsed.seen, dispatch_node] at hnil
    exact absurd hnil (by decide)
  | cons m handled =>
    obtain ⟨rfl, hrest⟩ := List.cons.inj hmessages
    obtain ⟨rfl, -⟩ := List.append_eq_nil_iff.mp hrest.symm
    decide

end Uartd.Daemon
