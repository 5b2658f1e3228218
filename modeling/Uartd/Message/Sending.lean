import Uartd.Lib.Writes
import Uartd.Message.Sender

/-!
# Uartd — messages reach the UART in order

Four ledgers over the runs of the message side, each a use of `Run.ledger`:

* the bytes offered to the UART, then those of the message that is popped and
  not yet written, are the bytes of the messages for the UART dequeued so far
  (`run_offered`; `run_stream` if each write is accepted as a whole);
* the messages dequeued, then those queued, are the ones inserted
  (`run_taken_append`, for both queues);
* the replies inserted, then those the handlers still have to make, are the
  replies produced, message by message (`run_replies`);
* the messages `data_process` handled, then the one it is about to handle, are
  the ones it popped (`run_triggers`).

The first needs that the reused node holds nothing between two iterations
(`SenderInv`): an iteration without a message then adds no byte.
-/

namespace Uartd.Message

open Uartd.Lib Uartd.LinkList

variable {R P E : Type} [DecidableEq R] [DecidableEq P] {cfg : Config E}

-- ---------------------------------------------------------------------------
-- The byte stream
-- ---------------------------------------------------------------------------

/-- The UART accepts a write as a whole. -/
def FullWrite (_ : State R P) : Event R P → Prop
  | .write _ bytes ret => ret = bytes.length
  | _ => True

/-- The bytes the UART takes in a step. -/
def Event.accepted : Event R P → List UInt8
  | .write _ bytes ret => bytes.take ret.toNat
  | _ => []

/-- The message `send_out_handler` dequeues in a step. -/
def Event.dequeued? : Event R P → Option DataInf
  | .send (.pop m) => m
  | _ => none

/-- The bytes written to the UART along a trace. -/
def uartStream (tr : List (Event R P)) : List UInt8 := tr.flatMap Event.accepted

/-- The messages dequeued from `G_send_linklist` along a trace. -/
def sendDequeued (tr : List (Event R P)) : List DataInf := tr.filterMap Event.dequeued?

/-- The messages inserted into `G_send_linklist`, with the thread that did it. -/
def sendInserted (tr : List (Event R P)) : List (Option P × DataInf) :=
  insertions (tr.filterMap Event.send?)

def uartBytesOf (d : DataInf) : List UInt8 := if d.sendTo = .UART then d.bytes else []

/-- The bytes of the messages for the UART. -/
def uartBytes (ms : List DataInf) : List UInt8 := ms.flatMap uartBytesOf

/-- The message for the UART that is popped and not yet written. -/
def SenderPc.held : SenderPc → List UInt8
  | .toSend (some d) => uartBytesOf d
  | _ => []

/-- The write to the UART a step makes. -/
def Event.uartWrite : Event R P → List (PartialWrite UInt8)
  | .write _ bytes ret => [⟨bytes, ret.toNat⟩]
  | _ => []

/-- The writes to the UART along a trace. -/
def uartWrites (tr : List (Event R P)) : List (PartialWrite UInt8) := tr.flatMap Event.uartWrite

omit [DecidableEq R] [DecidableEq P] in
theorem Event.sent_uartWrite (e : Event R P) : sent e.uartWrite = e.accepted := by
  cases e with
  | write m bytes ret => exact List.append_nil _
  | _ => rfl

omit [DecidableEq R] [DecidableEq P] in
theorem sent_uartWrites (tr : List (Event R P)) : sent (uartWrites tr) = uartStream tr := by
  rw [sent, uartWrites, List.flatMap_assoc, uartStream]
  congr 1
  funext e
  exact e.sent_uartWrite

/-- What is offered to the UART, then what is held, is what was held, then what
is dequeued. -/
theorem offered_step {s s' : State R P} {e : Event R P} (h : SenderInv s) (hst : Step cfg s e s') :
    offered e.uartWrite ++ s'.sender.held = s.sender.held ++ uartBytes e.dequeued?.toList := by
  have hnode := h.node
  cases hst with
  | @senderWait send' e hs hw _ =>
    have hnone : (Event.send e : Event R P).dequeued? = none := by
      cases e with
      | pop m => exact hw.elim
      | _ => rfl
    rw [hnone]
    simp [Event.uartWrite, offered, uartBytes]
  | senderUnlock hs _ =>
    simp [Event.uartWrite, offered, Event.dequeued?, uartBytes, hs, SenderPc.held]
  | senderPop hs hpop =>
    rw [hs]
    cases hm : s.send.list.contents.head? <;>
      simp [Event.uartWrite, offered, Event.dequeued?, uartBytes, SenderPc.held]
  | @sendDuer m hs hto =>
    -- a message for the dueros process has no bytes for the UART
    cases m with
    | none => simp [Event.uartWrite, offered, Event.dequeued?, uartBytes, hs, SenderPc.held]
    | some d =>
      rw [hs] at hnode
      have hd : d.sendTo ≠ .UART := by
        rw [← hnode.2.2.2.2, hto]
        simp
      simp [Event.uartWrite, offered, Event.dequeued?, uartBytes, uartBytesOf, hs, hd,
        SenderPc.held]
  | @sendUart m ret hs hto _ =>
    cases m with
    | none =>
      -- the node holds nothing, so nothing is written
      rw [hs] at hnode
      have hzero : s.sendNode.dataLen = 0 := hnode
      have hbytes : s.sendNode.bytes = [] := by simp [DataInf.bytes, hzero]
      simp [Event.uartWrite, offered, Event.dequeued?, uartBytes, hs, hbytes, SenderPc.held]
    | some d =>
      rw [hs] at hnode
      have hd : d.sendTo = .UART := hnode.2.2.2.2.symm.trans hto
      simp [Event.uartWrite, offered, Event.dequeued?, uartBytes, uartBytesOf, hs, hd,
        SenderPc.held, hnode.2.2.2.1]
  | @sendOther m hs _ hto =>
    cases m with
    | none => simp [Event.uartWrite, offered, Event.dequeued?, uartBytes, hs, SenderPc.held]
    | some d =>
      rw [hs] at hnode
      have hd : d.sendTo ≠ .UART := by
        rw [← hnode.2.2.2.2]
        exact hto
      simp [Event.uartWrite, offered, Event.dequeued?, uartBytes, uartBytesOf, hs, hd,
        SenderPc.held]
  | clear hs _ => simp [Event.uartWrite, offered, Event.dequeued?, uartBytes, hs, SenderPc.held]
  | _ => simp [Event.uartWrite, offered, Event.dequeued?, uartBytes]

/-- What was offered to the UART, then what is held, is what was dequeued for it. -/
theorem run_offered {tr : List (Event R P)} {s : State R P}
    (h : (messageSystem R P cfg).Run tr s) :
    offered (uartWrites tr) ++ s.sender.held = uartBytes (sendDequeued tr) := by
  have hin : uartBytes (sendDequeued tr) = tr.flatMap fun e => uartBytes e.dequeued?.toList := by
    rw [sendDequeued, uartBytes, List.filterMap_eq_flatMap_toList, List.flatMap_assoc]
    rfl
  have hout : offered (uartWrites tr) = tr.flatMap fun e => offered e.uartWrite := by
    rw [offered, uartWrites, List.flatMap_assoc]
    rfl
  rw [hin, hout]
  refine System.Run.ledger _ _ (fun s : State R P => s.sender.held) ?_ ?_ h
  · rintro s ⟨-, -, -, -, hsender, -⟩
    rw [hsender]
    rfl
  · rintro s e s' ⟨tr, hrun⟩ hst
    exact offered_step (run_sender hrun) hst

/-- If each write is accepted as a whole, everything offered is sent. -/
theorem run_fullWrite {tr : List (Event R P)} {s : State R P}
    (h : ((messageSystem R P cfg).restrict FullWrite).Run tr s) :
    uartStream tr = offered (uartWrites tr) := by
  have hall : ∀ w ∈ uartWrites tr, w.Complete := by
    refine System.Run.invariant (S := (messageSystem R P cfg).restrict FullWrite)
      (I := fun tr _ => ∀ w ∈ uartWrites tr, w.Complete) (fun _ _ => nofun) ?_ h
    intro tr s e s' _ ih hst w hw
    rw [uartWrites, List.flatMap_append, List.mem_append, List.flatMap_singleton] at hw
    rcases hw with hw | hw
    · exact ih w hw
    · cases e with
      | write m bytes ret =>
        obtain rfl := List.mem_singleton.mp hw
        have hret : ret = bytes.length := hst.2
        show bytes.length ≤ ret.toNat
        omega
      | _ => cases hw
  rw [← sent_uartWrites, sent, offered]
  exact List.flatMap_congr fun w hw => PartialWrite.sent_of_complete (hall w hw)

/-- What the UART took, then what is held, is what was dequeued for it. -/
theorem run_stream {tr : List (Event R P)} {s : State R P}
    (h : ((messageSystem R P cfg).restrict FullWrite).Run tr s) :
    uartStream tr ++ s.sender.held = uartBytes (sendDequeued tr) := by
  rw [run_fullWrite h]
  exact run_offered h.of_restrict

-- ---------------------------------------------------------------------------
-- Replies
-- ---------------------------------------------------------------------------

/-- The reply the thread of `data_process` inserts in a step. -/
def Event.reply : Event R P → List DataInf
  | .send (.insert none d) => [d]
  | _ => []

/-- The replies the handlers produce for a message. -/
def Event.produced : Event R P → List DataInf
  | .parse _ calls => calls.filterMap SendCall.message
  | _ => []

/-- The replies the handlers still have to insert. -/
def ProcessPc.pending : ProcessPc → List DataInf
  | .handling calls => calls.filterMap SendCall.message
  | _ => []

/-- The message a step hands to `data_parse`. -/
def Event.trigger : Event R P → List (Option DataInf)
  | .parse m _ => [m]
  | _ => []

/-- The outcome of a pop from `G_recv_linklist`. -/
def Event.received : Event R P → List (Option DataInf)
  | .recv (.pop m) => [m]
  | _ => []

/-- The message `data_process` has popped and not yet handed to `data_parse`. -/
def ProcessPc.inFlight : ProcessPc → List (Option DataInf)
  | .popped m => [m]
  | .parsing m => [m]
  | _ => []

/-- The replies of a trace, in the order of the messages they answer. -/
def producedReplies (tr : List (Event R P)) : List DataInf := tr.flatMap Event.produced

omit [DecidableEq R] [DecidableEq P] in
theorem ofWait_reply {e : MailboxEvent DataInf (Option P)} (h : ofWait e) :
    (Event.send e : Event R P).reply = [] := by
  cases e with
  | insert p d => exact h.elim
  | _ => rfl

omit [DecidableEq R] [DecidableEq P] in
theorem ofWait_received {e : MailboxEvent DataInf R} (h : ofWait e) :
    (Event.recv e : Event R P).received = [] := by
  cases e with
  | pop m => exact h.elim
  | _ => rfl

theorem replies_step {s s' : State R P} {e : Event R P} (hst : Step cfg s e s') :
    e.reply ++ s'.process.pending = s.process.pending ++ e.produced := by
  cases hst with
  | processPop hp _ _ _ => simp [Event.reply, Event.produced, hp, ProcessPc.pending]
  | processUnlock hp _ => simp [Event.reply, Event.produced, hp, ProcessPc.pending]
  | parse env hp => simp [Event.reply, Event.produced, hp, ProcessPc.pending]
  | reply hp hc _ => simp [Event.reply, Event.produced, hp, hc, ProcessPc.pending]
  | replyRefused hp hc _ => simp [Event.reply, Event.produced, hp, hc, ProcessPc.pending]
  | parsed hp _ => simp [Event.reply, Event.produced, hp, ProcessPc.pending]
  | senderWait _ hw _ => simp [ofWait_reply hw, Event.produced]
  | _ => simp [Event.reply, Event.produced]

theorem triggers_step {s s' : State R P} {e : Event R P} (hst : Step cfg s e s') :
    e.trigger ++ s'.process.inFlight = s.process.inFlight ++ e.received := by
  cases hst with
  | processWait _ hw _ => simp [ofWait_received hw, Event.trigger]
  | processPop hp _ _ _ => simp [Event.trigger, Event.received, hp, ProcessPc.inFlight]
  | processUnlock hp _ => simp [Event.trigger, Event.received, hp, ProcessPc.inFlight]
  | parse env hp => simp [Event.trigger, Event.received, hp, ProcessPc.inFlight]
  | reply hp _ _ => simp [Event.trigger, Event.received, hp, ProcessPc.inFlight]
  | replyRefused hp _ _ => simp [Event.trigger, Event.received, hp, ProcessPc.inFlight]
  | parsed hp _ => simp [Event.trigger, Event.received, hp, ProcessPc.inFlight]
  | _ => simp [Event.trigger, Event.received]

theorem run_replies {tr : List (Event R P)} {s : State R P}
    (h : (messageSystem R P cfg).Run tr s) :
    tr.flatMap Event.reply ++ s.process.pending = producedReplies tr := by
  refine System.Run.ledger _ _ (fun s : State R P => s.process.pending) ?_ ?_ h
  · rintro s ⟨-, hprocess, -⟩
    rw [hprocess]
    rfl
  · intro s e s' _ hst
    exact replies_step hst

theorem run_triggers {tr : List (Event R P)} {s : State R P}
    (h : (messageSystem R P cfg).Run tr s) :
    tr.flatMap Event.trigger ++ s.process.inFlight = tr.flatMap Event.received := by
  refine System.Run.ledger _ _ (fun s : State R P => s.process.inFlight) ?_ ?_ h
  · rintro s ⟨-, hprocess, -⟩
    rw [hprocess]
    rfl
  · intro s e s' _ hst
    exact triggers_step hst

/-- The replies among the insertions of a send queue. -/
def repliesOf (ins : List (Option P × DataInf)) : List DataInf :=
  ins.filterMap fun x => if x.1 = none then some x.2 else none

omit [DecidableEq R] [DecidableEq P] in
theorem repliesOf_sendInserted (tr : List (Event R P)) :
    repliesOf (sendInserted tr) = tr.flatMap Event.reply := by
  induction tr with
  | nil => rfl
  | cons e tr ih =>
    have hstep : repliesOf (sendInserted [e]) = e.reply := by
      cases e with
      | send e =>
        cases e with
        | insert p d => cases p <;> rfl
        | _ => rfl
      | _ => rfl
    have hcons : sendInserted (e :: tr) = sendInserted [e] ++ sendInserted tr := by
      simp [sendInserted, insertions, ← List.filterMap_append]
    rw [hcons, List.flatMap_cons, ← ih, ← hstep, repliesOf, List.filterMap_append]
    rfl

omit [DecidableEq R] [DecidableEq P] in
theorem sendDequeued_eq_taken (tr : List (Event R P)) :
    sendDequeued tr = taken (tr.filterMap Event.send?) := by
  rw [sendDequeued, taken, List.filterMap_filterMap]
  congr 1
  funext e
  cases e with
  | send e => cases e <;> rfl
  | _ => rfl

/-- Along every run: dequeued, then queued, is inserted. -/
theorem run_dequeued {tr : List (Event R P)} {s : State R P}
    (h : (messageSystem R P cfg).Run tr s) :
    sendDequeued tr ++ s.send.list.contents = (sendInserted tr).map Prod.snd := by
  rw [sendDequeued_eq_taken]
  exact run_taken_append (run_send h)

/-- The replies dequeued so far are a first part of the replies produced. -/
theorem run_replies_dequeued {tr : List (Event R P)} {s : State R P}
    (h : (messageSystem R P cfg).Run tr s) :
    repliesOf ((sendInserted tr).take (sendDequeued tr).length) <+: producedReplies tr := by
  refine List.IsPrefix.trans ?_ ⟨_, run_replies h⟩
  rw [← repliesOf_sendInserted]
  exact (List.take_prefix _ _).filterMap _

-- ---------------------------------------------------------------------------
-- The node of data_process
-- ---------------------------------------------------------------------------

/-- What the node holds when a message is handed to `data_parse`. -/
def ProcessPc.NodeOk : ProcessPc → DataInf → Prop
  | .popped (some d), node => node.bytes = d.bytes ∧ node.dataLen = d.dataLen ∧
      node.recvFd = d.recvFd
  | .parsing (some d), node => node.bytes = d.bytes ∧ node.dataLen = d.dataLen ∧
      node.recvFd = d.recvFd
  | _, _ => True

theorem process_step {s s' : State R P} {e : Event R P} (h : s.process.NodeOk s.processNode)
    (hst : Step cfg s e s') : s'.process.NodeOk s'.processNode := by
  cases hst with
  | processPop _ _ _ hpop =>
    rcases hpop.cases with ⟨hnil, -, -⟩ | ⟨d, rest, hcons, -, hwf, -, rfl⟩
    · simp [hnil, ProcessPc.NodeOk]
    · rw [hcons]
      exact ⟨hwf.deliver_bytes, rfl, rfl⟩
  | @processUnlock recv' m hp _ =>
    rw [hp] at h
    cases m with
    | none => trivial
    | some d => exact h
  | parse env hp => trivial
  | reply hp _ _ => trivial
  | replyRefused hp _ _ => trivial
  | parsed hp _ => trivial
  | _ => exact h

theorem run_process {tr : List (Event R P)} {s : State R P}
    (h : (messageSystem R P cfg).Run tr s) : s.process.NodeOk s.processNode := by
  refine System.Run.state_invariant
    (I := fun s : State R P => s.process.NodeOk s.processNode) ?_ ?_ h
  · rintro s ⟨-, hprocess, -⟩
    rw [hprocess]
    trivial
  · intro s e s' _ hinv hst
    exact process_step hinv hst

/-- Every message dequeued is handed to `data_parse` with its own bytes, length
and source, and its replies are what `data_parse` queues for those. -/
theorem parse_of_message {tr : List (Event R P)} {s : State R P}
    (h : (messageSystem R P cfg).Run tr s) {d : DataInf} {calls : List SendCall}
    (hmem : Event.parse (some d) calls ∈ tr) :
    ∃ env node, calls = dataParse cfg env node ∧ node.bytes = d.bytes ∧
      node.dataLen = d.dataLen ∧ node.recvFd = d.recvFd := by
  obtain ⟨pre, post, rfl⟩ := List.append_of_mem hmem
  obtain ⟨s₁, s₂, hrun, hst⟩ := h.at_event pre post _ rfl
  have hnode := run_process hrun
  cases hst with
  | parse env hp =>
    rw [hp] at hnode
    exact ⟨env, s₁.processNode, rfl, hnode⟩

/-- The messages dequeued from `G_recv_linklist` along a trace. -/
def recvDequeued (tr : List (Event R P)) : List DataInf := (tr.flatMap Event.received).filterMap id

omit [DecidableEq R] [DecidableEq P] in
theorem recvDequeued_eq_taken (tr : List (Event R P)) :
    recvDequeued tr = taken (tr.filterMap Event.recv?) := by
  rw [recvDequeued, taken, List.filterMap_flatMap, List.filterMap_filterMap,
    List.filterMap_eq_flatMap_toList]
  congr 1
  funext e
  cases e with
  | recv e =>
    cases e with
    | pop m => cases m <;> rfl
    | _ => rfl
  | _ => rfl

/-- A pop of a message of at most 1024 bytes stays inside the node's block. -/
theorem sender_pop_fits {s : State R P} (h : SenderInv s) (hs : s.sender = .toPop)
    (hlen : ∀ d ∈ s.send.list.contents, d.dataLen ≤ 1024) :
    ∃ s', Step cfg s (.send (.pop s.send.list.contents.head?)) s' := by
  obtain ⟨buf, hbuf, hblock⟩ := h.block
  obtain ⟨node', list', hpop⟩ := MessageList.exists_popped s.send.list
    s.sendNode (by
      intro d rest hd
      refine ⟨buf, hbuf, ?_⟩
      have := hlen d (by rw [hd]; simp)
      omega)
  exact ⟨_, .senderPop hs hpop⟩

-- ---------------------------------------------------------------------------
-- The theorem
-- ---------------------------------------------------------------------------

/-- **Sending is first-in first-out.** In every run in which the UART accepts
each write as a whole:

* the bytes written, then those of the message that is popped and not yet
  written, are the bytes of the messages for the UART dequeued so far, in the
  order they were inserted;
* the messages dequeued, then those queued, are the ones inserted, each once;
* the replies that have left the queue are a first part of the replies the
  handlers produced, listed by the message they answer, and `data_parse` is
  given the messages of `G_recv_linklist` in their order and unchanged;
* the next pop stays inside the node's block if no message exceeds it. -/
theorem sending_in_order {tr : List (Event R P)} {s : State R P}
    (h : ((messageSystem R P cfg).restrict FullWrite).Run tr s) :
    uartStream tr ++ s.sender.held = uartBytes (sendDequeued tr) ∧
    sendDequeued tr ++ s.send.list.contents = (sendInserted tr).map Prod.snd ∧
    repliesOf ((sendInserted tr).take (sendDequeued tr).length) <+: producedReplies tr ∧
    tr.flatMap Event.trigger ++ s.process.inFlight = tr.flatMap Event.received ∧
    (∀ d calls, Event.parse (some d) calls ∈ tr → ∃ env node, calls = dataParse cfg env node ∧
      node.bytes = d.bytes ∧ node.dataLen = d.dataLen ∧ node.recvFd = d.recvFd) ∧
    recvDequeued tr ++ s.recv.list.contents =
      (insertions (tr.filterMap Event.recv?)).map Prod.snd ∧
    (s.sender = .toPop → (∀ d ∈ s.send.list.contents, d.dataLen ≤ 1024) →
      ∃ s', Step cfg s (.send (.pop s.send.list.contents.head?)) s') := by
  have hrun := h.of_restrict
  refine ⟨run_stream h, run_dequeued hrun, run_replies_dequeued hrun, run_triggers hrun,
    fun d calls hmem => parse_of_message hrun hmem, ?_,
    fun hs hlen => sender_pop_fits (run_sender hrun) hs hlen⟩
  rw [recvDequeued_eq_taken]
  exact run_taken_append (run_recv hrun)

theorem fullWrite_oneByteTrace (s : State Unit Unit) : ∀ e ∈ oneByteTrace, FullWrite s e := by
  intro e he
  simp only [oneByteTrace, List.mem_cons, List.not_mem_nil, or_false] at he
  rcases he with rfl | rfl | rfl | rfl | rfl <;> trivial

/-- The theorem at work: one message, popped and written. -/
theorem sending_in_order_one :
    ∃ s, ((messageSystem Unit Unit noHandlers).restrict FullWrite).Run
        (oneByteTrace ++ [.write (some oneByte) [65] 1]) s ∧
      [65] ++ s.sender.held = [65] := by
  obtain ⟨s, hrun, hs, hto, hbytes, hlen, -, -⟩ := popped_one_run fullWrite_oneByteTrace
  have hwrite := hrun.step ⟨Step.sendUart 1 hs hto (.inr ⟨by decide, Int.le_of_eq hlen.symm⟩), by
    show (1 : Int) = s.sendNode.bytes.length
    rw [hbytes]
    rfl⟩
  rw [hbytes] at hwrite
  exact ⟨_, hwrite, (sending_in_order hwrite).1⟩

/-- Between the pop and the write the stream lacks the message dequeued. -/
theorem stream_behind_reachable :
    ∃ tr s, ((messageSystem Unit Unit noHandlers).restrict FullWrite).Run tr s ∧
      uartStream tr ≠ uartBytes (sendDequeued tr) := by
  obtain ⟨s, hrun, -⟩ := popped_one_run fullWrite_oneByteTrace
  exact ⟨_, s, hrun, by decide⟩

end Uartd.Message
