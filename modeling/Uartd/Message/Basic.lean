import Uartd.Lib.Mailbox
import Uartd.LinkList.Queue
import Uartd.Message.Protocol

/-!
# Uartd — the two message queues and their consumers (uart_start.c)

`G_recv_linklist` is filled by the receive handlers and emptied by the thread of
`data_process`; `G_send_linklist` is filled by every thread that calls
`ready_send_data`, the thread of `data_process` among them, and emptied by the
thread of `send_out_handler`. Each queue has its own mutex and condition, taken
and waited for by its consumer only.

A `Channel` is one queue with the state of that mutex and condition; the steps
on it are the ones a thread takes atomically. A step of the system is one such
step, or one a consumer takes on its own node: `data_parse`, a send operation,
the clean-up at the end of an iteration.

The memory an insert needs is found, and a step that would fault does not exist:
a run ends before it. What a handler passes to `ready_send_data` is a block as
long as it says. A UART write accepts any number of bytes, or fails. The lines that
`inf` and `err` log are left out, with what they read of a block.
-/

namespace Uartd.Message

open Uartd.Lib Uartd.LinkList

/-! ## One queue -/

/-- A queue, its consumer's place in the wait and its producers. -/
structure Channel (P : Type) where
  list : MessageList
  wait : WaitPc
  producer : P → PutPc

variable {P : Type} [DecidableEq P]

inductive ChannelStep : Channel P → MailboxEvent DataInf P → Channel P → Prop
  | insert {c list' id} (p : P) (d : DataInf) : c.producer p = .idle →
      c.list.Inserted id d list' →
      ChannelStep c (.insert p d) { c with
        list := list', producer := Function.update c.producer p .inserted }
  | signal {c} (p : P) : c.producer p = .inserted →
      ChannelStep c (.signal p) { c with
        wait := c.wait.signalled, producer := Function.update c.producer p .idle }
  | lock {c} : c.wait = .unlocked → ChannelStep c .lock { c with wait := .locked }
  | testEmpty {c} : c.wait = .locked → isSinglelinklistEmpty c.list.head ≠ 0 →
      ChannelStep c (.test true) { c with wait := .toWait }
  | testNonempty {c} : c.wait = .locked → isSinglelinklistEmpty c.list.head = 0 →
      ChannelStep c (.test false) { c with wait := .passed }
  -- pthread_cond_wait: sleep, wake up by a signal or for no reason, lock again
  | sleep {c} : c.wait = .toWait → ChannelStep c .sleep { c with wait := .asleep }
  | spurious {c} : c.wait = .asleep → ChannelStep c .spurious { c with wait := .woken }
  | relock {c} : c.wait = .woken → ChannelStep c .relock { c with wait := .passed }
  | unlock {c} : c.wait = .passed → ChannelStep c .unlock { c with wait := .unlocked }
  | pop {c dst dst' list'} : c.list.Popped dst dst' list' →
      ChannelStep c (.pop c.list.contents.head?) { c with list := list' }

/-- The steps of `pthread_mutex_lock`, the emptiness test and `pthread_cond_wait`. -/
def ofWait : MailboxEvent DataInf P → Prop
  | .lock | .test _ | .sleep | .spurious | .relock => True
  | _ => False

/-- A new queue. -/
def Channel.Initial (c : Channel P) : Prop :=
  c.list.Initial ∧ c.wait = .unlocked ∧ c.producer = fun _ => .idle

/-! ## The two consumers -/

/-- `memset(block, 0, n)`. -/
def memset (block : Option (List UInt8)) (n : ℕ) : Option (List UInt8) :=
  block.bind fun b => if n ≤ b.length then some (List.replicate n 0 ++ b.drop n) else none

/-- The node both consumers allocate with `singlelinklist_init_node(1024)`. -/
def consumerNode : DataInf :=
  { pdata := some (List.replicate 1024 0), dataLen := 0, recvFd := 0, sendTo := .other 0 }

/-- Where `data_process` is. `m` is what the pop of this iteration took from the
queue, `none` if it found it empty; `calls` are the calls of `ready_send_data`
the handlers still have to make. -/
inductive ProcessPc where
  | waiting
  | popped (m : Option DataInf)
  | parsing (m : Option DataInf)
  | handling (calls : List SendCall)

/-- Where `send_out_handler` is. `m` is what the pop of this iteration took. -/
inductive SenderPc where
  | waiting
  | toPop
  | toSend (m : Option DataInf)
  | toClear

structure State (R P : Type) where
  recv : Channel R
  process : ProcessPc
  processNode : DataInf
  send : Channel (Option P)
  sender : SenderPc
  sendNode : DataInf

/-- What an observer sees. The producers of the send queue are the thread of
`data_process` (`none`) and the threads of `P`. -/
inductive Event (R P : Type) where
  | recv (e : MailboxEvent DataInf R)
  | send (e : MailboxEvent DataInf (Option P))
  | parse (m : Option DataInf) (calls : List SendCall)
  | refused (c : SendCall)
  | parsed
  | sendToDueros (m : Option DataInf) (bytes : List UInt8)
  | write (m : Option DataInf) (bytes : List UInt8) (ret : Int)
  | dropped (m : Option DataInf)
  | clear

variable {R E : Type} [DecidableEq R]

inductive Step (cfg : Config E) : State R P → Event R P → State R P → Prop
  -- uart_connect_handler, pipe_connect_handler
  | receive {s recv'} (r : R) (fd : Int) (data : List UInt8) : data ≠ [] →
      ChannelStep s.recv (.insert r (receivedMessage fd data)) recv' →
      Step cfg s (.recv (.insert r (receivedMessage fd data))) { s with recv := recv' }
  | receiveSignal {s recv'} (r : R) : ChannelStep s.recv (.signal r) recv' →
      Step cfg s (.recv (.signal r)) { s with recv := recv' }
  -- data_process
  | processWait {s recv' e} : s.process = .waiting → ofWait e → ChannelStep s.recv e recv' →
      Step cfg s (.recv e) { s with recv := recv' }
  | processPop {s buf node' list'} : s.process = .waiting → s.recv.wait = .passed →
      memset s.processNode.pdata 1024 = some buf →
      s.recv.list.Popped { s.processNode with pdata := some buf } node' list' →
      Step cfg s (.recv (.pop s.recv.list.contents.head?)) { s with
        recv := { s.recv with list := list' }
        processNode := node'
        process := .popped s.recv.list.contents.head? }
  | processUnlock {s recv' m} : s.process = .popped m → ChannelStep s.recv .unlock recv' →
      Step cfg s (.recv .unlock) { s with recv := recv', process := .parsing m }
  | parse {s m} (env : E) : s.process = .parsing m →
      Step cfg s (.parse m (dataParse cfg env s.processNode)) { s with
        process := .handling (dataParse cfg env s.processNode) }
  | reply {s send' c calls d} : s.process = .handling (c :: calls) → c.message = some d →
      ChannelStep s.send (.insert none d) send' →
      Step cfg s (.send (.insert none d)) { s with send := send', process := .handling calls }
  | replySignal {s send'} : ChannelStep s.send (.signal none) send' →
      Step cfg s (.send (.signal none)) { s with send := send' }
  | replyRefused {s c calls} : s.process = .handling (c :: calls) → c.message = none →
      s.send.producer none = .idle →
      Step cfg s (.refused c) { s with process := .handling calls }
  | parsed {s} : s.process = .handling [] → s.send.producer none = .idle →
      Step cfg s .parsed { s with process := .waiting }
  -- ready_send_data, called by any other thread
  | readySend {s send' d} (p : P) (c : SendCall) : c.message = some d →
      ChannelStep s.send (.insert (some p) d) send' →
      Step cfg s (.send (.insert (some p) d)) { s with send := send' }
  | readySendSignal {s send'} (p : P) : ChannelStep s.send (.signal (some p)) send' →
      Step cfg s (.send (.signal (some p))) { s with send := send' }
  -- send_out_handler
  | senderWait {s send' e} : s.sender = .waiting → ofWait e → ChannelStep s.send e send' →
      Step cfg s (.send e) { s with send := send' }
  | senderUnlock {s send'} : s.sender = .waiting → ChannelStep s.send .unlock send' →
      Step cfg s (.send .unlock) { s with send := send', sender := .toPop }
  | senderPop {s node' list'} : s.sender = .toPop →
      s.send.list.Popped s.sendNode node' list' →
      Step cfg s (.send (.pop s.send.list.contents.head?)) { s with
        send := { s.send with list := list' }
        sendNode := node'
        sender := .toSend s.send.list.contents.head? }
  | sendDuer {s m} : s.sender = .toSend m → s.sendNode.sendTo = .DUER →
      Step cfg s (.sendToDueros m s.sendNode.bytes) { s with sender := .toClear }
  | sendUart {s m} (ret : Int) : s.sender = .toSend m → s.sendNode.sendTo = .UART →
      ret = -1 ∨ 0 ≤ ret ∧ ret ≤ s.sendNode.dataLen →
      Step cfg s (.write m s.sendNode.bytes ret) { s with sender := .toClear }
  | sendOther {s m} : s.sender = .toSend m → s.sendNode.sendTo ≠ .DUER →
      s.sendNode.sendTo ≠ .UART → Step cfg s (.dropped m) { s with sender := .toClear }
  -- the clean-up leaves send_to as it is
  | clear {s buf} : s.sender = .toClear → memset s.sendNode.pdata 1024 = some buf →
      Step cfg s .clear { s with
        sendNode := { s.sendNode with pdata := some buf, dataLen := 0, recvFd := -1 }
        sender := .waiting }

/-- The message side of the daemon. -/
def messageSystem (R P : Type) [DecidableEq R] [DecidableEq P] (cfg : Config E) :
    System (State R P) (Event R P) where
  init s := s.recv.Initial ∧ s.process = .waiting ∧ s.processNode = consumerNode ∧
    s.send.Initial ∧ s.sender = .waiting ∧ s.sendNode = consumerNode
  step := Step cfg

/-! ## A start -/

/-- Both queues new, both consumers at the top of their loops. -/
def start : State Unit Unit where
  recv := { list := .new, wait := .unlocked, producer := fun _ => .idle }
  process := .waiting
  processNode := consumerNode
  send := { list := .new, wait := .unlocked, producer := fun _ => .idle }
  sender := .waiting
  sendNode := consumerNode

theorem start_initial (cfg : Config E) : (messageSystem Unit Unit cfg).init start :=
  ⟨⟨MessageList.new_initial, rfl, rfl⟩, rfl, rfl, ⟨MessageList.new_initial, rfl, rfl⟩, rfl, rfl⟩

theorem start_run (cfg : Config E) : (messageSystem Unit Unit cfg).Run [] start :=
  .init (start_initial cfg)

/-- Two descriptors and empty tables. -/
def noHandlers : Config Unit := { uartfd := 3, pipefd := 4, uartHandle := [], pipeHandle := [] }

/-! ## The queues as mailboxes -/

/-- What the list of a channel holds, and who is where. -/
def Channel.mailbox (c : Channel P) : Mailbox DataInf P :=
  { queue := c.list.contents, wait := c.wait, producer := c.producer }

theorem ChannelStep.mailbox {c c' : Channel P} {e : MailboxEvent DataInf P}
    (h : ChannelStep c e c') : MailboxStep c.mailbox e c'.mailbox := by
  cases h with
  | @insert list' id p d hp hins =>
    unfold Channel.mailbox
    rw [hins.contents]
    exact .insert p d hp
  | signal p hp => exact .signal p hp
  | lock hw => exact .lock hw
  | testEmpty hw hempty => exact .testEmpty hw (MessageList.empty_ne_zero_iff.mp hempty)
  | testNonempty hw hempty => exact .testNonempty hw (MessageList.empty_eq_zero_iff.mp hempty)
  | sleep hw => exact .sleep hw
  | spurious hw => exact .spurious hw
  | relock hw => exact .relock hw
  | unlock hw => exact .unlock hw
  | @pop dst dst' list' hpop =>
    unfold Channel.mailbox
    rw [hpop.contents]
    exact .pop

def Event.recv? : Event R P → Option (MailboxEvent DataInf R)
  | .recv e => some e
  | _ => none

def Event.send? : Event R P → Option (MailboxEvent DataInf (Option P))
  | .send e => some e
  | _ => none

end Uartd.Message
