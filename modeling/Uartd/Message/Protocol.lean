import Uartd.LinkList.Basic

/-!
# Uartd — messages and what is done with them (uart_start.c)

`ready_send_data`, which fills a node with a message for the sender, and
`data_parse`, which looks a received message up in the table of its source and
calls the handlers of all matching entries.

The tables are a parameter: an entry is a keyword and a handler, and what a
handler does is what it queues, a list of calls of `ready_send_data`. A handler
may read more than the message (the clock); `E` is the type of what it reads.
The two counters `uart_handle_analy` and `pipe_handle_analy` have no effect on it;
they are in `Uartd.Message.Dispatch`.
-/

namespace Uartd.Message

open Uartd.LinkList

/-- The arguments of a call of `ready_send_data`. -/
structure SendCall where
  sendTo : Port
  data   : Option (List UInt8)
  len    : Int
  deriving DecidableEq, Repr

/-- `ready_send_data` up to the insert: the result -1, or 0 with the node that
is inserted next. A node that could not be allocated is dereferenced. -/
def readySendData (heap : Heap) (alloc : NodeAlloc) (c : SendCall) :
    Option (Int × Option (Heap × NodeId)) :=
  if c.len ≤ 0 ∨ c.data = none then some (-1, none)
  else do
    let (heap, node) := singlelinklistInitNode heap alloc c.len
    let id ← node
    let datanode ← heap id
    let d ← datanode.data
    let pdata ← memcpy d.pdata c.data c.len
    let d := { d with pdata := some pdata, dataLen := c.len, sendTo := c.sendTo }
    pure (0, some (Function.update heap id (some { datanode with data := some d }), id))

/-- The message a call of `ready_send_data` queues, if it is not refused. -/
def SendCall.message (c : SendCall) : Option DataInf :=
  match c.data with
  | none => none
  | some data =>
    if c.len ≤ 0 then none
    else some { pdata := some (data.take c.len.toNat), dataLen := c.len, recvFd := 0,
                sendTo := c.sendTo }

/-- The node the receive handlers insert for `data` read from `fd`. -/
def receivedMessage (fd : Int) (data : List UInt8) : DataInf :=
  { pdata := some data, dataLen := data.length, recvFd := fd, sendTo := .other 0 }

/-! ## data_parse -/

/-- `BUF_INF`. -/
structure BufInf where
  buf : List UInt8
  len : Int

/-- `protocol_handle`. -/
structure ProtocolHandle (E : Type) where
  protocol : List UInt8
  handler  : E → BufInf → List SendCall

/-- The descriptors of the two sources and the table of each. -/
structure Config (E : Type) where
  uartfd : Int
  pipefd : Int
  uartHandle : List (ProtocolHandle E)
  pipeHandle : List (ProtocolHandle E)

variable {E : Type}

/-- The entries whose keyword `strncmp` finds at the start of `pdata`. -/
def matching (table : List (ProtocolHandle E)) (pdata : List UInt8) : List (ProtocolHandle E) :=
  table.filter fun entry => entry.protocol.isPrefixOf pdata

/-- `data_parse`: what the handlers it calls queue, in order. -/
def dataParse (cfg : Config E) (env : E) (src : DataInf) : List SendCall :=
  let pdata := src.pdata.getD []
  let table :=
    if src.recvFd = cfg.uartfd then cfg.uartHandle
    else if src.recvFd = cfg.pipefd then cfg.pipeHandle
    else []
  (matching table pdata).flatMap fun entry => entry.handler env { buf := pdata, len := src.dataLen }

/-! ## What ready_send_data queues -/

theorem SendCall.message_eq_some {c : SendCall} {d : DataInf} (h : c.message = some d) :
    0 < c.len ∧ ∃ data, c.data = some data ∧
      d = ⟨some (data.take c.len.toNat), c.len, 0, c.sendTo⟩ := by
  unfold SendCall.message at h
  split at h
  · simp at h
  · rename_i data hdata
    split at h
    · simp at h
    · exact ⟨by omega, data, hdata, (Option.some.inj h).symm⟩

/-- A refused call queues nothing. -/
theorem readySendData_refused {heap : Heap} {alloc : NodeAlloc} {c : SendCall}
    (h : c.message = none) : readySendData heap alloc c = some (-1, none) := by
  unfold SendCall.message at h
  unfold readySendData
  split at h
  · rename_i hdata
    rw [if_pos (.inr hdata)]
  · split at h
    · rename_i hlen
      rw [if_pos (.inl hlen)]
    · simp at h

/-- A call that is not refused and finds memory fills a fresh node with its message. -/
theorem readySendData_message {heap : Heap} {id : NodeId} {c : SendCall} {d : DataInf}
    {data : List UInt8} (h : c.message = some d) (hdata : c.data = some data)
    (hlen : c.len ≤ data.length) :
    readySendData heap ⟨some id, true, true⟩ c =
      some (0, some (Function.update heap id (some ⟨none, some d⟩), id)) := by
  obtain ⟨hpos, data', hdata', rfl⟩ := SendCall.message_eq_some h
  obtain rfl : data = data' := Option.some.inj (hdata.symm.trans hdata')
  have hrefuse : ¬ (c.len ≤ 0 ∨ c.data = none) := by
    rw [hdata]
    simp only [reduceCtorEq, or_false]
    omega
  have hnonneg : 0 ≤ c.len := by omega
  have hcopy : memcpy (some (List.replicate c.len.toNat 0)) c.data c.len =
      some (data.take c.len.toNat) := by
    rw [hdata]
    show (if 0 ≤ c.len ∧ c.len ≤ (List.replicate c.len.toNat (0 : UInt8)).length ∧
      c.len ≤ data.length then _ else _) = _
    rw [if_pos ⟨hnonneg, by rw [List.length_replicate]; omega, hlen⟩,
      List.drop_eq_nil_of_le (Nat.le_of_eq List.length_replicate), List.append_nil]
  unfold readySendData
  rw [if_neg hrefuse]
  simp [singlelinklistInitNode, calloc, hnonneg, hcopy]

theorem SendCall.message_wf {c : SendCall} {d : DataInf} (h : c.message = some d)
    (hlen : ∀ data, c.data = some data → c.len ≤ data.length) : d.WF := by
  obtain ⟨hpos, data, hdata, rfl⟩ := SendCall.message_eq_some h
  have := hlen data hdata
  refine ⟨_, rfl, Int.le_of_lt hpos, ?_⟩
  show c.len ≤ (data.take c.len.toNat).length
  rw [List.length_take]
  omega

end Uartd.Message
