import Uartd.Lib.Segment

/-!
# Uartd — the singly linked message list (linklist.c)

The message queues of the daemon. A list is a header (`SingleLinklistHead`)
and a sentinel node whose `data` is NULL; the entries hang behind the sentinel.
Nodes live in a heap, a partial map from node addresses: reading or writing an
address that is not allocated, a NULL pointer, or past the end of a block is a
fault, and a function that faults returns no result (`none`).

A node owns its `data_inf`, which owns its `pdata` block, so the three blocks
`singlelinklist_init_node` allocates are one cell of the heap. NULL is `none`
for every pointer the code tests for NULL. Each function body that runs under
`head->mutex` is one Lean function.

The calls of `err` are left out. The file neither declares nor defines it: it is
taken to print a message, to return, and to change nothing the functions use.

Here and in the other modules an `int` has 32 bits, a pointer and a `size_t` 64.
`linknode_count` is an `Int`: lists of 2^31 nodes, where the C counter would
overflow, are left out.
-/

namespace Uartd.LinkList

open Uartd.Lib

/-- The address of a node. -/
abbrev NodeId := ℕ

/-- `enum port`. `other` holds the values that are no enumerator, such as the
0 that `singlelinklist_init_node` stores. -/
inductive Port where
  | DUER
  | UART
  | other (v : ℕ)
  deriving DecidableEq, Repr

/-- `data_inf`; `pdata` is the block it points to. -/
structure DataInf where
  pdata   : Option (List UInt8)
  dataLen : Int
  recvFd  : Int
  sendTo  : Port
  deriving DecidableEq, Repr

/-- `single_linklist`, a node of a list. -/
structure SingleLinklist where
  next : Option NodeId
  data : Option DataInf
  deriving DecidableEq, Repr

/-- `single_linklist_head`; the three pointers are never NULL in it. -/
structure SingleLinklistHead where
  linklistHead  : NodeId
  linklistTail  : NodeId
  linknodeCount : Int
  deriving DecidableEq, Repr

abbrev Heap := NodeId → Option SingleLinklist

/-! ## Memory primitives -/

/-- `memcpy(dst, src, n)` with an `int` length: a negative length is a huge
`size_t`, so it faults like any copy that leaves one of the two blocks. -/
def memcpy (dst src : Option (List UInt8)) (n : Int) : Option (List UInt8) :=
  match dst, src with
  | some d, some s =>
    if 0 ≤ n ∧ n ≤ d.length ∧ n ≤ s.length then
      some (s.take n.toNat ++ d.drop n.toNat)
    else none
  | _, _ => none

/-- `calloc(1, n)` for an `int` size; `ok` is whether the allocator has the
memory. A negative size is a huge `size_t` and never available. -/
def calloc (n : Int) (ok : Bool) : Option (List UInt8) :=
  if 0 ≤ n ∧ ok then some (List.replicate n.toNat 0) else none

/-- What the three `calloc` calls of `singlelinklist_init_node` return. -/
structure NodeAlloc where
  node  : Option NodeId
  data  : Bool
  pdata : Bool

/-! ## The functions of linklist.c -/

/-- `is_singlelinklist_empty`. -/
def isSinglelinklistEmpty (head : SingleLinklistHead) : Int :=
  if head.linknodeCount = 0 then 1 else 0

/-- `singlelinklist_destory_node`: the node and what it owns leave the heap. -/
def singlelinklistDestoryNode (heap : Heap) (datanode : Option NodeId) : Option Heap :=
  match datanode with
  | none => some heap
  | some id => (heap id).map fun _ => Function.update heap id none

/-- `singlelinklist_init_node`. -/
def singlelinklistInitNode (heap : Heap) (alloc : NodeAlloc) (bufLen : Int) :
    Heap × Option NodeId :=
  match alloc.node with
  | none => (heap, none)
  | some id =>
    if alloc.data then
      match calloc bufLen alloc.pdata with
      | some buf =>
        (Function.update heap id (some
          { next := none
            data := some { pdata := some buf, dataLen := 0, recvFd := 0, sendTo := .other 0 } }),
          some id)
      -- fail: the data_inf and the node are freed again
      | none => (Function.update heap id none, none)
    else (Function.update heap id none, none)

/-- `singlelinklist_pop_node`. The destination is the caller's own node, on no
list; it is passed by value and returned. -/
def singlelinklistPopNode (heap : Heap) (head : Option SingleLinklistHead)
    (datanode : Option SingleLinklist) :
    Option (Heap × Option SingleLinklistHead × Option SingleLinklist) :=
  match head, datanode with
  | some hd, some node =>
    if hd.linknodeCount = 0 then some (heap, head, datanode)
    else
      match node.data with
      | none => some (heap, head, datanode)
      | some dst => do
        let sentinel ← heap hd.linklistHead
        let tmp ← sentinel.next
        let first ← heap tmp
        let src ← first.data
        let pdata ← memcpy dst.pdata src.pdata src.dataLen
        let data : DataInf :=
          { pdata := some pdata, dataLen := src.dataLen, recvFd := src.recvFd,
            sendTo := src.sendTo }
        -- head->linklist_head->next = head->linklist_head->next->next
        let heap := Function.update heap hd.linklistHead (some { sentinel with next := first.next })
        let hd := { hd with linknodeCount := hd.linknodeCount - 1 }
        let (heap, hd) ←
          if hd.linknodeCount = 0 then do
            let hd := { hd with linklistTail := hd.linklistHead }
            let tail ← heap hd.linklistTail
            pure (Function.update heap hd.linklistTail
              (some { tail with next := some hd.linklistHead }), hd)
          else pure (heap, hd)
        let heap ← singlelinklistDestoryNode heap (some tmp)
        pure (heap, some hd, some { node with data := some data })
  | _, _ => some (heap, head, datanode)

/-- `singlelinklist_insert_node`: the new last node points to itself. -/
def singlelinklistInsertNode (heap : Heap) (head : Option SingleLinklistHead)
    (datanode : Option NodeId) : Option (Heap × Option SingleLinklistHead) :=
  match head, datanode with
  | some hd, some id => do
    let tail ← heap hd.linklistTail
    let heap := Function.update heap hd.linklistTail (some { tail with next := some id })
    let hd := { hd with linklistTail := id }
    let node ← heap id
    let heap := Function.update heap id (some { node with next := some hd.linklistTail })
    pure (heap, some { hd with linknodeCount := hd.linknodeCount + 1 })
  | _, _ => some (heap, head)

/-- `init_singlelinklist`: `sentinel` and `header` are what the two `calloc`
calls return, `mutexInit` what `pthread_mutex_init` returns. -/
def initSinglelinklist (heap : Heap) (sentinel : Option NodeId) (header : Bool)
    (mutexInit : Int) : Heap × Option SingleLinklistHead :=
  match sentinel with
  | none => (heap, none)
  | some id =>
    let heap := Function.update heap id (some { next := none, data := none })
    if header then
      let hd : SingleLinklistHead :=
        { linklistHead := id, linklistTail := id, linknodeCount := 0 }
      let heap := Function.update heap id (some { next := some hd.linklistTail, data := none })
      if mutexInit ≠ 0 then (heap, none) else (heap, some hd)
    else (heap, none)

/-! ## Entries -/

/-- A `data_inf` whose length says how much of its block is used. -/
def DataInf.WF (d : DataInf) : Prop :=
  ∃ buf, d.pdata = some buf ∧ 0 ≤ d.dataLen ∧ d.dataLen ≤ buf.length

/-- The first `data_len` bytes of the block. -/
def DataInf.bytes (d : DataInf) : List UInt8 := (d.pdata.getD []).take d.dataLen.toNat

/-- What a destination `dst` holds after the entry `d` was popped into it. -/
def DataInf.deliver (d dst : DataInf) : DataInf :=
  { d with pdata := some (d.bytes ++ (dst.pdata.getD []).drop d.dataLen.toNat) }

/-- The block of `dst` has room for the entry `d`. -/
def DataInf.Fits (d dst : DataInf) : Prop :=
  ∃ buf, dst.pdata = some buf ∧ d.dataLen ≤ buf.length

theorem DataInf.WF.bytes_length {d : DataInf} (h : d.WF) : (d.bytes.length : Int) = d.dataLen := by
  obtain ⟨buf, hb, h0, hle⟩ := h
  simp only [DataInf.bytes, hb, Option.getD_some, List.length_take]
  omega

theorem DataInf.WF.deliver_bytes {d dst : DataInf} (h : d.WF) :
    (d.deliver dst).bytes = d.bytes := by
  have hlen : d.dataLen.toNat = d.bytes.length := by
    have := h.bytes_length
    omega
  show (d.bytes ++ _).take d.dataLen.toNat = d.bytes
  rw [hlen, List.take_left]

/-- A block keeps its size when an entry that fits is delivered into it. -/
theorem DataInf.WF.deliver_block {d dst : DataInf} (h : d.WF) {buf : List UInt8}
    (hbuf : dst.pdata = some buf) (hfit : d.Fits dst) :
    ∃ buf', (d.deliver dst).pdata = some buf' ∧ buf'.length = buf.length := by
  obtain ⟨buf₀, hbuf₀, hle⟩ := hfit
  obtain rfl : buf = buf₀ := Option.some.inj (hbuf.symm.trans hbuf₀)
  refine ⟨_, rfl, ?_⟩
  have hlen := h.bytes_length
  rw [hbuf, Option.getD_some, List.length_append, List.length_drop]
  omega

theorem DataInf.WF.memcpy_deliver {d dst : DataInf} (h : d.WF) (hfit : d.Fits dst) :
    memcpy dst.pdata d.pdata d.dataLen = (d.deliver dst).pdata := by
  obtain ⟨buf, hb, h0, hle⟩ := h
  obtain ⟨dbuf, hdb, hdle⟩ := hfit
  simp [memcpy, DataInf.deliver, DataInf.bytes, hb, hdb, h0, hle, hdle]

theorem DataInf.WF.memcpy_overrun {d dst : DataInf} (h : d.WF) (hfit : ¬ d.Fits dst) :
    memcpy dst.pdata d.pdata d.dataLen = none := by
  obtain ⟨buf, hb, h0, hle⟩ := h
  unfold memcpy
  rw [hb]
  cases hdb : dst.pdata with
  | none => rfl
  | some dbuf =>
    have hlt : ¬ d.dataLen ≤ dbuf.length := fun hle => hfit ⟨dbuf, hdb, hle⟩
    simp [hlt]

end Uartd.LinkList
