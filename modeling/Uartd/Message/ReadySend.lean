import Uartd.LinkList.Alloc
import Uartd.LinkList.Queue
import Uartd.Message.Protocol

/-!
# Uartd — ready_send_data as a whole (uart_start.c)

`readySendData` ends before the insert; `readySendDataInsert` goes on to the end
of the call. A refused call changes nothing, and one that finds memory appends
its message. In between there is no third way out: `ready_send_data` does not
test what `singlelinklist_init_node` returns, and without memory it dereferences
NULL (`readySendData_null`), although the clean-up below it is complete
(`initNodeBlocks_failed`).
-/

namespace Uartd.Message

open Uartd.LinkList

/-- `ready_send_data` on the list with the header `head`: the result, the heap
and the header. -/
def readySendDataInsert (heap : Heap) (head : SingleLinklistHead) (alloc : NodeAlloc)
    (c : SendCall) : Option (Int × Heap × Option SingleLinklistHead) := do
  let (ret, node) ← readySendData heap alloc c
  match node with
  | none => pure (ret, heap, some head)
  | some (heap, id) => do
    let (heap, head) ← singlelinklistInsertNode heap (some head) (some id)
    pure (ret, heap, head)

/-- What a call passes is a block at least as long as it says. -/
def SendCall.Readable (c : SendCall) : Prop := ∀ data, c.data = some data → c.len ≤ data.length

variable {l : MessageList} {alloc : NodeAlloc} {c : SendCall}

/-- A refused call returns -1. -/
theorem readySendDataInsert_refused (h : c.message = none) :
    readySendDataInsert l.heap l.head alloc c = some (-1, l.heap, some l.head) := by
  rw [readySendDataInsert, readySendData_refused h]
  rfl

/-- A call that finds memory returns 0, and its message is the last entry. -/
theorem readySendDataInsert_queued {d : DataInf} (h : c.message = some d) (hread : c.Readable)
    (halloc : alloc.Succeeds) (hfresh : alloc.Fresh l.heap) :
    ∃ id heap' head', readySendDataInsert l.heap l.head alloc c = some (0, heap', some head') ∧
      Rep heap' head' (l.queue ++ [(id, d)]) := by
  obtain ⟨hnode, hdata, hpdata⟩ := halloc
  obtain ⟨id, hid⟩ := Option.ne_none_iff_exists'.mp hnode
  have hsome : alloc = ⟨some id, true, true⟩ := by
    show (⟨alloc.node, alloc.data, alloc.pdata⟩ : NodeAlloc) = _
    rw [hid, hdata, hpdata]
  obtain ⟨-, data, hcdata, -⟩ := SendCall.message_eq_some h
  obtain ⟨heap', head', hinsert, hrep, -⟩ := insert_rep l.rep ⟨none, some d⟩ (hfresh id hid) rfl
    (SendCall.message_wf h hread)
  refine ⟨id, heap', head', ?_, hrep⟩
  rw [readySendDataInsert, hsome, readySendData_message h hcdata (hread data hcdata),
    Option.bind_eq_bind, Option.bind_some]
  show (singlelinklistInsertNode _ (some l.head) (some id)).bind _ = _
  rw [hinsert]
  rfl

/-- A call that is not refused and finds no memory dereferences NULL. -/
theorem readySendData_null {heap : Heap} {d : DataInf} (h : c.message = some d)
    (halloc : ¬ alloc.Succeeds) (hfresh : alloc.Fresh heap) :
    readySendData heap alloc c = none := by
  obtain ⟨hpos, data, hdata, -⟩ := SendCall.message_eq_some h
  have hrefuse : ¬ (c.len ≤ 0 ∨ c.data = none) := by
    rw [hdata]
    simp only [reduceCtorEq, or_false]
    omega
  rw [readySendData, if_neg hrefuse, initNode_failed halloc hfresh]
  rfl

theorem message_eq_none_iff : c.message = none ↔ c.len ≤ 0 ∨ c.data = none := by
  unfold SendCall.message
  cases c.data with
  | none => simp
  | some data => simp

/-! ## All or nothing -/

/-- A call either returns 0 and the queue is the old one with one entry more,
which has the destination, the length and the bytes of the call, or it returns
-1 and nothing has changed; nothing that is not allocated is dereferenced. -/
def AllOrNothing (l : MessageList) (alloc : NodeAlloc) (c : SendCall) : Prop :=
  ∃ ret heap' head', readySendDataInsert l.heap l.head alloc c = some (ret, heap', some head') ∧
    ((ret = 0 ∧ ∃ id d data, Rep heap' head' (l.queue ++ [(id, d)]) ∧ c.data = some data ∧
        d.sendTo = c.sendTo ∧ d.dataLen = c.len ∧ d.bytes = data.take c.len.toNat) ∨
      (ret = -1 ∧ heap' = l.heap ∧ head' = l.head))

/-- The call is refused, or its three allocations succeed. -/
theorem allOrNothing_of_memory (hread : c.Readable) (hfresh : alloc.Fresh l.heap)
    (h : c.len ≤ 0 ∨ c.data = none ∨ alloc.Succeeds) : AllOrNothing l alloc c := by
  cases hmessage : c.message with
  | none =>
    exact ⟨-1, l.heap, l.head, readySendDataInsert_refused hmessage, .inr ⟨rfl, rfl, rfl⟩⟩
  | some d =>
    have hnot : ¬ (c.len ≤ 0 ∨ c.data = none) := by
      rw [← message_eq_none_iff, hmessage]
      simp
    have halloc : alloc.Succeeds := by tauto
    obtain ⟨id, heap', head', hrun, hrep⟩ := readySendDataInsert_queued hmessage hread halloc hfresh
    obtain ⟨hpos, data, hdata, hd⟩ := SendCall.message_eq_some hmessage
    refine ⟨0, heap', head', hrun, .inl ⟨rfl, id, d, data, hrep, hdata, by rw [hd], by rw [hd], ?_⟩⟩
    rw [hd]
    exact List.take_take.trans (by rw [Nat.min_self])

theorem not_allOrNothing (hlen : 0 < c.len) (hdata : c.data ≠ none) (halloc : ¬ alloc.Succeeds)
    (hfresh : alloc.Fresh l.heap) : ¬ AllOrNothing l alloc c := by
  rintro ⟨ret, heap', head', hrun, -⟩
  cases hmessage : c.message with
  | none =>
    rcases message_eq_none_iff.mp hmessage with h | h
    · omega
    · exact hdata h
  | some d =>
    rw [readySendDataInsert, readySendData_null hmessage halloc hfresh] at hrun
    simp at hrun

/-- **ready_send_data is all or nothing if and only if it is refused by its
checks or finds memory for all three blocks**, on every send queue, for every
destination, data and length. The clean-up of `singlelinklist_init_node` leaves
no block allocated in either case. -/
theorem ready_send_data_all_or_nothing_iff (l : MessageList) (alloc : BlockAlloc) (c : SendCall)
    (hread : c.Readable) (hfresh : alloc.outcome.Fresh l.heap) :
    (AllOrNothing l alloc.outcome c ↔ c.len ≤ 0 ∨ c.data = none ∨ alloc.outcome.Succeeds) ∧
      ∀ blocks, alloc.Fresh blocks → ¬ alloc.outcome.Succeeds →
        initNodeBlocks blocks alloc c.len = some (blocks, none) := by
  refine ⟨⟨fun hall => ?_, allOrNothing_of_memory hread hfresh⟩,
    fun blocks hblocks h => initNodeBlocks_failed hblocks h⟩
  by_contra h
  push Not at h
  obtain ⟨hlen, hdata, halloc⟩ := h
  exact not_allOrNothing (by omega) hdata halloc hfresh hall

/-- The theorem at work: one byte for the UART, with memory. -/
theorem ready_send_data_all_or_nothing_iff_one :
    AllOrNothing .new ⟨some 1, true, true⟩ ⟨.UART, some [65], 1⟩ :=
  (ready_send_data_all_or_nothing_iff .new ⟨some 1, some 2, some 3⟩ ⟨.UART, some [65], 1⟩
    (by rintro data ⟨⟩; decide) (by rintro id ⟨⟩; rfl)).1.mpr
      (.inr (.inr ⟨by simp [BlockAlloc.outcome], rfl, rfl⟩))

/-- The first allocation of a call for one byte fails. -/
theorem ready_send_data_no_memory :
    ¬ AllOrNothing .new ⟨none, false, false⟩ ⟨.UART, some [65], 1⟩ :=
  not_allOrNothing (by decide) (by simp) (by simp [NodeAlloc.Succeeds]) (by rintro id ⟨⟩)

end Uartd.Message
