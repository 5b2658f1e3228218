import Mathlib.Data.List.Induction
import Uartd.LinkList.Alloc
import Uartd.LinkList.Queue

/-!
# Uartd — add_data_to_linklist (linklist.c)

`add_data_to_linklist` copies a message into a new node and links it. Of the
four fields of a message it copies three: `send_to` of the new node keeps the 0
of `singlelinklist_init_node`, which is no port.

* `addData_ok`, `addData_failed` — what a call leaves behind;
* `run_from_pending` — what a list holds after further inserts and pops, and so
  which pop takes an entry;
* `add_data_identity_iff` — the entry comes out as it was put in if and only if
  `send_to` was 0.
-/

namespace Uartd.LinkList

open Uartd.Lib

/-- `add_data_to_linklist`: the result, the heap and the header. -/
def addDataToLinklist (heap : Heap) (head : Option SingleLinklistHead) (alloc : NodeAlloc)
    (data : DataInf) : Option (Int × Heap × Option SingleLinklistHead) :=
  match singlelinklistInitNode heap alloc data.dataLen with
  | (heap, none) => some (-1, heap, head)
  | (heap, some id) => do
    let node ← heap id
    let d ← node.data
    let pdata ← memcpy d.pdata data.pdata data.dataLen
    let d := { d with recvFd := data.recvFd, dataLen := data.dataLen, pdata := some pdata }
    let heap := Function.update heap id (some { node with data := some d })
    let (heap, head) ← singlelinklistInsertNode heap head (some id)
    pure (0, heap, head)

/-- The entry `add_data_to_linklist` queues for a message. -/
def DataInf.added (d : DataInf) : DataInf :=
  { pdata := some d.bytes, dataLen := d.dataLen, recvFd := d.recvFd, sendTo := .other 0 }

theorem DataInf.WF.added_bytes {d : DataInf} (h : d.WF) : d.added.bytes = d.bytes := by
  have hlen := h.bytes_length
  show d.bytes.take d.dataLen.toNat = d.bytes
  rw [List.take_of_length_le (by omega)]

theorem DataInf.WF.added_wf {d : DataInf} (h : d.WF) : d.added.WF := by
  have hlen := h.bytes_length
  refine ⟨d.bytes, rfl, ?_, Int.le_of_eq hlen.symm⟩
  show 0 ≤ d.dataLen
  omega

/-- The copy into a new buffer of the message's own length. -/
theorem DataInf.WF.memcpy_new {d : DataInf} (h : d.WF) :
    memcpy (newData d.dataLen).pdata d.pdata d.dataLen = some d.bytes := by
  obtain ⟨buf, hbuf, h0, hle⟩ := h
  have hnew : d.dataLen ≤ (List.replicate d.dataLen.toNat (0 : UInt8)).length := by
    rw [List.length_replicate]
    omega
  have hdrop : (List.replicate d.dataLen.toNat (0 : UInt8)).drop d.dataLen.toNat = [] :=
    List.drop_eq_nil_of_le (Nat.le_of_eq List.length_replicate)
  simp only [memcpy, newData, hbuf, h0, hnew, hle, and_self, if_true, hdrop, List.append_nil,
    DataInf.bytes, Option.getD_some]

variable {heap : Heap} {head : SingleLinklistHead} {q : List Entry} {alloc : NodeAlloc}
  {d : DataInf}

/-- A call that finds memory appends the message without its destination. -/
theorem addData_ok (h : Rep heap head q) (halloc : alloc.Succeeds) (hfresh : alloc.Fresh heap)
    (hwf : d.WF) :
    ∃ id heap' head', addDataToLinklist heap (some head) alloc d = some (0, heap', some head') ∧
      Rep heap' head' (q ++ [(id, d.added)]) := by
  have h0 : 0 ≤ d.dataLen := by
    obtain ⟨-, -, h0, -⟩ := hwf
    exact h0
  obtain ⟨id, hid, hinit⟩ := initNode_ok heap halloc h0
  obtain ⟨heap', head', hinsert, hrep, -⟩ :=
    insert_rep h ⟨none, some d.added⟩ (hfresh id hid) rfl hwf.added_wf
  refine ⟨id, heap', head', ?_, hrep⟩
  simp only [addDataToLinklist, hinit, Function.update_self, Option.bind_eq_bind, Option.bind_some,
    hwf.memcpy_new, Function.update_idem]
  show (singlelinklistInsertNode (Function.update heap id (some ⟨none, some d.added⟩)) (some head)
    (some id)).bind _ = _
  rw [hinsert]
  rfl

/-- A call that does not changes nothing. -/
theorem addData_failed (halloc : ¬ alloc.Succeeds) (hfresh : alloc.Fresh heap) :
    addDataToLinklist heap (some head) alloc d = some (-1, heap, some head) := by
  rw [addDataToLinklist, initNode_failed halloc hfresh]

-- ---------------------------------------------------------------------------
-- Which pop takes an entry
-- ---------------------------------------------------------------------------

def Op.isPop : Op → Bool
  | .pop _ => true
  | .insert _ _ _ => false

def Op.inserted? : Op → Option Entry
  | .insert id _ d => some (id, d)
  | .pop _ => none

/-- How many pops there are among some operations. -/
def pops (ops : List Op) : ℕ := ops.countP Op.isPop

/-- As long as there are not more pops than entries before it, the rest of a
queue stays, and what is inserted comes behind it. -/
theorem foldl_apply_append {q₀ : List Entry} (q : List Entry) {ops : List Op}
    (h : pops ops ≤ q₀.length) :
    ops.foldl Op.apply (q₀ ++ q) = q₀.drop (pops ops) ++ (q ++ ops.filterMap Op.inserted?) := by
  induction ops generalizing q₀ q with
  | nil => simp [pops]
  | cons op ops ih =>
    cases op with
    | insert id next d =>
      have hpops : pops (.insert id next d :: ops) = pops ops :=
        List.countP_cons_of_neg (by simp [Op.isPop])
      rw [hpops] at h ⊢
      rw [List.foldl_cons, Op.apply, List.append_assoc, ih (q ++ [(id, d)]) h]
      simp [Op.inserted?]
    | pop datanode =>
      have hpops : pops (.pop datanode :: ops) = pops ops + 1 := List.countP_cons_of_pos rfl
      rw [hpops] at h ⊢
      obtain ⟨e, q₀, rfl⟩ := List.exists_cons_of_length_pos (Nat.lt_of_lt_of_le (Nat.succ_pos _) h)
      have hle : pops ops ≤ q₀.length := Nat.le_of_succ_le_succ h
      rw [List.foldl_cons, List.cons_append, Op.apply, List.tail_cons, ih q hle,
        List.drop_succ_cons,
        List.filterMap_cons_none rfl]

/-- What a list represents after further operations. -/
theorem run_from_pending {s t : ListState} (h : Rep s.heap s.head q) {ops : List Op}
    (hrun : (listSystem.startAt s).Run ops t) : Rep t.heap t.head (ops.foldl Op.apply q) := by
  refine System.Run.invariant (S := listSystem.startAt s)
    (I := fun ops t => Rep t.heap t.head (ops.foldl Op.apply q)) ?_ ?_ hrun
  · rintro t rfl
    exact h
  · intro ops t op t' _ hrep hst
    rw [List.foldl_append]
    exact rep_step hrep hst

/-- Any entries can be popped one after another. -/
theorem exists_pops {q₀ : List Entry} {s : ListState} (h : Rep s.heap s.head (q₀ ++ q)) :
    ∃ ops t, (listSystem.startAt s).Run ops t ∧ pops ops = q₀.length ∧
      Rep t.heap t.head q := by
  induction q₀ using List.reverseRecOn generalizing q with
  | nil => exact ⟨[], s, .init rfl, rfl, h⟩
  | append_singleton q₀ e ih =>
    rw [List.append_assoc] at h
    obtain ⟨ops, t, hrun, hpops, hrep⟩ := ih h
    have hfit : e.2.Fits (newData e.2.dataLen) :=
      ⟨_, rfl, by rw [List.length_replicate]; omega⟩
    obtain ⟨heap', head', hpop, hrep', -⟩ :=
      pop_rep hrep ⟨none, some (newData e.2.dataLen)⟩ rfl hfit
    have hstep : (listSystem.startAt s).step t (.pop ⟨none, some (newData e.2.dataLen)⟩)
        ⟨heap', head'⟩ :=
      ⟨firstFits_cons hrep rfl hfit, _, hpop⟩
    refine ⟨ops ++ [.pop ⟨none, some (newData e.2.dataLen)⟩], ⟨heap', head'⟩, .step hrun hstep,
      ?_, hrep'⟩
    rw [pops, List.countP_append, List.length_append, ← hpops]
    rfl

-- ---------------------------------------------------------------------------
-- Queued and popped again
-- ---------------------------------------------------------------------------

/-- After any operations among which there are `k` pops, the next pop into a
large enough buffer yields `d` in all four fields. -/
def YieldedAfter (s : ListState) (k : ℕ) (d : DataInf) : Prop :=
  ∀ ops t, (listSystem.startAt s).Run ops t → pops ops = k →
    ∀ datanode dst, datanode.data = some dst → d.Fits dst →
      ∃ heap' head' datanode' d', singlelinklistPopNode t.heap (some t.head) (some datanode) =
          some (heap', some head', some datanode') ∧ datanode'.data = some d' ∧
        d'.dataLen = d.dataLen ∧ d'.bytes = d.bytes ∧ d'.recvFd = d.recvFd ∧ d'.sendTo = d.sendTo

/-- A call either returns 0 and the pop that takes the entry yields the message,
or it returns -1 and the list is unchanged; `k` entries are queued before. -/
def AddDataIdentity (s : ListState) (k : ℕ) (alloc : NodeAlloc) (d : DataInf) : Prop :=
  ∃ ret heap' head', addDataToLinklist s.heap (some s.head) alloc d =
      some (ret, heap', some head') ∧
    (ret = 0 ∧ YieldedAfter ⟨heap', head'⟩ k d ∨ ret = -1 ∧ heap' = s.heap ∧ head' = s.head)

/-- The pop behind the older entries yields the message, its destination apart. -/
theorem yielded_added {s : ListState} {id : NodeId}
    (hrep : Rep s.heap s.head (q ++ [(id, d.added)])) {ops : List Op} {t : ListState}
    (hrun : (listSystem.startAt s).Run ops t)
    (hpops : pops ops = q.length) {datanode : SingleLinklist} {dst : DataInf}
    (hdst : datanode.data = some dst) (hfit : d.Fits dst) :
    ∃ heap' head', singlelinklistPopNode t.heap (some t.head) (some datanode) =
      some (heap', some head', some { datanode with data := some (d.added.deliver dst) }) := by
  have hpending := run_from_pending hrep hrun
  rw [foldl_apply_append _ (Nat.le_of_eq hpops), hpops, List.drop_length, List.nil_append,
    List.singleton_append] at hpending
  have hfit' : d.added.Fits dst := hfit
  obtain ⟨heap', head', hpop, -⟩ := pop_rep hpending datanode hdst hfit'
  exact ⟨heap', head', hpop⟩

theorem yieldedAfter_iff {s : ListState} {id : NodeId}
    (hrep : Rep s.heap s.head (q ++ [(id, d.added)])) (hwf : d.WF) :
    YieldedAfter s q.length d ↔ d.sendTo = .other 0 := by
  constructor
  · intro hyield
    obtain ⟨ops, t, hrun, hpops, -⟩ := exists_pops hrep
    have hfit : d.Fits (newData d.dataLen) := ⟨_, rfl, by rw [List.length_replicate]; omega⟩
    obtain ⟨heap', head', datanode', d', hpop, hd', -, -, -, hto⟩ :=
      hyield ops t hrun hpops ⟨none, some (newData d.dataLen)⟩ _ rfl hfit
    obtain ⟨heap₁, head₁, hpop₁⟩ :=
      yielded_added hrep hrun hpops (show (⟨none, some _⟩ : SingleLinklist).data = _ from rfl) hfit
    rw [hpop] at hpop₁
    simp only [Option.some.injEq, Prod.mk.injEq] at hpop₁
    obtain ⟨-, -, rfl⟩ := hpop₁
    rw [← Option.some.inj hd'] at hto
    exact hto.symm
  · intro hto ops t hrun hpops datanode dst hdst hfit
    obtain ⟨heap', head', hpop⟩ := yielded_added hrep hrun hpops hdst hfit
    refine ⟨heap', head', _, _, hpop, rfl, rfl, ?_, rfl, hto.symm⟩
    rw [hwf.added_wf.deliver_bytes, hwf.added_bytes]

theorem addDataIdentity_iff {s : ListState} (hrep : Rep s.heap s.head q)
    (hfresh : alloc.Fresh s.heap) (hwf : d.WF) :
    AddDataIdentity s q.length alloc d ↔ d.sendTo = .other 0 ∨ ¬ alloc.Succeeds := by
  by_cases halloc : alloc.Succeeds
  · obtain ⟨id, heap', head', hrun, hrep'⟩ := addData_ok hrep halloc hfresh hwf
    have hyield := yieldedAfter_iff (s := ⟨heap', head'⟩) hrep' hwf
    rw [← hyield]
    constructor
    · rintro ⟨ret, heap₁, head₁, hrun₁, hret⟩
      rw [hrun] at hrun₁
      simp only [Option.some.injEq, Prod.mk.injEq] at hrun₁
      obtain ⟨rfl, rfl, rfl⟩ := hrun₁
      rcases hret with ⟨-, hy⟩ | ⟨hret, -⟩
      · exact .inl hy
      · simp at hret
    · rintro (hy | hfail)
      · exact ⟨0, heap', head', hrun, .inl ⟨rfl, hy⟩⟩
      · exact absurd halloc hfail
  · refine iff_of_true ?_ (.inr halloc)
    exact ⟨-1, s.heap, s.head, addData_failed halloc hfresh, .inr ⟨rfl, rfl, rfl⟩⟩

/-- **add_data_to_linklist and pop are the identity on a message if and only if
its `send_to` is 0** (or the node cannot be allocated), on every list a run
reaches. -/
theorem add_data_identity_iff {ops : List Op} {s : ListState} (h : listSystem.Run ops s)
    (hfresh : alloc.Fresh s.heap) (hwf : d.WF) :
    AddDataIdentity s (pending ops).length alloc d ↔ d.sendTo = .other 0 ∨ ¬ alloc.Succeeds :=
  addDataIdentity_iff (run_rep h) hfresh hwf

/-- The theorem at work: a message without a destination, as the receive
handlers queue them. -/
theorem add_data_identity_iff_received :
    AddDataIdentity ⟨MessageList.new.heap, MessageList.new.head⟩ 0 ⟨some 1, true, true⟩
      ⟨some [7, 8], 2, 5, .other 0⟩ := by
  have hrun : listSystem.Run [] ⟨MessageList.new.heap, MessageList.new.head⟩ :=
    .init MessageList.new_initial
  exact (add_data_identity_iff hrun (by rintro id ⟨⟩; rfl)
    ⟨[7, 8], rfl, by decide, by decide⟩).mpr (.inl rfl)

/-- A message for the UART, queued in a new list, comes out with `send_to` 0. -/
theorem add_data_drops_port :
    ∃ s, listSystem.Run [] s ∧
      ¬ AddDataIdentity s (pending []).length ⟨some 1, true, true⟩ ⟨some [7, 8], 2, 5, .UART⟩ := by
  refine ⟨⟨MessageList.new.heap, MessageList.new.head⟩, .init MessageList.new_initial, ?_⟩
  rw [pending, List.foldl_nil, addDataIdentity_iff MessageList.new.rep (by rintro id ⟨⟩; rfl)
    ⟨[7, 8], rfl, by decide, by decide⟩]
  simp [NodeAlloc.Succeeds]

end Uartd.LinkList
