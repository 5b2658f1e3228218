import Uartd.LinkList.Refinement

/-!
# Uartd — runs of the message list

Sequential runs of one list: it is created by `init_singlelinklist` and then
used by any number of inserts of fresh nodes and pops into destinations large
enough for the oldest entry. `pending` is what the queue holds after such a
sequence of operations, by definition of a FIFO queue.

`singlelinklist_refines_fifo` says that the list always represents `pending`
and that no operation on it faults. `MessageList` bundles a list with the queue
it represents; `Inserted` and `Popped` are the two functions as steps on it,
and `Inserted.contents` and `Popped.cases` are all the other modules use.
-/

namespace Uartd.LinkList

open Uartd.Lib

/-- An operation on a list; `insert` allocates the node it links. -/
inductive Op where
  | insert (id : NodeId) (next : Option NodeId) (d : DataInf)
  | pop (datanode : SingleLinklist)

/-- A list in memory: the heap and the header. -/
structure ListState where
  heap : Heap
  head : SingleLinklistHead

/-- The destination is large enough for the first entry, if there is one. -/
def FirstFits (s : ListState) (datanode : SingleLinklist) : Prop :=
  ∀ sentinel tmp first d, s.heap s.head.linklistHead = some sentinel → sentinel.next = some tmp →
    s.heap tmp = some first → first.data = some d →
    ∃ dst, datanode.data = some dst ∧ d.Fits dst

def ListStep (s : ListState) : Op → ListState → Prop
  | .insert id next d, s' => s.heap id = none ∧ d.WF ∧
      singlelinklistInsertNode (Function.update s.heap id (some ⟨next, some d⟩))
        (some s.head) (some id) = some (s'.heap, some s'.head)
  | .pop datanode, s' => FirstFits s datanode ∧ ∃ datanode',
      singlelinklistPopNode s.heap (some s.head) (some datanode) =
        some (s'.heap, some s'.head, some datanode')

/-- One list, from its creation in any heap on. -/
def listSystem : System ListState Op where
  init s := ∃ heap sentinel header mutexInit, heap sentinel = none ∧
    initSinglelinklist heap (some sentinel) header mutexInit = (s.heap, some s.head)
  step := ListStep

/-- The effect of an operation on a FIFO queue. -/
def Op.apply (q : List Entry) : Op → List Entry
  | .insert id _ d => q ++ [(id, d)]
  | .pop _ => q.tail

/-- The entries inserted and not yet popped, in insertion order. -/
def pending (ops : List Op) : List Entry := ops.foldl Op.apply []

theorem pending_append_one (ops : List Op) (op : Op) :
    pending (ops ++ [op]) = op.apply (pending ops) := by
  simp [pending, List.foldl_append]

-- ---------------------------------------------------------------------------
-- The list represents the pending entries
-- ---------------------------------------------------------------------------

theorem FirstFits.of_rep {s : ListState} {id : NodeId} {d : DataInf} {q : List Entry}
    {datanode : SingleLinklist} (hfit : FirstFits s datanode)
    (h : Rep s.heap s.head ((id, d) :: q)) :
    ∃ dst, datanode.data = some dst ∧ d.Fits dst := by
  obtain ⟨-, cs, hcs, -, hnext, ci, hci, hcid, -⟩ := h.seg
  exact hfit cs id ci d hcs hnext hci hcid

theorem firstFits_cons {s : ListState} {e : Entry} {q : List Entry} {datanode : SingleLinklist}
    {dst : DataInf} (h : Rep s.heap s.head (e :: q)) (hdst : datanode.data = some dst)
    (hfit : e.2.Fits dst) : FirstFits s datanode := by
  intro sentinel tmp first d hsentinel hnext hfirst hdata
  obtain ⟨cs, ci, hcs, -, hcnext, hci, hcid, -⟩ := h.first
  obtain rfl : cs = sentinel := Option.some.inj (hcs.symm.trans hsentinel)
  obtain rfl : e.1 = tmp := Option.some.inj (hcnext.symm.trans hnext)
  obtain rfl : ci = first := Option.some.inj (hci.symm.trans hfirst)
  obtain rfl : e.2 = d := Option.some.inj (hcid.symm.trans hdata)
  exact ⟨dst, hdst, hfit⟩

/-- In an empty list the sentinel points to itself. -/
theorem Rep.empty_self {heap : Heap} {head : SingleLinklistHead} (h : Rep heap head []) :
    ∃ cs, heap head.linklistHead = some cs ∧ cs.data = none ∧
      cs.next = some head.linklistHead := by
  obtain ⟨-, cs, hcs, hcsd, hnext⟩ := h.seg
  have htail : head.linklistTail = head.linklistHead := by
    have hlast := h.last
    simpa [addrs] using hlast.symm
  exact ⟨cs, hcs, hcsd, htail ▸ hnext⟩

theorem firstFits_nil {s : ListState} (h : Rep s.heap s.head []) (datanode : SingleLinklist) :
    FirstFits s datanode := by
  intro sentinel tmp first d hsentinel hnext hfirst hdata
  obtain ⟨cs, hcs, hcsd, hself⟩ := h.empty_self
  obtain rfl : cs = sentinel := Option.some.inj (hcs.symm.trans hsentinel)
  obtain rfl : s.head.linklistHead = tmp := Option.some.inj (hself.symm.trans hnext)
  obtain rfl : cs = first := Option.some.inj (hcs.symm.trans hfirst)
  rw [hcsd] at hdata
  simp at hdata

/-- One operation keeps the representation. -/
theorem rep_step {s s' : ListState} {op : Op} {q : List Entry}
    (h : Rep s.heap s.head q) (hst : ListStep s op s') : Rep s'.heap s'.head (op.apply q) := by
  cases op with
  | insert id next d =>
    obtain ⟨hfresh, hwf, hrun⟩ := hst
    obtain ⟨heap', head', hrun', hrep, -, -⟩ :=
      insert_rep h ⟨next, some d⟩ hfresh rfl hwf
    rw [hrun] at hrun'
    simp only [Option.some.injEq, Prod.mk.injEq] at hrun'
    obtain ⟨rfl, rfl⟩ := hrun'
    exact hrep
  | pop datanode =>
    obtain ⟨hfit, datanode', hrun⟩ := hst
    cases q with
    | nil =>
      rw [pop_empty h] at hrun
      simp only [Option.some.injEq, Prod.mk.injEq] at hrun
      obtain ⟨h₁, h₂, -⟩ := hrun
      rw [← h₁, ← h₂]
      exact h
    | cons e q =>
      obtain ⟨dst, hdst, hfits⟩ := hfit.of_rep h
      obtain ⟨heap', head', hrun', hrep, -⟩ := pop_rep h datanode hdst hfits
      rw [hrun] at hrun'
      simp only [Option.some.injEq, Prod.mk.injEq] at hrun'
      obtain ⟨rfl, rfl, -⟩ := hrun'
      exact hrep

/-- After any run the list represents the pending entries. -/
theorem run_rep {ops : List Op} {s : ListState} (h : listSystem.Run ops s) :
    Rep s.heap s.head (pending ops) := by
  refine System.Run.invariant (I := fun ops s => Rep s.heap s.head (pending ops)) ?_ ?_ h
  · rintro s ⟨heap, sentinel, header, mutexInit, -, hinit⟩
    exact init_rep hinit
  · intro ops s op s' _ hrep hst
    rw [pending_append_one]
    exact rep_step hrep hst

/-- **The message list is a FIFO queue.** After any sequence of inserts of
fresh nodes and pops into large enough destinations:

* following `next` from the sentinel `linknode_count` times visits exactly the
  pending entries in insertion order; they are pairwise distinct, allocated,
  hold the data they were inserted with, and end at `linklist_tail`;
* `is_singlelinklist_empty` answers 1 exactly when nothing is pending;
* the next insert does not fault;
* the next pop does not fault: on an empty list it changes neither the list
  nor the destination, otherwise it delivers the oldest entry and frees its
  node and no other. -/
theorem singlelinklist_refines_fifo {ops : List Op} {s : ListState}
    (h : listSystem.Run ops s) :
    follow SingleLinklist.next s.heap s.head.linklistHead s.head.linknodeCount.toNat =
      some ((pending ops).map Prod.fst) ∧
    s.head.linknodeCount = (pending ops).length ∧
    (addrs s.head.linklistHead (pending ops)).Nodup ∧
    (addrs s.head.linklistHead (pending ops)).getLast? = some s.head.linklistTail ∧
    (∀ x ∈ addrs s.head.linklistHead (pending ops), s.heap x ≠ none) ∧
    (∀ e ∈ pending ops, ∃ node, s.heap e.1 = some node ∧ node.data = some e.2) ∧
    isSinglelinklistEmpty s.head = (if pending ops = [] then 1 else 0) ∧
    (∀ id next d, s.heap id = none → d.WF → ∃ s', ListStep s (.insert id next d) s') ∧
    (pending ops = [] → ∀ datanode,
      singlelinklistPopNode s.heap (some s.head) (some datanode) =
        some (s.heap, some s.head, some datanode)) ∧
    (∀ id d rest, pending ops = (id, d) :: rest →
      ∀ datanode dst buf, datanode.data = some dst → dst.pdata = some buf →
        d.dataLen ≤ buf.length →
        ∃ heap' head', singlelinklistPopNode s.heap (some s.head) (some datanode) =
            some (heap', some head', some ⟨datanode.next, some
              ⟨some (d.bytes ++ buf.drop d.dataLen.toNat), d.dataLen, d.recvFd, d.sendTo⟩⟩) ∧
          heap' id = none ∧ ∀ j, j ≠ id → (heap' j = none ↔ s.heap j = none)) := by
  have hrep := run_rep h
  refine ⟨hrep.follow_eq, hrep.count, hrep.nodup, hrep.last, fun x hx => hrep.allocated hx,
    fun e he => hrep.lookup he, ?_, ?_, ?_, ?_⟩
  · have hcount := hrep.count
    unfold isSinglelinklistEmpty
    cases hq : pending ops with
    | nil => simp [hcount, hq]
    | cons e q =>
      rw [hq] at hcount
      simp only [List.length_cons] at hcount
      push_cast at hcount
      rw [if_neg (by omega), if_neg (by simp)]
  · intro id next d hfresh hwf
    obtain ⟨heap', head', hrun, -⟩ := insert_rep hrep ⟨next, some d⟩ hfresh rfl hwf
    exact ⟨⟨heap', head'⟩, hfresh, hwf, hrun⟩
  · intro hq datanode
    rw [hq] at hrep
    exact pop_empty hrep datanode
  · intro id d rest hq datanode dst buf hdst hbuf hle
    rw [hq] at hrep
    obtain ⟨heap', head', hrun, -, -, hfreed, hkept, -⟩ :=
      pop_rep hrep datanode hdst ⟨buf, hbuf, hle⟩
    refine ⟨heap', head', ?_, hfreed, hkept⟩
    rw [hrun, DataInf.deliver, hbuf, Option.getD_some]

/-- The theorem at work: one insert into a new list, then the pop. -/
theorem singlelinklist_refines_fifo_one :
    ∃ s, listSystem.Run [.insert 1 none ⟨some [7, 8, 9], 2, 5, .UART⟩] s ∧
      follow SingleLinklist.next s.heap s.head.linklistHead s.head.linknodeCount.toNat = some [1] ∧
      ∃ heap' head', singlelinklistPopNode s.heap (some s.head)
          (some ⟨none, some ⟨some [0, 0, 0, 0], 0, -1, .other 0⟩⟩) =
        some (heap', some head', some ⟨none, some ⟨some [7, 8, 0, 0], 2, 5, .UART⟩⟩) := by
  have hinit : listSystem.Run [] ⟨Function.update (Function.update (fun _ => none) 0
      (some ⟨none, none⟩)) 0 (some ⟨some 0, none⟩), ⟨0, 0, 0⟩⟩ :=
    .init ⟨fun _ => none, 0, true, 0, rfl, rfl⟩
  obtain ⟨s, hs⟩ := (singlelinklist_refines_fifo hinit).2.2.2.2.2.2.2.1 1 none
    ⟨some [7, 8, 9], 2, 5, .UART⟩ (by simp) ⟨[7, 8, 9], rfl, by decide, by decide⟩
  have hrun : listSystem.Run [.insert 1 none ⟨some [7, 8, 9], 2, 5, .UART⟩] s := .step hinit hs
  obtain ⟨hfollow, -, -, -, -, -, -, -, -, hpop⟩ := singlelinklist_refines_fifo hrun
  obtain ⟨heap', head', hrun', -⟩ := hpop 1 ⟨some [7, 8, 9], 2, 5, .UART⟩ [] rfl
    ⟨none, some ⟨some [0, 0, 0, 0], 0, -1, .other 0⟩⟩ _ [0, 0, 0, 0] rfl rfl (by decide)
  exact ⟨s, hrun, hfollow, heap', head', hrun'⟩

-- ---------------------------------------------------------------------------
-- Lists as components
-- ---------------------------------------------------------------------------

/-- A list in memory together with the queue it represents. -/
structure MessageList where
  heap  : Heap
  head  : SingleLinklistHead
  queue : List Entry
  rep   : Rep heap head queue

namespace MessageList

/-- The messages of a list, oldest first. -/
def contents (l : MessageList) : List DataInf := l.queue.map Prod.snd

/-- `singlelinklist_insert_node` of a fresh node filled with `d`. -/
def Inserted (l : MessageList) (id : NodeId) (d : DataInf) (l' : MessageList) : Prop :=
  l.heap id = none ∧ d.WF ∧
    singlelinklistInsertNode (Function.update l.heap id (some ⟨none, some d⟩))
      (some l.head) (some id) = some (l'.heap, some l'.head)

/-- `singlelinklist_pop_node` into a node holding `dst`, which afterwards
holds `dst'`. -/
def Popped (l : MessageList) (dst dst' : DataInf) (l' : MessageList) : Prop :=
  singlelinklistPopNode l.heap (some l.head) (some ⟨none, some dst⟩) =
    some (l'.heap, some l'.head, some ⟨none, some dst'⟩)

/-- The list `init_singlelinklist` returns. -/
def Initial (l : MessageList) : Prop :=
  ∃ heap sentinel header mutexInit, heap sentinel = none ∧
    initSinglelinklist heap (some sentinel) header mutexInit = (l.heap, some l.head)

/-- The list made in an empty heap. -/
def new : MessageList where
  heap := Function.update (Function.update (fun _ => none) 0 (some ⟨none, none⟩)) 0
    (some ⟨some 0, none⟩)
  head := { linklistHead := 0, linklistTail := 0, linknodeCount := 0 }
  queue := []
  rep := @init_rep (fun _ => none) _ (some 0) true 0 _ rfl

theorem new_initial : new.Initial := ⟨fun _ => none, 0, true, 0, rfl, rfl⟩

variable {l l' : MessageList} {d dst dst' : DataInf}

theorem Initial.contents (h : l.Initial) : l.contents = [] := by
  obtain ⟨heap, sentinel, header, mutexInit, -, hinit⟩ := h
  rw [MessageList.contents, l.rep.functional (init_rep hinit)]
  rfl

theorem empty_iff : isSinglelinklistEmpty l.head = 1 ↔ l.contents = [] := by
  have hcount := l.rep.count
  unfold isSinglelinklistEmpty contents
  rw [List.map_eq_nil_iff, ← List.length_eq_zero_iff]
  split
  · omega
  · constructor
    · intro h
      simp at h
    · omega

theorem empty_ne_zero_iff : isSinglelinklistEmpty l.head ≠ 0 ↔ l.contents = [] := by
  rw [← empty_iff]
  unfold isSinglelinklistEmpty
  split <;> simp

theorem empty_eq_zero_iff : isSinglelinklistEmpty l.head = 0 ↔ l.contents ≠ [] := by
  rw [Ne, ← empty_ne_zero_iff, not_not]

theorem Inserted.contents {id : NodeId} (h : l.Inserted id d l') :
    l'.contents = l.contents ++ [d] := by
  obtain ⟨hfresh, hwf, hrun⟩ := h
  obtain ⟨heap', head', hrun', hrep, -⟩ :=
    insert_rep l.rep ⟨none, some d⟩ hfresh rfl hwf
  rw [hrun] at hrun'
  simp only [Option.some.injEq, Prod.mk.injEq] at hrun'
  obtain ⟨rfl, rfl⟩ := hrun'
  rw [MessageList.contents, MessageList.contents, l'.rep.functional hrep, List.map_append]
  rfl

/-- A pop either finds the list empty and changes nothing, or takes the oldest
message into the destination. -/
theorem Popped.cases (h : l.Popped dst dst' l') :
    (l.contents = [] ∧ l'.contents = [] ∧ dst' = dst) ∨
    ∃ d rest, l.contents = d :: rest ∧ l'.contents = rest ∧ d.WF ∧ d.Fits dst ∧
      dst' = d.deliver dst := by
  unfold Popped at h
  cases hq : l.queue with
  | nil =>
    have hrep := l.rep
    rw [hq] at hrep
    rw [pop_empty hrep] at h
    simp only [Option.some.injEq, Prod.mk.injEq, SingleLinklist.mk.injEq, true_and] at h
    obtain ⟨h₁, h₂, h₃⟩ := h
    have hq' : l'.queue = [] := by
      refine Rep.functional l'.rep ?_
      rw [← h₁, ← h₂]
      exact hrep
    exact .inl ⟨by simp [MessageList.contents, hq], by simp [MessageList.contents, hq'], h₃.symm⟩
  | cons e q =>
    have hrep := l.rep
    rw [hq] at hrep
    have hcont : l.contents = e.2 :: q.map Prod.snd := by simp [MessageList.contents, hq]
    -- a copy into too small a block would have been a fault
    have hfit : e.2.Fits dst := by
      by_contra hno
      rw [pop_overrun hrep hno] at h
      simp at h
    obtain ⟨heap', head', hrun', hrep', -⟩ := pop_rep hrep ⟨none, some dst⟩ rfl hfit
    rw [h] at hrun'
    simp only [Option.some.injEq, Prod.mk.injEq, SingleLinklist.mk.injEq, true_and] at hrun'
    obtain ⟨rfl, rfl, h₃⟩ := hrun'
    refine .inr ⟨e.2, q.map Prod.snd, hcont, ?_, hrep.wf e (by simp), hfit, h₃⟩
    rw [MessageList.contents, l'.rep.functional hrep']

/-- Either way the list loses its first message. -/
theorem Popped.contents (h : l.Popped dst dst' l') : l'.contents = l.contents.tail := by
  rcases h.cases with ⟨hnil, hnil', -⟩ | ⟨d, rest, hcons, hrest, -, -, -⟩
  · rw [hnil', hnil]
    rfl
  · rw [hrest, hcons]
    rfl

/-- A fresh node can always be inserted. -/
theorem exists_inserted (l : MessageList) (id : NodeId) (hfresh : l.heap id = none)
    (hwf : d.WF) : ∃ l', l.Inserted id d l' := by
  obtain ⟨heap', head', hrun, hrep, -⟩ :=
    insert_rep l.rep ⟨none, some d⟩ hfresh rfl hwf
  exact ⟨⟨heap', head', _, hrep⟩, hfresh, hwf, hrun⟩

/-- An insert allocates one node. -/
theorem Inserted.fresh {id : NodeId} (h : l.Inserted id d l') {x : NodeId} (hx : x ≠ id)
    (hfree : l.heap x = none) : l'.heap x = none := by
  obtain ⟨hfresh, hwf, hrun⟩ := h
  obtain ⟨heap', head', hrun', -, -, hframe⟩ :=
    insert_rep l.rep ⟨none, some d⟩ hfresh rfl hwf
  rw [hrun] at hrun'
  simp only [Option.some.injEq, Prod.mk.injEq] at hrun'
  obtain ⟨rfl, rfl⟩ := hrun'
  rw [hframe x (fun hmem => l.rep.allocated hmem hfree) hx]
  exact hfree

/-- A pop into a large enough destination does not fault. -/
theorem exists_popped (l : MessageList) (dst : DataInf)
    (hfit : ∀ d rest, l.contents = d :: rest → d.Fits dst) :
    ∃ dst' l', l.Popped dst dst' l' := by
  cases hq : l.queue with
  | nil =>
    have hrep := l.rep
    rw [hq] at hrep
    exact ⟨dst, l, pop_empty hrep _⟩
  | cons e q =>
    have hrep := l.rep
    rw [hq] at hrep
    obtain ⟨heap', head', hrun, hrep', -⟩ := pop_rep hrep ⟨none, some dst⟩ rfl
      (hfit e.2 (q.map Prod.snd) (by simp [MessageList.contents, hq]))
    exact ⟨_, ⟨heap', head', q, hrep'⟩, hrun⟩

end MessageList

end Uartd.LinkList
