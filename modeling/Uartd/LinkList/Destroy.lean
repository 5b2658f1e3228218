import Uartd.Lib.CString
import Uartd.LinkList.Queue

/-!
# Uartd — destory_singlelinklist (linklist.c)

`destory_singlelinklist` prints and frees the entries one by one, the sentinel
together with the last of them, and then the header. `ListMemory` is the list in
memory: the heap of nodes, the header block, and the blocks freed so far. Reading
or writing a block that is not allocated is a fault, and so is freeing it, so a
call that returns never touches a block after it was freed and frees none twice.

An entry is printed with `%s`, which reads its block up to a NUL. Nothing puts one
there: a block that holds none is read past its end.

* `destory_nonempty` — a list with entries that can be printed is freed as a whole,
  in order;
* `destory_overrun` — an entry that cannot makes the call read past a block;
* `destory_empty` — of an empty list only the header is freed;
* `destory_releases_iff` — everything is released if and only if the list has
  entries and each can be printed.

The mutex is left out.
-/

namespace Uartd.LinkList

open Uartd.Lib

/-- What a list owns. -/
inductive Block where
  | header
  | node (id : NodeId)
  deriving DecidableEq, Repr

/-- The heap of nodes, the header (`none` once it is freed) and the blocks freed
so far, oldest first. -/
structure ListMemory where
  heap   : Heap
  header : Option SingleLinklistHead
  freed  : List Block

/-- `singlelinklist_destory_node(id)`. -/
def ListMemory.destoryNode (m : ListMemory) (id : NodeId) : Option ListMemory := do
  let heap ← singlelinklistDestoryNode m.heap (some id)
  pure { m with heap := heap, freed := m.freed ++ [.node id] }

/-- `free(head)`. -/
def ListMemory.freeHeader (m : ListMemory) : Option ListMemory :=
  m.header.map fun _ => { m with header := none, freed := m.freed ++ [.header] }

/-- The `%s` of the print of an entry. -/
def DataInf.print (d : DataInf) : Option (List UInt8) := do
  let pdata ← d.pdata
  cstringAt pdata

/-- The body of the loop, for `head->linknode_count > 0`. -/
def destoryEntry (m : ListMemory) : Option ListMemory := do
  let hd ← m.header
  let sentinel ← m.heap hd.linklistHead
  let tmp ← sentinel.next
  let first ← m.heap tmp
  -- printf("destorying [%d]:[%s]\n", head->linknode_count, tmp->data->pdata)
  let data ← first.data
  let _ ← data.print
  -- head->linklist_head->next = head->linklist_head->next->next
  let heap := Function.update m.heap hd.linklistHead (some { sentinel with next := first.next })
  let hd := { hd with linknodeCount := hd.linknodeCount - 1 }
  let m ← ListMemory.destoryNode { m with heap := heap, header := some hd } tmp
  if hd.linknodeCount = 0 then do
    let hd := { hd with linklistTail := hd.linklistHead }
    let tail ← m.heap hd.linklistTail
    let heap := Function.update m.heap hd.linklistTail
      (some { tail with next := some hd.linklistHead })
    ListMemory.destoryNode { m with heap := heap, header := some hd } hd.linklistHead
  else pure m

/-- What the loop tests, `head->linknode_count`. -/
def ListMemory.count (m : ListMemory) : Option Int := m.header.map (·.linknodeCount)

/-- Each iteration that does not fault takes one from the count. -/
theorem destoryEntry_count {m m' : ListMemory} (h : destoryEntry m = some m') {c : Int}
    (hc : m.count = some c) : m'.count = some (c - 1) := by
  obtain ⟨hd, hhd, rfl⟩ := Option.map_eq_some_iff.mp hc
  simp only [destoryEntry, ListMemory.destoryNode, hhd, Option.bind_eq_bind, Option.bind_some,
    Option.bind_eq_some_iff, Option.pure_def, Option.some.injEq] at h
  obtain ⟨sentinel, -, tmp, -, first, -, data, -, text, -, m₁, ⟨heap₁, -, rfl⟩, h⟩ := h
  split at h
  · simp only [Option.bind_eq_some_iff, Option.some.injEq] at h
    obtain ⟨tail, -, heap₂, -, rfl⟩ := h
    rfl
  · rw [Option.some.injEq] at h
    rw [← h]
    rfl

/-- `while(head->linknode_count > 0)`. -/
def destoryLoop (m : ListMemory) : Option ListMemory :=
  match _hc : m.count with
  | none => none
  | some c =>
    if 0 < c then
      match _hm : destoryEntry m with
      | none => none
      | some m' => destoryLoop m'
    else some m
termination_by (m.count.getD 0).toNat
decreasing_by
  rw [destoryEntry_count _hm _hc, _hc]
  simp only [Option.getD_some]
  omega

/-- `destory_singlelinklist`; `head` is NULL or the header of a list in `heap`. -/
def destorySinglelinklist (heap : Heap) (head : Option SingleLinklistHead) : Option ListMemory :=
  match head with
  | none => some { heap := heap, header := none, freed := [] }
  | some hd => do
    let m ← destoryLoop { heap := heap, header := some hd, freed := [] }
    m.freeHeader

-- ---------------------------------------------------------------------------
-- The loop
-- ---------------------------------------------------------------------------

theorem destoryLoop_done {m : ListMemory} (h : m.count = some 0) : destoryLoop m = some m := by
  unfold destoryLoop
  split
  · rename_i hc
    rw [h] at hc
    simp at hc
  · rename_i c hc
    obtain rfl : (0 : Int) = c := Option.some.inj (h.symm.trans hc)
    simp

theorem destoryLoop_next {m : ListMemory} {c : Int} (hc : m.count = some c) (hpos : 0 < c) :
    destoryLoop m = (destoryEntry m).bind destoryLoop := by
  rw [destoryLoop]
  split
  · rename_i hc'
    rw [hc] at hc'
    simp at hc'
  · rename_i c' hc'
    obtain rfl : c = c' := Option.some.inj (hc.symm.trans hc')
    rw [if_pos hpos]
    split
    · rename_i hm
      rw [hm]
      rfl
    · rename_i m' hm
      rw [hm]
      rfl

/-- The block of the entry holds a NUL. -/
def DataInf.Terminated (d : DataInf) : Prop := ∃ block, d.pdata = some block ∧ 0 ∈ block

theorem DataInf.Terminated.print {d : DataInf} (h : d.Terminated) :
    ∃ text, d.print = some text := by
  obtain ⟨block, hblock, hnul⟩ := h
  obtain ⟨len, hlen, -⟩ := strlen_of_mem hnul
  refine ⟨block.take len, ?_⟩
  rw [DataInf.print, hblock, Option.bind_eq_bind, Option.bind_some, cstringAt, hlen]
  rfl

theorem DataInf.print_overrun {d : DataInf} (h : ¬ d.Terminated) : d.print = none := by
  rw [DataInf.print, Option.bind_eq_bind, Option.bind_eq_none_iff]
  intro block hblock
  exact cstringAt_eq_none.mpr fun hnul => h ⟨block, hblock, hnul⟩

theorem Rep.count_pos {heap : Heap} {head : SingleLinklistHead} {e : Entry} {q : List Entry}
    (h : Rep heap head (e :: q)) : 0 < head.linknodeCount := by
  rw [h.count]
  simp only [List.length_cons]
  omega

/-- An entry that cannot be printed. -/
theorem destoryEntry_overrun {heap : Heap} {head : SingleLinklistHead} (freed : List Block)
    {e : Entry} {q : List Entry} (h : Rep heap head (e :: q)) (he : ¬ e.2.Terminated) :
    destoryEntry ⟨heap, some head, freed⟩ = none := by
  obtain ⟨cs, ci, hcs, -, hnext, hci, hcid, -⟩ := h.first
  simp [destoryEntry, hcs, hnext, hci, hcid, DataInf.print_overrun he]

/-- An entry with others behind it is unlinked and freed. -/
theorem destoryEntry_cons {heap : Heap} {head : SingleLinklistHead} (freed : List Block)
    {id : NodeId} {d : DataInf} {e : Entry} {q : List Entry}
    (h : Rep heap head ((id, d) :: e :: q)) (hd : d.Terminated) :
    ∃ heap', destoryEntry ⟨heap, some head, freed⟩ =
        some ⟨heap', some { head with linknodeCount := head.linknodeCount - 1 },
          freed ++ [.node id]⟩ ∧
      Rep heap' { head with linknodeCount := head.linknodeCount - 1 } (e :: q) ∧
      heap' id = none ∧ ∀ j, j ≠ head.linklistHead → j ≠ id → heap' j = heap j := by
  obtain ⟨cs, ci, hcs, -, hnext, hci, hcid, hids⟩ := h.first
  obtain ⟨text, htext⟩ := hd.print
  have hmore : head.linknodeCount - 1 ≠ 0 := by
    have := h.count
    simp only [List.length_cons] at this
    push_cast at this
    omega
  refine ⟨_, ?_, h.unlink_first hcs hci, Function.update_self _ _ _, ?_⟩
  · simp [destoryEntry, ListMemory.destoryNode, singlelinklistDestoryNode, hcs, hnext, hci, hcid,
      htext, hmore, Function.update_of_ne hids]
  · intro j hj hji
    rw [Function.update_of_ne hji, Function.update_of_ne hj]

/-- The last entry is freed, and the sentinel after it. -/
theorem destoryEntry_last {heap : Heap} {head : SingleLinklistHead} (freed : List Block)
    {id : NodeId} {d : DataInf} (h : Rep heap head [(id, d)]) (hd : d.Terminated) :
    ∃ heap' head', destoryEntry ⟨heap, some head, freed⟩ =
        some ⟨heap', some head', freed ++ [.node id, .node head.linklistHead]⟩ ∧
      head'.linknodeCount = 0 ∧ heap' id = none ∧ heap' head.linklistHead = none ∧
      ∀ j, j ≠ head.linklistHead → j ≠ id → heap' j = heap j := by
  obtain ⟨cs, ci, hcs, -, hnext, hci, hcid, hids⟩ := h.first
  obtain ⟨text, htext⟩ := hd.print
  have hlast : head.linknodeCount - 1 = 0 := by
    have := h.count
    simp only [List.length_singleton] at this
    push_cast at this
    omega
  refine ⟨Function.update (Function.update (Function.update (Function.update heap head.linklistHead
    (some { cs with next := ci.next })) id none) head.linklistHead
    (some { cs with next := some head.linklistHead })) head.linklistHead none,
    { head with linknodeCount := 0, linklistTail := head.linklistHead }, ?_, rfl, ?_, ?_, ?_⟩
  · simp [destoryEntry, ListMemory.destoryNode, singlelinklistDestoryNode, hcs, hnext, hci, hcid,
      htext, hlast, Function.update_of_ne hids, Function.update_of_ne (Ne.symm hids)]
  · simp [Function.update_of_ne hids]
  · simp
  · intro j hj hji
    simp [hj, hji]

/-- **The loop on a list with entries** frees them in order, then the sentinel,
and touches nothing else. The induction is on the entries behind the first. -/
theorem destoryLoop_entries {heap : Heap} {head : SingleLinklistHead} (freed : List Block)
    {e : Entry} {q : List Entry} (h : Rep heap head (e :: q))
    (hq : ∀ e' ∈ e :: q, e'.2.Terminated) :
    ∃ heap' head', destoryLoop ⟨heap, some head, freed⟩ =
        some ⟨heap', some head', freed ++ (e :: q).map (fun e => .node e.1) ++
          [.node head.linklistHead]⟩ ∧
      (∀ x ∈ addrs head.linklistHead (e :: q), heap' x = none) ∧
      ∀ j, j ∉ addrs head.linklistHead (e :: q) → heap' j = heap j := by
  induction q generalizing heap head freed e with
  | nil =>
    obtain ⟨heap', head', hrun, hzero, hid, hsentinel, hframe⟩ :=
      destoryEntry_last freed h (hq e List.mem_cons_self)
    refine ⟨heap', head', ?_, ?_, ?_⟩
    · rw [destoryLoop_next rfl h.count_pos, hrun, Option.bind_some,
        destoryLoop_done (by show some head'.linknodeCount = _; rw [hzero])]
      simp
    · intro x hx
      rcases mem_addrs_cons.mp hx with rfl | hx
      · exact hid
      · rw [List.mem_singleton.mp hx]
        exact hsentinel
    · intro j hj
      rw [mem_addrs_cons, not_or] at hj
      exact hframe j (fun hsent => hj.2 (hsent ▸ sentinel_mem _ _)) hj.1
  | cons e' q ih =>
    obtain ⟨heap₁, hrun, hrep, hid, hframe₁⟩ :=
      destoryEntry_cons freed h (hq e List.mem_cons_self)
    obtain ⟨heap', head', hloop, hfree, hframe⟩ :=
      ih (freed ++ [.node e.1]) hrep fun e' he' => hq e' (List.mem_cons_of_mem _ he')
    refine ⟨heap', head', ?_, ?_, ?_⟩
    · rw [destoryLoop_next rfl h.count_pos, hrun, Option.bind_some, hloop]
      simp
    · intro x hx
      rcases mem_addrs_cons.mp hx with rfl | hx
      · -- the rest of the loop does not use the address again
        rw [hframe _ h.first_notMem, hid]
      · exact hfree x hx
    · intro j hj
      rw [mem_addrs_cons, not_or] at hj
      rw [hframe j hj.2]
      exact hframe₁ j (fun hsent => hj.2 (hsent ▸ sentinel_mem _ _)) hj.1

/-- The loop does not come past an entry that cannot be printed. -/
theorem destoryLoop_overrun {heap : Heap} {head : SingleLinklistHead} (freed : List Block)
    {q : List Entry} (h : Rep heap head q) (hq : ∃ e ∈ q, ¬ e.2.Terminated) :
    destoryLoop ⟨heap, some head, freed⟩ = none := by
  obtain ⟨e', he', hbad⟩ := hq
  induction q generalizing heap head freed with
  | nil => exact absurd he' List.not_mem_nil
  | cons e q ih =>
    rw [destoryLoop_next rfl h.count_pos]
    by_cases he : e.2.Terminated
    · have hmem : e' ∈ q := (List.mem_cons.mp he').resolve_left fun heq => hbad (heq ▸ he)
      obtain ⟨e₂, q, rfl⟩ := List.exists_cons_of_ne_nil (List.ne_nil_of_mem hmem)
      obtain ⟨heap₁, hrun, hrep, -, -⟩ := destoryEntry_cons freed h he
      rw [hrun, Option.bind_some]
      exact ih _ hrep hmem
    · rw [destoryEntry_overrun freed h he]
      rfl

-- ---------------------------------------------------------------------------
-- The whole function
-- ---------------------------------------------------------------------------

/-- A list with entries that can be printed is freed as a whole: the entries in
order, the sentinel, the header. -/
theorem destory_nonempty {heap : Heap} {head : SingleLinklistHead} {q : List Entry}
    (h : Rep heap head q) (hq : q ≠ []) (hprint : ∀ e ∈ q, e.2.Terminated) :
    ∃ heap', destorySinglelinklist heap (some head) =
        some ⟨heap', none, q.map (fun e => .node e.1) ++ [.node head.linklistHead, .header]⟩ ∧
      (∀ x ∈ addrs head.linklistHead q, heap' x = none) ∧
      ∀ j, j ∉ addrs head.linklistHead q → heap' j = heap j := by
  obtain ⟨e, q, rfl⟩ := List.exists_cons_of_ne_nil hq
  obtain ⟨heap', head', hloop, hfree, hframe⟩ := destoryLoop_entries [] h hprint
  refine ⟨heap', ?_, hfree, hframe⟩
  rw [destorySinglelinklist, hloop]
  simp [ListMemory.freeHeader]

/-- An entry that cannot be printed makes the call read past its block. -/
theorem destory_overrun {heap : Heap} {head : SingleLinklistHead} {q : List Entry}
    (h : Rep heap head q) (hq : ∃ e ∈ q, ¬ e.2.Terminated) :
    destorySinglelinklist heap (some head) = none := by
  rw [destorySinglelinklist, destoryLoop_overrun [] h hq]
  rfl

/-- Of an empty list only the header is freed. -/
theorem destory_empty {heap : Heap} {head : SingleLinklistHead} (h : Rep heap head []) :
    destorySinglelinklist heap (some head) = some ⟨heap, none, [.header]⟩ := by
  have hcount : ListMemory.count ⟨heap, some head, []⟩ = some 0 := by
    show some head.linknodeCount = _
    rw [h.count]
    rfl
  rw [destorySinglelinklist, destoryLoop_done hcount]
  rfl

/-- The call returns, has freed each block of the list exactly once and nothing
else, and left none of them allocated. -/
def ReleasesAll (heap : Heap) (head : SingleLinklistHead) (q : List Entry) : Prop :=
  ∃ m, destorySinglelinklist heap (some head) = some m ∧
    m.freed.Perm (.header :: (addrs head.linklistHead q).map .node) ∧ m.freed.Nodup ∧
    m.header = none ∧ ∀ x ∈ addrs head.linklistHead q, m.heap x = none

theorem nodup_blocks {heap : Heap} {head : SingleLinklistHead} {q : List Entry}
    (h : Rep heap head q) : (Block.header :: (addrs head.linklistHead q).map .node).Nodup := by
  refine List.nodup_cons.mpr ⟨by simp, h.nodup.map ?_⟩
  intro a b hab
  simpa using hab

theorem releasesAll_nonempty {heap : Heap} {head : SingleLinklistHead} {q : List Entry}
    (h : Rep heap head q) (hq : q ≠ []) (hprint : ∀ e ∈ q, e.2.Terminated) :
    ReleasesAll heap head q := by
  obtain ⟨heap', hrun, hfree, -⟩ := destory_nonempty h hq hprint
  have hperm : (q.map (fun e : Entry => Block.node e.1) ++
      [Block.node head.linklistHead, Block.header]).Perm
      (.header :: (addrs head.linklistHead q).map .node) := by
    have hmap : (addrs head.linklistHead q).map Block.node =
        .node head.linklistHead :: q.map fun e => .node e.1 := by
      simp [addrs, Function.comp_def]
    rw [hmap]
    exact List.perm_append_comm.trans (List.Perm.swap _ _ _)
  exact ⟨_, hrun, hperm, hperm.nodup_iff.mpr (nodup_blocks h), rfl, hfree⟩

theorem not_releasesAll_empty {heap : Heap} {head : SingleLinklistHead} (h : Rep heap head []) :
    ¬ ReleasesAll heap head [] := by
  rintro ⟨m, hrun, -, -, -, hfree⟩
  rw [destory_empty h, Option.some.injEq] at hrun
  subst hrun
  exact h.allocated (List.mem_cons_self) (hfree _ List.mem_cons_self)

/-- **destory_singlelinklist releases everything if and only if the list has
entries and each can be printed.** On an empty list it returns and the sentinel
stays allocated; on one with an entry that cannot be printed it reads past a block. -/
theorem destory_releases_iff {ops : List Op} {s : ListState} (h : listSystem.Run ops s) :
    (destorySinglelinklist s.heap (some s.head) ≠ none ↔
      ∀ e ∈ pending ops, e.2.Terminated) ∧
    (ReleasesAll s.heap s.head (pending ops) ↔
      pending ops ≠ [] ∧ ∀ e ∈ pending ops, e.2.Terminated) := by
  have hrep := run_rep h
  by_cases hprint : ∀ e ∈ pending ops, e.2.Terminated
  · by_cases hq : pending ops = []
    · rw [hq] at hrep ⊢
      refine ⟨iff_of_true ?_ fun e he => absurd he List.not_mem_nil,
        iff_of_false (not_releasesAll_empty hrep) fun h => h.1 rfl⟩
      rw [destory_empty hrep]
      simp
    · have hall := releasesAll_nonempty hrep hq hprint
      refine ⟨iff_of_true ?_ hprint, iff_of_true hall ⟨hq, hprint⟩⟩
      obtain ⟨m, hrun, -⟩ := hall
      rw [hrun]
      simp
  · have hfault := destory_overrun hrep (by simpa using hprint)
    refine ⟨iff_of_false (not_not_intro hfault) hprint, iff_of_false ?_ fun h => hprint h.2⟩
    rintro ⟨m, hrun, -⟩
    rw [hfault] at hrun
    exact nomatch hrun

/-- The theorem at work: two entries, each of which ends with a NUL. -/
theorem destory_releases_iff_two :
    ∃ s, listSystem.Run [.insert 1 none ⟨some [7, 0], 2, 5, .UART⟩,
        .insert 2 none ⟨some [8, 9, 0], 3, 5, .UART⟩] s ∧
      ReleasesAll s.heap s.head
        [(1, ⟨some [7, 0], 2, 5, .UART⟩), (2, ⟨some [8, 9, 0], 3, 5, .UART⟩)] := by
  have hinit : listSystem.Run [] ⟨MessageList.new.heap, MessageList.new.head⟩ :=
    .init MessageList.new_initial
  obtain ⟨s, hrun₁, hfresh⟩ : ∃ s, listSystem.Run [.insert 1 none ⟨some [7, 0], 2, 5, .UART⟩] s ∧
      s.heap 2 = none :=
    ⟨⟨_, _⟩, .step hinit ⟨rfl, ⟨[7, 0], rfl, by decide, by decide⟩, rfl⟩, rfl⟩
  have hwf : DataInf.WF ⟨some [8, 9, 0], 3, 5, .UART⟩ := ⟨[8, 9, 0], rfl, by decide, by decide⟩
  obtain ⟨heap, head, hinsert, -⟩ := insert_rep (run_rep hrun₁) ⟨none, some _⟩ hfresh rfl hwf
  have hrun : listSystem.Run (_ ++ [.insert 2 none _]) ⟨heap, head⟩ :=
    .step hrun₁ ⟨hfresh, hwf, hinsert⟩
  refine ⟨_, hrun, (destory_releases_iff hrun).2.mpr ⟨by simp [pending, Op.apply], ?_⟩⟩
  intro e he
  rcases List.mem_pair.mp he with rfl | rfl
  · exact ⟨[7, 0], rfl, by decide⟩
  · exact ⟨[8, 9, 0], rfl, by decide⟩

/-- A queued command of one byte, in a block of one byte: it is read past its end. -/
example : DataInf.print ⟨some [7], 1, 5, .UART⟩ = none := by decide

/-- A list that was created and never used: its sentinel is not freed. -/
theorem destory_new_leaks : ∃ s, listSystem.Run [] s ∧ ¬ ReleasesAll s.heap s.head (pending []) :=
  ⟨⟨MessageList.new.heap, MessageList.new.head⟩, .init MessageList.new_initial,
    not_releasesAll_empty MessageList.new.rep⟩

end Uartd.LinkList
