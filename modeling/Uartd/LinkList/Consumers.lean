import Uartd.Lib.Family
import Uartd.LinkList.Queue

/-!
# Uartd — several consumers of one list (linklist.c)

`singlelinklist_pop_node` tests `linknode_count` before it takes the mutex and
does not test it again, so a pop is two steps: `popTest` and, if that passes,
`popRegion`. `consumersSystem` interleaves the steps of any number of threads
that pop from one list and insert into it; a thread between its two steps is
parked there with its destination.

* `run_pending` — whatever the interleaving, the list represents the entries
  inserted and not yet taken, and `linknode_count` is their number;
* `popRegion_empty` — a thread that takes the mutex when the list has become
  empty reads the data of the sentinel, which is NULL;
* `pops_safe_iff` — a run is safe if and only if `linknode_count` is still
  positive whenever a pop takes the mutex;
* `run_room` — it is when no thread passes the test while as many are parked as
  the list has entries; `fault_of_parked` says that no weaker bound would do.

A destination is large enough for the entry it is given.
-/

namespace Uartd.LinkList

open Uartd.Lib

/-! ## The two steps of a pop -/

/-- The tests of `singlelinklist_pop_node`: whether it goes on to the lock. -/
def popTest (head : Option SingleLinklistHead) (datanode : Option SingleLinklist) : Bool :=
  match head, datanode with
  | some hd, some node => !decide (hd.linknodeCount = 0) && node.data.isSome
  | _, _ => false

/-- `singlelinklist_pop_node` from the lock on; the node is freed at its end. -/
def popRegion (heap : Heap) (hd : SingleLinklistHead) (node : SingleLinklist) :
    Option (Heap × SingleLinklistHead × SingleLinklist) := do
  let dst ← node.data
  let sentinel ← heap hd.linklistHead
  let tmp ← sentinel.next
  let first ← heap tmp
  let src ← first.data
  let pdata ← memcpy dst.pdata src.pdata src.dataLen
  let data : DataInf :=
    { pdata := some pdata, dataLen := src.dataLen, recvFd := src.recvFd, sendTo := src.sendTo }
  let heap := Function.update heap hd.linklistHead (some { sentinel with next := first.next })
  let hd := { hd with linknodeCount := hd.linknodeCount - 1 }
  let (heap, hd) ←
    if hd.linknodeCount = 0 then do
      let hd := { hd with linklistTail := hd.linklistHead }
      let tail ← heap hd.linklistTail
      pure (Function.update heap hd.linklistTail
        (some { tail with next := some hd.linklistHead }), hd)
    else pure (heap, hd)
  let heap ← singlelinklistDestoryNode heap (some tmp)
  pure (heap, hd, { node with data := some data })

/-- A pop that nobody interrupts is the test and then the region. -/
theorem singlelinklistPopNode_eq (heap : Heap) (hd : SingleLinklistHead) (node : SingleLinklist) :
    singlelinklistPopNode heap (some hd) (some node) =
      if popTest (some hd) (some node) then
        (popRegion heap hd node).map fun r => (r.1, some r.2.1, some r.2.2)
      else some (heap, some hd, some node) := by
  obtain ⟨next, data⟩ := node
  unfold singlelinklistPopNode popTest popRegion
  by_cases hcount : hd.linknodeCount = 0
  · simp [hcount]
  · cases data with
    | none => simp [hcount]
    | some dst =>
      -- the region is the same text; the map goes through its binds
      by_cases hlast : hd.linknodeCount - 1 = 0 <;>
        simp [hcount, hlast, Option.map_bind]

/-- The entry a region takes: the one the sentinel points to. -/
def firstEntry (heap : Heap) (hd : SingleLinklistHead) : Option Entry := do
  let sentinel ← heap hd.linklistHead
  let tmp ← sentinel.next
  let first ← heap tmp
  let d ← first.data
  pure (tmp, d)

theorem popTest_iff {hd : SingleLinklistHead} {node : SingleLinklist} :
    popTest (some hd) (some node) = true ↔ hd.linknodeCount ≠ 0 ∧ node.data ≠ none := by
  simp [popTest, Option.isSome_iff_ne_none]

/-- The region on a list with entries takes the oldest one. -/
theorem popRegion_entry {heap : Heap} {hd : SingleLinklistHead} {e : Entry} {q : List Entry}
    (h : Rep heap hd (e :: q)) (node : SingleLinklist) {dst : DataInf}
    (hdst : node.data = some dst) (hfit : e.2.Fits dst) :
    firstEntry heap hd = some e ∧
      ∃ heap' hd', popRegion heap hd node =
          some (heap', hd', { node with data := some (e.2.deliver dst) }) ∧
        Rep heap' hd' q ∧ heap' e.1 = none ∧
        ∀ j, j ≠ e.1 → (heap' j = none ↔ heap j = none) := by
  obtain ⟨cs, ci, hcs, -, hnext, hci, hcid, -⟩ := h.first
  have hcount : hd.linknodeCount ≠ 0 := by
    have := h.count
    simp only [List.length_cons] at this
    omega
  obtain ⟨heap', hd', hrun, hrep, -, hfreed, hkept, -⟩ :=
    pop_rep h node hdst hfit
  have htest : popTest (some hd) (some node) = true :=
    popTest_iff.mpr ⟨hcount, by rw [hdst]; simp⟩
  rw [singlelinklistPopNode_eq, if_pos htest, Option.map_eq_some_iff] at hrun
  obtain ⟨⟨heap₁, hd₁, node₁⟩, hregion, heq⟩ := hrun
  simp only [Prod.mk.injEq, Option.some.injEq] at heq
  obtain ⟨rfl, rfl, rfl⟩ := heq
  exact ⟨by simp [firstEntry, hcs, hnext, hci, hcid], heap₁, hd₁, hregion, hrep, hfreed, hkept⟩

/-- The region on an empty list finds the sentinel, which has no data. -/
theorem popRegion_empty {heap : Heap} {hd : SingleLinklistHead} (h : Rep heap hd [])
    (node : SingleLinklist) : popRegion heap hd node = none ∧ firstEntry heap hd = none := by
  obtain ⟨cs, hcs, hcsd, hself⟩ := h.empty_self
  constructor
  · cases hdata : node.data <;> simp [popRegion, hdata, hcs, hself, hcsd]
  · simp [firstEntry, hcs, hself, hcsd]

/-! ## Threads that share a list -/

/-- A list and the threads that use it. `parked t` is the destination of thread
`t` where it has passed the test and not yet taken the mutex. -/
structure SharedList (T : Type) where
  heap   : Heap
  head   : SingleLinklistHead
  parked : T → Option SingleLinklist

/-- What an observer sees. A `skip` is a pop that ends at its tests, a `fault`
the region of a pop that reads through a NULL pointer. -/
inductive SharedEvent (T : Type) where
  | insert (t : T) (e : Entry)
  | skip (t : T) (datanode : SingleLinklist)
  | pass (t : T)
  | take (t : T) (e : Entry) (datanode : SingleLinklist)
  | fault (t : T)

variable {T : Type} [DecidableEq T]

inductive SharedStep : SharedList T → SharedEvent T → SharedList T → Prop
  | insert {s heap' head'} (t : T) (id : NodeId) (next : Option NodeId) (d : DataInf) :
      s.parked t = none → s.heap id = none → d.WF →
      singlelinklistInsertNode (Function.update s.heap id (some ⟨next, some d⟩))
        (some s.head) (some id) = some (heap', some head') →
      SharedStep s (.insert t (id, d)) { s with heap := heap', head := head' }
  | skip {s} (t : T) (datanode : SingleLinklist) : s.parked t = none →
      popTest (some s.head) (some datanode) = false →
      SharedStep s (.skip t datanode) s
  | pass {s} (t : T) (datanode : SingleLinklist) : s.parked t = none →
      popTest (some s.head) (some datanode) = true →
      SharedStep s (.pass t) { s with parked := Function.update s.parked t (some datanode) }
  | take {s heap' head' datanode datanode' e} (t : T) : s.parked t = some datanode →
      FirstFits ⟨s.heap, s.head⟩ datanode → firstEntry s.heap s.head = some e →
      popRegion s.heap s.head datanode = some (heap', head', datanode') →
      SharedStep s (.take t e datanode') {
        heap := heap', head := head', parked := Function.update s.parked t none }
  | fault {s datanode} (t : T) : s.parked t = some datanode →
      FirstFits ⟨s.heap, s.head⟩ datanode → popRegion s.heap s.head datanode = none →
      SharedStep s (.fault t) { s with parked := Function.update s.parked t none }

/-- Any threads on one list, from its creation in any heap on. -/
def consumersSystem (T : Type) [DecidableEq T] : System (SharedList T) (SharedEvent T) where
  init s := (∃ heap sentinel header mutexInit, heap sentinel = none ∧
    initSinglelinklist heap (some sentinel) header mutexInit = (s.heap, some s.head)) ∧
    s.parked = fun _ => none
  step := SharedStep

def SharedEvent.inserted? : SharedEvent T → Option Entry
  | .insert _ e => some e
  | _ => none

def SharedEvent.taken? : SharedEvent T → Option Entry
  | .take _ e _ => some e
  | _ => none

/-- A pop takes the mutex. -/
def SharedEvent.Locks : SharedEvent T → Prop
  | .take _ _ _ | .fault _ => True
  | _ => False

/-- The entries inserted along a trace. -/
def insertedEntries (tr : List (SharedEvent T)) : List Entry := tr.filterMap SharedEvent.inserted?

/-- The entries the pops of all threads took along a trace. -/
def takenEntries (tr : List (SharedEvent T)) : List Entry := tr.filterMap SharedEvent.taken?

variable {tr : List (SharedEvent T)} {s s' : SharedList T} {e : SharedEvent T}

omit [DecidableEq T] in
theorem takenEntries_append_one : takenEntries (tr ++ [e]) = takenEntries tr ++ e.taken?.toList :=
  filterMap_append_one _ _ _

omit [DecidableEq T] in
theorem insertedEntries_append_one :
    insertedEntries (tr ++ [e]) = insertedEntries tr ++ e.inserted?.toList :=
  filterMap_append_one _ _ _

/-- **Step lemma.** The region faults on an empty list only; otherwise it takes
the oldest entry into the destination and frees its node. -/
theorem shared_step {q : List Entry} (h : Rep s.heap s.head q) (hst : SharedStep s e s') :
    ∃ q', Rep s'.heap s'.head q' ∧ e.taken?.toList ++ q' = q ++ e.inserted?.toList ∧
      (∀ t, e = .fault t → q = []) ∧
      (∀ t x datanode, e = .take t x datanode → s.heap x.1 ≠ none ∧ s'.heap x.1 = none ∧
        ∃ d, datanode.data = some d ∧ d.bytes = x.2.bytes ∧ d.dataLen = x.2.dataLen ∧
          d.recvFd = x.2.recvFd ∧ d.sendTo = x.2.sendTo) ∧
      (∀ t datanode, e = .skip t datanode → datanode.data ≠ none → q = []) := by
  cases hst with
  | insert t id next d hparked hfresh hwf hrun =>
    obtain ⟨heap₁, head₁, hrun₁, hrep, -, -⟩ := insert_rep h ⟨next, some d⟩ hfresh rfl hwf
    rw [hrun] at hrun₁
    simp only [Option.some.injEq, Prod.mk.injEq] at hrun₁
    obtain ⟨rfl, rfl⟩ := hrun₁
    exact ⟨_, hrep, rfl, by simp, by simp, by simp⟩
  | skip t datanode hparked htest =>
    refine ⟨q, h, by simp [SharedEvent.taken?, SharedEvent.inserted?], by simp, by simp, ?_⟩
    rintro _ _ ⟨⟩ hdata
    by_contra hq
    refine absurd htest ?_
    rw [Bool.not_eq_false, popTest_iff]
    refine ⟨?_, hdata⟩
    have hlen := List.length_pos_of_ne_nil hq
    have hcount := h.count
    omega
  | pass t datanode hparked htest =>
    exact ⟨q, h, by simp [SharedEvent.taken?, SharedEvent.inserted?], by simp, by simp, by simp⟩
  | @take heap' head' datanode datanode' x t hparked hfit hfirst hrun =>
    cases q with
    | nil =>
      rw [(popRegion_empty h datanode).1] at hrun
      simp at hrun
    | cons y q =>
      obtain ⟨dst, hdst, hfits⟩ := hfit.of_rep h
      obtain ⟨hy, heap₁, head₁, hrun₁, hrep, hfreed, -⟩ := popRegion_entry h datanode hdst hfits
      rw [hrun] at hrun₁
      simp only [Option.some.injEq, Prod.mk.injEq] at hrun₁
      obtain ⟨rfl, rfl, rfl⟩ := hrun₁
      obtain rfl : x = y := Option.some.inj (hfirst.symm.trans hy)
      refine ⟨q, hrep, by simp [SharedEvent.taken?, SharedEvent.inserted?], by simp, ?_, by simp⟩
      rintro _ _ _ ⟨⟩
      exact ⟨h.allocated (by simp [addrs]), hfreed, _, rfl, (h.wf x (by simp)).deliver_bytes,
        rfl, rfl, rfl⟩
  | @fault datanode t hparked hfit hrun =>
    cases q with
    | nil => exact ⟨[], h, rfl, by simp, by simp, by simp⟩
    | cons y q =>
      obtain ⟨dst, hdst, hfits⟩ := hfit.of_rep h
      obtain ⟨-, heap₁, head₁, hrun₁, -⟩ := popRegion_entry h datanode hdst hfits
      rw [hrun] at hrun₁
      simp at hrun₁

/-- **Run lemma.** The list represents what was inserted and not yet taken. -/
theorem run_pending (h : (consumersSystem T).Run tr s) :
    ∃ q, Rep s.heap s.head q ∧ takenEntries tr ++ q = insertedEntries tr := by
  refine System.Run.invariant (S := consumersSystem T)
    (I := fun tr s => ∃ q, Rep s.heap s.head q ∧ takenEntries tr ++ q = insertedEntries tr) ?_ ?_ h
  · rintro s ⟨⟨heap, sentinel, header, mutexInit, -, hinit⟩, -⟩
    exact ⟨[], init_rep hinit, rfl⟩
  · rintro tr s e s' - ⟨q, hrep, hledger⟩ hst
    obtain ⟨q', hrep', hq, -⟩ := shared_step hrep hst
    refine ⟨q', hrep', ?_⟩
    rw [takenEntries_append_one, insertedEntries_append_one, List.append_assoc, hq,
      ← List.append_assoc, hledger]

/-- `linknode_count` counts the entries inserted and not yet taken. -/
theorem run_count (h : (consumersSystem T).Run tr s) :
    s.head.linknodeCount = (insertedEntries tr).length - (takenEntries tr).length := by
  obtain ⟨q, hrep, hledger⟩ := run_pending h
  rw [hrep.count, ← hledger, List.length_append]
  push_cast
  omega

-- ---------------------------------------------------------------------------
-- When every pop is safe
-- ---------------------------------------------------------------------------

/-- No pop reads the data of the sentinel; `linknode_count` is not negative; the
entry taken `k`-th is the one inserted `k`-th, so no two pops take one entry;
each is delivered as it was inserted and its node freed; a pop that ends at its
tests found the list empty. -/
structure PopsSafely (tr : List (SharedEvent T)) (s : SharedList T) : Prop where
  noFault   : ∀ t, SharedEvent.fault t ∉ tr
  count     : 0 ≤ s.head.linknodeCount
  once      : takenEntries tr <+: insertedEntries tr
  delivered : ∀ pre t x datanode post, tr = pre ++ .take t x datanode :: post →
    ∃ s₁ s₂, (consumersSystem T).Run pre s₁ ∧ SharedStep s₁ (.take t x datanode) s₂ ∧
      s₁.heap x.1 ≠ none ∧ s₂.heap x.1 = none ∧
      ∃ d, datanode.data = some d ∧ d.bytes = x.2.bytes ∧ d.dataLen = x.2.dataLen ∧
        d.recvFd = x.2.recvFd ∧ d.sendTo = x.2.sendTo
  skipped   : ∀ pre t datanode post, tr = pre ++ .skip t datanode :: post →
    datanode.data ≠ none → takenEntries pre = insertedEntries pre

/-- `linknode_count` is positive whenever a pop takes the mutex. -/
def CountAtLock (tr : List (SharedEvent T)) : Prop :=
  ∀ pre e post, tr = pre ++ e :: post → e.Locks →
    (takenEntries pre).length < (insertedEntries pre).length

omit [DecidableEq T] in
theorem CountAtLock.append_one (h : CountAtLock tr)
    (he : e.Locks → (takenEntries tr).length < (insertedEntries tr).length) :
    CountAtLock (tr ++ [e]) := by
  intro pre x post htr hlock
  rcases List.eq_nil_or_concat post with rfl | ⟨post', y, rfl⟩
  · obtain ⟨rfl, hx⟩ := List.append_inj' htr rfl
    simp only [List.cons.injEq, and_true] at hx
    exact he (hx ▸ hlock)
  · rw [List.concat_eq_append, ← List.cons_append, ← List.append_assoc] at htr
    exact h pre x post' (List.append_inj' htr rfl).1 hlock

/-- A step that locks faults if and only if the list is empty. -/
theorem fault_iff {q : List Entry} (h : Rep s.heap s.head q) (hst : SharedStep s e s')
    (hlock : e.Locks) : (∃ t, e = .fault t) ↔ q = [] := by
  obtain ⟨q', -, hq, hfault, -⟩ := shared_step h hst
  constructor
  · rintro ⟨t, rfl⟩
    exact hfault t rfl
  · rintro rfl
    cases hst with
    | fault t hparked hfit hrun => exact ⟨t, rfl⟩
    | take t hparked hfit hfirst hrun => simp [SharedEvent.taken?, SharedEvent.inserted?] at hq
    | _ => exact hlock.elim

/-- Along a run, a step that locks faults if and only if nothing is left. -/
theorem run_fault_iff (h : (consumersSystem T).Run tr s) {pre post : List (SharedEvent T)}
    (htr : tr = pre ++ e :: post) (hlock : e.Locks) :
    (∃ t, e = .fault t) ↔ ¬ (takenEntries pre).length < (insertedEntries pre).length := by
  obtain ⟨s₁, s₂, hrun, hst⟩ := h.at_event pre post e htr
  obtain ⟨q, hrep, hledger⟩ := run_pending hrun
  rw [fault_iff hrep hst hlock, ← hledger, List.length_append, ← List.length_eq_zero_iff]
  omega

/-- **Pops are safe for several consumers if and only if `linknode_count` is
still positive whenever one of them takes the mutex**, in every run of any
number of threads. -/
theorem pops_safe_iff (h : (consumersSystem T).Run tr s) : PopsSafely tr s ↔ CountAtLock tr := by
  constructor
  · rintro hsafe pre e post rfl hlock
    by_contra hempty
    obtain ⟨t, rfl⟩ := (run_fault_iff h rfl hlock).mpr hempty
    exact hsafe.noFault t (by simp)
  · intro hcount
    obtain ⟨q, hrep, hledger⟩ := run_pending h
    refine ⟨?_, ?_, ⟨q, hledger⟩, ?_, ?_⟩
    · intro t ht
      obtain ⟨pre, post, rfl⟩ := List.mem_iff_append.mp ht
      exact (run_fault_iff h rfl trivial).mp ⟨t, rfl⟩
        (hcount pre (.fault t) post rfl trivial)
    · rw [hrep.count]
      omega
    · rintro pre t x datanode post rfl
      obtain ⟨s₁, s₂, hrun, hst⟩ := h.at_event pre post _ rfl
      obtain ⟨q₁, hrep₁, -⟩ := run_pending hrun
      obtain ⟨-, -, -, -, htake, -⟩ := shared_step hrep₁ hst
      exact ⟨s₁, s₂, hrun, hst, htake t x datanode rfl⟩
    · rintro pre t datanode post rfl hdata
      obtain ⟨s₁, s₂, hrun, hst⟩ := h.at_event pre post _ rfl
      obtain ⟨q₁, hrep₁, hledger₁⟩ := run_pending hrun
      obtain ⟨-, -, -, -, -, hskip⟩ := shared_step hrep₁ hst
      rw [← hledger₁, hskip t datanode rfl hdata, List.append_nil]

-- ---------------------------------------------------------------------------
-- Threads between the test and the lock
-- ---------------------------------------------------------------------------

def parkedWeight : Option SingleLinklist → ℕ
  | none => 0
  | some _ => 1

variable [Fintype T]

/-- How many threads have passed the test and not yet taken the mutex. -/
def parkedCount (s : SharedList T) : ℕ := total parkedWeight s.parked

/-- A thread passes the test only while fewer are parked than the list has entries. -/
def Room (s : SharedList T) (e : SharedEvent T) : Prop :=
  ∀ t, e = .pass t → (parkedCount s : Int) < s.head.linknodeCount

theorem parkedCount_park {t : T} (datanode : SingleLinklist) (h : s.parked t = none) :
    total parkedWeight (Function.update s.parked t (some datanode)) = parkedCount s + 1 := by
  have htotal := total_update (w := parkedWeight) (f := s.parked) t (some datanode)
  rw [h] at htotal
  exact htotal

theorem parkedCount_leave {t : T} {datanode : SingleLinklist} (h : s.parked t = some datanode) :
    total parkedWeight (Function.update s.parked t none) + 1 = parkedCount s := by
  have htotal := total_update (w := parkedWeight) (f := s.parked) t none
  rw [h] at htotal
  exact htotal

/-- An insert makes room, a region gives up what it takes. -/
theorem room_step {q : List Entry} (h : Rep s.heap s.head q) (hst : SharedStep s e s')
    (hroom : Room s e) (hle : (parkedCount s : Int) ≤ s.head.linknodeCount) :
    (parkedCount s' : Int) ≤ s'.head.linknodeCount := by
  obtain ⟨q', hrep', hq, -⟩ := shared_step h hst
  have hcount := h.count
  have hcount' := hrep'.count
  have hlen := congrArg List.length hq
  simp only [List.length_append] at hlen
  cases hst with
  | insert t id next d hparked hfresh hwf hrun =>
    simp only [SharedEvent.taken?, SharedEvent.inserted?, Option.toList, List.length_nil,
      List.length_singleton] at hlen
    show (parkedCount s : Int) ≤ _
    omega
  | skip t datanode hparked htest => exact hle
  | pass t datanode hparked htest =>
    have hlt := hroom t rfl
    have hpark := parkedCount_park datanode hparked
    show ((total parkedWeight (Function.update s.parked t (some datanode)) : ℕ) : Int) ≤
      s.head.linknodeCount
    omega
  | take t hparked hfit hfirst hrun =>
    have hleave := parkedCount_leave hparked
    simp only [SharedEvent.taken?, SharedEvent.inserted?, Option.toList, List.length_nil,
      List.length_singleton] at hlen
    show ((total parkedWeight (Function.update s.parked t none) : ℕ) : Int) ≤ _
    omega
  | fault t hparked hfit hrun =>
    have hleave := parkedCount_leave hparked
    show ((total parkedWeight (Function.update s.parked t none) : ℕ) : Int) ≤
      s.head.linknodeCount
    omega

/-- **Enough entries for the parked threads** is an invariant if no thread passes
the test without one left for it. -/
theorem run_parked_le (h : ((consumersSystem T).restrict Room).Run tr s) :
    (parkedCount s : Int) ≤ s.head.linknodeCount := by
  refine System.Run.state_invariant (S := (consumersSystem T).restrict Room)
    (I := fun s => (parkedCount s : Int) ≤ s.head.linknodeCount) ?_ ?_ h
  · rintro s ⟨⟨heap, sentinel, header, mutexInit, -, hinit⟩, hparked⟩
    have hnone : parkedCount s = 0 := total_eq_zero fun t => by rw [hparked]; rfl
    rw [hnone, (init_rep hinit).count]
    rfl
  · rintro s e s' ⟨tr, hrun⟩ hle ⟨hst, hroom⟩
    obtain ⟨q, hrep, -⟩ := run_pending hrun.of_restrict
    exact room_step hrep hst hroom hle

omit [Fintype T] in
theorem parked_of_locks (hst : SharedStep s e s') (hlock : e.Locks) :
    ∃ t datanode, s.parked t = some datanode := by
  cases hst with
  | take t hparked hfit hfirst hrun => exact ⟨t, _, hparked⟩
  | fault t hparked hfit hrun => exact ⟨t, _, hparked⟩
  | _ => exact hlock.elim

/-- In such a run every pop is safe. -/
theorem run_room (h : ((consumersSystem T).restrict Room).Run tr s) : PopsSafely tr s := by
  refine (pops_safe_iff h.of_restrict).mpr ?_
  rintro pre e post rfl hlock
  obtain ⟨s₁, s₂, hrun, hst, -⟩ := h.at_event pre post e rfl
  obtain ⟨t, datanode, hparked⟩ := parked_of_locks hst hlock
  have hle := run_parked_le hrun
  have hleave := parkedCount_leave hparked
  rw [run_count hrun.of_restrict] at hle
  omega

omit [DecidableEq T] in
theorem exists_parked {parked : T → Option SingleLinklist} (h : 0 < total parkedWeight parked) :
    ∃ t datanode, parked t = some datanode := by
  by_contra hnone
  push Not at hnone
  have hzero : total parkedWeight parked = 0 := total_eq_zero fun t => by
    rw [Option.eq_none_iff_forall_not_mem.mpr (hnone t)]
    rfl
  omega

/-- More parked threads than entries: if they all go on, one of them reads the
data of the sentinel. The induction is on the entries. -/
theorem fault_of_parked {q : List Entry} (h : (consumersSystem T).Run tr s)
    (hrep : Rep s.heap s.head q)
    (hfit : ∀ t datanode, s.parked t = some datanode →
      ∃ dst, datanode.data = some dst ∧ ∀ x ∈ q, x.2.Fits dst)
    (hmany : q.length < parkedCount s) :
    ∃ es s', (consumersSystem T).Run (tr ++ es) s' ∧ ∃ t, SharedEvent.fault t ∈ es := by
  induction q generalizing tr s with
  | nil =>
    obtain ⟨t, datanode, hparked⟩ := exists_parked hmany
    have hfirst : FirstFits ⟨s.heap, s.head⟩ datanode := firstFits_nil hrep datanode
    have hregion := (popRegion_empty hrep datanode).1
    exact ⟨[.fault t], _, h.step (.fault t hparked hfirst hregion), t, by simp⟩
  | cons x q ih =>
    obtain ⟨t, datanode, hparked⟩ := exists_parked (Nat.lt_of_le_of_lt (Nat.zero_le _) hmany)
    obtain ⟨dst, hdst, hfits⟩ := hfit t datanode hparked
    obtain ⟨hx, heap', head', hrun, hrep', -⟩ :=
      popRegion_entry hrep datanode hdst (hfits x (by simp))
    have hfirst : FirstFits ⟨s.heap, s.head⟩ datanode :=
      firstFits_cons hrep hdst (hfits x (by simp))
    have hstep := h.step (SharedStep.take t hparked hfirst hx hrun)
    have hleave := parkedCount_leave hparked
    obtain ⟨es, s', hrun', u, hu⟩ := ih hstep hrep' (by
      intro u datanode' hu
      rcases update_eq_cases hu with ⟨-, hnone⟩ | ⟨-, hu'⟩
      · simp at hnone
      · obtain ⟨dst', hdst', hfits'⟩ := hfit u datanode' hu'
        exact ⟨dst', hdst', fun y hy => hfits' y (List.mem_cons_of_mem _ hy)⟩) (by
      simp only [List.length_cons] at hmany
      show q.length < total parkedWeight (Function.update s.parked t none)
      omega)
    rw [List.append_assoc] at hrun'
    exact ⟨_, s', hrun', u, List.mem_append_right _ hu⟩

/-- A buffer of one byte. -/
def oneByteNode : SingleLinklist := ⟨none, some ⟨some [0], 0, 0, .other 0⟩⟩

def oneByteEntry : Entry := (1, ⟨some [7], 1, 5, .UART⟩)

/-- One entry, and both threads pass the test. -/
def twoParked : List (SharedEvent Bool) := [.insert true oneByteEntry, .pass true, .pass false]

theorem two_parked_run :
    ∃ s, (consumersSystem Bool).Run twoParked s ∧ Rep s.heap s.head [oneByteEntry] ∧
      (∀ t, s.parked t = some oneByteNode) ∧ parkedCount s = 2 := by
  have hwf : oneByteEntry.2.WF := ⟨[7], rfl, by decide, by decide⟩
  obtain ⟨heap', head', hinsert, hrep, -⟩ :=
    @insert_rep _ _ _ MessageList.new.rep 1 ⟨none, some oneByteEntry.2⟩ _ rfl rfl hwf
  have htest : popTest (some head') (some oneByteNode) = true := by
    refine popTest_iff.mpr ⟨?_, by simp [oneByteNode]⟩
    rw [hrep.count]
    decide
  have hinit : (consumersSystem Bool).Run []
      ⟨MessageList.new.heap, MessageList.new.head, fun _ => none⟩ :=
    .init ⟨MessageList.new_initial, rfl⟩
  have hinserted := hinit.step (SharedStep.insert true 1 none _ rfl rfl hwf hinsert)
  have hpassed := hinserted.step (SharedStep.pass true oneByteNode rfl htest)
  have hboth := hpassed.step (SharedStep.pass false oneByteNode rfl htest)
  exact ⟨_, hboth, hrep, fun t => by cases t <;> rfl, rfl⟩

theorem oneByteEntry_fits : oneByteEntry.2.Fits ⟨some [0], 0, 0, .other 0⟩ :=
  ⟨[0], rfl, by decide⟩

/-- The theorem at work: the first of the two threads takes the entry. -/
theorem pops_safe_iff_one :
    ∃ s datanode, (consumersSystem Bool).Run (twoParked ++ [.take true oneByteEntry datanode]) s ∧
      PopsSafely (twoParked ++ [.take true oneByteEntry datanode]) s := by
  obtain ⟨s, hrun, hrep, hparked, -⟩ := two_parked_run
  obtain ⟨hfirst, heap', head', hregion, -⟩ :=
    popRegion_entry hrep oneByteNode rfl oneByteEntry_fits
  have htake := hrun.step (SharedStep.take true (hparked true)
    (firstFits_cons hrep rfl oneByteEntry_fits) hfirst hregion)
  refine ⟨_, _, htake, (pops_safe_iff htake).mpr (CountAtLock.append_one ?_ fun _ => by decide)⟩
  rintro pre e post htr hlock
  have hmem : e ∈ twoParked := by rw [htr]; simp
  simp only [twoParked, List.mem_cons, List.not_mem_nil, or_false] at hmem
  rcases hmem with rfl | rfl | rfl <;> exact hlock.elim

/-- Two threads, one entry: the second pop reads the data of the sentinel. -/
theorem two_consumers_fault :
    ∃ tr s, (consumersSystem Bool).Run tr s ∧ ¬ PopsSafely tr s := by
  obtain ⟨s, hrun, hrep, hparked, hcount⟩ := two_parked_run
  obtain ⟨es, s', hrun', t, ht⟩ := fault_of_parked hrun hrep (by
    intro t datanode ht
    rw [hparked, Option.some.injEq] at ht
    subst ht
    refine ⟨_, rfl, fun x hx => ?_⟩
    rw [List.mem_singleton.mp hx]
    exact oneByteEntry_fits) (by rw [hcount]; decide)
  exact ⟨_, s', hrun', fun hsafe => hsafe.noFault t (List.mem_append_right _ ht)⟩

end Uartd.LinkList
