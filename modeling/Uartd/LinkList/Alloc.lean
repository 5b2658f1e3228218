import Uartd.LinkList.Basic

/-!
# Uartd — the allocation of a node (linklist.c)

`singlelinklist_init_node` makes three allocations and undoes what it has done
when one of them fails. The heap of `Uartd.LinkList.Basic` keeps the three blocks
of a node as one cell; here they are apart, and the pointers between them are
followed, so that the clean-up at the label `fail` is translated as it stands.

* `initNode_ok`, `initNode_failed` — the two ends of the cell-level function;
* `initNodeBlocks_failed` — a call that returns NULL leaves every block as it was;
* `initNodeBlocks_refines` — the two levels agree on what is returned and on the
  node that is returned.
-/

namespace Uartd.LinkList

/-! ## The node as one cell -/

/-- The three `calloc` calls return memory. -/
def NodeAlloc.Succeeds (alloc : NodeAlloc) : Prop :=
  alloc.node ≠ none ∧ alloc.data = true ∧ alloc.pdata = true

instance (alloc : NodeAlloc) : Decidable alloc.Succeeds :=
  inferInstanceAs (Decidable (_ ∧ _ ∧ _))

/-- The address of the node is free. -/
def NodeAlloc.Fresh (alloc : NodeAlloc) (heap : Heap) : Prop :=
  ∀ id, alloc.node = some id → heap id = none

/-- What a new node holds. -/
def newData (bufLen : Int) : DataInf :=
  { pdata := some (List.replicate bufLen.toNat 0), dataLen := 0, recvFd := 0, sendTo := .other 0 }

theorem initNode_ok (heap : Heap) {alloc : NodeAlloc} {bufLen : Int} (h : alloc.Succeeds)
    (hlen : 0 ≤ bufLen) :
    ∃ id, alloc.node = some id ∧ singlelinklistInitNode heap alloc bufLen =
      (Function.update heap id (some ⟨none, some (newData bufLen)⟩), some id) := by
  obtain ⟨hnode, hdata, hpdata⟩ := h
  obtain ⟨id, hid⟩ := Option.ne_none_iff_exists'.mp hnode
  exact ⟨id, hid, by simp [singlelinklistInitNode, hid, hdata, hpdata, calloc, hlen, newData]⟩

/-- A call that returns NULL has freed what it allocated. -/
theorem initNode_failed {heap : Heap} {alloc : NodeAlloc} {bufLen : Int} (h : ¬ alloc.Succeeds)
    (hfresh : alloc.Fresh heap) : singlelinklistInitNode heap alloc bufLen = (heap, none) := by
  unfold singlelinklistInitNode
  cases hnode : alloc.node with
  | none => rfl
  | some id =>
    have hback : Function.update heap id none = heap := by
      rw [← hfresh id hnode]
      exact Function.update_eq_self id heap
    by_cases hdata : alloc.data = true
    · have hpdata : alloc.pdata = false := by
        by_contra hp
        exact h ⟨by simp [hnode], hdata, by simpa using hp⟩
      simp [hdata, hpdata, calloc, hback]
    · simp [hdata, hback]

/-! ## The three blocks of a node -/

/-- The address of a block. -/
abbrev Addr := ℕ

/-- A block, with the pointers it holds. -/
inductive HeapBlock where
  | node (next data : Option Addr)
  | dataInf (pdata : Option Addr) (dataLen recvFd : Int) (sendTo : Port)
  | buf (bytes : List UInt8)
  deriving DecidableEq, Repr

abbrev Blocks := Addr → Option HeapBlock

/-- `free(a)`. -/
def freeBlock (blocks : Blocks) (a : Addr) : Option Blocks :=
  (blocks a).map fun _ => Function.update blocks a none

/-- What the three `calloc` calls return. -/
structure BlockAlloc where
  node  : Option Addr
  data  : Option Addr
  pdata : Option Addr

/-- The label `fail` of `singlelinklist_init_node`. -/
def initNodeFail (blocks : Blocks) (node : Addr) : Option Blocks :=
  match blocks node with
  | some (.node next (some data)) =>
    match blocks data with
    | some (.dataInf (some pdata) len fd port) => do
      let blocks ← freeBlock blocks pdata
      let blocks := Function.update blocks data (some (.dataInf none len fd port))
      let blocks ← freeBlock blocks data
      let blocks := Function.update blocks node (some (.node next none))
      freeBlock blocks node
    | some (.dataInf none _ _ _) => do
      let blocks ← freeBlock blocks data
      let blocks := Function.update blocks node (some (.node next none))
      freeBlock blocks node
    | _ => none
  | some (.node _ none) => freeBlock blocks node
  | _ => none

/-- `singlelinklist_init_node` over the blocks. -/
def initNodeBlocks (blocks : Blocks) (alloc : BlockAlloc) (bufLen : Int) :
    Option (Blocks × Option Addr) :=
  match alloc.node with
  | none => some (blocks, none)
  | some node =>
    let blocks := Function.update blocks node (some (.node none none))
    match alloc.data with
    | none => do
      let blocks ← initNodeFail blocks node
      pure (blocks, none)
    | some data =>
      let blocks := Function.update blocks data (some (.dataInf none 0 0 (.other 0)))
      let blocks := Function.update blocks node (some (.node none (some data)))
      match alloc.pdata, calloc bufLen alloc.pdata.isSome with
      | some pdata, some bytes =>
        let blocks := Function.update blocks pdata (some (.buf bytes))
        let blocks := Function.update blocks data (some (.dataInf (some pdata) 0 0 (.other 0)))
        some (blocks, some node)
      | _, _ => do
        let blocks ← initNodeFail blocks node
        pure (blocks, none)

/-- The outcomes as the cell-level function is given them. -/
def BlockAlloc.outcome (alloc : BlockAlloc) : NodeAlloc :=
  { node := alloc.node, data := alloc.data.isSome, pdata := alloc.pdata.isSome }

/-- The addresses are free and different from each other. -/
structure BlockAlloc.Fresh (alloc : BlockAlloc) (blocks : Blocks) : Prop where
  node  : ∀ a, alloc.node = some a → blocks a = none
  data  : ∀ a, alloc.data = some a → blocks a = none ∧ alloc.node ≠ some a
  pdata : ∀ a, alloc.pdata = some a → blocks a = none ∧ alloc.node ≠ some a ∧ alloc.data ≠ some a

/-- The node at `a` is made of the blocks its pointers lead to. -/
def Blocks.Holds (blocks : Blocks) (a : Addr) (d : DataInf) : Prop :=
  ∃ next data pdata bytes, blocks a = some (.node next (some data)) ∧
    blocks data = some (.dataInf (some pdata) d.dataLen d.recvFd d.sendTo) ∧
    blocks pdata = some (.buf bytes) ∧ d.pdata = some bytes

variable {blocks : Blocks} {alloc : BlockAlloc} {bufLen : Int}

theorem update_fresh {a : Addr} (h : blocks a = none) : Function.update blocks a none = blocks := by
  rw [← h]
  exact Function.update_eq_self a blocks

/-- **No partially built node.** A call that fails frees each block it has
allocated; afterwards every block is as it was. -/
theorem initNodeBlocks_failed (hfresh : alloc.Fresh blocks) (h : ¬ alloc.outcome.Succeeds) :
    initNodeBlocks blocks alloc bufLen = some (blocks, none) := by
  unfold initNodeBlocks
  cases hnode : alloc.node with
  | none => rfl
  | some node =>
    have hback := update_fresh (hfresh.node node hnode)
    cases hdata : alloc.data with
    | none => simp [initNodeFail, freeBlock, hback]
    | some data =>
      obtain ⟨hfree, hne⟩ := hfresh.data data hdata
      have hne' : data ≠ node := by
        rintro rfl
        exact hne hnode
      have hpdata : alloc.pdata = none := by
        by_contra hp
        exact h ⟨by simp [BlockAlloc.outcome, hnode], by simp [BlockAlloc.outcome, hdata],
          by simpa [BlockAlloc.outcome, Option.isSome_iff_ne_none] using hp⟩
      -- the node and its data_inf are freed, in this order the other way round
      have hundo : Function.update (Function.update (Function.update (Function.update
          (Function.update (Function.update blocks node (some (.node none none))) data
            (some (.dataInf none 0 0 (.other 0)))) node (some (.node none (some data)))) data none)
          node (some (.node none none))) node none = blocks := by
        funext x
        by_cases hx : x = node
        · rw [hx, Function.update_self, hfresh.node node hnode]
        · by_cases hxd : x = data
          · rw [hxd]
            simp [hne', hfree]
          · simp [hx, hxd]
      simp only [hpdata, initNodeFail, freeBlock, Function.update_self, Function.update_of_ne hne',
        Option.map_some, Option.bind_eq_bind, Option.bind_some, Option.pure_def, hundo]

/-- A call that succeeds allocates the three blocks of a new node and no other. -/
theorem initNodeBlocks_ok (hfresh : alloc.Fresh blocks) (h : alloc.outcome.Succeeds)
    (hlen : 0 ≤ bufLen) :
    ∃ id blocks', initNodeBlocks blocks alloc bufLen = some (blocks', some id) ∧
      alloc.node = some id ∧ blocks'.Holds id (newData bufLen) ∧
      ∀ a, alloc.node ≠ some a → alloc.data ≠ some a → alloc.pdata ≠ some a →
        blocks' a = blocks a := by
  obtain ⟨hn, hd, hp⟩ := h
  obtain ⟨node, hnode⟩ : ∃ node, alloc.node = some node := Option.ne_none_iff_exists'.mp hn
  obtain ⟨data, hdata⟩ := Option.isSome_iff_exists.mp hd
  obtain ⟨pdata, hpdata⟩ := Option.isSome_iff_exists.mp hp
  obtain ⟨-, hdn⟩ := hfresh.data data hdata
  obtain ⟨-, hpn, hpd⟩ := hfresh.pdata pdata hpdata
  have hnd : node ≠ data := by rintro rfl; exact hdn hnode
  have hnp : node ≠ pdata := by rintro rfl; exact hpn hnode
  have hdp : data ≠ pdata := by rintro rfl; exact hpd hdata
  refine ⟨node, _, by simp [initNodeBlocks, hnode, hdata, hpdata, calloc, hlen]; rfl, hnode,
    ⟨none, data, pdata, List.replicate bufLen.toNat 0, ?_, ?_, ?_, rfl⟩, ?_⟩
  · simp [hnd, hnp]
  · simp [newData]
  · simp [hdp.symm]
  · intro a ha₁ ha₂ ha₃
    have h₁ : a ≠ node := by rintro rfl; exact ha₁ hnode
    have h₂ : a ≠ data := by rintro rfl; exact ha₂ hdata
    have h₃ : a ≠ pdata := by rintro rfl; exact ha₃ hpdata
    simp [h₁, h₂, h₃]

/-- **The two levels agree**: on the pointer that is returned, and on the node
behind it. -/
theorem initNodeBlocks_refines (hfresh : alloc.Fresh blocks) {heap : Heap}
    (hheap : alloc.outcome.Fresh heap) (hlen : 0 ≤ bufLen) :
    ∃ blocks', initNodeBlocks blocks alloc bufLen =
        some (blocks', (singlelinklistInitNode heap alloc.outcome bufLen).2) ∧
      ∀ id, (singlelinklistInitNode heap alloc.outcome bufLen).2 = some id →
        ∃ d, (singlelinklistInitNode heap alloc.outcome bufLen).1 id = some ⟨none, some d⟩ ∧
          blocks'.Holds id d := by
  by_cases h : alloc.outcome.Succeeds
  · obtain ⟨id, hid, hcell⟩ := initNode_ok heap h hlen
    obtain ⟨id', blocks', hrun, hid', hholds, -⟩ := initNodeBlocks_ok hfresh h hlen
    obtain rfl : id = id' := Option.some.inj (hid.symm.trans hid')
    rw [hcell]
    refine ⟨blocks', hrun, ?_⟩
    rintro x ⟨⟩
    exact ⟨_, Function.update_self _ _ _, hholds⟩
  · rw [initNode_failed h hheap]
    exact ⟨blocks, initNodeBlocks_failed hfresh h, by simp⟩

end Uartd.LinkList
