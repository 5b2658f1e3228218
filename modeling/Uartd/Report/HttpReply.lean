import Uartd.Lib.Malloc

/-!
# Uartd — the HTTP reply buffer (report_key.c)

`curl_init_and_reportdata` allocates one byte for the reply and prints it when
libcurl is done; `WriteMemoryCallback` grows it by each chunk that arrives.

* `perform_grows` — without a failing `realloc` the buffer is the chunks and a NUL,
  if there is a chunk at all: the first byte is not initialised;
* `callback_failed` — a failing `realloc` overwrites the pointer to the buffer;
* `http_reply_iff` — the two together, for every sequence of callbacks.

Sizes are natural numbers: the old block and the chunk are both in memory, so
their lengths and one more do not exceed the range of `size_t`. The options set on
the handle, the header list and what is printed on errors are left out.
-/

namespace Uartd.Report

open Uartd.Lib

structure MemoryStruct where
  memory : Option ℕ
  size   : ℕ
  deriving DecidableEq, Repr

/-- What libcurl passes to the callback, and what `realloc` returns in it. -/
structure Callback where
  contents  : List UInt8
  size      : ℕ
  nmemb     : ℕ
  length_eq : contents.length = size * nmemb
  realloc   : Option ℕ

/-- `WriteMemoryCallback`: the result, the heap and the struct `userp` points to. -/
def writeMemoryCallback (heap : Memory) (mem : MemoryStruct) (c : Callback) :
    Option (ℕ × Memory × MemoryStruct) := do
  let realsize := c.size * c.nmemb
  let (heap, memory) ← realloc heap mem.memory (mem.size + realsize + 1) c.realloc
  let mem := { mem with memory := memory }
  if mem.memory = none then
    pure (0, heap, mem)
  else do
    let heap ← writeBytes heap mem.memory mem.size c.contents
    let mem := { mem with size := mem.size + realsize }
    let heap ← writeBytes heap mem.memory mem.size [0]
    pure (realsize, heap, mem)

/-- `curl_easy_perform`: libcurl calls the callback zero or more times and stops
after a short return. The first component says that there was none. -/
def perform (heap : Memory) (mem : MemoryStruct) :
    List Callback → Option (Bool × Memory × MemoryStruct)
  | [] => some (true, heap, mem)
  | c :: cs => do
    let (ret, heap, mem) ← writeMemoryCallback heap mem c
    if ret < c.size * c.nmemb then pure (false, heap, mem) else perform heap mem cs

/-- `curl_init_and_reportdata`: what it prints of the reply, the result and the
heap. `memory` is what `malloc` returns, `curl` says whether there is a handle, and
`ok` whether the transfer succeeds if no callback cuts it short. -/
def curlInitAndReportdata (heap : Memory) (memory : Option ℕ) (curl : Bool) (cs : List Callback)
    (ok : Bool) : Option (Option (List UInt8) × Int × Memory) := do
  let (heap, memory) := malloc heap 1 memory
  let chunk : MemoryStruct := ⟨memory, 0⟩
  if curl = false then pure (none, -1, heap)
  else do
    let (complete, heap, chunk) ← perform heap chunk cs
    if complete && ok then do
      let block ← chunk.memory.bind heap
      let text ← readString block
      let heap ← free heap chunk.memory
      pure (some text, 0, heap)
    else do
      let heap ← free heap chunk.memory
      pure (none, 0, heap)

-- ---------------------------------------------------------------------------
-- One callback
-- ---------------------------------------------------------------------------

variable {heap : Memory} {mem : MemoryStruct} {text : List UInt8} {last : Option UInt8}
  {c : Callback} {cs : List Callback}

/-- The buffer is a block that holds `text` and one byte more. -/
def HoldsText (heap : Memory) (mem : MemoryStruct) (text : List UInt8) (last : Option UInt8) :
    Prop :=
  mem.size = text.length ∧ ∃ a, mem.memory = some a ∧ heap a = some (text.map some ++ [last])

/-- What was received so far is `text`; there may be no block if it is empty. -/
def Received (heap : Memory) (mem : MemoryStruct) (text : List UInt8) : Prop :=
  (mem = ⟨none, 0⟩ ∧ text = []) ∨ ∃ last, HoldsText heap mem text last

/-- The block is `kept` and one byte more. Without a block nothing of it was written. -/
def Holds (heap : Memory) (mem : MemoryStruct) (kept : Block) : Prop :=
  mem.size = kept.length ∧ ((mem.memory = none ∧ kept = List.replicate mem.size none) ∨
    ∃ a last, mem.memory = some a ∧ heap a = some (kept ++ [last]))

theorem Received.holds (h : Received heap mem text) : Holds heap mem (text.map some) := by
  rcases h with ⟨rfl, rfl⟩ | ⟨last, hsize, a, ha, hheap⟩
  · exact ⟨rfl, .inl ⟨rfl, rfl⟩⟩
  · exact ⟨by rw [hsize, List.length_map], .inr ⟨a, last, ha, hheap⟩⟩

/-- A new block keeps what there was, with room for `n` bytes and a NUL. -/
theorem realloc_holds {kept : Block} (h : Holds heap mem kept) (n b : ℕ) :
    ∃ heap₁ block, realloc heap mem.memory (mem.size + n + 1) (some b) = some (heap₁, some b) ∧
      heap₁ b = some (kept ++ block) ∧ block.length = n + 1 := by
  obtain ⟨hsize, ⟨hnone, hkept⟩ | ⟨a, last, ha, hheap⟩⟩ := h
  · refine ⟨_, List.replicate (n + 1) none, by rw [hnone]; rfl, ?_, List.length_replicate⟩
    rw [hkept, List.replicate_append_replicate]
    exact Function.update_self _ _ _
  · have hlen : (kept ++ [last]).length = mem.size + 1 := by
      rw [List.length_append, hsize]
      rfl
    have hgrow := realloc_grow hheap (show _ ≤ mem.size + n + 1 by rw [hlen]; omega) b
    rw [List.append_assoc] at hgrow
    refine ⟨_, _, by rw [ha]; exact hgrow, Function.update_self _ _ _, ?_⟩
    rw [List.length_append, List.length_replicate, hlen, List.length_singleton]
    omega

/-- The chunk and the NUL are written behind what the block holds. -/
theorem callback_writes {kept : Block} {b : ℕ} (h : Holds heap mem kept)
    (hrealloc : c.realloc = some b) :
    ∃ heap', writeMemoryCallback heap mem c =
        some (c.size * c.nmemb, heap', ⟨some b, mem.size + c.size * c.nmemb⟩) ∧
      heap' b = some (kept ++ c.contents.map some ++ [some 0]) := by
  obtain ⟨heap₁, block, hgrown, hheap, hblock⟩ := realloc_holds h (c.size * c.nmemb) b
  rw [← c.length_eq] at hblock
  obtain ⟨x, hx⟩ : ∃ x, block.drop c.contents.length = [x] :=
    List.length_eq_one_iff.mp (by rw [List.length_drop]; omega)
  have hchunk := writeBytes_append hheap (show c.contents.length ≤ block.length by omega)
  rw [← h.1, hx] at hchunk
  have hlen : (kept ++ c.contents.map some).length = mem.size + c.size * c.nmemb := by
    rw [List.length_append, List.length_map, h.1, c.length_eq]
  -- the heap after the chunk was written
  obtain ⟨heap₂, hheap₂⟩ :
      ∃ h, h = Function.update heap₁ b (some (kept ++ c.contents.map some ++ [x])) := ⟨_, rfl⟩
  rw [← hheap₂] at hchunk
  have hat : heap₂ b = some (kept ++ c.contents.map some ++ [x]) := by
    rw [hheap₂, Function.update_self]
  have hnul : writeBytes heap₂ (some b) (mem.size + c.size * c.nmemb) [0] =
      some (Function.update heap₂ b (some (kept ++ c.contents.map some ++ [some 0]))) := by
    rw [← hlen, writeBytes_append hat (show [(0 : UInt8)].length ≤ [x].length from Nat.le_refl 1),
      List.append_assoc (kept ++ _)]
    rfl
  refine ⟨_, ?_, Function.update_self b (some (kept ++ c.contents.map some ++ [some 0])) heap₂⟩
  unfold writeMemoryCallback
  simp only [hrealloc, hgrown, Option.bind_eq_bind, Option.bind_some, reduceCtorEq, if_false,
    hchunk, hnul]
  rfl

/-- **With memory** a callback adds its chunk, and there is a NUL behind it. -/
theorem callback_grows (h : Received heap mem text) (hrealloc : c.realloc ≠ none) :
    ∃ heap' mem', writeMemoryCallback heap mem c = some (c.size * c.nmemb, heap', mem') ∧
      HoldsText heap' mem' (text ++ c.contents) (some 0) := by
  obtain ⟨b, hb⟩ := Option.ne_none_iff_exists'.mp hrealloc
  obtain ⟨heap', hcall, hheap⟩ := callback_writes h.holds hb
  refine ⟨heap', _, hcall, ?_, b, rfl, ?_⟩
  · rw [List.length_append, c.length_eq, h.holds.1, List.length_map]
  · rw [hheap, List.map_append]

/-- **Without memory** it returns 0 and forgets the buffer, whatever it holds. -/
theorem callback_failed {kept : Block} (h : Holds heap mem kept) (hrealloc : c.realloc = none) :
    writeMemoryCallback heap mem c = some (0, heap, ⟨none, mem.size⟩) := by
  unfold writeMemoryCallback
  obtain ⟨-, ⟨hnone, -⟩ | ⟨a, last, ha, hheap⟩⟩ := h
  · simp only [hnone, hrealloc, realloc, malloc, Option.bind_eq_bind, Option.bind_some]
    rfl
  · simp only [ha, hrealloc, realloc, hheap, Option.bind_eq_bind, Option.bind_some]
    rfl

/-- Whatever `realloc` returns, a callback does not fault. -/
theorem callback_holds {kept : Block} (h : Holds heap mem kept) (c : Callback) :
    ∃ ret heap' mem' kept', writeMemoryCallback heap mem c = some (ret, heap', mem') ∧
      mem'.memory = c.realloc ∧ Holds heap' mem' kept' := by
  cases hc : c.realloc with
  | none =>
    exact ⟨_, _, _, List.replicate mem.size none, callback_failed h hc, rfl,
      List.length_replicate.symm, .inl ⟨rfl, rfl⟩⟩
  | some b =>
    obtain ⟨heap', hcall, hheap⟩ := callback_writes h hc
    refine ⟨_, heap', _, _, hcall, rfl, ?_, .inr ⟨b, _, rfl, hheap⟩⟩
    rw [List.length_append, List.length_map, ← h.1, c.length_eq]

-- ---------------------------------------------------------------------------
-- A transfer
-- ---------------------------------------------------------------------------

/-- What arrives in a transfer. -/
def replyText (cs : List Callback) : List UInt8 := cs.flatMap Callback.contents

/-- A callback that is not cut short is followed by the next. -/
theorem perform_cons {heap' : Memory} {mem' : MemoryStruct} {ret : ℕ}
    (h : writeMemoryCallback heap mem c = some (ret, heap', mem')) (cs : List Callback) :
    perform heap mem (c :: cs) =
      if ret < c.size * c.nmemb then some (false, heap', mem') else perform heap' mem' cs := by
  rw [perform, h]
  rfl

/-- **Without a failing `realloc`** the buffer holds the chunks and a NUL, as soon
as there was one. -/
theorem perform_grows (h : Received heap mem text) (hne : cs ≠ [])
    (hall : ∀ c ∈ cs, c.realloc ≠ none) :
    ∃ heap' mem', perform heap mem cs = some (true, heap', mem') ∧
      HoldsText heap' mem' (text ++ replyText cs) (some 0) := by
  induction cs generalizing heap mem text with
  | nil => exact absurd rfl hne
  | cons c cs ih =>
    rw [List.forall_mem_cons] at hall
    obtain ⟨heap', mem', hcall, hholds⟩ := callback_grows h hall.1
    rw [perform_cons hcall, if_neg (Nat.lt_irrefl _)]
    rcases eq_or_ne cs [] with rfl | hcs
    · exact ⟨heap', mem', rfl, by simpa [replyText] using hholds⟩
    · obtain ⟨heap'', mem'', hrun, hholds'⟩ := ih (.inr ⟨_, hholds⟩) hcs hall.2
      rw [List.append_assoc] at hholds'
      exact ⟨heap'', mem'', hrun, hholds'⟩

/-- When `realloc` fails in a callback of the transfer, it returns 0 and leaves
the buffer and the struct as they were, so that the buffer can be freed. -/
def KeepsOnFailure (heap : Memory) (mem : MemoryStruct) (cs : List Callback) : Prop :=
  ∀ before c after, cs = before ++ c :: after → ∀ heap' mem',
    perform heap mem before = some (true, heap', mem') → c.realloc = none →
      writeMemoryCallback heap' mem' c = some (0, heap', mem') ∧
        ∃ heap'', free heap' mem'.memory = some heap''

/-- No `realloc` fails while there is a block: `held` says whether there is one.
After a failure on a chunk that is not empty libcurl stops. -/
def NoLoss (held : Bool) : List Callback → Prop
  | [] => True
  | c :: cs =>
    match c.realloc with
    | some _ => NoLoss true cs
    | none => held = false ∧ (c.contents = [] → NoLoss false cs)

/-- The first callback, and the transfer behind it if it is not cut short. -/
theorem keepsOnFailure_cons {heap' : Memory} {mem' : MemoryStruct} {ret : ℕ}
    (h : writeMemoryCallback heap mem c = some (ret, heap', mem')) :
    KeepsOnFailure heap mem (c :: cs) ↔
      (c.realloc = none → (ret, heap', mem') = (0, heap, mem) ∧
        ∃ heap'', free heap mem.memory = some heap'') ∧
      (¬ ret < c.size * c.nmemb → KeepsOnFailure heap' mem' cs) := by
  constructor
  · intro hkeeps
    refine ⟨fun hfail => ?_, fun hnext before d after hcs heap'' mem'' hrun => ?_⟩
    · obtain ⟨hwrite, hfree⟩ := hkeeps [] c cs rfl heap mem rfl hfail
      exact ⟨Option.some.inj (h.symm.trans hwrite), hfree⟩
    · refine hkeeps (c :: before) d after (by rw [hcs]; rfl) heap'' mem'' ?_
      rw [perform_cons h, if_neg hnext]
      exact hrun
  · rintro ⟨hfirst, hrest⟩ before d after hcs heap'' mem'' hrun hfail
    cases before with
    | nil =>
      obtain ⟨rfl, rfl⟩ := List.cons.inj hcs
      obtain ⟨-, rfl, rfl⟩ : true = true ∧ heap = heap'' ∧ mem = mem'' := by
        simpa [perform] using hrun
      obtain ⟨heq, hfree⟩ := hfirst hfail
      rw [h, heq]
      exact ⟨rfl, hfree⟩
    | cons d before =>
      obtain ⟨rfl, htail⟩ := List.cons.inj hcs
      rw [perform_cons h] at hrun
      split at hrun
      · simp at hrun
      · rename_i hnext
        exact hrest hnext before _ after htail heap'' mem'' hrun hfail

/-- **The buffer survives every failure exactly if none happens while there is one.** -/
theorem keepsOnFailure_iff (h : Received heap mem text) (cs : List Callback) :
    KeepsOnFailure heap mem cs ↔ NoLoss mem.memory.isSome cs := by
  induction cs generalizing heap mem text with
  | nil =>
    refine iff_of_true (fun before c after hcs => ?_) trivial
    exact absurd hcs (by simp)
  | cons c cs ih =>
    rcases Option.eq_none_or_eq_some c.realloc with hfail | ⟨b, hb⟩
    · rw [keepsOnFailure_cons (callback_failed h.holds hfail), NoLoss, hfail]
      rcases h with ⟨rfl, rfl⟩ | ⟨last, -, a, ha, hheap⟩
      · -- there is nothing to lose
        have hempty : ¬ 0 < c.size * c.nmemb ↔ c.contents = [] := by
          rw [← c.length_eq, Nat.pos_iff_ne_zero, not_not, List.length_eq_zero_iff]
        have hkept : ∃ heap'', free heap (⟨none, 0⟩ : MemoryStruct).memory = some heap'' :=
          ⟨heap, rfl⟩
        have hnothing : Received heap ⟨none, 0⟩ [] := .inl ⟨rfl, rfl⟩
        have hrest := ih hnothing
        rw [hempty]
        simp only [true_implies, true_and, hkept, and_self, Option.isSome_none, hrest]
      · refine iff_of_false (fun hkeeps => ?_) fun hloss => ?_
        · have hmem := congrArg (fun r => r.2.2.memory) (hkeeps.1 rfl).1
          rw [ha] at hmem
          simp at hmem
        · rw [ha] at hloss
          simp at hloss
    · have hsome : c.realloc ≠ none := by rw [hb]; simp
      obtain ⟨heap', mem', hcall, hholds⟩ := callback_grows h hsome
      obtain ⟨a, ha, -⟩ := hholds.2
      have hrest := ih (.inr ⟨_, hholds⟩)
      rw [ha, Option.isSome_some] at hrest
      rw [keepsOnFailure_cons hcall, NoLoss, hb, hrest]
      simp

-- ---------------------------------------------------------------------------
-- The reply
-- ---------------------------------------------------------------------------

/-- What the reply buffer is to be. As long as no `realloc` fails it holds the
chunks and a NUL, and they can be printed; a failure leaves it as it was. -/
def ReplyProper (heap : Memory) (memory : Option ℕ) (cs : List Callback) : Prop :=
  ((∀ c ∈ cs, c.realloc ≠ none) → ∃ heap' mem' a block,
    perform (malloc heap 1 memory).1 ⟨(malloc heap 1 memory).2, 0⟩ cs = some (true, heap', mem') ∧
      mem'.memory = some a ∧ heap' a = some block ∧ mem'.size = (replyText cs).length ∧
      block.take mem'.size = (replyText cs).map some ∧ block[mem'.size]? = some (some 0) ∧
      curlInitAndReportdata heap memory true cs true =
        some (some ((replyText cs).takeWhile (· ≠ 0)), 0, Function.update heap' a none)) ∧
  KeepsOnFailure (malloc heap 1 memory).1 ⟨(malloc heap 1 memory).2, 0⟩ cs

theorem received_malloc (heap : Memory) (memory : Option ℕ) :
    Received (malloc heap 1 memory).1 ⟨(malloc heap 1 memory).2, 0⟩ [] := by
  cases memory with
  | none => exact .inl ⟨rfl, rfl⟩
  | some a => exact .inr ⟨none, rfl, a, rfl, Function.update_self _ _ _⟩

theorem isSome_malloc (heap : Memory) (memory : Option ℕ) :
    (malloc heap 1 memory).2.isSome = memory.isSome := by
  cases memory <;> rfl

/-- Without a callback the byte that is printed first was never written. -/
theorem not_replyProper_nil (heap : Memory) (memory : Option ℕ) : ¬ ReplyProper heap memory [] := by
  rintro ⟨hproper, -⟩
  obtain ⟨heap', mem', a, block, hrun, ha, hblock, hsize, -, hnul, -⟩ :=
    hproper fun _ hc => absurd hc List.not_mem_nil
  obtain ⟨-, rfl, rfl⟩ : true = true ∧ (malloc heap 1 memory).1 = heap' ∧
      (⟨(malloc heap 1 memory).2, 0⟩ : MemoryStruct) = mem' := by
    simpa [perform] using hrun
  cases memory with
  | none => simp [malloc] at ha
  | some b =>
    obtain rfl : b = a := Option.some.inj ha
    have hfirst : (malloc heap 1 (some b)).1 b = some [none] := Function.update_self _ _ _
    obtain rfl : [none] = block := Option.some.inj (hfirst.symm.trans hblock)
    simp at hnul

/-- The print and the release of a buffer that holds a text and its NUL. -/
theorem curlInitAndReportdata_prints {memory : Option ℕ} {heap' : Memory} {mem' : MemoryStruct}
    {a : ℕ} (hrun : perform (malloc heap 1 memory).1 ⟨(malloc heap 1 memory).2, 0⟩ cs =
      some (true, heap', mem'))
    (ha : mem'.memory = some a) (hheap : heap' a = some (text.map some ++ [some 0])) :
    curlInitAndReportdata heap memory true cs true =
      some (some (text.takeWhile (· ≠ 0)), 0, Function.update heap' a none) := by
  simp only [curlInitAndReportdata, hrun, ha, hheap, free, readString_terminated,
    Option.bind_eq_bind, Option.bind_some, Option.map_some, Bool.true_eq_false, if_false,
    Bool.and_self, if_true]
  rfl

/-- **The HTTP reply buffer is a proper string** exactly if there is a callback,
and no `realloc` fails while a block is held. -/
theorem http_reply_iff (heap : Memory) (memory : Option ℕ) (cs : List Callback) :
    ReplyProper heap memory cs ↔ cs ≠ [] ∧ NoLoss memory.isSome cs := by
  have hkeeps := keepsOnFailure_iff (received_malloc heap memory) cs
  rw [isSome_malloc] at hkeeps
  constructor
  · intro hproper
    refine ⟨?_, hkeeps.mp hproper.2⟩
    rintro rfl
    exact not_replyProper_nil heap memory hproper
  · rintro ⟨hne, hloss⟩
    refine ⟨fun hall => ?_, hkeeps.mpr hloss⟩
    obtain ⟨heap', mem', hrun, hsize, a, ha, hheap⟩ :=
      perform_grows (received_malloc heap memory) hne hall
    rw [List.nil_append] at hsize hheap
    have hlen : ((replyText cs).map some).length = mem'.size := by rw [List.length_map, hsize]
    refine ⟨heap', mem', a, _, hrun, ha, hheap, hsize, ?_, ?_,
      curlInitAndReportdata_prints hrun ha hheap⟩
    · rw [← hlen, List.take_left]
    · rw [← hlen, List.getElem?_concat_length]

/-- A reply without a body, and one of a byte for which there is no memory. -/
theorem http_reply_uninitialised :
    ¬ ReplyProper (fun _ => none) (some 1) [] ∧
      ¬ ReplyProper (fun _ => none) (some 1) [⟨[65], 1, 1, rfl, none⟩] := by
  refine ⟨not_replyProper_nil _ _, fun hproper => ?_⟩
  have hloss := (keepsOnFailure_iff (received_malloc _ (some 1)) _).mp hproper.2
  exact absurd hloss.1 (by simp [malloc])

end Uartd.Report
