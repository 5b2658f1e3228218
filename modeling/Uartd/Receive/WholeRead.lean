import Uartd.Receive.Rounds

/-!
# Uartd — what whole_read drops

`whole_read` asks for as much as its temporary buffer holds and looks only then
whether the chunk fits into the buffer of its caller. A chunk that does not fit
has been taken from the descriptor and is dropped. So what a call returns is
what it took exactly when everything fits with a byte to spare
(`whole_read_loses_nothing_iff`).

`wholeRead` is the loop around `wholeReadBody`, which is also what a worker of
the receive side does step by step (`wholeRead_steps`).
-/

namespace Uartd.Receive

open Uartd.Lib

variable {n queueMaxNum : ℕ} {needSockServer : Bool} {α : Type}

/-- What a call of `whole_read` did: the `c` bytes it left in `buf`, all bytes
its reads took from the descriptor, and the results of `read` it did not ask for. -/
structure WholeRead (α : Type) where
  buf   : List α
  taken : List α
  rest  : List (List α)

/-- The loop of `whole_read` over the results of `read`, `none` while the last
of them lets it go on. -/
def wholeReadLoop (maxlen : ℕ) : List α → List α → List (List α) → Option (WholeRead α)
  | _, _, [] => none
  | buf, taken, chunk :: chunks =>
    match wholeReadBody maxlen buf chunk with
    | some buf' => wholeReadLoop maxlen buf' (taken ++ chunk) chunks
    | none => some ⟨buf, taken ++ chunk, chunks⟩

def wholeRead (count : ℕ) (chunks : List (List α)) : Option (WholeRead α) :=
  wholeReadLoop count [] [] chunks

/-- The loop with `buf` read so far, and nothing dropped yet. -/
theorem wholeReadLoop_spec (maxlen : ℕ) (chunks : List (List α)) (buf : List α)
    (hchunks : ∀ chunk ∈ chunks, chunk ≠ []) :
    ∃ r, wholeReadLoop maxlen buf buf (chunks ++ [[]]) = some r ∧ r.buf <+: r.taken ∧
      r.taken ++ r.rest.flatten = buf ++ chunks.flatten ∧
      (r.buf = r.taken ↔ chunks = [] ∨ buf.length + chunks.flatten.length < maxlen) := by
  induction chunks generalizing buf with
  | nil =>
    refine ⟨⟨buf, buf ++ [], []⟩, rfl, ?_, ?_, ?_⟩
    · exact List.prefix_append _ _
    · simp
    · simp
  | cons chunk chunks ih =>
    have hchunk : chunk ≠ [] := hchunks chunk List.mem_cons_self
    rw [List.flatten_cons, List.length_append]
    by_cases hfits : buf.length + chunk.length < maxlen
    · have hbody : wholeReadBody maxlen buf chunk = some (buf ++ chunk) :=
        wholeReadBody_eq_some_iff.mpr ⟨hchunk, hfits, rfl⟩
      obtain ⟨r, hr, hpre, hall, hiff⟩ :=
        ih (buf ++ chunk) fun c hc => hchunks c (List.mem_cons_of_mem _ hc)
      refine ⟨r, ?_, hpre, by rw [hall, List.append_assoc], ?_⟩
      · rw [List.cons_append, wholeReadLoop, hbody]
        exact hr
      · rw [hiff, List.length_append]
        constructor
        · rintro (rfl | hlt)
          · exact .inr hfits
          · exact .inr (by omega)
        · rintro (hnil | hlt)
          · cases hnil
          · exact .inr (by omega)
    · -- the chunk is taken and dropped
      have hbody : wholeReadBody maxlen buf chunk = none :=
        wholeReadBody_eq_none_iff.mpr (.inr (Nat.not_lt.mp hfits))
      refine ⟨⟨buf, buf ++ chunk, chunks ++ [[]]⟩, ?_, List.prefix_append _ _, ?_, ?_⟩
      · rw [List.cons_append, wholeReadLoop, hbody]
      · simp
      · have hlost : buf ≠ buf ++ chunk := by simp [hchunk]
        refine iff_of_false hlost ?_
        rintro (hnil | hlt)
        · cases hnil
        · omega

/-- **whole_read returns what it took exactly if all of it fits with a byte to
spare.** For every buffer size and all results of `read`, chunks with bytes and
then 0 or -1: the call returns; what it returns is a prefix of what it took, and
what it took is the input up to the reads it did not make; and it returns all it
took if and only if there was nothing to read or the chunks together are shorter
than the buffer. -/
theorem whole_read_loses_nothing_iff (count : ℕ) (chunks : List (List α))
    (hchunks : ∀ chunk ∈ chunks, chunk ≠ []) :
    ∃ r, wholeRead count (chunks ++ [[]]) = some r ∧ r.buf <+: r.taken ∧
      r.taken ++ r.rest.flatten = chunks.flatten ∧
      (r.buf = r.taken ↔ chunks = [] ∨ chunks.flatten.length < count) := by
  obtain ⟨r, hr, hpre, hall, hiff⟩ := wholeReadLoop_spec count chunks [] hchunks
  rw [List.length_nil, Nat.zero_add] at hiff
  exact ⟨r, hr, hpre, hall, hiff⟩

/-- The theorem at work: two chunks that fit. -/
theorem whole_read_loses_nothing_two :
    ∃ r : WholeRead ℕ, wholeRead 4 [[1], [2, 3], []] = some r ∧ r.buf = r.taken := by
  obtain ⟨r, hr, -, -, hiff⟩ := whole_read_loses_nothing_iff 4 [[1], [2, 3]] (by decide)
  exact ⟨r, hr, hiff.mpr (.inr (by decide))⟩

/-- A first chunk as long as the buffer is taken and dropped. -/
theorem wholeRead_of_full {count : ℕ} {chunk : List α} (hfull : count ≤ chunk.length)
    (chunks : List (List α)) :
    wholeRead count (chunk :: chunks) = some ⟨[], chunk, chunks⟩ := by
  have hbody : wholeReadBody count [] chunk = none :=
    wholeReadBody_eq_none_iff.mpr (.inr (by rw [List.length_nil, Nat.zero_add]; exact hfull))
  rw [wholeRead, wholeReadLoop, hbody]
  rfl

/-- A burst of as many bytes as the buffer of `uart_connect_handler` has. -/
theorem whole_read_drops_burst : ¬ ∀ (count : ℕ) (chunks : List (List UInt8)),
    (∀ chunk ∈ chunks, chunk ≠ [] ∧ chunk.length ≤ tmpBufSize) →
    ∀ r, wholeRead count (chunks ++ [[]]) = some r → r.buf = r.taken := by
  intro hclaim
  have hlen : (List.replicate 1024 (65 : UInt8)).length = 1024 := List.length_replicate
  have hne : List.replicate 1024 (65 : UInt8) ≠ [] := List.ne_nil_of_length_eq_add_one hlen
  have hburst := wholeRead_of_full (Nat.le_of_eq hlen.symm) [[]]
  refine hne (hclaim 1024 [List.replicate 1024 65] ?_ _ hburst).symm
  intro chunk hchunk
  obtain rfl := List.mem_singleton.mp hchunk
  exact ⟨hne, by rw [hlen]; decide⟩

-- ---------------------------------------------------------------------------
-- The call in the receive side
-- ---------------------------------------------------------------------------

/-- What reads of the given sizes deliver, one after another. -/
def readsOf (inp : Input) : List ℕ → List (List InputByte)
  | [] => []
  | count :: counts => inp.chunk count :: readsOf (inp.advance count) counts

theorem chunk_append_unread (inp : Input) (count : ℕ) :
    inp.chunk count ++ (inp.advance count).unread = inp.unread := by
  rw [unread_advance]
  exact List.take_append_drop _ _

variable (queueMaxNum needSockServer) in
/-- A worker at the start of `whole_read`, or on its way through it, takes the
steps of the loop. -/
theorem wholeRead_steps {w : Fin n} (counts : List ℕ)
    (hcounts : ∀ count ∈ counts, count ≤ tmpBufSize) {s : State n} {buf taken : List InputByte}
    (hw : s.handler w = .wholeRead buf) {r : WholeRead InputByte}
    (hr : wholeReadLoop recvBufSize buf taken (readsOf (s.input .uart) counts) = some r) :
    ∃ es s', ((receiveSystem n queueMaxNum needSockServer).startAt s).Run es s' ∧
      s'.handler w = .toAdd r.buf ∧
      taken ++ (s.input .uart).unread = r.taken ++ (s'.input .uart).unread := by
  induction counts generalizing s buf taken with
  | nil => cases hr
  | cons count counts ih =>
    have h₀ : ((receiveSystem n queueMaxNum needSockServer).startAt s).Run [] s := .init rfl
    have hcount : count ≤ tmpBufSize := hcounts count List.mem_cons_self
    have hinput : Function.update s.input .uart ((s.input .uart).advance count) Fd.uart =
        (s.input .uart).advance count := Function.update_self _ _ _
    have hall : taken ++ (s.input .uart).unread = taken ++ (s.input .uart).chunk count ++
        (Function.update s.input .uart ((s.input .uart).advance count) Fd.uart).unread := by
      rw [hinput, List.append_assoc, chunk_append_unread]
    rw [readsOf, wholeReadLoop] at hr
    cases hbody : wholeReadBody recvBufSize buf ((s.input .uart).chunk count) with
    | none =>
      rw [hbody] at hr
      obtain rfl := Option.some.inj hr
      exact ⟨_, _, h₀.step (Step.uartBreak w count hw hcount hbody), Function.update_self _ _ _,
        hall⟩
    | some buf' =>
      rw [hbody, ← hinput] at hr
      have hstore := h₀.step (Step.uartStore w count hw hcount hbody)
      obtain ⟨es, s', hrun, hdone, hrest⟩ := ih
        (fun c hc => hcounts c (List.mem_cons_of_mem _ hc)) (s := { s with
          input := Function.update s.input .uart ((s.input .uart).advance count)
          handler := Function.update s.handler w (.wholeRead buf') })
        (Function.update_self _ _ _) hr
      exact ⟨_, s', hstore.append hrun, hdone, hall.trans hrest⟩

end Uartd.Receive
