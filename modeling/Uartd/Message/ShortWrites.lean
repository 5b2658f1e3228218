import Uartd.Message.Sending

/-!
# Uartd — writes the UART cuts short

The UART is not blocking, so a write may accept a first part of a message or
nothing. `send_out_handler` makes one attempt and then clears its node: the rest
of the message is gone (`short_writes_in_order_iff`), although the handler
compares what was accepted with what was to be sent and reports an error.

An accepted byte is numbered by its place in the stream of the messages taken
from the queue, so that a byte of a later message is not mistaken for the
missing byte of an earlier one.
-/

namespace Uartd.Message

open Uartd.Lib Uartd.LinkList

variable {R P E : Type} [DecidableEq R] [DecidableEq P] {cfg : Config E}

/-- The bytes the UART accepted, with their places in the stream of the messages. -/
def acceptedAt (tr : List (Event R P)) : List (UInt8 × ℕ) :=
  sent (numberedFrom 0 (uartWrites tr))

/-- **The UART gets the messages in order exactly while no byte is accepted
after a short write.** In every run: the bytes accepted, with their places in
the messages for the UART taken from the queue, are a first part of these
messages' bytes if and only if no write accepts a byte after one that accepted
less than it was given; and then so is the byte stream of the UART. -/
theorem short_writes_in_order_iff {tr : List (Event R P)} {s : State R P}
    (h : (messageSystem R P cfg).Run tr s) :
    (acceptedAt tr <+: (uartBytes (sendDequeued tr)).zipIdx ↔ InOrder (uartWrites tr)) ∧
      (acceptedAt tr).map Prod.fst = uartStream tr ∧
      (InOrder (uartWrites tr) → uartStream tr <+: uartBytes (sendDequeued tr)) := by
  have hstream : (acceptedAt tr).map Prod.fst = uartStream tr := by
    rw [acceptedAt, sent_numberedFrom_fst, sent_uartWrites]
  have hoffered : (offered (uartWrites tr)).zipIdx <+: (uartBytes (sendDequeued tr)).zipIdx := by
    rw [← run_offered h, List.zipIdx_append]
    exact List.prefix_append _ _
  have hiff := sent_prefix_iff 0 (uartWrites tr)
  refine ⟨?_, hstream, ?_⟩
  · rw [← hiff]
    constructor
    · intro hpre
      refine List.prefix_of_prefix_length_le hpre hoffered ?_
      rw [List.length_zipIdx, ← List.length_map (f := Prod.fst), sent_numberedFrom_fst]
      exact sent_length_le _
    · intro hpre
      exact hpre.trans hoffered
  · intro horder
    have hpre := ((hiff.mpr horder).trans hoffered).map Prod.fst
    rw [sent_numberedFrom_fst, sent_uartWrites, List.zipIdx_map_fst] at hpre
    exact hpre

/-- The theorem at work: the message is sent in one piece. -/
theorem short_writes_in_order_iff_one :
    ∃ tr s, (messageSystem Unit Unit noHandlers).Run tr s ∧ InOrder (uartWrites tr) ∧
      uartStream tr = [65] ∧ uartStream tr <+: uartBytes (sendDequeued tr) := by
  obtain ⟨s, hrun, hs, hto, hbytes, hlen, -, -⟩ :=
    popped_one_run (G := fun _ _ => True) (fun _ _ _ => trivial)
  have hwrite := hrun.of_restrict.step
    (Step.sendUart 1 hs hto (.inr ⟨by decide, Int.le_of_eq hlen.symm⟩))
  rw [hbytes] at hwrite
  have horder : InOrder (uartWrites
      (oneByteTrace ++ [(.write (some oneByte) [65] 1 : Event Unit Unit)])) :=
    List.pairwise_singleton _ _
  exact ⟨_, _, hwrite, horder, rfl, (short_writes_in_order_iff hwrite).2.2 horder⟩

-- ---------------------------------------------------------------------------
-- A message cut short
-- ---------------------------------------------------------------------------

/-- The events of an iteration of `send_out_handler` up to the pop. -/
def popTrace (d : DataInf) : List (Event R P) :=
  [.send .lock, .send (.test false), .send .unlock, .send (.pop (some d))]

/-- An iteration with a message in the queue, up to its send operation. -/
theorem pop_next {tr : List (Event R P)} {s : State R P} (h : (messageSystem R P cfg).Run tr s)
    (hs : s.sender = .waiting) (hwait : s.send.wait = .unlocked) {d : DataInf}
    {rest : List DataInf} (hcons : s.send.list.contents = d :: rest) (hlen : d.dataLen ≤ 1024) :
    ∃ s', (messageSystem R P cfg).Run (tr ++ popTrace d) s' ∧ s'.sender = .toSend (some d) ∧
      s'.send.wait = .unlocked ∧ s'.send.list.contents = rest ∧
      s'.sendNode.sendTo = d.sendTo ∧ s'.sendNode.bytes = d.bytes ∧
      s'.sendNode.dataLen = d.dataLen := by
  have hlock := h.step (Step.senderWait (e := .lock) hs trivial (.lock hwait))
  have htest := hlock.step (Step.senderWait (e := .test false) hs trivial
    (.testNonempty rfl (MessageList.empty_eq_zero_iff.mpr (by rw [hcons]; simp))))
  have hunlock := htest.step (Step.senderUnlock hs (.unlock rfl))
  obtain ⟨buf, hbuf, hblock⟩ := (run_sender h).block
  obtain ⟨node, l, hpop⟩ := MessageList.exists_popped s.send.list s.sendNode (by
    intro d' rest' hd'
    obtain ⟨rfl, -⟩ := List.cons.inj (hcons.symm.trans hd')
    exact ⟨buf, hbuf, by omega⟩)
  have hpopped := hunlock.step (Step.senderPop rfl hpop)
  have hhead : s.send.list.contents.head? = some d := by rw [hcons]; rfl
  rcases hpop.cases with ⟨hnil, -⟩ | ⟨d', rest', hcons', hrest, hwf, -, hnode⟩
  · rw [hcons] at hnil
    cases hnil
  · obtain ⟨rfl, rfl⟩ := List.cons.inj (hcons.symm.trans hcons')
    subst hnode
    rw [hhead] at hpopped
    simp only [List.append_assoc] at hpopped
    exact ⟨_, hpopped, rfl, rfl, hrest, rfl, hwf.deliver_bytes, rfl⟩

/-- Two bytes for the UART. -/
def twoBytes : DataInf := { pdata := some [65, 66], dataLen := 2, recvFd := 0, sendTo := .UART }

/-- Two messages for the UART are queued. -/
theorem queued_two : ∃ s, (messageSystem Unit Unit noHandlers).Run
      [.send (.insert (some ()) twoBytes), .send (.signal (some ())),
        .send (.insert (some ()) oneByte), .send (.signal (some ()))] s ∧
    s.sender = .waiting ∧ s.send.wait = .unlocked ∧
    s.send.list.contents = [twoBytes, oneByte] := by
  obtain ⟨l, hl⟩ := MessageList.exists_inserted .new 1
    (d := twoBytes) rfl ⟨[65, 66], rfl, by decide, by decide⟩
  obtain ⟨l', hl'⟩ := MessageList.exists_inserted l 2
    (d := oneByte) (hl.fresh (by decide) rfl) ⟨[65], rfl, by decide, by decide⟩
  have hinsert := (start_run noHandlers).step (Step.readySend () ⟨.UART, some [65, 66], 2⟩ rfl
    (.insert (some ()) twoBytes rfl hl))
  have hsignal := hinsert.step (Step.readySendSignal () (.signal (some ()) rfl))
  have hinsert' := hsignal.step (Step.readySend () ⟨.UART, some [65], 1⟩ rfl
    (.insert (some ()) oneByte rfl hl'))
  have hsignal' := hinsert'.step (Step.readySendSignal () (.signal (some ()) rfl))
  refine ⟨_, hsignal', rfl, rfl, ?_⟩
  show l'.contents = _
  rw [hl'.contents, hl.contents]
  rfl

/-- Of the first message the UART takes one byte; then the second one is sent. -/
theorem short_write_loses_rest : ¬ ∀ tr s, (messageSystem Unit Unit noHandlers).Run tr s →
    uartStream tr <+: uartBytes (sendDequeued tr) := by
  intro hclaim
  obtain ⟨s, hrun, hs, hwait, hqueue⟩ := queued_two
  obtain ⟨s₁, hpop, hs₁, hwait₁, hqueue₁, hto₁, hbytes₁, hlen₁⟩ :=
    pop_next hrun hs hwait hqueue (by decide)
  have hshort := hpop.step (Step.sendUart 1 hs₁ hto₁ (.inr ⟨by decide, by rw [hlen₁]; decide⟩))
  obtain ⟨buf, hmem⟩ := clear_fits (run_sender hpop)
  have hclear := hshort.step (Step.clear rfl hmem)
  obtain ⟨s₂, hpop', hs₂, -, -, hto₂, hbytes₂, hlen₂⟩ :=
    pop_next hclear rfl hwait₁ hqueue₁ (by decide)
  have hnext := hpop'.step (Step.sendUart 1 hs₂ hto₂ (.inr ⟨by decide, by rw [hlen₂]; decide⟩))
  have hlost := hclaim _ _ hnext
  rw [hbytes₁, hbytes₂] at hlost
  revert hlost
  decide

end Uartd.Message
