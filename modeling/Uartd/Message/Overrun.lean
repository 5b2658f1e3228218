import Uartd.Message.Sending

/-!
# Uartd — the buffer of send_out_handler

`ready_send_data` allocates a node of the message's own length;
`send_out_handler` owns one node of 1024 bytes, and the pop in between copies as
many bytes as the message has. The queue therefore never overruns the node in a
run whose calls of `ready_send_data` pass at most 1024 bytes
(`pops_whole_of_short`), and the pop of a longer message always does
(`pop_overruns`).
-/

namespace Uartd.Message

open Uartd.Lib Uartd.LinkList

variable {R P E : Type} [DecidableEq R] [DecidableEq P] {cfg : Config E}

/-- The pop `send_out_handler` makes next stays inside the 1024 bytes of its
node and delivers the oldest message whole. -/
def PopsWhole (s : State R P) : Prop :=
  s.sender = .toPop → ∃ node' list', s.send.list.Popped s.sendNode node' list' ∧
    (∃ buf, node'.pdata = some buf ∧ buf.length = 1024) ∧
    ∀ d, s.send.list.contents.head? = some d → d.bytes.length ≤ 1024 ∧
      node'.bytes = d.bytes ∧ node'.dataLen = d.dataLen ∧ node'.sendTo = d.sendTo

omit [DecidableEq R] [DecidableEq P] in
/-- A pop of a message of at most 1024 bytes. -/
theorem popsWhole_of_head {s : State R P} (h : SenderInv s)
    (hlen : ∀ d, s.send.list.contents.head? = some d → d.dataLen ≤ 1024) : PopsWhole s := by
  intro hs
  obtain ⟨buf, hbuf, hblock⟩ := h.block
  obtain ⟨node', list', hpop⟩ := MessageList.exists_popped s.send.list s.sendNode (by
    intro d rest hd
    have hle := hlen d (by rw [hd]; rfl)
    exact ⟨buf, hbuf, by omega⟩)
  obtain ⟨hblock', hnode⟩ := h.popped hs hpop
  refine ⟨node', list', hpop, hblock', fun d hd => ?_⟩
  rw [hd] at hnode
  obtain ⟨-, hwf, hdataLen, hbytes, hto⟩ := hnode
  have hle := hlen d hd
  have hcount := hwf.bytes_length
  exact ⟨by omega, hbytes, hdataLen, hto⟩

omit [DecidableEq R] [DecidableEq P] in
/-- **The pop of a longer message overruns the node.** -/
theorem pop_overruns {s : State R P} (h : SenderInv s) {d : DataInf}
    (hd : s.send.list.contents.head? = some d) (hlen : 1024 < d.dataLen) :
    singlelinklistPopNode s.send.list.heap (some s.send.list.head) (some ⟨none, some s.sendNode⟩) =
      none := by
  obtain ⟨buf, hbuf, hblock⟩ := h.block
  have hrep := s.send.list.rep
  cases hq : s.send.list.queue with
  | nil => simp [MessageList.contents, hq] at hd
  | cons e q =>
    rw [hq] at hrep
    have hed : e.2 = d := by
      rw [MessageList.contents, hq, List.map_cons, List.head?_cons] at hd
      exact Option.some.inj hd
    refine pop_overrun hrep ?_
    rintro ⟨buf', hbuf', hle⟩
    obtain rfl : buf = buf' := Option.some.inj (hbuf.symm.trans hbuf')
    rw [hed] at hle
    omega

/-- What is queued was inserted. -/
theorem queued_inserted {tr : List (Event R P)} {s : State R P}
    (h : (messageSystem R P cfg).Run tr s) {d : DataInf} (hd : d ∈ s.send.list.contents) :
    ∃ p, (p, d) ∈ sendInserted tr := by
  have hmem : d ∈ (sendInserted tr).map Prod.snd := by
    rw [← run_dequeued h]
    exact List.mem_append_right _ hd
  obtain ⟨⟨p, d'⟩, hp, rfl⟩ := List.mem_map.mp hmem
  exact ⟨p, hp⟩

/-- **The send queue does not overrun its consumer's buffer** in any run whose
calls of `ready_send_data` pass at most 1024 bytes; whenever the oldest message
is longer, the pop does. -/
theorem pops_whole_of_short {tr : List (Event R P)} {s : State R P}
    (h : (messageSystem R P cfg).Run tr s) :
    ((∀ p d, (p, d) ∈ sendInserted tr → d.dataLen ≤ 1024) → PopsWhole s) ∧
      (s.sender = .toPop → (PopsWhole s ↔
        ∀ d, s.send.list.contents.head? = some d → d.dataLen ≤ 1024)) := by
  have hinv := run_sender h
  constructor
  · intro hshort
    refine popsWhole_of_head hinv fun d hd => ?_
    obtain ⟨p, hp⟩ := queued_inserted h (List.mem_of_head? hd)
    exact hshort p d hp
  · intro hs
    refine ⟨fun hwhole d hd => ?_, popsWhole_of_head hinv⟩
    by_contra hlong
    obtain ⟨node', list', hpop, -⟩ := hwhole hs
    unfold MessageList.Popped at hpop
    rw [pop_overruns hinv hd (by omega)] at hpop
    simp at hpop

/-- A message of `n` bytes for the UART, and the call that queues it. -/
def messageOf (n : ℕ) : DataInf :=
  { pdata := some (List.replicate n 65), dataLen := n, recvFd := 0, sendTo := .UART }

theorem message_messageOf {n : ℕ} (h : 0 < n) :
    SendCall.message ⟨.UART, some (List.replicate n 65), n⟩ = some (messageOf n) := by
  have hne : n ≠ 0 := Nat.ne_of_gt h
  simp [SendCall.message, messageOf, hne]

theorem messageOf_wf (n : ℕ) : (messageOf n).WF :=
  ⟨_, rfl, Int.natCast_nonneg n, by rw [List.length_replicate]; exact Int.le_refl _⟩

/-- The theorem at work: a message that fills the buffer. -/
theorem pops_whole_of_short_full :
    ∃ s, (messageSystem Unit Unit noHandlers).Run (toPopTrace (messageOf 1024)) s ∧
      s.sender = .toPop ∧ PopsWhole s := by
  obtain ⟨s, hrun, hs, -, hcontents, -⟩ := to_pop_run (G := fun _ _ => True)
    (message_messageOf (by decide)) (messageOf_wf 1024) fun _ _ _ => trivial
  refine ⟨s, hrun.of_restrict, hs, (pops_whole_of_short hrun.of_restrict).1 ?_⟩
  rintro p d hd
  simp only [sendInserted, toPopTrace, insertions, List.filterMap_cons, Event.send?,
    MailboxEvent.inserted?, List.filterMap_nil, List.mem_singleton, Prod.mk.injEq] at hd
  rw [hd.2]
  exact Int.le_refl _

/-- One byte more: `ready_send_data` accepts it, and the pop overruns the node. -/
theorem long_message_overruns :
    ∃ tr s, (messageSystem Unit Unit noHandlers).Run tr s ∧ ¬ PopsWhole s := by
  obtain ⟨s, hrun, hs, -, hcontents, -⟩ := to_pop_run (G := fun _ _ => True)
    (message_messageOf (by decide)) (messageOf_wf 1025) fun _ _ _ => trivial
  refine ⟨_, s, hrun.of_restrict, fun hwhole => ?_⟩
  obtain ⟨node', list', hpop, -⟩ := hwhole hs
  have hover := pop_overruns (run_sender hrun.of_restrict) (d := messageOf 1025)
    (by rw [hcontents]; rfl) (by show (1024 : Int) < (1025 : ℕ); decide)
  unfold MessageList.Popped at hpop
  rw [hover] at hpop
  simp at hpop

end Uartd.Message
