import Uartd.Message.Wakeups

/-!
# Uartd — the node of send_out_handler

`send_out_handler` reuses one node. `SenderInv` says what it holds at each
program point: nothing between two iterations (length 0), the message just
popped, or nothing again if the pop found the queue empty. Its destination is
not part of the clean-up, so after an empty pop it is the one of an earlier
message.

An iteration that finds the queue empty then calls a send operation with no
bytes (`stale_pop_unjustified`), unless nothing was ever sent before.
`run_justified` is what holds when no such pop happens.
-/

namespace Uartd.Message

open Uartd.Lib Uartd.LinkList

variable {R P E : Type} [DecidableEq R] [DecidableEq P] {cfg : Config E}

/-- What the node holds at a program point of `send_out_handler`. -/
def SenderPc.NodeOk : SenderPc → DataInf → Prop
  | .waiting, node => node.dataLen = 0
  | .toPop, node => node.dataLen = 0
  | .toSend none, node => node.dataLen = 0
  | .toSend (some d), node =>
    0 < d.dataLen ∧ d.WF ∧ node.dataLen = d.dataLen ∧ node.bytes = d.bytes ∧
      node.sendTo = d.sendTo
  | .toClear, _ => True

structure SenderInv (s : State R P) : Prop where
  queued : ∀ d ∈ s.send.list.contents, 0 < d.dataLen
  block  : ∃ buf, s.sendNode.pdata = some buf ∧ buf.length = 1024
  node   : s.sender.NodeOk s.sendNode

theorem memset_eq {block : Option (List UInt8)} {buf : List UInt8} {n : ℕ} (h : block = some buf)
    (hlen : n ≤ buf.length) : memset block n = some (List.replicate n 0 ++ buf.drop n) := by
  rw [memset, h, Option.bind_some, if_pos hlen]

theorem memset_length {block : Option (List UInt8)} {buf buf' : List UInt8} {n : ℕ}
    (hblock : block = some buf) (h : memset block n = some buf') : buf'.length = buf.length := by
  rw [memset, hblock, Option.bind_some] at h
  split at h
  · rw [Option.some.injEq] at h
    rw [← h, List.length_append, List.length_replicate, List.length_drop]
    omega
  · simp at h

/-- A queue only gets what is inserted into it. -/
theorem ChannelStep.mem_contents {c c' : Channel P} {e : MailboxEvent DataInf P}
    (h : ChannelStep c e c') {d : DataInf} (hd : d ∈ c'.list.contents) :
    d ∈ c.list.contents ∨ ∃ p, e = .insert p d := by
  cases h with
  | insert p d' _ hins =>
    rw [hins.contents, List.mem_append, List.mem_singleton] at hd
    rcases hd with hd | rfl
    · exact .inl hd
    · exact .inr ⟨p, rfl⟩
  | pop hpop =>
    rw [hpop.contents] at hd
    exact .inl (List.mem_of_mem_tail hd)
  | _ => exact .inl hd

omit [DecidableEq R] [DecidableEq P] in
/-- What a pop leaves in the node. -/
theorem SenderInv.popped {s : State R P} {node' : DataInf} {list' : MessageList}
    (h : SenderInv s) (hpc : s.sender = .toPop)
    (hpop : s.send.list.Popped s.sendNode node' list') :
    (∃ buf, node'.pdata = some buf ∧ buf.length = 1024) ∧
      (SenderPc.toSend s.send.list.contents.head?).NodeOk node' := by
  obtain ⟨buf, hbuf, hlen⟩ := h.block
  have hnode := h.node
  rw [hpc] at hnode
  rcases hpop.cases with ⟨hnil, -, rfl⟩ | ⟨d, rest, hcons, -, hwf, hfit, rfl⟩
  · rw [hnil]
    exact ⟨h.block, hnode⟩
  · rw [hcons]
    obtain ⟨buf', hbuf', hlen'⟩ := hwf.deliver_block hbuf hfit
    exact ⟨⟨buf', hbuf', hlen'.trans hlen⟩, h.queued d (by rw [hcons]; simp), hwf, rfl,
      hwf.deliver_bytes, rfl⟩

theorem sender_step {s s' : State R P} {e : Event R P} (h : SenderInv s) (hst : Step cfg s e s') :
    SenderInv s' := by
  -- the send queue moved, and what was inserted has a length
  have hqueue : ∀ {send'} {d : MailboxEvent DataInf (Option P)}, ChannelStep s.send d send' →
      (∀ p x, d = .insert p x → 0 < x.dataLen) →
      ∀ x ∈ send'.list.contents, 0 < x.dataLen := by
    intro send' d hst hins x hx
    rcases hst.mem_contents hx with hx | ⟨p, hp⟩
    · exact h.queued x hx
    · exact hins p x hp
  have hmessage : ∀ {c : SendCall} {d : DataInf} {p : Option P}, c.message = some d →
      ∀ p' x, (MailboxEvent.insert p d : MailboxEvent DataInf (Option P)) = .insert p' x →
        0 < x.dataLen := by
    intro c d p hc p' x hx
    cases hx
    obtain ⟨hpos, data, -, rfl⟩ := SendCall.message_eq_some hc
    exact hpos
  cases hst with
  | reply hp hc hst => exact ⟨hqueue hst (hmessage hc), h.block, h.node⟩
  | replySignal hst => exact ⟨hqueue hst (by simp), h.block, h.node⟩
  | readySend p c hc hst => exact ⟨hqueue hst (hmessage hc), h.block, h.node⟩
  | readySendSignal p hst => exact ⟨hqueue hst (by simp), h.block, h.node⟩
  | @senderWait send' e hs hw hst =>
    refine ⟨hqueue hst ?_, h.block, h.node⟩
    rintro p x rfl
    exact hw.elim
  | senderUnlock hs hst =>
    have hnode := h.node
    rw [hs] at hnode
    exact ⟨hqueue hst (by simp), h.block, hnode⟩
  | senderPop hs hpop =>
    obtain ⟨hblock, hnode⟩ := h.popped hs hpop
    refine ⟨?_, hblock, hnode⟩
    exact hqueue (.pop hpop) (by simp)
  | sendDuer hs _ => exact ⟨h.queued, h.block, trivial⟩
  | sendUart ret hs _ _ => exact ⟨h.queued, h.block, trivial⟩
  | sendOther hs _ _ => exact ⟨h.queued, h.block, trivial⟩
  | clear hs hmem =>
    obtain ⟨buf, hbuf, hlen⟩ := h.block
    exact ⟨h.queued, ⟨_, rfl, (memset_length hbuf hmem).trans hlen⟩, rfl⟩
  | _ => exact ⟨h.queued, h.block, h.node⟩

omit [DecidableEq R] [DecidableEq P] in
theorem sender_init {s : State R P} (hlist : s.send.list.Initial) (hsender : s.sender = .waiting)
    (hnode : s.sendNode = consumerNode) : SenderInv s where
  queued d hd := by
    rw [hlist.contents] at hd
    simp at hd
  block := by
    rw [hnode]
    exact ⟨_, rfl, List.length_replicate⟩
  node := by
    rw [hsender, hnode]
    rfl

theorem run_sender {tr : List (Event R P)} {s : State R P}
    (h : (messageSystem R P cfg).Run tr s) : SenderInv s := by
  refine System.Run.state_invariant (I := SenderInv) ?_ ?_ h
  · rintro s ⟨-, -, -, hsend, hsender, hnode⟩
    exact sender_init hsend.1 hsender hnode
  · intro s e s' _ hinv hst
    exact sender_step hinv hst

omit [DecidableEq R] [DecidableEq P] in
/-- The clean-up never leaves the node's block. -/
theorem clear_fits {s : State R P} (h : SenderInv s) :
    ∃ buf, memset s.sendNode.pdata 1024 = some buf := by
  obtain ⟨buf, hbuf, hlen⟩ := h.block
  exact ⟨_, memset_eq hbuf (Nat.le_of_eq hlen.symm)⟩

-- ---------------------------------------------------------------------------
-- Send operations
-- ---------------------------------------------------------------------------

/-- A send operation is made in an iteration that dequeued a message, with that
message's destination and bytes, of which there is at least one. -/
def Event.Justified : Event R P → Prop
  | .sendToDueros m bytes => ∃ d, m = some d ∧ d.sendTo = .DUER ∧ bytes = d.bytes ∧ bytes ≠ []
  | .write m bytes _ => ∃ d, m = some d ∧ d.sendTo = .UART ∧ bytes = d.bytes ∧ bytes ≠ []
  | _ => True

/-- Not a pop on an empty queue with an old destination in the node. -/
def NotStale (s : State R P) (e : Event R P) : Prop :=
  e = .send (.pop none) → s.sendNode.sendTo ≠ .DUER ∧ s.sendNode.sendTo ≠ .UART

/-- After an empty pop the node names no port. -/
def NoOldPort (s : State R P) : Prop :=
  s.sender = .toSend none → s.sendNode.sendTo ≠ .DUER ∧ s.sendNode.sendTo ≠ .UART

theorem noOldPort_step {s s' : State R P} {e : Event R P} (h : NoOldPort s)
    (hst : Step cfg s e s') (hstale : NotStale s e) : NoOldPort s' := by
  intro hpc
  cases hst with
  | senderUnlock hs hst => simp at hpc
  | senderPop hs hpop =>
    simp only [SenderPc.toSend.injEq] at hpc
    rcases hpop.cases with ⟨-, -, rfl⟩ | ⟨d, rest, hcons, -⟩
    · exact hstale (by rw [hpc])
    · rw [hcons] at hpc
      simp at hpc
  | sendDuer hs _ => simp at hpc
  | sendUart ret hs _ _ => simp at hpc
  | sendOther hs _ _ => simp at hpc
  | clear hs hmem => simp at hpc
  | _ => exact h hpc

/-- The send operations of a step are justified unless the node names an old port. -/
theorem justified_of_step {s s' : State R P} {e : Event R P} (hinv : SenderInv s)
    (hport : NoOldPort s) (hst : Step cfg s e s') : e.Justified := by
  have hbytes : ∀ {d : DataInf}, s.sender = .toSend (some d) →
      s.sendNode.bytes = d.bytes ∧ s.sendNode.sendTo = d.sendTo ∧ s.sendNode.bytes ≠ [] := by
    intro d hs
    have hnode := hinv.node
    rw [hs] at hnode
    obtain ⟨hpos, hwf, -, hbytes, hto⟩ := hnode
    refine ⟨hbytes, hto, ?_⟩
    intro hnil
    have hlen := hwf.bytes_length
    rw [← hbytes, hnil] at hlen
    simp only [List.length_nil] at hlen
    omega
  cases hst with
  | @sendDuer m hs hto =>
    cases m with
    | none => exact absurd hto (hport hs).1
    | some d =>
      obtain ⟨hb, ht, hne⟩ := hbytes hs
      exact ⟨d, rfl, ht.symm.trans hto, hb, hne⟩
  | @sendUart m ret hs hto _ =>
    cases m with
    | none => exact absurd hto (hport hs).2
    | some d =>
      obtain ⟨hb, ht, hne⟩ := hbytes hs
      exact ⟨d, rfl, ht.symm.trans hto, hb, hne⟩
  | _ => trivial

/-- **No send operation without a message**, in any run in which no pop finds
the queue empty while the node still names the port of an earlier message. -/
theorem run_justified {tr : List (Event R P)} {s : State R P}
    (h : ((messageSystem R P cfg).restrict NotStale).Run tr s) : ∀ e ∈ tr, e.Justified := by
  have hinv : NoOldPort s ∧ ∀ e ∈ tr, e.Justified := by
    refine System.Run.invariant (S := (messageSystem R P cfg).restrict NotStale)
      (I := fun tr s => NoOldPort s ∧ ∀ e ∈ tr, e.Justified) ?_ ?_ h
    · rintro s ⟨-, -, -, -, hsender, -⟩
      refine ⟨fun hpc => ?_, by simp⟩
      rw [hsender] at hpc
      simp at hpc
    · rintro tr s e s' hrun ⟨hport, hall⟩ ⟨hst, hstale⟩
      refine ⟨noOldPort_step hport hst hstale, fun x hx => ?_⟩
      rcases List.mem_append.mp hx with hx | hx
      · exact hall x hx
      · rw [List.mem_singleton.mp hx]
        exact justified_of_step (run_sender hrun.of_restrict) hport hst
  exact hinv.2

/-- A pop on an empty queue with an old port in the node is followed by a send
operation that has no message. -/
theorem stale_pop_unjustified {s s' : State R P} {e : Event R P}
    (hst : Step cfg s e s') (hstale : ¬ NotStale s e) :
    ∃ e' s'', Step cfg s' e' s'' ∧ ¬ e'.Justified := by
  have hcases : e = .send (.pop none) ∧
      (s.sendNode.sendTo = .DUER ∨ s.sendNode.sendTo = .UART) := by
    unfold NotStale at hstale
    tauto
  obtain ⟨he, hport⟩ := hcases
  cases hst with
  | senderPop hs hpop =>
    simp only [Event.send.injEq, MailboxEvent.pop.injEq] at he
    rcases hpop.cases with ⟨-, -, rfl⟩ | ⟨d, rest, hcons, -⟩
    · -- the node is as it was, and the switch reads its destination
      rcases hport with hduer | huart
      · refine ⟨_, _, .sendDuer rfl hduer, ?_⟩
        rintro ⟨d, hd, -⟩
        rw [he] at hd
        simp at hd
      · refine ⟨_, _, .sendUart (-1) rfl huart (.inl rfl), ?_⟩
        rintro ⟨d, hd, -⟩
        rw [he] at hd
        simp at hd
    · rw [hcons] at he
      simp at he
  | senderWait _ hw _ =>
    simp only [Event.send.injEq] at he
    rw [he] at hw
    exact hw.elim
  | _ => simp at he

-- ---------------------------------------------------------------------------
-- A send operation without a message
-- ---------------------------------------------------------------------------

/-- One byte for the UART. -/
def oneByte : DataInf := { pdata := some [65], dataLen := 1, recvFd := 0, sendTo := .UART }

def oneByteTrace : List (Event Unit Unit) :=
  [.send (.insert (some ()) oneByte), .send .lock, .send (.test false), .send .unlock,
    .send (.pop (some oneByte))]

/-- A message is queued, and `send_out_handler` finds the queue not empty. -/
def toPopTrace (d : DataInf) : List (Event Unit Unit) :=
  [.send (.insert (some ()) d), .send .lock, .send (.test false), .send .unlock]

/-- A run up to the point where `send_out_handler` pops the only message; it
meets every condition its events meet. -/
theorem to_pop_run {G : State Unit Unit → Event Unit Unit → Prop} {c : SendCall} {d : DataInf}
    (hc : c.message = some d) (hwf : d.WF) (hG : ∀ s, ∀ e ∈ toPopTrace d, G s e) :
    ∃ s, ((messageSystem Unit Unit noHandlers).restrict G).Run (toPopTrace d) s ∧
      s.sender = .toPop ∧ s.sendNode = consumerNode ∧ s.send.list.contents = [d] ∧
      s.send.wait = .unlocked := by
  obtain ⟨l, hl⟩ := MessageList.exists_inserted .new 1 rfl hwf
  have hcontents : l.contents = [d] := hl.contents
  have hinit : ((messageSystem Unit Unit noHandlers).restrict G).Run [] start :=
    .init (start_initial noHandlers)
  have hinsert := hinit.step ⟨Step.readySend () c hc (.insert (some ()) d rfl hl),
    hG _ _ (by simp [toPopTrace])⟩
  have hlock := hinsert.step ⟨Step.senderWait (e := .lock) rfl trivial (.lock rfl),
    hG _ _ (by simp [toPopTrace])⟩
  have htest := hlock.step ⟨Step.senderWait (e := .test false) rfl trivial
    (.testNonempty rfl (MessageList.empty_eq_zero_iff.mpr (by
      show l.contents ≠ []
      rw [hcontents]
      simp))), hG _ _ (by simp [toPopTrace])⟩
  have hunlock := htest.step ⟨Step.senderUnlock rfl (.unlock rfl),
    hG _ _ (by simp [toPopTrace])⟩
  exact ⟨_, hunlock, rfl, rfl, hcontents, rfl⟩

/-- A run up to the point where `send_out_handler` has popped the only message
and not yet written it; it meets every condition its events meet. -/
theorem popped_one_run {G : State Unit Unit → Event Unit Unit → Prop}
    (hG : ∀ s, ∀ e ∈ oneByteTrace, G s e) :
    ∃ s, ((messageSystem Unit Unit noHandlers).restrict G).Run oneByteTrace s ∧
      s.sender = .toSend (some oneByte) ∧ s.sendNode.sendTo = .UART ∧
      s.sendNode.bytes = [65] ∧ s.sendNode.dataLen = 1 ∧ s.send.wait = .unlocked ∧
      s.send.list.contents = [] := by
  have hwf : oneByte.WF := ⟨[65], rfl, by decide, by decide⟩
  have hmessage : SendCall.message ⟨.UART, some [65], 1⟩ = some oneByte := rfl
  have htrace : oneByteTrace = toPopTrace oneByte ++ [.send (.pop (some oneByte))] := rfl
  obtain ⟨s, hrun, hs, hnode, hcontents, hwait⟩ := to_pop_run hmessage hwf fun s e he =>
    hG s e (htrace ▸ List.mem_append_left _ he)
  have hhead : s.send.list.contents.head? = some oneByte := by rw [hcontents]; rfl
  obtain ⟨node, l, hpop⟩ := MessageList.exists_popped s.send.list s.sendNode (by
    intro d rest hd
    rw [hcontents, List.cons.injEq] at hd
    rw [← hd.1, hnode]
    exact ⟨_, rfl, by rw [List.length_replicate]; decide⟩)
  have hpopped := hrun.step ⟨Step.senderPop hs hpop, hG _ _ (by simp [oneByteTrace, hhead])⟩
  rcases hpop.cases with ⟨hnil, -⟩ | ⟨d, rest, hcons, hrest, -, -, hd⟩
  · rw [hcontents] at hnil
    simp at hnil
  · rw [hcontents, List.cons.injEq] at hcons
    obtain ⟨rfl, rfl⟩ := hcons
    subst hd
    rw [hhead] at hpopped
    exact ⟨_, hpopped, rfl, rfl, hwf.deliver_bytes, rfl, hwait, hrest⟩

/-- The theorem at work: one message for the UART is written. -/
theorem run_justified_one :
    ∃ s, ((messageSystem Unit Unit noHandlers).restrict NotStale).Run
        (oneByteTrace ++ [.write (some oneByte) [65] 1]) s ∧
      ∀ e ∈ oneByteTrace ++ [.write (some oneByte) [65] 1], e.Justified := by
  obtain ⟨s, hrun, hs, hto, hbytes, hlen, -, -⟩ := popped_one_run (G := NotStale) (by
    intro s e he hpop
    subst hpop
    simp [oneByteTrace] at he)
  have hwrite := hrun.step ⟨Step.sendUart 1 hs hto (.inr ⟨by decide, Int.le_of_eq hlen.symm⟩), by
    intro hpop
    simp at hpop⟩
  rw [hbytes] at hwrite
  exact ⟨_, hwrite, run_justified hwrite⟩

/-- An iteration that finds the queue empty, goes to sleep and is woken for no
reason: it pops nothing. -/
theorem spurious_iteration {tr : List (Event R P)} {s : State R P}
    (h : (messageSystem R P cfg).Run tr s) (hs : s.sender = .waiting)
    (hwait : s.send.wait = .unlocked) (hnil : s.send.list.contents = []) :
    ∃ tr' s', (messageSystem R P cfg).Run (tr ++ tr') s' ∧ s'.sender = .toSend none ∧
      s'.sendNode = s.sendNode := by
  have hlock := h.step (Step.senderWait (e := .lock) hs trivial (.lock hwait))
  have htest := hlock.step (Step.senderWait (e := .test true) hs trivial
    (.testEmpty rfl (MessageList.empty_ne_zero_iff.mpr hnil)))
  have hsleep := htest.step (Step.senderWait (e := .sleep) hs trivial (.sleep rfl))
  have hwoken := hsleep.step (Step.senderWait (e := .spurious) hs trivial (.spurious rfl))
  have hrelock := hwoken.step (Step.senderWait (e := .relock) hs trivial (.relock rfl))
  have hunlock := hrelock.step (Step.senderUnlock hs (.unlock rfl))
  obtain ⟨node, l, hpop⟩ := MessageList.exists_popped s.send.list s.sendNode (by
    intro d rest hd
    rw [hnil] at hd
    simp at hd)
  have hpopped := hunlock.step (Step.senderPop rfl hpop)
  rcases hpop.cases with ⟨-, -, rfl⟩ | ⟨d, rest, hcons, -⟩
  · have hhead : s.send.list.contents.head? = none := by rw [hnil]; rfl
    rw [hhead] at hpopped
    simp only [List.append_assoc] at hpopped
    exact ⟨_, _, hpopped, rfl, rfl⟩
  · rw [hnil] at hcons
    simp at hcons

/-- A spurious wake-up after one message for the UART: the next iteration pops
nothing and writes to the UART again, with length 0. -/
theorem unjustified_write_reachable :
    ∃ tr s, (messageSystem Unit Unit noHandlers).Run tr s ∧
      Event.write none [] 0 ∈ tr ∧ ¬ (Event.write none [] 0 : Event Unit Unit).Justified := by
  obtain ⟨s, hrun, hs, hto, -, hlen, hwait, hnil⟩ :=
    popped_one_run (G := fun _ _ => True) (fun _ _ _ => trivial)
  have hrun := hrun.of_restrict
  have hwrite := hrun.step (Step.sendUart 1 hs hto (.inr ⟨by decide, Int.le_of_eq hlen.symm⟩))
  obtain ⟨buf, hmem⟩ := clear_fits (run_sender hrun)
  have hclear := hwrite.step (Step.clear rfl hmem)
  obtain ⟨tr, s', hagain, hs', hnode⟩ := spurious_iteration hclear rfl hwait hnil
  -- the node was reset, but it still names the UART
  have hto' : s'.sendNode.sendTo = .UART := by rw [hnode]; exact hto
  have hlen' : s'.sendNode.dataLen = 0 := by rw [hnode]
  have hbytes : s'.sendNode.bytes = [] := by rw [hnode]; rfl
  have hbad := hagain.step
    (Step.sendUart 0 hs' hto' (.inr ⟨Int.le_refl 0, Int.le_of_eq hlen'.symm⟩))
  rw [hbytes] at hbad
  refine ⟨_, _, hbad, List.mem_append_right _ (List.mem_singleton.mpr rfl), ?_⟩
  rintro ⟨d, hd, -⟩
  simp at hd

end Uartd.Message
