import Uartd.Message.Dispatch
import Uartd.Message.Overrun

/-!
# Uartd — the threads of the message side

Which thread takes a step, and that the two consumers always have one: where a
consumer is not asleep, what it does next does not fault, if the messages fit
(`exists_process_step`, `exists_sender_step`). A message of the receive queue
has at most 1024 bytes, one of the send queue must have at most 1024.
-/

namespace Uartd.Message

open Uartd.Lib Uartd.LinkList

variable {R P E : Type} [DecidableEq R] [DecidableEq P] {cfg : Config E}

/-- The threads of the message side. -/
inductive Thread (R P : Type) where
  | handler (r : R)
  | process
  | sender
  | other (p : P)

/-- The thread that takes a step. -/
def Event.thread : Event R P → Thread R P
  | .recv (.insert r _) | .recv (.signal r) => .handler r
  | .recv _ | .parse _ _ | .refused _ | .parsed => .process
  | .send (.insert none _) | .send (.signal none) => .process
  | .send (.insert (some p) _) | .send (.signal (some p)) => .other p
  | .send _ | .sendToDueros _ _ | .write _ _ _ | .dropped _ | .clear => .sender

/-- Only a receiving handler inserts and signals in the receive queue. -/
theorem recvProducer_step {s s' : DispatchState R P} {e : DispatchEvent R P E}
    (hst : DispatchStep cfg s e s') (hthread : ∀ r, e.event.thread ≠ .handler r) :
    s'.base.recv.producer = s.base.recv.producer := by
  cases hst with
  | parse _ _ _ => rfl
  | base hst _ =>
    cases hst with
    | receive r fd data _ hchan => exact absurd rfl (hthread r)
    | receiveSignal r hchan => exact absurd rfl (hthread r)
    | processWait _ hwait hchan =>
      cases hchan with
      | insert _ _ _ _ => exact hwait.elim
      | signal _ _ => exact hwait.elim
      | _ => rfl
    | processUnlock _ hchan =>
      cases hchan
      rfl
    | _ => rfl

/-! ## The calls of the handlers -/

/-- What every handler of the tables does in every call of `ready_send_data`. -/
def Config.Always (cfg : Config E) (Q : SendCall → Prop) : Prop :=
  ∀ entry ∈ cfg.uartHandle ++ cfg.pipeHandle, ∀ env data, ∀ c ∈ entry.handler env data, Q c

/-- A call passes a block as long as it says. -/
def SendCall.Covered (c : SendCall) : Prop := ∀ data, c.data = some data → c.len ≤ data.length

theorem dataParse_always {Q : SendCall → Prop} (h : cfg.Always Q) (env : E) (src : DataInf) :
    ∀ c ∈ dataParse cfg env src, Q c := by
  intro c hc
  obtain ⟨entry, hentry, hcall⟩ := List.mem_flatMap.mp hc
  refine h entry ?_ env _ c hcall
  have htable := (List.mem_filter.mp hentry).1
  split at htable
  · exact List.mem_append_left _ htable
  · split at htable
    · exact List.mem_append_right _ htable
    · cases htable

/-- The calls `data_process` still has to make. -/
theorem run_calls {Q : SendCall → Prop} (hQ : cfg.Always Q) {tr : List (Event R P)}
    {s : State R P} (h : (messageSystem R P cfg).Run tr s) :
    ∀ calls, s.process = .handling calls → ∀ c ∈ calls, Q c := by
  refine System.Run.state_invariant
    (I := fun s : State R P => ∀ calls, s.process = .handling calls → ∀ c ∈ calls, Q c) ?_ ?_ h
  · rintro s ⟨-, hprocess, -⟩ calls hcalls
    rw [hprocess] at hcalls
    cases hcalls
  · intro s e s' _ ih hst calls hcalls
    cases hst with
    | parse env _ =>
      cases hcalls
      exact dataParse_always hQ env _
    | reply hp _ _ | replyRefused hp _ _ =>
      cases hcalls
      exact fun c hc => ih _ hp c (List.mem_cons_of_mem _ hc)
    | processPop _ _ _ _ | processUnlock _ _ | parsed _ _ => cases hcalls
    | _ => exact ih calls hcalls

omit [DecidableEq R] [DecidableEq P] in
theorem mem_of_sendInserted {tr : List (Event R P)} {p : Option P} {d : DataInf}
    (h : (p, d) ∈ sendInserted tr) : .send (.insert p d) ∈ tr := by
  obtain ⟨m, hm, hinserted⟩ := List.mem_filterMap.mp h
  obtain ⟨e, he, hsend⟩ := List.mem_filterMap.mp hm
  cases m with
  | insert p' d' =>
    obtain ⟨rfl, rfl⟩ := Prod.mk.inj (Option.some.inj hinserted)
    cases e with
    | send e =>
      obtain rfl := Option.some.inj hsend
      exact he
    | _ => cases hsend
  | _ => cases hinserted

/-- What `data_process` inserts in the send queue a handler has called for. -/
theorem reply_called {Q : SendCall → Prop} (hQ : cfg.Always Q) {tr : List (Event R P)}
    {s : State R P} (h : (messageSystem R P cfg).Run tr s) {d : DataInf}
    (hd : (none, d) ∈ sendInserted tr) : ∃ c, Q c ∧ c.message = some d := by
  obtain ⟨pre, post, rfl⟩ := List.append_of_mem (mem_of_sendInserted hd)
  obtain ⟨s₁, s₂, hrun, hst⟩ := h.at_event pre post _ rfl
  cases hst with
  | reply hp hc _ => exact ⟨_, run_calls hQ hrun _ hp _ List.mem_cons_self, hc⟩
  | senderWait _ hwait _ => exact hwait.elim

/-- The messages of the send queue fit if those of the other threads do. -/
theorem run_send_fits (hshort : cfg.Always fun c => c.len ≤ 1024) {tr : List (Event R P)}
    {s : State R P} (h : (messageSystem R P cfg).Run tr s)
    (hothers : ∀ p d, (some p, d) ∈ sendInserted tr → d.dataLen ≤ 1024) :
    ∀ d ∈ s.send.list.contents, d.dataLen ≤ 1024 := by
  intro d hd
  obtain ⟨p, hp⟩ := queued_inserted h hd
  cases p with
  | some p => exact hothers p d hp
  | none =>
    obtain ⟨c, hc, hmessage⟩ := reply_called hshort h hp
    obtain ⟨-, data, -, rfl⟩ := SendCall.message_eq_some hmessage
    exact hc

/-! ## Waiting -/

/-- A consumer in its wait that is not asleep and has not passed has a next step. -/
theorem exists_wait (c : Channel P) (hasleep : c.wait ≠ .asleep) (hpassed : c.wait ≠ .passed) :
    ∃ e c', ofWait e ∧ ChannelStep c e c' := by
  cases hw : c.wait with
  | unlocked => exact ⟨.lock, _, trivial, .lock hw⟩
  | locked =>
    by_cases hempty : isSinglelinklistEmpty c.list.head = 0
    · exact ⟨.test false, _, trivial, .testNonempty hw hempty⟩
    · exact ⟨.test true, _, trivial, .testEmpty hw hempty⟩
  | toWait => exact ⟨.sleep, _, trivial, .sleep hw⟩
  | asleep => exact absurd hw hasleep
  | woken => exact ⟨.relock, _, trivial, .relock hw⟩
  | passed => exact absurd hw hpassed

omit [DecidableEq R] [DecidableEq P] in
theorem thread_recv_wait {e : MailboxEvent DataInf R} (h : ofWait e) :
    (Event.recv e : Event R P).thread = .process := by
  cases e with
  | insert _ _ | signal _ => exact h.elim
  | _ => rfl

omit [DecidableEq R] [DecidableEq P] in
theorem thread_send_wait {e : MailboxEvent DataInf (Option P)} (h : ofWait e) :
    (Event.send e : Event R P).thread = .sender := by
  cases e with
  | insert _ _ | signal _ => exact h.elim
  | _ => rfl

/-! ## The next step of a consumer -/

/-- **data_process does not fault.** -/
theorem exists_process_step (hcfg : cfg.Fits) (hcovered : cfg.Always SendCall.Covered)
    {tr : List (DispatchEvent R P E)} {s : DispatchState R P}
    (h : (dispatchSystem R P cfg).Run tr s)
    (hfits : ∀ d ∈ s.base.recv.list.contents, d.dataLen ≤ 1024) (env : E)
    {id : NodeId} (hid : s.base.send.list.heap id = none) (hawake : s.base.recv.wait ≠ .asleep) :
    ∃ e s', DispatchStep cfg s e s' ∧ e.event.thread = .process := by
  have hinv := run_dispatch hcfg h
  have hholds := (run_holds hinv.run).1
  cases hp : s.base.process with
  | waiting =>
    by_cases hpassed : s.base.recv.wait = .passed
    · obtain ⟨s', hst⟩ := process_pop_fits cfg hinv.block hp hpassed hfits
      exact ⟨_, _, .base hst nofun, rfl⟩
    · obtain ⟨e, c', hwait, hst⟩ := exists_wait s.base.recv hawake hpassed
      exact ⟨_, _, .base (.processWait hp hwait hst) nofun, thread_recv_wait hwait⟩
  | popped m =>
    rw [hp] at hholds
    exact ⟨_, _, .base (.processUnlock hp (.unlock hholds)) nofun, rfl⟩
  | parsing m =>
    obtain ⟨analy', calls, hrun, -⟩ := hinv.parsed hcfg hp
    exact ⟨.parse m env calls, _, .parse env hp hrun, rfl⟩
  | handling calls =>
    cases hproducer : s.base.send.producer none with
    | inserted => exact ⟨_, _, .base (.replySignal (.signal none hproducer)) nofun, rfl⟩
    | idle =>
      cases calls with
      | nil => exact ⟨_, _, .base (.parsed hp hproducer) nofun, rfl⟩
      | cons c calls =>
        cases hmessage : c.message with
        | none => exact ⟨_, _, .base (.replyRefused hp hmessage hproducer) nofun, rfl⟩
        | some d =>
          have hc := run_calls hcovered hinv.run _ hp c List.mem_cons_self
          obtain ⟨list', hlist⟩ := MessageList.exists_inserted _ id hid
            (SendCall.message_wf hmessage hc)
          exact ⟨_, _, .base (.reply hp hmessage (.insert none d hproducer hlist)) nofun, rfl⟩

/-- **send_out_handler does not fault.** -/
theorem exists_sender_step {tr : List (Event R P)} {s : State R P}
    (h : (messageSystem R P cfg).Run tr s)
    (hfits : ∀ d ∈ s.send.list.contents, d.dataLen ≤ 1024) (hawake : s.send.wait ≠ .asleep) :
    ∃ e s', Step cfg s e s' ∧ e.thread = .sender := by
  have hinv := run_sender h
  have hholds := (run_holds h).2
  cases hs : s.sender with
  | waiting =>
    by_cases hpassed : s.send.wait = .passed
    · exact ⟨_, _, .senderUnlock hs (.unlock hpassed), rfl⟩
    · obtain ⟨e, c', hwait, hst⟩ := exists_wait s.send hawake hpassed
      exact ⟨_, _, .senderWait hs hwait hst, thread_send_wait hwait⟩
  | toPop =>
    obtain ⟨s', hst⟩ := sender_pop_fits hinv hs hfits
    exact ⟨_, _, hst, rfl⟩
  | toSend m =>
    by_cases hduer : s.sendNode.sendTo = .DUER
    · exact ⟨_, _, .sendDuer hs hduer, rfl⟩
    · by_cases huart : s.sendNode.sendTo = .UART
      · exact ⟨_, _, .sendUart (-1) hs huart (.inl rfl), rfl⟩
      · exact ⟨_, _, .sendOther hs hduer huart, rfl⟩
  | toClear =>
    obtain ⟨buf, hbuf⟩ := clear_fits hinv
    exact ⟨_, _, .clear hs hbuf, rfl⟩

end Uartd.Message
