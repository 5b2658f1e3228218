import Uartd.Message.Basic

/-!
# Uartd — wake-ups of the two consumers

Both consumers test their queue under their mutex and wait for a condition that
the producers signal without it. A producer that inserts and signals between
the test and the wait is not heard. `InTime` excludes exactly such signals, and
`run_in_time_not_stuck` says that nothing else can go wrong; `late_signal_lost`
that each of them lets a consumer sleep on a queue that is not empty.
-/

namespace Uartd.Message

open Uartd.Lib Uartd.LinkList

variable {R P E : Type} [DecidableEq R] [DecidableEq P] {cfg : Config E}

-- ---------------------------------------------------------------------------
-- Each queue of the system is a mailbox
-- ---------------------------------------------------------------------------

/-- A step of the system, seen from the receive queue. -/
theorem recv_matches {s s' : State R P} {e : Event R P} (h : Step cfg s e s') :
    System.Matches (mailbox DataInf R) (fun t => t = s'.recv.mailbox) Event.recv? e
      s.recv.mailbox := by
  unfold System.Matches
  cases h with
  | receive r fd data _ hst => exact ⟨_, hst.mailbox, rfl⟩
  | receiveSignal r hst => exact ⟨_, hst.mailbox, rfl⟩
  | processWait _ _ hst => exact ⟨_, hst.mailbox, rfl⟩
  | processPop _ _ _ hpop => exact ⟨_, (ChannelStep.pop hpop).mailbox, rfl⟩
  | processUnlock _ hst => exact ⟨_, hst.mailbox, rfl⟩
  | _ => rfl

/-- A step of the system, seen from the send queue. -/
theorem send_matches {s s' : State R P} {e : Event R P} (h : Step cfg s e s') :
    System.Matches (mailbox DataInf (Option P)) (fun t => t = s'.send.mailbox) Event.send? e
      s.send.mailbox := by
  unfold System.Matches
  cases h with
  | reply _ _ hst => exact ⟨_, hst.mailbox, rfl⟩
  | replySignal hst => exact ⟨_, hst.mailbox, rfl⟩
  | readySend p c _ hst => exact ⟨_, hst.mailbox, rfl⟩
  | readySendSignal p hst => exact ⟨_, hst.mailbox, rfl⟩
  | senderWait _ _ hst => exact ⟨_, hst.mailbox, rfl⟩
  | senderUnlock _ hst => exact ⟨_, hst.mailbox, rfl⟩
  | senderPop _ hpop => exact ⟨_, (ChannelStep.pop hpop).mailbox, rfl⟩
  | _ => rfl

omit [DecidableEq P] in
theorem Channel.Initial.mailbox {c : Channel P} (h : c.Initial) :
    c.mailbox = ⟨[], .unlocked, fun _ => .idle⟩ := by
  obtain ⟨hlist, hwait, hproducer⟩ := h
  unfold Channel.mailbox
  rw [hlist.contents, hwait, hproducer]

/-- The receive queue of a run is a run of a mailbox. -/
theorem run_recv {tr : List (Event R P)} {s : State R P}
    (h : (messageSystem R P cfg).Run tr s) :
    (mailbox DataInf R).Run (tr.filterMap Event.recv?) s.recv.mailbox :=
  System.Run.project (S := messageSystem R P cfg) (g := fun s => s.recv.mailbox)
    (fun _ hs => hs.1.mailbox) (fun _ _ _ hst => recv_matches hst) h

/-- The send queue of a run is a run of a mailbox. -/
theorem run_send {tr : List (Event R P)} {s : State R P}
    (h : (messageSystem R P cfg).Run tr s) :
    (mailbox DataInf (Option P)).Run (tr.filterMap Event.send?) s.send.mailbox :=
  System.Run.project (S := messageSystem R P cfg) (g := fun s => s.send.mailbox)
    (fun _ hs => hs.2.2.2.1.mailbox) (fun _ _ _ hst => send_matches hst) h

-- ---------------------------------------------------------------------------
-- Signals in time
-- ---------------------------------------------------------------------------

/-- The step is not a late signal to one of the consumers: not the last signal
on its way, sent between the consumer's test and its wait with something in the
queue. -/
def InTime (s : State R P) (e : Event R P) : Prop :=
  (∀ d, e.recv? = some d → ¬ s.recv.mailbox.Late d) ∧
    ∀ d, e.send? = some d → ¬ s.send.mailbox.Late d

/-- **No lost wake-up without a late signal.** In every state reached by a run
without late signals, each consumer that sleeps with something in its queue has
a producer that still has to signal. -/
theorem run_in_time_not_stuck {tr : List (Event R P)} {s : State R P}
    (h : ((messageSystem R P cfg).restrict InTime).Run tr s) :
    ¬ s.recv.mailbox.Stuck ∧ ¬ s.send.mailbox.Stuck := by
  have hrecv : ((mailbox DataInf R).restrict fun m d => ¬ m.Late d).Run
      (tr.filterMap Event.recv?) s.recv.mailbox :=
    System.Run.project (S := (messageSystem R P cfg).restrict InTime)
      (g := fun s => s.recv.mailbox) (fun _ hs => hs.1.mailbox)
      (fun _ _ _ hst => (recv_matches hst.1).restrict hst.2.1) h
  have hsend : ((mailbox DataInf (Option P)).restrict fun m d => ¬ m.Late d).Run
      (tr.filterMap Event.send?) s.send.mailbox :=
    System.Run.project (S := (messageSystem R P cfg).restrict InTime)
      (g := fun s => s.send.mailbox) (fun _ hs => hs.2.2.2.1.mailbox)
      (fun _ _ _ hst => (send_matches hst.1).restrict hst.2.2) h
  exact ⟨run_not_stuck hrecv, run_not_stuck hsend⟩

omit [DecidableEq R] [DecidableEq P] in
/-- Nothing is late while neither consumer is between its test and its wait. -/
theorem inTime_of_wait {s : State R P} (hrecv : s.recv.wait ≠ .toWait)
    (hsend : s.send.wait ≠ .toWait) (e : Event R P) : InTime s e := by
  constructor
  · rintro d - ⟨p, -, hw, -⟩
    exact hrecv hw
  · rintro d - ⟨p, -, hw, -⟩
    exact hsend hw

/-- The theorem at work: a sleeping consumer is woken by the message it gets. -/
theorem run_in_time_not_stuck_one :
    ∃ s, ((messageSystem Unit Unit noHandlers).restrict InTime).Run
        [.recv .lock, .recv (.test true), .recv .sleep,
          .recv (.insert () (receivedMessage 3 [116])), .recv (.signal ())] s ∧
      s.recv.list.contents = [receivedMessage 3 [116]] ∧ ¬ s.recv.mailbox.Stuck := by
  obtain ⟨l, hl⟩ := MessageList.exists_inserted .new 1
    (d := receivedMessage 3 [116]) rfl ⟨[116], rfl, by decide, by decide⟩
  have hinit : ((messageSystem Unit Unit noHandlers).restrict InTime).Run [] start :=
    .init (start_initial noHandlers)
  have hlock := hinit.step ⟨Step.processWait (e := .lock) rfl trivial (.lock rfl),
    inTime_of_wait (by decide) (by decide) _⟩
  have htest := hlock.step ⟨Step.processWait (e := .test true) rfl trivial
    (.testEmpty rfl (by decide)), inTime_of_wait (by decide) (by decide) _⟩
  have hsleep := htest.step ⟨Step.processWait (e := .sleep) rfl trivial (.sleep rfl), by
    constructor
    · rintro d hd ⟨p, rfl, -⟩
      simp [Event.recv?] at hd
    · rintro d hd -
      simp [Event.send?] at hd⟩
  have hinsert := hsleep.step ⟨Step.receive () 3 [116] (by simp) (.insert () _ rfl hl),
    inTime_of_wait (by decide) (by decide) _⟩
  have hsignal := hinsert.step ⟨Step.receiveSignal () (.signal () rfl),
    inTime_of_wait (show WaitPc.asleep ≠ .toWait by decide) (by simp [start]) _⟩
  exact ⟨_, hsignal, hl.contents, (run_in_time_not_stuck hsignal).1⟩

-- ---------------------------------------------------------------------------
-- Late signals
-- ---------------------------------------------------------------------------

/-- The state of both consumers' mutexes at their program points. -/
def ProcessPc.Holds : ProcessPc → WaitPc → Prop
  | .waiting, _ => True
  | .popped _, w => w = .passed
  | .parsing _, w => w = .unlocked
  | .handling _, w => w = .unlocked

def SenderPc.Holds : SenderPc → WaitPc → Prop
  | .waiting, _ => True
  | _, w => w = .unlocked

/-- A step of somebody else leaves a mutex that is not waited for as it is. -/
theorem ChannelStep.wait_eq {c c' : Channel P} {e : MailboxEvent DataInf P}
    (h : ChannelStep c e c') (hfixed : c.wait = .unlocked ∨ c.wait = .passed)
    (he : ¬ ofWait e) (hunlock : e ≠ .unlock) : c'.wait = c.wait := by
  cases h with
  | insert p d _ _ => rfl
  | signal p _ =>
    show c.wait.signalled = c.wait
    rcases hfixed with hw | hw <;> rw [hw] <;> rfl
  | unlock _ => exact absurd rfl hunlock
  | pop _ => rfl
  | _ => exact absurd trivial he

theorem ProcessPc.Holds.step {pc : ProcessPc} {c c' : Channel P} {e : MailboxEvent DataInf P}
    (h : pc.Holds c.wait) (hst : ChannelStep c e c') (he : ¬ ofWait e) (hunlock : e ≠ .unlock) :
    pc.Holds c'.wait := by
  cases pc with
  | waiting => trivial
  | popped m => exact (hst.wait_eq (.inr h) he hunlock).trans h
  | parsing m => exact (hst.wait_eq (.inl h) he hunlock).trans h
  | handling calls => exact (hst.wait_eq (.inl h) he hunlock).trans h

theorem SenderPc.Holds.step {pc : SenderPc} {c c' : Channel P} {e : MailboxEvent DataInf P}
    (h : pc.Holds c.wait) (hst : ChannelStep c e c') (he : ¬ ofWait e) (hunlock : e ≠ .unlock) :
    pc.Holds c'.wait := by
  cases pc with
  | waiting => trivial
  | toPop => exact (hst.wait_eq (.inl h) he hunlock).trans h
  | toSend m => exact (hst.wait_eq (.inl h) he hunlock).trans h
  | toClear => exact (hst.wait_eq (.inl h) he hunlock).trans h

/-- Both consumers are where their mutex says. -/
theorem run_holds {tr : List (Event R P)} {s : State R P}
    (h : (messageSystem R P cfg).Run tr s) :
    s.process.Holds s.recv.wait ∧ s.sender.Holds s.send.wait := by
  refine System.Run.state_invariant (I := fun s : State R P =>
    s.process.Holds s.recv.wait ∧ s.sender.Holds s.send.wait) ?_ ?_ h
  · rintro s ⟨-, hprocess, -, -, hsender, -⟩
    rw [hprocess, hsender]
    exact ⟨trivial, trivial⟩
  · rintro s e s' - ⟨hrecv, hsend⟩ hst
    cases hst with
    | receive r fd data _ hst => exact ⟨hrecv.step hst id (by simp), hsend⟩
    | receiveSignal r hst => exact ⟨hrecv.step hst id (by simp), hsend⟩
    | processWait hp _ _ =>
      refine ⟨?_, hsend⟩
      show s.process.Holds _
      rw [hp]
      trivial
    | processPop _ hw _ _ => exact ⟨hw, hsend⟩
    | processUnlock _ hst =>
      cases hst with
      | unlock _ => exact ⟨rfl, hsend⟩
    | parse env hp =>
      rw [hp] at hrecv
      exact ⟨hrecv, hsend⟩
    | reply hp _ hst =>
      rw [hp] at hrecv
      exact ⟨hrecv, hsend.step hst id (by simp)⟩
    | replySignal hst => exact ⟨hrecv, hsend.step hst id (by simp)⟩
    | replyRefused hp _ _ =>
      rw [hp] at hrecv
      exact ⟨hrecv, hsend⟩
    | parsed hp _ => exact ⟨trivial, hsend⟩
    | readySend p c _ hst => exact ⟨hrecv, hsend.step hst id (by simp)⟩
    | readySendSignal p hst => exact ⟨hrecv, hsend.step hst id (by simp)⟩
    | senderWait hs _ _ =>
      refine ⟨hrecv, ?_⟩
      show s.sender.Holds _
      rw [hs]
      trivial
    | senderUnlock _ hst =>
      cases hst with
      | unlock _ => exact ⟨hrecv, rfl⟩
    | senderPop hs _ =>
      rw [hs] at hsend
      exact ⟨hrecv, hsend⟩
    | sendDuer hs _ =>
      rw [hs] at hsend
      exact ⟨hrecv, hsend⟩
    | sendUart ret hs _ _ =>
      rw [hs] at hsend
      exact ⟨hrecv, hsend⟩
    | sendOther hs _ _ =>
      rw [hs] at hsend
      exact ⟨hrecv, hsend⟩
    | clear _ _ => exact ⟨hrecv, trivial⟩

/-- After a late signal the consumer can go to sleep for good. -/
theorem ChannelStep.stuck_of_late {c c' : Channel P} {e : MailboxEvent DataInf P}
    (h : ChannelStep c e c') (hlate : c.mailbox.Late e) :
    ∃ c'', ChannelStep c' .sleep c'' ∧ c''.mailbox.Stuck := by
  obtain ⟨m, hsleep, hstuck⟩ := Lib.stuck_of_late h.mailbox hlate
  cases hsleep with
  | sleep hw => exact ⟨_, .sleep hw, hstuck⟩

/-- **Late signals are lost**: after one, some next step of the system leaves a
consumer asleep on a queue that is not empty, with no signal on its way. -/
theorem late_signal_lost {tr : List (Event R P)} {s s' : State R P} {e : Event R P}
    (h : (messageSystem R P cfg).Run tr s) (hst : Step cfg s e s') (hlate : ¬ InTime s e) :
    ∃ e' s'', Step cfg s' e' s'' ∧ (s''.recv.mailbox.Stuck ∨ s''.send.mailbox.Stuck) := by
  obtain ⟨hrecv, hsend⟩ := run_holds h
  have hcases : (∃ d, e.recv? = some d ∧ s.recv.mailbox.Late d) ∨
      ∃ d, e.send? = some d ∧ s.send.mailbox.Late d := by
    unfold InTime at hlate
    by_contra hno
    refine hlate ⟨fun d hd hl => hno (.inl ⟨d, hd, hl⟩), fun d hd hl => hno (.inr ⟨d, hd, hl⟩)⟩
  rcases hcases with ⟨d, hd, hl⟩ | ⟨d, hd, hl⟩
  · have hwait : s.recv.wait = .toWait := by
      obtain ⟨p, -, hw, -⟩ := hl
      exact hw
    -- between its test and its wait the consumer is nowhere else
    have hprocess : s.process = .waiting := by
      cases hp : s.process with
      | waiting => rfl
      | _ =>
        rw [hp, hwait] at hrecv
        simp [ProcessPc.Holds] at hrecv
    obtain ⟨p, rfl, -⟩ := id hl
    cases hst with
    | receiveSignal r hst =>
      cases hd
      obtain ⟨c'', hsleep, hstuck⟩ := hst.stuck_of_late hl
      exact ⟨_, _, .processWait (e := .sleep) hprocess trivial hsleep, .inl hstuck⟩
    | processWait _ hwaits hst =>
      cases hd
      exact hwaits.elim
    | _ => simp [Event.recv?] at hd
  · have hwait : s.send.wait = .toWait := by
      obtain ⟨p, -, hw, -⟩ := hl
      exact hw
    have hsender : s.sender = .waiting := by
      cases hp : s.sender with
      | waiting => rfl
      | _ =>
        rw [hp, hwait] at hsend
        simp [SenderPc.Holds] at hsend
    obtain ⟨p, rfl, -⟩ := id hl
    cases hst with
    | replySignal hst =>
      cases hd
      obtain ⟨c'', hsleep, hstuck⟩ := hst.stuck_of_late hl
      exact ⟨_, _, .senderWait (e := .sleep) hsender trivial hsleep, .inr hstuck⟩
    | readySendSignal p hst =>
      cases hd
      obtain ⟨c'', hsleep, hstuck⟩ := hst.stuck_of_late hl
      exact ⟨_, _, .senderWait (e := .sleep) hsender trivial hsleep, .inr hstuck⟩
    | senderWait _ hwaits hst =>
      cases hd
      exact hwaits.elim
    | _ => simp [Event.send?] at hd

-- ---------------------------------------------------------------------------
-- A lost wake-up
-- ---------------------------------------------------------------------------

/-- A message sent or received while the consumer is between its test and its
wait is not heard: for both queues, one message is enough. -/
theorem lost_wakeup_reachable :
    (∃ tr s, (messageSystem Unit Unit noHandlers).Run tr s ∧
      s.recv.mailbox.Stuck) ∧
    ∃ tr s, (messageSystem Unit Unit noHandlers).Run tr s ∧
      s.send.mailbox.Stuck := by
  constructor
  · obtain ⟨l, hl⟩ := MessageList.exists_inserted .new 1
      (d := receivedMessage 3 [116]) rfl ⟨[116], rfl, by decide, by decide⟩
    have hcontents := hl.contents
    have hlock := (start_run noHandlers).step
      (Step.processWait (e := .lock) rfl trivial (.lock rfl))
    have htest := hlock.step (Step.processWait (e := .test true) rfl trivial
      (.testEmpty rfl (by decide)))
    have hinsert := htest.step (Step.receive () 3 [116] (by simp) (.insert () _ rfl hl))
    have hsignal := hinsert.step (Step.receiveSignal () (.signal () rfl))
    have hsleep := hsignal.step (Step.processWait (e := .sleep) rfl trivial (.sleep rfl))
    refine ⟨_, _, hsleep, rfl, ?_, fun _ => rfl⟩
    show l.contents ≠ []
    rw [hcontents]
    simp
  · obtain ⟨l, hl⟩ := MessageList.exists_inserted .new 1
      (d := ⟨some [65], 1, 0, .UART⟩) rfl ⟨[65], rfl, by decide, by decide⟩
    have hcontents := hl.contents
    have hlock := (start_run noHandlers).step (Step.senderWait (e := .lock) rfl trivial (.lock rfl))
    have htest := hlock.step (Step.senderWait (e := .test true) rfl trivial
      (.testEmpty rfl (by decide)))
    have hinsert := htest.step (Step.readySend () ⟨.UART, some [65], 1⟩ rfl
      (.insert (some ()) _ rfl hl))
    have hsignal := hinsert.step (Step.readySendSignal () (.signal (some ()) rfl))
    have hsleep := hsignal.step (Step.senderWait (e := .sleep) rfl trivial (.sleep rfl))
    refine ⟨_, _, hsleep, rfl, ?_, ?_⟩
    · show l.contents ≠ []
      rw [hcontents]
      simp
    · intro p
      cases p <;> rfl

end Uartd.Message
