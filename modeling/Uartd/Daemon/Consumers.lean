import Uartd.Daemon.Requests
import Uartd.Protocol.Tables

/-!
# Uartd — the consumers in the daemon

What the message side takes for granted of its two consumers the receive side
provides: each of them is one worker, the same in the whole run, and not the
other one's (`one_worker_each`). In turn a consumer that is awake always has a
next step, because what the receive side inserts fits into the consumer's node
(`consumers_go_on`): neither of them faults.
-/

namespace Uartd.Daemon

open Uartd.Lib Uartd.LinkList

variable {n queueMaxNum : ℕ} {P E : Type} [DecidableEq P] {needSockServer : Bool}
  {cfg : Message.Config E} {d : Descriptors cfg} {tr : List (Event n P E)} {s : State n P}

/-! ## One worker each -/

omit [DecidableEq P] in
theorem callbackOf_cases {t : Message.Thread (Fin n) P} {f : Receive.Callback}
    (h : callbackOf t = some f) :
    t = .process ∧ f = .dataProcess ∨ t = .sender ∧ f = .sendOutHandler := by
  cases t with
  | process => exact .inl ⟨rfl, (Option.some.inj h).symm⟩
  | sender => exact .inr ⟨rfl, (Option.some.inj h).symm⟩
  | _ => cases h

omit [DecidableEq P] in
theorem callbackOf_serves {t : Message.Thread (Fin n) P} {f : Receive.Callback}
    (h : callbackOf t = some f) : f.Serves :=
  (callbackOf_cases h).imp And.right And.right

omit [DecidableEq P] in
theorem callbackOf_inj {t t' : Message.Thread (Fin n) P} {f : Receive.Callback}
    (h : callbackOf t = some f) (h' : callbackOf t' = some f) : t = t' := by
  rcases callbackOf_cases h with ⟨rfl, rfl⟩ | ⟨rfl, rfl⟩
  · rcases callbackOf_cases h' with ⟨rfl, -⟩ | ⟨-, hf⟩
    · rfl
    · cases hf
  · rcases callbackOf_cases h' with ⟨-, hf⟩ | ⟨rfl, -⟩
    · cases hf
    · rfl

/-- A step is one of the receive side, or leaves it as it is. -/
theorem receive_or_same {s s' : State n P} {e : Event n P E}
    (hst : Step d needSockServer s e s') :
    (∃ re, Receive.Step needSockServer s.receive re s'.receive) ∨ s'.receive = s.receive := by
  cases hst with
  | receive hst _ => exact .inl ⟨_, hst⟩
  | insert w m hst _ => exact .inl ⟨_, hst⟩
  | signal w hpc _ => exact .inl ⟨_, .signal w hpc⟩
  | consumer _ _ _ _ => exact .inr rfl
  | readySend _ _ _ => exact .inr rfl

/-- **Run lemma.** The worker that took a consumer's step is in that consumer. -/
theorem run_consumer (h : (daemonSystem n queueMaxNum P d needSockServer).Run tr s) :
    ∀ w e, .consumer w e ∈ tr →
      ∃ f, callbackOf e.event.thread = some f ∧ s.receive.callback? w = some f := by
  refine System.Run.invariant (I := fun tr s => ∀ w e, Event.consumer w e ∈ tr →
    ∃ f, callbackOf e.event.thread = some f ∧ s.receive.callback? w = some f) ?_ ?_ h
  · intro s _ w e he
    cases he
  · intro tr s x s' hrun ih hst w e he
    have hkeep : ∀ {f : Receive.Callback}, f.Serves → s.receive.callback? w = some f →
        s'.receive.callback? w = some f := by
      intro f hf hw
      rcases receive_or_same hst with ⟨re, hre⟩ | hsame
      · exact Receive.serves_step (Receive.run_threadsInv (run_receive hrun)) hf hre hw
      · rw [hsame]
        exact hw
    rcases List.mem_append.mp he with hold | hnew
    · obtain ⟨f, hthread, hw⟩ := ih w e hold
      exact ⟨f, hthread, hkeep (callbackOf_serves hthread) hw⟩
    · obtain rfl := List.mem_singleton.mp hnew
      cases hst with
      | consumer _ hthread hw _ => exact ⟨_, hthread, hw⟩

/-- **One worker each.** In every run, with any number of workers, two steps of
consumers are steps of the same consumer exactly if the same worker takes them:
no second worker ever touches the node or the queue's head of a consumer, and no
worker serves both queues. -/
theorem one_worker_each (h : (daemonSystem n queueMaxNum P d needSockServer).Run tr s)
    {w w' : Fin n} {e e' : Message.DispatchEvent (Fin n) P E} (he : .consumer w e ∈ tr)
    (he' : .consumer w' e' ∈ tr) : e.event.thread = e'.event.thread ↔ w = w' := by
  obtain ⟨f, hthread, hw⟩ := run_consumer h w e he
  obtain ⟨f', hthread', hw'⟩ := run_consumer h w' e' he'
  constructor
  · intro hsame
    rw [hsame, hthread'] at hthread
    obtain rfl := Option.some.inj hthread
    exact Receive.eq_of_runs
      (Receive.run_runs_le (run_receive h) (callbackOf_serves hthread').mem) hw hw'
  · rintro rfl
    obtain rfl := Option.some.inj (hw.symm.trans hw')
    exact callbackOf_inj hthread hthread'

/-- The theorem at work: both consumers take their mutex, in two workers. -/
theorem one_worker_each_two : ∃ tr s,
    (daemonSystem 5 10 Empty (descriptors Message.noHandlers (by decide)) false).Run tr s ∧
      Event.consumer 0 (.base (.recv .lock)) ∈ tr ∧ Event.consumer 1 (.base (.send .lock)) ∈ tr ∧
      ((Message.Event.recv .lock : Message.Event (Fin 5) Empty).thread =
        (Message.Event.send .lock : Message.Event (Fin 5) Empty).thread ↔ (0 : Fin 5) = 1) := by
  obtain ⟨events, tr, s, hrun, -, -, -, hmessage, -, hzero, hone⟩ :=
    text_read Empty (descriptors Message.noHandlers (by decide)) [65, 66] (by decide) (by decide)
  have hprocess := hrun.step (Step.consumer (e := .base (.recv .lock)) 0 rfl hzero
    (.base (.processWait (by rw [hmessage]; rfl) trivial (.lock (by rw [hmessage]; rfl))) nofun))
  have hsender := hprocess.step (Step.consumer (e := .base (.send .lock)) 1 rfl hone
    (.base (.senderWait (by rw [hmessage]; rfl) trivial (.lock (by rw [hmessage]; rfl))) nofun))
  have hmem₀ : Event.consumer 0 (.base (.recv .lock)) ∈ tr ++ [.consumer 0 (.base (.recv .lock))] ++
      [Event.consumer 1 (.base (.send .lock))] := by simp
  have hmem₁ : Event.consumer 1 (.base (.send .lock)) ∈ tr ++ [.consumer 0 (.base (.recv .lock))] ++
      [Event.consumer 1 (.base (.send .lock))] := by simp
  exact ⟨_, _, hsender, hmem₀, hmem₁, one_worker_each hsender hmem₀ hmem₁⟩

/-! ## No fault -/

/-- What is in the receive queue fits into the node of `data_process`. -/
theorem run_recv_fits (hcfg : cfg.Fits) (h : (daemonSystem n queueMaxNum P d false).Run tr s) :
    ∀ x ∈ s.message.base.recv.list.contents, x.dataLen ≤ 1024 := by
  intro x hx
  have hqueue := run_taken_append (Message.run_recv (run_events hcfg h))
  have hmem : x ∈ (messages tr).map d.node := by
    rw [← run_queued h, queued, ← hqueue]
    exact List.mem_append_right _ hx
  obtain ⟨m, hm, rfl⟩ := List.mem_map.mp hmem
  obtain ⟨-, hsize⟩ := run_messages h m hm
  show (m.bytes.length : Int) ≤ 1024
  rw [Receive.Message.bytes, List.length_map]
  unfold Receive.Message.Sized Receive.recvBufSize at hsize
  omega

/-- **Neither consumer faults.** For tables whose handlers pass what they say
and at most 1024 bytes, in every run in which no other thread queues more either:
the worker in `data_process` has a next step unless it is asleep, and so has the
one in `send_out_handler`. In particular no message overruns the node it is
popped into, no keyword is compared outside of it, and no counter is out of its
array. `data_process` needs a free node, since a reply may be made; what is logged is
left out. -/
theorem consumers_go_on (hcfg : cfg.Fits) (hcovered : cfg.Always Message.SendCall.Covered)
    (hshort : cfg.Always fun c => c.len ≤ 1024)
    (h : (daemonSystem n queueMaxNum P d false).Run tr s)
    (hothers : ∀ p x, (some p, x) ∈ Message.sendInserted (messageEvents d tr) → x.dataLen ≤ 1024)
    (w : Fin n) :
    (s.receive.callback? w = some .dataProcess → s.message.base.recv.wait ≠ .asleep →
      (∃ id, s.message.base.send.list.heap id = none) → Nonempty E →
      ∃ e s', Step d false s (.consumer w e) s' ∧ e.event.thread = .process) ∧
    (s.receive.callback? w = some .sendOutHandler → s.message.base.send.wait ≠ .asleep →
      ∃ e s', Step d false s (.consumer w e) s' ∧ e.event.thread = .sender) := by
  have hmessage := run_message h
  have hrun := run_events hcfg h
  constructor
  · rintro hw hawake ⟨id, hid⟩ ⟨env⟩
    obtain ⟨e, message', hst, hthread⟩ := Message.exists_process_step hcfg hcovered hmessage
      (run_recv_fits hcfg h) env hid hawake
    exact ⟨e, _, .consumer w (by rw [hthread]; rfl) hw hst, hthread⟩
  · intro hw hawake
    obtain ⟨e, base', hst, hthread⟩ := Message.exists_sender_step hrun
      (Message.run_send_fits hshort hrun hothers) hawake
    have hnot : ∀ m calls, e ≠ .parse m calls := by
      rintro m calls rfl
      cases hthread
    exact ⟨.base e, _, .consumer w (congrArg callbackOf hthread) hw (.base hst hnot), hthread⟩

/-- The theorem at work: after the start-up both consumers can go on. -/
theorem consumers_go_on_two : ∃ tr s,
    (daemonSystem 5 10 Empty (descriptors (Protocol.tables 3 4) (by decide)) false).Run
      tr s ∧
    (∃ e s', Step (descriptors (Protocol.tables 3 4) (by decide)) false s
      (.consumer 0 e) s') ∧
    ∃ e s', Step (descriptors (Protocol.tables 3 4) (by decide)) false s
      (.consumer 1 e) s' := by
  obtain ⟨events, tr, s, hrun, -, -, -, hmessage, -, hzero, hone⟩ :=
    text_read Empty (descriptors (Protocol.tables 3 4) (by decide)) [65, 66] (by decide)
      (by decide)
  have hgo := consumers_go_on Protocol.tables_fits Protocol.tables_covered Protocol.tables_short
    hrun fun p => p.elim
  have hfree : ∃ id, s.message.base.send.list.heap id = none := by
    rw [hmessage]
    exact ⟨1, rfl⟩
  obtain ⟨e, s', hst, -⟩ := (hgo 0).1 hzero (by rw [hmessage]; exact nofun) hfree
    ⟨⟨0, 0, 0, 1, 0, 100, 0⟩⟩
  obtain ⟨e', s'', hst', -⟩ := (hgo 1).2 hone (by rw [hmessage]; exact nofun)
  exact ⟨tr, s, hrun, ⟨e, s', hst⟩, e', s'', hst'⟩

end Uartd.Daemon
