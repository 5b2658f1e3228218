import Uartd.Daemon.Basic

/-!
# Uartd — rounds of the daemon

The way of a text from the UART through the daemon. While only the receive side
moves and inserts nothing the message side is as it was at the start
(`run_untouched`), so `text_read` is a round of the receive side; `text_taken`
takes the text on to `data_parse`.

The receive side moves on its own wherever the consumers are
(`receive_never_waits`).
-/

namespace Uartd.Daemon

open Uartd.Lib Uartd.LinkList

variable {n queueMaxNum : ℕ} {P E : Type} [DecidableEq P] {needSockServer : Bool}
  {cfg : Message.Config E} {d : Descriptors cfg} {tr : List (Event n P E)} {s : State n P}

/-! ## The receive side alone -/

/-- Without an insert the message side is as it was at the start. -/
theorem run_untouched {events : ℕ → Receive.EpollEvent}
    (h : ((daemonSystem n queueMaxNum P d needSockServer).startAt
      (start n queueMaxNum P needSockServer events)).Run tr s)
    (hreceiving : Receiving tr) (hnone : Receive.InsertsNothing (tr.filterMap Event.receive?)) :
    s.message = (start n queueMaxNum P needSockServer events).message := by
  refine System.Run.invariant (I := fun tr s => Receiving tr →
    Receive.InsertsNothing (tr.filterMap Event.receive?) →
      s.message = (start n queueMaxNum P needSockServer events).message) ?_ ?_ h hreceiving hnone
  · rintro s rfl - -
    rfl
  · intro tr s e s' _ ih hst hreceiving hnone
    rw [List.filterMap_append] at hnone
    obtain ⟨hpast, hnow⟩ := List.forall_mem_append.mp hnone
    have hs := ih (fun x hx => hreceiving x (List.mem_append_left _ hx)) hpast
    have he := hreceiving e (List.mem_append_right _ (List.mem_singleton_self e))
    cases hst with
    | receive _ _ => exact hs
    | insert w m _ _ => exact absurd rfl (hnow _ (List.mem_singleton_self _) w m)
    | signal w _ hmessage =>
      -- nobody has inserted, so nobody signals
      cases hmessage with
      | base hmessage _ =>
        cases hmessage with
        | receiveSignal _ hchan =>
          cases hchan with
          | signal _ hinserted =>
            rw [hs] at hinserted
            cases hinserted
        | processWait _ hwait _ => exact hwait.elim
    | consumer _ _ _ _ => exact absurd rfl he
    | readySend _ _ _ => exact absurd rfl he

/-! ## A text -/

/-- After the start-up a worker has read a text from the UART; the consumers are in
the workers 0 and 1 and have done nothing. -/
theorem text_read (P : Type) [DecidableEq P] (d : Descriptors cfg) (text : List UInt8)
    (hne : text ≠ []) (hlen : text.length < Receive.recvBufSize) :
    ∃ (events : ℕ → Receive.EpollEvent) (tr : List (Event 5 P E)) (s : State 5 P),
      (daemonSystem 5 10 P d false).Run tr s ∧ Receiving tr ∧
      Receive.InsertsNothing (tr.filterMap Event.receive?) ∧ Roomy s ∧
      s.message = (start 5 10 P false events).message ∧
      s.receive.handler 3 = .toInsert (Receive.messageOf .uart text hne 0) ∧
      s.receive.callback? 0 = some .dataProcess ∧
      s.receive.callback? 1 = some .sendOutHandler := by
  obtain ⟨es, r, hes, hquiet, hinput, -, ⟨-, hnone, -⟩, hworker, hidle⟩ :=
    Receive.start_up (n := 5) 10 false (by decide) 0 1 2 (by decide) (by decide) (by decide)
      (fun _ => ⟨.uart, true⟩) 3
  obtain ⟨es', r', hes', hround, -, hnone'⟩ := Receive.uart_round 10 false hquiet
    (hidle 3 (by decide) (by decide) (by decide)).1 text hne hlen
  obtain ⟨events, tr, s, hrun, hstart, hsees, rfl, hreceiving, hroom⟩ :=
    exists_run (P := P) d (hes.append hes')
  have hinserts := hsees ▸ hnone.append hnone'
  refine ⟨events, tr, s, hrun, hreceiving, hinserts, hroom,
    run_untouched hstart hreceiving hinserts, ?_, ?_, ?_⟩
  · rw [hround.handler, Function.update_self, hinput]
  · rw [Receive.State.callback?, hround.worker 0 (by decide), hworker]
    rfl
  · rw [Receive.State.callback?, hround.worker 1 (by decide), hworker]
    rfl

/-- "time!" from the UART, as the first of its input. -/
def timeMessage : Receive.Message :=
  Receive.messageOf .uart [116, 105, 109, 101, 33] (List.cons_ne_nil _ _) 0

/-- How `data_process` takes the message `x` from the queue. -/
def taking (x : DataInf) : List (Message.DispatchEvent (Fin n) P E) :=
  [.base (.recv .lock), .base (.recv (.test false)), .base (.recv (.pop (some x))),
    .base (.recv .unlock)]

omit [DecidableEq P] in
theorem taking_thread (x : DataInf) : ∀ e ∈ (taking x : List (Message.DispatchEvent (Fin n) P E)),
    callbackOf e.event.thread = some .dataProcess :=
  List.map_eq_replicate_iff.mp rfl

/-- A worker inserts its message and signals. -/
theorem worker_inserts (queueMaxNum : ℕ) (needSockServer : Bool) (d : Descriptors cfg)
    {s : State n P}
    {w : Fin n} {m : Receive.Message} (hw : s.receive.handler w = .toInsert m)
    (hidle : s.message.base.recv.producer w = .idle) {id : NodeId}
    (hid : s.message.base.recv.list.heap id = none) :
    ∃ receive' list' producer', ((daemonSystem n queueMaxNum P d needSockServer).startAt s).Run
        [.insert w m, .signal w]
        ⟨receive', { s.message with base := { s.message.base with
          recv := { list := list', wait := s.message.base.recv.wait.signalled
                    producer := producer' } } }⟩ ∧
      list'.contents = s.message.base.recv.list.contents ++ [d.node m] ∧
      receive'.pool = s.receive.pool := by
  obtain ⟨list', hlist⟩ := MessageList.exists_inserted _ id (d := d.node m) hid
    ⟨m.bytes, rfl, Int.natCast_nonneg _, Int.le_refl _⟩
  have h₀ : ((daemonSystem n queueMaxNum P d needSockServer).startAt s).Run [] s := .init rfl
  have hinsert := h₀.step (.insert w m (.insert w hw)
    (.base (.receive w _ _ m.bytes_ne_nil (.insert w _ hidle hlist)) nofun))
  have hsignal := hinsert.step (.signal w (Function.update_self w _ s.receive.handler)
    (.base (.receiveSignal w (.signal w (Function.update_self w _ _))) nofun))
  exact ⟨_, list', _, hsignal, hlist.contents, rfl⟩

/-- The text is inserted, and `data_process` takes it to `data_parse`. -/
theorem text_taken (P : Type) [DecidableEq P] (d : Descriptors cfg) (text : List UInt8)
    (hne : text ≠ []) (hlen : text.length < Receive.recvBufSize) {m : Receive.Message}
    (hm : m = Receive.messageOf .uart text hne 0) :
    ∃ (tr : List (Event 5 P E)) (s : State 5 P), Receiving tr ∧
      Receive.InsertsNothing (tr.filterMap Event.receive?) ∧
      (daemonSystem 5 10 P d false).Run
        (tr ++ [.insert 3 m, .signal 3] ++ (taking (d.node m)).map (.consumer 0)) s ∧
      s.receive.callback? 0 = some .dataProcess ∧ s.receive.callback? 1 = some .sendOutHandler ∧
      s.message.base.process = .parsing (some (d.node m)) ∧
      s.message.base.sender = .waiting ∧
      s.message.base.send = { list := .new, wait := .unlocked, producer := fun _ => .idle } := by
  obtain ⟨events, tr, s, hrun, hreceiving, hnone, -, hmessage, hhandler, hprocess, hsender⟩ :=
    text_read P d text hne hlen
  rw [← hm] at hhandler
  have hbytes : m.bytes.length ≤ 1024 := by
    rw [hm, Receive.messageOf_bytes]
    exact hlen.le
  obtain ⟨receive', list', producer', hinsert, hlist, hpool⟩ := worker_inserts 10 false d
    hhandler (by rw [hmessage]; rfl)
    (show s.message.base.recv.list.heap 1 = none by rw [hmessage]; rfl)
  rw [hmessage] at hinsert hlist
  obtain ⟨node', rest, htaken, -, -⟩ := Message.process_takes cfg
    (s := ⟨{ (start 5 10 P false events).message.base with
      recv := { list := list', wait := .unlocked, producer := producer' } },
      (start 5 10 P false events).message.analy⟩)
    ⟨⟨_, rfl, List.length_replicate⟩, trivial⟩ rfl rfl hlist (Int.ofNat_le.mpr hbytes)
  have hcallback : ∀ w, Receive.State.callback? receive' w = s.receive.callback? w := by
    intro w
    unfold Receive.State.callback?
    rw [hpool]
  exact ⟨tr, _, hreceiving, hnone, (hrun.append hinsert).append
    (follow_consumer ((hcallback 0).trans hprocess) htaken (taking_thread _)),
    (hcallback 0).trans hprocess, (hcallback 1).trans hsender, rfl, rfl, rfl⟩

end Uartd.Daemon
