import Uartd.Receive.Order
import Uartd.Receive.Threads
import Uartd.Receive.WholeRead

/-!
# Uartd — where the bytes are

A byte that a worker takes from a descriptor goes into the worker's message, and
with it into the queue, or away: with a message for which there is no node, or
with a chunk that does not fit into the buffer of `whole_read`. `account_step`
says what one step does to the five places, `bytes_accounted` that along every
run they make up what was taken. The bytes carry their positions, so that
nothing is in two places and nothing is made up.
-/

namespace Uartd.Receive

open Uartd.Lib Uartd.ThreadPool

variable {n queueMaxNum : ℕ} {needSockServer : Bool}

/-- The bytes taken from a descriptor. -/
def Input.read (inp : Input) : List InputByte := inp.arrived.zipIdx.take inp.taken

/-- The message of `fd` an event discards. -/
def Event.discarded? (fd : Fd) : Event n → Option Message
  | .discard _ m => if m.fd = fd then some m else none
  | _ => none

/-- The messages of `fd` discarded along a trace, in order. -/
def discarded (fd : Fd) (tr : List (Event n)) : List Message := tr.filterMap (Event.discarded? fd)

/-- The bytes of some messages. -/
def bytesOf (ms : List Message) : Multiset InputByte := (ms.flatMap Message.data : List InputByte)

/-- The bytes of `fd` in workers' hands. -/
def heldBytes (fd : Fd) (s : State n) : Multiset InputByte :=
  total (fun pc : HandlerPc => (pc.held fd : Multiset InputByte)) s.handler

/-- A chunk read into `whole_read` does not fit, and `b` is in it. -/
def DropsByte (fd : Fd) (s : State n) (e : Event n) (b : InputByte) : Prop :=
  ∃ w buf count, e = .read w fd [] ∧ fd = .uart ∧ s.handler w = .wholeRead buf ∧
    b ∈ (s.input fd).chunk count ∧ recvBufSize ≤ buf.length + ((s.input fd).chunk count).length

/-! ## Input -/

namespace Input

/-- No more is taken than arrived. -/
def Ok (inp : Input) : Prop := inp.taken ≤ inp.arrived.length

/-- What a read delivers is appended to what was taken. -/
theorem read_advance (inp : Input) (count : ℕ) :
    (inp.advance count).read = inp.read ++ inp.chunk count := by
  show inp.arrived.zipIdx.take (inp.taken + (inp.chunk count).length) = _
  rw [List.take_add]
  show inp.read ++ inp.unread.take _ = _
  rw [chunk, List.length_take, ← List.take_eq_take_min]

theorem chunk_length_le_unread (inp : Input) (count : ℕ) :
    inp.taken + (inp.chunk count).length ≤ inp.taken + (inp.arrived.length - inp.taken) := by
  rw [chunk, List.length_take, unread, List.length_drop, List.length_zipIdx]
  omega

theorem Ok.advance {inp : Input} (h : inp.Ok) (count : ℕ) : (inp.advance count).Ok := by
  have hle := chunk_length_le_unread inp count
  unfold Ok at h ⊢
  show inp.taken + (inp.chunk count).length ≤ inp.arrived.length
  omega

theorem Ok.arrive {inp : Input} (h : inp.Ok) (bytes : List UInt8) : (inp.arrive bytes).Ok := by
  unfold Ok at h ⊢
  show inp.taken ≤ (inp.arrived ++ bytes).length
  rw [List.length_append]
  omega

/-- New input changes nothing in what was taken. -/
theorem read_arrive {inp : Input} (h : inp.Ok) (bytes : List UInt8) :
    (inp.arrive bytes).read = inp.read := by
  show (inp.arrived ++ bytes).zipIdx.take inp.taken = _
  rw [List.zipIdx_append, List.take_append_of_le_length (by rw [List.length_zipIdx]; exact h)]
  rfl

/-- The taken bytes are different ones. -/
theorem read_nodup (inp : Input) : inp.read.Nodup := by
  refine List.Nodup.sublist (List.take_sublist _ _) (List.Nodup.of_map Prod.snd ?_)
  rw [List.zipIdx_map_snd]
  exact List.nodup_range'

end Input

/-! ## Steps -/

theorem bytesOf_append (ms ms' : List Message) :
    bytesOf (ms ++ ms') = bytesOf ms + bytesOf ms' := by
  rw [bytesOf, List.flatMap_append, ← Multiset.coe_add]
  rfl

/-- The books of one step: what was taken and held before, and what the step
inserts, discards and drops, is what is taken and held after it. -/
def Balanced (fd : Fd) (s : State n) (e : Event n) (s' : State n) (lost : Multiset InputByte) :
    Prop :=
  ((s'.input fd).read : Multiset InputByte) + heldBytes fd s =
    (s.input fd).read + heldBytes fd s' + bytesOf (inserted fd [e]) + bytesOf (discarded fd [e]) +
      lost

section Step

variable {s s' : State n} {e : Event n} {fd : Fd}

/-- A step that touches neither the input nor a handler's bytes. -/
theorem balanced_same (hins : inserted fd [e] = []) (hdis : discarded fd [e] = [])
    (hread : (s'.input fd).read = (s.input fd).read)
    (hheld : heldBytes fd s' = heldBytes fd s) : Balanced fd s e s' 0 := by
  unfold Balanced
  rw [hins, hdis, hread, hheld]
  show _ = _ + _ + (0 : Multiset InputByte) + 0 + 0
  simp

/-- A handler moves, `new` is taken from `fd`, and what it held and what is new
it holds, inserts, discards or drops. -/
theorem balanced_handler {w : Fin n} {pc : HandlerPc} (input : Fd → Input)
    (interest : Fd → Option Trigger) (new : List InputByte) {lost : Multiset InputByte}
    (hread : (input fd).read = (s.input fd).read ++ new)
    (hbooks : (new : Multiset InputByte) + (s.handler w).held fd =
      pc.held fd + bytesOf (inserted fd [e]) + bytesOf (discarded fd [e]) + lost) :
    Balanced fd s e { s with
      interest := interest, input := input, handler := Function.update s.handler w pc } lost := by
  have htotal := total_update (w := fun pc : HandlerPc => (pc.held fd : Multiset InputByte))
    (f := s.handler) w pc
  refine add_right_cancel (b := ((s.handler w).held fd : Multiset InputByte)) ?_
  unfold Balanced heldBytes at *
  dsimp only
  rw [hread, ← Multiset.coe_add]
  calc ((s.input fd).read : Multiset InputByte) + new +
        total (fun pc : HandlerPc => (pc.held fd : Multiset InputByte)) s.handler +
        (s.handler w).held fd
      = (s.input fd).read + (new + (s.handler w).held fd) +
        total (fun pc : HandlerPc => (pc.held fd : Multiset InputByte)) s.handler := by abel
    _ = (s.input fd).read + (total (fun pc : HandlerPc => (pc.held fd : Multiset InputByte))
          s.handler + pc.held fd) + bytesOf (inserted fd [e]) + bytesOf (discarded fd [e]) +
        lost := by
        rw [hbooks]
        abel
    _ = _ := by
        rw [← htotal]
        abel

/-- A step of one handler that takes nothing from `fd` and holds on to its bytes. -/
theorem balanced_move {w : Fin n} {pc : HandlerPc} (input : Fd → Input)
    (interest : Fd → Option Trigger) (hins : inserted fd [e] = []) (hdis : discarded fd [e] = [])
    (hread : (input fd).read = (s.input fd).read) (hheld : pc.held fd = (s.handler w).held fd) :
    Balanced fd s e { s with
      interest := interest, input := input, handler := Function.update s.handler w pc } 0 := by
  refine balanced_handler input interest [] (by rw [hread, List.append_nil]) ?_
  rw [hins, hdis, hheld]
  show (0 : Multiset InputByte) + _ = _ + (0 : Multiset InputByte) + 0 + 0
  abel

/-- A read from another descriptor. -/
theorem read_of_ne {input : Fd → Input} {fd' : Fd} (hfd : fd ≠ fd') (inp : Input) :
    (Function.update input fd' inp fd).read = (input fd).read := by
  rw [Function.update_of_ne hfd]

theorem held_afterRead (fd fd' : Fd) (data : List InputByte) :
    (afterRead fd' data).held fd = if fd' = fd then data else [] := by
  unfold afterRead
  split
  · rename_i hnil
    simp [HandlerPc.held, hnil]
  · rfl

theorem held_toInsert (fd : Fd) (m : Message) : ((HandlerPc.toInsert m).held fd :
    Multiset InputByte) = bytesOf ([m].filterMap fun m => if m.fd = fd then some m else none) := by
  by_cases hm : m.fd = fd <;> simp [HandlerPc.held, bytesOf, hm]

/-- **Step lemma.** The books of every step balance. -/
theorem account_step (hthreads : ThreadsInv s) (hinput : (s.input fd).Ok) (hfd : fd ≠ .sock)
    (hst : Step needSockServer s e s') :
    ∃ lost, Balanced fd s e s' lost ∧ ∀ b ∈ lost, DropsByte fd s e b := by
  have hnone : ∀ b ∈ (0 : Multiset InputByte), DropsByte fd s e b :=
    fun b hb => absurd hb (Multiset.notMem_zero b)
  cases hst with
  | @start w f a pc pool' hpool hentry =>
    refine ⟨0, balanced_move s.input s.interest rfl rfl rfl ?_, hnone⟩
    rw [hthreads.idle w (callback_of_start hpool).1]
    rcases Callback.entry_cases hentry with rfl | rfl | rfl | rfl | rfl | ⟨i, rfl⟩ <;>
      simp [HandlerPc.held]
  | finish hpc hpool =>
    exact ⟨0, balanced_move s.input s.interest rfl rfl rfl
      (by rw [hpc]; rfl), hnone⟩
  | @uartStore buf buf' w count hpc hcount hbody =>
    obtain ⟨-, -, rfl⟩ := wholeReadBody_eq_some_iff.mp hbody
    by_cases hu : fd = .uart
    · subst hu
      refine ⟨0, balanced_handler _ _ ((s.input .uart).chunk count) ?_ ?_, hnone⟩
      · rw [Function.update_self, Input.read_advance]
      · rw [hpc]
        show ((s.input .uart).chunk count : Multiset InputByte) + buf =
          (buf ++ (s.input .uart).chunk count : List InputByte) + (0 : Multiset InputByte) + 0 + 0
        rw [← Multiset.coe_add]
        abel
    · refine ⟨0, balanced_move _ _ rfl rfl (read_of_ne hu _) ?_, hnone⟩
      rw [hpc]
      simp [HandlerPc.held, hu]
  | @uartBreak buf w count hpc hcount hbody =>
    by_cases hu : fd = .uart
    · subst hu
      refine ⟨((s.input .uart).chunk count : List InputByte),
        balanced_handler _ _ ((s.input .uart).chunk count) ?_ ?_, fun b hb => ?_⟩
      · rw [Function.update_self, Input.read_advance]
      · rw [hpc]
        show ((s.input .uart).chunk count : Multiset InputByte) + buf =
          buf + (0 : Multiset InputByte) + 0 + (s.input .uart).chunk count
        abel
      · -- a chunk with a byte in it was dropped because it did not fit
        have hlong := (wholeReadBody_eq_none_iff.mp hbody).resolve_left
          (List.ne_nil_of_mem (Multiset.mem_coe.mp hb))
        exact ⟨w, buf, count, rfl, rfl, hpc, Multiset.mem_coe.mp hb, hlong⟩
    · refine ⟨0, balanced_move _ _ rfl rfl (read_of_ne hu _) ?_, hnone⟩
      rw [hpc]
      rfl
  | @add buf w hpc =>
    refine ⟨0, balanced_move _ _ rfl rfl rfl ?_, hnone⟩
    rw [hpc, held_afterRead_uart]
  | load w hpc | readListening w hpc | acceptFailed w hpc | signal w hpc =>
    exact ⟨0, balanced_move _ _ rfl rfl rfl (by rw [hpc]; rfl), hnone⟩
  | @read fd' w hpc hsock =>
    by_cases hu : fd = fd'
    · subst hu
      refine ⟨0, balanced_handler _ _ ((s.input fd).chunk recvBufSize) ?_ ?_, hnone⟩
      · rw [Function.update_self, Input.read_advance]
      · rw [hpc, held_afterRead, if_pos rfl]
        show ((s.input fd).chunk recvBufSize : Multiset InputByte) + (0 : Multiset InputByte) =
          (s.input fd).chunk recvBufSize + (0 : Multiset InputByte) + 0 + 0
        abel
    · refine ⟨0, balanced_move _ _ rfl rfl (read_of_ne hu _) ?_, hnone⟩
      rw [hpc, held_afterRead, if_neg (Ne.symm hu)]
      rfl
  | accept w k hpc hreq hfree hnew =>
    exact ⟨0, balanced_move _ _ rfl rfl (read_of_ne hfd _) (by rw [hpc]; rfl), hnone⟩
  | @insert m w hpc =>
    refine ⟨0, balanced_handler s.input s.interest [] (by rw [List.append_nil]) ?_, hnone⟩
    rw [hpc, held_toInsert]
    show (0 : Multiset InputByte) + bytesOf (inserted fd [.insert w m]) =
      0 + bytesOf (inserted fd [.insert w m]) + 0 + 0
    abel
  | @initNodeFailed m w hpc =>
    refine ⟨0, balanced_handler s.input s.interest [] (by rw [List.append_nil]) ?_, hnone⟩
    rw [hpc, held_toInsert]
    show (0 : Multiset InputByte) + bytesOf (discarded fd [.discard w m]) =
      0 + 0 + bytesOf (discarded fd [.discard w m]) + 0
    abel
  | arrive fd' bytes =>
    refine ⟨0, balanced_same rfl rfl ?_ rfl, hnone⟩
    by_cases hu : fd = fd'
    · subst hu
      show (Function.update s.input fd _ fd).read = _
      rw [Function.update_self, Input.read_arrive hinput]
    · exact read_of_ne hu _
  | _ => exact ⟨0, balanced_same rfl rfl rfl rfl, hnone⟩

theorem inputOk_step (h : ∀ fd, (s.input fd).Ok) (hst : Step needSockServer s e s') :
    ∀ fd, (s'.input fd).Ok := by
  -- one descriptor is read from, or gets more input
  have hupdate : ∀ {fd' : Fd} {inp : Input}, inp.Ok →
      ∀ fd, (Function.update s.input fd' inp fd).Ok := by
    intro fd' inp hinp fd
    by_cases hu : fd = fd'
    · rw [hu, Function.update_self]
      exact hinp
    · rw [Function.update_of_ne hu]
      exact h fd
  cases hst with
  | uartStore | uartBreak | read | accept => exact hupdate ((h _).advance _)
  | arrive fd bytes => exact hupdate ((h fd).arrive bytes)
  | _ => exact h

end Step

theorem run_inputOk {tr : List (Event n)} {s : State n}
    (h : (receiveSystem n queueMaxNum needSockServer).Run tr s) (fd : Fd) : (s.input fd).Ok := by
  refine System.Run.state_invariant (I := fun s => ∀ fd, (s.input fd).Ok) ?_ ?_ h fd
  · rintro s ⟨events, rfl⟩ fd
    exact Nat.le_refl 0
  · intro s e s' _ hok hst
    exact inputOk_step hok hst

/-! ## Runs -/

/-- Along `tr` a `whole_read` drops the byte `b`. -/
def DroppedAlong (n queueMaxNum : ℕ) (needSockServer : Bool) (fd : Fd) (tr : List (Event n))
    (b : InputByte) : Prop :=
  ∃ pre e post s, tr = pre ++ e :: post ∧
    (receiveSystem n queueMaxNum needSockServer).Run pre s ∧ DropsByte fd s e b

/-- **Run lemma.** The books of a run balance. -/
theorem run_account {tr : List (Event n)} {s : State n}
    (h : (receiveSystem n queueMaxNum needSockServer).Run tr s) {fd : Fd} (hfd : fd ≠ .sock) :
    ∃ lost : Multiset InputByte,
      ((s.input fd).read : Multiset InputByte) =
        bytesOf (inserted fd tr) + bytesOf (discarded fd tr) + heldBytes fd s + lost ∧
      ∀ b ∈ lost, fd = .uart ∧ DroppedAlong n queueMaxNum needSockServer fd tr b := by
  induction h with
  | @init s hs =>
    obtain ⟨events, rfl⟩ := hs
    refine ⟨0, ?_, fun b hb => absurd hb (Multiset.notMem_zero b)⟩
    have hheld : heldBytes fd (epollStart n queueMaxNum needSockServer events) = 0 :=
      total_eq_zero fun _ => rfl
    rw [hheld]
    rfl
  | @step tr s s' e hrun hst ih =>
    obtain ⟨lost, hbooks, hlost⟩ := ih
    obtain ⟨more, hstep, hmore⟩ := account_step (run_threadsInv hrun) (run_inputOk hrun fd) hfd hst
    refine ⟨lost + more, ?_, fun b hb => ?_⟩
    · unfold Balanced at hstep
      refine add_right_cancel (b := heldBytes fd s) ?_
      rw [hstep, hbooks, inserted_append, bytesOf_append,
        show discarded fd (tr ++ [e]) = discarded fd tr ++ discarded fd [e] from
          List.filterMap_append, bytesOf_append]
      abel
    · rcases Multiset.mem_add.mp hb with hold | hnew
      · obtain ⟨huart, pre, e', post, s₁, rfl, hpre, hdrop⟩ := hlost b hold
        exact ⟨huart, pre, e', post ++ [e], s₁, by simp, hpre, hdrop⟩
      · have hdrop := hmore b hnew
        obtain ⟨w, buf, count, -, huart, -⟩ := hdrop
        exact ⟨huart, tr, e, [], s, rfl, hrun, hmore b hnew⟩

/-- The bytes of the messages inserted are different ones. -/
theorem inserted_nodup {tr : List (Event n)} {s : State n}
    (h : (receiveSystem n queueMaxNum needSockServer).Run tr s) {fd : Fd} (hfd : fd ≠ .sock) :
    ((inserted fd tr).flatMap Message.data).Nodup := by
  obtain ⟨lost, hbooks, -⟩ := run_account h hfd
  have hread : ((s.input fd).read : Multiset InputByte).Nodup :=
    Multiset.coe_nodup.mpr (Input.read_nodup _)
  refine Multiset.coe_nodup.mp (Multiset.nodup_of_le ?_ hread)
  rw [hbooks, add_assoc, add_assoc]
  exact Multiset.le_add_right _ _

/-- **Every byte is in one place.** For every source and every run: the bytes
taken from it, which are all different, are those of the messages inserted,
those of the messages discarded for want of memory, those in workers' hands and
those lost, and a byte is lost only from the UART and only with a chunk that
would have filled the buffer of its `whole_read`. -/
theorem bytes_accounted {tr : List (Event n)} {s : State n}
    (h : (receiveSystem n queueMaxNum needSockServer).Run tr s) {fd : Fd} (hfd : fd ≠ .sock) :
    (s.input fd).read.Nodup ∧ ∃ lost : Multiset InputByte,
      ((s.input fd).read : Multiset InputByte) =
        bytesOf (inserted fd tr) + bytesOf (discarded fd tr) + heldBytes fd s + lost ∧
      ∀ b ∈ lost, fd = .uart ∧ DroppedAlong n queueMaxNum needSockServer fd tr b :=
  ⟨Input.read_nodup _, run_account h hfd⟩

/-- The theorem at work: the three bytes that were read are in the hands of a worker. -/
theorem bytes_accounted_three :
    ∃ tr s, (receiveSystem 5 10 false).Run tr s ∧
      (s.handler 3).held .uart = [(65, 0), (66, 1), (67, 2)] ∧
      ∃ lost : Multiset InputByte, ((s.input .uart).read : Multiset InputByte) =
        bytesOf (inserted .uart tr) + bytesOf (discarded .uart tr) + heldBytes .uart s + lost := by
  obtain ⟨es, s, hrun, hquiet, hinput, -, -, -, hidle⟩ := start_up (n := 5) 10 false (by decide)
    0 1 2 (by decide) (by decide) (by decide) (fun _ => ⟨.uart, true⟩) 3
  obtain ⟨es', s', hround, hpast, -, -⟩ := uart_round 10 false hquiet
    (hidle 3 (by decide) (by decide) (by decide)).1 [65, 66, 67] (by decide) (by decide)
  have hrun' := hrun.append hround
  obtain ⟨-, lost, hbooks, -⟩ := bytes_accounted hrun' (show Fd.uart ≠ .sock by decide)
  refine ⟨_, s', hrun', ?_, lost, hbooks⟩
  rw [hpast.handler, Function.update_self, hinput]
  rfl

end Uartd.Receive
