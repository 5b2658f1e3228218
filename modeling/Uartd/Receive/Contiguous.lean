import Uartd.Receive.Account
import Uartd.Receive.Servers
import Uartd.Receive.SockJobs
import Uartd.Receive.Token
import Uartd.Receive.UartRead

/-!
# Uartd — a message is a piece of the input

The reads of one message of the UART follow each other in the input: between
two of them no other worker reads, because there is one UART reader at a time
(`run_tokens`) and, without the socket server, no other handler reads the UART.
So a message has no gap and nothing from another message in it, whatever the
threads do (`messages_contiguous`).
-/

namespace Uartd.Receive

open Uartd.Lib

variable {n queueMaxNum : ℕ} {needSockServer : Bool}

/-- The size of a message of its source. -/
def Message.Sized (m : Message) : Prop :=
  m.fd = .uart ∧ m.data.length < recvBufSize ∨ m.fd = .pipe ∧ m.data.length ≤ recvBufSize

/-- What a worker holds is a piece of what was taken, and in `whole_read` the
last piece. -/
def HandlerPc.Piece (input : Fd → Input) : HandlerPc → Prop
  | .wholeRead buf => buf <:+ (input .uart).read
  | .toAdd buf => buf <:+: (input .uart).read
  | .toInsert m => m.data <:+: (input m.fd).read ∧ m.Sized
  | _ => True

theorem HandlerPc.Piece.mono {input input' : Fd → Input} {pc : HandlerPc} (h : pc.Piece input)
    (hgrow : ∀ fd, (input fd).read <+: (input' fd).read)
    (hsame : pc.InWholeRead → (input' .uart).read = (input .uart).read) : pc.Piece input' := by
  cases pc with
  | wholeRead buf =>
    show buf <:+ (input' .uart).read
    rw [hsame ⟨buf, rfl⟩]
    exact h
  | toAdd buf => exact List.IsInfix.trans h (hgrow .uart).isInfix
  | toInsert m => exact ⟨h.1.trans (hgrow m.fd).isInfix, h.2⟩
  | _ => trivial

theorem piece_entry {f : Callback} {a : Arg} {pc : HandlerPc} (h : f.entry a = some pc)
    (input : Fd → Input) : pc.Piece input := by
  rcases Callback.entry_cases h with rfl | rfl | rfl | rfl | rfl | ⟨i, rfl⟩
  · trivial
  · trivial
  · exact List.nil_suffix
  · trivial
  · trivial
  · trivial

theorem piece_afterRead {fd : Fd} {data : List InputByte} {input : Fd → Input}
    (h : data <:+: (input fd).read) (hsize : fd = .uart ∧ data.length < recvBufSize ∨
      fd = .pipe ∧ data.length ≤ recvBufSize) : (afterRead fd data).Piece input := by
  unfold afterRead
  split
  · trivial
  · exact ⟨h, hsize⟩

theorem chunk_length_le (inp : Input) (count : ℕ) : (inp.chunk count).length ≤ count :=
  List.length_take_le _ _

section Step

variable {s s' : State n} {e : Event n}

/-- What was taken only grows. -/
theorem read_mono (hok : ∀ fd, (s.input fd).Ok) (hst : Step needSockServer s e s') (fd : Fd) :
    (s.input fd).read <+: (s'.input fd).read := by
  have hupdate : ∀ {fd' : Fd} {inp : Input}, (s.input fd').read <+: inp.read →
      (s.input fd).read <+: (Function.update s.input fd' inp fd).read := by
    intro fd' inp hinp
    by_cases hfd : fd = fd'
    · subst hfd
      rw [Function.update_self]
      exact hinp
    · rw [Function.update_of_ne hfd]
  have hadvance : ∀ (fd' : Fd) (count : ℕ),
      (s.input fd').read <+: ((s.input fd').advance count).read := by
    intro fd' count
    rw [Input.read_advance]
    exact List.prefix_append _ _
  cases hst with
  | uartStore | uartBreak | read | accept => exact hupdate (hadvance _ _)
  | arrive fd' bytes => exact hupdate (by rw [Input.read_arrive (hok fd')])
  | _ => exact List.prefix_rfl

/-- One handler moves, the others keep their pieces. -/
theorem pieces_update {f : Fin n → HandlerPc} {input' : Fd → Input} {w : Fin n} {pc : HandlerPc}
    (hpc : pc.Piece input') (hothers : ∀ x, x ≠ w → (f x).Piece input') (x : Fin n) :
    (Function.update f w pc x).Piece input' := by
  by_cases hx : x = w
  · rw [hx, Function.update_self]
    exact hpc
  · rw [Function.update_of_ne hx]
    exact hothers x hx

/-- **Step lemma.** With one worker in `whole_read` and no other reader of the
UART, pieces stay pieces. -/
theorem pieces_step (h : ∀ x, (s.handler x).Piece s.input) (hok : ∀ fd, (s.input fd).Ok)
    (hshort : ∀ x, (s.handler x).Short)
    (halone : ∀ x y, (s.handler x).InWholeRead → (s.handler y).InWholeRead → x = y)
    (hpipe : ∀ x fd, s.handler x = .toRead fd → fd = .pipe)
    (hst : Step needSockServer s e s') : ∀ x, (s'.handler x).Piece s'.input := by
  have hgrow := read_mono hok hst
  -- the other workers, when `w` reads the UART or something else is read
  have hothers : ∀ {w : Fin n}, (s.handler w).InWholeRead → ∀ x, x ≠ w →
      (s.handler x).Piece s'.input := fun hw x hx =>
    HandlerPc.Piece.mono (h x) hgrow fun hin => absurd (halone x _ hin hw) hx
  have hrest : (s'.input .uart).read = (s.input .uart).read → ∀ x,
      (s.handler x).Piece s'.input := fun hsame x =>
    HandlerPc.Piece.mono (h x) hgrow fun _ => hsame
  cases hst with
  | @start w f a pc pool' hpool hentry =>
    exact pieces_update (piece_entry hentry _) fun x _ => h x
  | finish _ _ => exact pieces_update trivial fun x _ => h x
  | @uartStore buf buf' w count hpc hcount hbody =>
    obtain ⟨-, -, rfl⟩ := wholeReadBody_eq_some_iff.mp hbody
    refine pieces_update ?_ (hothers ⟨buf, hpc⟩)
    show buf ++ _ <:+ (Function.update s.input .uart ((s.input .uart).advance count) .uart).read
    rw [Function.update_self, Input.read_advance]
    have hbuf := h w
    rw [hpc] at hbuf
    obtain ⟨pre, hpre⟩ : buf <:+ (s.input .uart).read := hbuf
    exact ⟨pre, by rw [← hpre, List.append_assoc]⟩
  | @uartBreak buf w count hpc hcount hbody =>
    refine pieces_update ?_ (hothers ⟨buf, hpc⟩)
    have hbuf := h w
    rw [hpc] at hbuf
    exact List.IsInfix.trans (List.IsSuffix.isInfix hbuf) (hgrow .uart).isInfix
  | @add buf w hpc =>
    refine pieces_update ?_ fun x _ => h x
    have hbuf := h w
    have hlt := hshort w
    rw [hpc] at hbuf hlt
    exact piece_afterRead hbuf (.inl ⟨rfl, hlt⟩)
  | @read fd w hpc hsock =>
    obtain rfl := hpipe w fd hpc
    refine pieces_update (piece_afterRead ?_ (.inr ⟨rfl, chunk_length_le _ _⟩))
      fun x _ => hrest ?_ x
    · show _ <:+: (Function.update s.input .pipe ((s.input .pipe).advance recvBufSize) .pipe).read
      rw [Function.update_self, Input.read_advance]
      exact (List.suffix_append _ _).isInfix
    · exact read_of_ne (by decide) _
  | accept w k hpc _ _ _ =>
    exact pieces_update trivial fun x _ => hrest (read_of_ne (by decide) _) x
  | load w hpc | readListening w hpc | acceptFailed w hpc | insert w hpc | initNodeFailed w hpc
  | signal w hpc => exact pieces_update trivial fun x _ => h x
  | arrive fd bytes =>
    refine hrest ?_
    by_cases hfd : .uart = fd
    · subst hfd
      show (Function.update s.input .uart ((s.input .uart).arrive bytes) .uart).read = _
      rw [Function.update_self, Input.read_arrive (hok .uart)]
    · exact read_of_ne hfd _
  | _ => exact h

end Step

/-- At most one worker is in `whole_read`. -/
theorem run_readers_alone {tr : List (Event n)} {s : State n}
    (h : (receiveSystem n queueMaxNum needSockServer).Run tr s) (x y : Fin n)
    (hx : (s.handler x).InWholeRead) (hy : (s.handler y).InWholeRead) : x = y := by
  obtain ⟨q, hinv, -⟩ := run_tokens h
  have hone := hinv.one
  unfold tokens at hone
  exact eq_of_beforeAdd (by omega) hx hy

/-- Without the socket server a read outside `whole_read` is one of the pipe. -/
theorem run_reads_pipe {tr : List (Event n)} {s : State n}
    (h : (receiveSystem n queueMaxNum false).Run tr s) {w : Fin n} {fd : Fd}
    (hw : s.handler w = .toRead fd) : fd = .pipe := by
  have hthreads := run_threadsInv h
  obtain ⟨f, hf⟩ := Option.ne_none_iff_exists'.mp
    (callback_of_handler hthreads (w := w) (by rw [hw]; simp))
  have hat := hthreads.inside w f hf
  rw [hw] at hat
  cases f with
  | pipeConnectHandler => exact hat
  | sockRecvHandler => exact absurd hf (run_no_sockRecv h w)
  | uartConnectHandler | sockAcceptHandler => exact hat.elim
  | _ => cases hat

/-- **Run lemma.** Workers hold pieces of the input, and have inserted pieces. -/
theorem run_pieces {tr : List (Event n)} {s : State n}
    (h : (receiveSystem n queueMaxNum false).Run tr s) :
    (∀ x, (s.handler x).Piece s.input) ∧
      ∀ w m, .insert w m ∈ tr → m.data <:+: (s.input m.fd).read ∧ m.Sized := by
  refine System.Run.invariant (I := fun tr s => (∀ x, (s.handler x).Piece s.input) ∧
    ∀ w m, .insert w m ∈ tr → m.data <:+: (s.input m.fd).read ∧ m.Sized) ?_ ?_ h
  · rintro s ⟨events, rfl⟩
    exact ⟨fun _ => trivial, fun _ _ hm => absurd hm List.not_mem_nil⟩
  · rintro tr s e s' hrun ⟨hpieces, hinserted⟩ hst
    have hok := run_inputOk hrun
    refine ⟨pieces_step hpieces hok (run_short hrun) (run_readers_alone hrun)
      (fun _ _ => run_reads_pipe hrun) hst, fun w m hm => ?_⟩
    have hgrow := read_mono hok hst m.fd
    rcases List.mem_append.mp hm with hold | hnew
    · obtain ⟨hpiece, hsize⟩ := hinserted w m hold
      exact ⟨hpiece.trans hgrow.isInfix, hsize⟩
    · obtain rfl := List.mem_singleton.mp hnew
      have hheld : s.handler w = .toInsert m := by
        cases hst
        assumption
      have hpiece := hpieces w
      rw [hheld] at hpiece
      exact ⟨hpiece.1.trans hgrow.isInfix, hpiece.2⟩

/-- **A message is one piece of the input of its source.** In every run of the
daemon, with any number of workers: a message that was inserted comes from the
UART or the pipe, its bytes stand next to each other in what was taken from
there, in this order, and there are at least one and at most 1023 of them from
the UART, 1024 from the pipe. -/
theorem messages_contiguous {tr : List (Event n)} {s : State n}
    (h : (receiveSystem n queueMaxNum false).Run tr s) {w : Fin n} {m : Message}
    (hm : .insert w m ∈ tr) :
    m.data <:+: (s.input m.fd).read ∧ 1 ≤ m.data.length ∧
      (m.fd = .uart ∧ m.data.length ≤ 1023 ∨ m.fd = .pipe ∧ m.data.length ≤ 1024) := by
  obtain ⟨hpiece, hsize⟩ := (run_pieces h).2 w m hm
  exact ⟨hpiece, List.length_pos_of_ne_nil m.nonempty,
    hsize.imp (And.imp_right Nat.le_of_lt_succ) id⟩

/-- The theorem at work: a message of three bytes of the UART, read one by one. -/
theorem messages_contiguous_three :
    ∃ tr s, (receiveSystem 5 10 false).Run tr s ∧ ∃ w m, .insert w m ∈ tr ∧
      m.data = [(65, 0), (66, 1), (67, 2)] ∧ m.data <:+: (s.input m.fd).read := by
  obtain ⟨tr, s, hrun, hmem⟩ := text_inserted [65, 66, 67] (by decide) (by decide)
  exact ⟨tr, s, hrun, 3, _, hmem, rfl, (messages_contiguous hrun hmem).1⟩

end Uartd.Receive
