import Uartd.Receive.Basic

/-!
# Uartd — rounds of the receive side

The way of input from a descriptor to a message. Between two rounds the receive
side is `Quiet`: the main loop waits in `epoll_wait`, the pool is at rest, all
input has been reported and read. `hand` is how any job gets from the main loop to
a worker; `uart_round` and `pipe_round` bring a text to the worker that is about to
insert it, and leave the rest of the system quiet. `start_up` is how the first
quiet state is reached.
-/

namespace Uartd.Receive

open Uartd.Lib Uartd.ThreadPool

variable {n queueMaxNum : ℕ} {needSockServer : Bool}

structure Quiet (s : State n) (k : ℕ) : Prop where
  main : s.main = .waiting
  rest : AtRest s.pool k
  uart : s.interest .uart ≠ none
  pipe : s.interest .pipe = some .edge
  edge : ∀ fd, s.edge fd = false
  read : ∀ fd, (s.input fd).taken = (s.input fd).arrived.length

/-- Along `es` only worker `w` reads. -/
def ReadsOnlyBy (w : Fin n) (es : List (Event n)) : Prop :=
  ∀ e ∈ es, ∀ x fd kept, e = .read x fd kept → x = w

def InsertsNothing (es : List (Event n)) : Prop := ∀ e ∈ es, ∀ x m, e ≠ .insert x m

/-- Along `es` every call of `threadpool_add_job` that returns succeeds. -/
def RefusesNothing (es : List (Event n)) : Prop :=
  ∀ e ∈ es, ∀ f a, e ≠ .pool (.addRet () f a (-1))

/-- Along `es` the main loop is not back in `epoll_wait`. -/
def WaitsNever (es : List (Event n)) : Prop := ∀ e ∈ es, ∀ batch, e ≠ .epollWait batch

theorem ReadsOnlyBy.append {w : Fin n} {es es' : List (Event n)} (h : ReadsOnlyBy w es)
    (h' : ReadsOnlyBy w es') : ReadsOnlyBy w (es ++ es') :=
  List.forall_mem_append.mpr ⟨h, h'⟩

theorem InsertsNothing.append {es es' : List (Event n)} (h : InsertsNothing es)
    (h' : InsertsNothing es') : InsertsNothing (es ++ es') :=
  List.forall_mem_append.mpr ⟨h, h'⟩

theorem RefusesNothing.append {es es' : List (Event n)} (h : RefusesNothing es)
    (h' : RefusesNothing es') : RefusesNothing (es ++ es') :=
  List.forall_mem_append.mpr ⟨h, h'⟩

theorem WaitsNever.append {es es' : List (Event n)} (h : WaitsNever es) (h' : WaitsNever es') :
    WaitsNever (es ++ es') :=
  List.forall_mem_append.mpr ⟨h, h'⟩

/-- What arrives when all input has been read is what is there to read. -/
theorem unread_arrived {inp : Input} (h : inp.taken = inp.arrived.length) (text : List UInt8) :
    (inp.arrive text).unread = text.zipIdx inp.taken := by
  unfold Input.unread Input.arrive
  have hdone : inp.arrived.zipIdx.drop inp.taken = [] :=
    List.drop_eq_nil_of_le (by rw [List.length_zipIdx, h])
  rw [List.zipIdx_append, List.drop_append, hdone, List.nil_append, List.length_zipIdx, h,
    Nat.sub_self, List.drop_zero, Nat.zero_add]

/-- A read takes its bytes from the front. -/
theorem unread_advance (inp : Input) (count : ℕ) :
    (inp.advance count).unread = inp.unread.drop count := by
  show inp.arrived.zipIdx.drop (inp.taken + (inp.unread.take count).length) = _
  rw [← List.drop_drop, List.length_take]
  show inp.unread.drop _ = _
  rcases Nat.le_total count inp.unread.length with hle | hle
  · rw [Nat.min_eq_left hle]
  · rw [Nat.min_eq_right hle, List.drop_length, List.drop_eq_nil_of_le hle]

theorem advance_zero (inp : Input) : inp.advance 0 = inp := rfl

/-- A text that arrived was read: as many bytes were taken as arrived. -/
def Input.receive (inp : Input) (text : List UInt8) : Input :=
  { arrived := inp.arrived ++ text, taken := inp.taken + text.length }

variable (queueMaxNum needSockServer) in
/-- **A job reaches a worker.** The main loop, about to call `add_job`, gets its
job through a pool at rest to a ready worker. -/
theorem hand {s : State n} {k : ℕ} (hrest : AtRest s.pool k) {w : Fin n}
    (hw : s.pool.worker w = .ready) {f : Callback} {a : Arg} {pc : HandlerPc}
    (hentry : f.entry a = some pc) (next : MainPc)
    (hcall : ∀ pool', ThreadPool.Step s.pool (.call () f a) pool' →
      Step needSockServer s (.pool (.call () f a))
        { s with pool := pool', main := .calling next }) :
    ∃ pool', ((receiveSystem n queueMaxNum needSockServer).startAt s).Run
        [.pool (.call () f a), .pool (.addRet () f a 0), .pool (.dequeue w f a),
          .pool (.start w f a)]
        { s with pool := pool', main := next, handler := Function.update s.handler w pc } ∧
      AtRest pool' (k + 1) ∧ pool'.worker = Function.update s.pool.worker w (.running k f a) := by
  obtain ⟨p₁, p₂, p₃, p₄, hcall', hret, hdeq, hopen, hstart, hrest', hworker⟩ :=
    handOver hrest hw f a
  have h₀ : ((receiveSystem n queueMaxNum needSockServer).startAt s).Run [] s := .init rfl
  have h₁ := h₀.step (hcall p₁ hcall')
  have h₂ := h₁.step (.jobAdded rfl hret)
  have h₃ := h₂.step (Step.pool (e := .dequeue w f a) trivial hdeq hopen)
  have h₄ := h₃.step (Step.start hstart hentry)
  exact ⟨p₄, h₄, hrest', hworker⟩

/-- The message of a text from `fd`, before which `taken` bytes were read. -/
def messageOf (fd : Fd) (text : List UInt8) (hne : text ≠ []) (taken : ℕ) : Message :=
  ⟨fd, text.zipIdx taken, mt List.zipIdx_eq_nil_iff.mp hne⟩

theorem afterRead_text (fd : Fd) {text : List UInt8} (hne : text ≠ []) (taken : ℕ) :
    afterRead fd (text.zipIdx taken) = .toInsert (messageOf fd text hne taken) :=
  dif_neg (mt List.zipIdx_eq_nil_iff.mp hne)

theorem messageOf_bytes (fd : Fd) (text : List UInt8) (hne : text ≠ []) (taken : ℕ) :
    (messageOf fd text hne taken).bytes = text :=
  List.zipIdx_map_fst taken text

/-- What a round from `fd` leaves behind: its text is in a message that worker
`w` is about to insert. -/
structure Round (fd : Fd) (w : Fin n) (text : List UInt8) (hne : text ≠ []) (k : ℕ)
    (s s' : State n) : Prop where
  quiet   : Quiet s' (k + 1)
  handler : s'.handler = Function.update s.handler w
    (.toInsert (messageOf fd text hne (s.input fd).taken))
  worker  : ∀ x, x ≠ w → s'.pool.worker x = s.pool.worker x
  taken   : (s'.input fd).taken = (s.input fd).taken + text.length

/-- A round by its effect: the text arrived and was read, the pool is at rest again. -/
theorem Round.of_input {s s' : State n} {fd : Fd} {w : Fin n} {text : List UInt8} {hne : text ≠ []}
    {k : ℕ} (h : Quiet s k) (hmain : s'.main = .waiting) (hrest : AtRest s'.pool (k + 1))
    (hinterest : s'.interest .uart ≠ none ∧ s'.interest .pipe = some .edge)
    (hedge : ∀ fd, s'.edge fd = false)
    (hinput : s'.input = Function.update s.input fd ((s.input fd).receive text))
    (hhandler : s'.handler = Function.update s.handler w
      (.toInsert (messageOf fd text hne (s.input fd).taken)))
    (hworker : ∀ x, x ≠ w → s'.pool.worker x = s.pool.worker x) : Round fd w text hne k s s' := by
  refine ⟨⟨hmain, hrest, hinterest.1, hinterest.2, hedge, ?_⟩, hhandler, hworker, ?_⟩
  · intro fd'
    rw [hinput]
    by_cases hfd : fd' = fd
    · rw [hfd, Function.update_self, Input.receive, h.read fd, List.length_append]
    · rw [Function.update_of_ne hfd]
      exact h.read fd'
  · rw [hinput, Function.update_self]
    rfl

/-- Input arrives at a descriptor without any, and is reported. -/
theorem edge_reported {edge : Fd → Bool} (h : ∀ fd, edge fd = false) (fd fd' : Fd) :
    (Function.update edge fd true fd' && !(fd' ∈ [fd])) = false := by
  by_cases hfd : fd' = fd
  · simp [hfd]
  · rw [Function.update_of_ne hfd, h]
    rfl

variable (queueMaxNum needSockServer)

/-- A worker comes out of its callback and is ready again. -/
theorem leave {s : State n} {k : ℕ} (hrest : AtRest s.pool k) {w : Fin n} {j : JobId}
    {f : Callback} {a : Arg} (hw : s.pool.worker w = .running j f a)
    (hjob : s.pool.heap j ≠ none) (hreturning : s.handler w = .returning) :
    ∃ pool', ((receiveSystem n queueMaxNum needSockServer).startAt s).Run
        [.pool (.finish w f a), .pool .internal]
        { s with pool := pool', handler := Function.update s.handler w .idle } ∧
      AtRest pool' k ∧ pool'.worker = Function.update s.pool.worker w .ready := by
  obtain ⟨p₁, p₂, hfinish, hfree, hopen, hrest', hworker⟩ := comeBack hrest hw hjob
  have h₀ : ((receiveSystem n queueMaxNum needSockServer).startAt s).Run [] s := .init rfl
  have h₁ := h₀.step (.finish hreturning hfinish)
  have h₂ := h₁.step (Step.pool (e := .internal) trivial hfree hopen)
  exact ⟨p₂, h₂, hrest', hworker⟩

/-- The worker in `whole_read` reads what is there, byte by byte. -/
theorem uart_reads {s : State n} {w : Fin n} {buf rest : List InputByte}
    (hw : s.handler w = .wholeRead buf) (hrest : (s.input .uart).unread = rest)
    (hlen : buf.length + rest.length < recvBufSize) :
    ((receiveSystem n queueMaxNum needSockServer).startAt s).Run
      (rest.map fun b => .read w .uart [b])
      { s with
        input := Function.update s.input .uart { s.input .uart with
          taken := (s.input .uart).taken + rest.length }
        handler := Function.update s.handler w (.wholeRead (buf ++ rest)) } := by
  induction rest generalizing s buf with
  | nil =>
    rw [List.append_nil, ← hw, Function.update_eq_self]
    refine .init ?_
    show { s with input := Function.update s.input .uart (s.input .uart) } = s
    rw [Function.update_eq_self]
  | cons b rest ih =>
    rw [List.length_cons] at hlen
    have hchunk : (s.input .uart).chunk 1 = [b] := by
      rw [Input.chunk, hrest]
      rfl
    have hbody : wholeReadBody recvBufSize buf ((s.input .uart).chunk 1) = some (buf ++ [b]) := by
      rw [hchunk]
      exact wholeReadBody_eq_some_iff.mpr ⟨by simp, by rw [List.length_singleton]; omega, rfl⟩
    have h₀ : ((receiveSystem n queueMaxNum needSockServer).startAt s).Run [] s := .init rfl
    have hread := h₀.step (Step.uartStore w 1 hw (by decide) hbody)
    have hrun := hread.append (ih (Function.update_self w _ s.handler) (by
        dsimp only
        rw [Function.update_self, unread_advance, hrest]
        rfl) (by
        rw [List.length_append, List.length_singleton]
        omega))
    simp only [Function.update_self, Function.update_idem, List.append_assoc, Input.advance,
      hchunk, List.length_singleton] at hrun
    rw [Nat.add_right_comm] at hrun
    exact hrun

/-- A text from the UART: the worker reads until nothing is left and adds the
UART to epoll again before it inserts. -/
theorem uart_round {s : State n} {k : ℕ} (h : Quiet s k) {w : Fin n}
    (hw : s.pool.worker w = .ready) (text : List UInt8) (hne : text ≠ [])
    (hlen : text.length < recvBufSize) :
    ∃ es s', ((receiveSystem n queueMaxNum needSockServer).startAt s).Run es s' ∧
      Round .uart w text hne k s s' ∧ ReadsOnlyBy w es ∧ InsertsNothing es := by
  obtain ⟨s₁, hdel, hpool, hmain, hinterest, hedge, hinput, hhandler⟩ : ∃ s₁ : State n,
      ((receiveSystem n queueMaxNum needSockServer).startAt s).Run
        [.arrive .uart text, .epollWait [⟨.uart, true⟩], .del] s₁ ∧
      s₁.pool = s.pool ∧ s₁.main = .removed 0 1 ∧
      s₁.interest = Function.update s.interest .uart none ∧ (∀ fd, s₁.edge fd = false) ∧
      s₁.input = Function.update s.input .uart ((s.input .uart).arrive text) ∧
      s₁.handler = s.handler := by
    have h₀ : ((receiveSystem n queueMaxNum needSockServer).startAt s).Run [] s := .init rfl
    have harrive := h₀.step (Step.arrive .uart text)
    have hwait := harrive.step (Step.epollWait [⟨.uart, true⟩] h.main (by decide) (by simp) (by
      intro ev hev
      obtain rfl := List.mem_singleton.mp hev
      obtain ⟨t, ht⟩ := Option.ne_none_iff_exists'.mp h.uart
      simp only [State.Reportable, ht]
      cases t with
      | level => trivial
      | edge =>
        show Function.update s.edge .uart true .uart = true
        rw [Function.update_self]))
    have hdel := hwait.step (Step.del (i := 0) rfl (by decide) rfl)
    exact ⟨_, hdel, rfl, rfl, rfl, edge_reported h.edge .uart, rfl, rfl⟩
  obtain ⟨pool', hhand, hrest, hworker⟩ := hand queueMaxNum needSockServer (hpool ▸ h.rest)
    (hpool ▸ hw) (f := .uartConnectHandler) (a := none) rfl (.handling 1 1)
    (fun pool' hstep => Step.uartJob hmain hstep)
  have hend := (hdel.append hhand).step (Step.loopEnd rfl (by decide))
  have hunread : (s₁.input .uart).unread = text.zipIdx (s.input .uart).taken := by
    rw [hinput, Function.update_self, unread_arrived (h.read .uart)]
  have hreads := hend.append (uart_reads queueMaxNum needSockServer (w := w)
    (Function.update_self w _ s₁.handler) hunread
    (by rw [List.length_nil, Nat.zero_add, List.length_zipIdx]; exact hlen))
  have hbreak := hreads.step (Step.uartBreak w 0 (Function.update_self _ _ _) (Nat.zero_le _)
    (by simp [wholeReadBody, Input.chunk]))
  have hadd := hbreak.step (Step.add w (Function.update_self _ _ _))
  refine ⟨_, _, hadd, Round.of_input h rfl hrest ⟨by simp, ?_⟩ hedge ?_ ?_ ?_, ?_, ?_⟩
  · simp [hinterest, h.pipe]
  · simp only [Function.update_self, Function.update_idem, advance_zero, hinput]
    rw [List.length_zipIdx]
    rfl
  · simp only [Function.update_idem, hhandler, List.nil_append, afterRead_text .uart hne]
  · intro x hx
    rw [← hpool]
    show pool'.worker x = _
    rw [hworker, Function.update_of_ne hx]
  · refine .append (.append (.append (by simp [ReadsOnlyBy]) ?_)
      (by simp +contextual [ReadsOnlyBy])) (by simp [ReadsOnlyBy])
    intro e he x fd kept hread
    obtain ⟨b, -, rfl⟩ := List.mem_map.mp he
    exact (Event.read.inj hread).1.symm
  · refine .append (.append (.append (by simp [InsertsNothing]) ?_) (by simp [InsertsNothing]))
      (by simp [InsertsNothing])
    intro e he x m hinsert
    obtain ⟨b, -, rfl⟩ := List.mem_map.mp he
    cases hinsert

/-- A text from the pipe. -/
theorem pipe_round {s : State n} {k : ℕ} (h : Quiet s k) {w : Fin n}
    (hw : s.pool.worker w = .ready) (text : List UInt8) (hne : text ≠ [])
    (hlen : text.length < recvBufSize) :
    ∃ es s', ((receiveSystem n queueMaxNum needSockServer).startAt s).Run es s' ∧
      Round .pipe w text hne k s s' ∧ ReadsOnlyBy w es ∧ InsertsNothing es := by
  obtain ⟨s₁, hwait, hpool, hmain, hevent, hinterest, hedge, hinput, hhandler⟩ : ∃ s₁ : State n,
      ((receiveSystem n queueMaxNum needSockServer).startAt s).Run
        [.arrive .pipe text, .epollWait [⟨.pipe, true⟩]] s₁ ∧
      s₁.pool = s.pool ∧ s₁.main = .handling 0 1 ∧ s₁.events 0 = ⟨.pipe, true⟩ ∧
      s₁.interest = s.interest ∧ (∀ fd, s₁.edge fd = false) ∧
      s₁.input = Function.update s.input .pipe ((s.input .pipe).arrive text) ∧
      s₁.handler = s.handler := by
    have h₀ : ((receiveSystem n queueMaxNum needSockServer).startAt s).Run [] s := .init rfl
    have harrive := h₀.step (Step.arrive .pipe text)
    have hwait := harrive.step (Step.epollWait [⟨.pipe, true⟩] h.main (by decide) (by simp) (by
      intro ev hev
      obtain rfl := List.mem_singleton.mp hev
      simp only [State.Reportable, h.pipe]
      show Function.update s.edge .pipe true .pipe = true
      rw [Function.update_self]))
    exact ⟨_, hwait, rfl, rfl, rfl, rfl, edge_reported h.edge .pipe, rfl, rfl⟩
  obtain ⟨pool', hhand, hrest, hworker⟩ := hand queueMaxNum needSockServer (hpool ▸ h.rest)
    (hpool ▸ hw) (f := .pipeConnectHandler) (a := none) rfl (.handling 1 1)
    (fun pool' hstep => Step.job hmain Nat.one_pos (by simp [hevent]) (by rw [hevent]; rfl) hstep)
  have hend := (hwait.append hhand).step (Step.loopEnd rfl (by decide))
  have hread := hend.step (Step.read w (Function.update_self _ _ _) (by simp))
  have hchunk : (s₁.input .pipe).chunk recvBufSize = text.zipIdx (s.input .pipe).taken := by
    rw [hinput, Function.update_self, Input.chunk, unread_arrived (h.read .pipe)]
    exact List.take_of_length_le (by rw [List.length_zipIdx]; exact Nat.le_of_lt hlen)
  refine ⟨_, _, hread, Round.of_input h rfl hrest ⟨?_, ?_⟩ hedge ?_ ?_ ?_, ?_, ?_⟩
  · simp only [hinterest]
    exact h.uart
  · simp only [hinterest]
    exact h.pipe
  · dsimp only
    rw [Input.advance, hchunk, List.length_zipIdx, hinput, Function.update_self,
      Function.update_idem]
    rfl
  · dsimp only
    rw [hchunk, Function.update_idem, hhandler, afterRead_text .pipe hne]
  · intro x hx
    rw [← hpool]
    show pool'.worker x = _
    rw [hworker, Function.update_of_ne hx]
  · simp +contextual [ReadsOnlyBy]
  · simp [InsertsNothing]

/-- One of the jobs added before the loop. -/
theorem start_job {s : State n} {j k : ℕ} {f : Callback} {pc : HandlerPc}
    (hmain : s.main = .starting j) (hf : startJobs[j]? = some f) (hentry : f.entry none = some pc)
    (hrest : AtRest s.pool k) {w : Fin n} (hw : s.pool.worker w = .ready) (x : Fin n) :
    ∃ es s', ((receiveSystem n queueMaxNum needSockServer).startAt s).Run es s' ∧
      s'.main = .starting (j + 1) ∧ AtRest s'.pool (k + 1) ∧ s'.interest = s.interest ∧
      s'.edge = s.edge ∧ s'.input = s.input ∧
      (ReadsOnlyBy x es ∧ InsertsNothing es ∧ RefusesNothing es ∧ WaitsNever es) ∧
      s'.pool.worker = Function.update s.pool.worker w (.running k f none) ∧
      ∀ y, y ≠ w → s'.handler y = s.handler y := by
  obtain ⟨pool', hrun, hrest', hworker⟩ := hand queueMaxNum needSockServer hrest hw hentry
    (.starting (j + 1)) (fun pool' hstep => Step.startJob hmain hf hstep)
  refine ⟨_, _, hrun, rfl, hrest', rfl, rfl, rfl, ⟨by simp [ReadsOnlyBy],
    by simp [InsertsNothing], by simp [RefusesNothing], by simp [WaitsNever]⟩, hworker, ?_⟩
  intro y hy
  exact Function.update_of_ne hy _ _

/-- The workers once `w₀`, `w₁` and `w₂` have the jobs added before the loop. -/
def startWorkers (w₀ w₁ w₂ : Fin n) : Fin n → WorkerPc Callback Arg :=
  Function.update (Function.update (Function.update (fun _ => .ready)
    w₀ (.running 0 .dataProcess none)) w₁ (.running 1 .sendOutHandler none))
    w₂ (.running 2 .initDataToBtOnstart none)

/-- The jobs added before the loop get to three workers, and the loop begins. -/
theorem start_up (hmax : 0 < queueMaxNum) (w₀ w₁ w₂ : Fin n) (h₁₀ : w₁ ≠ w₀) (h₂₀ : w₂ ≠ w₀)
    (h₂₁ : w₂ ≠ w₁) (events : ℕ → EpollEvent) (x : Fin n) :
    ∃ es s, (receiveSystem n queueMaxNum needSockServer).Run es s ∧ Quiet s 3 ∧
      (∀ fd, s.input fd = { arrived := [], taken := 0 }) ∧ s.interest = registered needSockServer ∧
      (ReadsOnlyBy x es ∧ InsertsNothing es ∧ RefusesNothing es ∧ WaitsNever es) ∧
      s.pool.worker = startWorkers w₀ w₁ w₂ ∧
      ∀ y, y ≠ w₀ → y ≠ w₁ → y ≠ w₂ → s.pool.worker y = .ready ∧ s.handler y = .idle := by
  have hinit : (receiveSystem n queueMaxNum needSockServer).Run []
      (epollStart n queueMaxNum needSockServer events) := .init ⟨events, rfl⟩
  obtain ⟨es₀, s₀, hrun₀, hmain₀, hrest₀, hint₀, hedge₀, hinp₀, ⟨hreads₀, hins₀, href₀, hwait₀⟩,
    hwork₀, hhand₀⟩ := start_job queueMaxNum needSockServer
      (s := epollStart n queueMaxNum needSockServer events) (w := w₀) rfl rfl rfl
      (atRest_init (Int.natCast_pos.mpr hmax)) rfl x
  obtain ⟨es₁, s₁, hrun₁, hmain₁, hrest₁, hint₁, hedge₁, hinp₁, ⟨hreads₁, hins₁, href₁, hwait₁⟩,
    hwork₁, hhand₁⟩ := start_job queueMaxNum needSockServer (w := w₁) hmain₀ rfl rfl hrest₀
      (by rw [hwork₀, Function.update_of_ne h₁₀]; rfl) x
  obtain ⟨es₂, s₂, hrun₂, hmain₂, hrest₂, hint₂, hedge₂, hinp₂, ⟨hreads₂, hins₂, href₂, hwait₂⟩,
    hwork₂, hhand₂⟩ := start_job queueMaxNum needSockServer (w := w₂) hmain₁ rfl rfl hrest₁
      (by rw [hwork₁, Function.update_of_ne h₂₁, hwork₀, Function.update_of_ne h₂₀]; rfl) x
  have hrun := (((hinit.append hrun₀).append hrun₁).append hrun₂).step (Step.started hmain₂ rfl)
  have hinput : s₂.input = fun _ => { arrived := [], taken := 0 } := by
    rw [hinp₂, hinp₁, hinp₀]
    rfl
  have hinterest : s₂.interest = registered needSockServer := by
    rw [hint₂, hint₁, hint₀]
    rfl
  have hworker : s₂.pool.worker = startWorkers w₀ w₁ w₂ := by
    rw [hwork₂, hwork₁, hwork₀]
    rfl
  have hedge : s₂.edge = fun _ => false := by
    rw [hedge₂, hedge₁, hedge₀]
    rfl
  refine ⟨_, _, hrun, ⟨rfl, hrest₂, ?_, ?_, ?_, ?_⟩, ?_, hinterest, ⟨?_, ?_, ?_, ?_⟩, hworker, ?_⟩
  · simp [hinterest, registered]
  · simp [hinterest, registered]
  · intro fd
    simp [hedge]
  · intro fd
    simp [hinput]
  · intro fd
    simp [hinput]
  · rw [List.nil_append]
    exact ((hreads₀.append hreads₁).append hreads₂).append (by simp [ReadsOnlyBy])
  · rw [List.nil_append]
    exact ((hins₀.append hins₁).append hins₂).append (by simp [InsertsNothing])
  · rw [List.nil_append]
    exact ((href₀.append href₁).append href₂).append (by simp [RefusesNothing])
  · rw [List.nil_append]
    exact ((hwait₀.append hwait₁).append hwait₂).append (by simp [WaitsNever])
  · intro y h₀ h₁ h₂
    refine ⟨?_, (hhand₂ y h₂).trans ((hhand₁ y h₁).trans (hhand₀ y h₀))⟩
    show s₂.pool.worker y = .ready
    rw [hworker, startWorkers, Function.update_of_ne h₂, Function.update_of_ne h₁,
      Function.update_of_ne h₀]

/-- A run in which a text of the UART is read and inserted. -/
theorem text_inserted (text : List UInt8) (hne : text ≠ []) (hlen : text.length < recvBufSize) :
    ∃ tr s, (receiveSystem 5 10 false).Run tr s ∧
      .insert 3 (messageOf .uart text hne 0) ∈ tr := by
  obtain ⟨es, s, hrun, hquiet, hinput, -, -, -, hidle⟩ := start_up (n := 5) 10 false (by decide)
    0 1 2 (by decide) (by decide) (by decide) (fun _ => ⟨.uart, true⟩) 3
  obtain ⟨es', s', hround, hpast, -, -⟩ := uart_round 10 false hquiet
    (hidle 3 (by decide) (by decide) (by decide)).1 text hne hlen
  have hw : s'.handler 3 = .toInsert (messageOf .uart text hne 0) := by
    rw [hpast.handler, Function.update_self, hinput]
  exact ⟨_, _, (hrun.append hround).step (Step.insert 3 hw), by simp⟩

end Uartd.Receive
