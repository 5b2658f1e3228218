import Uartd.Receive.Token

/-!
# Uartd — input stranded in the pipe

The pipe is registered with `EPOLLET`, so the daemon looks at it again only when
something new arrives. What is to look at it is an attempt: a pending edge, an
event the main loop has yet to turn into a job, a job on its way, or a worker in
`pipe_connect_handler` before its read. `pipeInv_step` keeps the books of the
attempts: a write brings one unless an edge is already pending, a read uses one
up, and so does an `add_job` that fails.

A handler reads once, and at most `recvBufSize` bytes. So bytes are stranded
exactly when the last attempt leaves some behind (`stranded_step`).
-/

namespace Uartd.Receive

open Uartd.Lib Uartd.ThreadPool

variable {n queueMaxNum : ℕ} {needSockServer : Bool}

-- ---------------------------------------------------------------------------
-- Attempts
-- ---------------------------------------------------------------------------

/-- A worker in `pipe_connect_handler` before its read. -/
def beforePipeRead : Option Callback × HandlerPc → ℕ
  | (some .pipeConnectHandler, .toRead _) => 1
  | _ => 0

/-- Each worker's callback, and where it is there. -/
def State.places (s : State n) (w : Fin n) : Option Callback × HandlerPc :=
  (s.callback? w, s.handler w)

/-- What is to look at the pipe; `q` is the chain of the pool. -/
def attempts (s : State n) (q : List (Entry Callback Arg)) : ℕ :=
  (if s.edge .pipe then 1 else 0) + s.pending.count .pipe +
    jobsOf .pipeConnectHandler (pendingJobs s.pool q) + total beforePipeRead s.places

/-- The attempts a step uses up. A read of the pipe by `sock_recv_handler` uses
none. -/
def State.spent (s : State n) : Event n → ℕ
  | .read w .pipe _ => if s.callback? w = some .pipeConnectHandler then 1 else 0
  | .pool e => jobsOf .pipeConnectHandler (ofOption e.refused?)
  | _ => 0

/-- The attempts a step brings. -/
def State.raised (s : State n) : Event n → ℕ
  | .arrive .pipe _ => if s.edge .pipe then 0 else 1
  | _ => 0

structure PipeInv (queueMaxNum : ℕ) (s : State n) (q : List (Entry Callback Arg)) : Prop where
  pool : Inv queueMaxNum s.pool q
  edge : s.interest .pipe = some .edge

theorem beforePipeRead_other (c : Option Callback) {pc : HandlerPc} (h : ∀ fd, pc ≠ .toRead fd) :
    beforePipeRead (c, pc) = 0 := by
  unfold beforePipeRead
  split
  · rename_i heq
    exact absurd (congrArg Prod.snd heq) (h _)
  · rfl

theorem beforePipeRead_of_ne {c : Option Callback} (h : c ≠ some .pipeConnectHandler)
    (pc : HandlerPc) : beforePipeRead (c, pc) = 0 := by
  unfold beforePipeRead
  split
  · rename_i heq
    exact absurd (congrArg Prod.fst heq) h
  · rfl

theorem entry_beforePipeRead {f : Callback} {a : Arg} {pc : HandlerPc} (h : f.entry a = some pc) :
    beforePipeRead (some f, pc) = jobsOf .pipeConnectHandler (ofOption (some (f, a))) := by
  rw [jobsOf_ofOption]
  by_cases hf : f = .pipeConnectHandler
  · subst hf
    obtain rfl : .toRead .pipe = pc := Option.some.inj h
    rfl
  · rw [if_neg hf]
    exact beforePipeRead_of_ne (fun hsome => hf (Option.some.inj hsome)) pc

theorem afterRead_ne_toRead (fd : Fd) (data : List InputByte) (fd' : Fd) :
    afterRead fd data ≠ .toRead fd' := by
  unfold afterRead
  split <;> simp

theorem dispatch_pipe_iff {i : ℕ} {ev : EpollEvent} {f : Callback} {a : Arg}
    (h : dispatch needSockServer i ev = some (f, a)) :
    f = .pipeConnectHandler ↔ ev.fd = .pipe := by
  unfold dispatch at h
  split at h
  · rename_i hev
    obtain ⟨rfl, -⟩ := Prod.mk.inj (Option.some.inj h)
    simp [hev]
  · rename_i hev
    obtain ⟨rfl, -⟩ := Prod.mk.inj (Option.some.inj h)
    simp [hev]
  · rename_i hev
    split at h
    · obtain ⟨rfl, -⟩ := Prod.mk.inj (Option.some.inj h)
      simp [hev]
    · cases h
  · rename_i hev
    split at h
    · obtain ⟨rfl, -⟩ := Prod.mk.inj (Option.some.inj h)
      simp [hev]
    · cases h

-- ---------------------------------------------------------------------------
-- Steps
-- ---------------------------------------------------------------------------

/-- Two functions changed at one point. -/
theorem update_pair {ι α β : Type} [DecidableEq ι] (f : ι → α) (g : ι → β) (i : ι) (a : α) (b : β) :
    (fun j => (Function.update f i a j, Function.update g i b j)) =
      Function.update (fun j => (f j, g j)) i (a, b) := by
  funext j
  by_cases hj : j = i
  · rw [hj, Function.update_self, Function.update_self, Function.update_self]
  · rw [Function.update_of_ne hj, Function.update_of_ne hj, Function.update_of_ne hj]

theorem update_places (s : State n) (w : Fin n) (pc : HandlerPc) :
    (fun x => (s.callback? x, Function.update s.handler w pc x)) =
      Function.update s.places w (s.callback? w, pc) := by
  have hpair := update_pair s.callback? s.handler w (s.callback? w) pc
  rw [Function.update_eq_self] at hpair
  exact hpair

/-- A step of one handler. -/
theorem PipeInv.handler {s : State n} {q : List (Entry Callback Arg)} (h : PipeInv queueMaxNum s q)
    (w : Fin n) (pc : HandlerPc) {interest : Fd → Option Trigger}
    (hpipe : interest .pipe = s.interest .pipe) (input : Fd → Input) :
    ∃ q', PipeInv queueMaxNum { s with
        interest := interest, input := input, handler := Function.update s.handler w pc } q' ∧
      attempts { s with
        interest := interest, input := input, handler := Function.update s.handler w pc } q' +
          beforePipeRead (s.places w) =
        attempts s q + beforePipeRead (s.callback? w, pc) := by
  refine ⟨q, ⟨h.pool, hpipe.trans h.edge⟩, ?_⟩
  have htotal := total_update (w := beforePipeRead) (f := s.places) w (s.callback? w, pc)
  rw [← update_places] at htotal
  unfold attempts
  show _ + _ + _ + total beforePipeRead
    (fun x => (s.callback? x, Function.update s.handler w pc x)) + _ = _
  show (if s.edge .pipe then 1 else 0) + s.pending.count .pipe +
    jobsOf .pipeConnectHandler (pendingJobs s.pool q) + _ + _ = _
  omega

/-- A step of one handler that does not read the pipe. -/
theorem PipeInv.handler_other {s : State n} {q : List (Entry Callback Arg)}
    (h : PipeInv queueMaxNum s q) {w : Fin n} {pc : HandlerPc}
    (hfrom : beforePipeRead (s.places w) = 0) (hto : beforePipeRead (s.callback? w, pc) = 0)
    {interest : Fd → Option Trigger} (hpipe : interest .pipe = s.interest .pipe)
    (input : Fd → Input) :
    ∃ q', PipeInv queueMaxNum { s with
        interest := interest, input := input, handler := Function.update s.handler w pc } q' ∧
      attempts { s with
        interest := interest, input := input, handler := Function.update s.handler w pc } q' + 0 =
        attempts s q + 0 := by
  obtain ⟨q', hinv, hbooks⟩ := h.handler w pc hpipe input
  rw [hfrom, hto] at hbooks
  exact ⟨q', hinv, hbooks⟩

/-- A step of the main loop alone. -/
theorem PipeInv.move {s : State n} {q : List (Entry Callback Arg)} (h : PipeInv queueMaxNum s q)
    {main' : MainPc} {interest : Fd → Option Trigger}
    (hpipe : interest .pipe = s.interest .pipe)
    (htodo : (main'.todo.map fun j => (s.events j).fd).count .pipe = s.pending.count .pipe) :
    ∃ q', PipeInv queueMaxNum { s with interest := interest, main := main' } q' ∧
      attempts { s with interest := interest, main := main' } q' + 0 = attempts s q + 0 := by
  refine ⟨q, ⟨h.pool, hpipe.trans h.edge⟩, ?_⟩
  show _ + (main'.todo.map fun j => (s.events j).fd).count .pipe + _ + _ + 0 = _
  rw [htodo]
  rfl

/-- A step of the pool, with the main loop or a handler: a call takes its
attempt from the main loop, a start gives it to the handler. -/
theorem PipeInv.poolStep {s : State n} {q : List (Entry Callback Arg)}
    (h : PipeInv queueMaxNum s q) {pool' : ThreadPool.State n Unit Callback Arg}
    {e : ThreadPool.Event n Unit Callback Arg} (hst : ThreadPool.Step s.pool e pool')
    {main' : MainPc} {handler' : Fin n → HandlerPc}
    (hcount : (main'.todo.map fun j => (s.events j).fd).count .pipe +
        jobsOf .pipeConnectHandler (ofOption e.called?) +
        total beforePipeRead (fun x => ((pool'.worker x).callback?, handler' x)) =
      s.pending.count .pipe + jobsOf .pipeConnectHandler (ofOption e.started?) +
        total beforePipeRead s.places) :
    ∃ q', PipeInv queueMaxNum { s with pool := pool', main := main', handler := handler' } q' ∧
      attempts { s with pool := pool', main := main', handler := handler' } q' +
        jobsOf .pipeConnectHandler (ofOption e.refused?) = attempts s q + 0 := by
  obtain ⟨q', hinv, hjobs⟩ := jobsOf_step .pipeConnectHandler h.pool hst
  refine ⟨q', ⟨hinv, h.edge⟩, ?_⟩
  unfold attempts
  show (if s.edge .pipe then 1 else 0) + (main'.todo.map fun j => (s.events j).fd).count .pipe +
    jobsOf .pipeConnectHandler (pendingJobs pool' q') +
    total beforePipeRead (fun x => ((pool'.worker x).callback?, handler' x)) + _ = _
  omega

/-- A step of the pool outside the callbacks. -/
theorem PipeInv.poolStep_other {s : State n} {q : List (Entry Callback Arg)}
    (h : PipeInv queueMaxNum s q) {pool' : ThreadPool.State n Unit Callback Arg}
    {e : ThreadPool.Event n Unit Callback Arg} (hst : ThreadPool.Step s.pool e pool')
    (hstart : ∀ w f a, e ≠ .start w f a) (hfinish : ∀ w f a, e ≠ .finish w f a)
    {main' : MainPc}
    (hcount : (main'.todo.map fun j => (s.events j).fd).count .pipe +
      jobsOf .pipeConnectHandler (ofOption e.called?) = s.pending.count .pipe) :
    ∃ q', PipeInv queueMaxNum { s with pool := pool', main := main' } q' ∧
      attempts { s with pool := pool', main := main' } q' +
        jobsOf .pipeConnectHandler (ofOption e.refused?) = attempts s q + 0 := by
  refine h.poolStep hst ?_
  have hsame := congrFun (callback_other hst hstart hfinish)
  have hplaces : (fun x => ((pool'.worker x).callback?, s.handler x)) = s.places := by
    funext x
    exact congrArg (·, s.handler x) (hsame x)
  have hstarted : e.started? = none := by
    cases e with
    | start w f a => exact absurd rfl (hstart w f a)
    | _ => rfl
  rw [hplaces, hstarted, hcount]
  rfl

/-- The edge that is reported was pending. -/
theorem reported_edge {s : State n} {batch : List EpollEvent}
    (hedge : s.interest .pipe = some .edge) (hnodup : (batch.map EpollEvent.fd).Nodup)
    (hready : ∀ ev ∈ batch, s.Reportable ev.fd) :
    (if (s.edge .pipe && !(.pipe ∈ batch.map EpollEvent.fd : Bool)) = true then 1 else 0) +
        (batch.map EpollEvent.fd).count .pipe = if s.edge .pipe then 1 else 0 := by
  by_cases hmem : .pipe ∈ batch.map EpollEvent.fd
  · obtain ⟨ev, hev, hfd⟩ := List.mem_map.mp hmem
    have hreport := hready ev hev
    rw [hfd] at hreport
    have hpending : s.edge .pipe = true := by
      simpa only [State.Reportable, hedge] using hreport
    rw [List.count_eq_one_of_mem hnodup hmem]
    simp [hmem, hpending]
  · rw [List.count_eq_zero_of_not_mem hmem]
    simp [hmem]

/-- **Step lemma.** -/
theorem pipeInv_step {s s' : State n} {e : Event n} {q : List (Entry Callback Arg)}
    (h : PipeInv queueMaxNum s q) (hthreads : ThreadsInv s) (hst : Step needSockServer s e s') :
    ∃ q', PipeInv queueMaxNum s' q' ∧ attempts s' q' + s.spent e = attempts s q + s.raised e := by
  cases hst with
  | @startJob k f pool' hmain hjob hpool =>
    have hf := (startJobs_ne hjob).2
    refine h.poolStep_other hpool (by simp) (by simp) ?_
    rw [State.pending, hmain]
    show 0 + jobsOf .pipeConnectHandler (ofOption (some (f, none))) = 0
    rw [jobsOf_ofOption, if_neg hf]
  | started hmain _ => exact h.move rfl (by rw [State.pending, hmain]; rfl)
  | @epollWait batch hmain hlen hnodup hready =>
    refine ⟨q, ⟨h.pool, h.edge⟩, ?_⟩
    have hnone : s.pending = [] := by
      rw [State.pending, hmain]
      rfl
    have hcount := reported_edge h.edge hnodup hready
    unfold attempts
    rw [hnone, State.pending, pending_of_batch]
    show _ + _ + jobsOf .pipeConnectHandler (pendingJobs s.pool q) + total beforePipeRead s.places +
      0 = _ + 0 + _ + _ + 0
    rw [hcount]
    omega
  | @del i nfds hmain hlt hfd =>
    refine h.move (Function.update_of_ne (by simp) _ _) ?_
    rw [State.pending, hmain, todo_handling hlt, List.map_cons, hfd,
      List.count_cons_of_ne (by simp)]
    rfl
  | @uartJob i nfds pool' hmain hpool =>
    refine h.poolStep_other hpool (by simp) (by simp) ?_
    rw [State.pending, hmain]
    show _ + jobsOf .pipeConnectHandler (ofOption (some (.uartConnectHandler, none))) = _
    rw [jobsOf_ofOption, if_neg (by simp)]
    rfl
  | @job i nfds f a pool' hmain hlt hfd hdisp hpool =>
    refine h.poolStep_other hpool (by simp) (by simp) ?_
    rw [State.pending, hmain, todo_handling hlt, List.map_cons]
    show _ + jobsOf .pipeConnectHandler (ofOption (some (f, a))) = _
    rw [jobsOf_ofOption, List.count_cons]
    simp only [dispatch_pipe_iff hdisp, beq_iff_eq]
    rfl
  | @nothing i nfds hmain hlt hdisp =>
    have hfd : (s.events i).fd ≠ Fd.pipe := by
      intro hfd
      simp [dispatch, hfd] at hdisp
    refine h.move rfl ?_
    rw [State.pending, hmain, todo_handling hlt, List.map_cons, List.count_cons_of_ne hfd]
  | @loopEnd i nfds hmain hlt =>
    refine h.move rfl ?_
    have hnone : nfds - i = 0 := by omega
    rw [State.pending, hmain]
    show _ = ((List.range' i (nfds - i)).map fun j => (s.events j).fd).count Fd.pipe
    rw [hnone]
    rfl
  | jobAdded hmain hpool =>
    refine h.poolStep_other hpool (by simp) (by simp) ?_
    rw [State.pending, hmain]
    rfl
  | @pool e pool' hown hpool hopen =>
    refine h.poolStep_other hpool ?_ ?_ ?_
    · rintro w f a rfl
      exact hown
    · rintro w f a rfl
      exact hown
    · cases e with
      | internal | dequeue w f a => rfl
      | _ => exact hown.elim
  | @start w f a pc pool' hpool hentry =>
    refine h.poolStep hpool ?_
    have hcallback := callback_start hpool
    have hplaces : (fun x => ((pool'.worker x).callback?, Function.update s.handler w pc x)) =
        Function.update s.places w (some f, pc) := by
      simp only [congrFun hcallback]
      exact update_pair _ _ w _ _
    have htotal := total_update (w := beforePipeRead) (f := s.places) w (some f, pc)
    have hbefore : beforePipeRead (s.places w) = 0 :=
      beforePipeRead_of_ne (by rw [State.callback?, (callback_of_start hpool).1]; simp) _
    have hentered := entry_beforePipeRead hentry
    rw [hplaces]
    show s.pending.count .pipe + 0 + _ =
      _ + jobsOf .pipeConnectHandler (ofOption (some (f, a))) + _
    omega
  | @finish w f a pool' hpc hpool =>
    refine h.poolStep hpool ?_
    have hcallback := callback_finish hpool
    have hplaces : (fun x => ((pool'.worker x).callback?, Function.update s.handler w .idle x)) =
        Function.update s.places w (none, .idle) := by
      simp only [congrFun hcallback]
      exact update_pair _ _ w _ _
    have hbefore : beforePipeRead (s.places w) = 0 :=
      beforePipeRead_other _ (by rw [hpc]; simp)
    rw [hplaces, total_update_eq (hbefore ▸ rfl)]
    rfl
  | uartStore w count hpc hcount hbody | uartBreak w count hpc hcount hbody =>
    exact h.handler_other (beforePipeRead_other _ (by simp [hpc]))
      (beforePipeRead_other _ (by simp)) rfl _
  | add w hpc =>
    exact h.handler_other (beforePipeRead_other _ (by simp [hpc]))
      (beforePipeRead_other _ (afterRead_ne_toRead _ _)) (Function.update_of_ne (by simp) _ _) _
  | @load i w hpc =>
    have hcallback := hthreads.callback_ne (f := .pipeConnectHandler) (by rw [hpc]; exact id)
    exact h.handler_other (beforePipeRead_of_ne hcallback _) (beforePipeRead_of_ne hcallback _)
      rfl _
  | @read fd w hpc hfd =>
    by_cases hcallback : s.callback? w = some .pipeConnectHandler
    · -- the read of a pipe_connect_handler
      obtain rfl : fd = .pipe := by
        have hat := hthreads.inside w _ hcallback
        rw [hpc] at hat
        exact hat
      obtain ⟨q', hinv, hbooks⟩ := h.handler w
        (afterRead .pipe ((s.input .pipe).chunk recvBufSize))
        (rfl : s.interest .pipe = s.interest .pipe)
        (Function.update s.input .pipe ((s.input .pipe).advance recvBufSize))
      refine ⟨q', hinv, ?_⟩
      rw [beforePipeRead_other _ (afterRead_ne_toRead _ _), State.places, hcallback, hpc] at hbooks
      show _ + (if s.callback? w = some .pipeConnectHandler then 1 else 0) = _
      rw [if_pos hcallback]
      exact hbooks
    · obtain ⟨q', hinv, hbooks⟩ := h.handler_other
        (beforePipeRead_of_ne hcallback (s.handler w))
        (beforePipeRead_of_ne hcallback (afterRead fd ((s.input fd).chunk recvBufSize)))
        (rfl : s.interest .pipe = s.interest .pipe)
        (Function.update s.input fd ((s.input fd).advance recvBufSize))
      refine ⟨q', hinv, ?_⟩
      have hspent : s.spent (.read w fd ((s.input fd).chunk recvBufSize)) = 0 := by
        cases fd with
        | pipe => exact if_neg hcallback
        | _ => rfl
      rw [hspent]
      exact hbooks
  | readListening w hpc =>
    have hcallback := hthreads.callback_ne (f := .pipeConnectHandler)
      (by rw [hpc]; simp [Callback.At])
    exact h.handler_other (beforePipeRead_of_ne hcallback _) (beforePipeRead_of_ne hcallback _)
      rfl _
  | accept w k hpc hreq hfree hnew =>
    exact h.handler_other (beforePipeRead_other _ (by simp [hpc]))
      (beforePipeRead_other _ (by simp)) (Function.update_of_ne (by simp) _ _) _
  | acceptFailed w hpc | insert w hpc | initNodeFailed w hpc | signal w hpc =>
    exact h.handler_other (beforePipeRead_other _ (by simp [hpc]))
      (beforePipeRead_other _ (by simp)) rfl _
  | arrive fd bytes =>
    refine ⟨q, ⟨h.pool, h.edge⟩, ?_⟩
    by_cases hfd : fd = .pipe
    · subst hfd
      unfold attempts
      show (if Function.update s.edge .pipe true .pipe = true then 1 else 0) + _ + _ + _ + 0 =
        _ + (if s.edge .pipe then 0 else 1)
      rw [Function.update_self, if_pos rfl]
      show 1 + s.pending.count .pipe + jobsOf .pipeConnectHandler (pendingJobs s.pool q) +
        total beforePipeRead s.places + 0 = _
      split <;> omega
    · have hraised : s.raised (.arrive fd bytes) = 0 := by
        cases fd with
        | pipe => exact absurd rfl hfd
        | _ => rfl
      rw [hraised]
      unfold attempts
      show (if Function.update s.edge fd true .pipe = true then 1 else 0) + _ + _ + _ + 0 = _
      rw [Function.update_of_ne (Ne.symm hfd)]
      rfl

-- ---------------------------------------------------------------------------
-- Stranded input
-- ---------------------------------------------------------------------------

/-- How much a step reads from the pipe at most. -/
def Event.pipeRead : Event n → ℕ
  | .read _ .pipe _ => recvBufSize
  | _ => 0

/-- A step, and the input in the pipe. -/
theorem unread_step {s s' : State n} {e : Event n} (hst : Step needSockServer s e s')
    (he : ∀ bytes, e ≠ .arrive .pipe bytes) :
    (s'.input .pipe).unread = (s.input .pipe).unread.drop e.pipeRead := by
  have hother : ∀ {fd : Fd} {inp : Input}, fd ≠ .pipe →
      (Function.update s.input fd inp .pipe).unread = (s.input .pipe).unread := by
    intro fd inp hfd
    rw [Function.update_of_ne (Ne.symm hfd)]
  cases hst with
  | uartStore w count hpc hcount hbody =>
    exact hother (by simp)
  | uartBreak w count hpc hcount hbody =>
    exact hother (by simp)
  | @read fd w hpc hfd =>
    by_cases hpipe : fd = .pipe
    · subst hpipe
      show (Function.update s.input .pipe ((s.input .pipe).advance recvBufSize) .pipe).unread = _
      rw [Function.update_self]
      exact unread_advance _ _
    · have hzero : Event.pipeRead (.read w fd ((s.input fd).chunk recvBufSize)) = 0 := by
        cases fd with
        | pipe => exact absurd rfl hpipe
        | _ => rfl
      rw [hzero]
      exact hother hpipe
  | accept w k hpc hreq hfree hnew =>
    exact hother (by simp)
  | arrive fd bytes =>
    have hfd : fd ≠ .pipe := by
      rintro rfl
      exact he bytes rfl
    exact hother hfd
  | _ => rfl

/-- There is input in the pipe, and nothing is to look at it. -/
def Stranded (s : State n) (q : List (Entry Callback Arg)) : Prop :=
  (s.input .pipe).unread ≠ [] ∧ attempts s q = 0

/-- If the step uses up the last attempt, it takes all there is in the pipe: a
read finds at most `recvBufSize` bytes, a refused job was for an empty pipe. -/
def LeavesNothing (s : State n) (e : Event n) : Prop :=
  s.spent e = 1 → (∀ q, Rep s.pool.pool s.pool.heap q → attempts s q = 1) →
    (s.input .pipe).unread.length ≤ e.pipeRead

theorem spent_le_one (s : State n) (e : Event n) : s.spent e ≤ 1 := by
  cases e with
  | read w fd kept =>
    cases fd with
    | pipe =>
      show (if _ then 1 else 0) ≤ 1
      split <;> omega
    | _ => exact Nat.zero_le _
  | pool e =>
    cases e with
    | addRet p f a v =>
      show jobsOf .pipeConnectHandler (ofOption (if v = -1 then some (f, a) else none)) ≤ 1
      split
      · rw [jobsOf_ofOption]
        split <;> omega
      · exact Nat.zero_le _
    | _ => exact Nat.zero_le _
  | _ => exact Nat.zero_le _

/-- **Step lemma.** Input is stranded by the step that uses up the last attempt
and leaves some behind, and by no other. -/
theorem stranded_step {s s' : State n} {e : Event n} {q : List (Entry Callback Arg)}
    (h : PipeInv queueMaxNum s q) (hthreads : ThreadsInv s) (hst : Step needSockServer s e s')
    (hs : ¬ Stranded s q) :
    ∃ q', PipeInv queueMaxNum s' q' ∧ (Stranded s' q' ↔ ¬ LeavesNothing s e) := by
  obtain ⟨q', hinv, hbooks⟩ := pipeInv_step h hthreads hst
  refine ⟨q', hinv, ?_⟩
  have hattempts : (∀ q, Rep s.pool.pool s.pool.heap q → attempts s q = 1) ↔ attempts s q = 1 := by
    refine ⟨fun hall => hall q h.pool.chain.rep, fun hone q₁ hq₁ => ?_⟩
    rw [hq₁.functional h.pool.chain.rep]
    exact hone
  unfold LeavesNothing
  rw [hattempts]
  by_cases he : ∃ bytes, e = .arrive .pipe bytes
  · -- new input comes with an edge
    obtain ⟨bytes, rfl⟩ := he
    have hedge : attempts s' q' ≠ 0 := by
      have hspent : s.spent (.arrive .pipe bytes) = 0 := rfl
      have hpending : 1 ≤ attempts s q + s.raised (.arrive .pipe bytes) := by
        show 1 ≤ attempts s q + if s.edge .pipe then 0 else 1
        unfold attempts
        split <;> omega
      omega
    have hleaves : s.spent (.arrive .pipe bytes) = 1 → attempts s q = 1 →
        (s.input .pipe).unread.length ≤ Event.pipeRead (.arrive .pipe bytes : Event n) := by
      intro hspent
      cases hspent
    exact iff_of_false (fun hstranded => hedge hstranded.2) (not_not_intro hleaves)
  · have hunread := unread_step hst fun bytes hb => he ⟨bytes, hb⟩
    have hraised : s.raised e = 0 := by
      cases e with
      | arrive fd bytes =>
        cases fd with
        | pipe => exact absurd ⟨bytes, rfl⟩ he
        | _ => rfl
      | _ => rfl
    have hspent := spent_le_one s e
    have hleft : (s'.input .pipe).unread = [] ↔ (s.input .pipe).unread.length ≤ e.pipeRead := by
      rw [hunread, List.drop_eq_nil_iff]
    have hempty : (s.input .pipe).unread = [] → (s'.input .pipe).unread = [] := by
      intro hnil
      rw [hunread, hnil, List.drop_nil]
    unfold Stranded at hs ⊢
    rw [ne_eq, hleft]
    rw [hleft] at hempty
    constructor
    · rintro ⟨hmore, hzero⟩ hall
      by_cases hone : s.spent e = 1
      · exact hmore (hall hone (by omega))
      · exact hs ⟨fun hnil => hmore (hempty hnil), by omega⟩
    · intro hleaves
      rw [Classical.not_imp, Classical.not_imp] at hleaves
      obtain ⟨hone, hlast, hmore⟩ := hleaves
      exact ⟨hmore, by omega⟩

/-- The `pipe_connect_handler` jobs that are queued (`q` is the chain), in the
hands of a worker about to call them, or running before their read. -/
def pipeJobs (s : State n) (q : List (Entry Callback Arg)) : ℕ :=
  jobsOf .pipeConnectHandler (q.map Prod.snd : List (Callback × Arg)) +
    jobsOf .pipeConnectHandler (total (WorkerPc.unstarted s.pool.heap) s.pool.worker) +
    total beforePipeRead s.places

/-- In `epoll_wait` the main loop has no event to turn into a job. -/
theorem attempts_of_waiting {s : State n} (hthreads : ThreadsInv s) (hmain : s.main = .waiting)
    (q : List (Entry Callback Arg)) :
    attempts s q = (if s.edge .pipe then 1 else 0) + pipeJobs s q := by
  have hcall : total ProducerPc.inCall s.pool.producer = 0 := by
    refine total_eq_zero fun p => ?_
    rw [hthreads.outside (by simp [hmain])]
    rfl
  have hpending : s.pending = [] := by
    rw [State.pending, hmain]
    rfl
  unfold attempts pendingJobs pipeJobs
  rw [jobsOf_add, jobsOf_add, hcall, hpending]
  show _ + 0 + (0 + _ + _) + _ = _
  omega

/-- **Run lemma.** -/
theorem run_pipe {tr : List (Event n)} {s : State n}
    (h : ((receiveSystem n queueMaxNum needSockServer).restrict LeavesNothing).Run tr s) :
    ∃ q, PipeInv queueMaxNum s q ∧ ¬ Stranded s q := by
  refine System.Run.invariant
    (I := fun _ s => ∃ q, PipeInv queueMaxNum s q ∧ ¬ Stranded s q) ?_ ?_ h
  · rintro s ⟨events, rfl⟩
    exact ⟨[], ⟨inv_init (Int.natCast_nonneg _), rfl⟩, fun hstranded => hstranded.1 rfl⟩
  · intro tr s e s' hrun ih hst
    obtain ⟨q, hinv, hs⟩ := ih
    obtain ⟨q', hinv', hiff⟩ :=
      stranded_step hinv (run_threadsInv hrun.of_restrict) hst.1 hs
    exact ⟨q', hinv', fun hstranded => hiff.mp hstranded hst.2⟩

/-- **Pipe input is stranded only by a last attempt that leaves some behind.**
In every run in which each step leaves nothing, for the chain `q` of the pool in
the state reached: input in the pipe has an attempt to read it; so while the
main loop is in `epoll_wait` it has a pending edge or a `pipe_connect_handler`
job that is queued or running before its read. And a step from there strands
input exactly if it is one that leaves some. -/
theorem pipe_not_stranded {tr : List (Event n)} {s : State n}
    (h : ((receiveSystem n queueMaxNum needSockServer).restrict LeavesNothing).Run tr s) :
    ∃ q, Rep s.pool.pool s.pool.heap q ∧ ¬ Stranded s q ∧
      (s.main = .waiting → (s.input .pipe).unread ≠ [] →
        s.edge .pipe = true ∨ 1 ≤ pipeJobs s q) ∧
      ∀ e s', Step needSockServer s e s' → ∃ q', Rep s'.pool.pool s'.pool.heap q' ∧
        (Stranded s' q' ↔ ¬ LeavesNothing s e) := by
  obtain ⟨q, hinv, hs⟩ := run_pipe h
  have hthreads := run_threadsInv h.of_restrict
  refine ⟨q, hinv.pool.chain.rep, hs, ?_, ?_⟩
  · intro hmain hunread
    have hattempts : attempts s q ≠ 0 := fun hzero => hs ⟨hunread, hzero⟩
    rw [attempts_of_waiting hthreads hmain] at hattempts
    by_cases hedge : s.edge .pipe = true
    · exact .inl hedge
    · rw [if_neg hedge] at hattempts
      exact .inr (by omega)
  · intro e s' hst
    obtain ⟨q', hinv', hiff⟩ := stranded_step hinv hthreads hst hs
    exact ⟨q', hinv'.pool.chain.rep, hiff⟩

/-- The theorem at work: input that has just arrived is not stranded. -/
theorem pipe_not_stranded_arrive :
    ∃ tr s q, ((receiveSystem 5 10 false).restrict LeavesNothing).Run tr s ∧
      (s.input .pipe).unread ≠ [] ∧ Rep s.pool.pool s.pool.heap q ∧ ¬ Stranded s q := by
  have hinit : ((receiveSystem 5 10 false).restrict LeavesNothing).Run []
      (epollStart 5 10 false fun _ => ⟨.pipe, true⟩) := .init ⟨_, rfl⟩
  have harrive := hinit.step ⟨Step.arrive .pipe [65], fun hspent => by cases hspent⟩
  obtain ⟨q, hrep, hs, -, -⟩ := pipe_not_stranded harrive
  exact ⟨_, _, q, harrive, by simp [Input.unread, Input.arrive, epollStart], hrep, hs⟩

variable (queueMaxNum needSockServer) in
/-- A write of more than one buffer into the empty pipe, and its only read. -/
theorem pipe_round_long {s : State n} {k : ℕ} (h : Quiet s k) {w : Fin n}
    (hw : s.pool.worker w = .ready) (bytes : List UInt8) (hlen : recvBufSize < bytes.length) :
    ∃ es s', ((receiveSystem n queueMaxNum needSockServer).startAt s).Run es s' ∧
      s'.main = .waiting ∧ AtRest s'.pool (k + 1) ∧ s'.edge .pipe = false ∧
      (s'.input .pipe).unread ≠ [] ∧
      s'.pool.worker = Function.update s.pool.worker w (.running k .pipeConnectHandler none) ∧
      ∀ fd, s'.handler w ≠ .toRead fd := by
  have h₀ : ((receiveSystem n queueMaxNum needSockServer).startAt s).Run [] s := .init rfl
  have harrive := h₀.step (Step.arrive .pipe bytes)
  have hwait := harrive.step (Step.epollWait [⟨.pipe, true⟩] h.main (by decide) (by simp) (by
    intro ev hev
    obtain rfl := List.mem_singleton.mp hev
    simp only [State.Reportable, h.pipe]
    exact Function.update_self _ _ _))
  obtain ⟨pool', hhand, hrest, hworker⟩ := hand queueMaxNum needSockServer
    (s := { s with
      input := Function.update s.input .pipe ((s.input .pipe).arrive bytes)
      edge := fun fd => Function.update s.edge .pipe true fd &&
        !(fd ∈ [(⟨.pipe, true⟩ : EpollEvent)].map EpollEvent.fd)
      events := fun i => [(⟨.pipe, true⟩ : EpollEvent)][i]?.getD (s.events i)
      main := .handling 0 1 })
    h.rest hw (f := .pipeConnectHandler) (a := none) rfl (.handling 1 1)
    (fun pool' hstep => Step.job rfl Nat.one_pos (by simp) rfl hstep)
  have hend := (hwait.append hhand).step (Step.loopEnd rfl (by decide))
  have hread := hend.step (Step.read w (Function.update_self _ _ _) (by simp))
  refine ⟨_, _, hread, rfl, hrest, by simp, ?_, hworker, ?_⟩
  · have hdrop : ∀ input : Fd → Input,
        (Function.update input .pipe ((input .pipe).advance recvBufSize) .pipe).unread =
          (input .pipe).unread.drop recvBufSize := by
      intro input
      rw [Function.update_self, unread_advance]
    refine ne_of_eq_of_ne (hdrop _) ?_
    show (Function.update s.input .pipe ((s.input .pipe).arrive bytes) .pipe).unread.drop _ ≠ []
    rw [Function.update_self, ne_eq, List.drop_eq_nil_iff]
    unfold Input.unread Input.arrive
    rw [List.length_drop, List.length_zipIdx, List.length_append, h.read .pipe]
    omega
  · intro fd
    show Function.update _ w _ w ≠ _
    rw [Function.update_self]
    exact afterRead_ne_toRead _ _ _

/-- Input can be left in the pipe with nothing to look at it. -/
theorem pipe_stranded : ¬ ∀ tr s, (receiveSystem 5 10 false).Run tr s → s.main = .waiting →
    ∀ q, Rep s.pool.pool s.pool.heap q → (s.input .pipe).unread ≠ [] →
      s.edge .pipe = true ∨ 1 ≤ pipeJobs s q := by
  intro hclaim
  obtain ⟨es, s, hrun, hquiet, -, -, -, hstart, hidle⟩ :=
    start_up (n := 5) 10 false (by decide) 0 1 2 (by decide) (by decide) (by decide)
      (fun _ => ⟨.pipe, true⟩) 3
  obtain ⟨es', s', hround, hmain, hrest, hedge, hunread, hworker, hpast⟩ :=
    pipe_round_long 10 false hquiet (hidle 3 (by decide) (by decide) (by decide)).1
      (List.replicate 1025 0) (by rw [List.length_replicate]; decide)
  have hrun' := hrun.append hround
  obtain ⟨q, hinv, -⟩ := run_tokens hrun'
  have hrep := hinv.pool.chain.rep
  -- no worker holds a job, and none is before a read of the pipe
  rw [hstart] at hworker
  have hhands : ∀ w, (s'.pool.worker w).unstarted s'.pool.heap = 0 := by
    rw [hworker]
    intro w
    match w with
    | 0 | 1 | 2 | 3 | 4 => rfl
  have hcallback : ∀ w : Fin 5, w ≠ 3 →
      (startWorkers (0 : Fin 5) 1 2 w).callback? ≠ some .pipeConnectHandler := by
    decide
  have hplaces : ∀ w, beforePipeRead (s'.places w) = 0 := by
    intro w
    by_cases hw : w = 3
    · exact beforePipeRead_other _ (hw ▸ hpast)
    · refine beforePipeRead_of_ne ?_ _
      rw [State.callback?, hworker, Function.update_of_ne hw]
      exact hcallback w hw
  have hnone : attempts s' q = 0 := by
    unfold attempts
    rw [hedge, State.pending, hmain, pendingJobs_of_rest hrest hrep hhands, total_eq_zero hplaces]
    rfl
  rw [attempts_of_waiting (run_threadsInv hrun') hmain, hedge] at hnone
  rcases hclaim _ _ hrun' hmain q hrep hunread with hpending | hjob
  · rw [hedge] at hpending
    cases hpending
  · simp only [Bool.false_eq_true, if_false] at hnone
    omega

end Uartd.Receive
