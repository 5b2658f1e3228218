import Mathlib.Data.Multiset.Count
import Uartd.Receive.Rounds
import Uartd.Receive.Threads

/-!
# Uartd — one UART reader at a time

There is one right to read the UART, and it is passed on like a token: the
registration of the UART in epoll has it first; the main loop takes it with
`EPOLL_CTL_DEL` and puts it into the job it adds; the worker that runs the job
gives it back with `EPOLL_CTL_ADD`. `tokens` counts it in all these places, and
`tokenInv_step` keeps the books: an `add_job` that fails loses the token
(`Event.lost`), nothing else loses it and nothing duplicates it.

The main loop takes the token for every UART event of a batch. It is there to be
taken because the batch has at most one UART event, reported when the UART was
registered, and only the main loop removes it (`TokenInv.batch`).

`uart_readers_exclude` is the consequence for the readers.
-/

namespace Uartd.Receive

open Uartd.Lib Uartd.ThreadPool

variable {n queueMaxNum : ℕ} {needSockServer : Bool}

/-! ## Where the token is -/

/-- The `uart_connect_handler` jobs among some jobs. -/
def uartJobs (js : Multiset (Callback × Arg)) : ℕ :=
  js.countP fun j => j.1 = .uartConnectHandler

theorem uartJobs_add (js js' : Multiset (Callback × Arg)) :
    uartJobs (js + js') = uartJobs js + uartJobs js' :=
  jobsOf_add _ js js'

theorem uartJobs_ofOption (f : Callback) (a : Arg) :
    uartJobs (ofOption (some (f, a))) = if f = .uartConnectHandler then 1 else 0 :=
  jobsOf_ofOption _ f a

/-- A worker in `uart_connect_handler` that has not executed its ADD. -/
def HandlerPc.beforeAdd : HandlerPc → ℕ
  | .wholeRead _ | .toAdd _ => 1
  | _ => 0

/-- The main loop between DEL and the call of `add_job`. -/
def MainPc.holdsToken : MainPc → ℕ
  | .removed _ _ => 1
  | .calling next => next.holdsToken
  | _ => 0

/-- The indices of the current batch the loop has not begun to handle. -/
def MainPc.todo : MainPc → List ℕ
  | .handling i nfds => List.range' i (nfds - i)
  | .removed i nfds => List.range' (i + 1) (nfds - (i + 1))
  | .calling next => next.todo
  | _ => []

def State.uartRegistered (s : State n) : ℕ := if s.interest .uart = none then 0 else 1

/-- The descriptors of the events the loop has not begun to handle. -/
def State.pending (s : State n) : List Fd := s.main.todo.map fun j => (s.events j).fd

def tokens (s : State n) (q : List (Entry Callback Arg)) : ℕ :=
  s.uartRegistered + s.main.holdsToken + uartJobs (pendingJobs s.pool q) +
    total HandlerPc.beforeAdd s.handler

/-- The token that is lost with the job of a refused call. -/
def Event.lost : Event n → ℕ
  | .pool e => uartJobs (ofOption e.refused?)
  | _ => 0

structure TokenInv (queueMaxNum : ℕ) (s : State n) (q : List (Entry Callback Arg)) : Prop where
  pool  : Inv queueMaxNum s.pool q
  nodup : s.pending.Nodup
  batch : .uart ∈ s.pending → s.uartRegistered = 1
  one   : tokens s q ≤ 1

/-! ## Steps -/

/-- A step of the pool, and the UART jobs on their way. -/
theorem uartJobs_step {p p' : ThreadPool.State n Unit Callback Arg}
    {e : ThreadPool.Event n Unit Callback Arg} {q : List (Entry Callback Arg)}
    (h : Inv queueMaxNum p q) (hst : ThreadPool.Step p e p') :
    ∃ q', Inv queueMaxNum p' q' ∧
      uartJobs (pendingJobs p' q') + uartJobs (ofOption e.started?) +
          uartJobs (ofOption e.refused?) =
        uartJobs (pendingJobs p q) + uartJobs (ofOption e.called?) :=
  jobsOf_step .uartConnectHandler h hst

theorem todo_handling {i nfds : ℕ} (h : i < nfds) :
    (MainPc.handling i nfds).todo = i :: (MainPc.handling (i + 1) nfds).todo := by
  show List.range' i (nfds - i) = i :: List.range' (i + 1) (nfds - (i + 1))
  rw [show nfds - i = nfds - (i + 1) + 1 by omega, List.range'_succ]

/-- The batch `epoll_wait` has just reported. -/
theorem pending_of_batch (batch : List EpollEvent) (events : ℕ → EpollEvent) :
    (MainPc.handling 0 batch.length).todo.map (fun j => (batch[j]?.getD (events j)).fd) =
      batch.map EpollEvent.fd := by
  refine List.ext_getElem (by simp [MainPc.todo]) ?_
  intro i hi hi'
  rw [List.length_map] at hi'
  simp [MainPc.todo, hi']

theorem dispatch_ne_uart {i : ℕ} {ev : EpollEvent} {f : Callback} {a : Arg} (hfd : ev.fd ≠ .uart)
    (h : dispatch needSockServer i ev = some (f, a)) : f ≠ .uartConnectHandler := by
  unfold dispatch at h
  intro hf
  subst hf
  split at h
  · rename_i hev
    exact hfd hev
  · simp at h
  · split at h <;> simp at h
  · split at h <;> simp at h

theorem entry_beforeAdd {f : Callback} {a : Arg} {pc : HandlerPc} (h : f.entry a = some pc) :
    pc.beforeAdd = uartJobs (ofOption (some (f, a))) := by
  rw [uartJobs_ofOption]
  cases f with
  | sockRecvHandler =>
    obtain ⟨i, -, rfl⟩ := Option.map_eq_some_iff.mp h
    rfl
  | _ =>
    simp only [Callback.entry, Option.some.injEq] at h
    subst h
    rfl

theorem beforeAdd_afterRead (fd : Fd) (data : List InputByte) :
    (afterRead fd data).beforeAdd = 0 := by
  unfold afterRead
  split <;> rfl

/-- A step of one handler that neither takes nor gives back the token. -/
theorem TokenInv.handler {s : State n} {q : List (Entry Callback Arg)}
    (h : TokenInv queueMaxNum s q)
    {w : Fin n} {pc : HandlerPc} (hpc : pc.beforeAdd = (s.handler w).beforeAdd)
    {interest : Fd → Option Trigger} (huart : interest .uart = s.interest .uart)
    (input : Fd → Input) :
    ∃ q', TokenInv queueMaxNum { s with
        interest := interest, input := input, handler := Function.update s.handler w pc } q' ∧
      tokens { s with
        interest := interest, input := input, handler := Function.update s.handler w pc } q' + 0 =
      tokens s q := by
  have hreg : State.uartRegistered { s with
      interest := interest, input := input, handler := Function.update s.handler w pc } =
      s.uartRegistered := by
    show (if interest .uart = none then 0 else 1) = _
    rw [huart]
    rfl
  have htokens : tokens { s with
      interest := interest, input := input, handler := Function.update s.handler w pc } q =
      tokens s q := by
    unfold tokens
    rw [hreg]
    show _ + _ + _ + total _ (Function.update s.handler w pc) = _
    rw [total_update_eq hpc]
  refine ⟨q, ⟨h.pool, h.nodup, ?_, htokens ▸ h.one⟩, htokens⟩
  intro hmem
  rw [hreg]
  exact h.batch hmem

/-- A step of the main loop alone. -/
theorem TokenInv.move {s : State n} {q : List (Entry Callback Arg)} (h : TokenInv queueMaxNum s q)
    {main' : MainPc} (htodo : main'.todo.Sublist s.main.todo)
    (htok : main'.holdsToken = s.main.holdsToken) :
    ∃ q', TokenInv queueMaxNum { s with main := main' } q' ∧
      tokens { s with main := main' } q' + 0 = tokens s q := by
  have htokens : tokens { s with main := main' } q = tokens s q := by
    unfold tokens
    show _ + main'.holdsToken + _ + _ = _
    rw [htok]
    rfl
  exact ⟨q, ⟨h.pool, h.nodup.sublist (htodo.map _), fun hmem => h.batch ((htodo.map _).subset hmem),
    htokens ▸ h.one⟩, htokens⟩

/-- A step of the pool, with the main loop or a handler: the token a call puts
into the pool comes from the main loop, the one a start takes out goes to the
handler. -/
theorem TokenInv.poolStep {s : State n} {q : List (Entry Callback Arg)}
    (h : TokenInv queueMaxNum s q) {pool' : ThreadPool.State n Unit Callback Arg}
    {e : ThreadPool.Event n Unit Callback Arg} (hst : ThreadPool.Step s.pool e pool')
    {main' : MainPc} {handler' : Fin n → HandlerPc} (htodo : main'.todo.Sublist s.main.todo)
    (htok : main'.holdsToken + uartJobs (ofOption e.called?) + total HandlerPc.beforeAdd handler' =
      s.main.holdsToken + uartJobs (ofOption e.started?) + total HandlerPc.beforeAdd s.handler) :
    ∃ q', TokenInv queueMaxNum { s with pool := pool', main := main', handler := handler' } q' ∧
      tokens { s with pool := pool', main := main', handler := handler' } q' +
        uartJobs (ofOption e.refused?) = tokens s q := by
  obtain ⟨q', hinv, hjobs⟩ := uartJobs_step h.pool hst
  have htokens : tokens { s with pool := pool', main := main', handler := handler' } q' +
      uartJobs (ofOption e.refused?) = tokens s q := by
    unfold tokens
    show s.uartRegistered + main'.holdsToken + uartJobs (pendingJobs pool' q') +
      total HandlerPc.beforeAdd handler' + uartJobs (ofOption e.refused?) = _
    omega
  have hone := h.one
  exact ⟨q', ⟨hinv, h.nodup.sublist (htodo.map _), fun hmem => h.batch ((htodo.map _).subset hmem),
    by omega⟩, htokens⟩

/-- **Step lemma.** The token is where it was before the step, or lost. -/
theorem tokenInv_step {s s' : State n} {e : Event n} {q : List (Entry Callback Arg)}
    (h : TokenInv queueMaxNum s q) (hthreads : ThreadsInv s) (hst : Step needSockServer s e s') :
    ∃ q', TokenInv queueMaxNum s' q' ∧ tokens s' q' + e.lost = tokens s q := by
  cases hst with
  | @startJob k f pool' hmain hjob hpool =>
    have hf := (startJobs_ne hjob).1
    refine h.poolStep hpool (List.nil_sublist _) ?_
    rw [hmain]
    show 0 + uartJobs (ofOption (some (f, none))) + _ = 0 + 0 + _
    rw [uartJobs_ofOption, if_neg hf]
  | started hmain _ => exact h.move (List.nil_sublist _) (by rw [hmain]; rfl)
  | @epollWait batch hmain hlen hnodup hready =>
    have hone := h.one
    have hpending := pending_of_batch batch s.events
    have htokens : tokens { s with
        events := fun i => batch[i]?.getD (s.events i)
        edge := fun fd => s.edge fd && !(fd ∈ batch.map EpollEvent.fd)
        main := .handling 0 batch.length } q = tokens s q := by
      unfold tokens
      rw [hmain]
      rfl
    refine ⟨q, ⟨h.pool, ?_, ?_, htokens ▸ hone⟩, htokens⟩
    · show (List.map _ _).Nodup
      rw [hpending]
      exact hnodup
    · -- only a registered descriptor is reported
      intro hmem
      rw [State.pending, hpending] at hmem
      obtain ⟨ev, hev, hfd⟩ := List.mem_map.mp hmem
      have hreport := hready ev hev
      unfold State.Reportable at hreport
      rw [hfd] at hreport
      show (if s.interest .uart = none then 0 else 1) = 1
      split
      · rename_i hnone
        rw [hnone] at hreport
        exact hreport.elim
      · rfl
  | @del i nfds hmain hlt hfd =>
    have hone := h.one
    have hpending : s.pending = .uart :: (MainPc.removed i nfds).todo.map
        fun j => (s.events j).fd := by
      rw [State.pending, hmain, todo_handling hlt, List.map_cons, hfd]
      rfl
    have hnodup := h.nodup
    rw [hpending, List.nodup_cons] at hnodup
    have hreg := h.batch (by rw [hpending]; simp)
    have hdel : State.uartRegistered { s with
        interest := Function.update s.interest .uart none, main := .removed i nfds } = 0 := by
      show (if Function.update s.interest .uart none .uart = none then 0 else 1) = 0
      rw [Function.update_self, if_pos rfl]
    -- the token goes from the registration to the main loop
    have htokens : tokens { s with
        interest := Function.update s.interest .uart none, main := .removed i nfds } q =
        tokens s q := by
      unfold tokens
      rw [hdel, hreg, hmain]
      rfl
    exact ⟨q, ⟨h.pool, hnodup.2, fun hmem => absurd hmem hnodup.1, htokens ▸ hone⟩, htokens⟩
  | @uartJob i nfds pool' hmain hpool =>
    refine h.poolStep hpool ?_ ?_
    · rw [hmain]
      exact List.Sublist.refl _
    · rw [hmain]
      show 0 + uartJobs (ofOption (some (.uartConnectHandler, none))) + _ = 1 + 0 + _
      rw [uartJobs_ofOption, if_pos rfl]
  | @job i nfds f a pool' hmain hlt hfd hdisp hpool =>
    refine h.poolStep hpool ?_ ?_
    · rw [hmain, todo_handling hlt]
      exact List.sublist_cons_self _ _
    · rw [hmain]
      show 0 + uartJobs (ofOption (some (f, a))) + _ = 0 + 0 + _
      rw [uartJobs_ofOption, if_neg (dispatch_ne_uart hfd hdisp)]
  | nothing hmain hlt hdisp =>
    refine h.move ?_ (by rw [hmain]; rfl)
    rw [hmain, todo_handling hlt]
    exact List.sublist_cons_self _ _
  | loopEnd hmain hlt => exact h.move (List.nil_sublist _) (by rw [hmain]; rfl)
  | jobAdded hmain hpool =>
    refine h.poolStep hpool ?_ ?_
    · rw [hmain]
      exact List.Sublist.refl _
    · rw [hmain]
      rfl
  | @pool e pool' hown hpool hopen =>
    refine h.poolStep hpool (List.Sublist.refl _) ?_
    cases e with
    | internal | dequeue w f a => rfl
    | _ => exact hown.elim
  | @start w f a pc pool' hpool hentry =>
    refine h.poolStep hpool (List.Sublist.refl _) ?_
    have hpc := entry_beforeAdd hentry
    have htotal := total_update (w := HandlerPc.beforeAdd) (f := s.handler) w pc
    have hidle : (s.handler w).beforeAdd = 0 := by
      rw [hthreads.idle w (callback_of_start hpool).1]
      rfl
    show s.main.holdsToken + 0 + _ = _ + uartJobs (ofOption (some (f, a))) + _
    omega
  | @finish w f a pool' hpc hpool =>
    refine h.poolStep hpool (List.Sublist.refl _) ?_
    rw [total_update_eq (by rw [hpc]; rfl)]
    rfl
  | uartStore w count hpc hcount hbody | uartBreak w count hpc hcount hbody =>
    exact h.handler (by rw [hpc]; rfl) rfl _
  | @add buf w hpc =>
    have hone := h.one
    have hadd : State.uartRegistered { s with
        interest := Function.update s.interest .uart (some .level)
        handler := Function.update s.handler w (afterRead .uart buf) } = 1 := by
      show (if Function.update s.interest .uart (some .level) .uart = none then 0 else 1) = 1
      rw [Function.update_self, if_neg (by simp)]
    have htotal := total_update (w := HandlerPc.beforeAdd) (f := s.handler) w (afterRead .uart buf)
    rw [hpc, beforeAdd_afterRead] at htotal
    have htoken : HandlerPc.beforeAdd (.toAdd buf) = 1 := rfl
    -- the handler has the token, so the UART is not registered
    have hunreg : s.uartRegistered = 0 := by
      unfold tokens at hone
      omega
    have htokens : tokens { s with
        interest := Function.update s.interest .uart (some .level)
        handler := Function.update s.handler w (afterRead .uart buf) } q = tokens s q := by
      unfold tokens
      rw [hadd, hunreg]
      show 1 + s.main.holdsToken + uartJobs (pendingJobs s.pool q) +
        total HandlerPc.beforeAdd (Function.update s.handler w (afterRead .uart buf)) = _
      omega
    exact ⟨q, ⟨h.pool, h.nodup, fun _ => hadd, htokens ▸ hone⟩, htokens⟩
  | read w hpc hfd => exact h.handler (by rw [hpc, beforeAdd_afterRead]; rfl) rfl _
  | accept w k hpc hreq hfree hnew =>
    exact h.handler (by rw [hpc]; rfl) (Function.update_of_ne (by simp) _ _) _
  | load w hpc | readListening w hpc | acceptFailed w hpc | insert w hpc | initNodeFailed w hpc
  | signal w hpc => exact h.handler (by rw [hpc]; rfl) rfl _
  | arrive fd bytes => exact ⟨q, ⟨h.pool, h.nodup, h.batch, h.one⟩, rfl⟩

/-- The tokens lost along a trace. -/
def lostTokens (tr : List (Event n)) : ℕ := (tr.map Event.lost).sum

/-- **Run lemma.** There is one token; it is in its place or lost. -/
theorem run_tokens {tr : List (Event n)} {s : State n}
    (h : (receiveSystem n queueMaxNum needSockServer).Run tr s) :
    ∃ q, TokenInv queueMaxNum s q ∧ tokens s q + lostTokens tr = 1 := by
  refine System.Run.invariant
    (I := fun tr s => ∃ q, TokenInv queueMaxNum s q ∧ tokens s q + lostTokens tr = 1) ?_ ?_ h
  · rintro s ⟨events, rfl⟩
    have hhandlers : total HandlerPc.beforeAdd (fun _ : Fin n => .idle) = 0 :=
      total_eq_zero fun _ => rfl
    have htokens : tokens (epollStart n queueMaxNum needSockServer events) [] = 1 := by
      show 1 + 0 + uartJobs (pendingJobs (threadpoolInit n Unit Callback Arg queueMaxNum) []) +
        total HandlerPc.beforeAdd (fun _ : Fin n => .idle) = 1
      rw [hhandlers, pendingJobs_init]
      rfl
    refine ⟨[], ⟨inv_init (Int.natCast_nonneg _), List.nodup_nil, by simp [State.pending,
      epollStart, MainPc.todo], Nat.le_of_eq htokens⟩, htokens⟩
  · rintro tr s e s' hrun ⟨q, hinv, hone⟩ hst
    obtain ⟨q', hinv', htokens⟩ := tokenInv_step hinv (run_threadsInv hrun) hst
    refine ⟨q', hinv', ?_⟩
    rw [lostTokens, List.map_append, List.sum_append, List.map_singleton, List.sum_singleton]
    unfold lostTokens at hone
    omega

/-! ## The readers -/

/-- The `uart_connect_handler` jobs that are queued (`q` is the chain), in the
hands of a worker about to call them, or running before their ADD. -/
def uartReaders (s : State n) (q : List (Entry Callback Arg)) : ℕ :=
  uartJobs (q.map Prod.snd : List (Callback × Arg)) +
    uartJobs (total (WorkerPc.unstarted s.pool.heap) s.pool.worker) +
    total HandlerPc.beforeAdd s.handler

/-- A worker inside `whole_read`. -/
def HandlerPc.InWholeRead (pc : HandlerPc) : Prop := ∃ buf, pc = .wholeRead buf

theorem uartReaders_le_tokens (s : State n) (q : List (Entry Callback Arg)) :
    uartReaders s q + s.uartRegistered ≤ tokens s q := by
  unfold tokens pendingJobs
  rw [uartJobs_add, uartJobs_add]
  unfold uartReaders
  omega

theorem eq_of_beforeAdd {f : Fin n → HandlerPc} (hone : total HandlerPc.beforeAdd f ≤ 1)
    {w w' : Fin n} (hw : (f w).InWholeRead) (hw' : (f w').InWholeRead) : w = w' := by
  by_contra hne
  have htwo := add_le_total (w := HandlerPc.beforeAdd) (f := f) hne
  obtain ⟨buf, hbuf⟩ := hw
  obtain ⟨buf', hbuf'⟩ := hw'
  rw [hbuf, hbuf'] at htwo
  have hweight : ∀ b, HandlerPc.beforeAdd (.wholeRead b) = 1 := fun _ => rfl
  rw [hweight, hweight] at htwo
  omega

/-- **UART readers exclude each other.** In every state the receive side
reaches, with any number of workers: of the `uart_connect_handler` jobs on the
chain `q` of the pool, in a worker's hands or running before their ADD there is
at most one; while there is one the UART is not registered in epoll; and at most
one worker is inside `whole_read`. -/
theorem uart_readers_exclude {tr : List (Event n)} {s : State n}
    (h : (receiveSystem n queueMaxNum needSockServer).Run tr s) :
    ∃ q, Rep s.pool.pool s.pool.heap q ∧
      uartReaders s q ≤ 1 ∧
      (uartReaders s q = 1 → s.interest .uart = none) ∧
      ∀ w w', (s.handler w).InWholeRead → (s.handler w').InWholeRead → w = w' := by
  obtain ⟨q, hinv, -⟩ := run_tokens h
  have hone := hinv.one
  have hle := uartReaders_le_tokens s q
  refine ⟨q, hinv.pool.chain.rep, by omega, ?_, ?_⟩
  · intro hreader
    by_contra hreg
    have huart : s.uartRegistered = 1 := if_neg hreg
    omega
  · intro w w' hw hw'
    refine eq_of_beforeAdd ?_ hw hw'
    unfold uartReaders at hle
    omega

/-- The theorem at work: after the start-up one worker has read a byte from the
UART and given the token back. -/
theorem uart_readers_exclude_one :
    ∃ tr s, (receiveSystem 5 10 false).Run tr s ∧
      (∃ m, s.handler 3 = .toInsert m) ∧ s.interest .uart ≠ none ∧
      ∃ q, Rep s.pool.pool s.pool.heap q ∧ uartReaders s q = 0 := by
  obtain ⟨es, s, hrun, hquiet, -, -, -, -, hidle⟩ := start_up (n := 5) 10 false (by decide) 0 1 2
    (by decide) (by decide) (by decide) (fun _ => ⟨.uart, true⟩) 3
  obtain ⟨es', s', hround, hpast, -, -⟩ := uart_round 10 false hquiet
    (hidle 3 (by decide) (by decide) (by decide)).1 [65] (by decide) (by decide)
  have hrun' := hrun.append hround
  have hregistered := hpast.quiet.uart
  obtain ⟨q, hrep, hle, htoken, -⟩ := uart_readers_exclude hrun'
  refine ⟨_, s', hrun', ⟨_, by rw [hpast.handler, Function.update_self]⟩, hregistered, q, hrep, ?_⟩
  by_contra hne
  exact hregistered (htoken (by omega))

end Uartd.Receive
