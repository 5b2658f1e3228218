import Uartd.ThreadPool.Handover

/-!
# Uartd — the receive side (uart_start.c)

The main loop of `epoll_start`, the thread pool it hands its jobs to, and the
handlers the workers run: `uart_connect_handler`, `pipe_connect_handler` and,
with `NEED_SOCK_SERVER`, `sock_accept_handler` and `sock_recv_handler`.

The pool is the one of `Uartd.ThreadPool`, with the main thread as its only
producer; nobody calls `threadpool_destroy`. A worker's `start` event puts it at
the entry of its callback, and it takes its `finish` step from the callback's
return. `data_process` and `send_out_handler` never return; what they do is the
subject of `Uartd.Message`. `init_data_to_bt_onstart` is not in the repository;
it queues messages to send, which touches nothing here, and may take any time.

Assumed of the kernel: `epoll_wait` reports each descriptor at most once, and
only registered ones; an edge becomes pending when input arrives and is consumed
when it is reported; `EPOLL_CTL_DEL`, `EPOLL_CTL_ADD` and the set-up calls
succeed. A read of the UART may return any part of what is there, or fail; the
other descriptors deliver what is there up to the size asked for. A byte read
carries its position in the input of its descriptor.
-/

namespace Uartd.Receive

open Uartd.Lib

/-! ## Descriptors and input -/

/-- The three global descriptors, and those `accept` returned. -/
inductive Fd where
  | uart
  | pipe
  | sock
  | client (k : ℕ)
  deriving DecidableEq, Repr

/-- Whether a descriptor is registered with `EPOLLET`. -/
inductive Trigger where
  | level
  | edge
  deriving DecidableEq, Repr

/-- `struct epoll_event` as `epoll_wait` fills it in. -/
structure EpollEvent where
  fd : Fd
  epollin : Bool
  deriving DecidableEq, Repr

/-- A byte and its position in the input of its descriptor. -/
abbrev InputByte := UInt8 × ℕ

/-- All input that arrived at a descriptor, and how much of it was read. A
connection request counts as one byte of the listening socket. -/
structure Input where
  arrived : List UInt8
  taken   : ℕ

namespace Input

def unread (inp : Input) : List InputByte := inp.arrived.zipIdx.drop inp.taken

/-- What `read(fd, buf, count)` delivers if it delivers all it can. -/
def chunk (inp : Input) (count : ℕ) : List InputByte := inp.unread.take count

def advance (inp : Input) (count : ℕ) : Input :=
  { inp with taken := inp.taken + (inp.chunk count).length }

def arrive (inp : Input) (bytes : List UInt8) : Input :=
  { inp with arrived := inp.arrived ++ bytes }

end Input

/-- A message between its read and its insert; without data there is none. -/
structure Message where
  fd   : Fd
  data : List InputByte
  nonempty : data ≠ []

def Message.bytes (m : Message) : List UInt8 := m.data.map Prod.fst

theorem Message.bytes_ne_nil (m : Message) : m.bytes ≠ [] :=
  fun h => m.nonempty (List.map_eq_nil_iff.mp h)

/-! ## Jobs and handlers -/

/-- The functions passed to `threadpool_add_job`. -/
inductive Callback where
  | dataProcess
  | sendOutHandler
  | initDataToBtOnstart
  | uartConnectHandler
  | pipeConnectHandler
  | sockAcceptHandler
  | sockRecvHandler
  deriving DecidableEq, Repr

/-- The argument of a job: NULL, or `&events[i].data.fd`. -/
abbrev Arg := Option ℕ

/-- The size of every `recv_buf`. -/
def recvBufSize : ℕ := 1024

/-- `sizeof(tmp_buf)` in `whole_read`, an array of 1024 pointers. -/
def tmpBufSize : ℕ := 1024 * 8

/-- The loop body of `whole_read` once `read` returned `chunk`, empty for 0 and
-1: the contents of `buf` to go on with, or `none` for a break. -/
def wholeReadBody {α : Type} (maxlen : ℕ) (buf chunk : List α) : Option (List α) :=
  if chunk = [] then none
  else if buf.length + chunk.length ≥ maxlen then none
  else some (buf ++ chunk)

theorem wholeReadBody_eq_some_iff {α : Type} {maxlen : ℕ} {buf buf' chunk : List α} :
    wholeReadBody maxlen buf chunk = some buf' ↔
      chunk ≠ [] ∧ buf.length + chunk.length < maxlen ∧ buf' = buf ++ chunk := by
  unfold wholeReadBody
  by_cases hempty : chunk = []
  · simp [hempty]
  · rcases Nat.lt_or_ge (buf.length + chunk.length) maxlen with hlt | hge
    · simp [hempty, Nat.not_le.mpr hlt, hlt, eq_comm]
    · simp [hempty, hge, Nat.not_lt.mpr hge]

theorem wholeReadBody_eq_none_iff {α : Type} {maxlen : ℕ} {buf chunk : List α} :
    wholeReadBody maxlen buf chunk = none ↔
      chunk = [] ∨ maxlen ≤ buf.length + chunk.length := by
  unfold wholeReadBody
  by_cases hempty : chunk = []
  · simp [hempty]
  · simp [hempty]

/-- Where a worker is in its callback. -/
inductive HandlerPc where
  | idle
  | serving
  -- in whole_read; then before epoll_ctl
  | wholeRead (buf : List InputByte)
  | toAdd (buf : List InputByte)
  -- before the read of the pipe or of a client
  | toRead (fd : Fd)
  | toLoad (i : ℕ)
  | toAccept
  | toInsert (m : Message)
  | toSignal
  | returning

/-- The entry of a callback. A NULL argument of `sock_recv_handler` is
dereferenced. -/
def Callback.entry : Callback → Arg → Option HandlerPc
  | .dataProcess, _ | .sendOutHandler, _ => some .serving
  | .initDataToBtOnstart, _ => some .returning
  | .uartConnectHandler, _ => some (.wholeRead [])
  | .pipeConnectHandler, _ => some (.toRead .pipe)
  | .sockAcceptHandler, _ => some .toAccept
  | .sockRecvHandler, arg => arg.map .toLoad

/-- **Inversion.** Where a worker starts, whatever its callback. -/
theorem Callback.entry_cases {f : Callback} {a : Arg} {pc : HandlerPc} (h : f.entry a = some pc) :
    pc = .serving ∨ pc = .returning ∨ pc = .wholeRead [] ∨ pc = .toRead .pipe ∨ pc = .toAccept ∨
      ∃ i, pc = .toLoad i := by
  cases f with
  | sockRecvHandler =>
    obtain ⟨i, -, rfl⟩ := Option.map_eq_some_iff.mp h
    simp
  | _ =>
    simp only [Callback.entry, Option.some.injEq] at h
    simp [← h]

/-- After the read: `if(ret > 0)`. -/
def afterRead (fd : Fd) (data : List InputByte) : HandlerPc :=
  if h : data = [] then .returning else .toInsert ⟨fd, data, h⟩

/-! ## The main loop -/

/-- The jobs added before the loop. -/
def startJobs : List Callback := [.dataProcess, .sendOutHandler, .initDataToBtOnstart]

/-- The job the loop adds for `events[i]`, `none` for "epoll nothing". -/
def dispatch (needSockServer : Bool) (i : ℕ) (ev : EpollEvent) : Option (Callback × Arg) :=
  match ev.fd with
  | .uart => some (.uartConnectHandler, none)
  | .pipe => some (.pipeConnectHandler, none)
  | .sock => if needSockServer && ev.epollin then some (.sockAcceptHandler, none) else none
  | .client _ => if needSockServer && ev.epollin then some (.sockRecvHandler, some i) else none

/-- Where the main thread is in `epoll_start`. -/
inductive MainPc where
  | starting (k : ℕ)
  | waiting
  | handling (i nfds : ℕ)
  -- events[i] is the UART, and it has been removed
  | removed (i nfds : ℕ)
  -- in threadpool_add_job, to go on at `next`
  | calling (next : MainPc)

/-! ## The system -/

structure State (n : ℕ) where
  pool : ThreadPool.State n Unit Callback Arg
  main : MainPc
  events : ℕ → EpollEvent
  interest : Fd → Option Trigger
  edge : Fd → Bool
  input : Fd → Input
  handler : Fin n → HandlerPc

/-- What an observer sees. A `read` shows the bytes the handler keeps. -/
inductive Event (n : ℕ) where
  | internal
  | pool (e : ThreadPool.Event n Unit Callback Arg)
  | epollWait (batch : List EpollEvent)
  | del
  | add (w : Fin n)
  | arrive (fd : Fd) (bytes : List UInt8)
  | load (w : Fin n) (i : ℕ) (fd : Fd)
  | read (w : Fin n) (fd : Fd) (kept : List InputByte)
  | accept (w : Fin n) (k : ℕ)
  | insert (w : Fin n) (m : Message)
  | discard (w : Fin n) (m : Message)

variable {n : ℕ}

/-- Whether `epoll_wait` may report a descriptor. An error or a hang-up makes a
level-triggered one ready without input. -/
def State.Reportable (s : State n) (fd : Fd) : Prop :=
  match s.interest fd with
  | none => False
  | some .edge => s.edge fd = true
  | some .level => True

/-- The pool steps that are not part of a step of the main loop or of a handler. -/
def poolOnly : ThreadPool.Event n Unit Callback Arg → Prop
  | .internal | .dequeue _ _ _ => True
  | _ => False

inductive Step (needSockServer : Bool) : State n → Event n → State n → Prop
  -- epoll_start up to its loop
  | startJob {s k f pool'} : s.main = .starting k → startJobs[k]? = some f →
      ThreadPool.Step s.pool (.call () f none) pool' →
      Step needSockServer s (.pool (.call () f none)) { s with
        pool := pool', main := .calling (.starting (k + 1)) }
  | started {s k} : s.main = .starting k → startJobs[k]? = none →
      Step needSockServer s .internal { s with main := .waiting }
  -- the loop
  | epollWait {s} (batch : List EpollEvent) : s.main = .waiting → batch.length ≤ 32 →
      (batch.map EpollEvent.fd).Nodup → (∀ ev ∈ batch, s.Reportable ev.fd) →
      Step needSockServer s (.epollWait batch) { s with
        events := fun i => batch[i]?.getD (s.events i)
        edge := fun fd => s.edge fd && !(fd ∈ batch.map EpollEvent.fd)
        main := .handling 0 batch.length }
  | del {s i nfds} : s.main = .handling i nfds → i < nfds → (s.events i).fd = .uart →
      Step needSockServer s .del { s with
        interest := Function.update s.interest .uart none, main := .removed i nfds }
  | uartJob {s i nfds pool'} : s.main = .removed i nfds →
      ThreadPool.Step s.pool (.call () .uartConnectHandler none) pool' →
      Step needSockServer s (.pool (.call () .uartConnectHandler none)) { s with
        pool := pool', main := .calling (.handling (i + 1) nfds) }
  | job {s i nfds f a pool'} : s.main = .handling i nfds → i < nfds → (s.events i).fd ≠ .uart →
      dispatch needSockServer i (s.events i) = some (f, a) →
      ThreadPool.Step s.pool (.call () f a) pool' →
      Step needSockServer s (.pool (.call () f a)) { s with
        pool := pool', main := .calling (.handling (i + 1) nfds) }
  | nothing {s i nfds} : s.main = .handling i nfds → i < nfds →
      dispatch needSockServer i (s.events i) = none →
      Step needSockServer s .internal { s with main := .handling (i + 1) nfds }
  | loopEnd {s i nfds} : s.main = .handling i nfds → ¬ i < nfds →
      Step needSockServer s .internal { s with main := .waiting }
  | jobAdded {s next f a v pool'} : s.main = .calling next →
      ThreadPool.Step s.pool (.addRet () f a v) pool' →
      Step needSockServer s (.pool (.addRet () f a v)) { s with pool := pool', main := next }
  -- waits and wake-ups in the pool, threadpool_function outside the callback
  | pool {s e pool'} : poolOnly e → ThreadPool.Step s.pool e pool' →
      pool'.destroyer = .outside → Step needSockServer s (.pool e) { s with pool := pool' }
  | start {s w f a pc pool'} : ThreadPool.Step s.pool (.start w f a) pool' →
      f.entry a = some pc →
      Step needSockServer s (.pool (.start w f a)) { s with
        pool := pool', handler := Function.update s.handler w pc }
  | finish {s w f a pool'} : s.handler w = .returning →
      ThreadPool.Step s.pool (.finish w f a) pool' →
      Step needSockServer s (.pool (.finish w f a)) { s with
        pool := pool', handler := Function.update s.handler w .idle }
  -- uart_connect_handler
  | uartStore {s buf buf'} (w : Fin n) (count : ℕ) : s.handler w = .wholeRead buf →
      count ≤ tmpBufSize →
      wholeReadBody recvBufSize buf ((s.input .uart).chunk count) = some buf' →
      Step needSockServer s (.read w .uart ((s.input .uart).chunk count)) { s with
        input := Function.update s.input .uart ((s.input .uart).advance count)
        handler := Function.update s.handler w (.wholeRead buf') }
  | uartBreak {s buf} (w : Fin n) (count : ℕ) : s.handler w = .wholeRead buf →
      count ≤ tmpBufSize →
      wholeReadBody recvBufSize buf ((s.input .uart).chunk count) = none →
      Step needSockServer s (.read w .uart []) { s with
        input := Function.update s.input .uart ((s.input .uart).advance count)
        handler := Function.update s.handler w (.toAdd buf) }
  | add {s buf} (w : Fin n) : s.handler w = .toAdd buf →
      Step needSockServer s (.add w) { s with
        interest := Function.update s.interest .uart (some .level)
        handler := Function.update s.handler w (afterRead .uart buf) }
  -- sock_recv_handler reads its argument, then it reads like pipe_connect_handler
  | load {s i} (w : Fin n) : s.handler w = .toLoad i →
      Step needSockServer s (.load w i (s.events i).fd) { s with
        handler := Function.update s.handler w (.toRead (s.events i).fd) }
  | read {s fd} (w : Fin n) : s.handler w = .toRead fd → fd ≠ .sock →
      Step needSockServer s (.read w fd ((s.input fd).chunk recvBufSize)) { s with
        input := Function.update s.input fd ((s.input fd).advance recvBufSize)
        handler := Function.update s.handler w
          (afterRead fd ((s.input fd).chunk recvBufSize)) }
  | readListening {s} (w : Fin n) : s.handler w = .toRead .sock →
      Step needSockServer s (.read w .sock []) { s with
        handler := Function.update s.handler w .returning }
  -- sock_accept_handler
  | accept {s} (w : Fin n) (k : ℕ) : s.handler w = .toAccept → (s.input .sock).unread ≠ [] →
      s.interest (.client k) = none → (s.input (.client k)).arrived = [] →
      Step needSockServer s (.accept w k) { s with
        input := Function.update s.input .sock ((s.input .sock).advance 1)
        interest := Function.update s.interest (.client k) (some .level)
        handler := Function.update s.handler w .returning }
  | acceptFailed {s} (w : Fin n) : s.handler w = .toAccept →
      Step needSockServer s .internal { s with
        handler := Function.update s.handler w .returning }
  -- the end of the three receiving handlers
  | insert {s m} (w : Fin n) : s.handler w = .toInsert m →
      Step needSockServer s (.insert w m) { s with
        handler := Function.update s.handler w .toSignal }
  | initNodeFailed {s m} (w : Fin n) : s.handler w = .toInsert m →
      Step needSockServer s (.discard w m) { s with
        handler := Function.update s.handler w .returning }
  | signal {s} (w : Fin n) : s.handler w = .toSignal →
      Step needSockServer s .internal { s with
        handler := Function.update s.handler w .returning }
  -- the outside world
  | arrive {s} (fd : Fd) (bytes : List UInt8) :
      Step needSockServer s (.arrive fd bytes) { s with
        input := Function.update s.input fd ((s.input fd).arrive bytes)
        edge := Function.update s.edge fd true }

/-- The registrations made before the loop. -/
def registered (needSockServer : Bool) : Fd → Option Trigger
  | .uart | .pipe => some .edge
  | .sock => if needSockServer then some .edge else none
  | .client _ => none

/-- `epoll_start` has created the pool; `events` is not initialised. -/
def epollStart (n queueMaxNum : ℕ) (needSockServer : Bool) (events : ℕ → EpollEvent) : State n where
  pool := ThreadPool.threadpoolInit n Unit Callback Arg queueMaxNum
  main := .starting 0
  events := events
  interest := registered needSockServer
  edge _ := false
  input _ := { arrived := [], taken := 0 }
  handler _ := .idle

/-- The receive side with a pool of `n` workers and a queue of `queueMaxNum`
jobs; the program has 5 and 10. -/
def receiveSystem (n queueMaxNum : ℕ) (needSockServer : Bool) : System (State n) (Event n) where
  init s := ∃ events, s = epollStart n queueMaxNum needSockServer events
  step := Step needSockServer

/-! ## The pool inside -/

def Event.pool? : Event n → Option (ThreadPool.Event n Unit Callback Arg)
  | .pool e => some e
  | _ => none

variable {queueMaxNum : ℕ} {needSockServer : Bool} {tr : List (Event n)} {s : State n}

/-- The pool inside the receive side runs as a pool. -/
theorem run_pool (h : (receiveSystem n queueMaxNum needSockServer).Run tr s) :
    (ThreadPool.poolSystem n Unit Callback Arg queueMaxNum).Run (tr.filterMap Event.pool?)
      s.pool := by
  refine System.Run.project ?_ ?_ h
  · rintro s ⟨events, rfl⟩
    rfl
  · intro s e s' hst
    unfold System.Matches
    cases hst with
    | startJob _ _ hpool => exact ⟨_, hpool, rfl⟩
    | uartJob _ hpool => exact ⟨_, hpool, rfl⟩
    | job _ _ _ _ hpool => exact ⟨_, hpool, rfl⟩
    | jobAdded _ hpool => exact ⟨_, hpool, rfl⟩
    | pool _ hpool _ => exact ⟨_, hpool, rfl⟩
    | start hpool _ => exact ⟨_, hpool, rfl⟩
    | finish _ hpool => exact ⟨_, hpool, rfl⟩
    | _ => rfl

end Uartd.Receive
