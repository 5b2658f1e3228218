import Uartd.Lib.Calls
import Uartd.Receive.Basic
import Uartd.LinkList.Basic

/-!
# Uartd — start-up (uart_start.c, thread_pool.c, socket_server.c, epoll_server.c)

`main` up to the first job it adds: the serial line, the pipe, with `NEED_SOCK_SERVER`
the listening socket, the two message lists, the registrations and the pool. What the
calls return is up to the kernel; the functions look at some of it and not at the rest.
-/

namespace Uartd.Startup

open Uartd.Lib
open Uartd.Lib.Prog (ask)

/-! ## The serial line -/

/-- The fields of a `struct termios` that are not zero. -/
structure Termios where
  cIflag : UInt32 := 0
  cCflag : UInt32 := 0
  vtime  : UInt8 := 0
  vmin   : UInt8 := 0
  deriving DecidableEq, Repr

def CLOCAL : UInt32 := 0x800
def CREAD : UInt32 := 0x80
def CSIZE : UInt32 := 0x30
def CS7 : UInt32 := 0x20
def CS8 : UInt32 := 0x30
def PARENB : UInt32 := 0x100
def PARODD : UInt32 := 0x200
def CSTOPB : UInt32 := 0x40
def CBAUD : UInt32 := 0x100f
def INPCK : UInt32 := 0x10
def ISTRIP : UInt32 := 0x20
def B2400 : UInt32 := 0xb
def B4800 : UInt32 := 0xc
def B9600 : UInt32 := 0xd
def B115200 : UInt32 := 0x1002

/-- `cfsetispeed` and `cfsetospeed` with the same speed. -/
def cfsetspeed (t : Termios) (speed : UInt32) : Termios :=
  { t with cCflag := (t.cCflag &&& ~~~CBAUD) ||| speed }

/-- The settings `set_opt` makes. -/
def lineSettings (nSpeed nBits : Int) (nEvent : Char) (nStop : Int) : Termios :=
  let newtio : Termios := {}
  let newtio := { newtio with cCflag := newtio.cCflag ||| (CLOCAL ||| CREAD) }
  let newtio := { newtio with cCflag := newtio.cCflag &&& ~~~CSIZE }
  let newtio :=
    if nBits = 7 then { newtio with cCflag := newtio.cCflag ||| CS7 }
    else if nBits = 8 then { newtio with cCflag := newtio.cCflag ||| CS8 }
    else newtio
  let newtio :=
    if nEvent = 'O' then
      { newtio with
        cCflag := newtio.cCflag ||| PARENB ||| PARODD
        cIflag := newtio.cIflag ||| (INPCK ||| ISTRIP) }
    else if nEvent = 'E' then
      { newtio with
        cIflag := newtio.cIflag ||| (INPCK ||| ISTRIP)
        cCflag := (newtio.cCflag ||| PARENB) &&& ~~~PARODD }
    else if nEvent = 'N' then { newtio with cCflag := newtio.cCflag &&& ~~~PARENB }
    else newtio
  let newtio :=
    if nSpeed = 2400 then cfsetspeed newtio B2400
    else if nSpeed = 4800 then cfsetspeed newtio B4800
    else if nSpeed = 9600 then cfsetspeed newtio B9600
    else if nSpeed = 115200 then cfsetspeed newtio B115200
    else cfsetspeed newtio B9600
  let newtio :=
    if nStop = 1 then { newtio with cCflag := newtio.cCflag &&& ~~~CSTOPB }
    else if nStop = 2 then { newtio with cCflag := newtio.cCflag ||| CSTOPB }
    else newtio
  { newtio with vtime := 0, vmin := 1 }

/-! ## The calls -/

/-- The flags passed to `open`. -/
inductive OpenFlag
  | RDWR
  | NOCTTY
  | NDELAY
  | EXCL
  deriving DecidableEq, Repr

inductive Mutex
  | list
  | pool
  | recvLinklist
  | sendLinklist
  deriving DecidableEq, Repr

inductive Cond
  | queueEmpty
  | queueNotEmpty
  | queueNotFull
  | recvLinklistNotEmpty
  | sendLinklistNotEmpty
  deriving DecidableEq, Repr

/-- What memory is allocated for. -/
inductive Purpose
  | linklistHead
  | head
  | pool
  | pthreads
  deriving DecidableEq, Repr

inductive Op
  | open_ (path : String) (flags : List OpenFlag)
  | tcgetattr (fd : Int)
  | tcflush (fd : Int)
  | tcsetattr (fd : Int) (newtio : Termios)
  | unlink (path : String)
  | mkfifo (path : String)
  | remove (path : String)
  | socket
  | bind (fd : Int) (path : String)
  | listen (fd : Int) (backlog : ℕ)
  | getfl (fd : Int)
  | setfl (fd : Int) (opts : ℕ)
  | alloc (purpose : Purpose)
  | mutexInit (m : Mutex)
  | condInit (c : Cond)
  | pthreadCreate (i : ℕ)
  | epollCreate (size : ℕ)
  /-- `EPOLL_CTL_ADD` -/
  | epollAdd (epfd fd : Int) (trigger : Receive.Trigger)
  | exit (code : Int)
  deriving DecidableEq

/-- An allocation succeeds or not; `exit` does not return. -/
abbrev Op.Ret : Op → Type
  | .alloc _ => Bool
  | .exit _ => Empty
  | _ => Int

abbrev openFile (path : String) (flags : List OpenFlag) : Prog Op.Ret Int :=
  ask (Op.open_ path flags)
abbrev tcgetattr (fd : Int) : Prog Op.Ret Int := ask (Op.tcgetattr fd)
abbrev tcflush (fd : Int) : Prog Op.Ret Int := ask (Op.tcflush fd)
abbrev tcsetattr (fd : Int) (newtio : Termios) : Prog Op.Ret Int := ask (Op.tcsetattr fd newtio)
abbrev unlink (path : String) : Prog Op.Ret Int := ask (Op.unlink path)
abbrev mkfifo (path : String) : Prog Op.Ret Int := ask (Op.mkfifo path)
abbrev remove (path : String) : Prog Op.Ret Int := ask (Op.remove path)
abbrev socket : Prog Op.Ret Int := ask Op.socket
abbrev bindTo (fd : Int) (path : String) : Prog Op.Ret Int := ask (Op.bind fd path)
abbrev listen (fd : Int) (backlog : ℕ) : Prog Op.Ret Int := ask (Op.listen fd backlog)
abbrev getfl (fd : Int) : Prog Op.Ret Int := ask (Op.getfl fd)
abbrev setfl (fd : Int) (opts : ℕ) : Prog Op.Ret Int := ask (Op.setfl fd opts)
abbrev alloc (purpose : Purpose) : Prog Op.Ret Bool := ask (Op.alloc purpose)
abbrev mutexInit (m : Mutex) : Prog Op.Ret Int := ask (Op.mutexInit m)
abbrev condInit (c : Cond) : Prog Op.Ret Int := ask (Op.condInit c)
abbrev pthreadCreate (i : ℕ) : Prog Op.Ret Int := ask (Op.pthreadCreate i)
abbrev epollCreate (size : ℕ) : Prog Op.Ret Int := ask (Op.epollCreate size)
abbrev epollAdd (epfd fd : Int) (trigger : Receive.Trigger) : Prog Op.Ret Int :=
  ask (Op.epollAdd epfd fd trigger)

/-- `exit` in a function that has a result. -/
def exit {α : Type} (code : Int) : Prog Op.Ret α := do
  let e : Empty ← ask (Op.exit code)
  e.elim

/-! ## The functions -/

def setOpt (fd nSpeed nBits : Int) (nEvent : Char) (nStop : Int) : Prog Op.Ret Int := do
  let got ← tcgetattr fd
  if got ≠ 0 then pure (-1)
  else do
    let newtio := lineSettings nSpeed nBits nEvent nStop
    let _ ← tcflush fd
    let set ← tcsetattr fd newtio
    if set ≠ 0 then pure (-1) else pure 0

def ttyPath : String := "/dev/ttyS1"
def FIFO_FILE : String := "/tmp/UartFIFO"
def SOCK_FILE : String := "/tmp/UNIX.nuart"

def openPort : Prog Op.Ret Int := do
  let fd ← openFile ttyPath [.RDWR, .NOCTTY, .NDELAY]
  if fd = -1 then pure (-1)
  else do
    let _ ← setOpt fd 115200 8 'N' 1
    pure fd

/-- `init_uart`: what `G_uartfd` becomes. -/
def initUart : Prog Op.Ret Int := do
  let uartfd ← openPort
  if uartfd = -1 then exit 0 else pure uartfd

/-- `init_pipe`: what `*pipefd` becomes. -/
def initPipe (pipename : String) : Prog Op.Ret Int := do
  let _ ← unlink pipename
  let _ ← mkfifo pipename
  openFile pipename [.RDWR, .EXCL]

/-- `init_socket_server`: what `*sockfd` becomes. -/
def initSocketServer (sockFileName : String) : Prog Op.Ret Int := do
  let _ ← remove sockFileName
  let sockfd ← socket
  if sockfd = -1 then pure sockfd
  else do
    let bound ← bindTo sockfd sockFileName
    if bound = -1 then pure sockfd
    else do
      let _ ← listen sockfd 5
      pure sockfd

/-- `init_singlelinklist`: whether it returns a list. -/
def initSinglelinklist : Prog Op.Ret Bool := do
  let linklistHead ← alloc .linklistHead
  if linklistHead = false then pure false
  else do
    let head ← alloc .head
    if head = false then pure false
    else do
      let initialised ← mutexInit .list
      if initialised ≠ 0 then pure false else pure true

/-- The threads from the `i`-th on, and what `pthread_create` returned for them. -/
def createThreads (i : ℕ) : ℕ → Prog Op.Ret (List Int)
  | 0 => pure []
  | n + 1 => do
    let created ← pthreadCreate i
    let rest ← createThreads (i + 1) n
    pure (created :: rest)

/-- `threadpool_init`, with what `pthread_create` returned; `none` for NULL. -/
def threadpoolInit (threadNum : ℕ) (queueMaxNum : Int) :
    Prog Op.Ret (Option (ThreadPool.Threadpool × List Int)) := do
  let pool ← alloc .pool
  if pool = false then pure none
  else do
    let mutex ← mutexInit .pool
    if mutex ≠ 0 then pure none
    else do
      let queueEmpty ← condInit .queueEmpty
      if queueEmpty ≠ 0 then pure none
      else do
        let queueNotEmpty ← condInit .queueNotEmpty
        if queueNotEmpty ≠ 0 then pure none
        else do
          let queueNotFull ← condInit .queueNotFull
          if queueNotFull ≠ 0 then pure none
          else do
            let pthreads ← alloc .pthreads
            if pthreads = false then pure none
            else do
              let created ← createThreads 0 threadNum
              pure (some ({ threadNum := threadNum, queueMaxNum := queueMaxNum, queueCurNum := 0,
                            head := none, tail := none, queueClose := false, poolClose := false },
                created))

/-- `O_NONBLOCK` -/
def nonblock : ℕ := 0x800

def setnonblocking (sock : Int) : Prog Op.Ret Unit := do
  let opts ← getfl sock
  if opts < 0 then exit 1
  else do
    let set ← setfl sock (opts.toNat ||| nonblock)
    if set < 0 then exit 1 else pure ()

structure Globals where
  uartfd : Int
  pipefd : Int
  sockfd : Int := 0
  recvLinklist : Bool
  sendLinklist : Bool

/-- What has been set up when the first job is added. -/
structure SetUp where
  globals : Globals
  epollfd : Int
  pool    : Option (ThreadPool.Threadpool × List Int)

/-- The lines of `epoll_start` for one descriptor. -/
def addFd (epollfd fd : Int) : Prog Op.Ret Unit := do
  setnonblocking fd
  let _ ← epollAdd epollfd fd .edge
  pure ()

/-- `epoll_start` up to the first job; `none` if it returns before. -/
def epollStart (needSockServer : Bool) (g : Globals) : Prog Op.Ret (Option SetUp) := do
  let epollfd ← epollCreate 32
  addFd epollfd g.uartfd
  let _ ← (if needSockServer then addFd epollfd g.sockfd else pure ())
  addFd epollfd g.pipefd
  let pool ← threadpoolInit 5 10
  let _ ← condInit .recvLinklistNotEmpty
  let mutex ← mutexInit .recvLinklist
  if mutex ≠ 0 then pure none
  else do
    let _ ← condInit .sendLinklistNotEmpty
    let mutex ← mutexInit .sendLinklist
    if mutex ≠ 0 then pure none else pure (some ⟨g, epollfd, pool⟩)

/-- What `main` comes to: the first job, or its end, with what it returns. -/
inductive Reached where
  | firstJob (s : SetUp)
  | returned (code : Int)

/-- `main` up to the first job. -/
def main (needSockServer : Bool) : Prog Op.Ret Reached := do
  let uartfd ← initUart
  let pipefd ← initPipe FIFO_FILE
  let sockfd ← (if needSockServer then initSocketServer SOCK_FILE else pure 0)
  let recvLinklist ← initSinglelinklist
  let sendLinklist ← initSinglelinklist
  let started ← epollStart needSockServer { uartfd, pipefd, sockfd, recvLinklist, sendLinklist }
  match started with
  | none => pure (.returned 0)
  | some s => pure (.firstJob s)

end Uartd.Startup
