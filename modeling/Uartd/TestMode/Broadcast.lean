import Uartd.Lib.Calls
import Uartd.Lib.Decimal

/-!
# Uartd — the test mode's broadcasts (uartd_test_mode.c)

`send_cmd_to_server` tells a test server which button was pressed: over each of two
interfaces it opens a socket, sends one text ten times and closes the socket. What
the calls return is up to the kernel, so each failure is a branch here.

* `sockets_given_back` — in every sequence of calls each socket is used by the rules
  and closed, and what a call returns is the fate of the last datagram of a round;
* `server_hears_commands` — the datagrams read back as the commands, in order.

A `char` is an `Int` here, signed or not. Log output is left out, and so is
`ifr_name`, which has room for both names.
-/

namespace Uartd.TestMode

open Uartd.Lib
open Uartd.Lib.Prog (ask)

/-- The fields of a `struct sockaddr_in` in host order. -/
structure SockaddrIn where
  family : ℕ := 0
  addr   : ℕ := 0
  port   : ℕ := 0
  deriving DecidableEq, Repr

/-- `AF_INET`, `INADDR_BROADCAST` and `SEND_PORT`. -/
def broadcastAddress : SockaddrIn := ⟨2, 0xffffffff, 8060⟩

/-- The calls this file makes. -/
inductive Op
  | access (path : String)
  | cdbGet (key : String)
  | socket
  /-- `setsockopt` with `SO_BROADCAST` -/
  | setBroadcast (fd : Int)
  /-- `ioctl` with `SIOCGIFFLAGS` -/
  | getFlags (fd : Int) (ifname : String)
  /-- `setsockopt` with `SO_BINDTODEVICE` -/
  | bindToDevice (fd : Int) (ifname : String)
  | sendto (fd : Int) (data : List UInt8) (dest : SockaddrIn)
  | usleep (usec : ℕ)
  | close (fd : Int)
  deriving DecidableEq

/-- What a call returns: a string for `cdb_get`, the flags as well for `ioctl`. -/
abbrev Op.Ret : Op → Type
  | .cdbGet _ => List UInt8
  | .getFlags _ _ => Int × UInt16
  | .usleep _ => Unit
  | _ => Int

abbrev access (path : String) : Prog Op.Ret Int := ask (Op.access path)
abbrev cdbGet (key : String) : Prog Op.Ret (List UInt8) := ask (Op.cdbGet key)
abbrev socket : Prog Op.Ret Int := ask Op.socket
abbrev setBroadcast (fd : Int) : Prog Op.Ret Int := ask (Op.setBroadcast fd)
abbrev getFlags (fd : Int) (ifname : String) : Prog Op.Ret (Int × UInt16) :=
  ask (Op.getFlags fd ifname)
abbrev bindToDevice (fd : Int) (ifname : String) : Prog Op.Ret Int :=
  ask (Op.bindToDevice fd ifname)
abbrev sendto (fd : Int) (data : List UInt8) (dest : SockaddrIn) : Prog Op.Ret Int :=
  ask (Op.sendto fd data dest)
abbrev usleep (usec : ℕ) : Prog Op.Ret Unit := ask (Op.usleep usec)
abbrev close (fd : Int) : Prog Op.Ret Int := ask (Op.close fd)

structure Globals where
  sockfd      : Int := -1
  destAddress : SockaddrIn := {}

/-- From the label `CLOSE_FD` on. -/
def closeFd (g : Globals) : Prog Op.Ret (Globals × Int) := do
  let _ ← close g.sockfd
  pure ({ g with sockfd := -1 }, -1)

def createBroadcastSocket (g : Globals) (ifname : String) : Prog Op.Ret (Globals × Int) := do
  let sockfd ← socket
  let g := { g with sockfd := sockfd }
  if g.sockfd = -1 then pure (g, -1)
  else do
    let opt ← setBroadcast g.sockfd
    if opt = -1 then closeFd g
    else do
      let (ret, flags) ← getFlags g.sockfd ifname
      if 0 ≤ ret ∧ flags &&& 1 ≠ 0 then do
        let opt ← bindToDevice g.sockfd ifname
        if opt = -1 then closeFd g
        else pure ({ g with destAddress := broadcastAddress }, 0)
      else closeFd g

/-- The loop of `send_broadcast_to_interface` with `n` rounds to go. -/
def sendTimes (g : Globals) (buffer : List UInt8) (cnt : Int) : ℕ → Prog Op.Ret Int
  | 0 => pure cnt
  | n + 1 => do
    let cnt ← sendto g.sockfd buffer g.destAddress
    let _ ← usleep 100000
    sendTimes g buffer cnt n

def sendBroadcastToInterface (g : Globals) (buffer : List UInt8) (ifname : String) :
    Prog Op.Ret (Globals × Int) := do
  let (g, created) ← if g.sockfd = -1 then createBroadcastSocket g ifname else pure (g, 0)
  if created ≠ 0 then pure (g, -1)
  else do
    let cnt ← sendTimes g buffer 0 10
    let ret : Int := if cnt < 0 then -1 else 0
    let _ ← close g.sockfd
    pure ({ g with sockfd := -1 }, ret)

/-- `send_cmd_to_server`; `none` if `cdb_get` writes more than `mac` holds, or `sprintf`
more than `mac_cmd`. -/
def sendCmdToServer (g : Globals) (cmd : Int) : Prog Op.Ret (Option (Globals × Int)) := do
  let absent ← access "/tmp/test_mode"
  if absent ≠ 0 then pure (some (g, -1))
  else do
    let mac ← cdbGet "$boot_mac0"
    let macCmd := mac ++ formatZero 2 cmd
    if 20 ≤ mac.length then pure none
    else if 20 ≤ macCmd.length then pure none
    else do
      let (g, br0) ← sendBroadcastToInterface g macCmd "br0"
      let ret : Int := if br0 = 0 then 0 else -1
      let (g, br1) ← sendBroadcastToInterface g macCmd "br1"
      let ret := if br1 = 0 then 0 else ret
      pure (some (g, ret))

/-- One call after another; it ends with the first fault. -/
def session (cmds : List Int) : Prog Op.Ret (Option (Globals × List Int)) :=
  cmds.foldlM (fun state cmd =>
    match state with
    | none => pure none
    | some (g, rets) => do
      let called ← sendCmdToServer g cmd
      pure (called.map fun (g, ret) => (g, rets ++ [ret]))) (some ({}, []))

-- ---------------------------------------------------------------------------
-- The kernel
-- ---------------------------------------------------------------------------

/-- What a socket is set up for. -/
structure Sock where
  broadcast : Bool := false
  device    : Option String := none

/-- The open sockets. -/
abbrev Table := Int → Option Sock

def Table.next (t : Table) : Called Op.Ret → Table
  | ⟨.socket, fd⟩ => if fd = -1 then t else Function.update t fd (some {})
  | ⟨.setBroadcast fd, ret⟩ =>
    if ret = -1 then t
    else Function.update t fd ((t fd).map fun s => { s with broadcast := true })
  | ⟨.bindToDevice fd ifname, ret⟩ =>
    if ret = -1 then t
    else Function.update t fd ((t fd).map fun s => { s with device := some ifname })
  | ⟨.close fd, _⟩ => Function.update t fd none
  | _ => t

def table (h : History Op.Ret) : Table := h.foldl Table.next fun _ => none

/-- Only an open socket is set up, used or closed, and a datagram is sent from one
that may broadcast, bound to an interface, to everyone. A new socket has a number
that is not in use. `cdb_get` may write any string: it is not told the size of `mac`. -/
def kernel : Kernel Op.Ret where
  allowed h
    | .setBroadcast fd | .getFlags fd _ | .bindToDevice fd _ | .close fd => (table h fd).isSome
    | .sendto fd _ dest =>
      ∃ ifname, table h fd = some ⟨true, some ifname⟩ ∧ dest = broadcastAddress
    | _ => True
  answers h
    | .socket, fd => fd = -1 ∨ 0 ≤ fd ∧ table h fd = none
    | .cdbGet _, mac => 0 ∉ mac
    | _, _ => True

/-- No socket is open. -/
def Closed (h : History Op.Ret) : Prop := table h = fun _ => none

/-- The datagrams, with what `sendto` returned for each. -/
def sent (tr : History Op.Ret) : List (List UInt8 × Int) :=
  tr.filterMap fun
    | ⟨.sendto _ data _, cnt⟩ => some (data, cnt)
    | _ => none

/-- What `cdb_get` gave. -/
def macs (tr : History Op.Ret) : List (List UInt8) :=
  tr.filterMap fun
    | ⟨.cdbGet _, mac⟩ => some mac
    | _ => none

/-- `h'` goes on from `h`, has asked for no MAC and has sent `buffer` once for each of
`cnts`. -/
def Sends (buffer : List UInt8) (h : History Op.Ret) (cnts : List Int) (h' : History Op.Ret) :
    Prop :=
  ∃ tr, h' = h ++ tr ∧ macs tr = [] ∧ sent tr = cnts.map fun cnt => (buffer, cnt)

/-- The socket `fd` is open, and no other. -/
def Only (h : History Op.Ret) (fd : Int) (s : Sock) : Prop :=
  table h = Function.update (fun _ => none) fd (some s)

variable {h h' h'' : History Op.Ret} {g : Globals} {buffer : List UInt8} {cnts cnts' : List Int}
  {fd : Int} {s : Sock} {ifname : String}

@[simp] theorem table_append (e : Called Op.Ret) : table (h ++ [e]) = (table h).next e := by
  rw [table, List.foldl_append]
  rfl

theorem macs_append (tr tr' : History Op.Ret) : macs (tr ++ tr') = macs tr ++ macs tr' :=
  List.filterMap_append

theorem sent_append (tr tr' : History Op.Ret) : sent (tr ++ tr') = sent tr ++ sent tr' :=
  List.filterMap_append

theorem Sends.refl : Sends buffer h [] h := ⟨[], (List.append_nil h).symm, rfl, rfl⟩

theorem Sends.trans (hsends : Sends buffer h cnts h') (hsends' : Sends buffer h' cnts' h'') :
    Sends buffer h (cnts ++ cnts') h'' := by
  obtain ⟨tr, rfl, hmacs, hsent⟩ := hsends
  obtain ⟨tr', rfl, hmacs', hsent'⟩ := hsends'
  refine ⟨tr ++ tr', List.append_assoc h tr tr', ?_, ?_⟩
  · rw [macs_append, hmacs, hmacs', List.append_nil]
  · rw [sent_append, hsent, hsent', List.map_append]

/-- A call that asks for no MAC and sends nothing. -/
theorem Sends.quiet (hsends : Sends buffer h cnts h') {e : Called Op.Ret} (hmacs : macs [e] = [])
    (hsent : sent [e] = []) : Sends buffer h cnts (h' ++ [e]) := by
  rw [← List.append_nil cnts]
  exact hsends.trans ⟨[e], rfl, hmacs, hsent⟩

theorem Only.self (honly : Only h fd s) : table h fd = some s := by
  rw [honly, Function.update_self]

theorem Only.allowed (honly : Only h fd s) : (table h fd).isSome := by
  rw [honly.self]
  rfl

/-- A call that leaves the sockets as they are. -/
theorem Only.keep (honly : Only h fd s) {e : Called Op.Ret} (he : (table h).next e = table h) :
    Only (h ++ [e]) fd s := by
  rw [Only, table_append, he]
  exact honly

/-- A call that changes the only socket. -/
theorem Only.set (honly : Only h fd s) {e : Called Op.Ret} (f : Sock → Sock)
    (he : (table h).next e = Function.update (table h) fd ((table h fd).map f)) :
    Only (h ++ [e]) fd (f s) := by
  rw [Only, table_append, he, honly.self, honly, Function.update_idem]
  rfl

theorem Only.close (honly : Only h fd s) (ret : Int) : Closed (h ++ [⟨.close fd, ret⟩]) := by
  rw [Closed, table_append]
  show Function.update (table h) fd none = _
  rw [honly, Function.update_idem, Function.update_eq_self_iff]

-- ---------------------------------------------------------------------------
-- What the functions do
-- ---------------------------------------------------------------------------

/-- What `create_broadcast_socket` leaves open: the socket if it returned 0. -/
def SetUp (h : History Op.Ret) (ifname : String) (r : Globals × Int) : Prop :=
  (r.2 = 0 ∧ Only h r.1.sockfd ⟨true, some ifname⟩ ∧ r.1.destAddress = broadcastAddress) ∨
    (r.2 = -1 ∧ r.1.sockfd = -1 ∧ Closed h)

theorem closeFd_spec (hsends : Sends buffer h [] h') (honly : Only h' g.sockfd s)
    (ifname : String) :
    Prog.wp kernel (closeFd g) (fun h' r => Sends buffer h [] h' ∧ SetUp h' ifname r) h' := by
  simp only [closeFd, Prog.wp_bind, Prog.wp_ask, Prog.wp_pure]
  exact ⟨honly.allowed, fun ret _ => ⟨hsends.quiet rfl rfl, .inr ⟨rfl, rfl, honly.close ret⟩⟩⟩

theorem createBroadcastSocket_spec (hclosed : Closed h) (buffer : List UInt8) (ifname : String) :
    Prog.wp kernel (createBroadcastSocket g ifname) (fun h' r =>
      Sends buffer h [] h' ∧ SetUp h' ifname r) h := by
  unfold createBroadcastSocket
  simp only [Prog.wp_bind, Prog.wp_ask]
  refine ⟨trivial, fun fd hfd => ?_⟩
  have hsends : Sends buffer h [] (h ++ [⟨.socket, fd⟩]) := Sends.refl.quiet rfl rfl
  split
  · rename_i hnone
    refine ⟨hsends, .inr ⟨rfl, hnone, ?_⟩⟩
    rw [Closed, table_append]
    exact (if_pos hnone).trans hclosed
  rename_i hsome
  have hopen : Only (h ++ [⟨.socket, fd⟩]) fd {} := by
    rw [Only, table_append]
    refine (if_neg hsome).trans ?_
    rw [hclosed]
  simp only [Prog.wp_bind, Prog.wp_ask]
  refine ⟨hopen.allowed, fun ret _ => ?_⟩
  replace hsends := hsends.quiet (e := ⟨.setBroadcast fd, ret⟩) rfl rfl
  split
  · rename_i hfail
    exact closeFd_spec hsends
      (hopen.keep (e := ⟨.setBroadcast fd, ret⟩) (if_pos hfail)) ifname
  rename_i hdone
  have hbroadcast := hopen.set (fun s => { s with broadcast := true })
    (e := ⟨.setBroadcast fd, ret⟩) (if_neg hdone)
  simp only [Prog.wp_bind, Prog.wp_ask]
  refine ⟨hbroadcast.allowed, fun flags _ => ?_⟩
  replace hsends := hsends.quiet (e := ⟨.getFlags fd ifname, flags⟩) rfl rfl
  have hflags := hbroadcast.keep (e := ⟨.getFlags fd ifname, flags⟩) rfl
  split
  · simp only [Prog.wp_bind, Prog.wp_ask]
    refine ⟨hflags.allowed, fun ret' _ => ?_⟩
    replace hsends := hsends.quiet (e := ⟨.bindToDevice fd ifname, ret'⟩) rfl rfl
    split
    · rename_i hfail'
      exact closeFd_spec hsends
        (hflags.keep (e := ⟨.bindToDevice fd ifname, ret'⟩) (if_pos hfail')) ifname
    · rename_i hdone'
      exact ⟨hsends, .inl ⟨rfl, hflags.set (fun s => { s with device := some ifname })
        (if_neg hdone'), rfl⟩⟩
  · exact closeFd_spec hsends hflags ifname

theorem sendTimes_spec {n : ℕ} (hdest : g.destAddress = broadcastAddress)
    (honly : Only h g.sockfd ⟨true, some ifname⟩) (cnt : Int) :
    Prog.wp kernel (sendTimes g buffer cnt n) (fun h' last => ∃ cnts, cnts.length = n ∧
      Sends buffer h cnts h' ∧ last = cnts.getLastD cnt ∧
      Only h' g.sockfd ⟨true, some ifname⟩) h := by
  induction n generalizing h cnt with
  | zero => exact ⟨[], rfl, Sends.refl, rfl, honly⟩
  | succ n ih =>
    simp only [sendTimes, Prog.wp_bind, Prog.wp_ask]
    refine ⟨⟨ifname, honly.self, hdest⟩, fun cnt' _ => ⟨trivial, fun _ _ => ?_⟩⟩
    have hsent := honly.keep (e := ⟨.sendto g.sockfd buffer g.destAddress, cnt'⟩) rfl
    refine Prog.wp_mono (ih (hsent.keep (e := ⟨.usleep 100000, _⟩) rfl) cnt') ?_
    rintro h' last ⟨cnts, hlen, hsends, hlast, honly'⟩
    refine ⟨cnt' :: cnts, congrArg (· + 1) hlen, ?_, ?_, honly'⟩
    · have hfirst : Sends buffer h [cnt'] (h ++ [⟨.sendto g.sockfd buffer g.destAddress, cnt'⟩]) :=
        ⟨[_], rfl, rfl, rfl⟩
      exact (hfirst.quiet (e := ⟨.usleep 100000, _⟩) rfl rfl).trans hsends
    · rw [hlast, List.getLastD_cons]

/-- The last datagram of some round was sent. -/
def Delivered (rounds : List (List Int)) : Prop := ∃ round ∈ rounds, 0 ≤ round.getLastD 0

instance (rounds : List (List Int)) : Decidable (Delivered rounds) :=
  inferInstanceAs (Decidable (∃ round ∈ rounds, 0 ≤ round.getLastD 0))

/-- A function sent its datagrams in rounds of ten, and returned 0 if the last one of
some round was sent. -/
def Outcome (rounds : List (List Int)) (ret : Int) : Prop :=
  (∀ round ∈ rounds, round.length = 10) ∧ ret = if Delivered rounds then 0 else -1

theorem Outcome.nil : Outcome [] (-1) := ⟨fun _ h => absurd h List.not_mem_nil, rfl⟩

theorem Outcome.append {rounds rounds' : List (List Int)} {ret ret' : Int}
    (h : Outcome rounds ret) (h' : Outcome rounds' ret') :
    Outcome (rounds ++ rounds') (if ret' = 0 then 0 else if ret = 0 then 0 else -1) := by
  have heither : Delivered (rounds ++ rounds') ↔ Delivered rounds ∨ Delivered rounds' := by
    simp only [Delivered, List.mem_append, or_and_right, exists_or]
  refine ⟨fun round hround => ?_, ?_⟩
  · rcases List.mem_append.mp hround with hround | hround
    · exact h.1 round hround
    · exact h'.1 round hround
  · rw [h.2, h'.2]
    by_cases hd : Delivered rounds
    · by_cases hd' : Delivered rounds' <;> simp [heither, hd, hd']
    · by_cases hd' : Delivered rounds' <;> simp [heither, hd, hd']

theorem sendBroadcastToInterface_spec (hclosed : Closed h) (hg : g.sockfd = -1)
    (buffer : List UInt8) (ifname : String) :
    Prog.wp kernel (sendBroadcastToInterface g buffer ifname) (fun h' r =>
      (∃ rounds, rounds.length ≤ 1 ∧ Sends buffer h rounds.flatten h' ∧ Outcome rounds r.2) ∧
        r.1.sockfd = -1 ∧ Closed h') h := by
  unfold sendBroadcastToInterface
  rw [if_pos hg, Prog.wp_bind]
  refine Prog.wp_mono (createBroadcastSocket_spec hclosed buffer ifname) ?_
  rintro h' ⟨g', created⟩ ⟨hsends, hset⟩
  rcases hset with ⟨hzero, honly, hdest⟩ | ⟨hfail, hnone, hclosed'⟩
  · obtain rfl : created = 0 := hzero
    dsimp only
    rw [if_neg (by decide)]
    simp only [Prog.wp_bind, Prog.wp_ask]
    refine Prog.wp_mono (sendTimes_spec hdest honly 0) ?_
    rintro h'' last ⟨cnts, hlen, hsends', rfl, honly'⟩
    refine ⟨honly'.allowed, fun ret _ =>
      ⟨⟨[cnts], Nat.le_refl 1, ?_, ?_, ?_⟩, rfl, honly'.close ret⟩⟩
    · rw [List.flatten_singleton, ← List.nil_append cnts]
      exact (hsends.trans hsends').quiet rfl rfl
    · intro round hround
      rw [List.mem_singleton.mp hround]
      exact hlen
    · have hlast : Delivered [cnts] ↔ ¬ cnts.getLastD 0 < 0 := by
        simp only [Delivered, List.mem_singleton, exists_eq_left, Int.not_lt]
      simp only [hlast, ite_not]
  · obtain rfl : created = -1 := hfail
    dsimp only
    rw [if_pos (by decide)]
    exact ⟨⟨[], Nat.zero_le 1, hsends, Outcome.nil⟩, hnone, hclosed'⟩

/-- What a call with the command `cmd` does that comes back, and what it returns: nothing
outside the test mode, else it asks for the MAC and sends it with the command. -/
def Reported (cmd : Int) (tr : History Op.Ret) (ret : Int) : Prop :=
  (macs tr = [] ∧ sent tr = [] ∧ ret = -1) ∨
    ∃ mac rounds, macs tr = [mac] ∧ (mac ++ formatZero 2 cmd).length < 20 ∧
      rounds.length ≤ 2 ∧ Outcome rounds ret ∧
      sent tr = rounds.flatten.map fun cnt => (mac ++ formatZero 2 cmd, cnt)

/-- What a call with the command `cmd` has done that faults: the MAC it was given, or the
MAC and the command, has no room. -/
def Faulted (cmd : Int) (tr : History Op.Ret) : Prop :=
  ∃ mac, macs tr = [mac] ∧ 20 ≤ (mac ++ formatZero 2 cmd).length ∧ sent tr = []

theorem sendCmdToServer_spec (hclosed : Closed h) (hg : g.sockfd = -1) (cmd : Int) :
    Prog.wp kernel (sendCmdToServer g cmd) (fun h' r => ∃ tr, h' = h ++ tr ∧
      match r with
      | none => Faulted cmd tr
      | some (g', ret) => g'.sockfd = -1 ∧ Closed h' ∧ Reported cmd tr ret) h := by
  unfold sendCmdToServer
  simp only [Prog.wp_bind, Prog.wp_ask]
  refine ⟨trivial, fun absent _ => ?_⟩
  split
  · refine ⟨[_], rfl, hg, ?_, .inl ⟨rfl, rfl, rfl⟩⟩
    rw [Closed, table_append]
    exact hclosed
  simp only [Prog.wp_bind, Prog.wp_ask]
  refine ⟨trivial, fun mac _ => ?_⟩
  split
  · rename_i hlong
    refine ⟨[_, _], List.append_assoc h [_] [_], mac, rfl, ?_, rfl⟩
    rw [List.length_append]
    exact Nat.le_trans hlong (Nat.le_add_right _ _)
  split
  · rename_i hlong
    exact ⟨[_, _], List.append_assoc h [_] [_], mac, rfl, hlong, rfl⟩
  rename_i hshort
  have hquiet : Closed (h ++ [⟨.access "/tmp/test_mode", absent⟩] ++
      [⟨.cdbGet "$boot_mac0", mac⟩]) := by
    rw [Closed, table_append, table_append]
    exact hclosed
  rw [Prog.wp_bind]
  refine Prog.wp_mono (sendBroadcastToInterface_spec hquiet hg _ "br0") ?_
  rintro h₀ ⟨g₀, br0⟩ ⟨⟨rounds₀, hlen₀, hsends₀, hout₀⟩, hg₀, hclosed₀⟩
  dsimp only
  rw [Prog.wp_bind]
  refine Prog.wp_mono (sendBroadcastToInterface_spec hclosed₀ hg₀ _ "br1") ?_
  rintro h₁ ⟨g₁, br1⟩ ⟨⟨rounds₁, hlen₁, hsends₁, hout₁⟩, hg₁, hclosed₁⟩
  obtain ⟨tr, rfl, hmacs, hsent⟩ := hsends₀.trans hsends₁
  refine ⟨⟨.access "/tmp/test_mode", absent⟩ :: ⟨.cdbGet "$boot_mac0", mac⟩ :: tr, ?_, hg₁,
    hclosed₁, .inr ⟨mac, rounds₀ ++ rounds₁, ?_, Nat.lt_of_not_le hshort, ?_,
      hout₀.append hout₁, ?_⟩⟩
  · simp only [List.append_assoc, List.cons_append, List.nil_append]
  · show mac :: macs tr = [mac]
    rw [hmacs]
  · rw [List.length_append]
    omega
  · rw [List.flatten_append]
    exact hsent

-- ---------------------------------------------------------------------------
-- Sessions
-- ---------------------------------------------------------------------------

/-- The calls for the commands `cmds`, in their order, with what they returned. -/
def Calls (cmds : List Int) (h : History Op.Ret) (rets : List Int) : Prop :=
  ∃ calls : List (History Op.Ret × Int), h = (calls.map Prod.fst).flatten ∧
    rets = calls.map Prod.snd ∧
    List.Forall₂ (fun cmd call => Reported cmd call.1 call.2) cmds calls

/-- Where a session is after the commands `cmds`; after a fault, with the command whose
call it was in and the calls before it. -/
def Progressed (cmds : List Int) (state : Option (Globals × List Int)) (h : History Op.Ret) :
    Prop :=
  match state with
  | none => ∃ past cmd rest, cmds = past ++ cmd :: rest ∧
      ∃ h₀ tr rets, h = h₀ ++ tr ∧ Calls past h₀ rets ∧ Faulted cmd tr
  | some (g, rets) => g.sockfd = -1 ∧ Closed h ∧ Calls cmds h rets

theorem session_spec (cmds : List Int) :
    Prog.wp kernel (session cmds) (fun h state => Progressed cmds state h) [] := by
  have hstart : Progressed [] (some ({}, [])) [] := ⟨rfl, rfl, [], rfl, rfl, .nil⟩
  refine Prog.wp_foldlM (I := Progressed) ?_ cmds hstart
  intro done cmd state h hI
  match state with
  | none =>
    obtain ⟨past, cmd', rest, rfl, hfault⟩ := hI
    exact ⟨past, cmd', rest ++ [cmd], by simp, hfault⟩
  | some (g, rets) =>
    obtain ⟨hg, hclosed, hcalls⟩ := hI
    dsimp only
    rw [Prog.wp_bind]
    refine Prog.wp_mono (sendCmdToServer_spec hclosed hg cmd) ?_
    rintro h' called ⟨tr, rfl, hcalled⟩
    match called with
    | none => exact ⟨done, cmd, [], rfl, h, tr, rets, rfl, hcalls, hcalled⟩
    | some (g', ret) =>
      obtain ⟨hg', hclosed', hreported⟩ := hcalled
      obtain ⟨calls, rfl, rfl, hcalls⟩ := hcalls
      refine ⟨hg', hclosed', calls ++ [(tr, ret)], ?_, ?_, ?_⟩
      · rw [List.map_append, List.flatten_append, List.map_singleton, List.flatten_singleton]
      · rw [List.map_append]
        rfl
      · exact List.rel_append hcalls (.cons hreported .nil)

/-- **Sockets are used by the rules and given back.** In every sequence of calls of
`send_cmd_to_server`, whatever the calls it makes return, each of them is on an open
socket and each datagram leaves one that is bound to an interface and may broadcast.
Between the calls no socket is open. A call sends the MAC it was given and its command
in at most two rounds of ten, and returns 0 if the last datagram of a round was sent.
The only fault is a MAC that `mac` has no room for, or `mac_cmd` with the command. -/
theorem sockets_given_back {cmds : List Int} {h : History Op.Ret}
    {p : Prog Op.Ret (Option (Globals × List Int))}
    (hrun : Prog.Runs kernel [] (session cmds) h p) :
    match p with
    | .call o _ => kernel.allowed h o
    | .ret state => Progressed cmds state h := by
  have hp := Prog.wp_run (session_spec cmds) hrun
  cases p with
  | ret state => exact hp
  | call o k => exact hp.1

/-- All datagrams leave. -/
theorem sendTimes_runs (h : History Op.Ret) (g : Globals) (buffer : List UInt8) (cnt : Int)
    (n : ℕ) : ∃ tr, macs tr = [] ∧ sent tr = List.replicate n (buffer, 19) ∧
      Prog.Runs kernel h (sendTimes g buffer cnt n) (h ++ tr)
        (.ret ((List.replicate n 19).getLastD cnt)) := by
  induction n generalizing h cnt with
  | zero =>
    refine ⟨[], rfl, rfl, ?_⟩
    rw [List.append_nil]
    exact .start
  | succ n ih =>
    have hstart : Prog.Runs kernel h (sendTimes g buffer cnt (n + 1)) h _ := .start
    have hround := (hstart.call (r := 19) trivial).call (r := ()) trivial
    obtain ⟨tr, hmacs, hsent, hrun⟩ := ih (h ++ [⟨.sendto g.sockfd buffer g.destAddress, 19⟩] ++
      [⟨.usleep 100000, ()⟩]) 19
    refine ⟨⟨.sendto g.sockfd buffer g.destAddress, 19⟩ :: ⟨.usleep 100000, ()⟩ :: tr, hmacs,
      congrArg ((buffer, 19) :: ·) hsent, ?_⟩
    rw [List.replicate_succ, List.getLastD_cons, List.append_cons, List.append_cons]
    exact hround.trans hrun

/-- A button in the test mode; "br0" is up, and there is no socket for "br1". -/
theorem button_run : ∃ (h : History Op.Ret) (g : Globals),
    Prog.Runs kernel [] (session [3]) h (.ret (some (g, [0]))) ∧
      macs h = [List.replicate 17 65] ∧
      sent h = List.replicate 10 (List.replicate 17 65 ++ [48, 51], 19) := by
  have hstart : Prog.Runs kernel [] (sendCmdToServer {} 3) [] _ := .start
  have hmac := (hstart.call (r := 0) trivial).call (r := List.replicate 17 65)
    (show (0 : UInt8) ∉ List.replicate 17 65 by decide)
  have hsocket := hmac.call (r := 7) (.inr ⟨by decide, rfl⟩)
  have hflags := (hsocket.call (r := 0) trivial).call (r := (0, 1)) trivial
  have hbound := hflags.call (r := 0) trivial
  obtain ⟨tr, hmacs, hsent, hsends⟩ := sendTimes_runs _ ⟨7, broadcastAddress⟩
    (List.replicate 17 65 ++ [48, 51]) 0 10
  have hrounds := hbound.trans ((hsends.bind _).bind _)
  have hclose := hrounds.call (r := 0) trivial
  have hdone := hclose.call (r := -1) (.inl rfl)
  have hrun := Prog.Runs.bind hdone fun called =>
    pure (called.map fun (g, ret) => (g, [] ++ [ret]))
  refine ⟨_, _, hrun.bind pure, ?_, ?_⟩
  · rw [macs_append, macs_append, macs_append, hmacs]
    rfl
  · rw [sent_append, sent_append, sent_append, hsent]
    rfl

/-- The theorem at work: ten datagrams leave, and the sockets are given back. -/
theorem sockets_given_back_button : ∃ (h : History Op.Ret) (g : Globals),
    Prog.Runs kernel [] (session [3]) h (.ret (some (g, [0]))) ∧
      sent h = List.replicate 10 (List.replicate 17 65 ++ [48, 51], 19) ∧
      Progressed [3] (some (g, [0])) h := by
  obtain ⟨h, g, hrun, -, hsent⟩ := button_run
  exact ⟨h, g, hrun, hsent, sockets_given_back hrun⟩

-- ---------------------------------------------------------------------------
-- What the server hears
-- ---------------------------------------------------------------------------

/-- A datagram as the MAC, which has 17 characters, and the command. -/
def readReport (data : List UInt8) : List UInt8 × Option ℕ :=
  (data.take 17, readDecimal (data.drop 17))

theorem readReport_text {mac : List UInt8} (hmac : mac.length = 17) {cmd : Int} (hcmd : 0 ≤ cmd) :
    readReport (mac ++ formatZero 2 cmd) = (mac, some cmd.toNat) := by
  obtain ⟨n, rfl⟩ := Int.eq_ofNat_of_zero_le hcmd
  rw [readReport, List.take_left' hmac, List.drop_left' hmac, readDecimal_formatZero,
    Int.toNat_natCast]

/-- What the server hears. -/
def heard (tr : History Op.Ret) : List (List UInt8 × Option ℕ) :=
  (sent tr).map fun d => readReport d.1

/-- The server hears a call 0, 10 or 20 times, as the MAC the call was given and its
command. -/
def Heard (cmd : Int) (tr : History Op.Ret) : Prop :=
  (macs tr = [] ∧ heard tr = []) ∨ ∃ mac n, macs tr = [mac] ∧ n ≤ 2 ∧
    heard tr = List.replicate (10 * n) (mac, some cmd.toNat)

theorem length_flatten_rounds {rounds : List (List Int)} (h : ∀ round ∈ rounds, round.length = 10) :
    rounds.flatten.length = 10 * rounds.length := by
  rw [List.length_flatten, List.map_congr_left h, List.map_const', List.sum_replicate_nat,
    Nat.mul_comm]

theorem Reported.heard {cmd : Int} {tr : History Op.Ret} {ret : Int} (h : Reported cmd tr ret)
    (hcmd : 0 ≤ cmd) (hmac : ∀ mac ∈ macs tr, mac.length = 17) : Heard cmd tr := by
  rcases h with ⟨hmacs, hsent, -⟩ | ⟨mac, rounds, hmacs, -, hlen, hout, hsent⟩
  · refine .inl ⟨hmacs, ?_⟩
    rw [TestMode.heard, hsent]
    rfl
  · refine .inr ⟨mac, rounds.length, hmacs, hlen, ?_⟩
    have hmac := hmac mac (hmacs ▸ List.mem_singleton_self mac)
    rw [TestMode.heard, hsent, List.map_map, ← length_flatten_rounds hout.1]
    exact (List.map_congr_left fun cnt _ => readReport_text hmac hcmd).trans List.map_const'

/-- **The server hears the commands in their order.** With a MAC of 17 characters and
commands of at most two digits, as the buttons are, no sequence of calls faults, and
the datagrams are those of the calls, one after another, which read back as the MAC the
call was given and its command, 0, 10 or 20 times. -/
theorem server_hears_commands {cmds : List Int} (hcmds : ∀ cmd ∈ cmds, 0 ≤ cmd ∧ cmd < 100)
    {h : History Op.Ret} {state : Option (Globals × List Int)}
    (hrun : Prog.Runs kernel [] (session cmds) h (.ret state))
    (hmac : ∀ mac ∈ macs h, mac.length = 17) :
    state ≠ none ∧ ∃ calls : List (History Op.Ret), h = calls.flatten ∧
      heard h = (calls.map heard).flatten ∧ List.Forall₂ Heard cmds calls := by
  have hp : Progressed cmds state h := Prog.wp_run (session_spec cmds) hrun
  match state with
  | none =>
    obtain ⟨past, cmd, rest, rfl, h₀, tr, rets, rfl, -, mac, hmacs, hlong, -⟩ := hp
    obtain ⟨hnonneg, hlt⟩ := hcmds cmd (List.mem_append_right _ List.mem_cons_self)
    obtain ⟨n, rfl⟩ := Int.eq_ofNat_of_zero_le hnonneg
    have hwidth : (formatZero 2 (n : Int)).length = 2 := formatZero_length (by decide) (by omega)
    have hmem : mac ∈ macs (h₀ ++ tr) := by
      rw [macs_append, hmacs]
      exact List.mem_append_right _ (List.mem_singleton_self mac)
    rw [List.length_append, hmac mac hmem, hwidth] at hlong
    omega
  | some (g, rets) =>
    obtain ⟨-, -, calls, rfl, -, hcalls⟩ := hp
    refine ⟨Option.some_ne_none _, calls.map Prod.fst, rfl, ?_, ?_⟩
    · simp only [heard, sent, List.filterMap_flatten, List.map_flatten, List.map_map]
      rfl
    · rw [List.forall₂_map_right_iff]
      obtain ⟨hlen, hzip⟩ := List.forall₂_iff_zip.mp hcalls
      refine List.forall₂_iff_zip.mpr ⟨hlen, fun {cmd call} hmem => ?_⟩
      obtain ⟨hcmd, hcall⟩ := List.of_mem_zip hmem
      refine (hzip hmem).heard (hcmds cmd hcmd).1 fun mac hin => hmac mac ?_
      obtain ⟨e, he, hmac'⟩ := List.mem_filterMap.mp hin
      exact List.mem_filterMap.mpr
        ⟨e, List.mem_flatten_of_mem (List.mem_map_of_mem hcall) he, hmac'⟩

/-- The theorem at work: the server hears the button ten times. -/
theorem server_hears_commands_button : ∃ (h : History Op.Ret) (g : Globals),
    Prog.Runs kernel [] (session [3]) h (.ret (some (g, [0]))) ∧
      heard h = List.replicate 10 (List.replicate 17 65, some 3) ∧
      ∃ calls : List (History Op.Ret), h = calls.flatten ∧ List.Forall₂ Heard [3] calls := by
  obtain ⟨h, g, hrun, hmacs, hsent⟩ := button_run
  obtain ⟨-, calls, hh, -, hcalls⟩ := server_hears_commands (by decide) hrun (by
    rw [hmacs]
    decide)
  refine ⟨h, g, hrun, ?_, calls, hh, hcalls⟩
  rw [heard, hsent]
  decide

end Uartd.TestMode
