import Mathlib.Data.UInt
import Uartd.Lib.CString
import Uartd.Message.Sending

/-!
# Uartd — which handlers a message reaches

`data_parse` in more detail than in `Uartd.Message.Protocol`: the entries of a
table one after another, each compared by `strncmp` over the length of its
keyword, counted and called. `dispatchSystem` is the message side with the two
arrays of counters and the calls of the handlers.

`data_process` clears its block before each pop, so the block is the message and
zeros behind it (`blockInv_step`). A keyword has no NUL, so it is found in the
block exactly if the message begins with it, and not at all after a pop that
found the queue empty. Which handlers are called is then a function of the
message (`dispatch`), and with a keyword of at most 1024 bytes no comparison
leaves the block. `process_takes`, `process_replies` and `sender_writes` follow one
message to its handler and the reply to the UART.
-/

namespace Uartd.Message

open Uartd.Lib Uartd.LinkList

variable {R P E : Type} [DecidableEq R] [DecidableEq P]

-- ---------------------------------------------------------------------------
-- data_parse
-- ---------------------------------------------------------------------------

/-- The two tables. -/
inductive Source where
  | uart
  | pipe
  deriving DecidableEq, Repr

/-- `uart_handle_analy` and `pipe_handle_analy`. -/
structure Analy where
  uartHandleAnaly : List UInt32
  pipeHandleAnaly : List UInt32

/-- A call of a handler: the place of its entry, and what it is given. -/
structure Invocation (E : Type) where
  source  : Source
  entry   : ℕ
  handler : E → BufInf → List SendCall
  data    : BufInf

/-- `analy[i]++`. -/
def bump (analy : List UInt32) (i : ℕ) : Option (List UInt32) :=
  analy[i]?.map fun c => analy.set i (c + 1)

/-- The loop over one table, from entry `i` on. -/
def parseTable (source : Source) (pdata : List UInt8) (len : Int) :
    List (ProtocolHandle E) → ℕ → List UInt32 → Option (List UInt32 × List (Invocation E))
  | [], _, analy => some (analy, [])
  | entry :: table, i, analy => do
    let n ← strlen (cstring entry.protocol)
    let c ← strncmp (cstring entry.protocol) pdata n
    if c = 0 then
      let analy ← bump analy i
      let (analy, calls) ← parseTable source pdata len table (i + 1) analy
      pure (analy, ⟨source, i, entry.handler, { buf := pdata, len := len }⟩ :: calls)
    else parseTable source pdata len table (i + 1) analy

/-- `data_parse`, with the counters and the calls of the handlers. -/
def dataParseCalls (cfg : Config E) (src : DataInf) (analy : Analy) :
    Option (Analy × List (Invocation E)) := do
  let pdata ← src.pdata
  if src.recvFd = cfg.uartfd then
    let (uart, calls) ← parseTable .uart pdata src.dataLen cfg.uartHandle 0 analy.uartHandleAnaly
    pure ({ analy with uartHandleAnaly := uart }, calls)
  else if src.recvFd = cfg.pipefd then
    let (pipe, calls) ← parseTable .pipe pdata src.dataLen cfg.pipeHandle 0 analy.pipeHandleAnaly
    pure ({ analy with pipeHandleAnaly := pipe }, calls)
  else pure (analy, [])

/-- What the handlers queue. -/
def sendCalls (env : E) (calls : List (Invocation E)) : List SendCall :=
  calls.flatMap fun c => c.handler env c.data

structure DispatchState (R P : Type) where
  base  : State R P
  analy : Analy

inductive DispatchEvent (R P E : Type) where
  | base (e : Event R P)
  | parse (m : Option DataInf) (env : E) (calls : List (Invocation E))

inductive DispatchStep (cfg : Config E) :
    DispatchState R P → DispatchEvent R P E → DispatchState R P → Prop
  | base {s e base'} : Step cfg s.base e base' → (∀ m calls, e ≠ .parse m calls) →
      DispatchStep cfg s (.base e) { s with base := base' }
  | parse {s m analy' calls} (env : E) : s.base.process = .parsing m →
      dataParseCalls cfg s.base.processNode s.analy = some (analy', calls) →
      DispatchStep cfg s (.parse m env calls)
        ⟨{ s.base with process := .handling (sendCalls env calls) }, analy'⟩

/-- The message side, with the counters at 0. -/
def dispatchSystem (R P : Type) [DecidableEq R] [DecidableEq P] (cfg : Config E) :
    System (DispatchState R P) (DispatchEvent R P E) where
  init s := (messageSystem R P cfg).init s.base ∧
    s.analy = ⟨List.replicate 64 0, List.replicate 128 0⟩
  step := DispatchStep cfg

-- ---------------------------------------------------------------------------
-- The table and the message
-- ---------------------------------------------------------------------------

/-- The tables fit their counters; a keyword is a string that fits in a block. -/
structure Config.Fits (cfg : Config E) : Prop where
  uartSize : cfg.uartHandle.length ≤ 64
  pipeSize : cfg.pipeHandle.length ≤ 128
  keyword  : ∀ entry ∈ cfg.uartHandle ++ cfg.pipeHandle,
    entry.protocol ≠ [] ∧ 0 ∉ entry.protocol ∧ entry.protocol.length ≤ 1024

/-- The entries, with their places, whose whole keyword `bytes` begins with. -/
def matchingAt (table : List (ProtocolHandle E)) (i : ℕ) (bytes : List UInt8) :
    List (ProtocolHandle E × ℕ) :=
  (table.zipIdx i).filter fun x => x.1.protocol.isPrefixOf bytes

theorem matchingAt_cons (entry : ProtocolHandle E) (table : List (ProtocolHandle E)) (i : ℕ)
    (bytes : List UInt8) : matchingAt (entry :: table) i bytes =
      if entry.protocol.isPrefixOf bytes then (entry, i) :: matchingAt table (i + 1) bytes
      else matchingAt table (i + 1) bytes := by
  unfold matchingAt
  rw [List.zipIdx_cons, List.filter_cons]

theorem bump_eq (analy : List UInt32) (i : ℕ) (hi : i < analy.length) :
    ∃ analy', bump analy i = some analy' ∧ analy'.length = analy.length ∧
      ∀ j, analy'[j]? = analy[j]?.map fun c => if j = i then c + 1 else c := by
  refine ⟨analy.set i (analy[i] + 1), ?_, List.length_set, fun j => ?_⟩
  · unfold bump
    rw [List.getElem?_eq_getElem hi]
    rfl
  · rw [List.getElem?_set]
    by_cases hij : i = j
    · subst hij
      rw [if_pos rfl, if_pos hi, List.getElem?_eq_getElem hi]
      simp
    · rw [if_neg hij]
      simp [Ne.symm hij]

/-- The calls for the matching entries of a table. -/
def callsOf (source : Source) (data : BufInf) (matched : List (ProtocolHandle E × ℕ)) :
    List (Invocation E) :=
  matched.map fun x => ⟨source, x.2, x.1.handler, data⟩

/-- The loop over a table calls what matches, and counts it. -/
theorem parseTable_spec (source : Source) (pdata : List UInt8) (len : Int)
    (table : List (ProtocolHandle E)) (i : ℕ) (analy : List UInt32)
    (hkeyword : ∀ entry ∈ table, 0 ∉ entry.protocol ∧ entry.protocol.length ≤ pdata.length)
    (hsize : i + table.length ≤ analy.length) :
    ∃ analy', parseTable source pdata len table i analy =
        some (analy', callsOf source ⟨pdata, len⟩ (matchingAt table i pdata)) ∧
      analy'.length = analy.length ∧
      ∀ j, analy'[j]? = analy[j]?.map fun c =>
        c + UInt32.ofNat ((matchingAt table i pdata).countP fun x => x.2 = j) := by
  induction table generalizing i analy with
  | nil =>
    refine ⟨analy, rfl, rfl, fun j => ?_⟩
    simp [matchingAt]
  | cons entry table ih =>
    obtain ⟨hnul, hlen⟩ := hkeyword entry List.mem_cons_self
    have htable : ∀ e ∈ table, 0 ∉ e.protocol ∧ e.protocol.length ≤ pdata.length :=
      fun e he => hkeyword e (List.mem_cons_of_mem _ he)
    rw [List.length_cons] at hsize
    obtain ⟨c, hc, hiff⟩ := strncmp_cstring hnul hlen
    rw [matchingAt_cons, parseTable, strlen_cstring hnul]
    simp only [Option.bind_eq_bind, Option.bind_some, hc]
    by_cases hmatch : c = 0
    · have hpre := List.isPrefixOf_iff_prefix.mpr (hiff.mp hmatch)
      obtain ⟨analy₁, hbump, hlength, hanaly₁⟩ := bump_eq analy i (by omega)
      obtain ⟨analy', hrun, hlength', hcount⟩ := ih (i + 1) analy₁ htable (by omega)
      rw [if_pos hmatch, hpre, hbump]
      refine ⟨analy', ?_, hlength'.trans hlength, fun j => ?_⟩
      · simp only [Option.bind_some, hrun]
        rfl
      · rw [hcount, hanaly₁, Option.map_map, if_pos rfl, List.countP_cons]
        congr 1
        funext c
        by_cases hij : i = j
        · simp [hij, UInt32.ofNat_add, UInt32.add_assoc, UInt32.add_comm]
        · simp [hij, Ne.symm hij]
    · have hpre : entry.protocol.isPrefixOf pdata = false := by
        rw [Bool.eq_false_iff, ne_eq, List.isPrefixOf_iff_prefix]
        exact fun hpre => hmatch (hiff.mpr hpre)
      obtain ⟨analy', hrun, hlength, hcount⟩ := ih (i + 1) analy htable (by omega)
      rw [if_neg hmatch, hpre]
      exact ⟨analy', hrun, hlength, hcount⟩

/-- A keyword is looked for in the message, not in the zeros behind it. -/
theorem keyword_prefix_iff {key bytes : List UInt8} (h : 0 ∉ key) (k : ℕ) :
    key <+: bytes ++ List.replicate k 0 ↔ key <+: bytes := by
  refine ⟨fun hpre => ?_, fun hpre => hpre.trans (List.prefix_append _ _)⟩
  rcases Nat.le_total key.length bytes.length with hle | hle
  · exact List.prefix_of_prefix_length_le hpre (List.prefix_append _ _) hle
  · -- what a longer keyword has behind the message would be a NUL
    obtain ⟨rest, rfl⟩ := List.prefix_of_prefix_length_le (List.prefix_append _ _) hpre hle
    rw [List.prefix_append_right_inj] at hpre
    cases rest with
    | nil => rw [List.append_nil]
    | cons c rest =>
      have hc := List.eq_of_mem_replicate (hpre.subset List.mem_cons_self)
      exact absurd (List.mem_append_right _ (hc ▸ List.mem_cons_self)) h

theorem matchingAt_zeros {table : List (ProtocolHandle E)}
    (hkeyword : ∀ entry ∈ table, 0 ∉ entry.protocol) (i : ℕ) (bytes : List UInt8) (k : ℕ) :
    matchingAt table i (bytes ++ List.replicate k 0) = matchingAt table i bytes := by
  refine List.filter_congr fun x hx => ?_
  have hentry : x.1 ∈ table := List.fst_mem_of_mem_zipIdx hx
  rw [Bool.eq_iff_iff, List.isPrefixOf_iff_prefix, List.isPrefixOf_iff_prefix]
  exact keyword_prefix_iff (hkeyword _ hentry) k

theorem matchingAt_nil {table : List (ProtocolHandle E)}
    (hkeyword : ∀ entry ∈ table, entry.protocol ≠ []) (i : ℕ) : matchingAt table i [] = [] := by
  refine List.filter_eq_nil_iff.mpr fun x hx => ?_
  have hentry : x.1 ∈ table := List.fst_mem_of_mem_zipIdx hx
  rw [List.isPrefixOf_iff_prefix, List.prefix_nil]
  exact hkeyword _ hentry

theorem matchingAt_fst (table : List (ProtocolHandle E)) (i : ℕ) (bytes : List UInt8) :
    (matchingAt table i bytes).map Prod.fst = matching table bytes := by
  unfold matching
  induction table generalizing i with
  | nil => rfl
  | cons entry table ih =>
    rw [matchingAt_cons, List.filter_cons]
    split
    · rw [List.map_cons, ih]
    · exact ih (i + 1)

-- ---------------------------------------------------------------------------
-- The block of data_process
-- ---------------------------------------------------------------------------

/-- The bytes a pop put into the block, none if the queue was empty. -/
def bytesOf (m : Option DataInf) : List UInt8 := m.elim [] DataInf.bytes

/-- What the node holds once the pop is done. -/
structure Delivered (m : Option DataInf) (node : DataInf) : Prop where
  fits  : (bytesOf m).length ≤ 1024
  block : node.pdata = some (bytesOf m ++ List.replicate (1024 - (bytesOf m).length) 0)
  len   : ∀ d, m = some d → node.dataLen = d.dataLen ∧ node.dataLen.toNat = d.bytes.length
  fd    : ∀ d, m = some d → node.recvFd = d.recvFd

def ProcessPc.BlockOk : ProcessPc → DataInf → Prop
  | .popped m, node | .parsing m, node => Delivered m node
  | _, _ => True

structure BlockInv (s : State R P) : Prop where
  block : ∃ buf, s.processNode.pdata = some buf ∧ buf.length = 1024
  node  : s.process.BlockOk s.processNode

/-- A pop into the cleared block. -/
theorem delivered_of_popped {l l' : MessageList} {node node' : DataInf} {buf : List UInt8}
    (hbuf : node.pdata = some buf) (hlen : buf.length = 1024) {cleared : List UInt8}
    (hclear : memset node.pdata 1024 = some cleared)
    (hpop : l.Popped { node with pdata := some cleared } node' l') :
    (∃ buf', node'.pdata = some buf' ∧ buf'.length = 1024) ∧
      Delivered l.contents.head? node' := by
  have hzeros : cleared = List.replicate 1024 0 := by
    rw [memset_eq hbuf (Nat.le_of_eq hlen.symm), List.drop_eq_nil_of_le (Nat.le_of_eq hlen),
      List.append_nil] at hclear
    exact (Option.some.inj hclear).symm
  subst hzeros
  rcases hpop.cases with ⟨hnil, -, rfl⟩ | ⟨d, rest, hcons, -, hwf, hfit, rfl⟩
  · rw [hnil]
    exact ⟨⟨_, rfl, List.length_replicate⟩, Nat.zero_le _, rfl, nofun, nofun⟩
  · rw [hcons]
    have hbytes := hwf.bytes_length
    obtain ⟨buf', hbuf', hlen'⟩ := hwf.deliver_block rfl hfit
    obtain ⟨dst, hdst, hle⟩ := hfit
    obtain rfl := Option.some.inj hdst
    rw [List.length_replicate] at hle hlen'
    have htoNat : d.dataLen.toNat = d.bytes.length := by omega
    refine ⟨⟨buf', hbuf', hlen'⟩, ?_, ?_, ?_, ?_⟩
    · show d.bytes.length ≤ 1024
      omega
    · show some (d.bytes ++ (List.replicate 1024 0).drop d.dataLen.toNat) = _
      rw [htoNat, List.drop_replicate]
      rfl
    · intro d' hd'
      obtain rfl : d = d' := Option.some.inj hd'
      exact ⟨rfl, htoNat⟩
    · intro d' hd'
      obtain rfl : d = d' := Option.some.inj hd'
      rfl

theorem blockInv_step {cfg : Config E} {s s' : State R P} {e : Event R P} (h : BlockInv s)
    (hst : Step cfg s e s') : BlockInv s' := by
  cases hst with
  | processPop _ _ hclear hpop =>
    obtain ⟨buf, hbuf, hlen⟩ := h.block
    obtain ⟨hblock, hnode⟩ := delivered_of_popped hbuf hlen hclear hpop
    exact ⟨hblock, hnode⟩
  | processUnlock hp _ =>
    have hnode := h.node
    rw [hp] at hnode
    exact ⟨h.block, hnode⟩
  | parse env hp => exact ⟨h.block, trivial⟩
  | reply hp _ _ => exact ⟨h.block, trivial⟩
  | replyRefused hp _ _ => exact ⟨h.block, trivial⟩
  | parsed hp _ => exact ⟨h.block, trivial⟩
  | _ => exact ⟨h.block, h.node⟩

-- ---------------------------------------------------------------------------
-- One message
-- ---------------------------------------------------------------------------

def Config.sourceOf (cfg : Config E) (fd : Int) : Option Source :=
  if fd = cfg.uartfd then some .uart else if fd = cfg.pipefd then some .pipe else none

def Config.table (cfg : Config E) : Source → List (ProtocolHandle E)
  | .uart => cfg.uartHandle
  | .pipe => cfg.pipeHandle

def Analy.of (analy : Analy) : Source → List UInt32
  | .uart => analy.uartHandleAnaly
  | .pipe => analy.pipeHandleAnaly

/-- The counters have the sizes of their arrays. -/
def Analy.Sized (analy : Analy) : Prop :=
  analy.uartHandleAnaly.length = 64 ∧ analy.pipeHandleAnaly.length = 128

/-- What a called handler has before it: the place of its entry, the bytes it is
given and their number. -/
def Invocation.seen (c : Invocation E) : Source × ℕ × List UInt8 × Int :=
  (c.source, c.entry, c.data.buf.take c.data.len.toNat, c.data.len)

/-- The handlers a message is for, by the message alone. -/
def dispatch (cfg : Config E) : Option DataInf → List (Source × ℕ × List UInt8 × Int)
  | none => []
  | some d => (cfg.sourceOf d.recvFd).elim [] fun source =>
      (matchingAt (cfg.table source) 0 d.bytes).map fun x => (source, x.2, d.bytes, d.dataLen)

/-- How often entry `i` of a table was called. -/
def callCount (calls : List (Invocation E)) (source : Source) (i : ℕ) : ℕ :=
  calls.countP fun c => c.source = source ∧ c.entry = i

theorem Config.Fits.keyword_table {cfg : Config E} (h : cfg.Fits) {source : Source}
    {entry : ProtocolHandle E} (he : entry ∈ cfg.table source) :
    entry.protocol ≠ [] ∧ 0 ∉ entry.protocol ∧ entry.protocol.length ≤ 1024 := by
  refine h.keyword entry (List.mem_append.mpr ?_)
  cases source with
  | uart => exact .inl he
  | pipe => exact .inr he

theorem Config.Fits.table_le {cfg : Config E} (h : cfg.Fits) {analy : Analy} (hanaly : analy.Sized)
    (source : Source) : (cfg.table source).length ≤ (analy.of source).length := by
  cases source with
  | uart => exact hanaly.1 ▸ h.uartSize
  | pipe => exact hanaly.2 ▸ h.pipeSize

theorem callCount_callsOf (source : Source) (data : BufInf)
    (matched : List (ProtocolHandle E × ℕ)) (source' : Source) (i : ℕ) :
    callCount (callsOf source data matched) source' i =
      if source = source' then matched.countP fun x => x.2 = i else 0 := by
  unfold callCount callsOf
  rw [List.countP_map]
  split
  · rename_i heq
    subst heq
    simp [Function.comp_def]
  · rename_i hne
    simp [Function.comp_def, hne]

/-- What `data_parse` does with a block that holds `m`: what it calls, and what
it counts. -/
structure Parsed (cfg : Config E) (m : Option DataInf) (src : DataInf) (analy analy' : Analy)
    (calls : List (Invocation E)) : Prop where
  seen   : calls.map Invocation.seen = dispatch cfg m
  queued : ∀ env, sendCalls env calls = dataParse cfg env src
  sized  : analy'.Sized
  count  : ∀ source i, (analy'.of source)[i]? =
    (analy.of source)[i]?.map fun c => c + UInt32.ofNat (callCount calls source i)

theorem dispatch_eq_nil {cfg : Config E} {m : Option DataInf} {src : DataInf}
    (h : Delivered m src) (hsource : cfg.sourceOf src.recvFd = none) : dispatch cfg m = [] := by
  cases m with
  | none => rfl
  | some d =>
    rw [h.fd d rfl] at hsource
    show (cfg.sourceOf d.recvFd).elim [] _ = []
    rw [hsource]
    rfl

/-- The matching entries of a table, seen from their handlers. -/
theorem seen_callsOf {cfg : Config E} (hcfg : cfg.Fits) {m : Option DataInf} {src : DataInf}
    (h : Delivered m src) {source : Source} (hsource : cfg.sourceOf src.recvFd = some source)
    {pdata : List UInt8} (hpdata : src.pdata = some pdata) :
    (callsOf source ⟨pdata, src.dataLen⟩ (matchingAt (cfg.table source) 0 pdata)).map
      Invocation.seen = dispatch cfg m := by
  obtain rfl := Option.some.inj (hpdata.symm.trans h.block)
  rw [matchingAt_zeros (fun e he => (hcfg.keyword_table he).2.1)]
  cases m with
  | none =>
    rw [show bytesOf none = [] from rfl, matchingAt_nil fun e he => (hcfg.keyword_table he).1]
    rfl
  | some d =>
    obtain ⟨hlen, hbytes⟩ := h.len d rfl
    rw [h.fd d rfl] at hsource
    show _ = (cfg.sourceOf d.recvFd).elim [] _
    rw [hsource, callsOf, List.map_map]
    refine List.map_congr_left fun x _ => ?_
    show (source, x.2, (d.bytes ++ _).take src.dataLen.toNat, src.dataLen) = _
    rw [hbytes, List.take_left, hlen]

/-- The loop over the table of a source, with what it calls and counts. -/
theorem parsed_of_table {cfg : Config E} (hcfg : cfg.Fits) {m : Option DataInf} {src : DataInf}
    (h : Delivered m src) {analy : Analy} (hanaly : analy.Sized) {source : Source}
    (hsource : cfg.sourceOf src.recvFd = some source) {pdata : List UInt8}
    (hpdata : src.pdata = some pdata) :
    ∃ counters, parseTable source pdata src.dataLen (cfg.table source) 0 (analy.of source) =
        some (counters, callsOf source ⟨pdata, src.dataLen⟩
          (matchingAt (cfg.table source) 0 pdata)) ∧
      counters.length = (analy.of source).length ∧
      (callsOf source ⟨pdata, src.dataLen⟩ (matchingAt (cfg.table source) 0 pdata)).map
        Invocation.seen = dispatch cfg m ∧
      ∀ i, counters[i]? = (analy.of source)[i]?.map fun c => c + UInt32.ofNat (callCount
        (callsOf source ⟨pdata, src.dataLen⟩ (matchingAt (cfg.table source) 0 pdata)) source
          i) := by
  have hlen : pdata.length = 1024 := by
    have hfits := h.fits
    rw [Option.some.inj (hpdata.symm.trans h.block), List.length_append, List.length_replicate]
    omega
  obtain ⟨counters, hrun, hlength, hcount⟩ := parseTable_spec source pdata src.dataLen
    (cfg.table source) 0 (analy.of source)
    (fun e he => ⟨(hcfg.keyword_table he).2.1, hlen ▸ (hcfg.keyword_table he).2.2⟩)
    (by rw [Nat.zero_add]; exact hcfg.table_le hanaly source)
  refine ⟨counters, hrun, hlength, seen_callsOf hcfg h hsource hpdata, fun i => ?_⟩
  rw [hcount, callCount_callsOf, if_pos rfl]

theorem sendCalls_callsOf (env : E) (source : Source) (data : BufInf)
    (table : List (ProtocolHandle E)) : sendCalls env (callsOf source data
      (matchingAt table 0 data.buf)) =
    (matching table data.buf).flatMap fun entry => entry.handler env data := by
  rw [← matchingAt_fst table 0, sendCalls, callsOf, List.flatMap_map, List.flatMap_map]

/-- **data_parse by its message.** -/
theorem dataParseCalls_spec {cfg : Config E} (hcfg : cfg.Fits) {m : Option DataInf}
    {src : DataInf} (h : Delivered m src) {analy : Analy} (hanaly : analy.Sized) :
    ∃ analy' calls, dataParseCalls cfg src analy = some (analy', calls) ∧
      Parsed cfg m src analy analy' calls := by
  obtain ⟨pdata, hpdata⟩ : ∃ pdata, src.pdata = some pdata := ⟨_, h.block⟩
  have hunused : ∀ (counters : List UInt32) (calls : List (Invocation E)) (source : Source),
      (∀ i, callCount calls source i = 0) →
      ∀ i : ℕ, counters[i]? = counters[i]?.map fun c =>
        c + UInt32.ofNat (callCount calls source i) := by
    intro counters calls source hzero i
    rw [hzero i]
    simp
  unfold dataParseCalls
  rw [hpdata]
  by_cases huart : src.recvFd = cfg.uartfd
  · have hsource : cfg.sourceOf src.recvFd = some .uart := if_pos huart
    obtain ⟨counters, hrun, hlength, hseen, hcount⟩ :=
      parsed_of_table hcfg h hanaly hsource hpdata
    refine ⟨{ analy with uartHandleAnaly := counters }, _, ?_, hseen, ?_, ?_, ?_⟩
    · simp only [Option.bind_eq_bind, Option.bind_some, if_pos huart]
      show (parseTable .uart pdata src.dataLen (cfg.table .uart) 0 (analy.of .uart)).bind _ = _
      rw [hrun]
      rfl
    · intro env
      rw [sendCalls_callsOf]
      unfold dataParse
      rw [hpdata, if_pos huart]
      rfl
    · exact ⟨hlength.trans hanaly.1, hanaly.2⟩
    · intro source i
      cases source with
      | uart => exact hcount i
      | pipe =>
        refine hunused analy.pipeHandleAnaly _ _ (fun i => ?_) i
        rw [callCount_callsOf, if_neg (by simp)]
  · by_cases hpipe : src.recvFd = cfg.pipefd
    · have hsource : cfg.sourceOf src.recvFd = some .pipe := by
        unfold Config.sourceOf
        rw [if_neg huart, if_pos hpipe]
      obtain ⟨counters, hrun, hlength, hseen, hcount⟩ :=
        parsed_of_table hcfg h hanaly hsource hpdata
      refine ⟨{ analy with pipeHandleAnaly := counters }, _, ?_, hseen, ?_, ?_, ?_⟩
      · simp only [Option.bind_eq_bind, Option.bind_some, if_neg huart, if_pos hpipe]
        show (parseTable .pipe pdata src.dataLen (cfg.table .pipe) 0 (analy.of .pipe)).bind _ = _
        rw [hrun]
        rfl
      · intro env
        rw [sendCalls_callsOf]
        unfold dataParse
        rw [hpdata, if_neg huart, if_pos hpipe]
        rfl
      · exact ⟨hanaly.1, hlength.trans hanaly.2⟩
      · intro source i
        cases source with
        | pipe => exact hcount i
        | uart =>
          refine hunused analy.uartHandleAnaly _ _ (fun i => ?_) i
          rw [callCount_callsOf, if_neg (by simp)]
    · -- a client of the socket server
      have hsource : cfg.sourceOf src.recvFd = none := by
        unfold Config.sourceOf
        rw [if_neg huart, if_neg hpipe]
      refine ⟨analy, [], ?_, (dispatch_eq_nil h hsource).symm, ?_, hanaly, ?_⟩
      · simp only [Option.bind_eq_bind, Option.bind_some, if_neg huart, if_neg hpipe]
        rfl
      · intro env
        unfold dataParse
        rw [if_neg huart, if_neg hpipe]
        rfl
      · intro source
        exact hunused _ _ _ fun _ => rfl

-- ---------------------------------------------------------------------------
-- Runs
-- ---------------------------------------------------------------------------

/-- The event of the message side. -/
def DispatchEvent.event : DispatchEvent R P E → Event R P
  | .base e => e
  | .parse m env calls => .parse m (sendCalls env calls)

/-- The calls of the handlers a step makes. -/
def DispatchEvent.calls : DispatchEvent R P E → List (Invocation E)
  | .base _ => []
  | .parse _ _ calls => calls

/-- A message given to `data_parse`, and what the handlers called for it see. -/
def DispatchEvent.dispatched :
    DispatchEvent R P E → List (Option DataInf × List (Source × ℕ × List UInt8 × Int))
  | .base _ => []
  | .parse m _ calls => [(m, calls.map Invocation.seen)]

structure DispatchInv (cfg : Config E) (tr : List (DispatchEvent R P E)) (s : DispatchState R P) :
    Prop where
  run   : (messageSystem R P cfg).Run (tr.map DispatchEvent.event) s.base
  block : BlockInv s.base
  sized : s.analy.Sized
  seen  : tr.flatMap DispatchEvent.dispatched =
    ((tr.map DispatchEvent.event).flatMap Event.trigger).map fun m => (m, dispatch cfg m)
  count : ∀ source i, (s.analy.of source)[i]? =
    ((⟨List.replicate 64 0, List.replicate 128 0⟩ : Analy).of source)[i]?.map fun c =>
      c + UInt32.ofNat (callCount (tr.flatMap DispatchEvent.calls) source i)

/-- `data_parse` on the message of this iteration. -/
theorem DispatchInv.parsed {cfg : Config E} (hcfg : cfg.Fits) {tr : List (DispatchEvent R P E)}
    {s : DispatchState R P} (h : DispatchInv cfg tr s) {m : Option DataInf}
    (hp : s.base.process = .parsing m) :
    ∃ analy' calls, dataParseCalls cfg s.base.processNode s.analy = some (analy', calls) ∧
      Parsed cfg m s.base.processNode s.analy analy' calls := by
  have hnode := h.block.node
  rw [hp] at hnode
  exact dataParseCalls_spec hcfg hnode h.sized

theorem callCount_append (calls calls' : List (Invocation E)) (source : Source) (i : ℕ) :
    callCount (calls ++ calls') source i = callCount calls source i + callCount calls' source i :=
  List.countP_append

theorem dispatchInv_step {cfg : Config E} (hcfg : cfg.Fits) {tr : List (DispatchEvent R P E)}
    {s s' : DispatchState R P} {e : DispatchEvent R P E} (h : DispatchInv cfg tr s)
    (hst : DispatchStep cfg s e s') : DispatchInv cfg (tr ++ [e]) s' := by
  cases hst with
  | @base e base' hst hne =>
    have hquiet : e.trigger = [] := by
      cases e with
      | parse m calls => exact absurd rfl (hne m calls)
      | _ => rfl
    refine ⟨?_, blockInv_step h.block hst, h.sized, ?_, ?_⟩
    · rw [List.map_append]
      exact h.run.step hst
    · rw [List.flatMap_append, h.seen, List.map_append, List.flatMap_append, List.map_append]
      congr 1
      show [] = List.map _ (List.flatMap _ [e])
      rw [List.flatMap_singleton, hquiet]
      rfl
    · intro source i
      rw [List.flatMap_append, callCount_append]
      exact h.count source i
  | @parse m analy' calls env hp hrun =>
    obtain ⟨analy₁, calls₁, hrun₁, hparsed⟩ := h.parsed hcfg hp
    obtain ⟨rfl, rfl⟩ := Prod.mk.inj (Option.some.inj (hrun₁.symm.trans hrun))
    have hstep : Step cfg s.base (.parse m (sendCalls env calls₁))
        { s.base with process := .handling (sendCalls env calls₁) } := by
      rw [hparsed.queued env]
      exact .parse env hp
    refine ⟨?_, blockInv_step h.block hstep, hparsed.sized, ?_, ?_⟩
    · rw [List.map_append]
      exact h.run.step hstep
    · rw [List.flatMap_append, h.seen, List.map_append, List.flatMap_append, List.map_append]
      congr 1
      show [(m, calls₁.map Invocation.seen)] = [(m, dispatch cfg m)]
      rw [hparsed.seen]
    · intro source i
      rw [List.flatMap_append, callCount_append, hparsed.count, h.count source i, Option.map_map]
      congr 1
      funext c
      show c + UInt32.ofNat _ + UInt32.ofNat (callCount calls₁ source i) = c + UInt32.ofNat
        (_ + callCount ([.parse m env calls₁].flatMap DispatchEvent.calls) source i)
      rw [List.flatMap_singleton, UInt32.ofNat_add, UInt32.add_assoc]
      rfl

/-- **Run lemma.** -/
theorem run_dispatch {cfg : Config E} (hcfg : cfg.Fits) {tr : List (DispatchEvent R P E)}
    {s : DispatchState R P} (h : (dispatchSystem R P cfg).Run tr s) : DispatchInv cfg tr s := by
  refine System.Run.invariant (I := DispatchInv cfg) ?_ ?_ h
  · rintro s ⟨hinit, hanaly⟩
    refine ⟨.init hinit, ⟨?_, ?_⟩, ?_, rfl, ?_⟩
    · rw [hinit.2.2.1]
      exact ⟨_, rfl, List.length_replicate⟩
    · rw [hinit.2.1]
      trivial
    · rw [hanaly]
      exact ⟨List.length_replicate, List.length_replicate⟩
    · intro source i
      rw [hanaly]
      simp [callCount]
  · intro tr s e s' _ hinv hst
    exact dispatchInv_step hcfg hinv hst

/-- A counter that began at 0. -/
theorem counted {counters : List UInt32} {size i k : ℕ} (hi : i < size)
    (h : counters[i]? = (List.replicate size (0 : UInt32))[i]?.map fun c => c + UInt32.ofNat k) :
    counters[i]?.map UInt32.toNat = some (k % 2 ^ 32) := by
  rw [h, List.getElem?_replicate, if_pos hi]
  show some ((0 + UInt32.ofNat k).toNat) = _
  rw [UInt32.zero_add, UInt32.toNat_ofNat']

/-- A pop of a message of at most 1024 bytes stays inside the block. -/
theorem process_pop_fits (cfg : Config E) {s : State R P} (h : BlockInv s)
    (hp : s.process = .waiting) (hwait : s.recv.wait = .passed)
    (hlen : ∀ d ∈ s.recv.list.contents, d.dataLen ≤ 1024) :
    ∃ s', Step cfg s (.recv (.pop s.recv.list.contents.head?)) s' := by
  obtain ⟨buf, hbuf, hblock⟩ := h.block
  have hclear := memset_eq hbuf (Nat.le_of_eq hblock.symm)
  obtain ⟨node', list', hpop⟩ := MessageList.exists_popped s.recv.list
    { s.processNode with pdata := some (List.replicate 1024 0 ++ buf.drop 1024) } (by
      intro d rest hd
      refine ⟨_, rfl, ?_⟩
      have hd := hlen d (by rw [hd]; simp)
      rw [List.length_append, List.length_replicate]
      omega)
  exact ⟨_, .processPop hp hwait hclear hpop⟩

/-- **Dispatch depends on the message alone.** For tables that fit their
counters, with keywords of 1 to 1024 bytes, in every run:

* each call of `data_parse` calls the handlers `dispatch` names for the outcome
  of the pop before it, in table order, and gives them the message's bytes and
  length; for a pop that found the queue empty there are none;
* these outcomes are the pops of `G_recv_linklist` in their order, and what was
  popped, then what is queued, is what was inserted;
* each counter is the number of calls of its entry modulo 2^32;
* `data_parse` and the pop of a message of at most 1024 bytes stay inside the
  block. -/
theorem dispatch_by_message {cfg : Config E} (hcfg : cfg.Fits) {tr : List (DispatchEvent R P E)}
    {s : DispatchState R P} (h : (dispatchSystem R P cfg).Run tr s) :
    tr.flatMap DispatchEvent.dispatched =
      ((tr.map DispatchEvent.event).flatMap Event.trigger).map (fun m => (m, dispatch cfg m)) ∧
    (tr.map DispatchEvent.event).flatMap Event.trigger ++ s.base.process.inFlight =
      (tr.map DispatchEvent.event).flatMap Event.received ∧
    recvDequeued (tr.map DispatchEvent.event) ++ s.base.recv.list.contents =
      (insertions ((tr.map DispatchEvent.event).filterMap Event.recv?)).map Prod.snd ∧
    (∀ i < 64, s.analy.uartHandleAnaly[i]?.map UInt32.toNat =
      some (callCount (tr.flatMap DispatchEvent.calls) .uart i % 2 ^ 32)) ∧
    (∀ i < 128, s.analy.pipeHandleAnaly[i]?.map UInt32.toNat =
      some (callCount (tr.flatMap DispatchEvent.calls) .pipe i % 2 ^ 32)) ∧
    (∀ m env, s.base.process = .parsing m →
      ∃ calls s', DispatchStep cfg s (.parse m env calls) s') ∧
    (s.base.process = .waiting → s.base.recv.wait = .passed →
      (∀ d ∈ s.base.recv.list.contents, d.dataLen ≤ 1024) →
      ∃ s', DispatchStep cfg s (.base (.recv (.pop s.base.recv.list.contents.head?))) s') := by
  have hinv := run_dispatch hcfg h
  refine ⟨hinv.seen, run_triggers hinv.run, ?_, fun i hi => ?_, fun i hi => ?_,
    fun m env hp => ?_, fun hp hwait hlen => ?_⟩
  · rw [recvDequeued_eq_taken]
    exact run_taken_append (run_recv hinv.run)
  · exact counted hi (hinv.count .uart i)
  · exact counted hi (hinv.count .pipe i)
  · obtain ⟨analy', calls, hrun, -⟩ := hinv.parsed hcfg hp
    exact ⟨calls, _, .parse env hp hrun⟩
  · obtain ⟨s', hst⟩ := process_pop_fits cfg hinv.block hp hwait hlen
    exact ⟨_, .base hst nofun⟩

-- ---------------------------------------------------------------------------
-- One message through the two consumers
-- ---------------------------------------------------------------------------

/-- `data_process` takes the oldest message to `data_parse`. -/
theorem process_takes (cfg : Config E) {s : DispatchState R P} (h : BlockInv s.base)
    {d : DataInf} {rest : List DataInf} (hp : s.base.process = .waiting)
    (hwait : s.base.recv.wait = .unlocked) (hlist : s.base.recv.list.contents = d :: rest)
    (hlen : d.dataLen ≤ 1024) :
    ∃ node' list', ((dispatchSystem R P cfg).startAt s).Run
        [.base (.recv .lock), .base (.recv (.test false)), .base (.recv (.pop (some d))),
          .base (.recv .unlock)]
        ⟨{ s.base with
          recv := { list := list', wait := .unlocked, producer := s.base.recv.producer }
          processNode := node', process := .parsing (some d) }, s.analy⟩ ∧
      list'.contents = rest ∧ Delivered (some d) node' := by
  obtain ⟨buf, hbuf, hblock⟩ := h.block
  have hnonempty : isSinglelinklistEmpty s.base.recv.list.head = 0 :=
    MessageList.empty_eq_zero_iff.mpr (by simp [hlist])
  have hclear := memset_eq hbuf (Nat.le_of_eq hblock.symm)
  obtain ⟨node', list', hpop⟩ := MessageList.exists_popped s.base.recv.list
    { s.base.processNode with pdata := some (List.replicate 1024 0 ++ buf.drop 1024) } (by
      intro d' rest' hd
      rw [hlist] at hd
      obtain ⟨rfl, -⟩ := List.cons.inj hd
      refine ⟨_, rfl, ?_⟩
      rw [List.length_append, List.length_replicate]
      omega)
  obtain ⟨-, hnode⟩ := delivered_of_popped hbuf hblock hclear hpop
  have hrest := hpop.contents
  rw [hlist] at hnode hrest
  have h₀ : ((dispatchSystem R P cfg).startAt s).Run [] s := .init rfl
  have hlock := h₀.step (.base (Step.processWait (e := .lock) hp trivial (.lock hwait)) nofun)
  have htest := hlock.step (.base (Step.processWait (e := .test false) hp trivial
    (.testNonempty rfl hnonempty)) nofun)
  have hpopped := htest.step (.base (Step.processPop hp rfl hclear hpop) nofun)
  have hunlock := hpopped.step (.base (Step.processUnlock rfl (.unlock rfl)) nofun)
  simp only [hlist, List.head?_cons] at hunlock
  exact ⟨node', list', hunlock, hrest, hnode⟩

theorem bytesOf_received (fd : Int) (data : List UInt8) :
    bytesOf (some (receivedMessage fd data)) = data := by
  show data.take (data.length : Int).toNat = data
  rw [Int.toNat_natCast, List.take_length]

/-- The way of one message to `data_parse`. -/
theorem parsing_one (cfg : Config E) (fd : Int) {data : List UInt8} (hne : data ≠ [])
    (hlen : data.length ≤ 1024) :
    ∃ tr s, (dispatchSystem Unit Unit cfg).Run tr s ∧
      s.base.process = .parsing (some (receivedMessage fd data)) ∧
      Delivered (some (receivedMessage fd data)) s.base.processNode := by
  obtain ⟨l, hl⟩ := MessageList.exists_inserted .new 1 (d := receivedMessage fd data) rfl
    ⟨data, rfl, Int.natCast_nonneg _, Int.le_refl _⟩
  have hinit : (dispatchSystem Unit Unit cfg).Run []
      ⟨start, ⟨List.replicate 64 0, List.replicate 128 0⟩⟩ := .init ⟨start_initial cfg, rfl⟩
  have hinsert := hinit.step (.base (Step.receive () fd data hne (.insert () _ rfl hl)) nofun)
  obtain ⟨node', list', htaken, -, hnode⟩ := process_takes cfg (s := ⟨{ start with
      recv := { list := l, wait := .unlocked, producer := Function.update _ () .inserted } }, _⟩)
    ⟨⟨_, rfl, List.length_replicate⟩, trivial⟩ rfl rfl hl.contents (Int.ofNat_le.mpr hlen)
  exact ⟨_, _, hinsert.append htaken, rfl, hnode⟩

/-- Three keywords, of which "time" begins with another. -/
def threeKeywords : Config Unit where
  uartfd := 3
  pipefd := 4
  -- "ti", "usb", "time"
  uartHandle := [⟨[116, 105], fun _ _ => []⟩, ⟨[117, 115, 98], fun _ _ => []⟩,
    ⟨[116, 105, 109, 101], fun _ _ => []⟩]
  pipeHandle := []

theorem threeKeywords_fits : threeKeywords.Fits where
  uartSize := by decide
  pipeSize := by decide
  keyword := by decide

/-- The theorem at work: "time!" reaches the first and the third entry. -/
theorem dispatch_by_message_time : ∃ tr s calls,
    (dispatchSystem Unit Unit threeKeywords).Run
      (tr ++ [.parse (some (receivedMessage 3 [116, 105, 109, 101, 33])) () calls]) s ∧
    calls.map Invocation.seen = [(.uart, 0, [116, 105, 109, 101, 33], 5),
      (.uart, 2, [116, 105, 109, 101, 33], 5)] := by
  obtain ⟨tr, s, hrun, hp, -⟩ := parsing_one threeKeywords 3
    (show [116, 105, 109, 101, 33] ≠ [] by decide) (by decide)
  obtain ⟨calls, s', hst⟩ := (dispatch_by_message threeKeywords_fits hrun).2.2.2.2.2.1 _ () hp
  have hrun' := hrun.step hst
  have hall := (dispatch_by_message threeKeywords_fits hrun').1
  refine ⟨tr, s', calls, hrun', ?_⟩
  have hmem : (some (receivedMessage 3 [116, 105, 109, 101, 33]), calls.map Invocation.seen) ∈
      (tr ++ [DispatchEvent.parse (some (receivedMessage 3 [116, 105, 109, 101, 33])) ()
        calls]).flatMap DispatchEvent.dispatched := by
    rw [List.flatMap_append]
    exact List.mem_append_right _ (List.mem_singleton.mpr rfl)
  rw [hall] at hmem
  obtain ⟨m, -, hm⟩ := List.mem_map.mp hmem
  obtain ⟨rfl, hcalls⟩ := Prod.mk.inj hm
  rw [← hcalls]
  decide

/-- A keyword of 1025 bytes. -/
def longKeyword : Config Unit where
  uartfd := 3
  pipefd := 4
  uartHandle := [⟨List.replicate 1024 97 ++ [97], fun _ _ => []⟩]
  pipeHandle := []

/-- The message is the first 1024 bytes of the keyword: the comparison leaves
the block. -/
theorem long_keyword_faults : ¬ ∀ cfg : Config Unit, cfg.uartHandle.length ≤ 64 →
    cfg.pipeHandle.length ≤ 128 →
    (∀ entry ∈ cfg.uartHandle ++ cfg.pipeHandle, entry.protocol ≠ [] ∧ 0 ∉ entry.protocol) →
    ∀ tr s m, (dispatchSystem Unit Unit cfg).Run tr s → s.base.process = .parsing m →
      ∃ calls s', DispatchStep cfg s (.parse m () calls) s' := by
  intro hclaim
  have hlen : (List.replicate 1024 (97 : UInt8)).length = 1024 := List.length_replicate
  have hnul : (0 : UInt8) ∉ List.replicate 1024 97 := by
    intro hmem
    exact absurd (List.eq_of_mem_replicate hmem) (by decide)
  have hkeyword : (0 : UInt8) ∉ List.replicate 1024 97 ++ [97] := by
    rw [List.mem_append, not_or]
    exact ⟨hnul, by decide⟩
  obtain ⟨tr, s, hrun, hp, hnode⟩ := parsing_one longKeyword 3
    (List.ne_nil_of_length_eq_add_one hlen) (Nat.le_of_eq hlen)
  obtain ⟨calls, s', hst⟩ := hclaim longKeyword (Nat.le_of_ble_eq_true rfl) (Nat.zero_le _) (by
    intro entry he
    obtain rfl := List.mem_singleton.mp he
    exact ⟨List.append_ne_nil_of_right_ne_nil _ (by decide), hkeyword⟩) tr s _ hrun hp
  have hblock := hnode.block
  rw [bytesOf_received, hlen] at hblock
  have hfd : s.base.processNode.recvFd = 3 := hnode.fd _ rfl
  cases hst with
  | parse _ _ hparse =>
    have hfault : strncmp (cstring (List.replicate 1024 97 ++ [97]))
        (List.replicate 1024 97 ++ List.replicate (1024 - 1024) 0)
        (List.replicate 1024 (97 : UInt8) ++ [97]).length = none := by
      rw [Nat.sub_self, List.replicate_zero, List.append_nil]
      exact strncmp_overrun hnul (by decide)
    have hnone : parseTable .uart (List.replicate 1024 97 ++ List.replicate (1024 - 1024) 0)
        s.base.processNode.dataLen longKeyword.uartHandle 0 s.analy.uartHandleAnaly = none := by
      rw [longKeyword, parseTable, strlen_cstring hkeyword]
      simp only [Option.bind_eq_bind, Option.bind_some, hfault, Option.bind_none]
    unfold dataParseCalls at hparse
    rw [hblock, hfd] at hparse
    simp only [Option.bind_eq_bind, Option.bind_some] at hparse
    rw [if_pos (show (3 : Int) = longKeyword.uartfd from rfl), hnone] at hparse
    cases hparse

end Uartd.Message
