import Mathlib.Order.Bounds.Basic
import Uartd.Lib.CString
import Uartd.Lib.Loop
import Uartd.Lib.Stdio
import Uartd.LinkList.AddData
import Uartd.Receive.WholeRead

/-!
# Uartd — whole_read on a stream that never ends

`wholeReadBlock` is `whole_read` with its memory and its arithmetic: the block of
the caller, `tmp_buf`, the `ssize_t` counters and the comparison of their sum
with a `size_t`. The results of `read` are an infinite stream. A store outside a
block and a signed overflow are faults (`none`).

`wholeRead` is the same loop over lists of bytes. `wholeRead_stream` says what it
keeps of a stream: the longest run of positive chunks from the start on whose
total stays below the limit (`StaysBelow`); each of them adds a byte, so the
limit is also one on the reads. `wholeReadBlock_refines` carries that over to the
block. `uartConnectHandler` is the caller, up to the insert of its message.
-/

namespace Uartd.Receive

open Uartd.Lib Uartd.LinkList

-- ---------------------------------------------------------------------------
-- The longest run of chunks below a limit
-- ---------------------------------------------------------------------------

section Stream

variable {α : Type} {count k j : ℕ} {chunk : ℕ → List α}

/-- The first `k` chunks of a stream, one behind the other. -/
def firstChunks (chunk : ℕ → List α) (k : ℕ) : List α := (List.range k).flatMap chunk

/-- The first `k` chunks are positive, and their running total stays below `count`. -/
def StaysBelow (count : ℕ) (chunk : ℕ → List α) (k : ℕ) : Prop :=
  ∀ i < k, chunk i ≠ [] ∧ (firstChunks chunk (i + 1)).length < count

theorem firstChunks_succ (chunk : ℕ → List α) (k : ℕ) :
    firstChunks chunk (k + 1) = firstChunks chunk k ++ chunk k := by
  rw [firstChunks, List.range_succ, List.flatMap_append, List.flatMap_singleton]
  rfl

theorem StaysBelow.zero (count : ℕ) (chunk : ℕ → List α) : StaysBelow count chunk 0 :=
  fun i hi => absurd hi (Nat.not_lt_zero i)

theorem staysBelow_succ_iff :
    StaysBelow count chunk (k + 1) ↔
      StaysBelow count chunk k ∧ chunk k ≠ [] ∧ (firstChunks chunk (k + 1)).length < count := by
  constructor
  · intro h
    exact ⟨fun i hi => h i (Nat.lt_succ_of_lt hi), h k (Nat.lt_succ_self k)⟩
  · rintro ⟨h, hk⟩ i hi
    rcases Nat.lt_succ_iff_lt_or_eq.mp hi with hlt | rfl
    · exact h i hlt
    · exact hk

/-- A run is below its limit, unless the limit is 0. -/
theorem StaysBelow.length_lt (h : StaysBelow count chunk k) (hcount : 0 < count) :
    (firstChunks chunk k).length < count := by
  cases k with
  | zero => exact hcount
  | succ k => exact (staysBelow_succ_iff.mp h).2.2

/-- With the limit 0 it is empty. -/
theorem StaysBelow.eq_nil (h : StaysBelow 0 chunk k) : firstChunks chunk k = [] := by
  cases k with
  | zero => rfl
  | succ k => exact absurd (staysBelow_succ_iff.mp h).2.2 (Nat.not_lt_zero _)

/-- A run without bytes has no chunks. -/
theorem StaysBelow.eq_zero (h : StaysBelow count chunk k) (hnil : firstChunks chunk k = []) :
    k = 0 := by
  cases k with
  | zero => rfl
  | succ k =>
    rw [firstChunks_succ, List.append_eq_nil_iff] at hnil
    exact absurd hnil.2 (staysBelow_succ_iff.mp h).2.1

/-- A run that does not go on is the longest. -/
theorem StaysBelow.isGreatest (h : StaysBelow count chunk k)
    (hstop : ¬ StaysBelow count chunk (k + 1)) :
    IsGreatest {k | StaysBelow count chunk k} k := by
  refine ⟨h, fun m hm => ?_⟩
  by_contra hlt
  exact hstop fun i hi => hm i (by omega)

/-- The body of the loop goes on with a run as long as it stays below the limit. -/
theorem wholeReadBody_firstChunks (h : StaysBelow count chunk j) :
    wholeReadBody count (firstChunks chunk j) (chunk j) = some (firstChunks chunk (j + 1)) ∧
        StaysBelow count chunk (j + 1) ∨
      wholeReadBody count (firstChunks chunk j) (chunk j) = none ∧
        ¬ StaysBelow count chunk (j + 1) := by
  rw [staysBelow_succ_iff, firstChunks_succ, List.length_append, wholeReadBody_eq_some_iff,
    wholeReadBody_eq_none_iff]
  by_cases hempty : chunk j = []
  · exact .inr ⟨.inl hempty, fun hgo => hgo.2.1 hempty⟩
  · rcases Nat.lt_or_ge ((firstChunks chunk j).length + (chunk j).length) count with hlt | hge
    · exact .inl ⟨⟨hempty, hlt, rfl⟩, h, hempty, hlt⟩
    · exact .inr ⟨.inr hge, fun hgo => Nat.not_lt.mpr hge hgo.2.2⟩

/-- From a run of `j` chunks on, by induction on the bytes left below the limit. -/
theorem wholeReadLoop_stream (m j : ℕ) (taken : List α) (h : StaysBelow count chunk j)
    (hm : count ≤ (firstChunks chunk j).length + m) :
    ∃ k r, wholeReadLoop count (firstChunks chunk j) taken ((List.range' j (m + 1)).map chunk) =
        some r ∧ r.buf = firstChunks chunk k ∧
      IsGreatest {k | StaysBelow count chunk k} k := by
  induction m generalizing j taken with
  | zero =>
    -- the limit is reached: whatever the chunk is, it is the last
    rcases wholeReadBody_firstChunks h with ⟨-, hgo⟩ | ⟨hbody, hstop⟩
    · obtain ⟨-, -, hlt⟩ := staysBelow_succ_iff.mp hgo
      rw [firstChunks_succ, List.length_append] at hlt
      omega
    · refine ⟨j, ⟨firstChunks chunk j, taken ++ chunk j, []⟩, ?_, rfl, h.isGreatest hstop⟩
      rw [List.range'_succ, List.map_cons, wholeReadLoop, hbody]
      rfl
  | succ m ih =>
    rw [List.range'_succ, List.map_cons, wholeReadLoop]
    rcases wholeReadBody_firstChunks h with ⟨hbody, hgo⟩ | ⟨hbody, hstop⟩
    · rw [hbody]
      have hpos := List.length_pos_of_ne_nil (staysBelow_succ_iff.mp hgo).2.1
      refine ih (j + 1) (taken ++ chunk j) hgo ?_
      rw [firstChunks_succ, List.length_append]
      omega
    · rw [hbody]
      exact ⟨j, _, rfl, rfl, h.isGreatest hstop⟩

/-- **What is kept of a stream**, for every limit and all chunks: `count + 1`
reads are enough, and the longest run below the limit is returned. -/
theorem wholeRead_stream (count : ℕ) (chunk : ℕ → List α) :
    ∃ k r, wholeRead count ((List.range (count + 1)).map chunk) = some r ∧
      r.buf = firstChunks chunk k ∧ IsGreatest {k | StaysBelow count chunk k} k := by
  rw [List.range_eq_range']
  exact wholeReadLoop_stream count 0 [] (StaysBelow.zero count chunk) (Nat.le_add_left _ _)

end Stream

-- ---------------------------------------------------------------------------
-- whole_read in memory
-- ---------------------------------------------------------------------------

/-- A result of `read(fd, tmp_buf, sizeof(tmp_buf))`: -1, or the bytes it stored. -/
structure ReadResult where
  stored : Option (List UInt8)
  le     : ∀ bytes ∈ stored, bytes.length ≤ tmpBufSize

namespace ReadResult

def ret (r : ReadResult) : Int :=
  match r.stored with
  | none => -1
  | some bytes => bytes.length

/-- The bytes delivered, none for 0 and -1. -/
def chunk (r : ReadResult) : List UInt8 := r.stored.getD []

/-- `tmp_buf`, cleared before the call. -/
def tmpBuf (r : ReadResult) : List UInt8 :=
  r.chunk ++ List.replicate (tmpBufSize - r.chunk.length) 0

theorem chunk_length_le (r : ReadResult) : r.chunk.length ≤ tmpBufSize := by
  unfold chunk
  cases h : r.stored with
  | none => exact Nat.zero_le _
  | some bytes => exact r.le bytes h

theorem ret_of_pos {r : ReadResult} (h : r.chunk ≠ []) : r.ret = r.chunk.length := by
  unfold ret chunk at *
  cases hr : r.stored with
  | none => exact absurd (by rw [hr]; rfl) h
  | some bytes => rfl

theorem ret_of_nil {r : ReadResult} (h : r.chunk = []) : r.ret ≤ 0 := by
  unfold ret chunk at *
  cases hr : r.stored with
  | none => decide
  | some bytes =>
    rw [hr, Option.getD_some] at h
    rw [h]
    exact Int.le_refl 0

end ReadResult

/-- The block a caller passes with its size. It and `tmp_buf` are two objects of
one address space, the data of which is less than 2^63 bytes. -/
structure Buffer where
  bytes : List UInt8
  fits  : bytes.length + tmpBufSize < 9223372036854775808

def Buffer.count (b : Buffer) : ℕ := b.bytes.length

/-- A result of type `ssize_t`; an overflow is a fault. -/
def checkSsize (x : Int) : Option Int :=
  if -9223372036854775808 ≤ x ∧ x < 9223372036854775808 then some x else none

/-- The conversion of a `ssize_t` to `size_t`. -/
def toSize (x : Int) : ℕ := (x % 18446744073709551616).toNat

/-- `memcpy(&block[i], src, n)`. -/
def memcpyAt (block : List UInt8) (i : Int) (src : List UInt8) (n : Int) : Option (List UInt8) :=
  if 0 ≤ i ∧ 0 ≤ n ∧ n ≤ src.length then store block i.toNat (src.take n.toNat) else none

/-- The variables of `whole_read`, and how often it called `read`. -/
structure WholeReadState where
  n     : Int
  c     : Int
  buf   : List UInt8
  reads : ℕ

/-- The loop body, and whether it ends with the test or with a `break`. -/
def wholeReadStep (maxlen : ℕ) (read : ℕ → ReadResult) (s : WholeReadState) :
    Option (Bool × WholeReadState) :=
  let result := read s.reads
  let s := { s with n := result.ret, reads := s.reads + 1 }
  if s.n > 0 then do
    let total ← checkSsize (s.c + s.n)
    if toSize total ≥ maxlen then pure (false, s)
    else do
      let buf ← memcpyAt s.buf s.c result.tmpBuf s.n
      let c ← checkSsize (s.c + s.n)
      pure (true, { s with buf := buf, c := c })
  else pure (false, s)

/-- `whole_read(fd, buf, sizeof(buf))`, with a bound on the iterations. -/
def wholeReadBlock (b : Buffer) (read : ℕ → ReadResult) (fuel : ℕ) : LoopEnd WholeReadState :=
  loop (wholeReadStep b.count read) fuel { n := 0, c := 0, buf := b.bytes, reads := 0 }

/-- `data` has been read: it is in the first `c` bytes of the block, and nothing
else of it was written. -/
structure Reading (b : Buffer) (s : WholeReadState) (data : List UInt8) : Prop where
  c    : s.c = data.length
  buf  : s.buf = data ++ b.bytes.drop data.length
  room : data.length ≤ b.count

/-- What the reads deliver. -/
abbrev chunks (read : ℕ → ReadResult) (i : ℕ) : List UInt8 := (read i).chunk

variable {b : Buffer} {s : WholeReadState} {data data' : List UInt8} {read : ℕ → ReadResult}

/-- The comparison is the one of the sizes. -/
theorem checkSsize_total (h : Reading b s data) (r : ReadResult) :
    checkSsize (s.c + (r.chunk.length : ℕ)) = some ((data.length + r.chunk.length : ℕ) : Int) ∧
      toSize ((data.length + r.chunk.length : ℕ) : Int) = data.length + r.chunk.length := by
  have hroom := h.room
  have hfits := b.fits
  have hchunk := r.chunk_length_le
  unfold Buffer.count at hroom
  have hsum : s.c + (r.chunk.length : ℕ) = ((data.length + r.chunk.length : ℕ) : Int) := by
    rw [h.c]
    push_cast
    rfl
  constructor
  · rw [hsum, checkSsize, if_pos ⟨by omega, by omega⟩]
  · rw [toSize, Int.emod_eq_of_lt (by omega) (by omega), Int.toNat_natCast]

/-- A chunk that fits is stored behind the others. -/
theorem wholeReadStep_next (h : Reading b s data)
    (hbody : wholeReadBody b.count data (read s.reads).chunk = some data') :
    ∃ s', wholeReadStep b.count read s = some (true, s') ∧ Reading b s' data' ∧
      s'.reads = s.reads + 1 := by
  obtain ⟨hne, hlt, rfl⟩ := wholeReadBody_eq_some_iff.mp hbody
  obtain ⟨htotal, hsize⟩ := checkSsize_total h (read s.reads)
  have hret := ReadResult.ret_of_pos hne
  have hpos := List.length_pos_of_ne_nil hne
  have hcopy : memcpyAt s.buf s.c (read s.reads).tmpBuf (read s.reads).chunk.length =
      some (data ++ (read s.reads).chunk ++
        (b.bytes.drop data.length).drop (read s.reads).chunk.length) := by
    have hc : 0 ≤ s.c := by
      rw [h.c]
      omega
    have htmp : ((read s.reads).chunk.length : Int) ≤ (read s.reads).tmpBuf.length := by
      rw [ReadResult.tmpBuf, List.length_append]
      omega
    rw [memcpyAt, if_pos ⟨hc, by omega, htmp⟩, h.c, h.buf, Int.toNat_natCast, Int.toNat_natCast,
      ReadResult.tmpBuf, List.take_left]
    refine store_append _ _ ?_
    rw [List.length_drop]
    unfold Buffer.count at hlt
    omega
  refine ⟨{ n := (read s.reads).chunk.length
            c := ((data.length + (read s.reads).chunk.length : ℕ) : Int)
            buf := data ++ (read s.reads).chunk ++
              (b.bytes.drop data.length).drop (read s.reads).chunk.length
            reads := s.reads + 1 }, ?_, ⟨?_, ?_, ?_⟩, rfl⟩
  · simp only [wholeReadStep, hret]
    rw [if_pos (by omega), htotal, Option.bind_eq_bind, Option.bind_some, hsize,
      if_neg (Nat.not_le.mpr hlt), hcopy, Option.bind_eq_bind, Option.bind_some, Option.bind_some]
    rfl
  · rw [List.length_append]
  · rw [List.drop_drop, List.length_append]
  · rw [List.length_append]
    omega

/-- Any other chunk ends the loop. -/
theorem wholeReadStep_end (h : Reading b s data)
    (hbody : wholeReadBody b.count data (read s.reads).chunk = none) :
    ∃ s', wholeReadStep b.count read s = some (false, s') ∧ Reading b s' data ∧
      s'.reads = s.reads + 1 := by
  refine ⟨{ s with n := (read s.reads).ret, reads := s.reads + 1 }, ?_, ⟨h.c, h.buf, h.room⟩, rfl⟩
  simp only [wholeReadStep]
  by_cases hempty : (read s.reads).chunk = []
  · rw [if_neg (by have := ReadResult.ret_of_nil hempty; omega)]
    rfl
  · have hge := (wholeReadBody_eq_none_iff.mp hbody).resolve_left hempty
    obtain ⟨htotal, hsize⟩ := checkSsize_total h (read s.reads)
    have hpos := List.length_pos_of_ne_nil hempty
    rw [ReadResult.ret_of_pos hempty, if_pos (by omega), htotal, Option.bind_eq_bind,
      Option.bind_some, hsize, if_pos hge]
    rfl

/-- **The loop in memory does what the loop over lists does.** By induction on
the results looked at. -/
theorem wholeReadBlock_refines (m : ℕ) {taken : List UInt8} {r : WholeRead UInt8}
    (h : Reading b s data)
    (hr : wholeReadLoop b.count data taken
      ((List.range' s.reads m).map (chunks read)) = some r) :
    ∃ s', loop (wholeReadStep b.count read) m s = .done s' ∧ Reading b s' r.buf ∧
      s'.reads ≤ s.reads + m := by
  induction m generalizing s data taken with
  | zero => cases hr
  | succ m ih =>
    rw [List.range'_succ, List.map_cons, wholeReadLoop] at hr
    cases hbody : wholeReadBody b.count data (read s.reads).chunk with
    | none =>
      obtain ⟨s', hstep, h', hreads⟩ := wholeReadStep_end h hbody
      rw [hbody] at hr
      obtain rfl := Option.some.inj hr
      exact ⟨s', loop_end hstep m, h', by omega⟩
    | some data' =>
      obtain ⟨s', hstep, h', hreads⟩ := wholeReadStep_next h hbody
      rw [hbody, ← hreads] at hr
      obtain ⟨s'', hloop, h'', hreads'⟩ := ih h' hr
      exact ⟨s'', (loop_next hstep m).trans hloop, h'', by omega⟩

/-- What a call returns and leaves in the block. -/
theorem wholeReadBlock_stream (b : Buffer) (read : ℕ → ReadResult) :
    ∃ k s, wholeReadBlock b read (b.count + 1) = .done s ∧ s.reads ≤ b.count + 1 ∧
      IsGreatest {k | StaysBelow b.count (chunks read) k} k ∧
      Reading b s (firstChunks (chunks read) k) := by
  obtain ⟨k, r, hr, hbuf, hgreatest⟩ := wholeRead_stream b.count (chunks read)
  have hstart : Reading b { n := 0, c := 0, buf := b.bytes, reads := 0 } [] :=
    ⟨rfl, rfl, Nat.zero_le _⟩
  rw [List.range_eq_range'] at hr
  obtain ⟨s, hloop, hreading, hreads⟩ := wholeReadBlock_refines (b.count + 1) hstart hr
  rw [Nat.zero_add] at hreads
  rw [hbuf] at hreading
  exact ⟨k, s, hloop, hreads, hgreatest, hreading⟩

-- ---------------------------------------------------------------------------
-- uart_connect_handler
-- ---------------------------------------------------------------------------

/-- `char recv_buf[1024] = {0}`. -/
def recvBuf : Buffer where
  bytes := List.replicate recvBufSize 0
  fits := by
    rw [List.length_replicate]
    decide

theorem recvBuf_count : recvBuf.count = recvBufSize := List.length_replicate

/-- The conversion of a `ssize_t` to `int`. -/
def ssizeToInt (x : Int) : Int := x.bmod 4294967296

theorem ssizeToInt_of_lt {x : ℕ} (h : x < 2147483648) : ssizeToInt x = x := by
  exact Int.bmod_eq_of_le (by omega) (by omega)

/-- What the receiving handlers do with a `recv_buf` after `ret > 0`: the list
afterwards, unchanged where the node cannot be allocated. -/
def queueReceived (heap : Heap) (head : Option SingleLinklistHead) (alloc : NodeAlloc)
    (recvFd : Int) (buf : List UInt8) (ret : Int) : Option (Heap × Option SingleLinklistHead) :=
  match singlelinklistInitNode heap alloc ret with
  | (heap, none) => some (heap, head)
  | (heap, some id) => do
    let node ← heap id
    let d ← node.data
    let d := { d with recvFd := recvFd }
    let d := { d with dataLen := ret }
    let pdata ← memcpy d.pdata (some buf) ret
    let d := { d with pdata := some pdata }
    let heap := Function.update heap id (some { node with data := some d })
    singlelinklistInsertNode heap head (some id)

/-- It is what `add_data_to_linklist` does. -/
theorem queueReceived_eq (heap : Heap) (head : Option SingleLinklistHead) (alloc : NodeAlloc)
    (recvFd : Int) (buf : List UInt8) (ret : Int) :
    queueReceived heap head alloc recvFd buf ret =
      (addDataToLinklist heap head alloc ⟨some buf, ret, recvFd, .other 0⟩).map Prod.snd := by
  unfold queueReceived addDataToLinklist
  rcases singlelinklistInitNode heap alloc ret with ⟨heap', _ | id⟩
  · rfl
  · simp only [Option.bind_eq_bind, Option.map_bind, Function.comp_def, Option.pure_def,
      Option.map_some, Prod.mk.eta, Option.bind_fun_some]

/-- `uart_connect_handler`: its `recv_buf` and the list afterwards, `none` if it
faults or `whole_read` needs more iterations than the bound. -/
def uartConnectHandler (uartfd : Int) (read : ℕ → ReadResult) (fuel : ℕ) (heap : Heap)
    (head : Option SingleLinklistHead) (alloc : NodeAlloc) :
    Option (List UInt8 × Heap × Option SingleLinklistHead) :=
  match wholeReadBlock recvBuf read fuel with
  | .done s =>
    let ret := ssizeToInt s.c
    -- the UART is registered again here
    if ret > 0 then
      (queueReceived heap head alloc uartfd s.buf ret).map fun list => (s.buf, list)
    else some (s.buf, heap, head)
  | _ => none

/-- The message queued for the bytes read. -/
def uartMessage (uartfd : Int) (data : List UInt8) : DataInf :=
  { pdata := some data, dataLen := data.length, recvFd := uartfd, sendTo := .other 0 }

theorem uartMessage_bytes (uartfd : Int) (data : List UInt8) :
    (uartMessage uartfd data).bytes = data := by
  show data.take (data.length : Int).toNat = data
  rw [Int.toNat_natCast, List.take_length]

section Handler

variable {l : MessageList} {alloc : NodeAlloc} {uartfd : Int} {rest : List UInt8}

/-- With memory for a node the message is appended. -/
theorem queueReceived_ok (halloc : alloc.Succeeds) (hfresh : alloc.Fresh l.heap) :
    ∃ id heap' head', queueReceived l.heap (some l.head) alloc uartfd (data ++ rest)
        data.length = some (heap', some head') ∧
      Rep heap' head' (l.queue ++ [(id, uartMessage uartfd data)]) := by
  have hadded : DataInf.added ⟨some (data ++ rest), data.length, uartfd, .other 0⟩ =
      uartMessage uartfd data := by
    simp only [DataInf.added, DataInf.bytes, uartMessage, Option.getD_some, Int.toNat_natCast,
      List.take_left]
  have hle : (data.length : Int) ≤ (data ++ rest).length := by
    rw [List.length_append]
    omega
  obtain ⟨id, heap', head', hadd, hrep⟩ := addData_ok l.rep halloc hfresh
    (d := ⟨some (data ++ rest), data.length, uartfd, .other 0⟩)
    ⟨data ++ rest, rfl, Int.natCast_nonneg _, hle⟩
  rw [hadded] at hrep
  exact ⟨id, heap', head', by rw [queueReceived_eq, hadd]; rfl, hrep⟩

theorem queueReceived_failed {buf : List UInt8} {ret : Int} (halloc : ¬ alloc.Succeeds)
    (hfresh : alloc.Fresh l.heap) :
    queueReceived l.heap (some l.head) alloc uartfd buf ret = some (l.heap, some l.head) := by
  rw [queueReceived_eq, addData_failed halloc hfresh]
  rfl

/-- A call leaves `recv_buf` with the bytes kept, which are fewer than it holds,
and zeros behind them, and the list with the message or as it was. -/
theorem uartConnectHandler_spec (uartfd : Int) (read : ℕ → ReadResult)
    (hfresh : alloc.Fresh l.heap) :
    ∃ k recv heap' head', uartConnectHandler uartfd read (recvBufSize + 1) l.heap (some l.head)
        alloc = some (recv, heap', some head') ∧
      IsGreatest {k | StaysBelow recvBufSize (chunks read) k} k ∧
      (firstChunks (chunks read) k).length < recvBufSize ∧
      recv = firstChunks (chunks read) k ++
        List.replicate (recvBufSize - (firstChunks (chunks read) k).length) 0 ∧
      ((firstChunks (chunks read) k = [] ∨ ¬ alloc.Succeeds) ∧ heap' = l.heap ∧ head' = l.head ∨
        firstChunks (chunks read) k ≠ [] ∧ ∃ id, Rep heap' head'
          (l.queue ++ [(id, uartMessage uartfd (firstChunks (chunks read) k))])) := by
  obtain ⟨k, s, hloop, -, hgreatest, hreading⟩ := wholeReadBlock_stream recvBuf read
  rw [recvBuf_count] at hloop hgreatest
  have hlt := hgreatest.1.length_lt (by decide)
  have hret : ssizeToInt s.c = (firstChunks (chunks read) k).length := by
    rw [hreading.c]
    exact ssizeToInt_of_lt (Nat.lt_trans hlt (by decide))
  have hbuf : s.buf = firstChunks (chunks read) k ++
      List.replicate (recvBufSize - (firstChunks (chunks read) k).length) 0 := by
    rw [hreading.buf]
    exact congrArg _ List.drop_replicate
  unfold uartConnectHandler
  rw [hloop]
  dsimp only
  rw [hret]
  rcases eq_or_ne (firstChunks (chunks read) k) [] with hnil | hne
  · refine ⟨k, s.buf, l.heap, l.head, ?_, hgreatest, hlt, hbuf, .inl ⟨.inl hnil, rfl, rfl⟩⟩
    rw [hnil]
    rfl
  · have hpos := List.length_pos_of_ne_nil hne
    rw [if_pos (by omega), hbuf]
    by_cases halloc : alloc.Succeeds
    · obtain ⟨id, heap', head', hqueue, hrep⟩ := queueReceived_ok halloc hfresh
      exact ⟨k, _, heap', head', by rw [hqueue]; rfl, hgreatest, hlt, rfl, .inr ⟨hne, id, hrep⟩⟩
    · refine ⟨k, _, l.heap, l.head, ?_, hgreatest, hlt, rfl, .inl ⟨.inr halloc, rfl, rfl⟩⟩
      rw [queueReceived_failed halloc hfresh]
      rfl

end Handler

-- ---------------------------------------------------------------------------
-- The handler among the other threads
-- ---------------------------------------------------------------------------

section System

variable {n queueMaxNum : ℕ} {needSockServer : Bool}

/-- What `whole_read` has left in `recv_buf` is shorter than it. -/
def HandlerPc.Short : HandlerPc → Prop
  | .wholeRead buf | .toAdd buf => buf.length < recvBufSize
  | _ => True

theorem short_entry {f : Callback} {a : Arg} {pc : HandlerPc} (h : f.entry a = some pc) :
    pc.Short := by
  rcases Callback.entry_cases h with rfl | rfl | rfl | rfl | rfl | ⟨i, rfl⟩ <;>
    simp [HandlerPc.Short, recvBufSize]

theorem short_afterRead (fd : Fd) (data : List InputByte) : (afterRead fd data).Short := by
  unfold afterRead
  split <;> trivial

theorem short_update {handler : Fin n → HandlerPc} (h : ∀ x, (handler x).Short) (w : Fin n)
    {pc : HandlerPc} (hpc : pc.Short) (x : Fin n) : (Function.update handler w pc x).Short := by
  by_cases hx : x = w
  · rw [hx, Function.update_self]
    exact hpc
  · rw [Function.update_of_ne hx]
    exact h x

theorem short_step {s s' : State n} {e : Event n} (h : ∀ x, (s.handler x).Short)
    (hst : Step needSockServer s e s') : ∀ x, (s'.handler x).Short := by
  cases hst with
  | @start w f a pc pool' hpool hentry => exact short_update h w (short_entry hentry)
  | @uartStore buf buf' w count hpc hcount hbody =>
    obtain ⟨-, hlt, rfl⟩ := wholeReadBody_eq_some_iff.mp hbody
    refine short_update h w ?_
    show (buf ++ _).length < recvBufSize
    rw [List.length_append]
    exact hlt
  | @uartBreak buf w count hpc hcount hbody =>
    have hbuf := h w
    rw [hpc] at hbuf
    exact short_update h w hbuf
  | add w hpc => exact short_update h w (short_afterRead _ _)
  | read w hpc hsock => exact short_update h w (short_afterRead _ _)
  | finish | load | readListening | accept | acceptFailed | insert | initNodeFailed | signal =>
    exact short_update h _ trivial
  | _ => exact h

/-- In every run, whatever the other threads do. -/
theorem run_short {tr : List (Event n)} {s : State n}
    (h : (receiveSystem n queueMaxNum needSockServer).Run tr s) (w : Fin n) :
    (s.handler w).Short := by
  refine System.Run.state_invariant (I := fun s => ∀ x, (s.handler x).Short) ?_ ?_ h w
  · rintro s ⟨events, rfl⟩ x
    trivial
  · intro s e s' _ hshort hst
    exact short_step hshort hst

/-- **The message of a UART worker.** In every run, a worker that has registered
the UART again goes on with a message of 1 to 1023 bytes, or it has read none. -/
theorem run_uart_message {tr : List (Event n)} {s s' : State n} {w : Fin n}
    (h : (receiveSystem n queueMaxNum needSockServer).Run tr s)
    (hst : Step needSockServer s (.add w) s') :
    s'.handler w = .returning ∨ ∃ m, s'.handler w = .toInsert m ∧ m.fd = .uart ∧
      1 ≤ m.data.length ∧ m.data.length ≤ 1023 := by
  cases hst with
  | @add buf w hpc =>
    have hshort := run_short h w
    rw [hpc] at hshort
    have hlt : buf.length < 1024 := hshort
    simp only [Function.update_self, afterRead]
    split
    · exact .inl rfl
    · rename_i hne
      exact .inr ⟨_, rfl, rfl, List.length_pos_of_ne_nil hne, by simpa using Nat.le_of_lt_succ hlt⟩

end System

/-- **whole_read stops, and keeps the longest run that stays below the size of
its buffer.** For every buffer and every infinite stream of results of `read` it
makes at most one read more than the buffer has bytes, and returns less than the
size; it has written the bytes it returns and nothing behind them. So
`uart_connect_handler` leaves a NUL in its `recv_buf`, and the message it queues
has 1 to 1023 bytes. -/
theorem whole_read_keeps_longest_run (b : Buffer) (read : ℕ → ReadResult) :
    (∃ k s, wholeReadBlock b read (b.count + 1) = .done s ∧ s.reads ≤ b.count + 1 ∧
      IsGreatest {k | StaysBelow b.count (chunks read) k} k ∧
      s.c = (firstChunks (chunks read) k).length ∧
      (0 < b.count → s.c < b.count) ∧ (b.count = 0 → s.c = 0) ∧
      s.buf.take s.c.toNat = firstChunks (chunks read) k ∧
      s.buf.drop s.c.toNat = b.bytes.drop s.c.toNat) ∧
    ∀ (uartfd : Int) (l : MessageList) (alloc : NodeAlloc), alloc.Fresh l.heap →
      ∃ k recv heap' head', uartConnectHandler uartfd read (recvBufSize + 1) l.heap (some l.head)
          alloc = some (recv, heap', some head') ∧
        IsGreatest {k | StaysBelow 1024 (chunks read) k} k ∧
        recv.length = 1024 ∧ (∃ len, strlen recv = some len ∧ len < 1024) ∧
        ((k = 0 ∨ ¬ alloc.Succeeds) ∧ heap' = l.heap ∧ head' = l.head ∨
          ∃ id d, Rep heap' head' (l.queue ++ [(id, d)]) ∧
            d.bytes = firstChunks (chunks read) k ∧ d.dataLen = d.bytes.length ∧
            d.recvFd = uartfd ∧ 1 ≤ d.bytes.length ∧ d.bytes.length ≤ 1023) := by
  constructor
  · obtain ⟨k, s, hloop, hreads, hgreatest, hreading⟩ := wholeReadBlock_stream b read
    have hc := hreading.c
    refine ⟨k, s, hloop, hreads, hgreatest, hc, ?_, ?_, ?_, ?_⟩
    · intro hcount
      have hlt := hgreatest.1.length_lt hcount
      omega
    · intro hcount
      rw [hc, StaysBelow.eq_nil (hcount ▸ hgreatest.1)]
      rfl
    · rw [hreading.buf, hc, Int.toNat_natCast, List.take_left]
    · rw [hreading.buf, hc, Int.toNat_natCast, List.drop_left]
  · intro uartfd l alloc hfresh
    obtain ⟨k, recv, heap', head', hrun, hgreatest, hlt, hrecv, hlist⟩ :=
      uartConnectHandler_spec uartfd read hfresh
    have hsize : recvBufSize = 1024 := rfl
    have hlength : recv.length = 1024 := by
      rw [hrecv, List.length_append, List.length_replicate]
      omega
    have hnul : 0 ∈ recv := by
      rw [hrecv, List.mem_append, List.mem_replicate]
      exact .inr ⟨by omega, rfl⟩
    refine ⟨k, recv, heap', head', hrun, hgreatest, hlength, hlength ▸ strlen_of_mem hnul, ?_⟩
    refine hlist.imp (And.imp_left (Or.imp_left hgreatest.1.eq_zero)) ?_
    rintro ⟨hne, id, hrep⟩
    have hpos := List.length_pos_of_ne_nil hne
    refine ⟨id, _, hrep, uartMessage_bytes _ _, ?_, rfl, ?_, ?_⟩
    · rw [uartMessage_bytes]
      rfl
    · rw [uartMessage_bytes]
      omega
    · rw [uartMessage_bytes]
      omega

/-- A stream of two chunks with -1 behind them. -/
def twoChunks : ℕ → ReadResult
  | 0 => ⟨some [7, 8], by rintro _ ⟨⟩; decide⟩
  | 1 => ⟨some [9], by rintro _ ⟨⟩; decide⟩
  | _ => ⟨none, by rintro _ ⟨⟩⟩

/-- The theorem at work: both chunks are queued, as one message. -/
theorem whole_read_keeps_longest_run_two :
    ∃ recv heap' head' id d, uartConnectHandler 3 twoChunks 1025 MessageList.new.heap
        (some MessageList.new.head) ⟨some 1, true, true⟩ = some (recv, heap', some head') ∧
      Rep heap' head' [(id, d)] ∧ d.bytes = [7, 8, 9] ∧ d.dataLen = 3 := by
  have halloc : NodeAlloc.Succeeds ⟨some 1, true, true⟩ := by decide
  have hfresh : NodeAlloc.Fresh ⟨some 1, true, true⟩ MessageList.new.heap := by
    rintro id ⟨⟩
    rfl
  obtain ⟨k, recv, heap', head', hrun, hgreatest, -, -, hlist⟩ :=
    (whole_read_keeps_longest_run recvBuf twoChunks).2 3 MessageList.new _ hfresh
  -- the run ends at the third result
  have htwo : StaysBelow 1024 (chunks twoChunks) 2 := by
    intro i hi
    match i, hi with
    | 0, _ => exact ⟨List.cons_ne_nil _ _, by decide⟩
    | 1, _ => exact ⟨List.cons_ne_nil _ _, by decide⟩
  have hk : k = 2 := by
    refine Nat.le_antisymm ?_ (hgreatest.2 htwo)
    by_contra hlt
    exact (hgreatest.1 2 (by omega)).1 rfl
  subst hk
  rcases hlist with ⟨hnone | hfailed, -, -⟩ | ⟨id, d, hrep, hbytes, hlen, -⟩
  · cases hnone
  · exact absurd halloc hfailed
  · refine ⟨recv, heap', head', id, d, hrun, hrep, hbytes, ?_⟩
    rw [hlen, hbytes]
    rfl

end Uartd.Receive
