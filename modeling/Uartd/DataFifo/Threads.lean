import Uartd.Lib.Critical
import Uartd.DataFifo.Refinement

/-!
# Uartd — threads that share a ring buffer (data_fifo.c)

The four functions that lock `rwlock`, statement by statement: a thread may be
interrupted between any two statements of a loop, with `head` past the end of
the buffer or a byte stored that `data_len` does not count yet. `fifoThreads`
interleaves any number of threads that call them on one fifo.

* `code_implements` — undisturbed, the statements of a call do what the call
  does to the queue, and none of them faults;
* `fifo_linearizable` — every interleaving is one of atomic calls on the queue.

What a call returns is a `Result`: the bytes it stored in the caller's block,
which only `fifo_pop` has, and the value of the function.
-/

namespace Uartd.DataFifo

open Uartd.Lib

/-- A call of a function that locks `rwlock`, with its arguments. -/
inductive Op where
  | put (data : List UInt8) (len : ℕ)
  | pop (maxlen : ℕ)
  | full
  | empty

abbrev Result := List UInt8 × Int

/-- The call with what it returned. -/
def Op.call : Op → Result → Call
  | .put data len, r => .put data len r.2
  | .pop maxlen, r => .pop maxlen r.1 r.2
  | .full, r => .full r.2
  | .empty, r => .empty r.2

def Op.Legal : Op → Prop
  | .put data len => len ≤ data.length ∧ len < 2147483648
  | .pop maxlen => maxlen < 2147483648
  | _ => True

/-- The statements of a loop: its test, the test of `data_len`, the copy of a
byte with the increment of the index, the change of `data_len`, `%= buf_size`
and `i++`. -/
inductive Place where
  | test
  | check
  | copy
  | count
  | wrap
  | next

/-- The next statement, `i`, and the bytes stored in `buf` so far. -/
structure Loc where
  place : Place
  i     : Int
  buf   : List UInt8

/-- The conversion of an `int` to `unsigned int`. -/
def toUnsigned (x : Int) : ℕ := (x % 4294967296).toNat

/-- A statement of `fifo_put` under the mutex. -/
def fifoPutStep (data : List UInt8) (len : ℕ) (l : Loc) (f : Fifo) :
    Except Fault (Outcome Loc Result Fifo) :=
  match l.place with
  | .test =>
    if toUnsigned l.i < len then .ok (.go { l with place := .check } f)
    else .ok (.done (l.buf, l.i))
  | .check =>
    if f.dataLen = f.bufSize then .ok (.done (l.buf, l.i))
    else .ok (.go { l with place := .copy } f)
  | .copy => do
    -- f->buffer[f->head++] = data[i]
    let c ← readAt data l.i
    let buffer ← writeAt f.buffer f.head c
    let head ← incInt f.head
    pure (.go { l with place := .count } { f with buffer := buffer, head := head })
  | .count =>
    .ok (.go { l with place := .wrap } { f with dataLen := (f.dataLen + 1) % 4294967296 })
  | .wrap => do
    let head ← remUnsigned f.head f.bufSize
    pure (.go { l with place := .next } { f with head := head })
  | .next => do
    let i ← incInt l.i
    pure (.go { l with place := .test, i := i } f)

/-- A statement of `fifo_pop` under the mutex. -/
def fifoPopStep (maxlen : ℕ) (l : Loc) (f : Fifo) : Except Fault (Outcome Loc Result Fifo) :=
  match l.place with
  | .test =>
    if toUnsigned l.i < maxlen then .ok (.go { l with place := .check } f)
    else .ok (.done (l.buf, l.i))
  | .check =>
    if f.dataLen = 0 then .ok (.done (l.buf, l.i))
    else .ok (.go { l with place := .copy } f)
  | .copy => do
    -- buf[i] = f->buffer[f->tail++]
    let c ← readAt f.buffer f.tail
    let tail ← incInt f.tail
    pure (.go { l with place := .count, buf := l.buf ++ [c] } { f with tail := tail })
  | .count => .ok (.go { l with place := .wrap } { f with dataLen := f.dataLen - 1 })
  | .wrap => do
    let tail ← remUnsigned f.tail f.bufSize
    pure (.go { l with place := .next } { f with tail := tail })
  | .next => do
    let i ← incInt l.i
    pure (.go { l with place := .test, i := i } f)

/-- What each function does between `pthread_mutex_lock` and `pthread_mutex_unlock`. -/
def code : Section Op Loc Result Fifo Fault where
  enter _ := ⟨.test, 0, []⟩
  step
    | .put data len => fifoPutStep data len
    | .pop maxlen => fifoPopStep maxlen
    | .full => fun _ f => .ok (.done ([], isFifoFull (some f)))
    | .empty => fun _ f => .ok (.done ([], isFifoEmpty (some f)))

/-- A fifo that `init_data_fifo` made. -/
def Created (n : ℕ) (f : Fifo) : Prop :=
  ∃ okFifo okBuffer, initDataFifo n okFifo okBuffer = (0, some f)

/-- Threads that call these functions on a fifo of capacity `n`. -/
def fifoThreads (n : ℕ) (P : Type) [DecidableEq P] :
    System (Threads P Op Loc Result Fifo) (ThreadEvent P Op Result Fault) :=
  code.threads Op.Legal (Created n) P

-- ---------------------------------------------------------------------------
-- The statements of an iteration
-- ---------------------------------------------------------------------------

theorem toUnsigned_natCast {k : ℕ} (h : k < 4294967296) : toUnsigned k = k := by
  rw [toUnsigned, Int.emod_eq_of_lt (by omega) (by omega), Int.toNat_natCast]

variable {n : ℕ} {q data : List UInt8} {len maxlen : ℕ}

/-- Where `fifo_put` is after `k` iterations of its loop, or inside the next one:
what the statements that are left of the iteration make of the ring. -/
def PutAt (n : ℕ) (q data : List UInt8) (len k : ℕ) : Place → Fifo → Prop
  | .test, f => k ≤ len ∧ k ≤ n - q.length ∧ Rep n f (q ++ data.take k)
  | .check, f => k < len ∧ k ≤ n - q.length ∧ Rep n f (q ++ data.take k)
  | .copy, f => k < len ∧ k < n - q.length ∧ Rep n f (q ++ data.take k)
  | .count, f => k < len ∧ k < n - q.length ∧ ∃ head, remUnsigned f.head f.bufSize = .ok head ∧
      Rep n { f with dataLen := (f.dataLen + 1) % 4294967296, head := head }
        (q ++ data.take (k + 1))
  | .wrap, f => k < len ∧ k < n - q.length ∧ ∃ head, remUnsigned f.head f.bufSize = .ok head ∧
      Rep n { f with head := head } (q ++ data.take (k + 1))
  | .next, f => k < len ∧ k < n - q.length ∧ Rep n f (q ++ data.take (k + 1))

/-- Where `fifo_pop` is. -/
def PopAt (n : ℕ) (q : List UInt8) (maxlen k : ℕ) : Place → List UInt8 → Fifo → Prop
  | .test, buf, f => k ≤ maxlen ∧ k ≤ q.length ∧ buf = q.take k ∧ Rep n f (q.drop k)
  | .check, buf, f => k < maxlen ∧ k ≤ q.length ∧ buf = q.take k ∧ Rep n f (q.drop k)
  | .copy, buf, f => k < maxlen ∧ k < q.length ∧ buf = q.take k ∧ Rep n f (q.drop k)
  | .count, buf, f => k < maxlen ∧ k < q.length ∧ buf = q.take (k + 1) ∧
      ∃ tail, remUnsigned f.tail f.bufSize = .ok tail ∧
        Rep n { f with dataLen := f.dataLen - 1, tail := tail } (q.drop (k + 1))
  | .wrap, buf, f => k < maxlen ∧ k < q.length ∧ buf = q.take (k + 1) ∧
      ∃ tail, remUnsigned f.tail f.bufSize = .ok tail ∧
        Rep n { f with tail := tail } (q.drop (k + 1))
  | .next, buf, f => k < maxlen ∧ k < q.length ∧ buf = q.take (k + 1) ∧ Rep n f (q.drop (k + 1))

/-- The parts of a computation that succeeds. -/
theorem bind_eq_ok {α β : Type} {x : Except Fault α} {g : α → Except Fault β} {r : β}
    (h : (x >>= g) = .ok r) : ∃ a, x = .ok a ∧ g a = .ok r := by
  cases x with
  | error e => cases h
  | ok a => exact ⟨a, rfl, h⟩

/-- The statements of an iteration of `fifo_put` that succeeds. -/
theorem putByte_parts {f f' : Fifo} {c : UInt8} (h : putByte f c = .ok f') :
    ∃ buffer head head', writeAt f.buffer f.head c = .ok buffer ∧ incInt f.head = .ok head ∧
      remUnsigned head f.bufSize = .ok head' ∧
      f' = { f with buffer := buffer, head := head', dataLen := (f.dataLen + 1) % 4294967296 } := by
  obtain ⟨buffer, hwrite, h⟩ := bind_eq_ok h
  obtain ⟨head, hinc, h⟩ := bind_eq_ok h
  obtain ⟨head', hrem, h⟩ := bind_eq_ok h
  cases h
  exact ⟨buffer, head, head', hwrite, hinc, hrem, rfl⟩

/-- The statements of an iteration of `fifo_pop` that succeeds. -/
theorem popByte_parts {f f' : Fifo} {c : UInt8} (h : popByte f = .ok (c, f')) :
    ∃ tail tail', readAt f.buffer f.tail = .ok c ∧ incInt f.tail = .ok tail ∧
      remUnsigned tail f.bufSize = .ok tail' ∧
      f' = { f with tail := tail', dataLen := f.dataLen - 1 } := by
  obtain ⟨c', hread, h⟩ := bind_eq_ok h
  obtain ⟨tail, hinc, h⟩ := bind_eq_ok h
  obtain ⟨tail', hrem, h⟩ := bind_eq_ok h
  cases h
  exact ⟨tail, tail', hread, hinc, hrem, rfl⟩

/-- **A statement of `fifo_put`** goes to a place of the loop, or the call is over
with the prefix that fits. -/
theorem putStep (hn : n < 2147483648) (hlegal : len ≤ data.length ∧ len < 2147483648) {k : ℕ}
    {place : Place} {f : Fifo} (h : PutAt n q data len k place f) :
    (∃ (place' : Place) (k' : ℕ) (f' : Fifo),
      fifoPutStep data len ⟨place, k, []⟩ f = .ok (.go ⟨place', k', []⟩ f') ∧
      PutAt n q data len k' place' f') ∨
    (fifoPutStep data len ⟨place, k, []⟩ f =
        .ok (.done ([], ((min len (n - q.length) : ℕ) : Int))) ∧
      Rep n f (q ++ data.take (min len (n - q.length)))) := by
  obtain ⟨hdata, hint⟩ := hlegal
  cases place with
  | test =>
    obtain ⟨hk, hroom, hrep⟩ := h
    have hconv : toUnsigned (k : Int) = k := toUnsigned_natCast (by omega)
    by_cases hlt : k < len
    · refine .inl ⟨.check, k, f, ?_, hlt, hroom, hrep⟩
      simp only [fifoPutStep, hconv, if_pos hlt]
    · have hmin : min len (n - q.length) = k := by omega
      refine .inr ⟨?_, by rwa [hmin]⟩
      simp only [fifoPutStep, hconv, if_neg hlt, hmin]
  | check =>
    obtain ⟨hk, hroom, hrep⟩ := h
    have hlen : (q ++ data.take k).length = q.length + k := by
      rw [List.length_append, List.length_take]
      omega
    have hsize := hrep.le
    rw [hlen] at hsize
    by_cases hfull : f.dataLen = f.bufSize
    · have hmin : min len (n - q.length) = k := by
        rw [hrep.dataLen, hrep.bufSize, hlen] at hfull
        omega
      refine .inr ⟨?_, by rwa [hmin]⟩
      simp only [fifoPutStep, if_pos hfull, hmin]
    · refine .inl ⟨.copy, k, f, ?_, hk, ?_, hrep⟩
      · simp only [fifoPutStep, if_neg hfull]
      · rw [hrep.dataLen, hrep.bufSize, hlen] at hfull
        omega
  | copy =>
    obtain ⟨hk, hroom, hrep⟩ := h
    have hlen : (q ++ data.take k).length = q.length + k := by
      rw [List.length_append, List.length_take]
      omega
    have hlt : k < data.length := by omega
    obtain ⟨f', hput, hrep', -⟩ := putByte_rep hrep (by omega) (by omega) (.inl hn) data[k]
    obtain ⟨buffer, head, head', hwrite, hinc, hrem, rfl⟩ := putByte_parts hput
    refine .inl ⟨.count, k, { f with buffer := buffer, head := head }, ?_, hk, hroom, head', hrem,
      ?_⟩
    · rw [fifoPutStep, readAt_of_getElem? (List.getElem?_eq_getElem hlt), ok_bind, hwrite, ok_bind,
        hinc, ok_bind]
      rfl
    · rwa [List.append_assoc, List.take_append_getElem] at hrep'
  | count =>
    obtain ⟨hk, hroom, head, hrem, hrep⟩ := h
    exact .inl ⟨.wrap, k, _, rfl, hk, hroom, head, hrem, hrep⟩
  | wrap =>
    obtain ⟨hk, hroom, head, hrem, hrep⟩ := h
    refine .inl ⟨.next, k, _, ?_, hk, hroom, hrep⟩
    rw [fifoPutStep, hrem, ok_bind]
    rfl
  | next =>
    obtain ⟨hk, hroom, hrep⟩ := h
    have hinc : incInt k = .ok ((k + 1 : ℕ) : Int) := incInt_of_lt (by omega)
    refine .inl ⟨.test, k + 1, f, ?_, hk, hroom, hrep⟩
    simp only [fifoPutStep, hinc, ok_bind]
    rfl

/-- **A statement of `fifo_pop`.** -/
theorem popStep (hn : n < 2147483648) (hlegal : maxlen < 2147483648) {k : ℕ} {place : Place}
    {buf : List UInt8} {f : Fifo} (h : PopAt n q maxlen k place buf f) :
    (∃ (place' : Place) (k' : ℕ) (buf' : List UInt8) (f' : Fifo),
      fifoPopStep maxlen ⟨place, k, buf⟩ f = .ok (.go ⟨place', k', buf'⟩ f') ∧
      PopAt n q maxlen k' place' buf' f') ∨
    (fifoPopStep maxlen ⟨place, k, buf⟩ f =
        .ok (.done (q.take maxlen, ((min maxlen q.length : ℕ) : Int))) ∧
      Rep n f (q.drop maxlen)) := by
  cases place with
  | test =>
    obtain ⟨hk, hsize, rfl, hrep⟩ := h
    have hconv : toUnsigned (k : Int) = k := toUnsigned_natCast (by omega)
    by_cases hlt : k < maxlen
    · refine .inl ⟨.check, k, _, f, ?_, hlt, hsize, rfl, hrep⟩
      simp only [fifoPopStep, hconv, if_pos hlt]
    · obtain rfl : k = maxlen := by omega
      refine .inr ⟨?_, hrep⟩
      simp only [fifoPopStep, hconv, if_neg hlt, Nat.min_eq_left hsize]
  | check =>
    obtain ⟨hk, hsize, rfl, hrep⟩ := h
    have hlen := hrep.dataLen
    rw [List.length_drop] at hlen
    by_cases hempty : f.dataLen = 0
    · obtain rfl : k = q.length := by omega
      refine .inr ⟨?_, ?_⟩
      · simp only [fifoPopStep, if_pos hempty, List.take_length, List.take_of_length_le hk.le,
          Nat.min_eq_right hk.le]
      · rwa [List.drop_of_length_le hk.le, ← List.drop_length]
    · refine .inl ⟨.copy, k, _, f, ?_, hk, by omega, rfl, hrep⟩
      simp only [fifoPopStep, if_neg hempty]
  | copy =>
    obtain ⟨hk, hsize, rfl, hrep⟩ := h
    rw [List.drop_eq_getElem_cons hsize] at hrep
    obtain ⟨f', hpop, hrep', -⟩ := popByte_rep hrep (.inl hn)
    obtain ⟨tail, tail', hread, hinc, hrem, rfl⟩ := popByte_parts hpop
    refine .inl ⟨.count, k, q.take (k + 1), { f with tail := tail }, ?_, hk, hsize, rfl, tail',
      hrem, hrep'⟩
    rw [fifoPopStep, hread, ok_bind, hinc, ok_bind, ← List.take_append_getElem hsize]
    rfl
  | count =>
    obtain ⟨hk, hsize, rfl, tail, hrem, hrep⟩ := h
    exact .inl ⟨.wrap, k, _, _, rfl, hk, hsize, rfl, tail, hrem, hrep⟩
  | wrap =>
    obtain ⟨hk, hsize, rfl, tail, hrem, hrep⟩ := h
    refine .inl ⟨.next, k, _, _, ?_, hk, hsize, rfl, hrep⟩
    rw [fifoPopStep, hrem, ok_bind]
    rfl
  | next =>
    obtain ⟨hk, hsize, rfl, hrep⟩ := h
    have hinc : incInt k = .ok ((k + 1 : ℕ) : Int) := incInt_of_lt (by omega)
    refine .inl ⟨.test, k + 1, _, f, ?_, hk, hsize, rfl, hrep⟩
    simp only [fifoPopStep, hinc, ok_bind]
    rfl

-- ---------------------------------------------------------------------------
-- A call, undisturbed
-- ---------------------------------------------------------------------------

/-- Where a call is that began on the queue `q`. -/
def CallAt (n : ℕ) (q : List UInt8) : Op → Loc → Fifo → Prop
  | .put data len, l, f => ∃ k : ℕ, l.i = k ∧ l.buf = [] ∧ PutAt n q data len k l.place f
  | .pop maxlen, l, f => ∃ k : ℕ, l.i = k ∧ PopAt n q maxlen k l.place l.buf f
  | _, _, f => Rep n f q

/-- A statement of a call goes to a place of the call, or the call is over and did
what the queue does. -/
theorem callStep (hn : n < 2147483648) {op : Op} (hlegal : op.Legal) {l : Loc} {f : Fifo}
    (h : CallAt n q op l f) :
    (∃ l' f', code.step op l f = .ok (.go l' f') ∧ CallAt n q op l' f') ∨
    (∃ r, code.step op l f = .ok (.done r) ∧ ∃ q', QueueStep n q (op.call r) q' ∧ Rep n f q') := by
  cases op with
  | put data len =>
    obtain ⟨place, i, buf⟩ := l
    obtain ⟨k, rfl, rfl, hat⟩ := h
    rcases putStep hn hlegal hat with ⟨place', k', f', hst, hat'⟩ | ⟨hst, hrep⟩
    · exact .inl ⟨_, f', hst, k', rfl, rfl, hat'⟩
    · exact .inr ⟨_, hst, _, ⟨rfl, rfl⟩, hrep⟩
  | pop maxlen =>
    obtain ⟨place, i, buf⟩ := l
    obtain ⟨k, rfl, hat⟩ := h
    rcases popStep hn hlegal hat with ⟨place', k', buf', f', hst, hat'⟩ | ⟨hst, hrep⟩
    · exact .inl ⟨_, f', hst, k', rfl, hat'⟩
    · exact .inr ⟨_, hst, _, ⟨rfl, rfl, rfl⟩, hrep⟩
  | full => exact .inr ⟨_, rfl, q, ⟨isFifoFull_rep h, rfl⟩, h⟩
  | empty => exact .inr ⟨_, rfl, q, ⟨isFifoEmpty_rep h, rfl⟩, h⟩

/-- Every place a call comes to. -/
theorem callAt_of_at (hn : n < 2147483648) {op : Op} (hlegal : op.Legal) {f₀ f : Fifo} {l : Loc}
    (hrep : Rep n f₀ q) (h : code.At op f₀ l f) : CallAt n q op l f := by
  induction h with
  | enter =>
    cases op with
    | put data len =>
      exact ⟨0, rfl, rfl, Nat.zero_le _, Nat.zero_le _, by rwa [List.take_zero, List.append_nil]⟩
    | pop maxlen => exact ⟨0, rfl, Nat.zero_le _, Nat.zero_le _, rfl, hrep⟩
    | full => exact hrep
    | empty => exact hrep
  | go _ hst ih =>
    rcases callStep hn hlegal ih with ⟨l', f', hgo, hat⟩ | ⟨r, hdone, -⟩
    · rw [hst] at hgo
      cases hgo
      exact hat
    · rw [hst] at hdone
      cases hdone

/-- The statements of the calls implement the byte queue. -/
theorem code_implements (hn : n < 2147483648) :
    code.Implements Op.Legal (Created n) (byteQueue n) Op.call (Rep n) where
  init := by
    rintro f ⟨okFifo, okBuffer, hinit⟩
    exact ⟨[], rfl, init_rep hinit⟩
  goesOn := by
    intro op f₀ q l f hlegal hrep hat
    rcases callStep hn hlegal (callAt_of_at hn hlegal hrep hat) with
      ⟨l', f', hgo, -⟩ | ⟨r, hdone, -⟩
    · exact ⟨_, hgo⟩
    · exact ⟨_, hdone⟩
  does := by
    intro op f₀ q l f r hlegal hrep hat hst
    rcases callStep hn hlegal (callAt_of_at hn hlegal hrep hat) with
      ⟨l', f', hgo, -⟩ | ⟨r', hdone, hq⟩
    · rw [hst] at hgo
      cases hgo
    · rw [hst] at hdone
      cases hdone
      exact hq

-- ---------------------------------------------------------------------------
-- Every interleaving
-- ---------------------------------------------------------------------------

/-- The iterations a loop can still make before `i` is past the range of an `int`, each
of six statements. -/
def Loc.cost (l : Loc) : ℕ :=
  6 * (2147483648 - l.i).toNat +
    match l.place with
    | .test => 5
    | .check => 4
    | .copy => 3
    | .count => 2
    | .wrap => 1
    | .next => 0

theorem incInt_toNat {x y : Int} (h : incInt x = .ok y) :
    (2147483648 - y).toNat + 1 = (2147483648 - x).toNat := by
  unfold incInt at h
  split at h
  · cases h
    omega
  · cases h

theorem putStep_cost {l l' : Loc} {f f' : Fifo}
    (h : fifoPutStep data len l f = .ok (.go l' f')) : l'.cost < l.cost := by
  obtain ⟨place, i, buf⟩ := l
  cases place with
  | test =>
    simp only [fifoPutStep] at h
    split at h <;> cases h
    simp [Loc.cost]
  | check =>
    simp only [fifoPutStep] at h
    split at h <;> cases h
    simp [Loc.cost]
  | copy =>
    obtain ⟨c, -, h⟩ := bind_eq_ok h
    obtain ⟨buffer, -, h⟩ := bind_eq_ok h
    obtain ⟨head, -, h⟩ := bind_eq_ok h
    cases h
    simp [Loc.cost]
  | count =>
    cases h
    simp [Loc.cost]
  | wrap =>
    obtain ⟨head, -, h⟩ := bind_eq_ok h
    cases h
    simp [Loc.cost]
  | next =>
    obtain ⟨i', hinc, h⟩ := bind_eq_ok h
    cases h
    have hless := incInt_toNat hinc
    simp only [Loc.cost] at hless ⊢
    omega

theorem popStep_cost {l l' : Loc} {f f' : Fifo}
    (h : fifoPopStep maxlen l f = .ok (.go l' f')) : l'.cost < l.cost := by
  obtain ⟨place, i, buf⟩ := l
  cases place with
  | test =>
    simp only [fifoPopStep] at h
    split at h <;> cases h
    simp [Loc.cost]
  | check =>
    simp only [fifoPopStep] at h
    split at h <;> cases h
    simp [Loc.cost]
  | copy =>
    obtain ⟨c, -, h⟩ := bind_eq_ok h
    obtain ⟨tail, -, h⟩ := bind_eq_ok h
    cases h
    simp [Loc.cost]
  | count =>
    cases h
    simp [Loc.cost]
  | wrap =>
    obtain ⟨tail, -, h⟩ := bind_eq_ok h
    cases h
    simp [Loc.cost]
  | next =>
    obtain ⟨i', hinc, h⟩ := bind_eq_ok h
    cases h
    have hless := incInt_toNat hinc
    simp only [Loc.cost] at hless ⊢
    omega

/-- Every statement brings the end of the call nearer. -/
theorem code_cost (op : Op) (l : Loc) (f : Fifo) (l' : Loc) (f' : Fifo)
    (h : code.step op l f = .ok (.go l' f')) : l'.cost < l.cost := by
  cases op with
  | put data len => exact putStep_cost h
  | pop maxlen => exact popStep_cost h
  | full => cases h
  | empty => cases h

variable {P : Type} [DecidableEq P] [Fintype P]

/-- The calls of a trace, each at the moment of its unlock. -/
def unlocked (tr : List (ThreadEvent P Op Result Fault)) : List Call :=
  (tr.filterMap ThreadEvent.seen).filterMap (ClientEvent.performed? Op.call)

/-- **The functions of the ring buffer are atomic.** However the statements of any
number of threads interleave, no statement faults and at most one thread is under the
mutex; the calls, each taking effect at a moment between its call and its return,
are calls on the byte queue in which every thread keeps its own order and gets what
its calls returned; whenever the mutex is free the ring holds the queue, and the
bytes popped, followed by it, are the bytes the puts accepted. If no further calls
are made, all of them return, whatever the scheduler does. -/
theorem fifo_linearizable {n : ℕ} (hn : n < 2147483648)
    {tr : List (ThreadEvent P Op Result Fault)} {s : Threads P Op Loc Result Fifo}
    (h : (fifoThreads n P).Run tr s) :
    (∀ p e, .fault p e ∉ tr) ∧
    (∀ p q op op' l l', s.phase p = .inside op l → s.phase q = .inside op' l' → p = q) ∧
    (∃ c, (atomic (byteQueue n) Op.call P).Run (tr.filterMap ThreadEvent.seen) c ∧
      (∀ p, c.stage p = (s.phase p).stage) ∧
      (byteQueue n).Run (unlocked tr) c.data ∧
      poppedBytes (unlocked tr) ++ c.data = putBytes (unlocked tr) ∧
      (s.owner = none → Rep n s.data c.data)) ∧
    (∀ p, (tr.filterMap ThreadEvent.seen).flatMap (ClientEvent.returnedTo p) <+:
        (tr.filterMap ThreadEvent.seen).flatMap (ClientEvent.performedBy p) ∧
      ((tr.filterMap ThreadEvent.seen).flatMap (ClientEvent.performedBy p)).map Prod.fst <+:
        (tr.filterMap ThreadEvent.seen).flatMap (ClientEvent.calledBy p)) ∧
    System.Inevitable (fifoThreads n P) Section.NoCall Section.Quiet s := by
  have hC := code_implements hn
  obtain ⟨c, hrun, hlinked⟩ := Section.linearizable hC h
  have hqueue := run_of_atomic hrun
  refine ⟨Section.no_fault hC h, ?_, ⟨c, hrun, hlinked.stage, hqueue,
    byteQueue_popped_append hqueue, hlinked.free⟩, fun p => ⟨⟨_, performed_eq hrun p⟩,
    ⟨_, called_eq hrun p⟩⟩, Section.calls_return hC code_cost h⟩
  intro p q op op' l l' hp hq
  exact hlinked.one hp hq

/-- A put of one byte and a call of `is_fifo_empty` that comes while the byte is
stored and not yet counted. -/
def storing : List (ThreadEvent Bool Op Result Fault) :=
  [.call true (.put [7] 1), .lock true, .work true, .work true, .work true, .call false .empty,
    .work true, .work true, .work true, .unlock true (.put [7] 1) ([], 1), .lock false,
    .unlock false .empty ([], 0), .ret false .empty ([], 0), .ret true (.put [7] 1) ([], 1)]

theorem storing_run :
    ∃ s, (fifoThreads 1 Bool).Run storing s ∧ s.owner = none ∧ s.data = ⟨[7], 1, 0, 0, 1⟩ := by
  have hlegal : Op.Legal (.put [7] 1) := ⟨by decide, by decide⟩
  have h₀ : (fifoThreads 1 Bool).Run [] ⟨fun _ => .outside, none, ⟨[0], 1, 0, 0, 0⟩⟩ :=
    .init ⟨fun _ => rfl, rfl, true, true, rfl⟩
  have h₁ := h₀.step (Section.Step.call true (.put [7] 1) rfl hlegal)
  have h₂ := h₁.step (Section.Step.lock true (.put [7] 1) rfl rfl)
  have h₃ := h₂.step (Section.Step.work true (.put [7] 1) _ _ _ rfl rfl)
  have h₄ := h₃.step (Section.Step.work true (.put [7] 1) _ _ _ rfl rfl)
  have h₅ := h₄.step (Section.Step.work true (.put [7] 1) _ _ _ rfl rfl)
  -- the byte is stored, `data_len` is 0 and `head` past the buffer
  have h₆ := h₅.step (Section.Step.call false .empty rfl (show Op.Legal .empty from trivial))
  have h₇ := h₆.step (Section.Step.work true (.put [7] 1) _ _ _ rfl rfl)
  have h₈ := h₇.step (Section.Step.work true (.put [7] 1) _ _ _ rfl rfl)
  have h₉ := h₈.step (Section.Step.work true (.put [7] 1) _ _ _ rfl rfl)
  have h₁₀ := h₉.step (Section.Step.unlock true (.put [7] 1) _ _ rfl rfl)
  have h₁₁ := h₁₀.step (Section.Step.lock false .empty rfl rfl)
  have h₁₂ := h₁₁.step (Section.Step.unlock false .empty _ _ rfl rfl)
  have h₁₃ := h₁₂.step (Section.Step.ret false .empty _ rfl)
  have h₁₄ := h₁₃.step (Section.Step.ret true (.put [7] 1) _ rfl)
  exact ⟨_, h₁₄, rfl, rfl⟩

/-- The theorem at work: the reader is told that the ring is not empty. -/
theorem fifo_linearizable_storing :
    ∃ s, (fifoThreads 1 Bool).Run storing s ∧ ∃ c, (byteQueue 1).Run (unlocked storing) c ∧
      unlocked storing = [.put [7] 1 1, .empty 0] ∧ Rep 1 s.data c := by
  obtain ⟨s, hrun, hfree, -⟩ := storing_run
  obtain ⟨-, -, ⟨c, -, -, hqueue, -, hrep⟩, -⟩ := fifo_linearizable (by decide) hrun
  exact ⟨s, hrun, c.data, hqueue, rfl, hrep hfree⟩

end Uartd.DataFifo
