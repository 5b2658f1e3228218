import Mathlib.Data.List.Basic

/-!
# Uartd — the byte ring buffer (data_fifo.c)

`fifo` is a ring of `buf_size` bytes with two signed indices and an unsigned
count. The functions are translated with the arithmetic of the target: `int`
is 32 bits and its overflow is undefined, `unsigned int` wraps, and the `%=` of
an index by `buf_size` converts the index to `unsigned int` and back. What is
undefined in C is a `Fault` here, so a function that returns `.ok` did no
overflowing increment, no access outside a block and no division by zero.

Every function body between `pthread_mutex_lock` and `pthread_mutex_unlock` is
one Lean function; the two loops recurse on the number of iterations the test
`i < len` still allows. The caller's block for `fifo_pop` is as large as it
says; the bytes stored in it are returned. The debug macros are empty.
-/

namespace Uartd.DataFifo

/-- What C leaves undefined. -/
inductive Fault where
  | signedOverflow
  | outOfBounds
  | divByZero
  deriving DecidableEq, Repr

/-- `fifo`, without its mutex; `buffer` is the block it points to. -/
structure Fifo where
  buffer  : List UInt8
  bufSize : ℕ
  head    : Int
  tail    : Int
  dataLen : ℕ
  deriving DecidableEq, Repr

/-! ## Arithmetic and memory -/

/-- `x++` of an `int`. -/
def incInt (x : Int) : Except Fault Int :=
  if x + 1 < 2147483648 then .ok (x + 1) else .error .signedOverflow

/-- The conversion of an `unsigned int` to `int`. -/
def toInt (u : ℕ) : Int := if u < 2147483648 then u else u - 4294967296

/-- `x %= n` of an `int` by an `unsigned int`. -/
def remUnsigned (x : Int) (n : ℕ) : Except Fault Int :=
  if n = 0 then .error .divByZero else .ok (toInt ((x % 4294967296).toNat % n))

/-- `block[i]`, read. -/
def readAt (block : List UInt8) (i : Int) : Except Fault UInt8 :=
  if 0 ≤ i then
    match block[i.toNat]? with
    | some c => .ok c
    | none => .error .outOfBounds
  else .error .outOfBounds

/-- `block[i] = c`. -/
def writeAt (block : List UInt8) (i : Int) (c : UInt8) : Except Fault (List UInt8) :=
  if 0 ≤ i ∧ i < block.length then .ok (block.set i.toNat c) else .error .outOfBounds

/-! ## The functions of data_fifo.c -/

/-- `fifo_alloc`: `okFifo` and `okBuffer` are whether the two `calloc` calls
return a block. -/
def fifoAlloc (length : ℕ) (okFifo okBuffer : Bool) : Option Fifo :=
  if okFifo then
    if okBuffer then
      some { buffer := List.replicate length 0, bufSize := 0, head := 0, tail := 0, dataLen := 0 }
    else none
  else none

/-- `init_data_fifo`. -/
def initDataFifo (length : ℕ) (okFifo okBuffer : Bool) : Int × Option Fifo :=
  match fifoAlloc length okFifo okBuffer with
  | none => (-1, none)
  | some f => (0, some { f with bufSize := length, dataLen := 0, head := 0, tail := 0 })

/-- One iteration of `fifo_pop` past its test for emptiness. -/
def popByte (f : Fifo) : Except Fault (UInt8 × Fifo) := do
  -- buf[i] = f->buffer[f->tail++]
  let c ← readAt f.buffer f.tail
  let tail ← incInt f.tail
  let dataLen := f.dataLen - 1
  let tail ← remUnsigned tail f.bufSize
  pure (c, { f with tail := tail, dataLen := dataLen })

def fifoPopLoop : ℕ → Fifo → Int → List UInt8 → Except Fault (Fifo × List UInt8 × Int)
  | 0, f, i, buf => .ok (f, buf, i)
  | k + 1, f, i, buf =>
    if f.dataLen = 0 then .ok (f, buf, i)
    else do
      let (c, f) ← popByte f
      let i ← incInt i
      fifoPopLoop k f i (buf ++ [c])

/-- `fifo_pop`: the bytes stored into `buf`, and their number. -/
def fifoPop (f : Fifo) (maxlen : ℕ) : Except Fault (Fifo × List UInt8 × Int) :=
  fifoPopLoop maxlen f 0 []

/-- One iteration of `fifo_put` past its test for fullness. -/
def putByte (f : Fifo) (c : UInt8) : Except Fault Fifo := do
  -- f->buffer[f->head++] = data[i]
  let buffer ← writeAt f.buffer f.head c
  let head ← incInt f.head
  let dataLen := (f.dataLen + 1) % 4294967296
  let head ← remUnsigned head f.bufSize
  pure { f with buffer := buffer, head := head, dataLen := dataLen }

def fifoPutLoop (data : List UInt8) : ℕ → Fifo → Int → Except Fault (Fifo × Int)
  | 0, f, i => .ok (f, i)
  | k + 1, f, i =>
    if f.dataLen = f.bufSize then .ok (f, i)
    else do
      let c ← readAt data i
      let f ← putByte f c
      let i ← incInt i
      fifoPutLoop data k f i

/-- `fifo_put`. -/
def fifoPut (f : Fifo) (data : List UInt8) (len : ℕ) : Except Fault (Fifo × Int) :=
  fifoPutLoop data len f 0

/-- `is_fifo_full`. -/
def isFifoFull (f : Option Fifo) : Int :=
  match f with
  | some f => if f.dataLen = f.bufSize then 1 else 0
  | none => -1

/-- `is_fifo_empty`. -/
def isFifoEmpty (f : Option Fifo) : Int :=
  match f with
  | some f => if f.dataLen = 0 then 1 else 0
  | none => -1

/-! ## Where nothing goes wrong -/

@[simp] theorem ok_bind {α β : Type} (x : α) (g : α → Except Fault β) :
    ((Except.ok x : Except Fault α) >>= g) = g x := rfl

@[simp] theorem error_bind {α β : Type} (e : Fault) (g : α → Except Fault β) :
    ((Except.error e : Except Fault α) >>= g) = .error e := rfl

/-- A call of `init_data_fifo` that returns 0 makes an empty fifo. -/
theorem initDataFifo_eq {length : ℕ} {okFifo okBuffer : Bool} {f : Fifo}
    (h : initDataFifo length okFifo okBuffer = (0, some f)) :
    f = { buffer := List.replicate length 0, bufSize := length, head := 0, tail := 0,
          dataLen := 0 } := by
  unfold initDataFifo fifoAlloc at h
  cases okFifo <;> cases okBuffer <;> simp only [if_true, if_false, Bool.false_eq_true,
    Prod.mk.injEq, reduceCtorEq, and_false, Option.some.injEq, true_and] at h
  exact h.symm

theorem incInt_of_lt {x : Int} (h : x + 1 < 2147483648) : incInt x = .ok (x + 1) := by
  rw [incInt, if_pos h]

/-- An index one past a position wraps around, if it fits an `int`. -/
theorem remUnsigned_succ {x n : ℕ} (hx : x < n) (hint : x + 1 < 2147483648) :
    remUnsigned ((x : Int) + 1) n = .ok (((x + 1) % n : ℕ) : Int) := by
  have hpos : n ≠ 0 := by omega
  have hconv : ((x : Int) + 1) % 4294967296 = ((x + 1 : ℕ) : Int) := by
    push_cast
    exact Int.emod_eq_of_lt (by omega) (by omega)
  have hlt : (x + 1) % n < 2147483648 := Nat.lt_of_le_of_lt (Nat.mod_le _ _) hint
  rw [remUnsigned, if_neg hpos, hconv, Int.toNat_natCast, toInt, if_pos hlt]

theorem readAt_of_getElem? {block : List UInt8} {i : ℕ} {c : UInt8} (h : block[i]? = some c) :
    readAt block i = .ok c := by
  rw [readAt, if_pos (by omega), Int.toNat_natCast, h]

theorem writeAt_of_lt {block : List UInt8} {i : ℕ} (h : i < block.length) (c : UInt8) :
    writeAt block i c = .ok (block.set i c) := by
  rw [writeAt, if_pos ⟨by omega, by omega⟩, Int.toNat_natCast]

end Uartd.DataFifo
