import Uartd.Lib.CString

/-!
# Uartd — the dueros encoders (dueros_handle.c)

The three `format_duer_…` functions write a type, the fields and single bytes
between them into a block of fixed size. They are translated statement by
statement over the block `dest` and the index `i`. What C leaves undefined is a
`Fault`, so a call that returns `.ok` wrote inside its block.

The variable arguments are a `VaList`. `vsprintf` is given each string as its
format together with the caller's list: `%%` writes one `%`, `%s` with its flags,
width and precision writes the next argument, and after a call that has taken an
argument the caller's list is indeterminate. Every other conversion is a fault,
as the arguments are strings: it takes a value of another type or is none that C
defines (`%p`, which may print a string's address, is not followed).

The order of the four bytes of an `int` is the parameter `Endian`. The loops
recurse on the number of iterations that the test `argno < sum` still allows;
what the log macros print is left out.
-/

namespace Uartd.Dueros

open Uartd.Lib

/-- What has no defined result. -/
inductive Fault where
  /-- an access outside a block -/
  | overrun
  /-- `va_arg` behind the last argument -/
  | noArgument
  /-- `va_arg` on a list from which `vsprintf` has taken arguments -/
  | indeterminate
  /-- a conversion that takes no string -/
  | conversion
  | nullPointer
  deriving DecidableEq, Repr

/-- `BUF_INF`; `buf` is the block it points to. -/
structure BufInf where
  buf : List UInt8
  len : ℕ
  deriving DecidableEq, Repr

/-- The bytes that the receiver of a `BUF_INF` is given. -/
def BufInf.frame (data : BufInf) : List UInt8 := data.buf.take data.len

-- ---------------------------------------------------------------------------
-- Integers and memory
-- ---------------------------------------------------------------------------

inductive Endian where
  | little
  | big
  deriving DecidableEq, Repr

/-- The four bytes of an `int` in memory. -/
def intBytes (endian : Endian) (x : Int32) : List UInt8 :=
  let u := x.toUInt32.toNat
  let bytes := [u, u / 256, u / 65536, u / 16777216].map UInt8.ofNat
  match endian with
  | .little => bytes
  | .big => bytes.reverse

/-- The bytes `bytes` written to `&block[i]`. -/
def store (block : List UInt8) (i : ℕ) (bytes : List UInt8) : Except Fault (List UInt8) :=
  if i + bytes.length ≤ block.length then
    .ok (block.take i ++ bytes ++ block.drop (i + bytes.length))
  else .error .overrun

/-- The `n` bytes read from `&block[0]`. -/
def load (block : List UInt8) (n : ℕ) : Except Fault (List UInt8) :=
  if n ≤ block.length then .ok (block.take n) else .error .overrun

/-- The locals `dest` and `i` of an encoder. -/
structure Dest where
  dest : List UInt8
  i    : ℕ
  deriving DecidableEq, Repr

namespace Dest

/-- `malloc(size)` and `memset(dest, 0, size)`. -/
def zeroed (size : ℕ) : Dest := ⟨List.replicate size 0, 0⟩

/-- `memcpy(&dest[i], bytes, n); i += n;` -/
def copy (d : Dest) (bytes : List UInt8) : Except Fault Dest := do
  let dest ← store d.dest d.i bytes
  pure ⟨dest, d.i + bytes.length⟩

/-- `dest[i++] = c;` -/
def push (d : Dest) (c : UInt8) : Except Fault Dest := d.copy [c]

/-- `dest[i-1] = c;` -/
def patch (d : Dest) (c : UInt8) : Except Fault Dest := do
  let dest ← store d.dest (d.i - 1) [c]
  pure { d with dest := dest }

end Dest

-- ---------------------------------------------------------------------------
-- Variable arguments and vsprintf
-- ---------------------------------------------------------------------------

/-- A `va_list` with the arguments still to come, `none` where it is indeterminate. -/
abbrev VaList (α : Type) := Option (List α)

def vaArg {α : Type} : VaList α → Except Fault (α × VaList α)
  | none => .error .indeterminate
  | some [] => .error .noArgument
  | some (para :: args) => .ok (para, some args)

/-- What `vsprintf` has read of a conversion specification behind its `%`. -/
structure Spec where
  bare      : Bool
  left      : Bool
  width     : ℕ
  precision : Option ℕ
  deriving DecidableEq, Repr

namespace Spec

def start : Spec := ⟨true, false, 0, none⟩

/-- Flags, then the width, then a point and the precision. The flags `+` and
space say nothing about strings; `0` and `#` are not defined for them. -/
def next (spec : Spec) (c : UInt8) : Option Spec :=
  match spec.precision with
  | some p =>
    if 48 ≤ c ∧ c ≤ 57 then
      some { spec with bare := false, precision := some (10 * p + (c.toNat - 48)) }
    else none
  | none =>
    if c = 46 then some { spec with bare := false, precision := some 0 }
    else if spec.width = 0 ∧ c = 45 then some { spec with bare := false, left := true }
    else if spec.width = 0 ∧ (c = 43 ∨ c = 32) then some { spec with bare := false }
    else if 48 ≤ c ∧ c ≤ 57 ∧ (spec.width = 0 → c ≠ 48) then
      some { spec with bare := false, width := 10 * spec.width + (c.toNat - 48) }
    else none

/-- The text of an argument of `%s`. -/
def text (spec : Spec) (s : List UInt8) : List UInt8 :=
  let s := match spec.precision with
    | some p => s.take p
    | none => s
  let blanks := List.replicate (spec.width - s.length) 32
  if spec.left then s ++ blanks else blanks ++ s

end Spec

/-- `vsprintf` behind a `%` (`some spec`) or in plain text (`none`): what it
writes, and whether it has taken an argument. -/
def expand : Option Spec → List UInt8 → List CStr → Except Fault (List UInt8 × Bool)
  | none, [], _ => .ok ([], false)
  | some _, [], _ => .error .conversion
  | none, c :: fmt, args =>
    if c = 37 then expand (some .start) fmt args
    else do
      let (out, taken) ← expand none fmt args
      pure (c :: out, taken)
  | some spec, c :: fmt, args =>
    if c = 37 ∧ spec.bare then do
      let (out, taken) ← expand none fmt args
      pure (37 :: out, taken)
    else if c = 115 then
      match args with
      | [] => .error .noArgument
      | para :: args => do
        let (out, _) ← expand none fmt args
        pure (spec.text para.bytes ++ out, true)
    else
      match spec.next c with
      | some spec => expand (some spec) fmt args
      | none => .error .conversion

/-- `vsprintf(&dest[i], fmt, args)`: the text and a NUL. -/
def vsprintf (d : Dest) (fmt : CStr) (va : VaList CStr) :
    Except Fault (List UInt8 × VaList CStr) := do
  -- from an indeterminate list nothing can be taken
  let (out, taken) ← expand none fmt.bytes (va.getD [])
  let dest ← store d.dest d.i (out ++ [0])
  pure (dest, if taken then none else va)

-- ---------------------------------------------------------------------------
-- The functions of dueros_handle.c
-- ---------------------------------------------------------------------------

def directUrlBufsize : ℕ := 1024

def directButtonBufsize : ℕ := 64

/-- A back-quote. -/
def delimiter : UInt8 := 96

/-- A newline. -/
def terminator : UInt8 := 10

inductive InstructionType where
  | button
  | url
  deriving DecidableEq, Repr

/-- The value of the enumeration's constants. -/
def InstructionType.toInt : InstructionType → Int32
  | .button => 0
  | .url => 1

/-- What the three functions do first: the zeroed block, the type and a delimiter. -/
def start (endian : Endian) (size : ℕ) (type : InstructionType) : Except Fault Dest := do
  let d ← (Dest.zeroed size).copy (intBytes endian type.toInt)
  d.push delimiter

/-- `memcpy(&dest[i], &para, sizeof(int)); i += sizeof(int); dest[i++] = DELIMITER;` -/
def putInt (endian : Endian) (d : Dest) (para : Int32) : Except Fault Dest := do
  let d ← d.copy (intBytes endian para)
  d.push delimiter

def buttonLoop (endian : Endian) : ℕ → VaList Int32 → Dest → Except Fault Dest
  | 0, _, d => .ok d
  | k + 1, va, d => do
    let (para, va) ← vaArg va
    let d ← putInt endian d para
    buttonLoop endian k va d

/-- `format_duer_button_data`: `okMalloc` and `okCalloc` are whether the two
allocations return a block. -/
def formatDuerButtonData (endian : Endian) (okMalloc okCalloc : Bool) (sum : Int) (src : Int32)
    (args : List Int32) : Except Fault (Option BufInf) :=
  if okMalloc then do
    let d ← start endian directButtonBufsize .button
    let d ← putInt endian d src
    let d ← buttonLoop endian (sum - 1).toNat (some args) d
    let d ← d.patch terminator
    if okCalloc then pure (some ⟨d.dest, d.i⟩) else pure none
  else .ok none

/-- `vsprintf(&dest[i], para, args); i += strlen(para); dest[i++] = DELIMITER;` -/
def putString (d : Dest) (para : CStr) (va : VaList CStr) : Except Fault (Dest × VaList CStr) := do
  let (dest, va) ← vsprintf d para va
  -- the index moves by the length of the format, not by what was written
  let d ← Dest.push ⟨dest, d.i + para.bytes.length⟩ delimiter
  pure (d, va)

def stringLoop : ℕ → VaList CStr → Dest → Except Fault Dest
  | 0, _, d => .ok d
  | k + 1, va, d => do
    let (para, va) ← vaArg va
    let (d, va) ← putString d para va
    stringLoop k va d

/-- The stores through the result of `calloc`, which two of the functions do not check. -/
def newBufInf (okCalloc : Bool) (d : Dest) : Except Fault (Option BufInf) :=
  if okCalloc then .ok (some ⟨d.dest, d.i⟩) else .error .nullPointer

/-- `format_duer_string_data`. -/
def formatDuerStringData (endian : Endian) (okMalloc okCalloc : Bool) (sum : Int) (src : CStr)
    (args : List CStr) : Except Fault (Option BufInf) :=
  if okMalloc then do
    let d ← start endian directUrlBufsize .url
    let (d, va) ← putString d src (some args)
    let d ← stringLoop (sum - 1).toNat va d
    let d ← d.patch terminator
    newBufInf okCalloc d
  else .ok none

/-- `format_duer_binary_data`. -/
def formatDuerBinaryData (endian : Endian) (okMalloc okCalloc : Bool) (data : List UInt8)
    (len : ℕ) : Except Fault (Option BufInf) :=
  if okMalloc then do
    let d ← start endian directUrlBufsize .url
    let bytes ← load data len
    let d ← d.copy bytes
    let d ← d.push terminator
    newBufInf okCalloc d
  else .ok none

end Uartd.Dueros
