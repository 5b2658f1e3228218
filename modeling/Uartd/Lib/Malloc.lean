import Uartd.Lib.Stdio
import Mathlib.Logic.Function.Basic

/-!
# Allocated memory

Blocks by their address. A byte of a block that was never written is `none`, and
reading it is a fault, as is the use of an address at which nothing is allocated.
What an allocation returns is given: an address, or `none` for NULL.
-/

namespace Uartd.Lib

/-- A block; `none` is a byte that was never written. -/
abbrev Block := List (Option UInt8)

/-- The blocks that are allocated. -/
abbrev Memory := ℕ → Option Block

variable {m : Memory} {a n : ℕ}

def malloc (m : Memory) (n : ℕ) : Option ℕ → Memory × Option ℕ
  | none => (m, none)
  | some a => (Function.update m a (some (List.replicate n none)), some a)

/-- `realloc(p, n)`. The block may stay where it is or move; if there is no memory
it is left as it was. -/
def realloc (m : Memory) (p : Option ℕ) (n : ℕ) (outcome : Option ℕ) : Option (Memory × Option ℕ) :=
  match p with
  | none => some (malloc m n outcome)
  | some a => do
    let block ← m a
    match outcome with
    | none => pure (m, none)
    | some b =>
      let block := block.take n ++ List.replicate (n - block.length) none
      pure (Function.update (Function.update m a none) b (some block), some b)

def free (m : Memory) : Option ℕ → Option Memory
  | none => some m
  | some a => (m a).map fun _ => Function.update m a none

/-- `bytes` written to `&p[i]`. -/
def writeBytes (m : Memory) (p : Option ℕ) (i : ℕ) (bytes : List UInt8) : Option Memory := do
  let a ← p
  let block ← m a
  let block ← store block i (bytes.map some)
  pure (Function.update m a (some block))

/-- The string a block begins with, read byte by byte. -/
def readString : Block → Option (List UInt8)
  | some c :: block => if c = 0 then some [] else (readString block).map (c :: ·)
  | _ => none

/-- A grown block keeps what it held. -/
theorem realloc_grow {block : Block} (h : m a = some block) (hn : block.length ≤ n) (b : ℕ) :
    realloc m (some a) n (some b) = some (Function.update (Function.update m a none) b
      (some (block ++ List.replicate (n - block.length) none)), some b) := by
  simp only [realloc, h, Option.bind_eq_bind, Option.bind_some, List.take_of_length_le hn]
  rfl

theorem writeBytes_append {done rest : Block} (h : m a = some (done ++ rest)) {bytes : List UInt8}
    (hlen : bytes.length ≤ rest.length) :
    writeBytes m (some a) done.length bytes =
      some (Function.update m a (some (done ++ bytes.map some ++ rest.drop bytes.length))) := by
  have hroom : (bytes.map some).length ≤ rest.length := by rwa [List.length_map]
  have hstore := store_append done (bytes.map some) hroom
  rw [List.length_map] at hstore
  simp only [writeBytes, h, Option.bind_eq_bind, Option.bind_some, hstore]
  rfl

/-- Written bytes with a NUL behind them are read up to the first NUL. -/
theorem readString_terminated (text : List UInt8) (rest : Block) :
    readString (text.map some ++ some 0 :: rest) = some (text.takeWhile (· ≠ 0)) := by
  induction text with
  | nil => rfl
  | cons c text ih =>
    rw [List.map_cons, List.cons_append, readString, ih]
    by_cases hc : c = 0
    · simp [hc]
    · simp [hc]

end Uartd.Lib
