import Uartd.Lib.CString

/-!
# Buffers and streams of the C library

`snprintf` of a text into a block, and `fgets` from a stream. A store outside a
block is a fault (`none`).

`fgets(buf, n, f)` with `n >= 2` reads up to `n - 1` bytes and stops after a
newline; it returns NULL and sets end-of-file when nothing is left. With `n == 1`
it reads nothing and returns an empty string. End-of-file is set only by a read
that hits the end.

* `lineChunk` — what one read of a text delivers;
* `fgets_chunk`, `fgets_end` — a call before the end of the text and at it;
* `snprintf_append` — a text that fits behind what a block holds already.
-/

namespace Uartd.Lib

/-- A newline. -/
def newline : UInt8 := 10

/-- `bytes` written to `&block[i]`. -/
def store {α : Type*} (block : List α) (i : ℕ) (bytes : List α) : Option (List α) :=
  if i + bytes.length ≤ block.length then
    some (block.take i ++ bytes ++ block.drop (i + bytes.length))
  else none

/-- `snprintf(&block[i], size, …)` where `text` is what is printed: the block and
the result. -/
def snprintf (block : List UInt8) (i size : ℕ) (text : List UInt8) : Option (List UInt8 × ℕ) :=
  if size = 0 then some (block, text.length)
  else (store block i (text.take (size - 1) ++ [0])).map fun block => (block, text.length)

theorem store_length {α : Type*} {block bytes block' : List α} {i : ℕ}
    (h : store block i bytes = some block') : block'.length = block.length := by
  unfold store at h
  split at h
  · rename_i hle
    rw [← Option.some.inj h]
    simp only [List.length_append, List.length_take, List.length_drop]
    omega
  · simp at h

/-- Consecutive stores: behind `done`, and with it. -/
theorem store_append {α : Type*} (done bytes : List α) {rest : List α}
    (h : bytes.length ≤ rest.length) :
    store (done ++ rest) done.length bytes =
      some (done ++ bytes ++ rest.drop bytes.length) := by
  have hle : done.length + bytes.length ≤ (done ++ rest).length := by
    rw [List.length_append]
    omega
  rw [store, if_pos hle, List.take_left, List.drop_append]
  simp

/-- A string stored at the start of a block. -/
theorem store_string {text block : List UInt8} (h : text.length < block.length) :
    store block 0 (text ++ [0]) = some (text ++ 0 :: block.drop (text.length + 1)) := by
  have hlen : (text ++ [0]).length = text.length + 1 := by simp
  have happend := store_append [] (text ++ [0]) (show (text ++ [0]).length ≤ block.length by omega)
  rw [hlen, List.nil_append, List.nil_append, List.append_assoc] at happend
  exact happend

/-- A text that fits is written with a NUL behind it. -/
theorem snprintf_append (done : List UInt8) {text rest : List UInt8} {size : ℕ}
    (hsize : text.length < size) (hroom : size ≤ rest.length) :
    snprintf (done ++ rest) done.length size text =
      some (done ++ (text ++ [0]) ++ rest.drop (text.length + 1), text.length) := by
  have hne : size ≠ 0 := by omega
  have htake : text.take (size - 1) = text := List.take_of_length_le (by omega)
  have hlen : (text ++ [0]).length = text.length + 1 := by simp
  rw [snprintf, if_neg hne, htake, store_append _ _ (by omega), hlen, Option.map_some]

/-- At the start of a block. -/
theorem snprintf_start {text block : List UInt8} {size : ℕ} (hsize : text.length < size)
    (hroom : size ≤ block.length) :
    snprintf block 0 size text =
      some (text ++ 0 :: block.drop (text.length + 1), text.length) := by
  have happend := snprintf_append [] hsize hroom
  rw [List.nil_append, List.nil_append, List.append_assoc] at happend
  exact happend

-- ---------------------------------------------------------------------------
-- Streams
-- ---------------------------------------------------------------------------

/-- What is left of a file, and its end-of-file indicator. -/
structure Stream where
  rest : List UInt8
  eof  : Bool
  deriving DecidableEq, Repr

/-- Up to `k` bytes, not past the first newline. -/
def lineChunk : ℕ → List UInt8 → List UInt8
  | 0, _ => []
  | _, [] => []
  | k + 1, c :: s => if c = newline then [c] else c :: lineChunk k s

/-- `fgets(buf, n, f)` for `n > 0`: the string it stores, `none` for NULL. -/
def fgets (n : ℕ) (f : Stream) : Option (List UInt8) × Stream :=
  if n = 1 then (some [], f)
  else
    let line := lineChunk (n - 1) f.rest
    if line = [] then (none, { f with eof := true })
    else (some line,
      { rest := f.rest.drop line.length
        eof := f.eof || (line.length < n - 1 && line.getLast? ≠ some newline) })

theorem lineChunk_prefix_self (k : ℕ) (s : List UInt8) : lineChunk k s <+: s := by
  induction k generalizing s with
  | zero => exact List.nil_prefix
  | succ k ih =>
    cases s with
    | nil => exact List.nil_prefix
    | cons c s =>
      unfold lineChunk
      split
      · exact ⟨s, rfl⟩
      · exact (List.cons_prefix_cons).mpr ⟨rfl, ih s⟩

theorem lineChunk_append_drop (k : ℕ) (s : List UInt8) :
    lineChunk k s ++ s.drop (lineChunk k s).length = s :=
  (List.prefix_iff_eq_append.mp (lineChunk_prefix_self k s))

theorem lineChunk_length_le (k : ℕ) (s : List UInt8) : (lineChunk k s).length ≤ k := by
  induction k generalizing s with
  | zero => exact Nat.le_refl 0
  | succ k ih =>
    cases s with
    | nil => exact Nat.zero_le _
    | cons c s =>
      unfold lineChunk
      split
      · simp
      · exact Nat.succ_le_succ (ih s)

theorem lineChunk_eq_nil_iff {k : ℕ} (hk : 0 < k) {s : List UInt8} :
    lineChunk k s = [] ↔ s = [] := by
  obtain ⟨k, rfl⟩ := Nat.exists_eq_succ_of_ne_zero (Nat.ne_of_gt hk)
  cases s with
  | nil => simp [lineChunk]
  | cons c s =>
    unfold lineChunk
    split <;> simp

/-- A read that neither stops at a newline nor fills the buffer reaches the end. -/
theorem lineChunk_short {k : ℕ} {s : List UInt8} (hlen : (lineChunk k s).length < k)
    (hlast : (lineChunk k s).getLast? ≠ some newline) : lineChunk k s = s := by
  induction k generalizing s with
  | zero => simp at hlen
  | succ k ih =>
    cases s with
    | nil => rfl
    | cons c s =>
      by_cases hc : c = newline
      · simp [lineChunk, hc] at hlast
      · simp only [lineChunk, hc, if_false, List.length_cons] at hlen hlast ⊢
        have hlen' : (lineChunk k s).length < k := by omega
        congr 1
        refine ih hlen' fun hl => hlast ?_
        cases hs : lineChunk k s with
        | nil => simp [hs] at hl
        | cons d t => rw [hs] at hl; rw [List.getLast?_cons_cons]; exact hl

/-- `fgets` with room for at least one byte: at the end it returns NULL. -/
theorem fgets_end {n : ℕ} (hn : n ≠ 1) (b : Bool) : fgets n ⟨[], b⟩ = (none, ⟨[], true⟩) := by
  have hnil : lineChunk (n - 1) [] = [] := by cases n - 1 <;> rfl
  simp [fgets, hn, hnil]

/-- Before the end it delivers a chunk; the indicator is set if the chunk is all
that was left, and neither ends a line nor fills the buffer. -/
theorem fgets_chunk {n : ℕ} (hn : 2 ≤ n) {s : List UInt8} (hs : s ≠ []) (b : Bool) :
    fgets n ⟨s, b⟩ = (some (lineChunk (n - 1) s),
      ⟨s.drop (lineChunk (n - 1) s).length, b || ((lineChunk (n - 1) s).length < n - 1 &&
        (lineChunk (n - 1) s).getLast? ≠ some newline)⟩) := by
  have hne : lineChunk (n - 1) s ≠ [] := by
    rw [Ne, lineChunk_eq_nil_iff (by omega)]
    exact hs
  rw [fgets, if_neg (show n ≠ 1 by omega)]
  simp only [hne, if_false]

end Uartd.Lib
