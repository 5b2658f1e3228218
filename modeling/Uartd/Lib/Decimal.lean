import Mathlib.Data.Nat.Digits.Lemmas

/-!
# `int` values and decimal numbers in texts

`checkInt` is the result of an operation on `int`. What `printf` writes for one:
`%d`, with a minimal width and blanks before it (`%4d`), or with zeros between the
sign and the digits (`%02d`).

Numbers that are printed without a separator can be read back if each has a known
width. `readFields_append` is this for a row of fields, with any text behind it:
a field `(w, n)` printed with `%0wd` is `w` bytes long as long as `n < 10 ^ w`.
-/

namespace Uartd.Lib

/-- A result of type `int`; an overflow is a fault. -/
def checkInt (x : Int) : Option Int :=
  if -2147483648 ≤ x ∧ x ≤ 2147483647 then some x else none

def digit (d : ℕ) : UInt8 := UInt8.ofNat (48 + d)

def isDigit (c : UInt8) : Bool := 48 ≤ c.toNat && c.toNat ≤ 57

/-- The digits of a number, the highest first. -/
def decimal (n : ℕ) : List UInt8 :=
  if n = 0 then [digit 0] else (Nat.digits 10 n).reverse.map digit

/-- `%d`. -/
def formatInt (x : Int) : List UInt8 :=
  -- a minus sign
  if x < 0 then 45 :: decimal x.natAbs else decimal x.natAbs

/-- `%wd`: blanks up to the width. -/
def formatBlank (w : ℕ) (x : Int) : List UInt8 :=
  List.replicate (w - (formatInt x).length) 32 ++ formatInt x

/-- `%0wd`: zeros up to the width, behind the sign. -/
def formatZero (w : ℕ) (x : Int) : List UInt8 :=
  let sign : List UInt8 := if x < 0 then [45] else []
  let digits := decimal x.natAbs
  sign ++ List.replicate (w - (sign ++ digits).length) 48 ++ digits

/-- The value of digits, the highest first. -/
def digitsValue (s : List UInt8) : ℕ := s.foldl (fun n c => 10 * n + (c.toNat - 48)) 0

/-- The number a text consists of. -/
def readDecimal (s : List UInt8) : Option ℕ :=
  if s ≠ [] ∧ s.all isDigit then some (digitsValue s) else none

-- ---------------------------------------------------------------------------
-- Digits
-- ---------------------------------------------------------------------------

theorem toNat_digit {d : ℕ} (h : d < 10) : (digit d).toNat = 48 + d := by
  rw [digit, UInt8.toNat_ofNat']
  omega

theorem isDigit_digit {d : ℕ} (h : d < 10) : isDigit (digit d) = true := by
  rw [isDigit, toNat_digit h, Bool.and_eq_true, decide_eq_true_eq, decide_eq_true_eq]
  omega

theorem digits_lt_ten (n : ℕ) : ∀ d ∈ Nat.digits 10 n, d < 10 :=
  fun _ hd => Nat.digits_lt_base (by omega) hd

theorem all_isDigit_decimal (n : ℕ) : (decimal n).all isDigit = true := by
  rw [List.all_eq_true]
  intro c hc
  unfold decimal at hc
  split at hc
  · rw [List.mem_singleton.mp hc]
    exact isDigit_digit (by omega)
  · obtain ⟨d, hd, rfl⟩ := List.mem_map.mp hc
    exact isDigit_digit (digits_lt_ten n d (List.mem_reverse.mp hd))

theorem not_mem_of_isDigit {s : List UInt8} (h : s.all isDigit = true) {c : UInt8}
    (hc : isDigit c = false) : c ∉ s := by
  intro hmem
  rw [List.all_eq_true] at h
  exact absurd (h c hmem) (by rw [hc]; exact Bool.false_ne_true)

theorem decimal_length_pos (n : ℕ) : 0 < (decimal n).length := by
  unfold decimal
  split
  · exact Nat.one_pos
  · rename_i hn
    rw [List.length_map, List.length_reverse]
    exact List.length_pos_of_ne_nil (Nat.digits_ne_nil_iff_ne_zero.mpr hn)

theorem decimal_length_le {n k : ℕ} (hk : 0 < k) (h : n < 10 ^ k) : (decimal n).length ≤ k := by
  unfold decimal
  split
  · exact hk
  · rw [List.length_map, List.length_reverse]
    exact (Nat.digits_length_le_iff (by omega) n).mpr h

theorem lt_decimal_length {n k : ℕ} (h : 10 ^ k ≤ n) : k < (decimal n).length := by
  have hn : n ≠ 0 := Nat.ne_of_gt (Nat.lt_of_lt_of_le (Nat.pow_pos (by omega)) h)
  rw [decimal, if_neg hn, List.length_map, List.length_reverse]
  exact (Nat.lt_digits_length_iff (by omega) n).mpr h

theorem digitsValue_append (s : List UInt8) (c : UInt8) :
    digitsValue (s ++ [c]) = 10 * digitsValue s + (c.toNat - 48) := by
  rw [digitsValue, List.foldl_append]
  rfl

theorem digitsValue_map_digit {ds : List ℕ} (h : ∀ d ∈ ds, d < 10) :
    digitsValue (ds.reverse.map digit) = Nat.ofDigits 10 ds := by
  induction ds with
  | nil => rfl
  | cons d ds ih =>
    rw [List.forall_mem_cons] at h
    rw [List.reverse_cons, List.map_append, List.map_singleton, digitsValue_append, ih h.2,
      toNat_digit h.1, Nat.ofDigits_cons]
    omega

theorem digitsValue_decimal (n : ℕ) : digitsValue (decimal n) = n := by
  unfold decimal
  split
  · rename_i hn
    rw [hn]
    rfl
  · rw [digitsValue_map_digit (digits_lt_ten n), Nat.ofDigits_digits]

/-- Zeros in front do not change the value. -/
theorem digitsValue_zeros (k : ℕ) (s : List UInt8) :
    digitsValue (List.replicate k 48 ++ s) = digitsValue s := by
  induction k with
  | zero => rfl
  | succ k ih =>
    rw [List.replicate_succ, List.cons_append]
    exact ih

/-- Digits with zeros in front are read back. -/
theorem readDecimal_zeros (k n : ℕ) :
    readDecimal (List.replicate k 48 ++ decimal n) = some n := by
  have hne : List.replicate k 48 ++ decimal n ≠ [] :=
    List.append_ne_nil_of_right_ne_nil _ (List.ne_nil_of_length_pos (decimal_length_pos n))
  have hall : (List.replicate k 48 ++ decimal n).all isDigit = true := by
    rw [List.all_append, all_isDigit_decimal, Bool.and_true, List.all_replicate]
    simp [isDigit]
  rw [readDecimal, if_pos ⟨hne, hall⟩, digitsValue_zeros, digitsValue_decimal]

-- ---------------------------------------------------------------------------
-- Formats
-- ---------------------------------------------------------------------------

theorem formatInt_natCast (n : ℕ) : formatInt n = decimal n := by
  rw [formatInt, if_neg (by omega), Int.natAbs_natCast]

/-- A number that reaches the width has no blanks before it. -/
theorem formatBlank_natCast {w n : ℕ} (h : w ≤ (decimal n).length) :
    formatBlank w n = decimal n := by
  rw [formatBlank, formatInt_natCast, Nat.sub_eq_zero_of_le h]
  rfl

theorem formatZero_natCast (w n : ℕ) :
    formatZero w n = List.replicate (w - (decimal n).length) 48 ++ decimal n := by
  have hn : ¬ (n : Int) < 0 := by omega
  simp only [formatZero, hn, if_false, List.nil_append, Int.natAbs_natCast]

/-- A width of one asks for no zeros. -/
theorem formatZero_one (n : ℕ) : formatZero 1 n = formatInt n := by
  rw [formatZero_natCast, formatInt_natCast, Nat.sub_eq_zero_of_le (decimal_length_pos n)]
  rfl

theorem formatZero_length {w n : ℕ} (hw : 0 < w) (h : n < 10 ^ w) :
    (formatZero w n).length = w := by
  have hle := decimal_length_le hw h
  rw [formatZero_natCast, List.length_append, List.length_replicate]
  omega

theorem readDecimal_formatZero (w n : ℕ) : readDecimal (formatZero w n) = some n := by
  rw [formatZero_natCast]
  exact readDecimal_zeros _ n

theorem all_isDigit_formatZero (w n : ℕ) : (formatZero w n).all isDigit = true := by
  rw [formatZero_natCast, List.all_append, all_isDigit_decimal, Bool.and_true, List.all_replicate]
  simp [isDigit]

-- ---------------------------------------------------------------------------
-- Fields of known widths
-- ---------------------------------------------------------------------------

/-- Numbers of the widths `ws` off the front of a text. -/
def readFields : List ℕ → List UInt8 → Option (List ℕ × List UInt8)
  | [], s => some ([], s)
  | w :: ws, s => do
    let n ← readDecimal (s.take w)
    let (ns, rest) ← readFields ws (s.drop w)
    pure (n :: ns, rest)

/-- The fields `(w, n)` one after the other, each printed with `%0wd`. -/
def formatFields (fields : List (ℕ × ℕ)) : List UInt8 :=
  fields.flatMap fun (w, n) => formatZero w n

variable {fields : List (ℕ × ℕ)}

theorem formatFields_length (h : ∀ f ∈ fields, 0 < f.1 ∧ f.2 < 10 ^ f.1) :
    (formatFields fields).length = (fields.map Prod.fst).sum := by
  induction fields with
  | nil => rfl
  | cons f fields ih =>
    rw [List.forall_mem_cons] at h
    rw [formatFields, List.flatMap_cons, List.length_append, formatZero_length h.1.1 h.1.2,
      List.map_cons, List.sum_cons]
    exact congrArg (f.1 + ·) (ih h.2)

theorem all_isDigit_formatFields (fields : List (ℕ × ℕ)) :
    (formatFields fields).all isDigit = true := by
  induction fields with
  | nil => rfl
  | cons f fields ih =>
    rw [formatFields, List.flatMap_cons, List.all_append, all_isDigit_formatZero, Bool.true_and]
    exact ih

/-- **Fields that fit their widths are read back**, and the rest is left. -/
theorem readFields_append (h : ∀ f ∈ fields, 0 < f.1 ∧ f.2 < 10 ^ f.1) (rest : List UInt8) :
    readFields (fields.map Prod.fst) (formatFields fields ++ rest) =
      some (fields.map Prod.snd, rest) := by
  induction fields with
  | nil => rfl
  | cons f fields ih =>
    rw [List.forall_mem_cons] at h
    have hlen := formatZero_length h.1.1 h.1.2
    rw [formatFields, List.flatMap_cons, List.append_assoc, List.map_cons, readFields,
      List.take_left' hlen, List.drop_left' hlen, readDecimal_formatZero, Option.bind_eq_bind,
      Option.bind_some]
    show (readFields (fields.map Prod.fst) (formatFields fields ++ rest)).bind _ = _
    rw [ih h.2]
    rfl

end Uartd.Lib
