import Uartd.Lib.Decimal

/-!
# Texts that sort as numbers do

Texts in the order of their bytes. Digits of one length are in the order of their
values, and so are rows of fields of fixed widths with fixed texts between them:
`formatRow_lt_iff`.
-/

namespace Uartd.Lib

/-- Beginnings of one length decide first. -/
theorem append_lt_append_iff {α : Type*} [LT α] {a b s t : List α} (h : a.length = b.length) :
    a ++ s < b ++ t ↔ a < b ∨ a = b ∧ s < t := by
  induction a generalizing b with
  | nil =>
    obtain rfl := List.length_eq_zero_iff.mp h.symm
    simp
  | cons x a ih =>
    obtain ⟨y, b, rfl⟩ := List.exists_cons_of_length_eq_add_one h.symm
    rw [List.cons_append, List.cons_append, List.cons_lt_cons_iff, List.cons_lt_cons_iff,
      ih (Nat.succ.inj h), List.cons.injEq]
    tauto

variable {s t : List UInt8}

theorem digitsValue_cons (c : UInt8) (s : List UInt8) :
    digitsValue (c :: s) = (c.toNat - 48) * 10 ^ s.length + digitsValue s := by
  induction s using List.reverseRecOn with
  | nil => simp [digitsValue]
  | append_singleton s d ih =>
    rw [← List.cons_append, digitsValue_append, digitsValue_append, ih, List.length_append,
      List.length_singleton, Nat.pow_succ]
    ring

theorem digitsValue_lt (h : s.all isDigit = true) : digitsValue s < 10 ^ s.length := by
  induction s with
  | nil => exact Nat.one_pos
  | cons c s ih =>
    rw [List.all_cons, Bool.and_eq_true] at h
    have hc : c.toNat ≤ 57 := by
      have hdigit := h.1
      rw [isDigit, Bool.and_eq_true, decide_eq_true_eq, decide_eq_true_eq] at hdigit
      exact hdigit.2
    have hs := ih h.2
    have hle : (c.toNat - 48) * 10 ^ s.length ≤ 9 * 10 ^ s.length :=
      Nat.mul_le_mul_right _ (by omega)
    rw [digitsValue_cons, List.length_cons, Nat.pow_succ]
    omega

/-- Digits of one length. -/
theorem digits_lt_iff (hs : s.all isDigit = true) (ht : t.all isDigit = true)
    (hlen : s.length = t.length) : s < t ↔ digitsValue s < digitsValue t := by
  induction s generalizing t with
  | nil =>
    obtain rfl := List.length_eq_zero_iff.mp hlen.symm
    simp
  | cons c s ih =>
    obtain ⟨d, t, rfl⟩ := List.exists_cons_of_length_eq_add_one hlen.symm
    rw [List.all_cons, Bool.and_eq_true] at hs ht
    replace hlen : s.length = t.length := Nat.succ.inj hlen
    have hvs := digitsValue_lt hs.2
    have hvt := digitsValue_lt ht.2
    rw [← hlen] at hvt
    rw [List.cons_lt_cons_iff, ih hs.2 ht.2 hlen, digitsValue_cons, digitsValue_cons, ← hlen]
    have hc := hs.1
    have hd := ht.1
    rw [isDigit, Bool.and_eq_true, decide_eq_true_eq, decide_eq_true_eq] at hc hd
    rcases Nat.lt_trichotomy c.toNat d.toNat with hlt | heq | hgt
    · have hle : (c.toNat - 48 + 1) * 10 ^ s.length ≤ (d.toNat - 48) * 10 ^ s.length := by
        exact Nat.mul_le_mul_right _ (by omega)
      rw [Nat.add_mul, Nat.one_mul] at hle
      exact ⟨fun _ => by omega, fun _ => .inl (UInt8.lt_iff_toNat_lt.mpr hlt)⟩
    · obtain rfl := UInt8.toNat_inj.mp heq
      simp
    · have hle : (d.toNat - 48 + 1) * 10 ^ s.length ≤ (c.toNat - 48) * 10 ^ s.length := by
        exact Nat.mul_le_mul_right _ (by omega)
      rw [Nat.add_mul, Nat.one_mul] at hle
      have hnot : ¬ (c < d ∨ c = d ∧ digitsValue s < digitsValue t) := by
        rintro (hlt | ⟨rfl, -⟩)
        · exact Nat.lt_asymm (UInt8.lt_iff_toNat_lt.mp hlt) hgt
        · exact Nat.lt_irrefl _ hgt
      exact ⟨fun h => absurd h hnot, fun h => by omega⟩

variable {w n m : ℕ}

theorem formatZero_lt_iff (hw : 0 < w) (hn : n < 10 ^ w) (hm : m < 10 ^ w) :
    formatZero w n < formatZero w m ↔ n < m := by
  have hvalue : ∀ n : ℕ, digitsValue (formatZero w n) = n := fun n => by
    rw [formatZero_natCast, digitsValue_zeros, digitsValue_decimal]
  rw [digits_lt_iff (all_isDigit_formatZero w n) (all_isDigit_formatZero w m)
    ((formatZero_length hw hn).trans (formatZero_length hw hm).symm), hvalue, hvalue]

theorem formatZero_inj : formatZero w n = formatZero w m ↔ n = m := by
  refine ⟨fun h => ?_, fun h => by rw [h]⟩
  have hread := readDecimal_formatZero w n
  rw [h, readDecimal_formatZero] at hread
  exact (Option.some.inj hread).symm

/-- Numbers in fields of fixed widths, with a text before each. -/
def formatRow : List (List UInt8 × ℕ) → List ℕ → List UInt8
  | (text, w) :: row, n :: ns => text ++ formatZero w n ++ formatRow row ns
  | _, _ => []

/-- The numbers fit in the fields of a row. -/
def FitsRow : List (List UInt8 × ℕ) → List ℕ → Prop :=
  List.Forall₂ fun field n => 0 < field.2 ∧ n < 10 ^ field.2

variable {row : List (List UInt8 × ℕ)} {ns ms : List ℕ}

/-- **Rows sort as their numbers.** -/
theorem formatRow_lt_iff (hns : FitsRow row ns) (hms : FitsRow row ms) :
    formatRow row ns < formatRow row ms ↔ ns < ms := by
  induction hns generalizing ms with
  | nil =>
    cases hms
    simp
  | cons hn _ ih =>
    cases hms with
    | cons hm hms =>
      have hlen := (formatZero_length hn.1 hn.2).trans (formatZero_length hm.1 hm.2).symm
      rw [formatRow, formatRow, List.append_assoc, List.append_assoc, append_lt_append_iff rfl,
        append_lt_append_iff hlen, formatZero_lt_iff hn.1 hn.2 hm.2, formatZero_inj, ih hms,
        List.cons_lt_cons_iff]
      simp only [List.lt_irrefl, false_or, true_and]

theorem formatRow_length (hns : FitsRow row ns) :
    (formatRow row ns).length = (row.map fun field => field.1.length + field.2).sum := by
  induction hns with
  | nil => rfl
  | cons hn _ ih =>
    rw [formatRow, List.length_append, List.length_append, formatZero_length hn.1 hn.2, ih,
      List.map_cons, List.sum_cons]

/-- A byte that is no digit and in none of the texts. -/
theorem notMem_formatRow {c : UInt8} (hc : isDigit c = false) (hrow : ∀ field ∈ row, c ∉ field.1)
    (ns : List ℕ) : c ∉ formatRow row ns := by
  induction row generalizing ns with
  | nil => exact List.not_mem_nil
  | cons field row ih =>
    cases ns with
    | nil => exact List.not_mem_nil
    | cons n ns =>
      rw [List.forall_mem_cons] at hrow
      rw [formatRow, List.mem_append, List.mem_append]
      rintro ((htext | hdigits) | hrest)
      · exact hrow.1 htext
      · exact not_mem_of_isDigit (all_isDigit_formatZero _ n) hc hdigits
      · exact ih hrow.2 ns hrest

end Uartd.Lib
