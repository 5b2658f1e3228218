import Mathlib.Data.List.Basic

/-!
# Rows of a fixed width

A list laid out in rows of `w` elements: the element at index `x` stands in row
`x / w`, column `x % w`.

* `flatMap_row` — the rows, one behind the other, are the list;
* `row_getElem?`, `marks_getElem?` — the element in a column of a row, and
  whether it is the one at a given index;
* `place_iff` — the place of an index.
-/

namespace Uartd.Lib

variable {α : Type*}

/-- Row `r` of a list. -/
def row (w : ℕ) (xs : List α) (r : ℕ) : List α := (xs.drop (w * r)).take w

/-- Row `r` of the indices, with a mark at index `x`. -/
def marks (w x r : ℕ) : List Bool := (List.range' (w * r) w).map (· == x)

theorem flatMap_row (w : ℕ) (xs : List α) (m : ℕ) :
    (List.range m).flatMap (row w xs) = xs.take (w * m) := by
  induction m with
  | zero => simp
  | succ m ih =>
    rw [List.range_succ, List.flatMap_append, ih, List.flatMap_singleton, row, ← List.take_add,
      Nat.mul_succ]

theorem row_getElem? {w : ℕ} (xs : List α) (r : ℕ) {c : ℕ} (hc : c < w) :
    (row w xs r)[c]? = xs[w * r + c]? := by
  rw [row, List.getElem?_take_of_lt hc, List.getElem?_drop]

theorem marks_getElem? (w x r c : ℕ) :
    (marks w x r)[c]? = some true ↔ c < w ∧ w * r + c = x := by
  rw [marks, List.getElem?_map]
  rcases Nat.lt_or_ge c w with hc | hc
  · rw [List.getElem?_range' hc]
    simp [hc]
  · have hnot : ¬ c < w := by omega
    rw [List.getElem?_eq_none (by simpa using hc)]
    simp [hnot]

theorem place_iff {w : ℕ} (hw : 0 < w) (x r c : ℕ) :
    c < w ∧ w * r + c = x ↔ r = x / w ∧ c = x % w := by
  constructor
  · rintro ⟨hc, rfl⟩
    exact ⟨by rw [Nat.mul_add_div hw, Nat.div_eq_of_lt hc, Nat.add_zero],
      by rw [Nat.mul_add_mod, Nat.mod_eq_of_lt hc]⟩
  · rintro ⟨rfl, rfl⟩
    exact ⟨Nat.mod_lt x hw, Nat.div_add_mod x w⟩

end Uartd.Lib
