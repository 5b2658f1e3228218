import Mathlib.Data.List.Nodup
import Mathlib.Logic.Function.Basic

/-!
# Singly linked segments of a heap

A heap is a partial map from addresses to cells; `next` is the pointer field
of a cell and `val` what the cell carries. `Seg next val heap p xs r` says
that from the pointer `p` the `next` fields lead through exactly the cells
`xs` (address and value, in order) to the pointer `r`. The end pointer is
arbitrary: `none` gives a NULL-terminated list, the address of the last cell a
list whose last cell points to itself.

* `Seg.congr_heap`, `Seg.frame` — writes outside the segment do not change it;
* `Seg.snoc` — linking a cell behind the last one;
* `Seg.lookup` — every cell of a segment is allocated and carries its value;
* `Seg.functional` — a heap determines the cells of a segment of a given length;
* `follow` — the addresses met by following `next` a given number of times.
-/

namespace Uartd.Lib

variable {ι C D : Type*}

/-- From `p`, the `next` fields lead through the cells `xs` to `r`. -/
def Seg (next : C → Option ι) (val : C → D) (heap : ι → Option C) :
    Option ι → List (ι × D) → Option ι → Prop
  | p, [], r => p = r
  | p, (x, d) :: xs, r =>
    p = some x ∧ ∃ c, heap x = some c ∧ val c = d ∧ Seg next val heap (next c) xs r

/-- Follow `next` from the cell at `x` for `n` cells; `none` on a NULL pointer
or an address that is not allocated. -/
def follow (next : C → Option ι) (heap : ι → Option C) : ι → ℕ → Option (List ι)
  | _, 0 => some []
  | x, n + 1 =>
    (heap x).bind fun c => (next c).bind fun y =>
      (follow next heap y n).map fun ys => y :: ys

namespace Seg

variable {next : C → Option ι} {val : C → D} {heap heap' : ι → Option C}
  {p r : Option ι} {xs ys : List (ι × D)} {x : ι} {d : D}

@[simp] theorem nil_iff : Seg next val heap p [] r ↔ p = r := Iff.rfl

@[simp] theorem cons_iff :
    Seg next val heap p ((x, d) :: xs) r ↔
      p = some x ∧ ∃ c, heap x = some c ∧ val c = d ∧ Seg next val heap (next c) xs r :=
  Iff.rfl

/-- Every cell of a segment is allocated and carries its value. -/
theorem lookup (h : Seg next val heap p xs r) (hx : (x, d) ∈ xs) :
    ∃ c, heap x = some c ∧ val c = d := by
  induction xs generalizing p with
  | nil => simp at hx
  | cons y ys ih =>
    obtain ⟨-, c, hc, hv, hrest⟩ := h
    rcases List.mem_cons.mp hx with rfl | hx'
    · exact ⟨c, hc, hv⟩
    · exact ih hrest hx'

/-- A segment only depends on the cells it goes through. -/
theorem congr_heap (h : Seg next val heap p xs r)
    (heq : ∀ y ∈ xs.map Prod.fst, heap' y = heap y) :
    Seg next val heap' p xs r := by
  induction xs generalizing p with
  | nil => exact h
  | cons y ys ih =>
    obtain ⟨hp, c, hc, hv, hrest⟩ := h
    refine ⟨hp, c, ?_, hv, ih hrest fun z hz => heq z (by simp [hz])⟩
    rw [heq y.1 (by simp), hc]

/-- A write or a free at an address outside the segment leaves it as it is. -/
theorem frame [DecidableEq ι] {o : Option C} (h : Seg next val heap p xs r)
    (hx : x ∉ xs.map Prod.fst) :
    Seg next val (Function.update heap x o) p xs r := by
  refine h.congr_heap fun y hy => Function.update_of_ne ?_ _ _
  rintro rfl
  exact hx hy

theorem append_iff :
    Seg next val heap p (xs ++ ys) r ↔
      ∃ q, Seg next val heap p xs q ∧ Seg next val heap q ys r := by
  induction xs generalizing p with
  | nil => simp
  | cons x xs ih =>
    constructor
    · rintro ⟨hp, c, hc, hv, hrest⟩
      obtain ⟨q, h₁, h₂⟩ := ih.mp hrest
      exact ⟨q, ⟨hp, c, hc, hv, h₁⟩, h₂⟩
    · rintro ⟨q, ⟨hp, c, hc, hv, h₁⟩, h₂⟩
      exact ⟨hp, c, hc, hv, ih.mpr ⟨q, h₁, h₂⟩⟩

/-- **Linking a cell behind the last one.** The last cell `l` is rewritten to
point to the new cell `b`, which carries `e` and points to `r'`. -/
theorem snoc {l b : ι} {dl e : D} (cl cb : C) {r' : Option ι}
    (h : Seg next val heap p (xs ++ [(l, dl)]) r)
    (hl : l ∉ xs.map Prod.fst) (hb : b ∉ (xs ++ [(l, dl)]).map Prod.fst)
    (hcl : heap' l = some cl) (hvl : val cl = dl) (hnl : next cl = some b)
    (hcb : heap' b = some cb) (hvb : val cb = e) (hnb : next cb = r')
    (hframe : ∀ y, y ≠ l → y ≠ b → heap' y = heap y) :
    Seg next val heap' p (xs ++ [(l, dl)] ++ [(b, e)]) r' := by
  rw [List.append_assoc, append_iff]
  obtain ⟨q, h₁, h₂⟩ := append_iff.mp h
  refine ⟨q, h₁.congr_heap fun y hy => hframe y ?_ ?_, h₂.1, cl, hcl, hvl, hnl, cb, hcb, hvb, hnb⟩
  · rintro rfl; exact hl hy
  · rintro rfl; exact hb (by simp [hy])

/-- A heap determines the cells a segment of given length goes through. -/
theorem functional {r' : Option ι} (h : Seg next val heap p xs r)
    (h' : Seg next val heap p ys r') (hlen : xs.length = ys.length) : xs = ys := by
  induction xs generalizing p ys with
  | nil => exact (List.length_eq_zero_iff.mp hlen.symm).symm
  | cons x xs ih =>
    obtain ⟨y, ys, rfl⟩ : ∃ y zs, ys = y :: zs := List.exists_cons_of_length_eq_add_one hlen.symm
    obtain ⟨hp, c, hc, hv, hrest⟩ := h
    obtain ⟨hp', c', hc', hv', hrest'⟩ := h'
    have hxy : x.1 = y.1 := Option.some.inj (hp.symm.trans hp')
    rw [hxy, hc'] at hc
    obtain rfl := Option.some.inj hc
    rw [ih hrest hrest' (by simpa using hlen), Prod.ext hxy (hv.symm.trans hv')]

/-- Following `next` from the first cell visits the cells behind it. -/
theorem follow_eq (h : Seg next val heap p ((x, d) :: xs) r) :
    follow next heap x xs.length = some (xs.map Prod.fst) := by
  induction xs generalizing p x d with
  | nil => rfl
  | cons y ys ih =>
    obtain ⟨-, c, hc, -, hrest⟩ := h
    rw [List.length_cons, follow, hc, Option.bind_some, hrest.1, Option.bind_some, ih hrest]
    rfl

end Seg

end Uartd.Lib
