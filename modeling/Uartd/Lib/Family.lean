import Mathlib.Algebra.BigOperators.Fin
import Mathlib.Algebra.Order.BigOperators.Group.Finset
import Mathlib.Tactic.Abel
import Uartd.Lib.Transition

/-!
# Accounting over a family of threads

The threads of a system are a function `f : ι → β` from thread names to
program points. A thread that moves is where it moved to, the others are where
they were (`update_eq_cases`). A weight `w : β → M` on program points is summed
over the family by `total`; one thread moving changes the sum by the difference
of two weights (`total_update`), and a wake-up that touches many threads leaves
it alone when no weight changes (`total_map`). Where a weight is a multiset, what an
event adds to it is `ofOption` (`coe_filterMap_append_one`).
-/

namespace Uartd.Lib

/-- A moved thread, seen from any thread: it moved, or it is where it was. -/
theorem update_eq_cases {ι β : Type*} [DecidableEq ι] {g : ι → β} {i j : ι} {b c : β}
    (h : Function.update g i b j = c) : (j = i ∧ b = c) ∨ (j ≠ i ∧ g j = c) := by
  by_cases hji : j = i
  · subst hji
    rw [Function.update_self] at h
    exact .inl ⟨rfl, h⟩
  · rw [Function.update_of_ne hji] at h
    exact .inr ⟨hji, h⟩

/-- At most one thing, as a multiset. -/
def ofOption {β : Type*} (x : Option β) : Multiset β := x.elim 0 fun b => {b}

/-- What a trace selects, as a multiset, grows with its last event. -/
theorem coe_filterMap_append_one {ε β : Type*} (g : ε → Option β) (tr : List ε) (e : ε) :
    (((tr ++ [e]).filterMap g : List β) : Multiset β) =
      (tr.filterMap g : List β) + ofOption (g e) := by
  rw [filterMap_append_one, ← Multiset.coe_add]
  cases g e <;> rfl

variable {ι β M : Type*} [Fintype ι]

/-- The weight of a family of threads. -/
def total [AddCommMonoid M] (w : β → M) (f : ι → β) : M := ∑ i, w (f i)

section Monoid

variable [AddCommMonoid M] {w : β → M} {f : ι → β}

/-- **One thread moves**: from the weight of `f i` to the weight of `b`. -/
theorem total_update [DecidableEq ι] (i : ι) (b : β) :
    total w (Function.update f i b) + w (f i) = total w f + w b := by
  have hrest : ∑ j ∈ Finset.univ.erase i, w (Function.update f i b j) =
      ∑ j ∈ Finset.univ.erase i, w (f j) := by
    refine Finset.sum_congr rfl fun j hj => ?_
    rw [Function.update_of_ne (Finset.ne_of_mem_erase hj)]
  rw [total, total, ← Finset.add_sum_erase _ _ (Finset.mem_univ i),
    ← Finset.add_sum_erase _ (fun j => w (f j)) (Finset.mem_univ i), hrest,
    Function.update_self]
  abel

/-- A move between program points of the same weight. -/
theorem total_update_eq [DecidableEq ι] {i : ι} {b : β} (h : w b = w (f i)) :
    total w (Function.update f i b) = total w f := by
  refine Finset.sum_congr rfl fun j _ => ?_
  by_cases hj : j = i
  · subst hj
    rw [Function.update_self, h]
  · rw [Function.update_of_ne hj]

/-- Families that weigh the same thread by thread. -/
theorem total_congr {γ : Type*} {w' : γ → M} {g : ι → γ} (h : ∀ i, w' (g i) = w (f i)) :
    total w' g = total w f :=
  Finset.sum_congr rfl fun i _ => h i

/-- A wake-up that keeps every thread's weight. -/
theorem total_map {g : β → β} (h : ∀ b, w (g b) = w b) :
    total w (fun i => g (f i)) = total w f :=
  total_congr fun i => h (f i)

theorem total_eq_zero (h : ∀ i, w (f i) = 0) : total w f = 0 :=
  Finset.sum_eq_zero fun i _ => h i

end Monoid

section Nat

variable {w : β → ℕ} {f : ι → β}

/-- A wake-up that changes no thread's weight by more than `c`. -/
theorem total_le_add {γ : Type*} {w' : γ → ℕ} {g : ι → γ} {c : ℕ}
    (h : ∀ i, w' (g i) ≤ w (f i) + c) : total w' g ≤ total w f + Fintype.card ι * c := by
  calc total w' g ≤ ∑ i, (w (f i) + c) := Finset.sum_le_sum fun i _ => h i
    _ = total w f + Fintype.card ι * c := by
      rw [Finset.sum_add_distrib, Finset.sum_const, Finset.card_univ, smul_eq_mul]
      rfl

theorem le_total (i : ι) : w (f i) ≤ total w f :=
  Finset.single_le_sum (f := fun j => w (f j)) (fun _ _ => Nat.zero_le _) (Finset.mem_univ i)

/-- Two different threads weigh at most the family together. -/
theorem add_le_total [DecidableEq ι] {i j : ι} (hij : i ≠ j) :
    w (f i) + w (f j) ≤ total w f := by
  rw [total, ← Finset.add_sum_erase _ _ (Finset.mem_univ i)]
  refine Nat.add_le_add_left ?_ _
  exact Finset.single_le_sum (f := fun j => w (f j)) (fun _ _ => Nat.zero_le _)
    (Finset.mem_erase.mpr ⟨hij.symm, Finset.mem_univ j⟩)

end Nat

end Uartd.Lib
