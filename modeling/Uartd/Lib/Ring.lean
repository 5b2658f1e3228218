import Mathlib.Data.List.Basic
import Mathlib.Data.Nat.ModEq

/-!
# Ring buffers

A block of memory read as a ring: `Holds buf t xs` says that the elements `xs`
lie at the positions `t`, `t + 1`, … of `buf`, taken modulo its length. What
the other positions hold is left open, so a ring whose front element was taken
keeps it as a stale value.

* `Holds.push` — a write behind the last element appends it;
* `Holds.front`, `Holds.pop` — the element at the front, and the ring without it;
* `Holds.functional` — a ring holds one list of a given length.
-/

namespace Uartd.Lib

variable {α : Type*}

/-- The ring `buf` holds `xs` from position `t` on. -/
def Holds (buf : List α) (t : ℕ) (xs : List α) : Prop :=
  xs.length ≤ buf.length ∧
    ∀ k (hk : k < xs.length), buf[(t + k) % buf.length]? = some xs[k]

namespace Holds

variable {buf : List α} {t : ℕ} {x : α} {xs ys : List α}

theorem nil (buf : List α) (t : ℕ) : Holds buf t [] :=
  ⟨Nat.zero_le _, fun k hk => absurd hk (Nat.not_lt_zero k)⟩

/-- Two offsets below the length lie at different positions of the ring. -/
theorem pos_ne {n k j : ℕ} (hk : k < n) (hj : j < n) (hne : k ≠ j) :
    (t + k) % n ≠ (t + j) % n := by
  intro heq
  have hmod : k % n = j % n := Nat.ModEq.add_left_cancel' t heq
  rw [Nat.mod_eq_of_lt hk, Nat.mod_eq_of_lt hj] at hmod
  exact hne hmod

theorem push (h : Holds buf t xs) (hroom : xs.length < buf.length) (x : α) :
    Holds (buf.set ((t + xs.length) % buf.length) x) t (xs ++ [x]) := by
  obtain ⟨-, hget⟩ := h
  refine ⟨by simpa using Nat.succ_le_of_lt hroom, ?_⟩
  intro k hk
  rw [List.length_append, List.length_singleton] at hk
  rw [List.length_set]
  rcases Nat.lt_succ_iff_lt_or_eq.mp hk with hlt | rfl
  · -- an old element, at another position than the new one
    have hne := pos_ne (t := t) hroom (hlt.trans hroom) (Nat.ne_of_gt hlt)
    rw [List.getElem?_set_ne hne, hget k hlt, List.getElem_append_left hlt]
  · have hpos : (t + xs.length) % buf.length < buf.length := Nat.mod_lt _ (by omega)
    rw [List.getElem?_set_self hpos]
    simp

theorem front (h : Holds buf t (x :: xs)) : buf[t % buf.length]? = some x :=
  h.2 0 (by simp)

theorem pop (h : Holds buf t (x :: xs)) : Holds buf ((t + 1) % buf.length) xs := by
  obtain ⟨hlen, hget⟩ := h
  rw [List.length_cons] at hlen
  refine ⟨by omega, ?_⟩
  intro k hk
  have hk' := hget (k + 1) (by simpa using hk)
  rw [List.getElem_cons_succ] at hk'
  rw [← hk', Nat.mod_add_mod, Nat.add_assoc, Nat.add_comm 1 k]

theorem functional (h : Holds buf t xs) (h' : Holds buf t ys) (hlen : xs.length = ys.length) :
    xs = ys := by
  refine List.ext_getElem hlen fun k hk hk' => ?_
  have hx := h.2 k hk
  rw [h'.2 k hk'] at hx
  exact (Option.some.inj hx).symm

end Holds

end Uartd.Lib
