import Mathlib.Data.List.Infix
import Mathlib.Data.List.Enum

/-!
# Partial writes

A writer offers its blocks one after another, each once; of every block a first
part is accepted. What is accepted carries its position in the stream of all
that was offered (`numberedFrom`), so that equal elements at different places
are told apart.

`sent_prefix_iff` — what was accepted is a first part of what was offered
exactly when nothing is accepted after a write that was cut short.
-/

namespace Uartd.Lib

variable {α : Type*}

/-- A block and how much of it may be accepted. -/
structure PartialWrite (α : Type*) where
  block : List α
  count : ℕ

namespace PartialWrite

def sent (w : PartialWrite α) : List α := w.block.take w.count

def Complete (w : PartialWrite α) : Prop := w.block.length ≤ w.count

/-- `w` with positions from `p` on. -/
def numbered (p : ℕ) (w : PartialWrite α) : PartialWrite (α × ℕ) := ⟨w.block.zipIdx p, w.count⟩

theorem sent_of_complete {w : PartialWrite α} (h : w.Complete) : w.sent = w.block :=
  List.take_of_length_le h

theorem numbered_sent_fst (p : ℕ) (w : PartialWrite α) :
    (w.numbered p).sent.map Prod.fst = w.sent := by
  unfold sent numbered
  rw [List.map_take, List.zipIdx_map_fst]

end PartialWrite

/-- What a sequence of writes offers, and what of it is accepted. -/
def offered (ws : List (PartialWrite α)) : List α := ws.flatMap PartialWrite.block

def sent (ws : List (PartialWrite α)) : List α := ws.flatMap PartialWrite.sent

/-- The writes with positions in the stream of what they offer. -/
def numberedFrom : ℕ → List (PartialWrite α) → List (PartialWrite (α × ℕ))
  | _, [] => []
  | p, w :: ws => w.numbered p :: numberedFrom (p + w.block.length) ws

/-- Nothing is accepted after a write that was cut short. -/
def InOrder (ws : List (PartialWrite α)) : Prop :=
  ws.Pairwise fun w w' => w.Complete ∨ w'.sent = []

theorem sent_eq_nil_iff {ws : List (PartialWrite α)} : sent ws = [] ↔ ∀ w ∈ ws, w.sent = [] :=
  List.flatMap_eq_nil_iff

theorem sent_subset_offered (ws : List (PartialWrite α)) : sent ws ⊆ offered ws := by
  intro x hx
  obtain ⟨w, hw, hx⟩ := List.mem_flatMap.mp hx
  exact List.mem_flatMap.mpr ⟨w, hw, List.mem_of_mem_take hx⟩

theorem sent_length_le (ws : List (PartialWrite α)) : (sent ws).length ≤ (offered ws).length := by
  induction ws with
  | nil => exact Nat.le_refl _
  | cons w ws ih =>
    have hw : w.sent.length ≤ w.block.length := List.length_take_le' _ _
    unfold sent offered at ih ⊢
    rw [List.flatMap_cons, List.flatMap_cons, List.length_append, List.length_append]
    omega

theorem offered_numberedFrom (p : ℕ) (ws : List (PartialWrite α)) :
    offered (numberedFrom p ws) = (offered ws).zipIdx p := by
  induction ws generalizing p with
  | nil => rfl
  | cons w ws ih =>
    have htail := ih (p + w.block.length)
    unfold offered at htail ⊢
    rw [numberedFrom, List.flatMap_cons, List.flatMap_cons, htail, List.zipIdx_append]
    rfl

/-- Without its positions the accepted stream is the one of the writes. -/
theorem sent_numberedFrom_fst (p : ℕ) (ws : List (PartialWrite α)) :
    (sent (numberedFrom p ws)).map Prod.fst = sent ws := by
  induction ws generalizing p with
  | nil => rfl
  | cons w ws ih =>
    have htail := ih (p + w.block.length)
    unfold sent at htail ⊢
    rw [numberedFrom, List.flatMap_cons, List.flatMap_cons, List.map_append, htail,
      PartialWrite.numbered_sent_fst]

theorem le_of_mem_sent {p : ℕ} {ws : List (PartialWrite α)} {x : α × ℕ}
    (hx : x ∈ sent (numberedFrom p ws)) : p ≤ x.2 := by
  have hmem := sent_subset_offered _ hx
  rw [offered_numberedFrom] at hmem
  exact List.le_snd_of_mem_zipIdx hmem

/-- **Accepted in order.** The accepted elements, with their positions, are a
first part of the stream offered if and only if nothing is accepted after a
write that was cut short. -/
theorem sent_prefix_iff (p : ℕ) (ws : List (PartialWrite α)) :
    sent (numberedFrom p ws) <+: (offered ws).zipIdx p ↔ InOrder ws := by
  induction ws generalizing p with
  | nil => simp [sent, numberedFrom, InOrder]
  | cons w ws ih =>
    have hsent : sent (numberedFrom p (w :: ws)) =
        (w.numbered p).sent ++ sent (numberedFrom (p + w.block.length) ws) := rfl
    have hoffered : (offered (w :: ws)).zipIdx p =
        w.block.zipIdx p ++ (offered ws).zipIdx (p + w.block.length) := List.zipIdx_append
    have htail := ih (p + w.block.length)
    unfold InOrder at htail ⊢
    rw [hsent, hoffered, List.pairwise_cons]
    by_cases hw : w.Complete
    · have hall : (w.numbered p).sent = w.block.zipIdx p := by
        refine PartialWrite.sent_of_complete ?_
        show (w.block.zipIdx p).length ≤ w.count
        rw [List.length_zipIdx]
        exact hw
      rw [hall, List.prefix_append_right_inj, htail]
      exact ⟨fun h => ⟨fun w' _ => .inl hw, h⟩, fun h => h.2⟩
    · -- the next element accepted must be the next of this block
      have hsplit : w.block.zipIdx p = (w.numbered p).sent ++ (w.block.zipIdx p).drop w.count :=
        (List.take_append_drop _ _).symm
      have hrest : (w.block.zipIdx p).drop w.count ≠ [] := by
        rw [ne_eq, List.drop_eq_nil_iff, List.length_zipIdx]
        exact hw
      rw [hsplit, List.append_assoc, List.prefix_append_right_inj]
      constructor
      · intro hpre
        have hnone : sent (numberedFrom (p + w.block.length) ws) = [] := by
          cases hfirst : sent (numberedFrom (p + w.block.length) ws) with
          | nil => rfl
          | cons x xs =>
            obtain ⟨y, ys, hy⟩ := List.exists_cons_of_ne_nil hrest
            have hge : p + w.block.length ≤ x.2 := le_of_mem_sent (by rw [hfirst]; simp)
            rw [hfirst, hy, List.cons_append, List.cons_prefix_cons] at hpre
            have hmem : y ∈ w.block.zipIdx p := List.mem_of_mem_drop (by rw [hy]; simp)
            have hlt := List.snd_lt_add_of_mem_zipIdx hmem
            rw [hpre.1] at hge
            omega
        have hquiet : sent ws = [] := by
          rw [← sent_numberedFrom_fst (p + w.block.length) ws, hnone]
          rfl
        have hzero := sent_eq_nil_iff.mp hquiet
        refine ⟨fun w' hw' => .inr (hzero w' hw'), ?_⟩
        exact List.pairwise_of_forall_mem_list (fun w' _ w'' hw'' => .inr (hzero w'' hw''))
      · rintro ⟨hquiet, -⟩
        have hzero : sent ws = [] :=
          sent_eq_nil_iff.mpr fun w' hw' => (hquiet w' hw').resolve_left hw
        have hnone : sent (numberedFrom (p + w.block.length) ws) = [] := by
          rw [← List.map_eq_nil_iff, sent_numberedFrom_fst, hzero]
        rw [hnone]
        exact List.nil_prefix

end Uartd.Lib
