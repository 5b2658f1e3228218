import Uartd.Lib.Transition

/-!
# FIFO queues

The abstract queues the components of the program are refined to: what is put
in at one end comes out at the other, in order. `boundedFifo cap` refuses to
hold more than `cap` elements. `run_deqs_append` is the law a refinement is
used for: what has come out, followed by what is still inside, is what went in.
-/

namespace Uartd.Lib

variable {α : Type*}

/-- The visible operations of a FIFO queue. -/
inductive FifoEvent (α : Type*) where
  | enq (x : α)
  | deq (x : α)
  deriving DecidableEq, Repr

namespace FifoEvent

/-- The element put in by an event, if it is an enqueue. -/
def enq? : FifoEvent α → Option α
  | .enq x => some x
  | .deq _ => none

/-- The element taken out by an event, if it is a dequeue. -/
def deq? : FifoEvent α → Option α
  | .enq _ => none
  | .deq x => some x

end FifoEvent

/-- The steps of a queue of at most `cap` elements. -/
def FifoStep (cap : ℕ) (q : List α) : FifoEvent α → List α → Prop
  | .enq x, q' => q.length < cap ∧ q' = q ++ [x]
  | .deq x, q' => q = x :: q'

/-- The bounded FIFO queue, initially empty. -/
def boundedFifo (α : Type*) (cap : ℕ) : System (List α) (FifoEvent α) where
  init q := q = []
  step := FifoStep cap

/-- Along every run: out, then inside, is in; and the bound is kept. -/
theorem run_deqs_append {cap : ℕ} {tr : List (FifoEvent α)} {q : List α}
    (h : (boundedFifo α cap).Run tr q) :
    tr.filterMap FifoEvent.deq? ++ q = tr.filterMap FifoEvent.enq? ∧ q.length ≤ cap := by
  refine System.Run.invariant
    (I := fun tr q => tr.filterMap FifoEvent.deq? ++ q = tr.filterMap FifoEvent.enq? ∧
      q.length ≤ cap) ?_ ?_ h
  · rintro q rfl
    simp
  · rintro tr q e q' - ⟨hq, hcap⟩ hst
    cases e with
    | enq x =>
      obtain ⟨hlt, rfl⟩ := hst
      simp only [List.filterMap_append, ← hq, List.length_append, List.length_singleton]
      exact ⟨by simp [FifoEvent.deq?, FifoEvent.enq?], hlt⟩
    | deq x =>
      obtain rfl : q = x :: q' := hst
      simp only [List.filterMap_append, ← hq]
      simp only [List.length_cons] at hcap
      exact ⟨by simp [FifoEvent.deq?, FifoEvent.enq?], by omega⟩

end Uartd.Lib
