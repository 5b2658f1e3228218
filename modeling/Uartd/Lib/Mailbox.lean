import Mathlib.Logic.Function.Basic
import Uartd.Lib.Transition

/-!
# Mailboxes

A queue with one consumer and any number of producers. The consumer tests the
queue under a mutex and, if it found it empty, waits once on a condition; no
other thread takes that mutex. A producer inserts and then signals the
condition, each in one step and neither under the mutex.

* `run_taken_append` — what was taken, then what is queued, is what was inserted;
* `run_not_stuck` — while no signal is late, a sleeping consumer has nothing to
  do or a signal on its way;
* `stuck_of_late` — a late signal lets the consumer go to sleep for good.

A signal is late (`Late`) when it is the last one on its way and is sent between
the consumer's test and its wait with something in the queue: the test is out of
date and nobody sleeps yet.
-/

namespace Uartd.Lib

/-- Where the consumer of a mailbox is with its mutex and its condition. -/
inductive WaitPc where
  | unlocked
  | locked
  | toWait
  | asleep
  | woken
  | passed
  deriving DecidableEq, Repr

/-- A signal wakes a sleeping consumer and has no effect on another. -/
def WaitPc.signalled : WaitPc → WaitPc
  | .asleep => .woken
  | pc => pc

/-- Where a producer is between an insert and its signal. -/
inductive PutPc where
  | idle
  | inserted
  deriving DecidableEq, Repr

structure Mailbox (α P : Type) where
  queue : List α
  wait  : WaitPc
  producer : P → PutPc

inductive MailboxEvent (α P : Type) where
  | insert (p : P) (x : α)
  | signal (p : P)
  | lock
  | test (empty : Bool)
  | sleep
  | spurious
  | relock
  | unlock
  | pop (x : Option α)

variable {α P : Type} [DecidableEq P]

inductive MailboxStep : Mailbox α P → MailboxEvent α P → Mailbox α P → Prop
  | insert {m} (p : P) (x : α) : m.producer p = .idle →
      MailboxStep m (.insert p x) { m with
        queue := m.queue ++ [x], producer := Function.update m.producer p .inserted }
  | signal {m} (p : P) : m.producer p = .inserted →
      MailboxStep m (.signal p) { m with
        wait := m.wait.signalled, producer := Function.update m.producer p .idle }
  | lock {m} : m.wait = .unlocked → MailboxStep m .lock { m with wait := .locked }
  | testEmpty {m} : m.wait = .locked → m.queue = [] →
      MailboxStep m (.test true) { m with wait := .toWait }
  | testNonempty {m} : m.wait = .locked → m.queue ≠ [] →
      MailboxStep m (.test false) { m with wait := .passed }
  | sleep {m} : m.wait = .toWait → MailboxStep m .sleep { m with wait := .asleep }
  | spurious {m} : m.wait = .asleep → MailboxStep m .spurious { m with wait := .woken }
  | relock {m} : m.wait = .woken → MailboxStep m .relock { m with wait := .passed }
  | unlock {m} : m.wait = .passed → MailboxStep m .unlock { m with wait := .unlocked }
  | pop {m} : MailboxStep m (.pop m.queue.head?) { m with queue := m.queue.tail }

/-- A mailbox, initially empty and with nobody in it. -/
def mailbox (α P : Type) [DecidableEq P] : System (Mailbox α P) (MailboxEvent α P) where
  init m := m = ⟨[], .unlocked, fun _ => .idle⟩
  step := MailboxStep

namespace MailboxEvent

def inserted? : MailboxEvent α P → Option (P × α)
  | .insert p x => some (p, x)
  | _ => none

def taken? : MailboxEvent α P → Option α
  | .pop x => x
  | _ => none

end MailboxEvent

/-- Everything inserted along a trace, with the producer that did it. -/
def insertions (tr : List (MailboxEvent α P)) : List (P × α) :=
  tr.filterMap MailboxEvent.inserted?

/-- Everything the consumer took along a trace. -/
def taken (tr : List (MailboxEvent α P)) : List α := tr.filterMap MailboxEvent.taken?

/-- Along every run: taken, then queued, is inserted. -/
theorem run_taken_append {tr : List (MailboxEvent α P)} {m : Mailbox α P}
    (h : (mailbox α P).Run tr m) : taken tr ++ m.queue = (insertions tr).map Prod.snd := by
  refine System.Run.invariant
    (I := fun tr m => taken tr ++ m.queue = (insertions tr).map Prod.snd) ?_ ?_ h
  · rintro m rfl
    rfl
  · intro tr m e m' _ hlaw hst
    simp only [taken, insertions, List.filterMap_append, List.map_append] at hlaw ⊢
    rw [← hlaw]
    cases hst with
    | insert p x _ => simp [List.filterMap_cons, MailboxEvent.taken?, MailboxEvent.inserted?]
    | pop =>
      cases hq : m.queue <;>
        simp [List.filterMap_cons, MailboxEvent.taken?, MailboxEvent.inserted?]
    | _ => simp [List.filterMap_cons, MailboxEvent.taken?, MailboxEvent.inserted?]

/-! ## Wake-ups -/

/-- The consumer sleeps, something is queued, and no signal is on its way. -/
def Mailbox.Stuck (m : Mailbox α P) : Prop :=
  m.wait = .asleep ∧ m.queue ≠ [] ∧ ∀ p, m.producer p = .idle

/-- The last signal on its way, sent between the test and the wait of a
consumer whose queue is not empty any more. -/
def Mailbox.Late (m : Mailbox α P) (e : MailboxEvent α P) : Prop :=
  ∃ p, e = .signal p ∧ m.wait = .toWait ∧ m.queue ≠ [] ∧ ∀ p', p' ≠ p → m.producer p' = .idle

/-- A consumer that found its queue empty has nothing to do or will be told. -/
def Mailbox.Informed (m : Mailbox α P) : Prop :=
  m.wait = .toWait ∨ m.wait = .asleep → m.queue = [] ∨ ∃ p, m.producer p = .inserted

theorem informed_step {m m' : Mailbox α P} {e : MailboxEvent α P} (h : m.Informed)
    (hst : MailboxStep m e m') (hlate : ¬ m.Late e) : m'.Informed := by
  cases hst with
  | insert p x _ =>
    intro _
    exact .inr ⟨p, Function.update_self ..⟩
  | signal p hp =>
    intro hw
    -- a sleeping consumer was woken, so this one is still to wait
    have hwait : m.wait = .toWait := by
      cases hm : m.wait <;> simp [hm, WaitPc.signalled] at hw ⊢
    rcases h (.inl hwait) with hq | -
    · exact .inl hq
    · by_cases hq : m.queue = []
      · exact .inl hq
      · right
        by_contra hnone
        refine hlate ⟨p, rfl, hwait, hq, fun p' hne => ?_⟩
        by_contra hidle
        refine hnone ⟨p', ?_⟩
        show Function.update m.producer p .idle p' = .inserted
        rw [Function.update_of_ne hne]
        cases hp' : m.producer p' with
        | idle => exact absurd hp' hidle
        | inserted => rfl
  | testEmpty _ hq => exact fun _ => .inl hq
  | sleep hw => exact fun _ => h (.inl hw)
  | pop =>
    intro hw
    rcases h hw with hq | hp
    · exact .inl (by show m.queue.tail = []; rw [hq]; rfl)
    · exact .inr hp
  | _ =>
    intro hw
    simp at hw

omit [DecidableEq P] in
theorem Mailbox.Informed.not_stuck {m : Mailbox α P} (h : m.Informed) : ¬ m.Stuck := by
  rintro ⟨hw, hq, hidle⟩
  rcases h (.inr hw) with hq' | ⟨p, hp⟩
  · exact hq hq'
  · rw [hidle p] at hp
    simp at hp

/-- **No late signal, no lost wake-up.** -/
theorem run_not_stuck {tr : List (MailboxEvent α P)} {m : Mailbox α P}
    (h : ((mailbox α P).restrict fun m e => ¬ m.Late e).Run tr m) : ¬ m.Stuck := by
  refine Mailbox.Informed.not_stuck ?_
  refine System.Run.state_invariant (I := Mailbox.Informed) ?_ ?_ h
  · rintro m rfl hw
    simp at hw
  · intro m e m' _ hm hst
    exact informed_step hm hst.1 hst.2

/-- A late signal is lost: the consumer's next step is to sleep for good. -/
theorem stuck_of_late {m m' : Mailbox α P} {e : MailboxEvent α P}
    (hst : MailboxStep m e m') (hlate : m.Late e) :
    ∃ m'', MailboxStep m' .sleep m'' ∧ m''.Stuck := by
  obtain ⟨p, rfl, hw, hq, hidle⟩ := hlate
  cases hst with
  | signal _ hp =>
    refine ⟨_, .sleep ?_, rfl, hq, fun p' => ?_⟩
    · show m.wait.signalled = .toWait
      rw [hw]
      rfl
    · show Function.update m.producer p .idle p' = .idle
      by_cases hne : p' = p
      · rw [hne, Function.update_self]
      · rw [Function.update_of_ne hne, hidle p' hne]

end Uartd.Lib
