import Uartd.Lib.Stdio
import Mathlib.Data.List.Count

/-!
# Lines of a text and reads of a file

A line ends with its newline; the last line of a text may lack it. `fgets` with a
buffer of `k + 1` bytes reads a line of up to `k` bytes at once, and a longer one
in pieces of `k` bytes.

* `text_induction` — a text is empty, an unterminated line, or a line and a text;
* `reads_eq_flatMap` — the reads of a text are those of its lines;
* `reads_getElem?` — up to the first long line, reads are lines;
* `position_take_eq_iff` — when two searches find the same place.
-/

namespace Uartd.Lib

/-- The lines of a text, each with its newline. -/
def lines : List UInt8 → List (List UInt8)
  | [] => []
  | c :: s =>
    if c = newline then [c] :: lines s
    else
      match lines s with
      | [] => [[c]]
      | line :: rest => (c :: line) :: rest

/-- A read before the end takes something. -/
theorem drop_lineChunk_length_lt {k : ℕ} {s : List UInt8} (hk : 0 < k) (hs : s ≠ []) :
    (s.drop (lineChunk k s).length).length < s.length := by
  have hne : lineChunk k s ≠ [] := (lineChunk_eq_nil_iff hk).not.mpr hs
  have hpos := List.length_pos_of_ne_nil hne
  have hpos' := List.length_pos_of_ne_nil hs
  rw [List.length_drop]
  omega

/-- What successive reads of up to `k` bytes deliver until the end of a file. -/
def reads (k : ℕ) (s : List UInt8) : List (List UInt8) :=
  if _h : 0 < k ∧ s ≠ [] then lineChunk k s :: reads k (s.drop (lineChunk k s).length) else []
termination_by s.length
decreasing_by exact drop_lineChunk_length_lt _h.1 _h.2

/-- A line with its newline. -/
def IsLine (line : List UInt8) : Prop := ∃ body, newline ∉ body ∧ line = body ++ [newline]

variable {s line : List UInt8} {k : ℕ}

@[elab_as_elim]
theorem text_induction {P : List UInt8 → Prop} (s : List UInt8) (nil : P [])
    (unterminated : ∀ s, s ≠ [] → newline ∉ s → P s)
    (line : ∀ line rest, IsLine line → P rest → P (line ++ rest)) : P s := by
  induction hn : s.length using Nat.strongRecOn generalizing s with
  | ind n ih =>
    by_cases hmem : newline ∈ s
    · obtain ⟨body, rest, rfl, hbody⟩ := List.eq_append_cons_of_mem hmem
      rw [List.append_cons]
      refine line _ _ ⟨body, hbody, rfl⟩ (ih rest.length ?_ rest rfl)
      rw [List.length_append, List.length_cons] at hn
      omega
    · rcases eq_or_ne s [] with rfl | hs
      · exact nil
      · exact unterminated s hs hmem

-- ---------------------------------------------------------------------------
-- Lines
-- ---------------------------------------------------------------------------

theorem IsLine.ne_nil (h : IsLine line) : line ≠ [] := by
  obtain ⟨body, -, rfl⟩ := h
  exact List.append_ne_nil_of_right_ne_nil _ (List.cons_ne_nil _ _)

theorem lines_unterminated (hs : s ≠ []) (h : newline ∉ s) : lines s = [s] := by
  induction s with
  | nil => exact absurd rfl hs
  | cons c s ih =>
    rw [List.mem_cons, not_or] at h
    rw [lines, if_neg (Ne.symm h.1)]
    rcases eq_or_ne s [] with rfl | hne
    · rfl
    · rw [ih hne h.2]

theorem lines_append (h : IsLine line) (rest : List UInt8) :
    lines (line ++ rest) = line :: lines rest := by
  obtain ⟨body, hbody, rfl⟩ := h
  induction body with
  | nil => rfl
  | cons c body ih =>
    rw [List.mem_cons, not_or] at hbody
    rw [List.cons_append, List.cons_append, lines, if_neg (Ne.symm hbody.1), ih hbody.2]

/-- A line counts as one newline. -/
theorem IsLine.count (h : IsLine line) : line.count newline = 1 := by
  obtain ⟨body, hbody, rfl⟩ := h
  rw [List.count_append, List.count_eq_zero_of_not_mem hbody]
  rfl

/-- Lines that all have their newline are as many as newlines. -/
theorem lines_length (h : s = [] ∨ s.getLast? = some newline) :
    (lines s).length = s.count newline := by
  induction s using text_induction with
  | nil => rfl
  | unterminated s hs hmem =>
    exact absurd (List.mem_of_getLast? (h.resolve_left hs)) hmem
  | line line rest hline ih =>
    have hrest : rest = [] ∨ rest.getLast? = some newline := by
      refine or_iff_not_imp_left.mpr fun hne => ?_
      have hlast := h.resolve_left (List.append_ne_nil_of_left_ne_nil hline.ne_nil rest)
      rwa [List.getLast?_append_of_ne_nil _ hne] at hlast
    rw [lines_append hline, List.length_cons, ih hrest, List.count_append, hline.count,
      Nat.add_comm]

-- ---------------------------------------------------------------------------
-- Reads
-- ---------------------------------------------------------------------------

theorem reads_nil (k : ℕ) : reads k [] = [] := by
  rw [reads, dif_neg (by simp)]

theorem reads_cons (hk : 0 < k) (hs : s ≠ []) :
    reads k s = lineChunk k s :: reads k (s.drop (lineChunk k s).length) := by
  rw [reads, dif_pos ⟨hk, hs⟩]

theorem lineChunk_unterminated (h : newline ∉ s) (k : ℕ) : lineChunk k s = s.take k := by
  induction k generalizing s with
  | zero => rfl
  | succ k ih =>
    cases s with
    | nil => rfl
    | cons c s =>
      rw [List.mem_cons, not_or] at h
      rw [lineChunk, if_neg (Ne.symm h.1), ih h.2, List.take_succ_cons]

/-- A read does not go past the end of a line. -/
theorem lineChunk_append (h : IsLine line) (rest : List UInt8) (k : ℕ) :
    lineChunk k (line ++ rest) = line.take k := by
  obtain ⟨body, hbody, rfl⟩ := h
  induction k generalizing body with
  | zero => rfl
  | succ k ih =>
    cases body with
    | nil => simp [lineChunk]
    | cons c body =>
      rw [List.mem_cons, not_or] at hbody
      rw [List.cons_append, List.cons_append, lineChunk, if_neg (Ne.symm hbody.1),
        ih body hbody.2, List.take_succ_cons]

/-- What a read leaves of a line is a line, or nothing. -/
theorem IsLine.drop (h : IsLine line) {k : ℕ} (hk : k < line.length) : IsLine (line.drop k) := by
  obtain ⟨body, hbody, rfl⟩ := h
  rw [List.length_append, List.length_singleton] at hk
  refine ⟨body.drop k, fun hmem => hbody (List.mem_of_mem_drop hmem), ?_⟩
  rw [List.drop_append, Nat.sub_eq_zero_of_le (by omega), List.drop_zero]

theorem reads_append (hk : 0 < k) (h : IsLine line) (rest : List UInt8) :
    reads k (line ++ rest) = reads k line ++ reads k rest := by
  induction hn : line.length using Nat.strongRecOn generalizing line with
  | ind n ih =>
    have hne := h.ne_nil
    have hself := lineChunk_append h [] k
    rw [List.append_nil] at hself
    rw [reads_cons hk hne, reads_cons hk (List.append_ne_nil_of_left_ne_nil hne rest),
      lineChunk_append h, hself, List.cons_append, List.length_take]
    congr 1
    by_cases hlen : line.length ≤ k
    · rw [Nat.min_eq_right hlen, List.drop_left, List.drop_length, reads_nil, List.nil_append]
    · have hlt : k < line.length := by omega
      rw [Nat.min_eq_left (by omega), List.drop_append_of_le_length (by omega)]
      exact ih _ (by rw [List.length_drop]; omega) (h.drop hlt) rfl

/-- **The reads of a text are those of its lines.** -/
theorem reads_eq_flatMap (hk : 0 < k) (s : List UInt8) :
    reads k s = (lines s).flatMap (reads k) := by
  induction s using text_induction with
  | nil => rw [reads_nil]; rfl
  | unterminated s hs h => rw [lines_unterminated hs h, List.flatMap_singleton]
  | line line rest h ih => rw [reads_append hk h, lines_append h, List.flatMap_cons, ih]

-- ---------------------------------------------------------------------------
-- Reads against lines
-- ---------------------------------------------------------------------------

/-- Only the last byte of a line may be a newline. -/
theorem lineChunk_of_mem_lines (h : line ∈ lines s) :
    line ≠ [] ∧ ∀ k, lineChunk k line = line.take k := by
  induction s using text_induction with
  | nil => exact absurd h List.not_mem_nil
  | unterminated s hs hmem =>
    rw [lines_unterminated hs hmem] at h
    rw [List.mem_singleton.mp h]
    exact ⟨hs, lineChunk_unterminated hmem⟩
  | line line' rest hline ih =>
    rw [lines_append hline] at h
    rcases List.mem_cons.mp h with rfl | h
    · refine ⟨hline.ne_nil, fun k => ?_⟩
      have hself := lineChunk_append hline [] k
      rwa [List.append_nil] at hself
    · exact ih h

theorem reads_line (hk : 0 < k) (h : line ∈ lines s) :
    ∃ pieces, reads k line = line.take k :: pieces ∧ (line.length ≤ k → pieces = []) := by
  obtain ⟨hne, hchunk⟩ := lineChunk_of_mem_lines h
  rw [reads_cons hk hne, hchunk]
  refine ⟨_, rfl, fun hlen => ?_⟩
  rw [List.take_of_length_le hlen, List.drop_length, reads_nil]

theorem flatMap_reads_getElem? {texts : List (List UInt8)} {m : ℕ}
    (htexts : ∀ text ∈ texts, ∃ pieces, reads k text = text.take k :: pieces ∧
      (text.length ≤ k → pieces = []))
    (h : ∀ text ∈ texts.take m, text.length ≤ k) :
    (texts.flatMap (reads k))[m]? = (texts[m]?).map (List.take k) := by
  induction texts generalizing m with
  | nil => rfl
  | cons text texts ih =>
    rw [List.forall_mem_cons] at htexts
    obtain ⟨pieces, hreads, hshort⟩ := htexts.1
    rw [List.flatMap_cons, hreads]
    cases m with
    | zero => rfl
    | succ m =>
      rw [List.take_succ_cons, List.forall_mem_cons] at h
      rw [hshort h.1]
      exact ih htexts.2 h.2

/-- **Behind short lines**, read `m` is line `m`, or its first `k` bytes. -/
theorem reads_getElem? (hk : 0 < k) {m : ℕ}
    (h : ∀ line ∈ (lines s).take m, line.length ≤ k) :
    (reads k s)[m]? = ((lines s)[m]?).map (List.take k) := by
  rw [reads_eq_flatMap hk]
  exact flatMap_reads_getElem? (fun _ hline => reads_line hk hline) h

/-- Short lines only: every read is a line. -/
theorem reads_of_short (hk : 0 < k) (h : ∀ line ∈ lines s, line.length ≤ k) :
    reads k s = lines s := by
  refine List.ext_getElem? fun m => ?_
  rw [reads_getElem? hk fun line hmem => h line (List.mem_of_mem_take hmem)]
  cases hm : (lines s)[m]? with
  | none => rfl
  | some line => rw [Option.map_some, List.take_of_length_le (h line (List.mem_of_getElem? hm))]

-- ---------------------------------------------------------------------------
-- The first element with a property
-- ---------------------------------------------------------------------------

variable {α : Type*} {p : α → Bool} {l l' : List α} {i : ℕ}

/-- The 1-based position of the first element with `p`, 0 if there is none. -/
def position (p : α → Bool) (l : List α) : ℕ :=
  match l.findIdx? p with
  | some i => i + 1
  | none => 0

/-- Element `i` is the first with `p`. -/
def FirstAt (p : α → Bool) (l : List α) (i : ℕ) : Prop :=
  (∃ a, l[i]? = some a ∧ p a = true) ∧ ∀ j < i, ∀ a, l[j]? = some a → p a = false

theorem position_eq_zero_iff : position p l = 0 ↔ ∀ a ∈ l, p a = false := by
  rw [← List.findIdx?_eq_none_iff, position]
  cases l.findIdx? p <;> simp

theorem position_eq_succ_iff : position p l = i + 1 ↔ FirstAt p l i := by
  have hfind : position p l = i + 1 ↔ l.findIdx? p = some i := by
    rw [position]
    cases l.findIdx? p <;> simp
  rw [hfind, List.findIdx?_eq_some_iff_getElem]
  constructor
  · rintro ⟨hlt, hp, hbefore⟩
    refine ⟨⟨l[i], List.getElem?_eq_getElem hlt, hp⟩, fun j hj a ha => ?_⟩
    obtain ⟨hlt', rfl⟩ := List.getElem?_eq_some_iff.mp ha
    exact Bool.not_eq_true _ ▸ hbefore j hj
  · rintro ⟨⟨a, ha, hp⟩, hbefore⟩
    obtain ⟨hlt, rfl⟩ := List.getElem?_eq_some_iff.mp ha
    refine ⟨hlt, hp, fun j hj => ?_⟩
    rw [hbefore j hj _ (List.getElem?_eq_getElem (Nat.lt_trans hj hlt))]
    exact Bool.false_ne_true

theorem firstAt_take {n : ℕ} : FirstAt p (l.take n) i ↔ i < n ∧ FirstAt p l i := by
  unfold FirstAt
  constructor
  · rintro ⟨⟨a, ha, hp⟩, hbefore⟩
    have hlt : i < n := by
      obtain ⟨hlen, -⟩ := List.getElem?_eq_some_iff.mp ha
      rw [List.length_take] at hlen
      omega
    rw [List.getElem?_take_of_lt hlt] at ha
    refine ⟨hlt, ⟨a, ha, hp⟩, fun j hj b hb => hbefore j hj b ?_⟩
    rw [List.getElem?_take_of_lt (by omega)]
    exact hb
  · rintro ⟨hlt, ⟨a, ha, hp⟩, hbefore⟩
    refine ⟨⟨a, by rw [List.getElem?_take_of_lt hlt]; exact ha, hp⟩, fun j hj b hb => ?_⟩
    rw [List.getElem?_take_of_lt (by omega)] at hb
    exact hbefore j hj b hb

/-- Two searches, one of them cut off after `n` elements, agree if both fail or
both succeed at one place. -/
theorem position_take_eq_iff {n : ℕ} : position p (l'.take n) = position p l ↔
    ((∀ a ∈ l, p a = false) ∧ ∀ a ∈ l'.take n, p a = false) ∨
      ∃ i < n, FirstAt p l i ∧ FirstAt p l' i := by
  cases h : position p l with
  | zero =>
    rw [position_eq_zero_iff]
    have hnone := position_eq_zero_iff.mp h
    refine ⟨fun hall => .inl ⟨hnone, hall⟩, ?_⟩
    rintro (⟨-, hall⟩ | ⟨i, -, hfirst, -⟩)
    · exact hall
    · rw [← position_eq_succ_iff, h] at hfirst
      omega
  | succ i =>
    rw [position_eq_succ_iff, firstAt_take]
    have hfirst := position_eq_succ_iff.mp h
    refine ⟨fun hat => .inr ⟨i, hat.1, hfirst, hat.2⟩, ?_⟩
    rintro (⟨hnone, -⟩ | ⟨j, hj, hfirst', hat⟩)
    · rw [position_eq_zero_iff.mpr hnone] at h
      omega
    · rw [← position_eq_succ_iff, h, Nat.add_right_cancel_iff] at hfirst'
      subst hfirst'
      exact ⟨hj, hat⟩

end Uartd.Lib
