import Mathlib.Algebra.Ring.Nat
import Mathlib.Data.List.Basic

/-!
# Fields, frames and streams

A sender that writes fields one after the other has to say where one ends.

* With a separator: `[s].intercalate fields` is the text with `s` between the
  fields. Splitting it at `s` gives the fields back exactly if none of them
  contains `s` (`splitOn_intercalate_iff`), which is also when it has no other
  `s` than those between fields (`count_separator_iff`).
* With a terminator: a stream of texts, each with `t` behind it, splits into
  these texts exactly if none contains `t` (`splitOn_terminated_iff`).
* With a decoder that finds the end by itself: if it takes each code off the
  front of any input, it takes a stream of codes apart (`decodeStream_flatMap`),
  and two streams of codes are equal only if they carry the same values.
* With a code that ends by itself (`SelfDelimiting`): one of a fixed length, or
  cells up to a terminator (`SelfDelimiting.terminated`).
-/

namespace Uartd.Lib

variable {α β : Type*} {s t x : α} {fields : List (List α)}

-- ---------------------------------------------------------------------------
-- Separated fields, terminated texts
-- ---------------------------------------------------------------------------

/-- A separator after each field is a separated text with one more behind it. -/
theorem flatMap_separated (h : fields ≠ []) :
    fields.flatMap (· ++ [s]) = [s].intercalate fields ++ [s] := by
  induction fields with
  | nil => exact absurd rfl h
  | cons f fields ih =>
    rcases eq_or_ne fields [] with rfl | hne
    · simp
    · rw [List.flatMap_cons, ih hne, List.intercalate_cons_of_ne_nil hne]
      simp only [List.append_assoc]

theorem length_intercalate (h : fields ≠ []) :
    ([s].intercalate fields).length + 1 = (fields.map fun f => f.length + 1).sum := by
  have hlen := congrArg List.length (flatMap_separated (s := s) h)
  rw [List.length_append, List.length_singleton, List.length_flatMap] at hlen
  simpa using hlen.symm

theorem not_mem_intercalate_iff (hxs : x ≠ s) :
    x ∉ [s].intercalate fields ↔ ∀ f ∈ fields, x ∉ f := by
  induction fields with
  | nil => simp
  | cons f fields ih =>
    rw [List.forall_mem_cons, ← ih]
    rcases eq_or_ne fields [] with rfl | hne
    · simp
    · rw [List.intercalate_cons_of_ne_nil hne]
      simp [hxs]

/-- Fields of known lengths are determined by their text, whatever they contain. -/
theorem intercalate_injective_of_length {fields' : List (List α)}
    (hlen : fields.map List.length = fields'.map List.length)
    (h : [s].intercalate fields = [s].intercalate fields') : fields = fields' := by
  induction fields generalizing fields' with
  | nil => exact (List.map_eq_nil_iff.mp hlen.symm).symm
  | cons f fields ih =>
    cases fields' with
    | nil => cases hlen
    | cons f' fields' =>
      rw [List.map_cons, List.map_cons, List.cons.injEq] at hlen
      rcases eq_or_ne fields [] with rfl | hne
      · obtain rfl := List.map_eq_nil_iff.mp hlen.2.symm
        simpa using h
      · have hne' : fields' ≠ [] := fun hnil => hne (by simpa [hnil] using hlen.2)
        rw [List.intercalate_cons_of_ne_nil hne, List.intercalate_cons_of_ne_nil hne'] at h
        obtain ⟨hfirst, hrest⟩ := List.append_inj h (by simp [hlen.1])
        rw [List.append_cancel_right hfirst, ih hlen.2 hrest]

/-- What stands behind the last terminator is one more, empty text. -/
theorem flatten_terminated (texts : List (List α)) :
    (texts.map (· ++ [t])).flatten = [t].intercalate (texts ++ [[]]) := by
  induction texts with
  | nil => rfl
  | cons f texts ih =>
    have hne : texts ++ [[]] ≠ [] := List.append_ne_nil_of_right_ne_nil texts (List.cons_ne_nil _ _)
    rw [List.map_cons, List.flatten_cons, ih, List.cons_append, List.intercalate_cons_of_ne_nil hne]

section Separator

variable [DecidableEq α]

theorem count_intercalate (h : fields ≠ []) :
    ([s].intercalate fields).count s + 1 = fields.length + (fields.map (List.count s)).sum := by
  induction fields with
  | nil => exact absurd rfl h
  | cons f fields ih =>
    rw [List.map_cons, List.sum_cons, List.length_cons]
    rcases eq_or_ne fields [] with rfl | hne
    · rw [List.intercalate_singleton, List.map_nil, List.sum_nil, List.length_nil]
      omega
    · have htail := ih hne
      rw [List.intercalate_cons_of_ne_nil hne, List.count_append, List.count_append,
        List.count_singleton_self]
      omega

/-- The separator is nowhere but between fields. -/
theorem count_separator_iff (h : fields ≠ []) :
    ([s].intercalate fields).count s + 1 = fields.length ↔ ∀ f ∈ fields, s ∉ f := by
  rw [count_intercalate h, Nat.add_eq_left, List.sum_eq_zero_iff_forall_eq_nat,
    List.forall_mem_map]
  simp only [List.count_eq_zero]

theorem not_mem_of_mem_splitOn {xs f : List α} (h : f ∈ xs.splitOn s) : s ∉ f := by
  induction xs generalizing f with
  | nil =>
    rw [List.splitOn_nil, List.mem_singleton] at h
    rw [h]
    exact List.not_mem_nil
  | cons y xs ih =>
    obtain ⟨g, gs, hsplit⟩ := List.exists_cons_of_ne_nil (List.splitOn_ne_nil s xs)
    rw [List.splitOn_cons_eq_if_modifyHead] at h
    rw [hsplit] at h ih
    by_cases hy : y = s
    · rw [if_pos (beq_iff_eq.mpr hy)] at h
      rcases List.mem_cons.mp h with rfl | h
      · exact List.not_mem_nil
      · exact ih h
    · rw [if_neg (by rwa [beq_iff_eq]), List.modifyHead_cons] at h
      rcases List.mem_cons.mp h with rfl | h
      · rw [List.mem_cons, not_or]
        exact ⟨Ne.symm hy, ih List.mem_cons_self⟩
      · exact ih (List.mem_cons_of_mem g h)

theorem splitOn_intercalate_iff (h : fields ≠ []) :
    ([s].intercalate fields).splitOn s = fields ↔ ∀ f ∈ fields, s ∉ f := by
  constructor
  · intro hsplit f hf
    exact not_mem_of_mem_splitOn (hsplit ▸ hf)
  · intro hfree
    exact List.splitOn_intercalate s hfree h

/-- Texts that split into the same fields are the same. -/
theorem splitOn_injective {xs ys : List α} (h : xs.splitOn s = ys.splitOn s) : xs = ys := by
  calc xs = [s].intercalate (xs.splitOn s) := (List.intercalate_splitOn s).symm
    _ = [s].intercalate (ys.splitOn s) := by rw [h]
    _ = ys := List.intercalate_splitOn s

/-- Fields without the separator are determined by their text. -/
theorem intercalate_injective {fields' : List (List α)} (hne : fields ≠ []) (hne' : fields' ≠ [])
    (hfree : ∀ f ∈ fields, s ∉ f) (hfree' : ∀ f ∈ fields', s ∉ f)
    (h : [s].intercalate fields = [s].intercalate fields') : fields = fields' := by
  rw [← (splitOn_intercalate_iff hne).mpr hfree, h, (splitOn_intercalate_iff hne').mpr hfree']

theorem splitOn_terminated_iff (texts : List (List α)) :
    (texts.map (· ++ [t])).flatten.splitOn t = texts ++ [[]] ↔ ∀ f ∈ texts, t ∉ f := by
  rw [flatten_terminated,
    splitOn_intercalate_iff (List.append_ne_nil_of_right_ne_nil texts (List.cons_ne_nil _ _)),
    List.forall_mem_append]
  simp

end Separator

-- ---------------------------------------------------------------------------
-- Codes that find their own end
-- ---------------------------------------------------------------------------

/-- Take values off the front until nothing is left, at most `fuel` of them. -/
def decodeUpTo (decode : List α → Option (β × List α)) : ℕ → List α → Option (List β)
  | _, [] => some []
  | 0, _ :: _ => none
  | fuel + 1, x :: xs =>
    match decode (x :: xs) with
    | none => none
    | some (b, rest) => (decodeUpTo decode fuel rest).map (b :: ·)

/-- Each value of a stream takes a byte of it at least. -/
def decodeStream (decode : List α → Option (β × List α)) (xs : List α) : Option (List β) :=
  decodeUpTo decode xs.length xs

variable {decode : List α → Option (β × List α)} {encode : β → List α}

theorem decodeUpTo_flatMap {bs : List β} (hne : ∀ b ∈ bs, encode b ≠ [])
    (h : ∀ b ∈ bs, ∀ rest, decode (encode b ++ rest) = some (b, rest)) {fuel : ℕ}
    (hfuel : (bs.flatMap encode).length ≤ fuel) :
    decodeUpTo decode fuel (bs.flatMap encode) = some bs := by
  induction bs generalizing fuel with
  | nil =>
    cases fuel with
    | zero => rfl
    | succ fuel => rfl
  | cons b bs ih =>
    have hdecode := h b List.mem_cons_self (bs.flatMap encode)
    obtain ⟨x, xs, hcode⟩ := List.exists_cons_of_ne_nil (hne b List.mem_cons_self)
    rw [List.flatMap_cons, hcode, List.cons_append, List.length_cons, List.length_append] at hfuel
    rw [hcode, List.cons_append] at hdecode
    cases fuel with
    | zero => omega
    | succ fuel =>
      have htail : decodeUpTo decode fuel (bs.flatMap encode) = some bs :=
        ih (fun c hc => hne c (List.mem_cons_of_mem b hc))
          (fun c hc => h c (List.mem_cons_of_mem b hc)) (by omega)
      rw [List.flatMap_cons, hcode, List.cons_append, decodeUpTo, hdecode]
      show (decodeUpTo decode fuel (bs.flatMap encode)).map (b :: ·) = _
      rw [htail]
      rfl

theorem decodeStream_flatMap {bs : List β} (hne : ∀ b ∈ bs, encode b ≠ [])
    (h : ∀ b ∈ bs, ∀ rest, decode (encode b ++ rest) = some (b, rest)) :
    decodeStream decode (bs.flatMap encode) = some bs :=
  decodeUpTo_flatMap hne h (Nat.le_refl _)

/-- Where a codeword ends, and which one it is, does not depend on what follows. -/
def SelfDelimiting (encode : β → List α) : Prop :=
  ∀ ⦃a b : β⦄ ⦃xs ys : List α⦄, encode a ++ xs = encode b ++ ys → a = b ∧ xs = ys

namespace SelfDelimiting

theorem of_length {w : ℕ} (hlen : ∀ b, (encode b).length = w)
    (hinj : Function.Injective encode) : SelfDelimiting encode := by
  intro a b xs ys h
  obtain ⟨hcode, hrest⟩ := List.append_inj h ((hlen a).trans (hlen b).symm)
  exact ⟨hinj hcode, hrest⟩

/-- Cells up to a terminator that no cell starts with. -/
theorem terminated (h : SelfDelimiting encode) (hstart : ∀ b xs, encode b ≠ t :: xs)
    (hne : ∀ b, encode b ≠ []) : SelfDelimiting fun bs : List β => bs.flatMap encode ++ [t] := by
  have hstop : ∀ b xs ys, encode b ++ xs ≠ t :: ys := by
    intro b xs ys heq
    obtain ⟨x, code, hcode⟩ := List.exists_cons_of_ne_nil (hne b)
    rw [hcode, List.cons_append, List.cons.injEq] at heq
    exact hstart b code (heq.1 ▸ hcode)
  intro as
  induction as with
  | nil =>
    intro bs xs ys heq
    cases bs with
    | nil => exact ⟨rfl, (List.cons.inj heq).2⟩
    | cons b bs =>
      simp only [List.flatMap_cons, List.append_assoc] at heq
      exact absurd heq.symm (hstop b _ _)
  | cons a as ih =>
    intro bs xs ys heq
    simp only [List.flatMap_cons, List.append_assoc] at heq
    cases bs with
    | nil => exact absurd heq (hstop a _ _)
    | cons b bs =>
      simp only [List.flatMap_cons, List.append_assoc] at heq
      obtain ⟨rfl, htail⟩ := h heq
      simp only [← List.append_assoc] at htail
      obtain ⟨rfl, hrest⟩ := ih htail
      exact ⟨rfl, hrest⟩

/-- A stream of codewords. -/
theorem flatMap_injective (h : SelfDelimiting encode) (hne : ∀ b, encode b ≠ []) :
    Function.Injective fun bs : List β => bs.flatMap encode := by
  intro as
  induction as with
  | nil =>
    intro bs heq
    cases bs with
    | nil => rfl
    | cons b bs =>
      exact absurd (List.flatMap_eq_nil_iff.mp heq.symm b List.mem_cons_self) (hne b)
  | cons a as ih =>
    intro bs heq
    cases bs with
    | nil => exact absurd (List.flatMap_eq_nil_iff.mp heq a List.mem_cons_self) (hne a)
    | cons b bs =>
      simp only [List.flatMap_cons] at heq
      obtain ⟨rfl, htail⟩ := h heq
      rw [ih htail]

end SelfDelimiting

end Uartd.Lib
