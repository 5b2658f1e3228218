import Mathlib.Data.List.Forall2
import Uartd.Lib.Framing
import Uartd.Dueros.Basic

/-!
# Uartd — what the dueros encoders write

As long as an encoder stays inside its block, the block is what was written and
zeros behind it (`filled`). Each operation gets one equation on such a block:
it appends its bytes if they fit and is an overrun otherwise.

A string is its own format. `Written s field` is what can stand for it in the
frame: `s` with each `%%` as one `%`, and as many zeros behind it as bytes were
lost. A string with any other conversion leaves the argument list unusable
(`putString_va`), so a loop over strings that returns has met none
(`stringLoop_ok_iff`).
-/

namespace Uartd.Dueros

open Uartd.Lib

variable {α β : Type} {endian : Endian} {size : ℕ} {acc bytes fmt out field : List UInt8}
  {d d' : Dest} {s para : CStr} {va va' : VaList CStr}

@[simp] theorem ok_bind (x : α) (g : α → Except Fault β) :
    ((Except.ok x : Except Fault α) >>= g) = g x := rfl

theorem bind_eq_ok {x : Except Fault α} {g : α → Except Fault β} {b : β} (h : x >>= g = .ok b) :
    ∃ a, x = .ok a ∧ g a = .ok b := by
  cases x with
  | error f => cases h
  | ok a => exact ⟨a, rfl, h⟩

@[simp] theorem intBytes_length (endian : Endian) (x : Int32) : (intBytes endian x).length = 4 := by
  cases endian <;> rfl

/-- What is there before the first field. -/
theorem type_delimiter_length (endian : Endian) (type : InstructionType) :
    (intBytes endian type.toInt ++ [delimiter]).length = 5 := by
  rw [List.length_append, intBytes_length, List.length_singleton]

-- ---------------------------------------------------------------------------
-- A block that is filled from the front
-- ---------------------------------------------------------------------------

/-- `acc` written into a zeroed block of `size` bytes. -/
def filled (size : ℕ) (acc : List UInt8) : Dest :=
  ⟨acc ++ List.replicate (size - acc.length) 0, acc.length⟩

theorem filled_dest_length (hacc : acc.length ≤ size) : (filled size acc).dest.length = size := by
  show (acc ++ List.replicate (size - acc.length) 0).length = size
  rw [List.length_append, List.length_replicate]
  omega

/-- The zeros behind what is written can count as written. -/
theorem filled_zeros {k : ℕ} (hk : acc.length + k ≤ size) :
    (filled size (acc ++ List.replicate k 0)).dest = (filled size acc).dest := by
  show acc ++ List.replicate k 0 ++
    List.replicate (size - (acc ++ List.replicate k (0 : UInt8)).length) 0 = acc ++ _
  rw [List.append_assoc, List.replicate_append_replicate, List.length_append,
    List.length_replicate]
  congr 2
  omega

theorem store_filled (hacc : acc.length ≤ size) (bytes : List UInt8) :
    store (filled size acc).dest acc.length bytes =
      if acc.length + bytes.length ≤ size then .ok (filled size (acc ++ bytes)).dest
      else .error .overrun := by
  unfold store
  rw [filled_dest_length hacc]
  refine if_congr Iff.rfl (congrArg Except.ok ?_) rfl
  show (acc ++ List.replicate (size - acc.length) 0).take acc.length ++ bytes ++
    (acc ++ List.replicate (size - acc.length) 0).drop (acc.length + bytes.length) =
      acc ++ bytes ++ List.replicate (size - (acc ++ bytes).length) 0
  rw [List.take_left, List.drop_append, List.drop_eq_nil_of_le (Nat.le_add_right _ _),
    List.nil_append, List.drop_replicate, List.length_append]
  congr 2
  omega

theorem zeroed_eq_filled (size : ℕ) : Dest.zeroed size = filled size [] := rfl

theorem copy_filled (hacc : acc.length ≤ size) (bytes : List UInt8) :
    (filled size acc).copy bytes =
      if acc.length + bytes.length ≤ size then .ok (filled size (acc ++ bytes))
      else .error .overrun := by
  show (store (filled size acc).dest acc.length bytes >>= fun dest =>
    pure (⟨dest, acc.length + bytes.length⟩ : Dest)) = _
  rw [store_filled hacc]
  split
  · rw [ok_bind, ← List.length_append]
    rfl
  · rfl

theorem push_filled (hacc : acc.length ≤ size) (c : UInt8) :
    (filled size acc).push c =
      if acc.length + 1 ≤ size then .ok (filled size (acc ++ [c])) else .error .overrun :=
  copy_filled hacc [c]

theorem patch_filled (acc : List UInt8) (c c' : UInt8) :
    (filled size (acc ++ [c])).patch c' = .ok (filled size (acc ++ [c'])) := by
  have hstore : store (filled size (acc ++ [c])).dest ((filled size (acc ++ [c])).i - 1) [c'] =
      .ok (filled size (acc ++ [c'])).dest := by
    show store (acc ++ [c] ++ List.replicate (size - (acc ++ [c]).length) 0)
      ((acc ++ [c]).length - 1) [c'] =
        .ok (acc ++ [c'] ++ List.replicate (size - (acc ++ [c']).length) 0)
    rw [List.length_append, List.length_append, List.length_singleton, List.length_singleton,
      Nat.add_sub_cancel, store, if_pos (by simp)]
    simp
  have hindex : (acc ++ [c]).length = (acc ++ [c']).length := by
    rw [List.length_append, List.length_append, List.length_singleton, List.length_singleton]
  unfold Dest.patch
  rw [hstore, ok_bind]
  show Except.ok (Dest.mk _ (acc ++ [c]).length) = Except.ok (Dest.mk _ (acc ++ [c']).length)
  rw [hindex]
  rfl

/-- The frame that is left once the last delimiter is the terminator. -/
theorem patch_fields {fields : List (List UInt8)} (hne : fields ≠ []) :
    (filled size (fields.flatMap (· ++ [delimiter]))).patch terminator =
      .ok (filled size ([delimiter].intercalate fields ++ [terminator])) := by
  rw [flatMap_separated hne, patch_filled]

theorem start_filled (type : InstructionType) (hsize : 5 ≤ size) :
    start endian size type = .ok (filled size (intBytes endian type.toInt ++ [delimiter])) := by
  have hlen : (intBytes endian type.toInt).length = 4 := intBytes_length _ _
  unfold start
  rw [zeroed_eq_filled, copy_filled (Nat.zero_le size), List.length_nil, List.nil_append, hlen,
    if_pos (by omega), ok_bind, push_filled (by omega), hlen, if_pos hsize]

/-- A block filled up to `i` cannot take a byte behind its end. -/
theorem push_overrun {c : UInt8} (h : d.dest.length < d.i + 1) : d.push c = .error .overrun := by
  show (store d.dest d.i [c] >>= _) = _
  rw [store, if_neg (by simpa using h)]
  rfl

-- ---------------------------------------------------------------------------
-- Integers
-- ---------------------------------------------------------------------------

theorem putInt_filled (hacc : acc.length ≤ size) (para : Int32) :
    putInt endian (filled size acc) para =
      if acc.length + 5 ≤ size then
        .ok (filled size (acc ++ (intBytes endian para ++ [delimiter])))
      else .error .overrun := by
  unfold putInt
  rw [copy_filled hacc, intBytes_length]
  by_cases hfour : acc.length + 4 ≤ size
  · rw [if_pos hfour, ok_bind, push_filled (by simpa using hfour), List.length_append,
      intBytes_length, List.append_assoc]
  · rw [if_neg hfour, if_neg (by omega)]
    rfl

theorem buttonLoop_filled (args : List Int32) (hacc : acc.length ≤ size) :
    buttonLoop endian args.length (some args) (filled size acc) =
      if acc.length + 5 * args.length ≤ size then
        .ok (filled size (acc ++ (args.map (intBytes endian)).flatMap (· ++ [delimiter])))
      else .error .overrun := by
  induction args generalizing acc with
  | nil =>
    rw [List.map_nil, List.flatMap_nil, List.append_nil, List.length_nil, Nat.mul_zero,
      Nat.add_zero, if_pos hacc]
    rfl
  | cons para args ih =>
    show (putInt endian (filled size acc) para >>= fun d =>
      buttonLoop endian args.length (some args) d) = _
    rw [putInt_filled hacc, List.length_cons, List.map_cons, List.flatMap_cons]
    by_cases hfive : acc.length + 5 ≤ size
    · have hlen : (acc ++ (intBytes endian para ++ [delimiter])).length = acc.length + 5 := by simp
      rw [if_pos hfive, ok_bind, ih (by omega), hlen, List.append_assoc]
      refine if_congr ?_ rfl rfl
      omega
    · rw [if_neg hfive, if_neg (by omega)]
      rfl

-- ---------------------------------------------------------------------------
-- Formats
-- ---------------------------------------------------------------------------

/-- A format whose only conversions are `%%`, and what it writes. -/
inductive NoConversion : List UInt8 → List UInt8 → Prop where
  | nil : NoConversion [] []
  | char {c : UInt8} {fmt out : List UInt8} : c ≠ 37 → NoConversion fmt out →
      NoConversion (c :: fmt) (c :: out)
  | percent {fmt out : List UInt8} : NoConversion fmt out →
      NoConversion (37 :: 37 :: fmt) (37 :: out)

theorem NoConversion.length_le (h : NoConversion fmt out) : out.length ≤ fmt.length := by
  induction h with
  | nil => exact Nat.le_refl 0
  | char _ _ ih =>
    rw [List.length_cons, List.length_cons]
    exact Nat.succ_le_succ ih
  | percent _ ih =>
    rw [List.length_cons, List.length_cons, List.length_cons]
    omega

theorem NoConversion.length_lt (h : NoConversion fmt out) (hmem : 37 ∈ fmt) :
    out.length < fmt.length := by
  induction h with
  | nil => exact absurd hmem List.not_mem_nil
  | char hc _ ih =>
    have htail := ih ((List.mem_cons.mp hmem).resolve_left (Ne.symm hc))
    rw [List.length_cons, List.length_cons]
    exact Nat.succ_lt_succ htail
  | percent h _ =>
    have hle := h.length_le
    rw [List.length_cons, List.length_cons, List.length_cons]
    omega

theorem noConversion_self (h : 37 ∉ fmt) : NoConversion fmt fmt := by
  induction fmt with
  | nil => exact .nil
  | cons c fmt ih =>
    rw [List.mem_cons, not_or] at h
    exact .char (Ne.symm h.1) (ih h.2)

theorem expand_text (c : UInt8) (fmt : List UInt8) (args : List CStr) :
    expand none (c :: fmt) args =
      if c = 37 then expand (some .start) fmt args
      else expand none fmt args >>= fun r => pure (c :: r.1, r.2) := rfl

theorem expand_spec (spec : Spec) (c : UInt8) (fmt : List UInt8) (args : List CStr) :
    expand (some spec) (c :: fmt) args =
      if c = 37 ∧ spec.bare then expand none fmt args >>= fun r => pure (37 :: r.1, r.2)
      else if c = 115 then
        match args with
        | [] => .error .noArgument
        | para :: args =>
          expand none fmt args >>= fun r => pure (spec.text para.bytes ++ r.1, true)
      else
        match spec.next c with
        | some spec => expand (some spec) fmt args
        | none => .error .conversion := rfl

theorem expand_of_noConversion (h : NoConversion fmt out) (args : List CStr) :
    expand none fmt args = .ok (out, false) := by
  induction h with
  | nil => rfl
  | char hc _ ih =>
    rw [expand_text, if_neg hc, ih]
    rfl
  | percent _ ih =>
    rw [expand_text, if_pos rfl, expand_spec, if_pos ⟨rfl, rfl⟩, ih]
    rfl

theorem Spec.next_bare {spec spec' : Spec} {c : UInt8} (h : spec.next c = some spec') :
    spec'.bare = false := by
  unfold Spec.next at h
  split at h
  · split_ifs at h
    rw [← Option.some.inj h]
  · split_ifs at h <;> rw [← Option.some.inj h]

/-- The rest of a format that takes no argument, behind what `mode` says was read. -/
def Plain : Option Spec → List UInt8 → List UInt8 → Prop
  | none, fmt, out => NoConversion fmt out
  | some spec, fmt, out => spec.bare = true ∧ NoConversion (37 :: fmt) out

/-- A format is written as plain text, or with an argument that was there. -/
theorem expand_ok {mode : Option Spec} {args : List CStr} {taken : Bool}
    (h : expand mode fmt args = .ok (out, taken)) :
    (taken = true ∧ args ≠ []) ∨ (taken = false ∧ Plain mode fmt out) := by
  induction fmt generalizing mode args out taken with
  | nil =>
    cases mode with
    | none =>
      cases h
      exact .inr ⟨rfl, .nil⟩
    | some spec => cases h
  | cons c fmt ih =>
    cases mode with
    | none =>
      rw [expand_text] at h
      split_ifs at h with hc
      · rcases ih h with htaken | ⟨hfalse, -, hplain⟩
        · exact .inl htaken
        · exact .inr ⟨hfalse, hc ▸ hplain⟩
      · obtain ⟨⟨out', taken'⟩, hrec, heq⟩ := bind_eq_ok h
        cases heq
        rcases ih hrec with htaken | ⟨hfalse, hplain⟩
        · exact .inl htaken
        · exact .inr ⟨hfalse, .char hc hplain⟩
    | some spec =>
      rw [expand_spec] at h
      split_ifs at h with hpercent hstring
      · obtain ⟨⟨out', taken'⟩, hrec, heq⟩ := bind_eq_ok h
        cases heq
        rcases ih hrec with htaken | ⟨hfalse, hplain⟩
        · exact .inl htaken
        · exact .inr ⟨hfalse, hpercent.2, hpercent.1 ▸ .percent hplain⟩
      · -- `%s`: an argument is taken, whatever the rest of the format does
        cases args with
        | nil => cases h
        | cons para args =>
          obtain ⟨⟨out', taken'⟩, -, heq⟩ := bind_eq_ok h
          cases heq
          exact .inl ⟨rfl, List.cons_ne_nil para args⟩
      · cases hnext : spec.next c with
        | none =>
          rw [hnext] at h
          cases h
        | some spec' =>
          rw [hnext] at h
          rcases ih h with htaken | ⟨-, hbare, -⟩
          · exact .inl htaken
          · rw [Spec.next_bare hnext] at hbare
            cases hbare

-- ---------------------------------------------------------------------------
-- Strings
-- ---------------------------------------------------------------------------

/-- What can stand for `s` in a frame. -/
def Written (s : CStr) (field : List UInt8) : Prop :=
  ∃ out, NoConversion s.bytes out ∧ field = out ++ List.replicate (s.bytes.length - out.length) 0

theorem Written.length_eq (h : Written s field) : field.length = s.bytes.length := by
  obtain ⟨out, hout, rfl⟩ := h
  have hle := hout.length_le
  rw [List.length_append, List.length_replicate]
  omega

theorem Written.append_length (h : Written s field) (acc : List UInt8) (c : UInt8) :
    (acc ++ (field ++ [c])).length = acc.length + (s.bytes.length + 1) := by
  rw [List.length_append, List.length_append, List.length_singleton, h.length_eq]

theorem written_map_length {args : List CStr} {fields : List (List UInt8)}
    (h : List.Forall₂ Written args fields) :
    fields.map List.length = args.map fun s => s.bytes.length := by
  induction h with
  | nil => rfl
  | cons hfield _ ih => rw [List.map_cons, List.map_cons, hfield.length_eq, ih]

theorem exists_written_iff {args : List CStr} :
    (∃ fields, List.Forall₂ Written args fields) ↔ ∀ s ∈ args, ∃ out, NoConversion s.bytes out := by
  induction args with
  | nil => exact iff_of_true ⟨[], .nil⟩ (List.forall_mem_nil _)
  | cons s args ih =>
    rw [List.forall_mem_cons, ← ih]
    constructor
    · rintro ⟨_, hfields⟩
      cases hfields with
      | cons hfield hfields =>
        obtain ⟨out, hout, -⟩ := hfield
        exact ⟨⟨out, hout⟩, _, hfields⟩
    · rintro ⟨⟨out, hout⟩, fields, hfields⟩
      exact ⟨_, .cons ⟨out, hout, rfl⟩ hfields⟩

/-- A string stands for itself unless it has a `%`. -/
theorem written_self_iff (s : CStr) : Written s s.bytes ↔ 37 ∉ s.bytes := by
  constructor
  · rintro ⟨out, hout, heq⟩ hmem
    have hlt := hout.length_lt hmem
    refine s.no_nul ?_
    rw [heq, List.mem_append, List.mem_replicate]
    exact .inr ⟨by omega, rfl⟩
  · intro hfree
    exact ⟨s.bytes, noConversion_self hfree, by simp⟩

theorem written_map_bytes_iff {args : List CStr} :
    List.Forall₂ Written args (args.map CStr.bytes) ↔ ∀ s ∈ args, 37 ∉ s.bytes := by
  rw [List.forall₂_map_right_iff, List.forall₂_same]
  exact forall₂_congr fun s _ => written_self_iff s

theorem vsprintf_plain (hout : NoConversion para.bytes out) (d : Dest) (va : VaList CStr) :
    vsprintf d para va = store d.dest d.i (out ++ [0]) >>= fun dest => pure (dest, va) := by
  unfold vsprintf
  rw [expand_of_noConversion hout]
  rfl

/-- The NUL behind what `vsprintf` wrote and the bytes up to the next index are zeros. -/
theorem filled_written (hout : NoConversion para.bytes out)
    (hfits : acc.length + (para.bytes.length + 1) ≤ size) :
    (⟨(filled size (acc ++ (out ++ [0]))).dest, acc.length + para.bytes.length⟩ : Dest) =
      filled size (acc ++ (out ++ List.replicate (para.bytes.length - out.length) 0)) := by
  have hle := hout.length_le
  have hnul : (filled size (acc ++ (out ++ [0]))).dest = (filled size (acc ++ out)).dest := by
    rw [← List.append_assoc]
    exact filled_zeros (k := 1) (by rw [List.length_append]; omega)
  have hpad : (filled size
      (acc ++ (out ++ List.replicate (para.bytes.length - out.length) 0))).dest =
        (filled size (acc ++ out)).dest := by
    rw [← List.append_assoc]
    exact filled_zeros (by rw [List.length_append]; omega)
  rw [hnul, ← hpad]
  show Dest.mk _ _ = Dest.mk _ _
  congr 1
  rw [List.length_append, List.length_append, List.length_replicate]
  omega

theorem putString_of_written (h : Written para field) (hacc : acc.length ≤ size)
    (va : VaList CStr) :
    putString (filled size acc) para va =
      if acc.length + (para.bytes.length + 1) ≤ size then
        .ok (filled size (acc ++ (field ++ [delimiter])), va)
      else .error .overrun := by
  have hlen := h.length_eq
  obtain ⟨out, hout, rfl⟩ := h
  have hle := hout.length_le
  unfold putString
  rw [vsprintf_plain hout]
  show ((store (filled size acc).dest acc.length (out ++ [0]) >>= fun dest => pure (dest, va)) >>=
    fun r => Dest.push ⟨r.1, acc.length + para.bytes.length⟩ delimiter >>= fun d =>
      pure (d, r.2)) = _
  rw [store_filled hacc, List.length_append, List.length_singleton]
  by_cases hfits : acc.length + (para.bytes.length + 1) ≤ size
  · rw [if_pos (by omega), if_pos hfits]
    show (Dest.push ⟨(filled size (acc ++ (out ++ [0]))).dest, acc.length + para.bytes.length⟩
      delimiter >>= fun d => pure (d, va)) = _
    rw [filled_written hout hfits, push_filled (by rw [List.length_append, hlen]; omega),
      if_pos (by rw [List.length_append, hlen]; omega), ok_bind, List.append_assoc]
    rfl
  · rw [if_neg hfits]
    by_cases hout' : acc.length + (out.length + 1) ≤ size
    · -- the text fits, the delimiter does not
      rw [if_pos hout']
      show (Dest.push ⟨(filled size (acc ++ (out ++ [0]))).dest, acc.length + para.bytes.length⟩
        delimiter >>= fun d => pure (d, va)) = _
      have hdest : (filled size (acc ++ (out ++ [0]))).dest.length = size :=
        filled_dest_length (by simpa using hout')
      have hover : (filled size (acc ++ (out ++ [0]))).dest.length <
          acc.length + para.bytes.length + 1 := by omega
      rw [push_overrun hover]
      rfl
    · rw [if_neg hout']
      rfl

/-- After a string that takes arguments the list is indeterminate; with no argument
left there is none that returns. -/
theorem putString_va (h : putString d para va = .ok (d', va')) :
    (va' = none ∧ va ≠ some []) ∨ (va' = va ∧ ∃ field, Written para field) := by
  obtain ⟨⟨dest, va₁⟩, hprint, h⟩ := bind_eq_ok h
  obtain ⟨d₁, -, h⟩ := bind_eq_ok h
  cases h
  obtain ⟨⟨out, taken⟩, hexpand, hprint⟩ := bind_eq_ok hprint
  obtain ⟨dest', -, hprint⟩ := bind_eq_ok hprint
  cases hprint
  rcases expand_ok hexpand with ⟨rfl, hargs⟩ | ⟨rfl, hplain⟩
  · refine .inl ⟨rfl, fun hva => hargs ?_⟩
    rw [hva]
    rfl
  · exact .inr ⟨rfl, _, out, hplain, rfl⟩

/-- The loop over strings returns if each can stand in the frame and all fit. -/
theorem stringLoop_ok_iff {args : List CStr} (hacc : acc.length ≤ size) :
    stringLoop args.length (some args) (filled size acc) = .ok d ↔
      ∃ fields, List.Forall₂ Written args fields ∧
        acc.length + (args.map fun s => s.bytes.length + 1).sum ≤ size ∧
        d = filled size (acc ++ fields.flatMap (· ++ [delimiter])) := by
  induction args generalizing acc with
  | nil =>
    constructor
    · intro h
      cases h
      exact ⟨[], .nil, by simpa using hacc, by simp⟩
    · rintro ⟨fields, hfields, -, rfl⟩
      cases hfields
      simp [stringLoop]
  | cons para args ih =>
    have hstep : stringLoop (para :: args).length (some (para :: args)) (filled size acc) =
        putString (filled size acc) para (some args) >>= fun r =>
          stringLoop args.length r.2 r.1 := rfl
    rw [hstep, List.map_cons, List.sum_cons]
    constructor
    · intro h
      obtain ⟨⟨d', va'⟩, hput, h⟩ := bind_eq_ok h
      rcases putString_va hput with ⟨rfl, hargs⟩ | ⟨rfl, field, hfield⟩
      · -- the next iteration, if there is one, asks an indeterminate list
        cases args with
        | nil => exact absurd rfl hargs
        | cons s args => cases h
      · rw [putString_of_written hfield hacc] at hput
        split_ifs at hput with hfits
        cases hput
        have hlen := hfield.append_length acc delimiter
        obtain ⟨fields, hfields, hsum, rfl⟩ := (ih (by omega)).mp h
        refine ⟨field :: fields, .cons hfield hfields, by omega, ?_⟩
        rw [List.flatMap_cons, List.append_assoc acc]
    · rintro ⟨fields, hfields, hsum, rfl⟩
      cases hfields with
      | @cons _ field _ fields hfield hfields =>
        have hlen := hfield.append_length acc delimiter
        rw [putString_of_written hfield hacc, if_pos (by omega), ok_bind]
        refine (ih (by omega)).mpr ⟨fields, hfields, by omega, ?_⟩
        rw [List.flatMap_cons, ← List.append_assoc acc]

-- ---------------------------------------------------------------------------
-- The three encoders
-- ---------------------------------------------------------------------------

/-- The type and the fields with delimiters between them, and the terminator. -/
def frameOf (endian : Endian) (type : InstructionType) (fields : List (List UInt8)) : List UInt8 :=
  [delimiter].intercalate (intBytes endian type.toInt :: fields) ++ [terminator]

/-- A returned `BUF_INF` whose block was filled with `frame`. -/
def bufInf (size : ℕ) (frame : List UInt8) : BufInf := ⟨(filled size frame).dest, frame.length⟩

@[simp] theorem bufInf_frame (size : ℕ) (frame : List UInt8) : (bufInf size frame).frame = frame :=
  List.take_left

theorem frameOf_length (endian : Endian) (type : InstructionType) (fields : List (List UInt8)) :
    (frameOf endian type fields).length = 5 + (fields.map fun f => f.length + 1).sum := by
  rw [frameOf, List.length_append, List.length_singleton,
    length_intercalate (List.cons_ne_nil _ fields), List.map_cons, List.sum_cons, intBytes_length]

theorem buttonFrame_length (endian : Endian) (xs : List Int32) :
    (frameOf endian .button (xs.map (intBytes endian))).length = 5 * (xs.length + 1) := by
  rw [frameOf_length, List.map_map]
  simp [Function.comp_def]
  omega

theorem stringFrame_length (endian : Endian) {xs : List CStr} {fields : List (List UInt8)}
    (h : List.Forall₂ Written xs fields) :
    (frameOf endian .url fields).length = 5 + (xs.map fun s => s.bytes.length + 1).sum := by
  have hmap := congrArg (List.map (· + 1)) (written_map_length h)
  rw [List.map_map, List.map_map] at hmap
  rw [frameOf_length]
  exact congrArg (fun l => 5 + l.sum) hmap

/-- The first field and its delimiter are what is there before the fields. -/
theorem patch_frame (endian : Endian) (type : InstructionType) (fields : List (List UInt8)) :
    (filled size (intBytes endian type.toInt ++ [delimiter] ++
      fields.flatMap (· ++ [delimiter]))).patch terminator =
        .ok (filled size (frameOf endian type fields)) :=
  patch_fields (List.cons_ne_nil (intBytes endian type.toInt) fields)

theorem formatDuerButtonData_eq {sum : Int} {src : Int32} {args : List Int32} (okCalloc : Bool)
    (h : args.length = (sum - 1).toNat) :
    formatDuerButtonData endian true okCalloc sum src args =
      if 5 * (args.length + 2) ≤ directButtonBufsize then
        .ok (if okCalloc then some (bufInf directButtonBufsize
          (frameOf endian .button ((src :: args).map (intBytes endian)))) else none)
      else .error .overrun := by
  have hacc := type_delimiter_length endian .button
  have hloop : buttonLoop endian (args.length + 1) (some (src :: args)) (filled directButtonBufsize
      (intBytes endian InstructionType.button.toInt ++ [delimiter])) = _ :=
    buttonLoop_filled (src :: args) (by rw [hacc]; decide)
  rw [hacc, List.length_cons] at hloop
  unfold formatDuerButtonData
  rw [if_pos rfl, start_filled _ (by decide), ok_bind, ← h]
  -- the first integer is written like those of the loop
  rw [← bind_assoc]
  show (buttonLoop endian (args.length + 1) (some (src :: args)) _ >>= _) = _
  rw [hloop]
  by_cases hfits : 5 + 5 * (args.length + 1) ≤ directButtonBufsize
  · rw [if_pos hfits, if_pos (by omega), ok_bind, patch_frame, ok_bind]
    cases okCalloc <;> rfl
  · rw [if_neg hfits, if_neg (by omega)]
    rfl

/-- The strings are one list from `src` on, and what `calloc` returns comes after them. -/
theorem formatDuerStringData_eq {sum : Int} {src : CStr} {args : List CStr} (okCalloc : Bool)
    (h : args.length = (sum - 1).toNat) :
    formatDuerStringData endian true okCalloc sum src args =
      stringLoop (src :: args).length (some (src :: args)) (filled directUrlBufsize
        (intBytes endian InstructionType.url.toInt ++ [delimiter])) >>= fun d =>
          d.patch terminator >>= newBufInf okCalloc := by
  unfold formatDuerStringData
  rw [if_pos rfl, start_filled _ (by decide), ok_bind, ← h]
  show _ = (putString _ src (some args) >>= fun r => stringLoop args.length r.2 r.1) >>= _
  rw [bind_assoc]

theorem stringLoop_start_iff (endian : Endian) {xs : List CStr} {d : Dest} :
    stringLoop xs.length (some xs) (filled directUrlBufsize
      (intBytes endian InstructionType.url.toInt ++ [delimiter])) = .ok d ↔
        ∃ fields, List.Forall₂ Written xs fields ∧
          5 + (xs.map fun s => s.bytes.length + 1).sum ≤ directUrlBufsize ∧
          d = filled directUrlBufsize (intBytes endian InstructionType.url.toInt ++ [delimiter] ++
            fields.flatMap (· ++ [delimiter])) := by
  have hacc := type_delimiter_length endian .url
  rw [stringLoop_ok_iff (by rw [hacc]; decide), hacc]

theorem formatDuerStringData_ok_iff {sum : Int} {src : CStr} {args : List CStr} {data : BufInf}
    (h : args.length = (sum - 1).toNat) :
    formatDuerStringData endian true true sum src args = .ok (some data) ↔
      ∃ fields, List.Forall₂ Written (src :: args) fields ∧
        5 + ((src :: args).map fun s => s.bytes.length + 1).sum ≤ directUrlBufsize ∧
        data = bufInf directUrlBufsize (frameOf endian .url fields) := by
  rw [formatDuerStringData_eq true h]
  constructor
  · intro hdata
    obtain ⟨d, hloop, hdata⟩ := bind_eq_ok hdata
    obtain ⟨fields, hfields, hsum, rfl⟩ := (stringLoop_start_iff endian).mp hloop
    rw [patch_frame] at hdata
    cases hdata
    exact ⟨fields, hfields, hsum, rfl⟩
  · rintro ⟨fields, hfields, hsum, rfl⟩
    rw [(stringLoop_start_iff endian).mpr ⟨fields, hfields, hsum, rfl⟩, ok_bind, patch_frame]
    rfl

theorem formatDuerStringData_of_no_percent {sum : Int} {src : CStr} {args : List CStr}
    (h : args.length = (sum - 1).toNat) (hfree : ∀ s ∈ src :: args, 37 ∉ s.bytes)
    (hfits : 5 + ((src :: args).map fun s => s.bytes.length + 1).sum ≤ directUrlBufsize) :
    formatDuerStringData endian true true sum src args = .ok (some (bufInf directUrlBufsize
      (frameOf endian .url ((src :: args).map CStr.bytes)))) :=
  (formatDuerStringData_ok_iff h).mpr ⟨_, written_map_bytes_iff.mpr hfree, hfits, rfl⟩

/-- Without a block for the result nothing is returned. -/
theorem formatDuerStringData_null {sum : Int} {src : CStr} {args : List CStr} {data : BufInf}
    (h : args.length = (sum - 1).toNat) :
    formatDuerStringData endian true false sum src args ≠ .ok (some data) := by
  intro hdata
  rw [formatDuerStringData_eq false h] at hdata
  obtain ⟨d, -, hdata⟩ := bind_eq_ok hdata
  obtain ⟨d', -, hdata⟩ := bind_eq_ok hdata
  cases hdata

theorem formatDuerBinaryData_eq {data : List UInt8} {len : ℕ} (okCalloc : Bool)
    (h : len ≤ data.length) :
    formatDuerBinaryData endian true okCalloc data len =
      if len + 6 ≤ directUrlBufsize then
        newBufInf okCalloc (filled directUrlBufsize (frameOf endian .url [data.take len]))
      else .error .overrun := by
  have hacc := type_delimiter_length endian .url
  have hlen : (data.take len).length = len := List.length_take_of_le h
  have hle : (intBytes endian InstructionType.url.toInt ++ [delimiter]).length ≤
      directUrlBufsize := by rw [hacc]; decide
  unfold formatDuerBinaryData load
  rw [if_pos rfl, start_filled _ (by decide), ok_bind, if_pos h, ok_bind, copy_filled hle, hacc,
    hlen]
  by_cases hfits : 5 + len ≤ directUrlBufsize
  · rw [if_pos hfits, ok_bind, push_filled (by rw [List.length_append, hacc, hlen]; exact hfits),
      List.length_append, hacc, hlen]
    by_cases hend : len + 6 ≤ directUrlBufsize
    · rw [if_pos (by omega), if_pos hend, ok_bind]
      simp [frameOf]
    · rw [if_neg (by omega), if_neg hend]
      rfl
  · rw [if_neg hfits, if_neg (by omega)]
    rfl

end Uartd.Dueros
