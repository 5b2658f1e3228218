import Uartd.Dueros.Writing

/-!
# Uartd — the bounds of the dueros encoders

None of the three functions checks its index. A button frame takes five bytes
for the type and for each integer, so the block of 64 holds eleven integers; the
others have room for 1018 bytes behind the type, counting a byte for each
delimiter. A string that is a format with arguments has no bound at all.

`encoders_inside_iff` — exactly which calls stay inside their block.
-/

namespace Uartd.Dueros

open Uartd.Lib

variable {α β : Type} {endian : Endian} {okCalloc : Bool}

/-- The call wrote only inside its block of `size` bytes, and the length it returns
fits. A store through the null pointer of a failed `calloc` comes after all writes. -/
def StaysInside (size : ℕ) : Except Fault (Option BufInf) → Prop
  | .ok none => True
  | .ok (some data) => data.buf.length = size ∧ data.len ≤ size
  | .error f => f = .nullPointer

theorem staysInside_bufInf {size : ℕ} {frame : List UInt8} (h : frame.length ≤ size) :
    StaysInside size (.ok (some (bufInf size frame))) :=
  ⟨filled_dest_length h, h⟩

theorem staysInside_newBufInf {size : ℕ} {frame : List UInt8} (okCalloc : Bool)
    (h : frame.length ≤ size) : StaysInside size (newBufInf okCalloc (filled size frame)) := by
  cases okCalloc with
  | false => exact rfl
  | true => exact staysInside_bufInf h

-- ---------------------------------------------------------------------------
-- The null pointer is not met while writing
-- ---------------------------------------------------------------------------

/-- The computation does not end at a null pointer. -/
def NoNull (x : Except Fault α) : Prop := x ≠ .error .nullPointer

theorem noNull_ok (a : α) : NoNull (.ok a : Except Fault α) := nofun

theorem NoNull.bind {x : Except Fault α} {g : α → Except Fault β} (hx : NoNull x)
    (hg : ∀ a, NoNull (g a)) : NoNull (x >>= g) := by
  cases x with
  | error f => exact fun h => hx (congrArg Except.error (Except.error.inj h))
  | ok a => exact hg a

theorem noNull_store (block : List UInt8) (i : ℕ) (bytes : List UInt8) :
    NoNull (store block i bytes) := by
  unfold store
  split
  · exact noNull_ok _
  · exact nofun

theorem noNull_push (d : Dest) (c : UInt8) : NoNull (d.push c) :=
  (noNull_store d.dest d.i [c]).bind fun _ => noNull_ok _

theorem noNull_vaArg (va : VaList α) : NoNull (vaArg va) := by
  cases va with
  | none => exact nofun
  | some args =>
    cases args with
    | nil => exact nofun
    | cons para args => exact noNull_ok _

theorem noNull_expand (mode : Option Spec) (fmt : List UInt8) (args : List CStr) :
    NoNull (expand mode fmt args) := by
  induction fmt generalizing mode args with
  | nil =>
    cases mode with
    | none => exact noNull_ok _
    | some spec => exact nofun
  | cons c fmt ih =>
    cases mode with
    | none =>
      rw [expand_text]
      split
      · exact ih _ _
      · exact (ih _ _).bind fun _ => noNull_ok _
    | some spec =>
      rw [expand_spec]
      split_ifs
      · exact (ih _ _).bind fun _ => noNull_ok _
      · cases args with
        | nil => exact nofun
        | cons para args => exact (ih _ _).bind fun _ => noNull_ok _
      · cases spec.next c with
        | none => exact nofun
        | some spec' => exact ih _ _

theorem noNull_putString (d : Dest) (para : CStr) (va : VaList CStr) :
    NoNull (putString d para va) := by
  have hprint : NoNull (vsprintf d para va) :=
    (noNull_expand _ _ _).bind fun _ => (noNull_store _ _ _).bind fun _ => noNull_ok _
  exact hprint.bind fun _ => (noNull_push _ _).bind fun _ => noNull_ok _

theorem noNull_stringLoop (k : ℕ) (va : VaList CStr) (d : Dest) : NoNull (stringLoop k va d) := by
  induction k generalizing va d with
  | zero => exact noNull_ok d
  | succ k ih =>
    exact (noNull_vaArg va).bind fun _ => (noNull_putString _ _ _).bind fun _ => ih _ _

-- ---------------------------------------------------------------------------
-- Which calls stay inside
-- ---------------------------------------------------------------------------

theorem button_inside_iff {sum : Int} {src : Int32} {args : List Int32}
    (h : args.length = (sum - 1).toNat) :
    StaysInside directButtonBufsize (formatDuerButtonData endian true okCalloc sum src args) ↔
      sum ≤ 11 := by
  have hsize : directButtonBufsize = 64 := rfl
  rw [formatDuerButtonData_eq okCalloc h]
  by_cases hfits : 5 * (args.length + 2) ≤ directButtonBufsize
  · rw [if_pos hfits]
    refine iff_of_true ?_ (by omega)
    cases okCalloc with
    | false => exact trivial
    | true => exact staysInside_bufInf (by rw [buttonFrame_length]; exact hfits)
  · rw [if_neg hfits]
    exact iff_of_false nofun (by omega)

theorem string_inside_iff {sum : Int} {src : CStr} {args : List CStr}
    (h : args.length = (sum - 1).toNat) :
    StaysInside directUrlBufsize (formatDuerStringData endian true okCalloc sum src args) ↔
      (∀ s ∈ src :: args, ∃ out, NoConversion s.bytes out) ∧
        5 + ((src :: args).map fun s => s.bytes.length + 1).sum ≤ directUrlBufsize := by
  rw [formatDuerStringData_eq okCalloc h, ← exists_written_iff]
  cases hloop : stringLoop (src :: args).length (some (src :: args)) (filled directUrlBufsize
      (intBytes endian InstructionType.url.toInt ++ [delimiter])) with
  | error f =>
    refine iff_of_false ?_ ?_
    · rintro rfl
      exact noNull_stringLoop _ _ _ hloop
    · rintro ⟨⟨fields, hfields⟩, hsum⟩
      rw [(stringLoop_start_iff endian).mpr ⟨fields, hfields, hsum, rfl⟩] at hloop
      cases hloop
  | ok d =>
    obtain ⟨fields, hfields, hsum, rfl⟩ := (stringLoop_start_iff endian).mp hloop
    refine iff_of_true ?_ ⟨⟨fields, hfields⟩, hsum⟩
    rw [ok_bind, patch_frame]
    exact staysInside_newBufInf okCalloc (by rw [stringFrame_length endian hfields]; exact hsum)

theorem binary_inside_iff {data : List UInt8} {len : ℕ} (h : len ≤ data.length) :
    StaysInside directUrlBufsize (formatDuerBinaryData endian true okCalloc data len) ↔
      len ≤ 1018 := by
  have hsize : directUrlBufsize = 1024 := rfl
  rw [formatDuerBinaryData_eq okCalloc h]
  by_cases hfits : len + 6 ≤ directUrlBufsize
  · rw [if_pos hfits]
    refine iff_of_true (staysInside_newBufInf okCalloc ?_) (by omega)
    rw [frameOf_length, List.map_singleton, List.sum_singleton, List.length_take_of_le h]
    omega
  · rw [if_neg hfits]
    exact iff_of_false nofun (by omega)

/-- Without a block nothing is written. Otherwise at most eleven integers, strings that
take no arguments and have 1019 bytes with their delimiters, and 1018 bytes of binary
data stay inside, and nothing else does. -/
theorem encoders_inside_iff (endian : Endian) (okMalloc okCalloc : Bool) :
    (∀ (sum : Int) (src : Int32) (args : List Int32), args.length = (sum - 1).toNat →
      (StaysInside directButtonBufsize
          (formatDuerButtonData endian okMalloc okCalloc sum src args) ↔
        (okMalloc = true → sum ≤ 11))) ∧
    (∀ (sum : Int) (src : CStr) (args : List CStr), args.length = (sum - 1).toNat →
      (StaysInside directUrlBufsize
          (formatDuerStringData endian okMalloc okCalloc sum src args) ↔
        (okMalloc = true → (∀ s ∈ src :: args, ∃ out, NoConversion s.bytes out) ∧
          5 + ((src :: args).map fun s => s.bytes.length + 1).sum ≤ 1024))) ∧
    (∀ (data : List UInt8) (len : ℕ), len ≤ data.length →
      (StaysInside directUrlBufsize
          (formatDuerBinaryData endian okMalloc okCalloc data len) ↔
        (okMalloc = true → len ≤ 1018))) := by
  cases okMalloc with
  | false =>
    refine ⟨fun sum src args _ => ?_, fun sum src args _ => ?_, fun data len _ => ?_⟩
    all_goals exact iff_of_true trivial nofun
  | true =>
    refine ⟨fun sum src args h => ?_, fun sum src args h => ?_, fun data len h => ?_⟩
    · rw [button_inside_iff h, forall_prop_of_true rfl]
    · have hsize : directUrlBufsize = 1024 := rfl
      rw [string_inside_iff h, forall_prop_of_true rfl, hsize]
    · rw [binary_inside_iff h, forall_prop_of_true rfl]

/-- The theorem at work: three integers, two strings and four bytes. -/
theorem encoders_inside_small :
    StaysInside directButtonBufsize (formatDuerButtonData .little true true 3 7 [8, 9]) ∧
    StaysInside directUrlBufsize
      (formatDuerStringData .little true true 2 ⟨[104, 105], by decide⟩ [⟨[], by decide⟩]) ∧
    StaysInside directUrlBufsize (formatDuerBinaryData .little true true [1, 2, 3, 4] 4) := by
  obtain ⟨hbutton, hstring, hbinary⟩ := encoders_inside_iff .little true true
  refine ⟨?_, ?_, ?_⟩
  · rw [hbutton 3 7 [8, 9] (by decide)]
    decide
  · rw [hstring 2 ⟨[104, 105], by decide⟩ [⟨[], by decide⟩] (by decide), List.forall_mem_cons,
      List.forall_mem_singleton]
    exact fun _ => ⟨⟨⟨_, noConversion_self (by decide)⟩, ⟨_, .nil⟩⟩, by decide⟩
  · rw [hbinary [1, 2, 3, 4] 4 (by decide)]
    decide

/-- The twelfth integer's delimiter lies one byte behind the block. -/
theorem button_overruns :
    ¬ StaysInside directButtonBufsize
      (formatDuerButtonData .little true true 12 0 (List.replicate 11 0)) := by
  have hiff : StaysInside directButtonBufsize
      (formatDuerButtonData .little true true 12 0 (List.replicate 11 0)) ↔ (12 : Int) ≤ 11 :=
    button_inside_iff (by decide)
  exact fun hinside => absurd (hiff.mp hinside) (by decide)

end Uartd.Dueros
