import Uartd.Dueros.Writing

/-!
# Uartd — reading button frames

A button frame is read by its layout and not by its delimiters: cells of four
bytes for an integer and one byte, of which only a terminator ends the frame. So
the bytes of the integers may be any, also those of the delimiter and the
terminator, and a stream of button frames reads back as the calls that made it
(`button_frames_decode`).
-/

namespace Uartd.Dueros

open Uartd.Lib

/-- The word with the given bytes, the lowest first. -/
def wordOfBytes (b₀ b₁ b₂ b₃ : UInt8) : UInt32 :=
  .ofNat (b₀.toNat + 256 * b₁.toNat + 65536 * b₂.toNat + 16777216 * b₃.toNat)

/-- The `int` with the bytes `b₀ … b₃` in memory. -/
def intOfBytes (endian : Endian) (b₀ b₁ b₂ b₃ : UInt8) : Int32 :=
  match endian with
  | .little => (wordOfBytes b₀ b₁ b₂ b₃).toInt32
  | .big => (wordOfBytes b₃ b₂ b₁ b₀).toInt32

/-- The integers of the cells up to the first one that ends with a terminator, and
what stands behind it. -/
def decodeCells (endian : Endian) : List UInt8 → Option (List Int32 × List UInt8)
  | b₀ :: b₁ :: b₂ :: b₃ :: c :: rest =>
    let x := intOfBytes endian b₀ b₁ b₂ b₃
    if c = terminator then some ([x], rest)
    else (decodeCells endian rest).map fun r => (x :: r.1, r.2)
  | _ => none

/-- The type in the leading cell, the other integers, and what stands behind the frame. -/
def decodeButton (endian : Endian) (bytes : List UInt8) :
    Option ((Int32 × List Int32) × List UInt8) :=
  match decodeCells endian bytes with
  | some (type :: xs, rest) => some ((type, xs), rest)
  | _ => none

variable {endian : Endian}

theorem wordOfBytes_digits (w : UInt32) :
    wordOfBytes (.ofNat w.toNat) (.ofNat (w.toNat / 256)) (.ofNat (w.toNat / 65536))
      (.ofNat (w.toNat / 16777216)) = w := by
  have hlt : w.toNat < 4294967296 := w.toNat_lt
  have hdigits : w.toNat % 256 + 256 * (w.toNat / 256 % 256) + 65536 * (w.toNat / 65536 % 256) +
      16777216 * (w.toNat / 16777216 % 256) = w.toNat := by omega
  unfold wordOfBytes
  simp only [UInt8.toNat_ofNat', Nat.reducePow]
  rw [hdigits, UInt32.ofNat_toNat]

theorem intOfBytes_intBytes (endian : Endian) (x : Int32) :
    ∃ b₀ b₁ b₂ b₃, intBytes endian x = [b₀, b₁, b₂, b₃] ∧ intOfBytes endian b₀ b₁ b₂ b₃ = x := by
  have hword := congrArg UInt32.toInt32 (wordOfBytes_digits x.toUInt32)
  rw [Int32.toInt32_toUInt32] at hword
  cases endian with
  | little => exact ⟨_, _, _, _, rfl, hword⟩
  | big => exact ⟨_, _, _, _, rfl, hword⟩

theorem intBytes_injective : Function.Injective (intBytes endian) := by
  intro x y h
  obtain ⟨b₀, b₁, b₂, b₃, hx, rfl⟩ := intOfBytes_intBytes endian x
  obtain ⟨c₀, c₁, c₂, c₃, hy, rfl⟩ := intOfBytes_intBytes endian y
  rw [hx, hy] at h
  cases h
  rfl

/-- One cell is read, whatever its integer. -/
theorem decodeCells_cell (x : Int32) (c : UInt8) (rest : List UInt8) :
    decodeCells endian (intBytes endian x ++ c :: rest) =
      if c = terminator then some ([x], rest)
      else (decodeCells endian rest).map fun r => (x :: r.1, r.2) := by
  obtain ⟨b₀, b₁, b₂, b₃, hbytes, hx⟩ := intOfBytes_intBytes endian x
  rw [hbytes]
  show (if c = terminator then some ([intOfBytes endian b₀ b₁ b₂ b₃], rest)
    else (decodeCells endian rest).map fun r => (intOfBytes endian b₀ b₁ b₂ b₃ :: r.1, r.2)) = _
  rw [hx]

/-- Integers with delimiters between them and a terminator behind the last. -/
theorem decodeCells_intercalate (x : Int32) (xs : List Int32) (rest : List UInt8) :
    decodeCells endian
      ([delimiter].intercalate ((x :: xs).map (intBytes endian)) ++ terminator :: rest) =
        some (x :: xs, rest) := by
  induction xs generalizing x with
  | nil =>
    rw [List.map_singleton, List.intercalate_singleton, decodeCells_cell, if_pos rfl]
  | cons y ys ih =>
    have hmore : delimiter ≠ terminator := by decide
    rw [List.map_cons, List.map_cons, List.intercalate_cons_cons, ← List.map_cons,
      List.append_assoc, List.append_assoc, List.singleton_append, decodeCells_cell, if_neg hmore,
      ih]
    rfl

/-- The frame with a given type and given integers. -/
def encodeButton (endian : Endian) (p : Int32 × List Int32) : List UInt8 :=
  [delimiter].intercalate ((p.1 :: p.2).map (intBytes endian)) ++ [terminator]

theorem decodeButton_encodeButton (p : Int32 × List Int32) (rest : List UInt8) :
    decodeButton endian (encodeButton endian p ++ rest) = some (p, rest) := by
  unfold decodeButton encodeButton
  rw [List.append_assoc, List.singleton_append, decodeCells_intercalate]

/-- What a call with the integers `xs` returns. -/
theorem formatDuerButtonData_ok_iff {src : Int32} {args : List Int32} {data : BufInf} :
    formatDuerButtonData endian true true (src :: args).length src args = .ok (some data) ↔
      5 * ((src :: args).length + 1) ≤ directButtonBufsize ∧
        data = bufInf directButtonBufsize
          (encodeButton endian (InstructionType.button.toInt, src :: args)) := by
  rw [formatDuerButtonData_eq true (by simp), if_pos rfl]
  show (if 5 * (args.length + 2) ≤ directButtonBufsize then _ else _) = _ ↔
    5 * (args.length + 2) ≤ directButtonBufsize ∧ _
  split_ifs with hfits
  · rw [Except.ok.injEq, Option.some.injEq]
    exact ⟨fun h => ⟨hfits, h.symm⟩, fun h => h.2.symm⟩
  · exact ⟨nofun, fun h => absurd h.1 hfits⟩

/-- What the calls `calls` return, frame behind frame. -/
theorem button_stream {calls : List (Int32 × List Int32)} {datas : List BufInf}
    (h : List.Forall₂ (fun call data => formatDuerButtonData endian true true
      (call.1 :: call.2).length call.1 call.2 = .ok (some data)) calls datas) :
    (datas.map BufInf.frame).flatten =
      (calls.map fun call => (InstructionType.button.toInt, call.1 :: call.2)).flatMap
        (encodeButton endian) := by
  induction h with
  | nil => rfl
  | cons hcall _ ih =>
    obtain ⟨-, rfl⟩ := formatDuerButtonData_ok_iff.mp hcall
    rw [List.map_cons, List.flatten_cons, bufInf_frame, ih, List.map_cons, List.flatMap_cons]

/-- A stream of button frames reads back as the integers of the calls. -/
theorem button_stream_decodes {calls : List (Int32 × List Int32)} {datas : List BufInf}
    (h : List.Forall₂ (fun call data => formatDuerButtonData endian true true
      (call.1 :: call.2).length call.1 call.2 = .ok (some data)) calls datas) :
    decodeStream (decodeButton endian) (datas.map BufInf.frame).flatten =
      some (calls.map fun call => (InstructionType.button.toInt, call.1 :: call.2)) := by
  rw [button_stream h]
  refine decodeStream_flatMap (fun p _ => ?_) fun p _ rest => decodeButton_encodeButton p rest
  exact List.append_ne_nil_of_right_ne_nil _ (List.cons_ne_nil _ _)

/-- A frame that fits reads back as its type and its integers, whatever follows it, and a
stream of frames as the calls that made it; so two lists of calls with one stream are
the same. -/
theorem button_frames_decode (endian : Endian) :
    (∀ (src : Int32) (args : List Int32), 5 * ((src :: args).length + 1) ≤ 64 →
      ∃ data, formatDuerButtonData endian true true (src :: args).length src args =
          .ok (some data) ∧
        data.len = 5 * ((src :: args).length + 1) ∧
        ∀ rest, decodeButton endian (data.frame ++ rest) =
          some ((InstructionType.button.toInt, src :: args), rest)) ∧
    (∀ (calls : List (Int32 × List Int32)) (datas : List BufInf),
      List.Forall₂ (fun call data => formatDuerButtonData endian true true
        (call.1 :: call.2).length call.1 call.2 = .ok (some data)) calls datas →
      decodeStream (decodeButton endian) (datas.map BufInf.frame).flatten =
        some (calls.map fun call => (InstructionType.button.toInt, call.1 :: call.2)) ∧
      ∀ (calls' : List (Int32 × List Int32)) (datas' : List BufInf),
        List.Forall₂ (fun call data => formatDuerButtonData endian true true
          (call.1 :: call.2).length call.1 call.2 = .ok (some data)) calls' datas' →
        (datas.map BufInf.frame).flatten = (datas'.map BufInf.frame).flatten →
          calls = calls') := by
  refine ⟨fun src args hfits => ?_, fun calls datas h => ⟨button_stream_decodes h, ?_⟩⟩
  · refine ⟨_, formatDuerButtonData_ok_iff.mpr ⟨hfits, rfl⟩, ?_, fun rest => ?_⟩
    · exact buttonFrame_length endian (src :: args)
    · rw [bufInf_frame, decodeButton_encodeButton]
  · intro calls' datas' h' heq
    have hmap := button_stream_decodes h
    rw [heq, button_stream_decodes h', Option.some.injEq] at hmap
    have hinj : Function.Injective fun call : Int32 × List Int32 =>
        (InstructionType.button.toInt, call.1 :: call.2) := by
      rintro ⟨x, xs⟩ ⟨y, ys⟩ hcall
      cases hcall
      rfl
    exact List.map_injective_iff.mpr hinj hmap.symm

/-- The theorem at work: the code of the loop-mode button, which is the terminator, and
a button with three integers, of which one is negative and one the delimiter. -/
theorem button_frames_decode_two :
    ∃ data data', formatDuerButtonData .little true true 1 10 [] = .ok (some data) ∧
      formatDuerButtonData .little true true 3 1 [-2, 96] = .ok (some data') ∧
      decodeButton .little (data'.frame ++ [96, 10]) = some ((0, [1, -2, 96]), [96, 10]) ∧
      decodeStream (decodeButton .little) ([data, data'].map BufInf.frame).flatten =
        some [(0, [10]), (0, [1, -2, 96])] := by
  obtain ⟨hframe, hstream⟩ := button_frames_decode .little
  obtain ⟨data, hdata, -, -⟩ := hframe 10 [] (by decide)
  obtain ⟨data', hdata', -, hdecode⟩ := hframe 1 [-2, 96] (by decide)
  have htwo := hstream [(10, []), (1, [-2, 96])] [data, data'] (.cons hdata (.cons hdata' .nil))
  exact ⟨data, data', hdata, hdata', hdecode [96, 10], htwo.1⟩

end Uartd.Dueros
