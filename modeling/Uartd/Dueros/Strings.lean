import Uartd.Dueros.Writing

/-!
# Uartd — strings as formats

`format_duer_string_data` passes each string to `vsprintf` as the format. A string
without `%` is copied. One with `%%` loses a byte, which the index passes over, so
a NUL follows in the frame; one with any other conversion asks for an argument that
is not there for it.

`string_frame_verbatim_iff` — the frame carries the strings exactly if none of them
has a `%`.
-/

namespace Uartd.Dueros

open Uartd.Lib

/-- With both blocks there, strings whose frame fits are carried as they are exactly if
they have no `%`. -/
theorem string_frame_verbatim_iff (endian : Endian) (okMalloc okCalloc : Bool) (src : CStr)
    (args : List CStr) (hfits : 5 + ((src :: args).map fun s => s.bytes.length + 1).sum ≤ 1024) :
    (∃ data, formatDuerStringData endian okMalloc okCalloc (src :: args).length src args =
        .ok (some data) ∧
      data.frame = [delimiter].intercalate
        (intBytes endian InstructionType.url.toInt :: (src :: args).map CStr.bytes) ++
          [terminator] ∧
      data.len = 5 + ((src :: args).map fun s => s.bytes.length + 1).sum) ↔
    okMalloc = true ∧ okCalloc = true ∧ ∀ s ∈ src :: args, 37 ∉ s.bytes := by
  have hsum : args.length = (((src :: args).length : Int) - 1).toNat := by simp
  constructor
  · rintro ⟨data, hdata, hframe, -⟩
    cases okMalloc with
    | false => cases hdata
    | true =>
      cases okCalloc with
      | false => exact absurd hdata (formatDuerStringData_null hsum)
      | true =>
        obtain ⟨fields, hfields, -, rfl⟩ := (formatDuerStringData_ok_iff hsum).mp hdata
        have hlen : fields.map List.length = ((src :: args).map CStr.bytes).map List.length := by
          rw [written_map_length hfields, List.map_map]
          rfl
        rw [bufInf_frame] at hframe
        -- frames of the same strings' lengths agree field by field
        obtain rfl : fields = (src :: args).map CStr.bytes := by
          have htext := intercalate_injective_of_length (by simp [hlen])
            (List.append_cancel_right hframe)
          exact (List.cons.inj htext).2
        exact ⟨rfl, rfl, written_map_bytes_iff.mp hfields⟩
  · rintro ⟨rfl, rfl, hfree⟩
    refine ⟨_, formatDuerStringData_of_no_percent hsum hfree hfits, ?_, ?_⟩
    · exact bufInf_frame _ _
    · exact stringFrame_length endian (written_map_bytes_iff.mpr hfree)

/-- The theorem at work: two strings, one of them empty. -/
theorem string_frame_verbatim_two :
    ∃ data, formatDuerStringData .little true true 2 ⟨[104, 105], by decide⟩ [⟨[], by decide⟩] =
        .ok (some data) ∧
      data.frame = [1, 0, 0, 0, 96, 104, 105, 96, 10] ∧ data.len = 9 := by
  have hiff := string_frame_verbatim_iff .little true true ⟨[104, 105], by decide⟩
    [⟨[], by decide⟩] (by decide)
  exact hiff.mpr (by decide)

/-- The string `%%` is carried as one `%` and a NUL. -/
theorem percent_lost :
    ∃ data, formatDuerStringData .little true true 1 ⟨[37, 37], by decide⟩ [] = .ok (some data) ∧
      data.frame = [1, 0, 0, 0, 96, 37, 0, 10] ∧
      data.frame ≠ frameOf .little .url [[37, 37]] := by
  have hsum : ([] : List CStr).length = ((1 : Int) - 1).toNat := by decide
  have hfields : List.Forall₂ Written [⟨[37, 37], by decide⟩] [[37, 0]] :=
    .cons ⟨[37], .percent .nil, rfl⟩ .nil
  refine ⟨_, (formatDuerStringData_ok_iff hsum).mpr ⟨_, hfields, by decide, rfl⟩, ?_⟩
  rw [bufInf_frame]
  decide

end Uartd.Dueros
