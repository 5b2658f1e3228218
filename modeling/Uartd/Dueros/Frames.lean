import Uartd.Dueros.Decode

/-!
# Uartd — delimiters and terminators in the dueros frames

The encoders copy their arguments byte for byte and escape nothing, so a delimiter
or a terminator in an argument stands in the frame like those between the fields
and at the end. `frames_delimited` says for each of the uses one can make of the two
bytes which arguments allow it: to find the end of a frame, to find its fields, to
take a stream of frames apart, and to tell two frames from each other by their
fields.
-/

namespace Uartd.Dueros

open Uartd.Lib

variable {endian : Endian}

/-- A call of one of the encoders, with both blocks there. -/
inductive Request where
  | button (src : Int32) (args : List Int32)
  | string (src : CStr) (args : List CStr)
  | binary (data : List UInt8)

namespace Request

def format (endian : Endian) : Request → Except Fault (Option BufInf)
  | .button src args => formatDuerButtonData endian true true (src :: args).length src args
  | .string src args => formatDuerStringData endian true true (src :: args).length src args
  | .binary data => formatDuerBinaryData endian true true data data.length

def type : Request → InstructionType
  | .button .. => .button
  | .string .. => .url
  | .binary _ => .url

/-- What stands for the arguments in the frame. -/
def fields (endian : Endian) : Request → List (List UInt8)
  | .button src args => (src :: args).map (intBytes endian)
  | .string src args => (src :: args).map CStr.bytes
  | .binary data => [data]

/-- The strings have no `%`. -/
def NoPercent : Request → Prop
  | .string src args => ∀ s ∈ src :: args, 37 ∉ s.bytes
  | _ => True

/-- The call builds a frame that fits. -/
def Builds (endian : Endian) (r : Request) (data : BufInf) : Prop :=
  r.NoPercent ∧ r.format endian = .ok (some data)

end Request

open Request

theorem Request.Builds.frame_eq {r : Request} {data : BufInf} (h : r.Builds endian data) :
    data.frame = frameOf endian r.type (r.fields endian) := by
  obtain ⟨hfree, hdata⟩ := h
  cases r with
  | button src args =>
    obtain ⟨-, rfl⟩ := formatDuerButtonData_ok_iff.mp hdata
    exact bufInf_frame _ _
  | string src args =>
    have hsum : args.length = (((src :: args).length : Int) - 1).toNat := by simp
    obtain ⟨-, -, hfits, -⟩ := (formatDuerStringData_ok_iff hsum).mp hdata
    rw [Request.format, formatDuerStringData_of_no_percent hsum hfree hfits] at hdata
    cases hdata
    exact bufInf_frame _ _
  | binary data =>
    rw [Request.format, formatDuerBinaryData_eq true (Nat.le_refl _), List.take_length] at hdata
    split_ifs at hdata
    cases hdata
    exact bufInf_frame _ _

-- ---------------------------------------------------------------------------
-- One frame
-- ---------------------------------------------------------------------------

theorem type_free (endian : Endian) (type : InstructionType) :
    terminator ∉ intBytes endian type.toInt ∧ delimiter ∉ intBytes endian type.toInt := by
  cases endian <;> cases type <;> decide

theorem frameOf_dropLast (endian : Endian) (type : InstructionType) (fields : List (List UInt8)) :
    (frameOf endian type fields).dropLast =
      [delimiter].intercalate (intBytes endian type.toInt :: fields) :=
  List.dropLast_concat

theorem terminator_last_iff (endian : Endian) (type : InstructionType)
    (fields : List (List UInt8)) :
    terminator ∉ (frameOf endian type fields).dropLast ↔ ∀ f ∈ fields, terminator ∉ f := by
  have hne : terminator ≠ delimiter := by decide
  rw [frameOf_dropLast, not_mem_intercalate_iff hne, List.forall_mem_cons]
  exact and_iff_right (type_free endian type).1

/-- One delimiter behind the type and each field but the last, and no other. -/
theorem delimiter_between_iff (endian : Endian) (type : InstructionType)
    (fields : List (List UInt8)) :
    (frameOf endian type fields).count delimiter = fields.length ↔
      ∀ f ∈ fields, delimiter ∉ f := by
  have hcount : List.count delimiter [terminator] = 0 := by decide
  have hiff := count_separator_iff (s := delimiter)
    (List.cons_ne_nil (intBytes endian type.toInt) fields)
  rw [List.length_cons, Nat.add_right_cancel_iff, List.forall_mem_cons] at hiff
  rw [frameOf, List.count_append, hcount, Nat.add_zero, hiff]
  exact and_iff_right (type_free endian type).2

theorem split_fields_iff (endian : Endian) (type : InstructionType)
    (fields : List (List UInt8)) :
    (frameOf endian type fields).dropLast.splitOn delimiter =
        intBytes endian type.toInt :: fields ↔
      ∀ f ∈ fields, delimiter ∉ f := by
  rw [frameOf_dropLast, splitOn_intercalate_iff (List.cons_ne_nil _ _), List.forall_mem_cons]
  exact and_iff_right (type_free endian type).2

-- ---------------------------------------------------------------------------
-- Streams of frames
-- ---------------------------------------------------------------------------

theorem frames_terminated {rs : List Request} {datas : List BufInf}
    (h : List.Forall₂ (Builds endian) rs datas) :
    datas.map BufInf.frame =
      (datas.map fun data => data.frame.dropLast).map (· ++ [terminator]) := by
  induction h with
  | nil => rfl
  | cons hbuild _ ih =>
    rw [List.map_cons, List.map_cons, List.map_cons, ← ih, hbuild.frame_eq, frameOf_dropLast]
    rfl

theorem bodies_free_iff {rs : List Request} {datas : List BufInf}
    (h : List.Forall₂ (Builds endian) rs datas) :
    (∀ body ∈ datas.map fun data => data.frame.dropLast, terminator ∉ body) ↔
      ∀ r ∈ rs, ∀ f ∈ r.fields endian, terminator ∉ f := by
  induction h with
  | nil => exact iff_of_true (List.forall_mem_nil _) (List.forall_mem_nil _)
  | cons hbuild _ ih =>
    rw [List.map_cons, List.forall_mem_cons, List.forall_mem_cons, ih, hbuild.frame_eq,
      terminator_last_iff]

theorem stream_splits_iff {rs : List Request} {datas : List BufInf}
    (h : List.Forall₂ (Builds endian) rs datas) :
    (datas.map BufInf.frame).flatten.splitOn terminator =
        datas.map (fun data => data.frame.dropLast) ++ [[]] ↔
      ∀ r ∈ rs, ∀ f ∈ r.fields endian, terminator ∉ f := by
  rw [frames_terminated h, splitOn_terminated_iff, bodies_free_iff h]

-- ---------------------------------------------------------------------------
-- Two frames
-- ---------------------------------------------------------------------------

/-- Frames of one type with the same split have the same text. -/
theorem text_eq_of_split {r r' : Request} {data data' : BufInf} (h : r.Builds endian data)
    (h' : r'.Builds endian data') (htype : r.type = r'.type)
    (hsplit : data.frame.dropLast.splitOn delimiter = data'.frame.dropLast.splitOn delimiter) :
    [delimiter].intercalate (intBytes endian r.type.toInt :: r.fields endian) =
      [delimiter].intercalate (intBytes endian r.type.toInt :: r'.fields endian) := by
  have hbody := splitOn_injective hsplit
  rw [h.frame_eq, h'.frame_eq, frameOf_dropLast, frameOf_dropLast, ← htype] at hbody
  exact hbody

/-- Integers have fields of four bytes, so their number and their values are in the text. -/
theorem button_split_injective {src src' : Int32} {args args' : List Int32} {data data' : BufInf}
    (h : (button src args).Builds endian data) (h' : (button src' args').Builds endian data')
    (hsplit : data.frame.dropLast.splitOn delimiter = data'.frame.dropLast.splitOn delimiter) :
    src :: args = src' :: args' := by
  have htext := text_eq_of_split h h' rfl hsplit
  have hlen := congrArg (fun text => (text ++ [terminator]).length) htext
  have hnumber : (src :: args).length = (src' :: args').length := by
    have hcells : 5 * ((src :: args).length + 1) = 5 * ((src' :: args').length + 1) := by
      rw [← buttonFrame_length endian, ← buttonFrame_length endian]
      exact hlen
    omega
  have hfours (xs : List Int32) :
      (xs.map (intBytes endian)).map List.length = List.replicate xs.length 4 := by
    rw [List.map_map, List.eq_replicate_iff]
    simp
  have hfields := intercalate_injective_of_length (by
    rw [List.map_cons, List.map_cons, Request.fields, Request.fields, hfours, hfours, hnumber])
    htext
  exact List.map_injective_iff.mpr intBytes_injective (List.cons.inj hfields).2

/-- Strings without a delimiter are the fields of their text. -/
theorem string_split_injective {src src' : CStr} {args args' : List CStr} {data data' : BufInf}
    (h : (string src args).Builds endian data) (h' : (string src' args').Builds endian data')
    (hfree : ∀ s ∈ src :: args, delimiter ∉ s.bytes)
    (hfree' : ∀ s ∈ src' :: args', delimiter ∉ s.bytes)
    (hsplit : data.frame.dropLast.splitOn delimiter = data'.frame.dropLast.splitOn delimiter) :
    src :: args = src' :: args' := by
  have htext := text_eq_of_split h h' rfl hsplit
  have hfields := intercalate_injective (List.cons_ne_nil _ _) (List.cons_ne_nil _ _)
    (List.forall_mem_cons.mpr ⟨(type_free endian _).2, List.forall_mem_map.mpr hfree⟩)
    (List.forall_mem_cons.mpr ⟨(type_free endian _).2, List.forall_mem_map.mpr hfree'⟩) htext
  have hinj : Function.Injective CStr.bytes := by
    rintro ⟨x, hx⟩ ⟨y, hy⟩ rfl
    rfl
  exact List.map_injective_iff.mpr hinj (List.cons.inj hfields).2

-- ---------------------------------------------------------------------------
-- What the two bytes delimit
-- ---------------------------------------------------------------------------

/-- For every frame that is built: its only terminator is its last byte exactly if no
argument contains one, and its delimiters are those between the fields, where it also
splits, exactly if no argument contains one. A stream of frames splits into them exactly
if no argument in it contains a terminator. The split tells the integers of two calls
apart, and the strings of two calls if they contain no delimiter. -/
theorem frames_delimited (endian : Endian) :
    (∀ (r : Request) (data : BufInf), r.Builds endian data →
      data.frame.getLast? = some terminator ∧
      (terminator ∉ data.frame.dropLast ↔ ∀ f ∈ r.fields endian, terminator ∉ f) ∧
      (data.frame.count delimiter = (r.fields endian).length ↔
        ∀ f ∈ r.fields endian, delimiter ∉ f) ∧
      (data.frame.dropLast.splitOn delimiter =
          intBytes endian r.type.toInt :: r.fields endian ↔
        ∀ f ∈ r.fields endian, delimiter ∉ f)) ∧
    (∀ (rs : List Request) (datas : List BufInf), List.Forall₂ (Builds endian) rs datas →
      ((datas.map BufInf.frame).flatten.splitOn terminator =
          datas.map (fun data => data.frame.dropLast) ++ [[]] ↔
        ∀ r ∈ rs, ∀ f ∈ r.fields endian, terminator ∉ f)) ∧
    (∀ (src src' : Int32) (args args' : List Int32) (data data' : BufInf),
      (button src args).Builds endian data → (button src' args').Builds endian data' →
      src :: args ≠ src' :: args' →
      data.frame.dropLast.splitOn delimiter ≠ data'.frame.dropLast.splitOn delimiter) ∧
    (∀ (src src' : CStr) (args args' : List CStr) (data data' : BufInf),
      (string src args).Builds endian data → (string src' args').Builds endian data' →
      (∀ s ∈ src :: args, delimiter ∉ s.bytes) → (∀ s ∈ src' :: args', delimiter ∉ s.bytes) →
      src :: args ≠ src' :: args' →
      data.frame.dropLast.splitOn delimiter ≠ data'.frame.dropLast.splitOn delimiter) := by
  refine ⟨fun r data h => ?_, fun rs datas h => stream_splits_iff h, ?_, ?_⟩
  · rw [h.frame_eq]
    exact ⟨List.getLast?_concat, terminator_last_iff _ _ _, delimiter_between_iff _ _ _,
      split_fields_iff _ _ _⟩
  · intro src src' args args' data data' h h' hne hsplit
    exact hne (button_split_injective h h' hsplit)
  · intro src src' args args' data data' h h' hfree hfree' hne hsplit
    exact hne (string_split_injective h h' hfree hfree' hsplit)

/-- The theorem at work: a stream of the string `hi` and two buttons. -/
theorem frames_delimited_three :
    ∃ data₁ data₂ data₃, (string ⟨[104, 105], by decide⟩ []).Builds .little data₁ ∧
      (button 1 [2]).Builds .little data₂ ∧ (button 1 [3]).Builds .little data₃ ∧
      data₁.frame.count delimiter = 1 ∧
      ([data₁, data₂, data₃].map BufInf.frame).flatten.splitOn terminator =
        [[1, 0, 0, 0, 96, 104, 105], [0, 0, 0, 0, 96, 1, 0, 0, 0, 96, 2, 0, 0, 0],
          [0, 0, 0, 0, 96, 1, 0, 0, 0, 96, 3, 0, 0, 0], []] ∧
      data₂.frame.dropLast.splitOn delimiter ≠ data₃.frame.dropLast.splitOn delimiter := by
  have h₁ : (string ⟨[104, 105], by decide⟩ []).Builds .little _ :=
    ⟨by simp [NoPercent], formatDuerStringData_of_no_percent (by decide) (by decide) (by decide)⟩
  have h₂ : (button 1 [2]).Builds .little _ :=
    ⟨trivial, formatDuerButtonData_ok_iff.mpr ⟨by decide, rfl⟩⟩
  have h₃ : (button 1 [3]).Builds .little _ :=
    ⟨trivial, formatDuerButtonData_ok_iff.mpr ⟨by decide, rfl⟩⟩
  obtain ⟨hframe, hstream, hbutton, -⟩ := frames_delimited .little
  refine ⟨_, _, _, h₁, h₂, h₃, (hframe _ _ h₁).2.2.1.mpr (by decide), ?_,
    hbutton _ _ _ _ _ _ h₂ h₃ (by decide)⟩
  refine ((hstream _ _ (.cons h₁ (.cons h₂ (.cons h₃ .nil)))).mpr (by decide)).trans ?_
  simp only [List.map_cons, List.map_nil, bufInf_frame]
  decide

/-- The code of the loop-mode button is the terminator, and a back-quote in a string
makes its frame that of two strings. -/
theorem arguments_delimit :
    (∃ data, (button 10 []).Builds .little data ∧ terminator ∈ data.frame.dropLast) ∧
    (∃ data data', (string ⟨[97, 96, 98], by decide⟩ []).Builds .little data ∧
      (string ⟨[97], by decide⟩ [⟨[98], by decide⟩]).Builds .little data' ∧
      data.frame = data'.frame) := by
  have h : (button 10 []).Builds .little _ :=
    ⟨trivial, formatDuerButtonData_ok_iff.mpr ⟨by decide, rfl⟩⟩
  have h₁ : (string ⟨[97, 96, 98], by decide⟩ []).Builds .little _ :=
    ⟨by simp [NoPercent], formatDuerStringData_of_no_percent (by decide) (by decide) (by decide)⟩
  have h₂ : (string ⟨[97], by decide⟩ [⟨[98], by decide⟩]).Builds .little _ :=
    ⟨by simp [NoPercent], formatDuerStringData_of_no_percent (by decide) (by decide) (by decide)⟩
  refine ⟨⟨_, h, ?_⟩, _, _, h₁, h₂, ?_⟩
  · rw [h.frame_eq]
    decide
  · rw [h₁.frame_eq, h₂.frame_eq]
    decide

end Uartd.Dueros
