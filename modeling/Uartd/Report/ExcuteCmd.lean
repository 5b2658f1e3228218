import Uartd.Lib.Loop
import Uartd.Lib.Stdio

/-!
# Uartd — excute_cmd (report_key.c)

`excute_cmd` runs a command with `popen` and captures what it prints. The read
loop asks for at most as many bytes as `rbuf` has room for, with `fgets`, and
appends them. When one byte of room is left, `fgets` reads nothing and returns
an empty string, so end-of-file is never seen and the loop does not end.

* `captureBody_line`, `captureBody_end`, `captureBody_full` — one iteration;
* `capture_done` — the loop ends if the output leaves two bytes of room;
* `capture_running` — it does not end otherwise;
* `excute_cmd_captures_iff` — the two together, for the whole function.

The command's text and the exit status are left out: `popen` is given by the
output of the command. What is printed is left out.
-/

namespace Uartd.Report

open Uartd.Lib

/-- `sizeof(buf)`. -/
def sizeofBuf : ℕ := 128

/-- The locals of `excute_cmd`; `p` is an index into `rbuf`. -/
structure Capture where
  rbuf    : List UInt8
  p       : ℕ
  rbuflen : Int
  buf     : List UInt8
  pfile   : Stream

/-- The body of `while(!feof(pfile))`, with the test. -/
def captureBody (s : Capture) : Option (Bool × Capture) :=
  if s.pfile.eof then some (false, s)
  else if 0 < s.rbuflen then
    -- MIN(rbuflen, sizeof(buf))
    match fgets (min s.rbuflen.toNat sizeofBuf) s.pfile with
    | (some line, pfile) => do
      let buf ← store s.buf 0 (line ++ [0])
      let text ← cstringAt buf
      let (rbuf, len) ← snprintf s.rbuf s.p s.rbuflen.toNat text
      pure (true,
        { rbuf := rbuf, p := s.p + len, rbuflen := s.rbuflen - len, buf := buf, pfile := pfile })
    | (none, pfile) => some (false, { s with pfile := pfile })
  else some (false, s)

/-- `if ((rbuf) && (p != rbuf) && (*(p-1) == '\n')) *(p-1) = 0;` -/
def stripNewline (s : Capture) : Option (List UInt8) :=
  if s.p = 0 then some s.rbuf
  else do
    let c ← s.rbuf[s.p - 1]?
    if c = newline then store s.rbuf (s.p - 1) [0] else pure s.rbuf

/-- `excute_cmd` with at most `fuel` iterations; `buf` is the local buffer as the
command's text left it, `output` what the command prints, `none` if `popen`
fails. -/
def excuteCmd (fuel : ℕ) (rbuf : Option (List UInt8)) (rbuflen : Int) (buf : List UInt8)
    (output : Option (List UInt8)) : LoopEnd (Option (List UInt8)) :=
  match rbuf, output with
  -- rbuflen is set to 0 and nothing is read
  | none, _ => .done none
  | some rbuf, none => .done (some rbuf)
  | some rbuf, some output =>
    match loop captureBody fuel ⟨rbuf, 0, rbuflen, buf, ⟨output, false⟩⟩ with
    | .done s =>
      match stripNewline s with
      | some rbuf => .done (some rbuf)
      | none => .fault
    | .fault => .fault
    | .running => .running

-- ---------------------------------------------------------------------------
-- One iteration
-- ---------------------------------------------------------------------------

variable {captured tail buf rest : List UInt8} {rbuflen : Int}

/-- The locals with `captured` in `rbuf`, and `tail` behind it. -/
def capturing (captured tail : List UInt8) (rbuflen : Int) (buf : List UInt8) (pfile : Stream) :
    Capture :=
  ⟨captured ++ tail, captured.length, rbuflen, buf, pfile⟩

/-- What one read puts into `rbuf`. -/
def nextLine (rbuflen : Int) (rest : List UInt8) : List UInt8 :=
  lineChunk (min rbuflen.toNat sizeofBuf - 1) rest

theorem nextLine_length_lt {rbuflen : Int} (h : 2 ≤ rbuflen) (rest : List UInt8) :
    ((nextLine rbuflen rest).length : Int) < rbuflen ∧
      (nextLine rbuflen rest).length < sizeofBuf := by
  have hle := lineChunk_length_le (min rbuflen.toNat sizeofBuf - 1) rest
  have hsize : sizeofBuf = 128 := rfl
  unfold nextLine
  omega

theorem nextLine_append_drop (rbuflen : Int) (rest : List UInt8) :
    nextLine rbuflen rest ++ rest.drop (nextLine rbuflen rest).length = rest :=
  lineChunk_append_drop _ _

theorem nextLine_ne_nil (h : 2 ≤ rbuflen) (hrest : rest ≠ []) : nextLine rbuflen rest ≠ [] := by
  have hsize : sizeofBuf = 128 := rfl
  rw [nextLine, Ne, lineChunk_eq_nil_iff (by omega)]
  exact hrest

/-- The copy of a text from `buf` behind what was captured. -/
theorem copy_text (captured : List UInt8) {line : List UInt8} (hline : 0 ∉ line)
    (hbuf : buf.length = sizeofBuf) (hlen : line.length < sizeofBuf)
    (hroom : (line.length : Int) < rbuflen)
    (htail : rbuflen ≤ tail.length) :
    ∃ buf', store buf 0 (line ++ [0]) = some buf' ∧ buf'.length = sizeofBuf ∧
      cstringAt buf' = some line ∧
      snprintf (captured ++ tail) captured.length rbuflen.toNat line =
        some (captured ++ line ++ (0 :: tail.drop (line.length + 1)), line.length) := by
  have hstore := store_string (show line.length < buf.length by omega)
  refine ⟨_, hstore, (store_length hstore).trans hbuf, cstringAt_append hline _, ?_⟩
  rw [snprintf_append _ (by omega) (by omega)]
  simp

/-- An iteration before the end of the output, with room for a byte and a NUL. -/
theorem captureBody_line (captured : List UInt8) (hroom : 2 ≤ rbuflen)
    (htail : rbuflen ≤ tail.length) (hbuf : buf.length = sizeofBuf) (hrest : rest ≠ [])
    (hnul : 0 ∉ rest) :
    ∃ buf', buf'.length = sizeofBuf ∧
      captureBody (capturing captured tail rbuflen buf ⟨rest, false⟩) =
        some (true, capturing (captured ++ nextLine rbuflen rest)
          (0 :: tail.drop ((nextLine rbuflen rest).length + 1))
          (rbuflen - (nextLine rbuflen rest).length) buf'
          ⟨rest.drop (nextLine rbuflen rest).length,
            (nextLine rbuflen rest).length < min rbuflen.toNat sizeofBuf - 1 &&
              (nextLine rbuflen rest).getLast? ≠ some newline⟩) := by
  have hsize : sizeofBuf = 128 := rfl
  obtain ⟨hlt, hlt'⟩ := nextLine_length_lt hroom rest
  have hline : 0 ∉ nextLine rbuflen rest := fun hmem =>
    hnul ((lineChunk_prefix_self _ _).subset hmem)
  obtain ⟨buf', hstore, hbuf', htext, hcopy⟩ :=
    copy_text captured hline hbuf hlt' hlt htail
  refine ⟨buf', hbuf', ?_⟩
  have hread := fgets_chunk (n := min rbuflen.toNat sizeofBuf) (by omega) hrest false
  simp only [captureBody, capturing, Bool.false_eq_true, if_false, show 0 < rbuflen by omega,
    if_true, hread]
  show (store buf 0 (nextLine rbuflen rest ++ [0])).bind _ = _
  rw [hstore, Option.bind_some]
  show (cstringAt buf').bind _ = _
  rw [htext, Option.bind_some]
  show (snprintf (captured ++ tail) captured.length rbuflen.toNat
    (nextLine rbuflen rest)).bind _ = _
  rw [hcopy, List.length_append]
  rfl

/-- An iteration at the end of the output. -/
theorem captureBody_end (hroom : 2 ≤ rbuflen) :
    captureBody (capturing captured tail rbuflen buf ⟨[], false⟩) =
      some (false, capturing captured tail rbuflen buf ⟨[], true⟩) := by
  have hsize : sizeofBuf = 128 := rfl
  have hread := fgets_end (n := min rbuflen.toNat sizeofBuf) (by omega) false
  simp only [captureBody, capturing, Bool.false_eq_true, if_false, show 0 < rbuflen by omega,
    if_true, hread]

/-- An iteration with room for the NUL only: nothing is read, and nothing changes
but that the NUL is written. -/
theorem captureBody_full (captured rest : List UInt8) (htail : 1 ≤ tail.length)
    (hbuf : buf.length = sizeofBuf) :
    ∃ buf', buf'.length = sizeofBuf ∧
      captureBody (capturing captured tail 1 buf ⟨rest, false⟩) =
        some (true, capturing captured (0 :: tail.drop 1) 1 buf' ⟨rest, false⟩) := by
  obtain ⟨buf', hstore, hbuf', htext, hcopy⟩ :=
    @copy_text tail buf 1 captured [] (by simp) hbuf (by decide) (by decide) (by omega)
  refine ⟨buf', hbuf', ?_⟩
  have hread : fgets (min (1 : Int).toNat sizeofBuf) ⟨rest, false⟩ = (some [], ⟨rest, false⟩) := rfl
  simp only [captureBody, capturing, Bool.false_eq_true, if_false, Int.zero_lt_one, if_true, hread]
  show (store buf 0 ([] ++ [0])).bind _ = _
  rw [hstore, Option.bind_some]
  show (cstringAt buf').bind _ = _
  rw [htext, Option.bind_some]
  show (snprintf (captured ++ tail) captured.length (1 : Int).toNat []).bind _ = _
  rw [hcopy, List.append_nil]
  rfl

-- ---------------------------------------------------------------------------
-- The loop
-- ---------------------------------------------------------------------------

/-- What `rbuf` holds while `captured` of the output is read and `rest` is not:
behind `captured` a NUL, if there is anything captured, and nothing is written
from index `total` on. -/
structure CaptureInv (output rbuf : List UInt8) (total : Int) (captured rest tail buf : List UInt8)
    (eof : Bool) : Prop where
  split  : captured ++ rest = output
  buf    : buf.length = sizeofBuf
  length : captured.length + tail.length = rbuf.length
  atEnd  : eof = true → rest = []
  empty  : captured = [] → tail = rbuf
  nul    : captured ≠ [] → tail.head? = some 0
  frame  : tail.drop (total - captured.length).toNat = rbuf.drop total.toNat

variable {output rbuf : List UInt8} {total : Int} {eof : Bool}

/-- One read moves a line from what is left to what is captured. -/
theorem CaptureInv.line (h : CaptureInv output rbuf total captured rest tail buf false)
    (hroom : (output.length : Int) + 1 < total) (hrest : rest ≠ []) {buf' : List UInt8}
    (hbuf' : buf'.length = sizeofBuf) (htotal : total ≤ rbuf.length) :
    CaptureInv output rbuf total (captured ++ nextLine (total - captured.length) rest)
      (rest.drop (nextLine (total - captured.length) rest).length)
      (0 :: tail.drop ((nextLine (total - captured.length) rest).length + 1)) buf'
      ((nextLine (total - captured.length) rest).length <
          min (total - captured.length).toNat sizeofBuf - 1 &&
        (nextLine (total - captured.length) rest).getLast? ≠ some newline) := by
  have houtput := congrArg List.length h.split
  rw [List.length_append] at houtput
  have hlength := h.length
  have htwo : 2 ≤ total - captured.length := by omega
  obtain ⟨hlt, -⟩ := nextLine_length_lt htwo rest
  have hne := nextLine_ne_nil htwo hrest
  have happend := nextLine_append_drop (total - captured.length) rest
  refine ⟨?_, hbuf', ?_, ?_, ?_, fun _ => rfl, ?_⟩
  · rw [List.append_assoc, happend, h.split]
  · simp only [List.length_append, List.length_cons, List.length_drop]
    omega
  · intro heof
    simp only [Bool.and_eq_true, decide_eq_true_eq, ne_eq] at heof
    have hall : nextLine (total - captured.length) rest = rest := lineChunk_short heof.1 heof.2
    rw [hall]
    exact List.drop_eq_nil_of_le (Nat.le_refl _)
  · intro hnil
    exact absurd (List.append_eq_nil_iff.mp hnil).2 hne
  · rw [← h.frame, List.length_append]
    obtain ⟨k, hk⟩ : ∃ k, (total - ((captured.length +
        (nextLine (total - captured.length) rest).length : ℕ) : Int)).toNat = k + 1 :=
      ⟨_, (Nat.succ_pred_eq_of_pos (by omega)).symm⟩
    rw [hk, List.drop_succ_cons, List.drop_drop]
    congr 1
    omega

/-- **The loop ends** if the output leaves room for two bytes: everything is
captured. The variant is what is left of the output. -/
theorem capture_done (hroom : (output.length : Int) + 1 < total) (htotal : total ≤ rbuf.length)
    (hnul : 0 ∉ output) (hbuf : buf.length = sizeofBuf) :
    ∃ fuel s, loop captureBody fuel ⟨rbuf, 0, total, buf, ⟨output, false⟩⟩ = .done s ∧
      ∃ tail buf', s = capturing output tail (total - output.length) buf' ⟨[], true⟩ ∧
        CaptureInv output rbuf total output [] tail buf' true := by
  refine loop_done_of_variant (I := fun s => ∃ captured rest tail buf eof,
    s = capturing captured tail (total - captured.length) buf ⟨rest, eof⟩ ∧
      CaptureInv output rbuf total captured rest tail buf eof) (fun s => s.pfile.rest.length) ?_ ?_
  · rintro _ ⟨captured, rest, tail, buf, eof, rfl, hinv⟩
    have houtput := congrArg List.length hinv.split
    rw [List.length_append] at houtput
    have hlength := hinv.length
    cases eof with
    | true =>
      -- end-of-file was noticed by the last read
      obtain rfl := hinv.atEnd rfl
      obtain rfl : captured = output := by rw [← hinv.split, List.append_nil]
      exact ⟨false, _, rfl, by simp, fun _ => ⟨tail, buf, rfl, hinv⟩⟩
    | false =>
      by_cases hrest : rest = []
      · subst hrest
        obtain rfl : captured = output := by rw [← hinv.split, List.append_nil]
        refine ⟨false, _, captureBody_end (by omega), by simp, fun _ => ⟨tail, buf, rfl, ?_⟩⟩
        exact ⟨hinv.split, hinv.buf, hinv.length, fun _ => rfl, hinv.empty, hinv.nul, hinv.frame⟩
      · have hnul' : 0 ∉ rest := fun hmem => hnul (hinv.split ▸ List.mem_append_right _ hmem)
        have htwo : 2 ≤ total - captured.length := by omega
        obtain ⟨buf', hbuf', hrun⟩ := captureBody_line captured htwo
          (show total - captured.length ≤ tail.length by omega) hinv.buf hrest hnul'
        refine ⟨true, _, hrun, fun _ => ⟨⟨_, _, _, buf', _, ?_, hinv.line hroom hrest hbuf' htotal⟩,
          ?_⟩, by simp⟩
        · rw [List.length_append]
          push_cast
          rw [Int.sub_sub]
        · have hpos := List.length_pos_of_ne_nil
            (nextLine_ne_nil htwo hrest)
          have hpos' := List.length_pos_of_ne_nil hrest
          show (rest.drop _).length < rest.length
          rw [List.length_drop]
          omega
  · refine ⟨[], output, rbuf, buf, false, ?_, rfl, hbuf, by simp, by simp, fun _ => rfl, by simp,
      by simp⟩
    show (⟨rbuf, 0, total, buf, ⟨output, false⟩⟩ : Capture) =
      ⟨rbuf, 0, total - ((0 : ℕ) : Int), buf, _⟩
    simp

/-- **The loop does not end** if the output leaves less: the room shrinks to one
byte, and then nothing changes any more. -/
theorem capture_running (hroom : total ≤ (output.length : Int) + 1) (hpos : 1 ≤ total)
    (htotal : total ≤ rbuf.length) (hnul : 0 ∉ output) (hbuf : buf.length = sizeofBuf) (fuel : ℕ) :
    loop captureBody fuel ⟨rbuf, 0, total, buf, ⟨output, false⟩⟩ = .running := by
  refine loop_running_of_invariant (I := fun s => ∃ captured tail rbuflen buf
    rest, s = capturing captured tail rbuflen buf ⟨rest, false⟩ ∧ 1 ≤ rbuflen ∧
      rbuflen ≤ tail.length ∧ rbuflen ≤ (rest.length : Int) + 1 ∧ 0 ∉ rest ∧
      buf.length = sizeofBuf) ?_ ?_ fuel
  · rintro _ ⟨captured, tail, rbuflen, buf, rest, rfl, hone, htail, hle, hnul, hbuf⟩
    by_cases hfull : rbuflen = 1
    · subst hfull
      obtain ⟨buf', hbuf', hrun⟩ := captureBody_full captured rest
        (show 1 ≤ tail.length by omega) hbuf
      refine ⟨_, hrun, captured, _, 1, buf', rest, rfl, hone, ?_, hle, hnul, hbuf'⟩
      rw [List.length_cons, List.length_drop]
      omega
    · have hrest : rest ≠ [] := by
        rintro rfl
        simp only [List.length_nil] at hle
        omega
      obtain ⟨buf', hbuf', hrun⟩ := captureBody_line captured (by omega) htail hbuf hrest hnul
      obtain ⟨hlt, -⟩ := nextLine_length_lt (show 2 ≤ rbuflen by omega) rest
      -- a read that hits the end would have found room for more
      have hgoes : ((nextLine rbuflen rest).length < min rbuflen.toNat sizeofBuf - 1 &&
          (nextLine rbuflen rest).getLast? ≠ some newline : Bool) = false := by
        by_contra heof
        simp only [Bool.not_eq_false, Bool.and_eq_true, decide_eq_true_eq, ne_eq] at heof
        have hall : nextLine rbuflen rest = rest := lineChunk_short heof.1 heof.2
        rw [hall] at heof
        omega
      rw [hgoes] at hrun
      refine ⟨_, hrun, _, _, _, buf', _, rfl, by omega, ?_, ?_, ?_, hbuf'⟩
      · rw [List.length_cons, List.length_drop]
        omega
      · rw [List.length_drop]
        omega
      · exact fun hmem => hnul (List.mem_of_mem_drop hmem)
  · exact ⟨[], rbuf, total, buf, output, rfl, hpos, htotal, hroom, hnul, hbuf⟩

-- ---------------------------------------------------------------------------
-- The function
-- ---------------------------------------------------------------------------

/-- `text` without its last newline. -/
def chomp (text : List UInt8) : List UInt8 :=
  if text.getLast? = some newline then text.dropLast else text

theorem chomp_length_le (text : List UInt8) : (chomp text).length ≤ text.length := by
  unfold chomp
  split
  · rw [List.length_dropLast]
    omega
  · exact Nat.le_refl _

/-- A last newline is overwritten; another byte stays, and the NUL behind it. -/
theorem stripNewline_capturing (output tail : List UInt8) (rbuflen : Int) (buf : List UInt8)
    (pfile : Stream) :
    ∃ behind, stripNewline (capturing output (0 :: tail) rbuflen buf pfile) =
        some (chomp output ++ 0 :: behind) ∧
      (chomp output ++ 0 :: behind).length = (output ++ 0 :: tail).length ∧
      ∀ n, output.length < n →
        (chomp output ++ 0 :: behind).drop n = (output ++ 0 :: tail).drop n := by
  rcases List.eq_nil_or_concat output with rfl | ⟨init, c, rfl⟩
  · exact ⟨tail, rfl, rfl, fun _ _ => rfl⟩
  · have hp : (capturing (init.concat c) (0 :: tail) rbuflen buf pfile).p = init.length + 1 :=
      List.length_concat
    have hlast : (init.concat c ++ 0 :: tail)[init.length]? = some c := by simp
    by_cases hc : c = newline
    · subst hc
      have hchomp : chomp (init.concat newline) = init := by simp [chomp]
      have hstore : store (init ++ newline :: 0 :: tail) init.length [0] =
          some (init ++ [0] ++ 0 :: tail) := store_append init [0] (by simp)
      refine ⟨0 :: tail, ?_, by rw [hchomp]; simp, fun n hn => ?_⟩
      · rw [stripNewline, hp, if_neg (Nat.succ_ne_zero _), Nat.add_sub_cancel]
        show ((init.concat newline ++ 0 :: tail)[init.length]?).bind _ = _
        rw [hlast, Option.bind_some, if_pos rfl, hchomp]
        show store (init.concat newline ++ 0 :: tail) init.length [0] = _
        simpa using hstore
      · rw [hchomp, List.concat_eq_append, List.append_assoc, List.drop_append, List.drop_append]
        rw [List.length_concat] at hn
        obtain ⟨k, hk⟩ : ∃ k, n - init.length = k + 1 := ⟨n - init.length - 1, by omega⟩
        simp only [hk, List.drop_succ_cons, List.singleton_append]
    · have hchomp : chomp (init.concat c) = init.concat c := by simp [chomp, hc]
      refine ⟨tail, ?_, by rw [hchomp], fun n _ => by rw [hchomp]⟩
      rw [stripNewline, hp, if_neg (Nat.succ_ne_zero _), Nat.add_sub_cancel]
      show ((init.concat c ++ 0 :: tail)[init.length]?).bind _ = _
      rw [hlast, Option.bind_some, if_neg hc, hchomp]
      rfl

/-- The function ends where its loop ends. -/
theorem excuteCmd_done {output rbuf buf rbuf' : List UInt8} {rbuflen : Int} {fuel : ℕ} {s : Capture}
    (hloop : loop captureBody fuel ⟨rbuf, 0, rbuflen, buf, ⟨output, false⟩⟩ = .done s)
    (hstrip : stripNewline s = some rbuf') :
    excuteCmd fuel (some rbuf) rbuflen buf (some output) = .done (some rbuf') := by
  simp only [excuteCmd, hloop, hstrip]

theorem excuteCmd_running {output rbuf buf : List UInt8} {rbuflen : Int} {fuel : ℕ}
    (hloop : loop captureBody fuel ⟨rbuf, 0, rbuflen, buf, ⟨output, false⟩⟩ = .running) :
    excuteCmd fuel (some rbuf) rbuflen buf (some output) = .running := by
  simp only [excuteCmd, hloop]

theorem excuteCmd_eq_done {output rbuf buf : List UInt8} {rbuflen : Int} {fuel : ℕ}
    {r : Option (List UInt8)}
    (h : excuteCmd fuel (some rbuf) rbuflen buf (some output) = .done r) :
    ∃ s rbuf', loop captureBody fuel ⟨rbuf, 0, rbuflen, buf, ⟨output, false⟩⟩ = .done s ∧
      stripNewline s = some rbuf' ∧ r = some rbuf' := by
  simp only [excuteCmd] at h
  split at h
  · rename_i s hloop
    split at h
    · rename_i rbuf' hstrip
      exact ⟨s, rbuf', hloop, hstrip, (LoopEnd.done.inj h).symm⟩
    · simp at h
  · simp at h
  · simp at h

/-- Where it ends does not depend on the bound. -/
theorem excuteCmd_unique {output rbuf buf : List UInt8} {rbuflen : Int} {m n : ℕ}
    {r r' : Option (List UInt8)} (h : excuteCmd m (some rbuf) rbuflen buf (some output) = .done r)
    (h' : excuteCmd n (some rbuf) rbuflen buf (some output) = .done r') : r = r' := by
  obtain ⟨s, rbuf₁, hs, hstrip, rfl⟩ := excuteCmd_eq_done h
  obtain ⟨t, rbuf₂, ht, hstrip', rfl⟩ := excuteCmd_eq_done h'
  rw [← loop_done_unique hs ht, hstrip] at hstrip'
  exact hstrip'

/-- What `excute_cmd` is to do: it returns, nothing is written outside
`rbuf[0..rbuflen)`, and `rbuf` holds a prefix of the output without its last
newline, all of the output if it is shorter than `rbuflen`. -/
def CapturesOutput (output rbuf : List UInt8) (rbuflen : Int) (buf : List UInt8) : Prop :=
  ∃ fuel rbuf', excuteCmd fuel (some rbuf) rbuflen buf (some output) = .done (some rbuf') ∧
    rbuf'.length = rbuf.length ∧ rbuf'.drop rbuflen.toNat = rbuf.drop rbuflen.toNat ∧
    ∃ captured, captured <+: output ∧ ((output.length : Int) < rbuflen → captured = output) ∧
      chomp captured ++ [0] <+: rbuf' ∧ ((chomp captured).length : Int) < rbuflen

/-- **`excute_cmd` captures the output** exactly if it leaves two bytes of room,
and, where there is no output, `rbuf` was an empty string before the call. -/
theorem excute_cmd_captures_iff {output rbuf : List UInt8} {rbuflen : Int} {buf : List UInt8}
    (hnul : 0 ∉ output) (hpos : 1 ≤ rbuflen) (hrbuf : rbuflen ≤ rbuf.length)
    (hbuf : buf.length = sizeofBuf) :
    CapturesOutput output rbuf rbuflen buf ↔
      (output.length : Int) + 1 < rbuflen ∧ (output ≠ [] ∨ rbuf.head? = some 0) := by
  constructor
  · rintro ⟨fuel, rbuf', hdone, -, -, captured, hprefix, -, hstring, -⟩
    have hroom : (output.length : Int) + 1 < rbuflen := by
      by_contra hroom
      have hrunning := excuteCmd_running
        (capture_running (show rbuflen ≤ (output.length : Int) + 1 by omega) hpos hrbuf hnul
          hbuf fuel)
      simp [hrunning] at hdone
    refine ⟨hroom, or_iff_not_imp_left.mpr fun hempty => ?_⟩
    -- nothing is read: rbuf is as it was before the call
    obtain rfl : output = [] := not_not.mp hempty
    obtain ⟨n, _, hloop, tail, buf', rfl, hinv⟩ := capture_done hroom hrbuf hnul hbuf
    have hkept : excuteCmd n (some rbuf) rbuflen buf (some []) = .done (some tail) :=
      excuteCmd_done hloop rfl
    rw [hinv.empty rfl] at hkept
    obtain rfl : rbuf' = rbuf := Option.some.inj (excuteCmd_unique hdone hkept)
    obtain rfl : captured = [] := List.prefix_nil.mp hprefix
    obtain ⟨behind, rfl⟩ := hstring
    rfl
  · rintro ⟨hroom, hnonempty⟩
    obtain ⟨fuel, _, hloop, tail, buf', rfl, hinv⟩ := capture_done hroom hrbuf hnul hbuf
    have hhead : tail.head? = some 0 := by
      by_cases hempty : output = []
      · rw [hinv.empty hempty]
        exact hnonempty.resolve_left (not_not.mpr hempty)
      · exact hinv.nul hempty
    obtain ⟨tail, rfl⟩ := List.head?_eq_some_iff.mp hhead
    obtain ⟨behind, hstrip, hlength, hframe⟩ := stripNewline_capturing output tail
      (rbuflen - output.length) buf' ⟨[], true⟩
    have hchomp := chomp_length_le output
    refine ⟨fuel, _, excuteCmd_done hloop hstrip, ?_, ?_, output, List.prefix_refl _, fun _ => rfl,
      ⟨behind, by simp⟩, by omega⟩
    · rw [hlength, List.length_append, hinv.length]
    · rw [hframe _ (by omega), List.drop_append, List.drop_eq_nil_of_le (by omega), List.nil_append,
        ← hinv.frame]
      congr 1
      omega

/-- `uname` of five bytes into a buffer of eight. -/
theorem excute_cmd_captures_iff_uname :
    CapturesOutput [76, 105, 110, 117, 10] (List.replicate 8 65) 8 (List.replicate 128 66) :=
  (excute_cmd_captures_iff (by decide) (by decide) (by simp) List.length_replicate).mpr
    ⟨by decide, .inl (by decide)⟩

/-- A command that prints four bytes, with a buffer of five: the string would fit,
but the loop does not end. -/
theorem excute_cmd_never_returns :
    ¬ ∀ (output rbuf buf : List UInt8) (rbuflen : Int), 0 ∉ output → 1 ≤ rbuflen →
      rbuflen ≤ rbuf.length → buf.length = sizeofBuf → CapturesOutput output rbuf rbuflen buf := by
  intro h
  obtain ⟨fuel, rbuf', hdone, -⟩ :=
    h [79, 75, 33, 10] (List.replicate 5 0) (List.replicate 128 66) 5 (by decide) (by decide)
      (by simp) List.length_replicate
  have hbuf : (List.replicate 128 (66 : UInt8)).length = sizeofBuf := List.length_replicate
  rw [excuteCmd_running (capture_running (by decide) (by decide) (by simp) (by decide) hbuf
    fuel)] at hdone
  simp at hdone

end Uartd.Report
