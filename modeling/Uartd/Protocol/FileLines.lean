import Uartd.Lib.Decimal
import Uartd.Lib.Lines

/-!
# Uartd — compare_FileAndUrl (uart_protocol.c)

`compare_FileAndUrl` looks for the line of a file that starts with `Url` without
its last character. It counts lines in two ways: `hangshu` counts newlines, and
that many times the loop calls `fgets` with a buffer of 512 bytes. The two agree
as long as lines are short and the last one has its newline.

* `hangshu_eq` — the number of newlines;
* `compareLoop_eq` — the loop searches the reads;
* `compare_file_url_iff` — when this finds the right line.
-/

namespace Uartd.Protocol

open Uartd.Lib

/-- A file with its access rights. -/
structure File where
  content  : List UInt8
  readable : Bool
  writable : Bool

/-- `fopen(file, "r")`: what the stream delivers, `none` for NULL. -/
def fopenRead : Option File → Option Stream
  | some f => if f.readable then some ⟨f.content, false⟩ else none
  | none => none

/-- `fopen(file, "r+")`. -/
def fopenUpdate : Option File → Option Stream
  | some f => if f.readable && f.writable then some ⟨f.content, false⟩ else none
  | none => none

/-- The loop of `hangshu`: `fgetc` until end-of-file. -/
def countLoop : List UInt8 → Int → Option Int
  | [], n => some n
  | ch :: s, n => if ch = newline then (checkInt (n + 1)).bind (countLoop s) else countLoop s n

def hangshu (file : Option File) : Option Int :=
  match fopenRead file with
  | none => some (-1)
  | some fp => countLoop fp.rest 0

/-- `strlen(Url)-1`, of type `size_t`. -/
def compareLength (len : ℕ) : ℕ := if len = 0 then 2 ^ 64 - 1 else len - 1

/-- The loop of `compare_FileAndUrl` with `m` iterations to go. -/
def compareLoop (url : List UInt8) : ℕ → Int → List UInt8 → Stream → Option Int
  | 0, _, _, _ => some 0
  | m + 1, i, buf, dp =>
    match fgets 512 dp with
    | (none, _) => some 0
    | (some deline, dp) => do
      let buf ← store buf 0 (deline ++ [0])
      let len ← strlen url
      let ret ← strncmp buf url (compareLength len)
      let i ← checkInt (i + 1)
      if ret = 0 then pure i else compareLoop url m i buf dp

/-- `compare_FileAndUrl`; `buf` is the local buffer, uninitialised. With a NULL
argument the function ends without a return value. -/
def compareFileAndUrl (buf : List UInt8) (filepatch : Option (Option File))
    (url : Option (List UInt8)) : Option Int :=
  match filepatch, url with
  | some filepatch, some url => do
    let hangnum ← hangshu filepatch
    match fopenUpdate filepatch with
    | none => some (-1)
    | some dp => compareLoop url hangnum.toNat 0 buf dp
  | _, _ => none

-- ---------------------------------------------------------------------------
-- The two counts
-- ---------------------------------------------------------------------------

theorem countLoop_eq (s : List UInt8) {n : ℕ} (hn : n ≤ 2147483647) :
    countLoop s n = if n + s.count newline ≤ 2147483647
      then some ((n + s.count newline : ℕ) : Int) else none := by
  induction s generalizing n with
  | nil => rw [countLoop, List.count_nil, if_pos (by omega)]; rfl
  | cons c s ih =>
    by_cases hc : c = newline
    · subst hc
      rw [countLoop, if_pos rfl, List.count_cons_self, checkInt]
      by_cases hlt : n + 1 ≤ 2147483647
      · rw [if_pos (by omega), Option.bind_some]
        have := ih hlt
        rw [Nat.cast_add_one] at this
        rw [this, Nat.add_assoc, Nat.add_comm 1]
      · rw [if_neg (by omega), if_neg (by omega)]
        rfl
    · rw [countLoop, if_neg hc, List.count_cons_of_ne hc, ih hn]

/-- The number of newlines, unless there are too many for an `int`. -/
theorem hangshu_eq (content : List UInt8) (writable : Bool) :
    hangshu (some ⟨content, true, writable⟩) = if content.count newline ≤ 2147483647
      then some (content.count newline : Int) else none := by
  have hcount := countLoop_eq content (Nat.zero_le 2147483647)
  rw [Nat.zero_add] at hcount
  exact hcount

/-- A text starts with `key`. -/
def startsWith (key : List UInt8) (text : List UInt8) : Bool := key.isPrefixOf text

/-- One iteration before the end of the file: the read is compared with `key`. -/
theorem compareLoop_succ {key s buf : List UInt8} {last : UInt8} (hkey : 0 ∉ key)
    (hlast : 0 ≠ last) (hs : 0 ∉ s) (hne : s ≠ []) (hbuf : buf.length = 512) {i : ℕ}
    (hi : i + 1 ≤ 2147483647) (m : ℕ) (eof : Bool) :
    ∃ buf' eof', buf'.length = 512 ∧
      compareLoop (cstring (key ++ [last])) (m + 1) i buf ⟨s, eof⟩ =
        if startsWith key (lineChunk 511 s) = true then some ((i + 1 : ℕ) : Int)
        else compareLoop (cstring (key ++ [last])) m ((i + 1 : ℕ) : Int) buf'
          ⟨s.drop (lineChunk 511 s).length, eof'⟩ := by
  have hline : 0 ∉ lineChunk 511 s := fun hmem => hs ((lineChunk_prefix_self _ _).subset hmem)
  have hlen := lineChunk_length_le 511 s
  have hstore := store_string (show (lineChunk 511 s).length < buf.length by omega)
  have hurl : strlen (cstring (key ++ [last])) = some (key.length + 1) := by
    rw [strlen_cstring (by simp [hkey, hlast]), List.length_append]
    rfl
  have hsize : compareLength (key.length + 1) = key.length := by simp [compareLength]
  obtain ⟨c, hcompare, hc⟩ := strncmp_text hline hkey
    (buf.drop ((lineChunk 511 s).length + 1)) [last, 0]
  have hcstring : cstring (key ++ [last]) = key ++ [last, 0] := List.append_assoc _ _ _
  have hnext : checkInt ((i : Int) + 1) = some ((i + 1 : ℕ) : Int) := if_pos (by omega)
  have hiff : c = 0 ↔ startsWith key (lineChunk 511 s) = true :=
    hc.trans List.isPrefixOf_iff_prefix.symm
  obtain ⟨eof', hread⟩ : ∃ eof', fgets 512 ⟨s, eof⟩ =
      (some (lineChunk 511 s), ⟨s.drop (lineChunk 511 s).length, eof'⟩) :=
    ⟨_, fgets_chunk (by omega) hne eof⟩
  refine ⟨_, eof', (store_length hstore).trans hbuf, ?_⟩
  rw [compareLoop, hread]
  simp only [hstore, hurl, hsize, hnext, Option.bind_eq_bind, Option.bind_some]
  rw [hcstring, hcompare, Option.bind_some]
  exact if_congr hiff rfl rfl

/-- **The loop searches the first `m` reads** for one that starts with `key`. -/
theorem compareLoop_eq {key s buf : List UInt8} {last : UInt8} (hkey : 0 ∉ key) (hlast : 0 ≠ last)
    (hs : 0 ∉ s) (hbuf : buf.length = 512) {i m : ℕ} (him : i + m ≤ 2147483647) (eof : Bool) :
    compareLoop (cstring (key ++ [last])) m i buf ⟨s, eof⟩ =
      some (match ((reads 511 s).take m).findIdx? (startsWith key) with
        | some j => ((i + j + 1 : ℕ) : Int)
        | none => 0) := by
  induction m generalizing s buf i eof with
  | zero => rfl
  | succ m ih =>
    by_cases hne : s = []
    · subst hne
      rw [compareLoop, fgets_end (by omega), reads_nil]
      rfl
    · obtain ⟨buf', eof', hbuf', hstep⟩ := compareLoop_succ hkey hlast hs hne hbuf
        (show i + 1 ≤ 2147483647 by omega) m eof
      rw [hstep, reads_cons (show 0 < 511 by omega) hne, List.take_succ_cons, List.findIdx?_cons]
      by_cases hstart : startsWith key (lineChunk 511 s) = true
      · rw [if_pos hstart, if_pos hstart]
      · have hrest : 0 ∉ s.drop (lineChunk 511 s).length :=
          fun hmem => hs (List.mem_of_mem_drop hmem)
        rw [if_neg hstart, if_neg hstart,
          ih hrest hbuf' (show i + 1 + m ≤ 2147483647 by omega)]
        cases ((reads 511 (s.drop (lineChunk 511 s).length)).take m).findIdx? (startsWith key) with
        | none => simp
        | some j =>
          simp only [Option.map_some, Option.some.injEq, Nat.cast_inj]
          omega

/-- What the function returns for a file that can be read and written. -/
theorem compareFileAndUrl_eq {key content buf : List UInt8} {last : UInt8} (hkey : 0 ∉ key)
    (hlast : 0 ≠ last) (hs : 0 ∉ content) (hbuf : buf.length = 512) :
    compareFileAndUrl buf (some (some ⟨content, true, true⟩)) (some (cstring (key ++ [last]))) =
      if content.count newline ≤ 2147483647
      then some (position (startsWith key)
        ((reads 511 content).take (content.count newline)) : Int) else none := by
  show (hangshu (some ⟨content, true, true⟩)).bind _ = _
  rw [hangshu_eq]
  by_cases hcount : content.count newline ≤ 2147483647
  · rw [if_pos hcount, if_pos hcount, Option.bind_some]
    show compareLoop _ (content.count newline : Int).toNat ((0 : ℕ) : Int) buf ⟨content, false⟩ = _
    rw [Int.toNat_natCast, compareLoop_eq hkey hlast hs hbuf (by omega), position]
    cases ((reads 511 content).take (content.count newline)).findIdx? (startsWith key) with
    | none => rfl
    | some j => simp
  · rw [if_neg hcount, if_neg hcount]
    rfl

-- ---------------------------------------------------------------------------
-- The right line
-- ---------------------------------------------------------------------------

variable {key content : List UInt8}

/-- What is to be found: the number of the first line that starts with `key`. -/
def firstLineWith (key content : List UInt8) : ℕ := position (startsWith key) (lines content)

/-- The files in which it is found: no line starts with `key`, and no piece that
is read looks as if; or line `k` is the first that does, it has its newline, the
lines before it and `key` fit into the buffer; or a longer line stands before it,
and by coincidence piece `k` is the first that starts with `key`. -/
def FindsLine (key content : List UInt8) : Prop :=
  content.count newline ≤ 2147483647 ∧
    (((∀ line ∈ lines content, startsWith key line = false) ∧
        ∀ piece ∈ (reads 511 content).take (content.count newline), startsWith key piece = false) ∨
      ∃ k < content.count newline, FirstAt (startsWith key) (lines content) k ∧
        ((key.length ≤ 511 ∧ ∀ line ∈ (lines content).take k, line.length ≤ 511) ∨
          ((∃ line ∈ (lines content).take k, 511 < line.length) ∧
            FirstAt (startsWith key) (reads 511 content) k)))

/-- Behind short lines the reads find what the lines do, if `key` fits into one. -/
theorem firstAt_reads_iff {k : ℕ} (hfirst : FirstAt (startsWith key) (lines content) k)
    (hshort : ∀ line ∈ (lines content).take k, line.length ≤ 511) :
    FirstAt (startsWith key) (reads 511 content) k ↔ key.length ≤ 511 := by
  obtain ⟨⟨line, hline, hstart⟩, hbefore⟩ := hfirst
  have hreads : ∀ j ≤ k, (reads 511 content)[j]? = ((lines content)[j]?).map (List.take 511) :=
    fun j hj => reads_getElem? (by omega) fun line hmem =>
      hshort line (List.take_subset_take_left _ hj hmem)
  have hk : (reads 511 content)[k]? = some (line.take 511) := by
    rw [hreads k (Nat.le_refl k), hline, Option.map_some]
  rw [startsWith, List.isPrefixOf_iff_prefix] at hstart
  constructor
  · rintro ⟨⟨piece, hpiece, hp⟩, -⟩
    obtain rfl : line.take 511 = piece := Option.some.inj (hk.symm.trans hpiece)
    have hle := (List.isPrefixOf_iff_prefix.mp hp).length_le
    rw [List.length_take] at hle
    omega
  · intro hlen
    refine ⟨⟨_, hk, List.isPrefixOf_iff_prefix.mpr ?_⟩, fun j hj piece hpiece => ?_⟩
    · exact List.prefix_take_iff.mpr ⟨hstart, hlen⟩
    · rw [hreads j (Nat.le_of_lt hj)] at hpiece
      obtain ⟨line', hline', rfl⟩ := Option.map_eq_some_iff.mp hpiece
      have hmem : line' ∈ (lines content).take k :=
        List.mem_of_getElem? (by rw [List.getElem?_take_of_lt hj]; exact hline')
      rw [List.take_of_length_le (hshort line' hmem)]
      exact hbefore j hj line' hline'

theorem findsLine_iff : FindsLine key content ↔ content.count newline ≤ 2147483647 ∧
    position (startsWith key) ((reads 511 content).take (content.count newline)) =
      firstLineWith key content := by
  rw [FindsLine, firstLineWith, position_take_eq_iff]
  refine and_congr_right fun _ => or_congr_right ?_
  refine exists_congr fun k => and_congr_right fun _ => and_congr_right fun hfirst => ?_
  by_cases hshort : ∀ line ∈ (lines content).take k, line.length ≤ 511
  · rw [firstAt_reads_iff hfirst hshort]
    constructor
    · rintro (⟨hlen, -⟩ | ⟨⟨line, hmem, hlong⟩, -⟩)
      · exact hlen
      · exact absurd (hshort line hmem) (by omega)
    · exact fun hlen => .inl ⟨hlen, hshort⟩
  · constructor
    · rintro (⟨-, h⟩ | ⟨-, hreads⟩)
      · exact absurd h hshort
      · exact hreads
    · intro hreads
      push Not at hshort
      exact .inr ⟨hshort, hreads⟩

/-- In a file of short lines that all have their newline the line is found. -/
theorem findsLine_of_short (hcount : content.count newline ≤ 2147483647)
    (hend : content = [] ∨ content.getLast? = some newline)
    (hshort : ∀ line ∈ lines content, line.length ≤ 511) : FindsLine key content := by
  rw [findsLine_iff, reads_of_short (by omega) hshort, firstLineWith,
    List.take_of_length_le (Nat.le_of_eq (lines_length hend))]
  exact ⟨hcount, rfl⟩

/-- **compare_FileAndUrl finds the right line exactly in these files.** -/
theorem compare_file_url_iff (content buf : List UInt8) (url : CStr) (hs : 0 ∉ content)
    (hurl : 2 ≤ url.bytes.length) (hbuf : buf.length = 512) :
    compareFileAndUrl buf (some (some ⟨content, true, true⟩)) (some (cstring url.bytes)) =
        some (firstLineWith url.bytes.dropLast content : Int) ↔
      FindsLine url.bytes.dropLast content := by
  have hne : url.bytes ≠ [] := List.ne_nil_of_length_pos (by omega)
  have hsplit := List.dropLast_concat_getLast hne
  have hnul := url.no_nul
  rw [← hsplit, List.mem_append, List.mem_singleton, not_or] at hnul
  have hresult := compareFileAndUrl_eq hnul.1 hnul.2 hs hbuf
  rw [hsplit] at hresult
  rw [hresult, findsLine_iff]
  by_cases hcount : content.count newline ≤ 2147483647
  · rw [if_pos hcount, Option.some.injEq, Nat.cast_inj]
    exact (and_iff_right hcount).symm
  · rw [if_neg hcount]
    exact iff_of_false (by simp) fun h => hcount h.1

/-- "a\nb\n" is searched for "bX". -/
theorem compare_file_url_iff_second :
    compareFileAndUrl (List.replicate 512 0) (some (some ⟨[97, 10, 98, 10], true, true⟩))
        (some (cstring [98, 88])) = some ((firstLineWith [98] [97, 10, 98, 10] : ℕ) : Int) :=
  (compare_file_url_iff [97, 10, 98, 10] (List.replicate 512 0) ⟨[98, 88], by decide⟩ (by decide)
    (by decide) List.length_replicate).mpr
      (findsLine_of_short (by decide) (.inr rfl) (by decide))

/-- "ab" without a newline is searched for "abc": the line starts with "ab", and
the result is 0. -/
theorem compare_skips_last_line :
    ¬ ∀ (content buf : List UInt8) (url : CStr), 0 ∉ content → 2 ≤ url.bytes.length →
      buf.length = 512 →
      compareFileAndUrl buf (some (some ⟨content, true, true⟩)) (some (cstring url.bytes)) =
        some (firstLineWith url.bytes.dropLast content : Int) := by
  intro h
  have hfound := h [97, 98] (List.replicate 512 0) ⟨[97, 98, 99], by decide⟩ (by decide) (by decide)
    List.length_replicate
  have hzero : compareFileAndUrl (List.replicate 512 0) (some (some ⟨[97, 98], true, true⟩))
      (some (cstring [97, 98, 99])) = some 0 := rfl
  have hone : firstLineWith [97, 98] [97, 98] = 1 := by decide
  rw [hzero] at hfound
  have hlast : [97, 98, (99 : UInt8)].dropLast = [97, 98] := rfl
  simp only [hlast, hone, Option.some.injEq] at hfound
  omega

end Uartd.Protocol
