import Uartd.Lib.CString
import Uartd.Lib.Collate
import Uartd.Protocol.Time

/-!
# Uartd — the time of a report (report_key.c)

`get_cur_time` prints the local time into `cur_time`, the largest field first, so
that reports can be sorted by the text.

* `cstringAt_getCurTime` — the text always fits, whatever the year;
* `cur_time_sorts` — and from the year 1000 to the year 9999 the texts are in the order
  of the times.
-/

namespace Uartd.Report

open Uartd.Lib Uartd.Protocol

/-- `"%d-%02d-%02d %02d:%02d:%02d"` -/
def curTimeText (year month day hour minute second : Int) : List UInt8 :=
  formatInt year ++ [45] ++ formatZero 2 month ++ [45] ++ formatZero 2 day ++ [32] ++
    formatZero 2 hour ++ [58] ++ formatZero 2 minute ++ [58] ++ formatZero 2 second

/-- `get_cur_time` at the local time `p`: the array `cur_time` after it. -/
def getCurTime (curTime : List UInt8) (p : Tm) : Option (List UInt8) := do
  let year ← checkInt (1900 + p.tmYear)
  let month ← checkInt (1 + p.tmMon)
  store curTime 0 (curTimeText year month p.tmMday p.tmHour p.tmMin p.tmSec ++ [0])

/-- A broken-down time with any year that is an `int`. -/
structure InRange (tm : Tm) : Prop where
  sec  : 0 ≤ tm.tmSec ∧ tm.tmSec ≤ 60
  min  : 0 ≤ tm.tmMin ∧ tm.tmMin ≤ 59
  hour : 0 ≤ tm.tmHour ∧ tm.tmHour ≤ 23
  mday : 1 ≤ tm.tmMday ∧ tm.tmMday ≤ 31
  mon  : 0 ≤ tm.tmMon ∧ tm.tmMon ≤ 11
  year : -2147483648 ≤ 1900 + tm.tmYear ∧ 1900 + tm.tmYear ≤ 2147483647

/-- The fields behind the year. -/
def curTimeRow : List (List UInt8 × ℕ) := [([45], 2), ([45], 2), ([32], 2), ([58], 2), ([58], 2)]

/-- What the fields behind the year tell. -/
def fields (tm : Tm) : List ℕ :=
  [(1 + tm.tmMon).toNat, tm.tmMday.toNat, tm.tmHour.toNat, tm.tmMin.toNat, tm.tmSec.toNat]

/-- The text printed for a local time. -/
def text (tm : Tm) : List UInt8 :=
  curTimeText (1900 + tm.tmYear) (1 + tm.tmMon) tm.tmMday tm.tmHour tm.tmMin tm.tmSec

-- ---------------------------------------------------------------------------
-- The text
-- ---------------------------------------------------------------------------

variable {tm tm' : Tm}

theorem fields_fit (h : InRange tm) : FitsRow curTimeRow (fields tm) := by
  have := h.sec
  have := h.min
  have := h.hour
  have := h.mday
  have := h.mon
  simp only [FitsRow, curTimeRow, fields, List.forall₂_cons, List.Forall₂.nil, and_true]
  omega

theorem text_eq (h : InRange tm) :
    text tm = formatInt (1900 + tm.tmYear) ++ formatRow curTimeRow (fields tm) := by
  have hmon : 0 ≤ 1 + tm.tmMon := by
    have := h.mon
    omega
  obtain ⟨month, hmonth⟩ := Int.eq_ofNat_of_zero_le hmon
  obtain ⟨day, hday⟩ := Int.eq_ofNat_of_zero_le (Int.le_trans Int.one_nonneg h.mday.1)
  obtain ⟨hour, hhour⟩ := Int.eq_ofNat_of_zero_le h.hour.1
  obtain ⟨minute, hminute⟩ := Int.eq_ofNat_of_zero_le h.min.1
  obtain ⟨second, hsecond⟩ := Int.eq_ofNat_of_zero_le h.sec.1
  unfold text curTimeText fields curTimeRow
  rw [hmonth, hday, hhour, hminute, hsecond]
  simp only [Int.toNat_natCast, formatRow, List.append_nil, List.append_assoc]

/-- An `int` has at most eleven characters. -/
theorem formatInt_length {x : Int} (h : -2147483648 ≤ x ∧ x ≤ 2147483647) :
    (formatInt x).length ≤ 11 := by
  have hle : (decimal x.natAbs).length ≤ 10 := decimal_length_le (by decide) (by omega)
  unfold formatInt
  split
  · exact Nat.succ_le_succ hle
  · exact Nat.le_succ_of_le hle

theorem nul_notMem_formatInt (x : Int) : 0 ∉ formatInt x := by
  have hdecimal : (0 : UInt8) ∉ decimal x.natAbs := not_mem_of_isDigit (all_isDigit_decimal _) rfl
  unfold formatInt
  split
  · rw [List.mem_cons, not_or]
    exact ⟨by decide, hdecimal⟩
  · exact hdecimal

/-- **The text fits** in an array of 32 bytes, for every year. -/
theorem cstringAt_getCurTime (h : InRange tm) {curTime : List UInt8} (hlen : curTime.length = 32) :
    (getCurTime curTime tm).bind cstringAt = some (text tm) := by
  have hyear : checkInt (1900 + tm.tmYear) = some (1900 + tm.tmYear) := if_pos h.year
  have hmonth : checkInt (1 + tm.tmMon) = some (1 + tm.tmMon) := by
    have := h.mon
    exact if_pos (by omega)
  have hwidth := formatRow_length (fields_fit h)
  have hroom : (text tm).length < curTime.length := by
    have := formatInt_length h.year
    rw [text_eq h, List.length_append, hwidth, hlen]
    show _ + 15 < 32
    omega
  have hnul : 0 ∉ text tm := by
    rw [text_eq h, List.mem_append, not_or]
    refine ⟨nul_notMem_formatInt _, notMem_formatRow rfl ?_ _⟩
    simp [curTimeRow]
  unfold getCurTime
  rw [hyear, hmonth]
  simp only [Option.bind_eq_bind, Option.bind_some]
  rw [← text, store_string hroom, Option.bind_some, cstringAt_append hnul]

/-- The fields of a local time, the largest first. -/
def key (tm : Tm) : List ℕ := (1900 + tm.tmYear).toNat :: fields tm

/-- A year of four digits is a field like the others. -/
theorem text_row (h : InRange tm) (hyear : 1000 ≤ 1900 + tm.tmYear ∧ 1900 + tm.tmYear ≤ 9999) :
    FitsRow (([], 4) :: curTimeRow) (key tm) ∧
      text tm = formatRow (([], 4) :: curTimeRow) (key tm) := by
  obtain ⟨year, hnat⟩ := Int.eq_ofNat_of_zero_le (show 0 ≤ 1900 + tm.tmYear by omega)
  have hwide : 4 ≤ (decimal year).length := lt_decimal_length (show 10 ^ 3 ≤ year by omega)
  refine ⟨.cons ⟨by decide, ?_⟩ (fields_fit h), ?_⟩
  · show (1900 + tm.tmYear).toNat < 10000
    omega
  · rw [text_eq h, key, formatRow, hnat, formatInt_natCast, Int.toNat_natCast, formatZero_natCast,
      Nat.sub_eq_zero_of_le hwide]
    rfl

/-- **Reports can be sorted by the text.** The text fits in `cur_time`, whatever the year;
and for local times from the year 1000 to the year 9999, the string in `cur_time` at the
one time is before the string at the other if and only if the one time is before the
other. -/
theorem cur_time_sorts {curTime curTime' : List UInt8} (hlen : curTime.length = 32)
    (hlen' : curTime'.length = 32) (h : InRange tm) (h' : InRange tm') :
    ∃ text text', (getCurTime curTime tm).bind cstringAt = some text ∧
      (getCurTime curTime' tm').bind cstringAt = some text' ∧
      (1000 ≤ 1900 + tm.tmYear ∧ 1900 + tm.tmYear ≤ 9999 →
        1000 ≤ 1900 + tm'.tmYear ∧ 1900 + tm'.tmYear ≤ 9999 →
        (text < text' ↔ key tm < key tm')) := by
  refine ⟨_, _, cstringAt_getCurTime h hlen, cstringAt_getCurTime h' hlen', fun hyear hyear' => ?_⟩
  obtain ⟨hfits, htext⟩ := text_row h hyear
  obtain ⟨hfits', htext'⟩ := text_row h' hyear'
  rw [htext, htext', formatRow_lt_iff hfits hfits']

/-- The last second of 2017. -/
def lastSecond : Tm := ⟨59, 59, 23, 31, 11, 117, 0⟩

theorem lastSecond_inRange : InRange lastSecond :=
  ⟨by decide, by decide, by decide, by decide, by decide, by decide⟩

/-- The last second of 2017 and the first one of 2018. -/
theorem cur_time_sorts_new_year :
    ∃ text text' : List UInt8,
      (getCurTime (List.replicate 32 0) lastSecond).bind cstringAt = some text ∧
      (getCurTime (List.replicate 32 0) ⟨0, 0, 0, 1, 0, 118, 1⟩).bind cstringAt = some text' ∧
      text < text' := by
  have hlen : (List.replicate 32 (0 : UInt8)).length = 32 := List.length_replicate
  have hfirst : InRange ⟨0, 0, 0, 1, 0, 118, 1⟩ :=
    ⟨by decide, by decide, by decide, by decide, by decide, by decide⟩
  obtain ⟨text, text', htext, htext', hsorts⟩ := cur_time_sorts hlen hlen lastSecond_inRange hfirst
  exact ⟨text, text', htext, htext', (hsorts (by decide) (by decide)).mpr (by decide)⟩

end Uartd.Report
