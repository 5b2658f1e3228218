import Uartd.Lib.Decimal
import Uartd.Lib.Stdio
import Uartd.Message.Dispatch
import Uartd.Message.ReadySend

/-!
# Uartd — the time reply (uart_protocol.c)

`Process_AT_TIME_CMD` prints the local time without separators and queues the
text for the UART. `decodeTime` is the reader on the other side: it knows the
width of each field but the year, which ends at the '&'.

* `timeText_eq` — the text is a row of fields of known widths, the year and '&';
* `decodeTime_timeText` — the reader finds the seven fields;
* `time_reply_decodes` — what is queued, for every local time.
-/

namespace Uartd.Protocol

open Uartd.Lib Uartd.LinkList Uartd.Message

/-- `struct tm`, the fields that are printed. -/
structure Tm where
  tmSec  : Int
  tmMin  : Int
  tmHour : Int
  tmMday : Int
  tmMon  : Int
  tmYear : Int
  tmWday : Int
  deriving DecidableEq, Repr

/-- "AXX+TIM+" -/
def timePrefix : List UInt8 := [65, 88, 88, 43, 84, 73, 77, 43]

/-- '&' -/
def amp : UInt8 := 38

/-- `"AXX+TIM+%02d%02d%02d%02d%d%02d%4d&"` -/
def timeText (second minute hour day week month year : Int) : List UInt8 :=
  timePrefix ++ formatZero 2 second ++ formatZero 2 minute ++ formatZero 2 hour ++
    formatZero 2 day ++ formatInt week ++ formatZero 2 month ++ formatBlank 4 year ++ [amp]

/-- `Process_AT_TIME_CMD` at the local time `ptm`: its call of `ready_send_data`. -/
def processAtTimeCmd (ptm : Tm) : Option SendCall := do
  let run := List.replicate 64 0
  let year ← checkInt (ptm.tmYear + 1900)
  let month ← checkInt (ptm.tmMon + 1)
  let day := ptm.tmMday
  let hour := ptm.tmHour
  let minute := ptm.tmMin
  let second := ptm.tmSec
  let week := ptm.tmWday
  let (run, _) ← snprintf run 0 64 (timeText second minute hour day week month year)
  let len ← strlen run
  pure ⟨.UART, some run, len⟩

/-- The widths of second, minute, hour, day, weekday and month. -/
def timeWidths : List ℕ := [2, 2, 2, 2, 1, 2]

/-- The time a reply tells. -/
def decodeTime (text : List UInt8) : Option Tm :=
  if timePrefix <+: text then
    match readFields timeWidths (text.drop timePrefix.length) with
    | some ([second, minute, hour, day, week, month], rest) => do
      let year ← readDecimal (rest.takeWhile (· ≠ amp))
      pure { tmSec := second, tmMin := minute, tmHour := hour, tmMday := day,
             tmMon := month - 1, tmYear := year - 1900, tmWday := week }
    | _ => none
  else none

/-- The local times looked at: a calendar date, with the year 1000 or later. -/
structure Tm.Proper (tm : Tm) : Prop where
  sec  : 0 ≤ tm.tmSec ∧ tm.tmSec ≤ 60
  min  : 0 ≤ tm.tmMin ∧ tm.tmMin ≤ 59
  hour : 0 ≤ tm.tmHour ∧ tm.tmHour ≤ 23
  mday : 1 ≤ tm.tmMday ∧ tm.tmMday ≤ 31
  wday : 0 ≤ tm.tmWday ∧ tm.tmWday ≤ 6
  mon  : 1 ≤ tm.tmMon + 1 ∧ tm.tmMon + 1 ≤ 12
  year : 1000 ≤ tm.tmYear + 1900 ∧ tm.tmYear + 1900 ≤ 2147483647

/-- The text printed for a local time. -/
def Tm.text (tm : Tm) : List UInt8 :=
  timeText tm.tmSec tm.tmMin tm.tmHour tm.tmMday tm.tmWday (tm.tmMon + 1) (tm.tmYear + 1900)

-- ---------------------------------------------------------------------------
-- The text
-- ---------------------------------------------------------------------------

/-- The fields before the year, with their widths. -/
def timeFields (tm : Tm) : List (ℕ × ℕ) :=
  [(2, tm.tmSec.toNat), (2, tm.tmMin.toNat), (2, tm.tmHour.toNat), (2, tm.tmMday.toNat),
    (1, tm.tmWday.toNat), (2, (tm.tmMon + 1).toNat)]

theorem timeFields_widths (tm : Tm) : (timeFields tm).map Prod.fst = timeWidths := rfl

variable {tm : Tm}

theorem timeFields_fit (h : tm.Proper) : ∀ f ∈ timeFields tm, 0 < f.1 ∧ f.2 < 10 ^ f.1 := by
  have := h.sec
  have := h.min
  have := h.hour
  have := h.mday
  have := h.wday
  have := h.mon
  simp only [timeFields, List.forall_mem_cons, List.not_mem_nil, false_implies, implies_true,
    and_true]
  omega

/-- A year of four digits or more has no blanks before it. -/
theorem timeText_eq (h : tm.Proper) :
    tm.text = timePrefix ++ (formatFields (timeFields tm) ++
      (decimal (tm.tmYear + 1900).toNat ++ [amp])) := by
  obtain ⟨second, hsecond⟩ := Int.eq_ofNat_of_zero_le h.sec.1
  obtain ⟨minute, hminute⟩ := Int.eq_ofNat_of_zero_le h.min.1
  obtain ⟨hour, hhour⟩ := Int.eq_ofNat_of_zero_le h.hour.1
  obtain ⟨day, hday⟩ := Int.eq_ofNat_of_zero_le (Int.le_trans Int.one_nonneg h.mday.1)
  obtain ⟨week, hweek⟩ := Int.eq_ofNat_of_zero_le h.wday.1
  obtain ⟨month, hmonth⟩ := Int.eq_ofNat_of_zero_le (Int.le_trans Int.one_nonneg h.mon.1)
  have hyears := h.year
  obtain ⟨year, hyear⟩ := Int.eq_ofNat_of_zero_le (show 0 ≤ tm.tmYear + 1900 by omega)
  have hwide : 4 ≤ (decimal year).length := lt_decimal_length (show 10 ^ 3 ≤ year by omega)
  unfold Tm.text timeText timeFields
  rw [hsecond, hminute, hhour, hday, hweek, hmonth, hyear]
  simp only [Int.toNat_natCast, formatFields, List.flatMap_cons, List.flatMap_nil, List.append_nil,
    List.append_assoc, formatZero_one, formatBlank_natCast hwide]

/-- The fields take eleven bytes, the year is the rest. -/
theorem timeText_length (h : tm.Proper) :
    tm.text.length = 20 + (decimal (tm.tmYear + 1900).toNat).length := by
  rw [timeText_eq h, List.length_append, List.length_append, List.length_append,
    formatFields_length (timeFields_fit h), timeFields_widths]
  show 8 + (11 + (_ + 1)) = _
  omega

/-- What stands between the header and the '&' are digits. -/
theorem amp_notMem (tm : Tm) :
    amp ∉ formatFields (timeFields tm) ++ decimal (tm.tmYear + 1900).toNat := by
  refine not_mem_of_isDigit ?_ (show isDigit amp = false from rfl)
  rw [List.all_append, all_isDigit_formatFields, all_isDigit_decimal]
  rfl

theorem timeText_count_amp (h : tm.Proper) : tm.text.count amp = 1 := by
  rw [timeText_eq h, ← List.append_assoc (formatFields _), List.count_append, List.count_append,
    List.count_eq_zero_of_not_mem (amp_notMem tm)]
  rfl

theorem zero_notMem_timeText (h : tm.Proper) : 0 ∉ tm.text := by
  have hdigits : 0 ∉ formatFields (timeFields tm) ++ decimal (tm.tmYear + 1900).toNat := by
    refine not_mem_of_isDigit ?_ (show isDigit 0 = false from rfl)
    rw [List.all_append, all_isDigit_formatFields, all_isDigit_decimal]
    rfl
  rw [timeText_eq h, ← List.append_assoc (formatFields _), List.mem_append, List.mem_append]
  rintro (hmem | hmem | hmem)
  · exact absurd hmem (by decide)
  · exact hdigits hmem
  · exact absurd hmem (by decide)

/-- **The reader finds the seven fields.** -/
theorem decodeTime_timeText (h : tm.Proper) : decodeTime tm.text = some tm := by
  have hyears := h.year
  have hamp : ∀ c ∈ decimal (tm.tmYear + 1900).toNat, (c ≠ amp : Bool) = true := by
    intro c hc
    have hne : c ≠ amp := fun heq => amp_notMem tm (List.mem_append_right _ (heq ▸ hc))
    simpa using hne
  have hyear : readDecimal (decimal (tm.tmYear + 1900).toNat) = some (tm.tmYear + 1900).toNat :=
    readDecimal_zeros 0 _
  have hfields := readFields_append (timeFields_fit h) (decimal (tm.tmYear + 1900).toNat ++ [amp])
  rw [timeFields_widths] at hfields
  rw [timeText_eq h, decodeTime, if_pos (List.prefix_append _ _), List.drop_left, hfields]
  show (readDecimal ((decimal (tm.tmYear + 1900).toNat ++ [amp]).takeWhile (· ≠ amp))).bind _ = _
  rw [List.takeWhile_append_of_pos hamp, show [amp].takeWhile (· ≠ amp) = [] from rfl,
    List.append_nil, hyear, Option.bind_some]
  have hsec := Int.toNat_of_nonneg h.sec.1
  have hmin := Int.toNat_of_nonneg h.min.1
  have hhour := Int.toNat_of_nonneg h.hour.1
  have hmday := Int.toNat_of_nonneg (Int.le_trans Int.one_nonneg h.mday.1)
  have hwday := Int.toNat_of_nonneg h.wday.1
  have hmon := Int.toNat_of_nonneg (Int.le_trans Int.one_nonneg h.mon.1)
  have hyear := Int.toNat_of_nonneg (show 0 ≤ tm.tmYear + 1900 by omega)
  show some (Tm.mk _ _ _ _ _ _ _) = some tm
  rw [hsec, hmin, hhour, hmday, hwday, hmon, hyear, Int.add_sub_cancel, Int.add_sub_cancel]

-- ---------------------------------------------------------------------------
-- The call
-- ---------------------------------------------------------------------------

theorem year_length_le (h : tm.Proper) : (decimal (tm.tmYear + 1900).toNat).length ≤ 10 := by
  have := h.year
  exact decimal_length_le (by omega) (by omega)

/-- The text fits into the buffer with its NUL, and is passed on with its length. -/
theorem processAtTimeCmd_text (h : tm.Proper) :
    processAtTimeCmd tm = some ⟨.UART,
      some (tm.text ++ 0 :: List.replicate (64 - (tm.text.length + 1)) 0), tm.text.length⟩ := by
  have hlen := timeText_length h
  have hle := year_length_le h
  have hyear : checkInt (tm.tmYear + 1900) = some (tm.tmYear + 1900) :=
    if_pos (by have := h.year; omega)
  have hmon : checkInt (tm.tmMon + 1) = some (tm.tmMon + 1) := if_pos (by have := h.mon; omega)
  have hprint : snprintf (List.replicate 64 0) 0 64 tm.text =
      some (tm.text ++ 0 :: List.replicate (64 - (tm.text.length + 1)) 0, tm.text.length) := by
    rw [snprintf_start (by omega) (Nat.le_of_eq List.length_replicate.symm), List.drop_replicate]
  have htext : timeText tm.tmSec tm.tmMin tm.tmHour tm.tmMday tm.tmWday (tm.tmMon + 1)
      (tm.tmYear + 1900) = tm.text := rfl
  unfold processAtTimeCmd
  simp only [hyear, hmon, htext, hprint, strlen_append (zero_notMem_timeText h),
    Option.bind_eq_bind, Option.bind_some]
  rfl

/-- A call that passes a string with its length queues the string. -/
theorem message_of_string (port : Port) {text : List UInt8} (behind : List UInt8) (h : text ≠ []) :
    SendCall.message ⟨port, some (text ++ behind), text.length⟩ =
      some ⟨some text, text.length, 0, port⟩ := by
  have hpos := List.length_pos_of_ne_nil h
  simp only [SendCall.message, Int.toNat_natCast, List.take_left]
  rw [if_neg (by omega)]

/-- **The time reply decodes back**, for every local time: the text is not cut
off, it is queued with its length, its only '&' is its last byte, and reading it
gives the local time. Up to the year 9999 it is 24 bytes long. -/
theorem time_reply_decodes (tm : Tm) (h : tm.Proper) :
    ∃ call d, processAtTimeCmd tm = some call ∧ call.message = some d ∧
      d.sendTo = .UART ∧ d.bytes = tm.text ∧ d.dataLen = tm.text.length ∧ tm.text.length < 64 ∧
      timePrefix <+: tm.text ∧ tm.text.getLast? = some amp ∧ tm.text.count amp = 1 ∧
      decodeTime d.bytes = some tm ∧ (tm.tmYear + 1900 ≤ 9999 → d.dataLen = 24) ∧
      ∀ (l : MessageList) (alloc : NodeAlloc), alloc.Succeeds → alloc.Fresh l.heap →
        ∃ id heap' head', readySendDataInsert l.heap l.head alloc call =
          some (0, heap', some head') ∧ Rep heap' head' (l.queue ++ [(id, d)]) := by
  have hlen := timeText_length h
  have hle := year_length_le h
  have htext := timeText_eq h
  have hne : tm.text ≠ [] := List.ne_nil_of_length_pos (by omega)
  have hmessage := message_of_string .UART (0 :: List.replicate (64 - (tm.text.length + 1)) 0) hne
  have hbytes : DataInf.bytes ⟨some tm.text, tm.text.length, 0, .UART⟩ = tm.text := by
    show tm.text.take (tm.text.length : Int).toNat = tm.text
    rw [Int.toNat_natCast, List.take_length]
  refine ⟨_, _, processAtTimeCmd_text h, hmessage, rfl, hbytes, rfl, by omega, ?_, ?_,
    timeText_count_amp h, ?_, ?_, ?_⟩
  · rw [htext]
    exact List.prefix_append _ _
  · rw [htext, ← List.append_assoc, ← List.append_assoc, List.getLast?_concat]
  · rw [hbytes]
    exact decodeTime_timeText h
  · intro hfour
    have hyear := h.year
    have hwide : 3 < (decimal (tm.tmYear + 1900).toNat).length :=
      lt_decimal_length (show 10 ^ 3 ≤ (tm.tmYear + 1900).toNat by omega)
    have hnarrow : (decimal (tm.tmYear + 1900).toNat).length ≤ 4 :=
      decimal_length_le (by omega) (by omega)
    show (tm.text.length : Int) = 24
    omega
  · intro l alloc halloc hfresh
    refine readySendDataInsert_queued hmessage ?_ halloc hfresh
    intro data hdata
    rw [← Option.some.inj hdata, List.length_append]
    show (tm.text.length : Int) ≤ _
    omega

/-- Half past nine on a leap second of the year 2024. -/
theorem time_reply_decodes_leap :
    ∃ call d, processAtTimeCmd ⟨60, 30, 9, 29, 1, 124, 4⟩ = some call ∧ call.message = some d ∧
      decodeTime d.bytes = some ⟨60, 30, 9, 29, 1, 124, 4⟩ := by
  obtain ⟨call, d, hcall, hmessage, -, -, -, -, -, -, -, hdecode, -⟩ :=
    time_reply_decodes ⟨60, 30, 9, 29, 1, 124, 4⟩
      ⟨by decide, by decide, by decide, by decide, by decide, by decide, by decide⟩
  exact ⟨call, d, hcall, hmessage, hdecode⟩

end Uartd.Protocol
