import Uartd.DataFifo.Range
import Uartd.Lib.Framing
import Uartd.Lib.Loop
import Uartd.Lib.Rows
import Uartd.Lib.Stdio

/-!
# Uartd — the picture of a ring buffer (print_graph)

`print_graph` clears the screen and prints the buffer in rows of `HORIZON` bytes,
with two lines above each for the marks of `head` and two below for those of
`tail`. The outer loop is stepped by the line of the bytes alone; the four lines
of marks count the positions for themselves. All the counters are `int`.

A `Picture` is what such a text means: rows of marks and bytes; `render` is its
text. `Shows f pic` says that the picture is one of the fifo `f`. A row is
printed whole, so what lies in the last one decides (`graphBody_row`,
`graphBody_short`): `print_graph_faithful_iff`.
-/

namespace Uartd.DataFifo

open Uartd.Lib

/-- `HORIZON`. -/
def horizon : ℕ := 64

/-- The characters printed: `' '`, `'|'`, `'0'` and `'='`. -/
def blank : UInt8 := 32
def bar : UInt8 := 124
def zero : UInt8 := 48
def rule : UInt8 := 61

/-- `"\033[2J"`. -/
def clearScreen : List UInt8 := [27, 91, 50, 74]

/-- A digit of `%hhx`. -/
def hexDigit (d : ℕ) : UInt8 := UInt8.ofNat (if d < 10 then 48 + d else 87 + d)

/-- `"|%02hhx"`. -/
def hexCell (c : UInt8) : List UInt8 := [bar, hexDigit (c.toNat / 16), hexDigit (c.toNat % 16)]

/-- What lives across the rows: the counters, and the text printed so far. -/
structure Graph where
  i         : Int
  inCount0  : Int
  inCount1  : Int
  outCount0 : Int
  outCount1 : Int
  text      : List UInt8
  deriving DecidableEq, Repr

/-- A loop that prints `" %c "` with a mark where its counter is at `pos`. -/
def markLoop (mark : UInt8) (pos : Int) :
    ℕ → Int → List UInt8 → Except Fault (Int × List UInt8)
  | 0, count, text => .ok (count, text)
  | j + 1, count, text => do
    let print := if count = pos then mark else blank
    let next ← incInt count
    markLoop mark pos j next (text ++ [blank, print, blank])

/-- The loop that prints `"==="`. -/
def ruleLoop : ℕ → List UInt8 → List UInt8
  | 0, text => text
  | j + 1, text => ruleLoop j (text ++ [rule, rule, rule])

/-- The loop that prints the bytes. -/
def dataLoop (linedata : List UInt8) : ℕ → Int → List UInt8 → Except Fault (Int × List UInt8)
  | 0, i, text => .ok (i, text)
  | j + 1, i, text => do
    -- linedata[i++]
    let c ← readAt linedata i
    let i ← incInt i
    dataLoop linedata j i (text ++ hexCell c)

/-- One test of the outer loop, and the row behind it. -/
def graphBody (f : Fifo) (g : Graph) : Except Fault (Bool × Graph) :=
  if g.i < toInt f.bufSize then do
    let (inCount0, text) ← markLoop bar f.head horizon g.inCount0 g.text
    let (inCount1, text) ← markLoop zero f.head horizon g.inCount1 (text ++ [newline])
    let text := ruleLoop horizon (text ++ [newline])
    let (i, text) ← dataLoop f.buffer horizon g.i (text ++ [newline])
    let text := ruleLoop horizon (text ++ [newline])
    let (outCount0, text) ← markLoop bar f.tail horizon g.outCount0 (text ++ [newline])
    let (outCount1, text) ← markLoop zero f.tail horizon g.outCount1 (text ++ [newline])
    pure (true, { i, inCount0, inCount1, outCount0, outCount1, text := text ++ [newline] })
  else pure (false, g)

/-- `print_graph`, with a bound on the rows it prints. -/
def printGraph (f : Fifo) (fuel : ℕ) : LoopEnd Graph :=
  loop (fun g => (graphBody f g).toOption) fuel
    { i := 0, inCount0 := 0, inCount1 := 0, outCount0 := 0, outCount1 := 0, text := clearScreen }

-- ---------------------------------------------------------------------------
-- Pictures
-- ---------------------------------------------------------------------------

/-- A row of a picture: two lines of marks, the bytes, two lines of marks. -/
structure Row where
  head0 : List Bool
  head1 : List Bool
  data  : List UInt8
  tail0 : List Bool
  tail1 : List Bool

abbrev Picture := List Row

def markCell (mark : UInt8) (b : Bool) : List UInt8 := [blank, if b then mark else blank, blank]

def markLine (mark : UInt8) (cells : List Bool) : List UInt8 :=
  cells.flatMap (markCell mark) ++ [newline]

def dataLine (bytes : List UInt8) : List UInt8 := bytes.flatMap hexCell ++ [newline]

def ruleLine : List UInt8 := (List.replicate horizon [rule, rule, rule]).flatten ++ [newline]

def Row.render (r : Row) : List UInt8 :=
  markLine bar r.head0 ++ markLine zero r.head1 ++ ruleLine ++ dataLine r.data ++ ruleLine ++
    markLine bar r.tail0 ++ markLine zero r.tail1

/-- The text of a picture. -/
def render (pic : Picture) : List UInt8 := clearScreen ++ pic.flatMap Row.render

theorem hexDigit_inj : ∀ a < 16, ∀ b < 16, hexDigit a = hexDigit b → a = b := by decide

theorem hexCell_injective : Function.Injective hexCell := by
  intro c d h
  simp only [hexCell, List.cons.injEq, true_and, and_true] at h
  have hc := c.toNat_lt
  have hd := d.toNat_lt
  have hhigh := hexDigit_inj _ (by omega) _ (by omega) h.1
  have hlow := hexDigit_inj _ (by omega) _ (by omega) h.2
  exact UInt8.toNat_inj.mp (by omega)

theorem dataLine_selfDelimiting : SelfDelimiting dataLine := by
  have hcells : SelfDelimiting hexCell := .of_length (w := 3) (fun _ => rfl) hexCell_injective
  refine hcells.terminated (fun c xs h => ?_) (fun c => List.cons_ne_nil _ _)
  exact absurd (List.cons.inj h).1 (by decide)

theorem markLine_selfDelimiting {mark : UInt8} (hmark : mark ≠ blank) :
    SelfDelimiting (markLine mark) := by
  have hinj : Function.Injective (markCell mark) := by
    intro b c h
    cases b <;> cases c <;> simp_all [markCell, eq_comm]
  have hcells : SelfDelimiting (markCell mark) := .of_length (w := 3) (fun _ => rfl) hinj
  refine hcells.terminated (fun b xs h => ?_) (fun b => List.cons_ne_nil _ _)
  exact absurd (List.cons.inj h).1 (by decide)

theorem Row.render_selfDelimiting : SelfDelimiting Row.render := by
  intro r r' xs ys h
  have hbar : SelfDelimiting (markLine bar) := markLine_selfDelimiting (by decide)
  have hzero : SelfDelimiting (markLine zero) := markLine_selfDelimiting (by decide)
  simp only [Row.render, List.append_assoc] at h
  obtain ⟨hhead0, h⟩ := hbar h
  obtain ⟨hhead1, h⟩ := hzero h
  obtain ⟨hdata, h⟩ := dataLine_selfDelimiting (List.append_cancel_left h)
  obtain ⟨htail0, h⟩ := hbar (List.append_cancel_left h)
  obtain ⟨htail1, h⟩ := hzero h
  refine ⟨?_, h⟩
  cases r
  cases r'
  simp_all

/-- A text is the one of a single picture. -/
theorem render_injective : Function.Injective render := by
  intro pic pic' h
  refine Row.render_selfDelimiting.flatMap_injective (fun r hnil => ?_) (List.append_cancel_left h)
  simp [Row.render, dataLine] at hnil

/-- What a kind of line has in column `c` of row `r`. -/
def cell {α : Type} (line : Row → List α) (pic : Picture) (r c : ℕ) : Option α :=
  (pic[r]?).bind fun row => (line row)[c]?

/-- On these lines there is one mark, in the row and column of the byte at `x`. -/
def MarkedAt (line : Row → List Bool) (pic : Picture) (x : Int) : Prop :=
  ∀ r c, cell line pic r c = some true ↔ r = x.toNat / horizon ∧ c = x.toNat % horizon

/-- The picture shows the fifo. -/
structure Shows (f : Fifo) (pic : Picture) : Prop where
  /-- Every position of the buffer once, and in their order. -/
  bytes : pic.flatMap Row.data = f.buffer
  place : ∀ x < f.bufSize, cell Row.data pic (x / horizon) (x % horizon) = f.buffer[x]?
  head0 : MarkedAt Row.head0 pic f.head
  head1 : MarkedAt Row.head1 pic f.head
  tail0 : MarkedAt Row.tail0 pic f.tail
  tail1 : MarkedAt Row.tail1 pic f.tail

/-- `print_graph` ends, without a fault, and its text is that of a picture of the
fifo. -/
def Faithful (f : Fifo) : Prop :=
  ∃ fuel g pic, printGraph f fuel = .done g ∧ g.text = render pic ∧ Shows f pic

-- ---------------------------------------------------------------------------
-- The loops of a row
-- ---------------------------------------------------------------------------

/-- By induction on the cells left. -/
theorem markLoop_eq (mark : UInt8) (x : ℕ) (k count : ℕ) (text : List UInt8)
    (hint : count + k < 2147483648) :
    markLoop mark x k count text = .ok (((count + k : ℕ) : Int),
      text ++ ((List.range' count k).map (· == x)).flatMap (markCell mark)) := by
  induction k generalizing count text with
  | zero => simp [markLoop]
  | succ k ih =>
    have hinc : incInt count = .ok ((count + 1 : ℕ) : Int) := incInt_of_lt (by omega)
    have hcell : [blank, if (count : Int) = x then mark else blank, blank] =
        markCell mark (count == x) := by
      by_cases hx : count = x
      · simp [markCell, hx]
      · have hx' : (count : Int) ≠ x := by omega
        simp [markCell, hx, hx']
    unfold markLoop
    rw [hinc, ok_bind, hcell, ih _ _ (by omega), List.range'_succ, List.map_cons,
      List.flatMap_cons, ← List.append_assoc, Nat.add_right_comm, Nat.add_assoc]

theorem ruleLoop_eq (k : ℕ) (text : List UInt8) :
    ruleLoop k text = text ++ (List.replicate k [rule, rule, rule]).flatten := by
  induction k generalizing text with
  | zero => simp [ruleLoop]
  | succ k ih => rw [ruleLoop, ih, List.replicate_succ, List.flatten_cons, List.append_assoc]

/-- By induction on the cells left. -/
theorem dataLoop_eq {linedata : List UInt8} (k i : ℕ) (text : List UInt8)
    (hle : i + k ≤ linedata.length) (hint : i + k < 2147483648) :
    dataLoop linedata k i text = .ok (((i + k : ℕ) : Int),
      text ++ ((linedata.drop i).take k).flatMap hexCell) := by
  induction k generalizing i text with
  | zero => simp [dataLoop]
  | succ k ih =>
    have hi : i < linedata.length := by omega
    have hinc : incInt i = .ok ((i + 1 : ℕ) : Int) := incInt_of_lt (by omega)
    rw [dataLoop, readAt_of_getElem? (List.getElem?_eq_getElem hi), ok_bind, hinc, ok_bind,
      ih _ _ (by omega) (by omega), List.drop_eq_getElem_cons hi, List.take_succ_cons,
      List.flatMap_cons, ← List.append_assoc, Nat.add_right_comm, Nat.add_assoc]

/-- A row that goes on behind the last byte reads there. -/
theorem dataLoop_outOfBounds {linedata : List UInt8} (k i : ℕ) (text : List UInt8)
    (hi : i ≤ linedata.length) (hgt : linedata.length < i + k)
    (hint : linedata.length < 2147483648) :
    dataLoop linedata k i text = .error .outOfBounds := by
  induction k generalizing i text with
  | zero => omega
  | succ k ih =>
    rcases Nat.lt_or_ge i linedata.length with hlt | hge
    · have hinc : incInt i = .ok ((i + 1 : ℕ) : Int) := incInt_of_lt (by omega)
      rw [dataLoop, readAt_of_getElem? (List.getElem?_eq_getElem hlt), ok_bind, hinc, ok_bind]
      exact ih _ _ (by omega) (by omega)
    · have hread : readAt linedata i = .error .outOfBounds := by
        rw [readAt, if_pos (by omega), Int.toNat_natCast, List.getElem?_eq_none hge]
      rw [dataLoop, hread]
      rfl

-- ---------------------------------------------------------------------------
-- The rows
-- ---------------------------------------------------------------------------

/-- Row `r` of the picture of a fifo. -/
def rowOf (f : Fifo) (r : ℕ) : Row where
  head0 := marks horizon f.head.toNat r
  head1 := marks horizon f.head.toNat r
  data := row horizon f.buffer r
  tail0 := marks horizon f.tail.toNat r
  tail1 := marks horizon f.tail.toNat r

/-- Before row `k`: all the counters are at its first byte. -/
def graphAt (f : Fifo) (k : ℕ) : Graph where
  i := (horizon * k : ℕ)
  inCount0 := (horizon * k : ℕ)
  inCount1 := (horizon * k : ℕ)
  outCount0 := (horizon * k : ℕ)
  outCount1 := (horizon * k : ℕ)
  text := render ((List.range k).map (rowOf f))

/-- What the fifo offers to the picture: indices, and a buffer of the size it says,
which is small enough for the counters. -/
structure Drawable (f : Fifo) : Prop where
  buffer : f.buffer.length = f.bufSize
  size   : f.bufSize ≤ 2147483584
  head   : 0 ≤ f.head ∧ f.head < f.bufSize
  tail   : 0 ≤ f.tail ∧ f.tail < f.bufSize

variable {f : Fifo} {k : ℕ}

/-- The test of the outer loop. -/
theorem graphAt_lt_iff (h : Drawable f) :
    (graphAt f k).i < toInt f.bufSize ↔ horizon * k < f.bufSize := by
  have hsize := h.size
  rw [toInt, if_pos (by omega)]
  exact Int.ofNat_lt

/-- A row that the buffer fills is printed as it should be. -/
theorem graphBody_row (h : Drawable f) (hk : horizon * (k + 1) ≤ f.bufSize) :
    graphBody f (graphAt f k) = .ok (true, graphAt f (k + 1)) := by
  have hsize := h.size
  have hnext : horizon * k + horizon = horizon * (k + 1) := (Nat.mul_succ horizon k).symm
  rw [← hnext] at hk
  have hpos : 0 < horizon := by decide
  have hint : horizon * k + horizon < 2147483648 := by omega
  have htest := (graphAt_lt_iff h (k := k)).mpr (by omega)
  have hhead : f.head = (f.head.toNat : Int) := (Int.toNat_of_nonneg h.head.1).symm
  have htail : f.tail = (f.tail.toNat : Int) := (Int.toNat_of_nonneg h.tail.1).symm
  rw [graphBody, if_pos htest, hhead, htail]
  simp only [graphAt, markLoop_eq _ _ _ _ _ hint, ok_bind, ruleLoop_eq,
    dataLoop_eq _ _ _ (h.buffer.symm ▸ hk) hint, hnext]
  have htext : render ((List.range (k + 1)).map (rowOf f)) =
      render ((List.range k).map (rowOf f)) ++ (rowOf f k).render := by
    rw [List.range_succ, List.map_append, render, List.flatMap_append, ← List.append_assoc]
    simp [render]
  rw [htext]
  simp only [Row.render, rowOf, markLine, ruleLine, dataLine, marks, row, List.append_assoc]
  rfl

/-- A row that the buffer does not fill is read beyond its end. -/
theorem graphBody_short (h : Drawable f) (hk : horizon * k < f.bufSize)
    (hshort : f.bufSize < horizon * (k + 1)) :
    graphBody f (graphAt f k) = .error .outOfBounds := by
  have hsize := h.size
  have hhorizon : horizon = 64 := rfl
  rw [Nat.mul_succ] at hshort
  have hint : horizon * k + horizon < 2147483648 := by omega
  have htest := (graphAt_lt_iff h).mpr hk
  have hhead : f.head = (f.head.toNat : Int) := (Int.toNat_of_nonneg h.head.1).symm
  have hread : ∀ text, dataLoop f.buffer horizon ((horizon * k : ℕ) : Int) text =
      .error .outOfBounds := fun text =>
    dataLoop_outOfBounds _ _ text (by rw [h.buffer]; omega) (by rw [h.buffer]; omega)
      (by rw [h.buffer]; omega)
  rw [graphBody, if_pos htest, hhead]
  simp only [graphAt, markLoop_eq _ _ _ _ _ hint, ok_bind, hread, error_bind]

/-- Behind the last row. -/
theorem graphBody_end (h : Drawable f) (hk : horizon * k = f.bufSize) :
    graphBody f (graphAt f k) = .ok (false, graphAt f k) := by
  rw [graphBody, if_neg (by rw [graphAt_lt_iff h]; omega)]
  rfl

-- ---------------------------------------------------------------------------
-- The picture
-- ---------------------------------------------------------------------------

/-- The picture of a fifo of `m` rows. -/
def pictureOf (f : Fifo) (m : ℕ) : Picture := (List.range m).map (rowOf f)

theorem cell_pictureOf {α : Type} (line : Row → List α) {m r : ℕ} (hr : r < m) (c : ℕ) :
    cell line (pictureOf f m) r c = (line (rowOf f r))[c]? := by
  rw [cell, pictureOf, List.getElem?_map, List.getElem?_range hr]
  rfl

/-- A line of marks at an index of the picture. -/
theorem markedAt_pictureOf {line : Row → List Bool} {m : ℕ} {x : Int}
    (hline : ∀ r, line (rowOf f r) = marks horizon x.toNat r) (hx : x.toNat < horizon * m) :
    MarkedAt line (pictureOf f m) x := by
  intro r c
  rw [← place_iff (by decide), ← marks_getElem?]
  rcases Nat.lt_or_ge r m with hr | hr
  · rw [cell_pictureOf line hr, hline]
  · -- below the picture there is neither a mark nor the index
    have hnone : cell line (pictureOf f m) r c = none := by
      rw [cell, pictureOf, List.getElem?_eq_none (by simpa using hr)]
      rfl
    have hle := Nat.mul_le_mul_left horizon hr
    rw [hnone, marks_getElem?]
    constructor
    · intro h
      cases h
    · rintro ⟨-, hat⟩
      omega

theorem pictureOf_shows (h : Drawable f) {m : ℕ} (hm : f.bufSize = horizon * m) :
    Shows f (pictureOf f m) where
  bytes := by
    rw [pictureOf, List.flatMap_map]
    show (List.range m).flatMap (row horizon f.buffer) = f.buffer
    rw [flatMap_row, List.take_of_length_le (by rw [h.buffer, hm])]
  place x hx := by
    have hpos : 0 < horizon := by decide
    rw [hm] at hx
    rw [cell_pictureOf Row.data (Nat.div_lt_of_lt_mul hx)]
    show (row horizon f.buffer (x / horizon))[x % horizon]? = _
    rw [row_getElem? f.buffer _ (Nat.mod_lt x hpos), Nat.div_add_mod]
  head0 := markedAt_pictureOf (fun _ => rfl) (by have := h.head; omega)
  head1 := markedAt_pictureOf (fun _ => rfl) (by have := h.head; omega)
  tail0 := markedAt_pictureOf (fun _ => rfl) (by have := h.tail; omega)
  tail1 := markedAt_pictureOf (fun _ => rfl) (by have := h.tail; omega)

/-- The rows still to come, by induction on their number. -/
theorem loop_rows (h : Drawable f) (j : ℕ) (hk : f.bufSize = horizon * (k + j)) :
    loop (fun g => (graphBody f g).toOption) (j + 1) (graphAt f k) =
      .done (graphAt f (k + j)) := by
  induction j generalizing k with
  | zero =>
    rw [Nat.add_zero] at hk ⊢
    exact loop_end (by rw [graphBody_end h hk.symm]; rfl) 0
  | succ j ih =>
    have hrow := graphBody_row h (k := k) (by
      rw [hk]
      exact Nat.mul_le_mul_left horizon (by omega))
    rw [loop_next (by rw [hrow]; rfl), ih (by rw [hk, Nat.add_right_comm, Nat.add_assoc]),
      Nat.add_right_comm, Nat.add_assoc]

theorem faithful_of_dvd (h : Drawable f) (hdvd : horizon ∣ f.bufSize) : Faithful f := by
  obtain ⟨m, hm⟩ := hdvd
  refine ⟨m + 1, graphAt f m, pictureOf f m, ?_, rfl, pictureOf_shows h hm⟩
  have hrun := loop_rows h (k := 0) m (by rw [hm, Nat.zero_add])
  rw [Nat.zero_add] at hrun
  exact hrun

/-- With a last row that the buffer does not fill, no number of rows is the end. -/
theorem not_faithful_of_not_dvd (h : Drawable f) (hdvd : ¬ horizon ∣ f.bufSize) :
    ¬ Faithful f := by
  rintro ⟨fuel, g, -, hdone, -⟩
  refine loop_ne_done_of_invariant (I := fun g => ∃ k, horizon * k < f.bufSize ∧ g = graphAt f k)
    ?_ ?_ fuel g hdone
  · rintro _ ⟨k, hk, rfl⟩
    have hne : horizon * (k + 1) ≠ f.bufSize := fun heq => hdvd ⟨k + 1, heq.symm⟩
    rcases Nat.lt_or_ge (horizon * (k + 1)) f.bufSize with hnext | hshort
    · exact .inr ⟨graphAt f (k + 1), by rw [graphBody_row h (Nat.le_of_lt hnext)]; rfl,
        k + 1, hnext, rfl⟩
    · exact .inl (by rw [graphBody_short h hk (by omega)]; rfl)
  · exact ⟨0, by have := h.head; omega, rfl⟩

-- ---------------------------------------------------------------------------
-- Reachable fifos
-- ---------------------------------------------------------------------------

theorem Rep.drawable {n : ℕ} {q : List UInt8} (h : Rep n f q) (hpos : 1 ≤ n)
    (hmax : n ≤ 2147483584) : Drawable f := by
  obtain ⟨t, htail, -, ht, hhead, -⟩ := h.tail
  have hlt := ht hpos
  have hmod : (t + q.length) % n < n := Nat.mod_lt _ hpos
  have hsize := h.bufSize
  exact ⟨h.buffer.trans hsize.symm, by omega, by omega, by omega⟩

/-- A fifo that calls reached can be drawn. -/
theorem drawable_of_accesses {length : UInt32} {okFifo okBuffer : Bool} {f₀ : Fifo}
    {calls : List Access} (hinit : initDataFifo length.toNat okFifo okBuffer = (0, some f₀))
    (hcalls : ∀ c ∈ calls, c.Legal) (hrun : accesses f₀ calls = .ok f)
    (hpos : 1 ≤ length.toNat) (hmax : length.toNat ≤ 2147483584) :
    Drawable f ∧ f.bufSize = length.toNat := by
  obtain ⟨f', hrun', h'⟩ :=
    accesses_ok length.toNat_lt hcalls (init_counted hinit) (.inl (by omega))
  rw [hrun] at hrun'
  obtain rfl := Except.ok.inj hrun'
  exact ⟨h'.rep.drawable hpos hmax, h'.rep.bufSize⟩

/-- **Which fifos are shown as they are.** Of the sizes from 1 to 2^31 - 64 these
are the multiples of `HORIZON`: there the text is that of a picture with every
position of the buffer once, in their order, and with each of the four marks
once, at the byte at `head` or at `tail`. With any other size the last row reads
behind the buffer. -/
theorem print_graph_faithful_iff {length : UInt32} {okFifo okBuffer : Bool} {f₀ f : Fifo}
    {calls : List Access} (hinit : initDataFifo length.toNat okFifo okBuffer = (0, some f₀))
    (hcalls : ∀ c ∈ calls, c.Legal) (hrun : accesses f₀ calls = .ok f)
    (hpos : 1 ≤ length.toNat) (hmax : length.toNat ≤ 2147483584) :
    Faithful f ↔ 64 ∣ length.toNat := by
  obtain ⟨h, hsize⟩ := drawable_of_accesses hinit hcalls hrun hpos hmax
  constructor
  · intro hfaithful
    by_contra hdvd
    rw [← hsize] at hdvd
    exact not_faithful_of_not_dvd h hdvd hfaithful
  · intro hdvd
    rw [← hsize] at hdvd
    exact faithful_of_dvd h hdvd

/-- The theorem at work: one byte in a ring of a single row. -/
theorem print_graph_faithful_iff_row :
    ∃ f, accesses ⟨List.replicate 64 0, 64, 0, 0, 0⟩ [.put [7] 1] = .ok f ∧ f.head = 1 ∧
      Faithful f := by
  have hinit : initDataFifo (64 : UInt32).toNat true true =
      (0, some ⟨List.replicate 64 0, 64, 0, 0, 0⟩) := rfl
  have hrun : accesses ⟨List.replicate 64 0, 64, 0, 0, 0⟩ [.put [7] 1] =
      .ok ⟨7 :: List.replicate 63 0, 64, 1, 0, 1⟩ := rfl
  have hlegal : ∀ c ∈ [Access.put [7] 1], c.Legal := by
    intro c hc
    rw [List.mem_singleton.mp hc]
    exact Nat.le_refl 1
  exact ⟨_, hrun, rfl,
    (print_graph_faithful_iff hinit hlegal hrun (by decide) (by decide)).mpr ⟨1, rfl⟩⟩

/-- A ring of ten bytes: its one row reads behind the buffer. -/
theorem print_graph_reads_outside :
    ∃ f, initDataFifo 10 true true = (0, some f) ∧ accesses f [] = .ok f ∧ ¬ Faithful f := by
  have hinit : initDataFifo 10 true true = (0, some ⟨List.replicate 10 0, 10, 0, 0, 0⟩) := rfl
  exact ⟨_, hinit, rfl, not_faithful_of_not_dvd
    ((init_rep hinit).drawable (by decide) (by decide)) (by decide)⟩

end Uartd.DataFifo
