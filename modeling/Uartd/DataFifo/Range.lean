import Uartd.DataFifo.Refinement

/-!
# Uartd — which sizes the int indices can stand for

`head`, `tail` and the loop counters are `int`, while `init_data_fifo` takes any
`unsigned int` for the size and the calls take any `unsigned int` for a length.
`accesses f calls` makes the calls one after the other on a fifo; it returns
`.ok` when no increment left the range of `int`, no index was outside the buffer
and no remainder was by 0.

Below capacity 2^31 a position wraps around before it can leave `int`. From 2^31
on it never wraps: `head` is the number of bytes accepted since the fifo was
made (`Counted`), and the increment behind byte 2^31 overflows
(`putByte_overflow`). `index_arithmetic_safe_iff` says which runs are safe.
-/

namespace Uartd.DataFifo

open Uartd.Lib

/-- A call of `fifo_put` or `fifo_pop`; the lengths are `unsigned int`. -/
inductive Access where
  | put (data : List UInt8) (len : UInt32)
  | pop (maxlen : UInt32)

namespace Access

/-- The block a caller passes to `fifo_put` is as long as it says. -/
def Legal : Access → Prop
  | put data len => len.toNat ≤ data.length
  | pop _ => True

def run (f : Fifo) : Access → Except Fault Fifo
  | put data len => (fifoPut f data len.toNat).map Prod.fst
  | pop maxlen => (fifoPop f maxlen.toNat).map Prod.fst

/-- The bytes a fifo of capacity `n` holding `size` bytes takes from the call. -/
def accepted (n size : ℕ) : Access → ℕ
  | put _ len => min len.toNat (n - size)
  | pop _ => 0

/-- The number of bytes it holds behind the call. -/
def sizeAfter (n size : ℕ) : Access → ℕ
  | put _ len => size + min len.toNat (n - size)
  | pop maxlen => size - maxlen.toNat

/-- The bytes it holds behind the call. -/
def after (n : ℕ) (q : List UInt8) : Access → List UInt8
  | put data len => q ++ data.take (min len.toNat (n - q.length))
  | pop maxlen => q.drop maxlen.toNat

theorem after_length {n : ℕ} {q : List UInt8} {c : Access} (hc : c.Legal) :
    (c.after n q).length = c.sizeAfter n q.length := by
  cases c with
  | put data len =>
    have hle : len.toNat ≤ data.length := hc
    simp only [after, sizeAfter, List.length_append, List.length_take]
    omega
  | pop maxlen => exact List.length_drop

end Access

/-- The calls in their order. -/
def accesses (f : Fifo) (calls : List Access) : Except Fault Fifo :=
  calls.foldlM Access.run f

/-- The bytes a fifo of capacity `n` holding `size` bytes takes from the calls. -/
def acceptedTotal (n : ℕ) : ℕ → List Access → ℕ
  | _, [] => 0
  | size, c :: calls => c.accepted n size + acceptedTotal n (c.sizeAfter n size) calls

theorem accesses_cons_ok {f f' : Fifo} {c : Access} (h : c.run f = .ok f') (calls : List Access) :
    accesses f (c :: calls) = accesses f' calls := by
  rw [accesses, List.foldlM_cons, h]
  rfl

theorem accesses_cons_error {f : Fifo} {c : Access} {e : Fault} (h : c.run f = .error e)
    (calls : List Access) : accesses f (c :: calls) = .error e := by
  rw [accesses, List.foldlM_cons, h]
  rfl

-- ---------------------------------------------------------------------------
-- The overflow
-- ---------------------------------------------------------------------------

/-- `head` stands at the last `int`: the byte is stored, the increment overflows. -/
theorem putByte_overflow {n : ℕ} {f : Fifo} {q : List UInt8} (h : Rep n f q)
    (hbig : 2147483648 ≤ n) (hlast : f.tail.toNat + q.length + 1 = 2147483648) (c : UInt8) :
    putByte f c = .error .signedOverflow := by
  obtain ⟨t, htail, -, -, hhead, -⟩ := h.tail
  rw [htail, Int.toNat_natCast] at hlast
  rw [Nat.mod_eq_of_lt (by omega)] at hhead
  have hwrite : writeAt f.buffer f.head c = .ok (f.buffer.set (t + q.length) c) := by
    rw [hhead]
    exact writeAt_of_lt (by rw [h.buffer]; omega) c
  have hinc : incInt f.head = .error .signedOverflow := by
    rw [hhead, incInt, if_neg (by omega)]
  unfold putByte
  rw [hwrite, ok_bind, hinc]
  rfl

/-- The loop of `fifo_put` that would accept byte 2^31, from index `i` of the
input on: by induction on the iterations left. The counter `i` is never ahead
of `head`. -/
theorem fifoPutLoop_overflow {n : ℕ} (hn : n < 4294967296) (hbig : 2147483648 ≤ n)
    (data : List UInt8) : ∀ (k i : ℕ) (f : Fifo) (q : List UInt8), Rep n f q →
      i + k ≤ data.length → i ≤ f.tail.toNat + q.length →
      f.tail.toNat + q.length < 2147483648 →
      2147483648 ≤ f.tail.toNat + q.length + min k (n - q.length) →
      fifoPutLoop data k f i = .error .signedOverflow := by
  intro k
  induction k with
  | zero =>
    intro i f q _ _ _ hlt hge
    rw [Nat.zero_min] at hge
    omega
  | succ k ih =>
    intro i f q h hdata hi hlt hge
    have hroom : q.length < n := by omega
    have hnotFull : f.dataLen ≠ f.bufSize := by
      rw [h.dataLen, h.bufSize]
      omega
    have hdi : i < data.length := by omega
    rw [fifoPutLoop, if_neg hnotFull, readAt_of_getElem? (List.getElem?_eq_getElem hdi), ok_bind]
    rcases Nat.lt_or_ge (f.tail.toNat + q.length + 1) 2147483648 with hnext | hnext
    · obtain ⟨f₁, hput, h₁, htail₁⟩ := putByte_rep h hn hroom (.inr hnext) data[i]
      have hlen₁ : (q ++ [data[i]]).length = q.length + 1 := by simp
      have hinc : incInt i = .ok ((i + 1 : ℕ) : Int) := incInt_of_lt (by omega)
      rw [hput, ok_bind, hinc, ok_bind]
      refine ih (i + 1) f₁ (q ++ [data[i]]) h₁ (by omega) ?_ ?_ ?_
      · rw [htail₁, hlen₁]
        omega
      · rw [htail₁, hlen₁]
        omega
      · rw [htail₁, hlen₁]
        omega
    · rw [putByte_overflow h hbig (by omega)]
      rfl

-- ---------------------------------------------------------------------------
-- One call
-- ---------------------------------------------------------------------------

/-- The fifo holds `q`, and if it is too large to wrap it took `total` bytes. -/
structure Counted (n : ℕ) (f : Fifo) (q : List UInt8) (total : ℕ) : Prop where
  rep   : Rep n f q
  total : 2147483648 ≤ n → f.tail.toNat + q.length = total

theorem init_counted {n : ℕ} {okFifo okBuffer : Bool} {f : Fifo}
    (h : initDataFifo n okFifo okBuffer = (0, some f)) : Counted n f [] 0 := by
  refine ⟨init_rep h, fun _ => ?_⟩
  obtain rfl := initDataFifo_eq h
  rfl

variable {n total : ℕ} {f : Fifo} {q : List UInt8} {c : Access}

/-- A call that stays below 2^31 accepted bytes, or on a smaller ring. -/
theorem access_ok (h : Counted n f q total) (hn : n < 4294967296) (hc : c.Legal)
    (hsafe : n < 2147483648 ∨ total + c.accepted n q.length < 2147483648) :
    ∃ f', c.run f = .ok f' ∧ Counted n f' (c.after n q) (total + c.accepted n q.length) := by
  have htotal := h.total
  have hle := h.rep.le
  cases c with
  | put data len =>
    have hdata : len.toNat ≤ data.length := hc
    simp only [Access.accepted] at hsafe ⊢
    have hcount : Counts n (f.tail.toNat + q.length + min len.toNat (n - q.length)) := by
      rcases Nat.lt_or_ge n 2147483648 with hsmall | hbig
      · exact .inl hsmall
      · rw [htotal hbig]
        exact hsafe
    obtain ⟨f', hput, hrep, htail⟩ :=
      fifoPutLoop_rep hn data len.toNat 0 f q h.rep (by omega) hcount (by omega)
    rw [List.drop_zero] at hrep
    refine ⟨f', ?_, hrep, fun hbig => ?_⟩
    · simp only [Access.run, fifoPut]
      rw [← Int.natCast_zero, hput]
      rfl
    · rw [Access.after_length hc, htail, Access.sizeAfter, ← htotal hbig]
      omega
  | pop maxlen =>
    simp only [Access.accepted, Nat.add_zero] at hsafe ⊢
    have hcount : Counts n (f.tail.toNat + min maxlen.toNat q.length) := by
      rcases Nat.lt_or_ge n 2147483648 with hsmall | hbig
      · exact .inl hsmall
      · have hsum := htotal hbig
        exact .inr (by omega)
    obtain ⟨f', hpop, hrep, htail⟩ :=
      fifoPopLoop_rep maxlen.toNat 0 f q [] h.rep hcount (by omega)
    refine ⟨f', ?_, hrep, fun hbig => ?_⟩
    · simp only [Access.run, fifoPop]
      rw [← Int.natCast_zero, hpop]
      rfl
    · -- what leaves the content is passed by the tail
      obtain ⟨t, ht, -⟩ := h.rep.tail
      rw [Access.after_length hc, htail hbig, Access.sizeAfter, ← htotal hbig]
      omega

/-- The call that reaches 2^31 accepted bytes on a ring that does not wrap. -/
theorem access_overflow (h : Counted n f q total) (hn : n < 4294967296) (hc : c.Legal)
    (hbig : 2147483648 ≤ n) (hlt : total < 2147483648)
    (hge : 2147483648 ≤ total + c.accepted n q.length) :
    c.run f = .error .signedOverflow := by
  have htotal := h.total hbig
  cases c with
  | put data len =>
    have hdata : len.toNat ≤ data.length := hc
    simp only [Access.accepted] at hge
    have hrun := fifoPutLoop_overflow hn hbig data len.toNat 0 f q h.rep (by omega)
      (Nat.zero_le _) (by omega) (by omega)
    simp only [Access.run, fifoPut]
    rw [← Int.natCast_zero, hrun]
    rfl
  | pop maxlen =>
    simp only [Access.accepted] at hge
    omega

-- ---------------------------------------------------------------------------
-- All calls
-- ---------------------------------------------------------------------------

/-- By induction on the calls: what they leave is the queue's content. -/
theorem accesses_ok {calls : List Access} (hn : n < 4294967296) (hcalls : ∀ c ∈ calls, c.Legal)
    (h : Counted n f q total)
    (hsafe : n < 2147483648 ∨ total + acceptedTotal n q.length calls < 2147483648) :
    ∃ f', accesses f calls = .ok f' ∧
      Counted n f' (calls.foldl (fun q c => c.after n q) q)
        (total + acceptedTotal n q.length calls) := by
  induction calls generalizing f q total with
  | nil => exact ⟨f, rfl, h⟩
  | cons c calls ih =>
    obtain ⟨hc, hrest⟩ := List.forall_mem_cons.mp hcalls
    simp only [acceptedTotal, ← Nat.add_assoc] at hsafe ⊢
    obtain ⟨f₁, hrun, h₁⟩ := access_ok h hn hc (hsafe.imp id fun hlt => by omega)
    rw [← Access.after_length hc] at hsafe ⊢
    obtain ⟨f', hrun', h'⟩ := ih hrest h₁ hsafe
    exact ⟨f', (accesses_cons_ok hrun calls).trans hrun', h'⟩

/-- By induction on the calls: the one that reaches 2^31 bytes overflows. -/
theorem accesses_overflow {calls : List Access} (hn : n < 4294967296)
    (hcalls : ∀ c ∈ calls, c.Legal) (h : Counted n f q total) (hbig : 2147483648 ≤ n)
    (hlt : total < 2147483648)
    (hge : 2147483648 ≤ total + acceptedTotal n q.length calls) :
    accesses f calls = .error .signedOverflow := by
  induction calls generalizing f q total with
  | nil =>
    rw [acceptedTotal] at hge
    omega
  | cons c calls ih =>
    obtain ⟨hc, hrest⟩ := List.forall_mem_cons.mp hcalls
    simp only [acceptedTotal, ← Nat.add_assoc] at hge
    rcases Nat.lt_or_ge (total + c.accepted n q.length) 2147483648 with hnext | hnext
    · obtain ⟨f₁, hrun, h₁⟩ := access_ok h hn hc (.inr hnext)
      rw [← Access.after_length hc] at hge
      exact (accesses_cons_ok hrun calls).trans (ih hrest h₁ hnext hge)
    · exact accesses_cons_error (access_overflow h hn hc hbig hlt hnext) calls

/-- The calls on `f` fault nowhere, and the buffer they index is one of `buf_size`
bytes. -/
def RunSafe (f : Fifo) (calls : List Access) : Prop :=
  ∃ f', accesses f calls = .ok f' ∧ f'.buffer.length = f'.bufSize

/-- Every sequence of calls on a fifo of that length is safe. -/
def IndexSafe (length : UInt32) : Prop :=
  ∀ (okFifo okBuffer : Bool) (f : Fifo) (calls : List Access),
    initDataFifo length.toNat okFifo okBuffer = (0, some f) → (∀ c ∈ calls, c.Legal) →
    RunSafe f calls

theorem runSafe_iff {length : UInt32} {okFifo okBuffer : Bool} {f : Fifo} {calls : List Access}
    (hinit : initDataFifo length.toNat okFifo okBuffer = (0, some f))
    (hcalls : ∀ c ∈ calls, c.Legal) :
    RunSafe f calls ↔
      length.toNat < 2147483648 ∨ acceptedTotal length.toNat 0 calls < 2147483648 := by
  have hn : length.toNat < 4294967296 := length.toNat_lt
  have h := init_counted hinit
  constructor
  · rintro ⟨f', hrun, -⟩
    by_contra hcon
    rw [not_or, Nat.not_lt, Nat.not_lt] at hcon
    have hfault := accesses_overflow hn hcalls h hcon.1 (by omega) (by simpa using hcon.2)
    rw [hrun] at hfault
    cases hfault
  · intro hsafe
    obtain ⟨f', hrun, h'⟩ := accesses_ok hn hcalls h (by simpa using hsafe)
    exact ⟨f', hrun, h'.rep.buffer.trans h'.rep.bufSize.symm⟩

/-- One call that fills a fifo. -/
def fill (length : UInt32) : List Access := [.put (List.replicate length.toNat 0) length]

theorem fill_legal (length : UInt32) : ∀ c ∈ fill length, c.Legal := by
  intro c hc
  rw [List.mem_singleton.mp hc, Access.Legal, List.length_replicate]

theorem fill_acceptedTotal (length : UInt32) :
    acceptedTotal length.toNat 0 (fill length) = length.toNat := by
  show min length.toNat (length.toNat - 0) + 0 = length.toNat
  omega

theorem not_indexSafe {length : UInt32} (hbig : 2147483648 ≤ length.toNat) :
    ¬ IndexSafe length := by
  intro hsafe
  have hinit : initDataFifo length.toNat true true = (0, some
    { buffer := List.replicate length.toNat 0, bufSize := length.toNat,
      head := 0, tail := 0, dataLen := 0 }) := rfl
  have hlegal := fill_legal length
  have hrun := (runSafe_iff hinit hlegal).mp (hsafe _ _ _ _ hinit hlegal)
  rw [fill_acceptedTotal] at hrun
  omega

/-- **Where the index arithmetic is safe.** For the capacities below 2^31, and no
other, every sequence of calls is; on a larger ring those sequences are that have
it accept fewer than 2^31 bytes in all, however many it gives back between. -/
theorem index_arithmetic_safe_iff (length : UInt32) :
    (IndexSafe length ↔ length.toNat < 2147483648) ∧
    ∀ (okFifo okBuffer : Bool) (f : Fifo) (calls : List Access),
      initDataFifo length.toNat okFifo okBuffer = (0, some f) → (∀ c ∈ calls, c.Legal) →
      (RunSafe f calls ↔
        length.toNat < 2147483648 ∨ acceptedTotal length.toNat 0 calls < 2147483648) := by
  refine ⟨⟨fun hsafe => ?_, fun hsmall _ _ _ _ hinit hcalls => ?_⟩,
    fun _ _ _ _ hinit hcalls => runSafe_iff hinit hcalls⟩
  · by_contra hbig
    exact not_indexSafe (by omega) hsafe
  · exact (runSafe_iff hinit hcalls).mpr (.inl hsmall)

/-- The theorem at work: a ring of two bytes, filled, and one byte taken. -/
theorem index_arithmetic_safe_iff_two :
    RunSafe ⟨[0, 0], 2, 0, 0, 0⟩ [.put [7, 8, 9] 3, .pop 1] := by
  have hinit : initDataFifo (2 : UInt32).toNat true true = (0, some ⟨[0, 0], 2, 0, 0, 0⟩) := rfl
  have hlegal : ∀ c ∈ [Access.put [7, 8, 9] 3, .pop 1], c.Legal :=
    List.forall_mem_cons.mpr ⟨Nat.le_refl 3, List.forall_mem_singleton.mpr trivial⟩
  exact ((index_arithmetic_safe_iff 2).2 _ _ _ _ hinit hlegal).mpr (.inl (by decide))

/-- The first capacity that is too large. -/
theorem index_overflows : ¬ IndexSafe 2147483648 :=
  not_indexSafe (by decide)

end Uartd.DataFifo
