import Uartd.DataFifo.Basic
import Uartd.Lib.Ring
import Uartd.Lib.Transition

/-!
# Uartd — the ring buffer is a bounded byte queue

`Rep n f q` says that the fifo `f` of capacity `n` holds the bytes `q`: they lie
at the positions `tail + k` modulo `n`, `data_len` counts them, and `head` is
the position behind the last one. One iteration of each loop appends or takes
one byte (`putByte_rep`, `popByte_rep`); the loops append the longest prefix
that fits and take what there is, up to the length asked for
(`fifoPutLoop_rep`, `fifoPopLoop_rep`).

`byteQueue n` is the queue the ring buffer stands for, and
`fifo_refines_byteQueue` the refinement. A full and an empty ring both have
`head = tail`; they are told apart by `data_len`. With capacity 0 both loops
stop at their first test.
-/

namespace Uartd.DataFifo

open Uartd.Lib

/-- The fifo `f` of capacity `n` holds the bytes `q`. -/
structure Rep (n : ℕ) (f : Fifo) (q : List UInt8) : Prop where
  bufSize : f.bufSize = n
  buffer  : f.buffer.length = n
  dataLen : f.dataLen = q.length
  le      : q.length ≤ n
  tail    : ∃ t : ℕ, f.tail = t ∧ (n = 0 → t = 0) ∧ (0 < n → t < n) ∧
    f.head = ((t + q.length) % n : ℕ) ∧ Holds f.buffer t q

theorem init_rep {n : ℕ} {okFifo okBuffer : Bool} {f : Fifo}
    (h : initDataFifo n okFifo okBuffer = (0, some f)) : Rep n f [] := by
  obtain rfl := initDataFifo_eq h
  exact ⟨rfl, List.length_replicate, rfl, Nat.zero_le _,
    0, rfl, fun _ => rfl, fun h => h, by simp, Holds.nil _ _⟩

-- ---------------------------------------------------------------------------
-- One byte
-- ---------------------------------------------------------------------------

/-- An index that started at 0 and was incremented `k` times is an `int`: the ring
wraps before that is too much, or `k` is not that much. -/
def Counts (n k : ℕ) : Prop := n < 2147483648 ∨ k < 2147483648

theorem Counts.mono {n k j : ℕ} (h : Counts n k) (hle : j ≤ k) : Counts n j :=
  h.imp id (Nat.lt_of_le_of_lt hle)

/-- The position reached, and the one behind it. -/
theorem Counts.succ_lt {n k : ℕ} (h : Counts n (k + 1)) (hn : 0 < n) :
    k % n + 1 < 2147483648 := by
  have hmod := Nat.mod_lt k hn
  have hle := Nat.mod_le k n
  rcases h with h | h <;> omega

/-- A ring that is not full takes one more byte. -/
theorem putByte_rep {n : ℕ} {f : Fifo} {q : List UInt8} (h : Rep n f q) (hn : n < 4294967296)
    (hroom : q.length < n) (hcount : Counts n (f.tail.toNat + q.length + 1)) (c : UInt8) :
    ∃ f', putByte f c = .ok f' ∧ Rep n f' (q ++ [c]) ∧ f'.tail = f.tail := by
  obtain ⟨t, htail, -, ht, hhead, hholds⟩ := h.tail
  have hpos : (t + q.length) % n < n := Nat.mod_lt _ (by omega)
  have hint : (t + q.length) % n + 1 < 2147483648 := by
    rw [htail, Int.toNat_natCast] at hcount
    exact hcount.succ_lt (by omega)
  have hlen : (f.dataLen + 1) % 4294967296 = q.length + 1 := by
    rw [h.dataLen]
    omega
  -- the four steps of the iteration
  have hwrite : writeAt f.buffer f.head c =
      .ok (f.buffer.set ((t + q.length) % n) c) := by
    rw [hhead]
    exact writeAt_of_lt (by rw [h.buffer]; exact hpos) c
  have hinc : incInt f.head = .ok (((t + q.length) % n : ℕ) + 1) := by
    rw [hhead]
    exact incInt_of_lt (by omega)
  have hrem := remUnsigned_succ hpos hint
  have hwrap : ((t + q.length) % n + 1) % n = (t + (q ++ [c]).length) % n := by
    rw [Nat.mod_add_mod, List.length_append, List.length_singleton, Nat.add_assoc]
  refine ⟨{ f with
    buffer := f.buffer.set ((t + q.length) % n) c
    head := (((t + q.length) % n + 1) % n : ℕ)
    dataLen := (f.dataLen + 1) % 4294967296 }, ?_, ?_, rfl⟩
  · unfold putByte
    rw [hwrite, ok_bind, hinc, ok_bind, h.bufSize, hrem, ok_bind]
    rfl
  · refine ⟨h.bufSize, by simpa using h.buffer, ?_, by simpa using Nat.succ_le_of_lt hroom, t,
      htail, by omega, ht, by rw [hwrap], ?_⟩
    · simpa using hlen
    · have hpush := hholds.push (by rw [h.buffer]; exact hroom) c
      rwa [h.buffer] at hpush

/-- A ring that is not empty gives its first byte. -/
theorem popByte_rep {n : ℕ} {f : Fifo} {c : UInt8} {q : List UInt8} (h : Rep n f (c :: q))
    (hcount : Counts n (f.tail.toNat + 1)) : ∃ f', popByte f = .ok (c, f') ∧ Rep n f' q ∧
      f'.tail = ((f.tail.toNat + 1) % n : ℕ) := by
  obtain ⟨t, htail, -, ht, hhead, hholds⟩ := h.tail
  have hle := h.le
  rw [List.length_cons] at hle
  have htn : t < n := ht (by omega)
  have hint : t + 1 < 2147483648 := by
    rw [htail, Int.toNat_natCast] at hcount
    have hlt := hcount.succ_lt (by omega)
    rwa [Nat.mod_eq_of_lt htn] at hlt
  have hread : readAt f.buffer f.tail = .ok c := by
    have hfront := hholds.front
    rw [h.buffer, Nat.mod_eq_of_lt htn] at hfront
    rw [htail]
    exact readAt_of_getElem? hfront
  have hinc : incInt f.tail = .ok ((t : Int) + 1) := by
    rw [htail]
    exact incInt_of_lt (by omega)
  have hrem := remUnsigned_succ htn hint
  refine ⟨{ f with tail := ((t + 1) % n : ℕ), dataLen := f.dataLen - 1 }, ?_, ?_, ?_⟩
  · unfold popByte
    rw [hread, ok_bind, hinc, ok_bind, h.bufSize, hrem, ok_bind]
    rfl
  · have hpos : (t + 1) % n < n := Nat.mod_lt _ (by omega)
    refine ⟨h.bufSize, h.buffer, ?_, by omega, (t + 1) % n, rfl, by omega, fun _ => hpos, ?_, ?_⟩
    · show f.dataLen - 1 = q.length
      rw [h.dataLen, List.length_cons]
      omega
    · show f.head = _
      rw [hhead, List.length_cons, Nat.mod_add_mod, Nat.add_assoc, Nat.add_comm 1]
    · have hpop := hholds.pop
      rwa [h.buffer] at hpop
  · rw [htail, Int.toNat_natCast]

-- ---------------------------------------------------------------------------
-- The loops
-- ---------------------------------------------------------------------------

/-- The loop of `fifo_put`, from index `i` of the input on: by induction on the
iterations left, it appends the bytes that fit. -/
theorem fifoPutLoop_rep {n : ℕ} (hn : n < 4294967296) (data : List UInt8) :
    ∀ (k i : ℕ) (f : Fifo) (q : List UInt8), Rep n f q → i + k ≤ data.length →
      Counts n (f.tail.toNat + q.length + min k (n - q.length)) →
      i + min k (n - q.length) < 2147483648 →
      ∃ f', fifoPutLoop data k f i = .ok (f', ((i + min k (n - q.length) : ℕ) : Int)) ∧
        Rep n f' (q ++ (data.drop i).take (min k (n - q.length))) ∧ f'.tail = f.tail := by
  intro k
  induction k with
  | zero =>
    intro i f q h _ _ _
    exact ⟨f, by simp [fifoPutLoop], by simpa using h, rfl⟩
  | succ k ih =>
    intro i f q h hdata hcount hint
    unfold fifoPutLoop
    by_cases hfull : f.dataLen = f.bufSize
    · -- full: the loop breaks
      have hzero : n - q.length = 0 := by
        rw [h.dataLen, h.bufSize] at hfull
        omega
      rw [if_pos hfull, hzero]
      exact ⟨f, by simp, by simpa using h, rfl⟩
    · have hroom : q.length < n := by
        rw [h.dataLen, h.bufSize] at hfull
        have := h.le
        omega
      have hmin : min (k + 1) (n - q.length) = min k (n - (q.length + 1)) + 1 := by omega
      rw [hmin] at hcount hint ⊢
      have hi : i < data.length := by omega
      obtain ⟨f₁, hput, h₁, htail₁⟩ := putByte_rep h hn hroom (hcount.mono (by omega)) data[i]
      have hlen₁ : (q ++ [data[i]]).length = q.length + 1 := by simp
      obtain ⟨f', hrest, h', htail'⟩ := ih (i + 1) f₁ (q ++ [data[i]]) h₁ (by omega)
        (by rw [htail₁, hlen₁]; exact hcount.mono (by omega)) (by rw [hlen₁]; omega)
      rw [hlen₁] at hrest h'
      have hinc : incInt i = .ok ((i + 1 : ℕ) : Int) := incInt_of_lt (by omega)
      refine ⟨f', ?_, ?_, htail'.trans htail₁⟩
      · rw [if_neg hfull, readAt_of_getElem? (List.getElem?_eq_getElem hi), ok_bind, hput, ok_bind,
          hinc, ok_bind, hrest]
        rw [show i + 1 + min k (n - (q.length + 1)) = i + (min k (n - (q.length + 1)) + 1) by
          omega]
      · rw [List.drop_eq_getElem_cons hi, List.take_succ_cons]
        rwa [List.append_assoc] at h'

/-- The loop of `fifo_pop`: it takes the first bytes, as many as there are. -/
theorem fifoPopLoop_rep {n : ℕ} :
    ∀ (k i : ℕ) (f : Fifo) (q buf : List UInt8), Rep n f q →
      Counts n (f.tail.toNat + min k q.length) → i + min k q.length < 2147483648 →
      ∃ f', fifoPopLoop k f i buf =
          .ok (f', buf ++ q.take k, ((i + min k q.length : ℕ) : Int)) ∧ Rep n f' (q.drop k) ∧
        (2147483648 ≤ n → f'.tail = f.tail + (min k q.length : ℕ)) := by
  intro k
  induction k with
  | zero =>
    intro i f q buf h _ _
    exact ⟨f, by simp [fifoPopLoop], h, by simp⟩
  | succ k ih =>
    intro i f q buf h hcount hint
    unfold fifoPopLoop
    cases q with
    | nil =>
      -- empty: the loop breaks
      have hzero : f.dataLen = 0 := h.dataLen
      rw [if_pos hzero]
      exact ⟨f, by simp, h, by simp⟩
    | cons c q =>
      have hne : f.dataLen ≠ 0 := by
        rw [h.dataLen, List.length_cons]
        omega
      have hmin : min (k + 1) (c :: q).length = min k q.length + 1 := by
        rw [List.length_cons]
        omega
      rw [hmin] at hcount hint ⊢
      obtain ⟨f₁, hpop, h₁, htail₁⟩ := popByte_rep h (hcount.mono (by omega))
      have hcount₁ : Counts n (f₁.tail.toNat + min k q.length) := by
        rw [htail₁, Int.toNat_natCast]
        have hle := Nat.mod_le (f.tail.toNat + 1) n
        exact hcount.mono (by omega)
      obtain ⟨f', hrest, h', htail'⟩ := ih (i + 1) f₁ q (buf ++ [c]) h₁ hcount₁ (by omega)
      have hinc : incInt i = .ok ((i + 1 : ℕ) : Int) := incInt_of_lt (by omega)
      refine ⟨f', ?_, h', fun hbig => ?_⟩
      · rw [if_neg hne, hpop, ok_bind]
        show (incInt i >>= fun i => fifoPopLoop k f₁ i (buf ++ [c])) = _
        rw [hinc, ok_bind, hrest, List.take_succ_cons, List.append_assoc,
          show i + 1 + min k q.length = i + (min k q.length + 1) by omega]
        rfl
      · -- such a ring does not wrap
        obtain ⟨t, htail, -⟩ := h.tail
        have hlt : f.tail.toNat + 1 < n := by
          rcases hcount with hsmall | hfew <;> omega
        rw [htail' hbig, htail₁, Nat.mod_eq_of_lt hlt]
        omega

-- ---------------------------------------------------------------------------
-- The calls
-- ---------------------------------------------------------------------------

/-- `fifo_put` appends the longest prefix that fits and returns its length. -/
theorem fifoPut_rep {n : ℕ} {f : Fifo} {q : List UInt8} (h : Rep n f q) (hn : n < 2147483648)
    {data : List UInt8} {len : ℕ} (hlen : len ≤ data.length) :
    ∃ f', fifoPut f data len = .ok (f', ((min len (n - q.length) : ℕ) : Int)) ∧
      Rep n f' (q ++ data.take (min len (n - q.length))) := by
  obtain ⟨f', hrun, hrep, -⟩ := fifoPutLoop_rep (by omega) data len 0 f q h (by omega) (.inl hn)
    (by omega)
  rw [Nat.zero_add] at hrun
  rw [List.drop_zero] at hrep
  exact ⟨f', hrun, hrep⟩

/-- `fifo_pop` takes the first `min maxlen size` bytes and returns their number. -/
theorem fifoPop_rep {n : ℕ} {f : Fifo} {q : List UInt8} (h : Rep n f q) (hn : n < 2147483648)
    {maxlen : ℕ} :
    ∃ f', fifoPop f maxlen = .ok (f', q.take maxlen, ((min maxlen q.length : ℕ) : Int)) ∧
      Rep n f' (q.drop maxlen) := by
  have hle := h.le
  obtain ⟨f', hrun, hrep, -⟩ := fifoPopLoop_rep maxlen 0 f q [] h (.inl hn) (by omega)
  rw [Nat.zero_add, List.nil_append] at hrun
  exact ⟨f', hrun, hrep⟩

theorem isFifoFull_rep {n : ℕ} {f : Fifo} {q : List UInt8} (h : Rep n f q) :
    isFifoFull (some f) = if q.length = n then 1 else 0 := by
  show (if f.dataLen = f.bufSize then (1 : Int) else 0) = _
  rw [h.dataLen, h.bufSize]

theorem isFifoEmpty_rep {n : ℕ} {f : Fifo} {q : List UInt8} (h : Rep n f q) :
    isFifoEmpty (some f) = if q.length = 0 then 1 else 0 := by
  show (if f.dataLen = 0 then (1 : Int) else 0) = _
  rw [h.dataLen]

/-- A call on a fifo, with what it returned. -/
inductive Call where
  | put (data : List UInt8) (len : ℕ) (ret : Int)
  | pop (maxlen : ℕ) (buf : List UInt8) (ret : Int)
  | full (ret : Int)
  | empty (ret : Int)

/-- The callers pass lengths that fit an `int`, and blocks as long as they say. -/
def Call.Legal : Call → Prop
  | .put data len _ => len ≤ data.length ∧ len < 2147483648
  | .pop maxlen _ _ => maxlen < 2147483648
  | _ => True

def CallStep (f : Fifo) : Call → Fifo → Prop
  | .put data len ret, f' => fifoPut f data len = .ok (f', ret)
  | .pop maxlen buf ret, f' => fifoPop f maxlen = .ok (f', buf, ret)
  | .full ret, f' => isFifoFull (some f) = ret ∧ f' = f
  | .empty ret, f' => isFifoEmpty (some f) = ret ∧ f' = f

/-- A fifo created with capacity `n`, and any legal calls on it. -/
def fifoSystem (n : ℕ) : System Fifo Call where
  init f := ∃ okFifo okBuffer, initDataFifo n okFifo okBuffer = (0, some f)
  step f c f' := c.Legal ∧ CallStep f c f'

/-- The same calls on a queue of at most `n` bytes. -/
def QueueStep (n : ℕ) (q : List UInt8) : Call → List UInt8 → Prop
  | .put data len ret, q' =>
    ret = ((min len (n - q.length) : ℕ) : Int) ∧ q' = q ++ data.take (min len (n - q.length))
  | .pop maxlen buf ret, q' =>
    buf = q.take maxlen ∧ ret = ((min maxlen q.length : ℕ) : Int) ∧ q' = q.drop maxlen
  | .full ret, q' => ret = (if q.length = n then 1 else 0) ∧ q' = q
  | .empty ret, q' => ret = (if q.length = 0 then 1 else 0) ∧ q' = q

def byteQueue (n : ℕ) : System (List UInt8) Call where
  init q := q = []
  step := QueueStep n

/-- The bytes the puts of a trace accepted. -/
def putBytes (tr : List Call) : List UInt8 :=
  tr.flatMap fun
    | .put data _ ret => data.take ret.toNat
    | _ => []

/-- The bytes the pops of a trace returned. -/
def poppedBytes (tr : List Call) : List UInt8 :=
  tr.flatMap fun
    | .pop _ buf _ => buf
    | _ => []

/-- The law of the queue: out, then inside, is in. -/
theorem byteQueue_popped_append {n : ℕ} {tr : List Call} {q : List UInt8}
    (h : (byteQueue n).Run tr q) : poppedBytes tr ++ q = putBytes tr := by
  refine System.Run.invariant (I := fun tr q => poppedBytes tr ++ q = putBytes tr) ?_ ?_ h
  · rintro q rfl
    rfl
  · intro tr q c q' _ hlaw hst
    simp only [poppedBytes, putBytes, List.flatMap_append, List.flatMap_singleton] at hlaw ⊢
    rw [← hlaw]
    cases c with
    | put data len ret =>
      obtain ⟨rfl, rfl⟩ := hst
      simp only [List.append_nil, List.append_assoc, Int.toNat_natCast]
    | pop maxlen buf ret =>
      obtain ⟨rfl, -, rfl⟩ := hst
      simp
    | full ret =>
      obtain ⟨-, rfl⟩ := hst
      simp
    | empty ret =>
      obtain ⟨-, rfl⟩ := hst
      simp

/-- One call on the ring buffer is the same call on the queue. -/
theorem call_matches {n : ℕ} (hn : n < 2147483648) {f f' : Fifo} {q : List UInt8} {c : Call}
    (h : Rep n f q) (hst : (fifoSystem n).step f c f') :
    ∃ q', QueueStep n q c q' ∧ Rep n f' q' := by
  obtain ⟨hlegal, hst⟩ := hst
  cases c with
  | put data len ret =>
    obtain ⟨f₁, hrun, h₁⟩ := fifoPut_rep h hn hlegal.1
    have heq := hst.symm.trans hrun
    simp only [Except.ok.injEq, Prod.mk.injEq] at heq
    obtain ⟨rfl, rfl⟩ := heq
    exact ⟨_, ⟨rfl, rfl⟩, h₁⟩
  | pop maxlen buf ret =>
    obtain ⟨f₁, hrun, h₁⟩ := fifoPop_rep h hn
    have heq := hst.symm.trans hrun
    simp only [Except.ok.injEq, Prod.mk.injEq] at heq
    obtain ⟨rfl, rfl, rfl⟩ := heq
    exact ⟨_, ⟨rfl, rfl, rfl⟩, h₁⟩
  | full ret =>
    obtain ⟨hret, rfl⟩ := hst
    exact ⟨q, ⟨hret.symm.trans (isFifoFull_rep h), rfl⟩, h⟩
  | empty ret =>
    obtain ⟨hret, rfl⟩ := hst
    exact ⟨q, ⟨hret.symm.trans (isFifoEmpty_rep h), rfl⟩, h⟩

/-- **The ring buffer is a byte queue of capacity `n`.** Every run of legal
calls is a run of the queue with the same results; the state reached holds the
queue's bytes at the positions `tail + k` modulo `n`, with `head` behind them;
the bytes popped, followed by the content, are the prefixes the puts accepted;
and no legal call faults in it, whatever the capacity. -/
theorem fifo_refines_byteQueue {n : ℕ} (hn : n < 2147483648) {tr : List Call} {f : Fifo}
    (h : (fifoSystem n).Run tr f) :
    ∃ q, (byteQueue n).Run tr q ∧ poppedBytes tr ++ q = putBytes tr ∧
      f.bufSize = n ∧ f.buffer.length = n ∧ f.dataLen = q.length ∧ f.dataLen ≤ n ∧
      (∀ k (hk : k < q.length), f.buffer[(f.tail.toNat + k) % n]? = some q[k]) ∧
      f.head = ((f.tail.toNat + f.dataLen) % n : ℕ) ∧
      (0 < n → 0 ≤ f.head ∧ f.head < n ∧ 0 ≤ f.tail ∧ f.tail < n) ∧
      (∀ data len, len ≤ data.length → len < 2147483648 → ∃ f' ret,
        fifoPut f data len = .ok (f', ret)) ∧
      (∀ maxlen, maxlen < 2147483648 → ∃ f' buf ret, fifoPop f maxlen = .ok (f', buf, ret)) := by
  have hsim : ∃ q, (byteQueue n).Run (tr.filterMap some) q ∧ Rep n f q := by
    refine System.Run.simulation (R := fun _ f q => Rep n f q) ?_ ?_ h
    · rintro f ⟨okFifo, okBuffer, hinit⟩
      exact ⟨[], rfl, init_rep hinit⟩
    · intro tr f c f' q _ hrep hst
      exact call_matches hn hrep hst
  rw [List.filterMap_some] at hsim
  obtain ⟨q, hrun, hrep⟩ := hsim
  obtain ⟨t, htail, hzero, ht, hhead, hholds⟩ := hrep.tail
  have hnat : f.tail.toNat = t := by omega
  refine ⟨q, hrun, byteQueue_popped_append hrun, hrep.bufSize, hrep.buffer, hrep.dataLen,
    by rw [hrep.dataLen]; exact hrep.le, ?_, by rw [hnat, hrep.dataLen]; exact hhead, ?_, ?_, ?_⟩
  · intro k hk
    have hget := hholds.2 k hk
    rwa [hrep.buffer, ← hnat] at hget
  · intro hpos
    have hlt := ht hpos
    have hmod : (t + q.length) % n < n := Nat.mod_lt _ hpos
    omega
  · intro data len hlen hint
    obtain ⟨f', hput, -⟩ := fifoPut_rep hrep hn hlen
    exact ⟨f', _, hput⟩
  · intro maxlen hint
    obtain ⟨f', hpop, -⟩ := fifoPop_rep hrep hn
    exact ⟨f', _, _, hpop⟩

/-- The theorem at work: a ring of two bytes wraps around. -/
theorem fifo_refines_byteQueue_two :
    ∃ f, (fifoSystem 2).Run [.put [7, 8, 9] 3 2, .pop 1 [7] 1, .put [5] 1 1, .full 1] f ∧
      f.buffer = [5, 8] ∧ f.head = 1 ∧ ∃ q,
        (byteQueue 2).Run [.put [7, 8, 9] 3 2, .pop 1 [7] 1, .put [5] 1 1, .full 1] q ∧
        [7] ++ q = [7, 8, 5] := by
  have hinit : (fifoSystem 2).Run [] ⟨[0, 0], 2, 0, 0, 0⟩ := .init ⟨true, true, rfl⟩
  have hput : (fifoSystem 2).Run [.put [7, 8, 9] 3 2] ⟨[7, 8], 2, 0, 0, 2⟩ :=
    hinit.step ⟨⟨by decide, by decide⟩, rfl⟩
  have hpop : (fifoSystem 2).Run [.put [7, 8, 9] 3 2, .pop 1 [7] 1] ⟨[7, 8], 2, 0, 1, 1⟩ :=
    hput.step ⟨show 1 < 2147483648 by decide, rfl⟩
  have hwrap : (fifoSystem 2).Run [.put [7, 8, 9] 3 2, .pop 1 [7] 1, .put [5] 1 1]
      ⟨[5, 8], 2, 1, 1, 2⟩ :=
    hpop.step ⟨⟨by decide, by decide⟩, rfl⟩
  have hfull : (fifoSystem 2).Run
      [.put [7, 8, 9] 3 2, .pop 1 [7] 1, .put [5] 1 1, .full 1] ⟨[5, 8], 2, 1, 1, 2⟩ :=
    hwrap.step ⟨trivial, rfl, rfl⟩
  obtain ⟨q, hrun, hlaw, -⟩ := fifo_refines_byteQueue (by decide) hfull
  exact ⟨_, hfull, rfl, rfl, q, hrun, hlaw⟩

end Uartd.DataFifo
