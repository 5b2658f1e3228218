import Uartd.Receive.Rounds

/-!
# Uartd — the order of messages of one source

A message is inserted some time after it was read, and in between the worker
that read it can be overtaken: by a second `pipe_connect_handler`, which nothing
holds back, or by a second `uart_connect_handler`, which the main loop may start
as soon as the first one has added the UART to epoll again, before its insert.

`NoOverlap` is the condition that keeps the order: no worker begins a message
while another one holds bytes of the same descriptor that it has read and not
inserted. What a step does to the bytes in workers' hands is said once, in
`held_step`; `messages_keep_order` is the induction over runs whose steps all
meet the condition. `overtaken_of_overlap` is the other direction: a step that
does not meet it lets the run go on to two messages in the wrong order.
-/

namespace Uartd.Receive

open Uartd.Lib

variable {n queueMaxNum : ℕ} {needSockServer : Bool}

/-! ## Bytes in workers' hands -/

/-- The bytes of `fd` a worker has read for a message and not inserted. -/
def HandlerPc.held (fd : Fd) : HandlerPc → List InputByte
  | .wholeRead buf | .toAdd buf => if fd = .uart then buf else []
  | .toInsert m => if m.fd = fd then m.data else []
  | _ => []

/-- The message of `fd` an event inserts. -/
def Event.inserted? (fd : Fd) : Event n → Option Message
  | .insert _ m => if m.fd = fd then some m else none
  | _ => none

/-- The bytes of `fd` an event adds to a worker's message. -/
def Event.kept (fd : Fd) : Event n → List InputByte
  | .read _ fd' kept => if fd' = fd then kept else []
  | _ => []

/-- The messages of `fd` inserted along a trace, in order. -/
def inserted (fd : Fd) (tr : List (Event n)) : List Message := tr.filterMap (Event.inserted? fd)

/-- Every byte of `m` was read before every byte of `m'`. -/
def Message.ReadBefore (m m' : Message) : Prop := ∀ b ∈ m.data, ∀ b' ∈ m'.data, b.2 < b'.2

/-- Of two inserted messages of `fd`, the one read first is inserted first. -/
def KeepsOrder (fd : Fd) (tr : List (Event n)) : Prop :=
  ∀ (i j : ℕ) (m m' : Message), (inserted fd tr)[i]? = some m → (inserted fd tr)[j]? = some m' →
    m.ReadBefore m' → i < j

/-- A worker begins a message only while no other worker holds bytes of the
same descriptor. -/
def NoOverlap (s : State n) : Event n → Prop
  | .read w fd kept => kept ≠ [] → (s.handler w).held fd = [] →
      ∀ x, x ≠ w → (s.handler x).held fd = []
  | _ => True

theorem inserted_append (fd : Fd) (tr es : List (Event n)) :
    inserted fd (tr ++ es) = inserted fd tr ++ inserted fd es :=
  List.filterMap_append

/-- The bytes of a read follow all bytes read before. -/
theorem pos_of_mem_chunk {inp : Input} {count : ℕ} {b : InputByte} (hb : b ∈ inp.chunk count) :
    inp.taken ≤ b.2 ∧ b.2 < (inp.advance count).taken := by
  obtain ⟨i, hi, rfl⟩ := List.getElem_of_mem hb
  have hpos : ((inp.chunk count)[i]).2 = inp.taken + i := by
    simp [Input.chunk, Input.unread]
  rw [hpos]
  show _ ∧ inp.taken + i < inp.taken + (inp.chunk count).length
  omega

/-- What a step does to the bytes of `fd`: a worker may let go of what it holds,
read more, or insert it. -/
inductive HeldStep (fd : Fd) (s : State n) (e : Event n) (s' : State n) : Prop
  | keep : e.inserted? fd = none → e.kept fd = [] →
      (∀ x, (s'.handler x).held fd = (s.handler x).held fd ∨ (s'.handler x).held fd = []) →
      (s.input fd).taken ≤ (s'.input fd).taken → HeldStep fd s e s'
  | read (w : Fin n) (kept : List InputByte) : e = .read w fd kept → kept ≠ [] →
      (s'.handler w).held fd = (s.handler w).held fd ++ kept →
      (∀ x, x ≠ w → (s'.handler x).held fd = (s.handler x).held fd) →
      (∀ b ∈ kept, (s.input fd).taken ≤ b.2 ∧ b.2 < (s'.input fd).taken) →
      (s.input fd).taken ≤ (s'.input fd).taken → HeldStep fd s e s'
  | insert (w : Fin n) (m : Message) : e = .insert w m → m.fd = fd →
      (s.handler w).held fd = m.data → (s'.handler w).held fd = [] →
      (∀ x, x ≠ w → (s'.handler x).held fd = (s.handler x).held fd) →
      (s'.input fd).taken = (s.input fd).taken → HeldStep fd s e s'

/-- A handler moves to a point where it holds the same bytes, or none. -/
theorem held_of_move {f : Fin n → HandlerPc} {fd : Fd} {w : Fin n} {pc : HandlerPc}
    (hpc : pc.held fd = (f w).held fd ∨ pc.held fd = []) (x : Fin n) :
    (Function.update f w pc x).held fd = (f x).held fd ∨
      (Function.update f w pc x).held fd = [] := by
  by_cases hx : x = w
  · rw [hx, Function.update_self]
    exact hpc
  · rw [Function.update_of_ne hx]
    exact .inl rfl

theorem held_of_ne {f : Fin n → HandlerPc} {fd : Fd} {w : Fin n} {pc : HandlerPc} (x : Fin n)
    (hx : x ≠ w) : (Function.update f w pc x).held fd = (f x).held fd := by
  rw [Function.update_of_ne hx]

theorem taken_advance (input : Fd → Input) (fd fd' : Fd) (count : ℕ) :
    (input fd).taken ≤ (Function.update input fd' ((input fd').advance count) fd).taken := by
  by_cases hfd : fd = fd'
  · rw [hfd, Function.update_self]
    exact Nat.le_add_right _ _
  · rw [Function.update_of_ne hfd]

theorem held_afterRead_uart (fd : Fd) (buf : List InputByte) :
    (afterRead .uart buf).held fd = (HandlerPc.toAdd buf).held fd := by
  unfold afterRead
  split
  · rename_i hnil
    simp [HandlerPc.held, hnil]
  · simp [HandlerPc.held, eq_comm]

/-- **Inversion.** What a step does to the bytes of one descriptor. -/
theorem held_step {s s' : State n} {e : Event n} (hst : Step needSockServer s e s') (fd : Fd) :
    HeldStep fd s e s' := by
  cases hst with
  | @start w f a pc pool' hpool hentry =>
    refine .keep rfl rfl (held_of_move (.inr ?_)) (Nat.le_refl _)
    rcases Callback.entry_cases hentry with rfl | rfl | rfl | rfl | rfl | ⟨i, rfl⟩ <;>
      simp [HandlerPc.held]
  | finish hpc hpool => exact .keep rfl rfl (held_of_move (.inr rfl)) (Nat.le_refl _)
  | @uartStore buf buf' w count hpc hcount hbody =>
    obtain ⟨hne, -, rfl⟩ := wholeReadBody_eq_some_iff.mp hbody
    by_cases hfd : fd = .uart
    · subst hfd
      refine .read w _ rfl hne ?_ held_of_ne ?_ (taken_advance _ _ _ _)
      · show (Function.update s.handler w _ w).held _ = _
        rw [Function.update_self, hpc]
        rfl
      · intro b hb
        show _ ∧ b.2 < (Function.update s.input _ _ _).taken
        rw [Function.update_self]
        exact pos_of_mem_chunk hb
    · refine .keep rfl (by simp [Event.kept, Ne.symm hfd]) (held_of_move (.inr ?_))
        (taken_advance _ _ _ _)
      simp [HandlerPc.held, hfd]
  | uartBreak w count hpc hcount hbody =>
    exact .keep rfl (ite_self _) (held_of_move (.inl (by rw [hpc]; rfl))) (taken_advance _ _ _ _)
  | add w hpc =>
    exact .keep rfl rfl (held_of_move (.inl (by rw [hpc, held_afterRead_uart]))) (Nat.le_refl _)
  | load w hpc => exact .keep rfl rfl (held_of_move (.inr rfl)) (Nat.le_refl _)
  | @read fd' w hpc hsock =>
    by_cases hchunk : (s.input fd').chunk recvBufSize = []
    · refine .keep rfl (by simp [Event.kept, hchunk]) (held_of_move (.inr ?_))
        (taken_advance _ _ _ _)
      simp [afterRead, hchunk, HandlerPc.held]
    · by_cases hfd : fd' = fd
      · subst hfd
        refine .read w _ rfl hchunk ?_ held_of_ne ?_ (taken_advance _ _ _ _)
        · show (Function.update s.handler w _ w).held _ = _
          rw [Function.update_self, hpc]
          simp [afterRead, hchunk, HandlerPc.held]
        · intro b hb
          show _ ∧ b.2 < (Function.update s.input _ _ _).taken
          rw [Function.update_self]
          exact pos_of_mem_chunk hb
      · refine .keep rfl (by simp [Event.kept, hfd]) (held_of_move (.inr ?_))
          (taken_advance _ _ _ _)
        simp [afterRead, hchunk, HandlerPc.held, hfd]
  | readListening w hpc => exact .keep rfl (ite_self _) (held_of_move (.inr rfl)) (Nat.le_refl _)
  | accept w k hpc hreq hfree hnew =>
    exact .keep rfl rfl (held_of_move (.inr rfl)) (taken_advance _ _ _ _)
  | acceptFailed w hpc => exact .keep rfl rfl (held_of_move (.inr rfl)) (Nat.le_refl _)
  | @insert m w hpc =>
    by_cases hfd : m.fd = fd
    · refine .insert w m rfl hfd ?_ ?_ held_of_ne rfl
      · rw [hpc]
        simp [HandlerPc.held, hfd]
      · show (Function.update s.handler w _ w).held _ = _
        rw [Function.update_self]
        rfl
    · exact .keep (by simp [Event.inserted?, hfd]) rfl (held_of_move (.inr rfl)) (Nat.le_refl _)
  | initNodeFailed w hpc => exact .keep rfl rfl (held_of_move (.inr rfl)) (Nat.le_refl _)
  | signal w hpc => exact .keep rfl rfl (held_of_move (.inr rfl)) (Nat.le_refl _)
  | arrive fd' bytes =>
    refine .keep rfl rfl (fun _ => .inl rfl) ?_
    by_cases hfd : fd = fd'
    · show _ ≤ (Function.update s.input fd' _ fd).taken
      rw [hfd, Function.update_self]
      exact Nat.le_refl _
    · show _ ≤ (Function.update s.input fd' _ fd).taken
      rw [Function.update_of_ne hfd]
  | _ => exact .keep rfl rfl (fun _ => .inl rfl) (Nat.le_refl _)

/-! ## Held bytes have been read -/

/-- The bytes in workers' hands are among those taken from the descriptor. -/
def HeldTaken (fd : Fd) (s : State n) : Prop :=
  ∀ x, ∀ b ∈ (s.handler x).held fd, b.2 < (s.input fd).taken

theorem heldTaken_step {s s' : State n} {e : Event n} {fd : Fd} (h : HeldTaken fd s)
    (hst : Step needSockServer s e s') : HeldTaken fd s' := by
  intro x b hb
  cases held_step hst fd with
  | keep _ _ hheld htaken =>
    rcases hheld x with hsame | hnil
    · rw [hsame] at hb
      exact Nat.lt_of_lt_of_le (h x b hb) htaken
    · rw [hnil] at hb
      simp at hb
  | read w kept _ _ hw hothers hkept htaken =>
    by_cases hx : x = w
    · rw [hx, hw] at hb
      rcases List.mem_append.mp hb with hold | hnew
      · exact Nat.lt_of_lt_of_le (h w b hold) htaken
      · exact (hkept b hnew).2
    · rw [hothers x hx] at hb
      exact Nat.lt_of_lt_of_le (h x b hb) htaken
  | insert w m _ _ _ hw hothers htaken =>
    rw [htaken]
    by_cases hx : x = w
    · rw [hx, hw] at hb
      simp at hb
    · rw [hothers x hx] at hb
      exact h x b hb

theorem run_heldTaken {tr : List (Event n)} {s : State n}
    (h : (receiveSystem n queueMaxNum needSockServer).Run tr s) (fd : Fd) : HeldTaken fd s := by
  refine System.Run.state_invariant (I := fun s => HeldTaken fd s) ?_ ?_ h
  · rintro s ⟨events, rfl⟩ x b hb
    simp [epollStart, HandlerPc.held] at hb
  · intro s e s' _ hheld hst
    exact heldTaken_step hheld hst

/-! ## While no two workers overlap -/

/-- The bytes of one descriptor after the messages `ms` were inserted: those of
`ms` first, message by message, then those in the hands of one worker. -/
structure OrderInv (fd : Fd) (ms : List Message) (s : State n) : Prop where
  order  : ms.Pairwise Message.ReadBefore
  before : ∀ m ∈ ms, ∀ b ∈ m.data, ∀ x, ∀ b' ∈ (s.handler x).held fd, b.2 < b'.2
  alone  : ∀ x y, x ≠ y → (s.handler x).held fd = [] ∨ (s.handler y).held fd = []
  taken  : ∀ m ∈ ms, ∀ b ∈ m.data, b.2 < (s.input fd).taken

/-- Workers that only let go of bytes. -/
theorem OrderInv.keep {fd : Fd} {ms : List Message} {s s' : State n} (h : OrderInv fd ms s)
    (hheld : ∀ x, (s'.handler x).held fd = (s.handler x).held fd ∨ (s'.handler x).held fd = [])
    (htaken : (s.input fd).taken ≤ (s'.input fd).taken) : OrderInv fd ms s' := by
  refine ⟨h.order, ?_, ?_, fun m hm b hb => Nat.lt_of_lt_of_le (h.taken m hm b hb) htaken⟩
  · intro m hm b hb x b' hb'
    rcases hheld x with hsame | hnil
    · rw [hsame] at hb'
      exact h.before m hm b hb x b' hb'
    · rw [hnil] at hb'
      simp at hb'
  · have hstill : ∀ x, (s.handler x).held fd = [] → (s'.handler x).held fd = [] := by
      intro x hx
      rcases hheld x with hsame | hnil
      · rw [hsame, hx]
      · exact hnil
    intro x y hxy
    exact (h.alone x y hxy).imp (hstill x) (hstill y)

/-- A worker reads more for its message, and no other one holds anything. -/
theorem OrderInv.read {fd : Fd} {ms : List Message} {s s' : State n} (h : OrderInv fd ms s)
    {w : Fin n} {kept : List InputByte}
    (hw : (s'.handler w).held fd = (s.handler w).held fd ++ kept)
    (hothers : ∀ x, x ≠ w → (s'.handler x).held fd = [])
    (hkept : ∀ b ∈ kept, (s.input fd).taken ≤ b.2)
    (htaken : (s.input fd).taken ≤ (s'.input fd).taken) : OrderInv fd ms s' := by
  refine ⟨h.order, ?_, ?_, fun m hm b hb => Nat.lt_of_lt_of_le (h.taken m hm b hb) htaken⟩
  · intro m hm b hb x b' hb'
    by_cases hx : x = w
    · rw [hx, hw] at hb'
      rcases List.mem_append.mp hb' with hold | hnew
      · exact h.before m hm b hb w b' hold
      · exact Nat.lt_of_lt_of_le (h.taken m hm b hb) (hkept b' hnew)
    · rw [hothers x hx] at hb'
      simp at hb'
  · intro x y hxy
    by_cases hx : x = w
    · exact .inr (hothers y (fun hy => hxy (hx.trans hy.symm)))
    · exact .inl (hothers x hx)

/-- A worker inserts what it holds: it is the only one that holds anything. -/
theorem OrderInv.insert {fd : Fd} {ms : List Message} {s s' : State n} (h : OrderInv fd ms s)
    (hread : HeldTaken fd s) {w : Fin n} {m : Message} (hheld : (s.handler w).held fd = m.data)
    (hw : (s'.handler w).held fd = [])
    (hothers : ∀ x, x ≠ w → (s'.handler x).held fd = (s.handler x).held fd)
    (htaken : (s'.input fd).taken = (s.input fd).taken) : OrderInv fd (ms ++ [m]) s' := by
  have hnone : ∀ x, (s'.handler x).held fd = [] := by
    intro x
    by_cases hx : x = w
    · rw [hx]
      exact hw
    · rw [hothers x hx]
      rcases h.alone x w hx with hnil | hnil
      · exact hnil
      · exact absurd (hheld.symm.trans hnil) m.nonempty
  refine ⟨?_, ?_, fun x y _ => .inl (hnone x), ?_⟩
  · rw [List.pairwise_append]
    refine ⟨h.order, List.pairwise_singleton _ _, ?_⟩
    intro m₁ hm₁ m₂ hm₂ b hb b' hb'
    rw [List.mem_singleton] at hm₂
    rw [hm₂, ← hheld] at hb'
    exact h.before m₁ hm₁ b hb w b' hb'
  · intro m₁ _ b _ x b' hb'
    rw [hnone x] at hb'
    simp at hb'
  · intro m₁ hm₁ b hb
    rw [htaken]
    rcases List.mem_append.mp hm₁ with hm₁ | hm₁
    · exact h.taken m₁ hm₁ b hb
    · rw [List.mem_singleton.mp hm₁, ← hheld] at hb
      exact hread w b hb

/-- **Step lemma.** -/
theorem orderInv_step {s s' : State n} {e : Event n} {fd : Fd} {ms : List Message}
    (h : OrderInv fd ms s) (hread : HeldTaken fd s) (hst : Step needSockServer s e s')
    (hG : NoOverlap s e) : OrderInv fd (ms ++ inserted fd [e]) s' := by
  cases held_step hst fd with
  | keep hnone _ hheld htaken =>
    rw [inserted, List.filterMap_cons_none hnone, List.filterMap_nil, List.append_nil]
    exact h.keep hheld htaken
  | read w kept he hne hw hothers hkept htaken =>
    subst he
    rw [show inserted fd [(.read w fd kept : Event n)] = [] from rfl, List.append_nil]
    refine h.read hw ?_ (fun b hb => (hkept b hb).1) htaken
    intro x hx
    rw [hothers x hx]
    by_cases hnil : (s.handler w).held fd = []
    · exact hG hne hnil x hx
    · exact (h.alone x w hx).resolve_right hnil
  | insert w m he hfd hheld hw hothers htaken =>
    subst he
    have hms : inserted fd [(.insert w m : Event n)] = [m] := by
      simp [inserted, Event.inserted?, hfd]
    rw [hms]
    exact h.insert hread hheld hw hothers htaken

/-- **Run lemma.** -/
theorem run_orderInv {tr : List (Event n)} {s : State n}
    (h : ((receiveSystem n queueMaxNum needSockServer).restrict NoOverlap).Run tr s) (fd : Fd) :
    OrderInv fd (inserted fd tr) s := by
  refine System.Run.invariant (I := fun tr s => OrderInv fd (inserted fd tr) s) ?_ ?_ h
  · rintro s ⟨events, rfl⟩
    refine ⟨List.Pairwise.nil, ?_, fun x y _ => .inl rfl, ?_⟩
    · intro m hm
      simp [inserted] at hm
    · intro m hm
      simp [inserted] at hm
  · intro tr s e s' hrun hinv hst
    rw [inserted_append]
    exact orderInv_step hinv (run_heldTaken hrun.of_restrict fd) hst.1 hst.2

/-- Messages with bytes in increasing order are in the order they were read. -/
theorem keepsOrder_of_pairwise {fd : Fd} {tr : List (Event n)}
    (h : (inserted fd tr).Pairwise Message.ReadBefore) : KeepsOrder fd tr := by
  intro i j m m' hi hj hread
  obtain ⟨hi', rfl⟩ := List.getElem?_eq_some_iff.mp hi
  obtain ⟨hj', rfl⟩ := List.getElem?_eq_some_iff.mp hj
  by_contra hle
  obtain ⟨b, hb⟩ := List.exists_mem_of_ne_nil _ ((inserted fd tr)[i]).nonempty
  obtain ⟨b', hb'⟩ := List.exists_mem_of_ne_nil _ ((inserted fd tr)[j]).nonempty
  have hlt := hread b hb b' hb'
  rcases Nat.lt_or_ge j i with hji | hge
  · have hback := List.pairwise_iff_getElem.mp h j i hj' hi' hji b' hb' b hb
    omega
  · obtain rfl : i = j := by omega
    have hself := hread b hb b hb
    omega

/-- **Messages of one source keep their order** along every run of the receive
side in which no worker begins a message while another one holds bytes of the
same descriptor that it has not inserted. -/
theorem messages_keep_order {tr : List (Event n)} {s : State n}
    (h : ((receiveSystem n queueMaxNum needSockServer).restrict NoOverlap).Run tr s) (fd : Fd) :
    KeepsOrder fd tr :=
  keepsOrder_of_pairwise (run_orderInv h fd).order

/-- A worker that reads alone meets the condition, from any states `init` in
which no other worker holds anything. -/
theorem restrict_of_reader {init : State n → Prop} {es : List (Event n)} {s : State n} {w : Fin n}
    (hinit : ∀ s, init s → ∀ x, x ≠ w → ∀ fd, (s.handler x).held fd = [])
    (h : (System.mk init (Step needSockServer)).Run es s) (hreads : ReadsOnlyBy w es) :
    ((System.mk init (Step needSockServer)).restrict NoOverlap).Run es s ∧
      ∀ x, x ≠ w → ∀ fd, (s.handler x).held fd = [] := by
  induction h with
  | init hs => exact ⟨.init hs, hinit _ hs⟩
  | @step es s s' e hrun hst ih =>
    obtain ⟨hrun', hnone⟩ := ih fun e' he' => hreads e' (by simp [he'])
    have hreader := hreads e (by simp)
    refine ⟨hrun'.step ⟨hst, ?_⟩, ?_⟩
    · cases e with
      | read w' fd kept =>
        obtain rfl := hreader w' fd kept rfl
        intro _ _ x hx
        exact hnone x hx fd
      | _ => trivial
    · intro x hx fd
      cases held_step hst fd with
      | keep _ _ hheld _ =>
        rcases hheld x with hsame | hnil
        · rw [hsame, hnone x hx fd]
        · exact hnil
      | read w' kept he _ _ hothers _ _ =>
        obtain rfl := hreader w' fd kept he
        rw [hothers x hx, hnone x hx fd]
      | insert w' m _ _ _ hw hothers _ =>
        by_cases hxw : x = w'
        · rw [hxw, hw]
        · rw [hothers x hxw, hnone x hx fd]

theorem inserted_eq_nil {es : List (Event n)} (h : InsertsNothing es) (fd : Fd) :
    inserted fd es = [] := by
  refine List.filterMap_eq_nil_iff.mpr fun e he => ?_
  cases e with
  | insert w m => exact absurd rfl (h _ he w m)
  | _ => rfl

/-- The theorem at work: a worker reads a byte from the UART and inserts it, and
then another one does. -/
theorem messages_keep_order_two :
    ∃ tr s m m', ((receiveSystem 5 10 false).restrict NoOverlap).Run tr s ∧
      inserted .uart tr = [m, m'] ∧ m.ReadBefore m' ∧ KeepsOrder .uart tr := by
  obtain ⟨es₀, s₀, hrun₀, hquiet₀, hinput₀, -, ⟨hreads₀, hins₀, -⟩, -, hidle₀⟩ :=
    start_up (n := 5) 10 false (by decide) 0 1 2 (by decide) (by decide) (by decide)
      (fun _ => ⟨.uart, true⟩) 3
  -- worker 3
  obtain ⟨es₁, s₁, hrun₁, hround₁, hreads₁, hins₁⟩ := uart_round 10 false hquiet₀ (w := 3)
    (hidle₀ 3 (by decide) (by decide) (by decide)).1 [65] (by decide) (by decide)
  have hthree : s₁.handler 3 = .toInsert ⟨.uart, [(65, 0)], by simp⟩ := by
    rw [hround₁.handler, Function.update_self, hinput₀]
    rfl
  obtain ⟨hfirst, hnone⟩ := restrict_of_reader (w := 3) (by
      rintro s ⟨events, rfl⟩ x hx fd
      rfl) ((hrun₀.append hrun₁).step (Step.insert 3 hthree))
    ((hreads₀.append hreads₁).append (by simp [ReadsOnlyBy]))
  -- worker 4
  have hquiet := hround₁.quiet
  obtain ⟨es₂, s₂, hrun₂, hround₂, hreads₂, hins₂⟩ := uart_round 10 false
    (s := { s₁ with handler := Function.update s₁.handler 3 .toSignal }) (w := 4)
    ⟨hquiet.main, hquiet.rest, hquiet.uart, hquiet.pipe, hquiet.edge, hquiet.read⟩
    ((hround₁.worker 4 (by decide)).trans (hidle₀ 4 (by decide) (by decide) (by decide)).1)
    [66] (by decide) (by decide)
  have hfour : s₂.handler 4 = .toInsert ⟨.uart, [(66, 1)], by simp⟩ := by
    rw [hround₂.handler, Function.update_self]
    dsimp only
    rw [hround₁.taken, hinput₀]
    rfl
  obtain ⟨hsecond, -⟩ := restrict_of_reader (w := 4) (by
      rintro s rfl x hx fd
      by_cases hx3 : x = 3
      · rw [hx3]
        rfl
      · exact hnone x hx3 fd) (hrun₂.step (Step.insert 4 hfour))
    (hreads₂.append (by simp [ReadsOnlyBy]))
  have hrun := hfirst.append hsecond
  refine ⟨_, _, ⟨.uart, [(65, 0)], by simp⟩, ⟨.uart, [(66, 1)], by simp⟩, hrun, ?_, ?_,
    messages_keep_order hrun .uart⟩
  · simp only [inserted_append, inserted_eq_nil hins₀, inserted_eq_nil hins₁,
      inserted_eq_nil hins₂, List.nil_append]
    rfl
  · simp [Message.ReadBefore]

/-! ## Overlap breaks the order -/

variable (queueMaxNum needSockServer)

/-- A worker before its insert inserts, whatever the others do. -/
theorem insert_of_toInsert {s : State n} {w : Fin n} {m : Message} (h : s.handler w = .toInsert m) :
    ∃ es s', ((receiveSystem n queueMaxNum needSockServer).startAt s).Run es s' ∧
      inserted m.fd es = [m] ∧ ∀ x, x ≠ w → s'.handler x = s.handler x := by
  have h₀ : ((receiveSystem n queueMaxNum needSockServer).startAt s).Run [] s := .init rfl
  refine ⟨_, _, h₀.step (.insert w h), by simp [inserted, Event.inserted?], ?_⟩
  intro x hx
  exact Function.update_of_ne hx _ _

/-- From its read on, `uart_connect_handler` comes to its insert. -/
theorem insert_of_toAdd {s : State n} {w : Fin n} {buf : List InputByte} (hne : buf ≠ [])
    (h : s.handler w = .toAdd buf) :
    ∃ es s', ((receiveSystem n queueMaxNum needSockServer).startAt s).Run es s' ∧
      inserted .uart es = [⟨.uart, buf, hne⟩] ∧ ∀ x, x ≠ w → s'.handler x = s.handler x := by
  have h₀ : ((receiveSystem n queueMaxNum needSockServer).startAt s).Run [] s := .init rfl
  have hadd := h₀.step (Step.add w h)
  obtain ⟨es, s', hrun, hins, hothers⟩ := insert_of_toInsert queueMaxNum needSockServer
    (s := { s with
      interest := Function.update s.interest .uart (some .level)
      handler := Function.update s.handler w (afterRead .uart buf) })
    (w := w) (m := ⟨.uart, buf, hne⟩) (by
      show Function.update s.handler w (afterRead .uart buf) w = _
      rw [Function.update_self, afterRead, dif_neg hne])
  refine ⟨_, s', hadd.append hrun, ?_, ?_⟩
  · rw [inserted_append, hins]
    rfl
  · intro x hx
    rw [hothers x hx]
    exact Function.update_of_ne hx _ _

/-- A worker can go on to insert the bytes it holds. -/
theorem insert_held {s : State n} {w : Fin n} {fd : Fd} (h : (s.handler w).held fd ≠ []) :
    ∃ es s' m, ((receiveSystem n queueMaxNum needSockServer).startAt s).Run es s' ∧
      inserted fd es = [m] ∧ m.data = (s.handler w).held fd ∧
      ∀ x, x ≠ w → s'.handler x = s.handler x := by
  cases hpc : s.handler w with
  | toInsert m =>
    rw [hpc] at h
    obtain rfl : m.fd = fd := by
      by_contra hfd
      exact h (if_neg hfd)
    obtain ⟨es, s', hrun, hins, hothers⟩ := insert_of_toInsert queueMaxNum needSockServer hpc
    exact ⟨es, s', m, hrun, hins, (if_pos rfl).symm, hothers⟩
  | toAdd buf =>
    rw [hpc] at h
    obtain rfl : fd = .uart := by
      by_contra hfd
      exact h (if_neg hfd)
    obtain ⟨es, s', hrun, hins, hothers⟩ := insert_of_toAdd queueMaxNum needSockServer h hpc
    exact ⟨es, s', _, hrun, hins, rfl, hothers⟩
  | wholeRead buf =>
    rw [hpc] at h
    obtain rfl : fd = .uart := by
      by_contra hfd
      exact h (if_neg hfd)
    -- the next read finds nothing
    have h₀ : ((receiveSystem n queueMaxNum needSockServer).startAt s).Run [] s := .init rfl
    have hbreak := h₀.step (Step.uartBreak w 0 hpc (Nat.zero_le _) (if_pos List.take_zero))
    obtain ⟨es, s', hrun, hins, hothers⟩ := insert_of_toAdd queueMaxNum needSockServer
      (s := { s with
        input := Function.update s.input .uart ((s.input .uart).advance 0)
        handler := Function.update s.handler w (.toAdd buf) }) h (Function.update_self _ _ _)
    refine ⟨_, s', ⟨.uart, buf, h⟩, hbreak.append hrun, ?_, rfl, ?_⟩
    · rw [inserted_append, hins]
      rfl
    · intro x hx
      rw [hothers x hx]
      exact Function.update_of_ne hx _ _
  | _ =>
    rw [hpc] at h
    exact absurd rfl h

variable {queueMaxNum needSockServer}

/-- **A step that overlaps leads to the wrong order.** When a worker begins a
message while another one holds bytes of the descriptor, the run can go on so
that the message begun is inserted first. -/
theorem overtaken_of_overlap {tr : List (Event n)} {s s₁ : State n} {e : Event n}
    (h : (receiveSystem n queueMaxNum needSockServer).Run tr s)
    (hst : Step needSockServer s e s₁) (hG : ¬ NoOverlap s e) :
    ∃ fd es s', (receiveSystem n queueMaxNum needSockServer).Run (tr ++ [e] ++ es) s' ∧
      ¬ KeepsOrder fd (tr ++ [e] ++ es) := by
  cases e with
  | read w fd kept =>
    simp only [NoOverlap, not_forall] at hG
    obtain ⟨hne, hnil, x, hx, hheld⟩ := hG
    have htaken := run_heldTaken h fd
    cases held_step hst fd with
    | keep _ hkept _ _ =>
      rw [Event.kept, if_pos rfl] at hkept
      exact absurd hkept hne
    | insert _ _ he _ _ _ _ _ => cases he
    | read w' kept' he _ hw hothers hpos _ =>
      cases he
      rw [hnil, List.nil_append] at hw
      rw [← hothers x hx] at hheld
      have hrun := h.step hst
      -- first the worker that read last inserts, then the other one
      obtain ⟨es, s₂, m, hrun₁, hins, hm, hothers₁⟩ :=
        insert_held queueMaxNum needSockServer (hw ▸ hne)
      rw [← hothers₁ x hx] at hheld
      obtain ⟨es', s₃, m', hrun₂, hins', hm', -⟩ :=
        insert_held queueMaxNum needSockServer hheld
      refine ⟨fd, es ++ es', s₃, ?_, ?_⟩
      · rw [← List.append_assoc]
        exact (hrun.append hrun₁).append hrun₂
      · have htrace : inserted fd (tr ++ [.read w fd kept] ++ (es ++ es')) =
            inserted fd tr ++ [m, m'] := by
          rw [inserted_append, inserted_append, inserted_append, hins, hins',
            show inserted fd [(.read w fd kept : Event n)] = [] from rfl, List.append_nil]
          rfl
        intro hkeep
        have hlt := hkeep ((inserted fd tr).length + 1) (inserted fd tr).length m' m
          (by rw [htrace]; simp)
          (by rw [htrace]; simp) (by
            intro b hb b' hb'
            rw [hm', hothers₁ x hx, hothers x hx] at hb
            rw [hm, hw] at hb'
            exact Nat.lt_of_lt_of_le (htaken x b hb) (hpos b' hb').1)
        omega
  | _ => exact absurd trivial hG

/-- Two rounds and two inserts, the second message first. -/
theorem overtaken_of_rounds {fd : Fd}
    (hround : ∀ {s : State 5} {k : ℕ}, Quiet s k → ∀ {w : Fin 5}, s.pool.worker w = .ready →
      ∀ (text : List UInt8) (hne : text ≠ []), text.length < recvBufSize →
        ∃ es s', ((receiveSystem 5 10 false).startAt s).Run es s' ∧ Round fd w text hne k s s' ∧
          ReadsOnlyBy w es ∧ InsertsNothing es) :
    ¬ ∀ tr s, (receiveSystem 5 10 false).Run tr s → KeepsOrder fd tr := by
  obtain ⟨es₀, s₀, hrun₀, hquiet₀, hinput₀, -, ⟨-, hins₀, -⟩, -, hidle₀⟩ :=
    start_up (n := 5) 10 false (by decide) 0 1 2 (by decide) (by decide) (by decide)
      (fun _ => ⟨.uart, true⟩) 3
  obtain ⟨es₁, s₁, hrun₁, hround₁, -, hins₁⟩ := hround hquiet₀
    (hidle₀ 3 (by decide) (by decide) (by decide)).1 [65] (by decide) (by decide)
  obtain ⟨es₂, s₂, hrun₂, hround₂, -, hins₂⟩ := hround hround₁.quiet (w := 4)
    ((hround₁.worker 4 (by decide)).trans (hidle₀ 4 (by decide) (by decide) (by decide)).1)
    [66] (by decide) (by decide)
  have hthree : s₂.handler 3 = .toInsert ⟨fd, [(65, 0)], by simp⟩ := by
    rw [hround₂.handler, Function.update_of_ne (by decide), hround₁.handler,
      Function.update_self, hinput₀]
    rfl
  have hfour : s₂.handler 4 = .toInsert ⟨fd, [(66, 1)], by simp⟩ := by
    rw [hround₂.handler, Function.update_self, hround₁.taken, hinput₀]
    rfl
  have hinsert := ((hrun₀.append hrun₁).append hrun₂).step (Step.insert 4 hfour)
  have hthree' : Function.update s₂.handler 4 .toSignal 3 =
      .toInsert ⟨fd, [(65, 0)], by simp⟩ := by
    rw [Function.update_of_ne (by decide), hthree]
  have hrun := hinsert.step (Step.insert 3 hthree')
  have htrace : inserted fd (es₀ ++ es₁ ++ es₂ ++ [.insert 4 ⟨fd, [(66, 1)], by simp⟩] ++
      [.insert 3 ⟨fd, [(65, 0)], by simp⟩]) =
      [⟨fd, [(66, 1)], by simp⟩, ⟨fd, [(65, 0)], by simp⟩] := by
    simp only [inserted_append, inserted_eq_nil hins₀, inserted_eq_nil hins₁,
      inserted_eq_nil hins₂, List.nil_append]
    simp [inserted, Event.inserted?]
  intro hkeep
  have hlt := hkeep _ _ hrun 1 0 ⟨fd, [(65, 0)], by simp⟩ ⟨fd, [(66, 1)], by simp⟩
    (by rw [htrace]; rfl) (by rw [htrace]; rfl) (by simp [Message.ReadBefore])
  omega

/-- The order is not kept: not of messages from the UART, and not of messages
from the pipe. -/
theorem messages_overtaken :
    (¬ ∀ tr s, (receiveSystem 5 10 false).Run tr s → KeepsOrder .uart tr) ∧
    (¬ ∀ tr s, (receiveSystem 5 10 false).Run tr s → KeepsOrder .pipe tr) :=
  ⟨overtaken_of_rounds (uart_round 10 false), overtaken_of_rounds (pipe_round 10 false)⟩

end Uartd.Receive
