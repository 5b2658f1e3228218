import Mathlib.Data.List.Infix

/-!
# C strings

A string in memory is its bytes and a NUL after them. The functions here walk
blocks of memory as the C library's do: reading past the end of a block is a
fault, and a function that faults returns no result.

`strncmp_cstring` — compared over the length of a string, a block agrees with it
exactly if it begins with it.
-/

namespace Uartd.Lib

/-- A string: bytes of which none is NUL. -/
structure CStr where
  bytes  : List UInt8
  no_nul : 0 ∉ bytes
  deriving DecidableEq, Repr

/-- A string in memory. -/
def cstring (s : List UInt8) : List UInt8 := s ++ [0]

def strlen : List UInt8 → Option ℕ
  | [] => none
  | c :: s => if c = 0 then some 0 else (strlen s).map (· + 1)

/-- `strncmp(s1, s2, n)`: the difference of the first bytes that differ. -/
def strncmp : List UInt8 → List UInt8 → ℕ → Option Int
  | _, _, 0 => some 0
  | c₁ :: s₁, c₂ :: s₂, n + 1 =>
    if c₁ ≠ c₂ then some ((c₁.toNat : Int) - c₂.toNat)
    else if c₁ = 0 then some 0
    else strncmp s₁ s₂ n
  | _, _, _ + 1 => none

/-- The length of a string is that of the bytes before the first NUL. -/
theorem strlen_append {s : List UInt8} (h : 0 ∉ s) (t : List UInt8) :
    strlen (s ++ 0 :: t) = some s.length := by
  induction s with
  | nil => rfl
  | cons c s ih =>
    rw [List.mem_cons, not_or] at h
    rw [List.cons_append, strlen, if_neg (Ne.symm h.1), ih h.2]
    rfl

theorem strlen_cstring {s : List UInt8} (h : 0 ∉ s) : strlen (cstring s) = some s.length :=
  strlen_append h []

/-- A block with a NUL in it holds a string. -/
theorem strlen_of_mem {block : List UInt8} (h : 0 ∈ block) :
    ∃ len, strlen block = some len ∧ len < block.length := by
  obtain ⟨s, t, rfl, hs⟩ := List.eq_append_cons_of_mem h
  refine ⟨s.length, strlen_append hs t, ?_⟩
  rw [List.length_append, List.length_cons]
  omega

/-- The NUL that ends a string is in its block. -/
theorem strlen_lt {block : List UInt8} {len : ℕ} (h : strlen block = some len) :
    len < block.length := by
  induction block generalizing len with
  | nil => cases h
  | cons c block ih =>
    rw [strlen] at h
    split at h
    · obtain rfl := Option.some.inj h
      exact Nat.succ_pos _
    · obtain ⟨k, hk, rfl⟩ := Option.map_eq_some_iff.mp h
      exact Nat.succ_lt_succ (ih hk)

/-- Without a NUL the end of the string is not found. -/
theorem strlen_eq_none {block : List UInt8} : strlen block = none ↔ 0 ∉ block := by
  constructor
  · intro hnone hmem
    obtain ⟨len, hlen, -⟩ := strlen_of_mem hmem
    rw [hnone] at hlen
    exact nomatch hlen
  · intro hnul
    induction block with
    | nil => rfl
    | cons c block ih =>
      rw [List.mem_cons, not_or] at hnul
      rw [strlen, if_neg (Ne.symm hnul.1), ih hnul.2]
      rfl

/-- The string a block begins with. -/
def cstringAt (block : List UInt8) : Option (List UInt8) := (strlen block).map block.take

theorem cstringAt_eq_none {block : List UInt8} : cstringAt block = none ↔ 0 ∉ block := by
  rw [cstringAt, Option.map_eq_none_iff, strlen_eq_none]

theorem cstringAt_append {s : List UInt8} (h : 0 ∉ s) (t : List UInt8) :
    cstringAt (s ++ 0 :: t) = some s := by
  rw [cstringAt, strlen_append h, Option.map_some, List.take_left]

theorem toNat_sub_ne_zero {c₁ c₂ : UInt8} (h : c₁ ≠ c₂) : (c₁.toNat : Int) - c₂.toNat ≠ 0 := by
  intro hzero
  exact h (UInt8.toNat_inj.mp (by omega))

/-- A comparison over the whole of a string is the test whether the block begins
with it. It stays in the block if the block is as long as the string. -/
theorem strncmp_cstring {key block : List UInt8} (h : 0 ∉ key) (hlen : key.length ≤ block.length) :
    ∃ c, strncmp (cstring key) block key.length = some c ∧ (c = 0 ↔ key <+: block) := by
  induction key generalizing block with
  | nil => exact ⟨0, rfl, by simp⟩
  | cons k key ih =>
    rw [List.mem_cons, not_or] at h
    obtain ⟨b, block, rfl⟩ := List.exists_cons_of_length_pos (Nat.lt_of_lt_of_le Nat.succ_pos' hlen)
    rw [List.cons_prefix_cons]
    show ∃ c, (if k ≠ b then some ((k.toNat : Int) - b.toNat) else if k = 0 then some 0
      else strncmp (cstring key) block key.length) = some c ∧ _
    by_cases hkb : k = b
    · obtain ⟨c, hc, hiff⟩ := ih h.2 (Nat.le_of_succ_le_succ hlen)
      rw [if_neg (not_not_intro hkb), if_neg (Ne.symm h.1)]
      exact ⟨c, hc, hiff.trans ⟨fun hpre => ⟨hkb, hpre⟩, And.right⟩⟩
    · rw [if_pos hkb]
      exact ⟨_, rfl, iff_of_false (toNat_sub_ne_zero hkb) fun hpre => hkb hpre.1⟩

/-- The same with the block first, where the block holds a string: the comparison
ends at its NUL. -/
theorem strncmp_text {text key : List UInt8} (ht : 0 ∉ text) (hk : 0 ∉ key)
    (rest rest' : List UInt8) :
    ∃ c, strncmp (text ++ 0 :: rest) (key ++ rest') key.length = some c ∧
      (c = 0 ↔ key <+: text) := by
  induction key generalizing text with
  | nil => exact ⟨0, by rw [List.length_nil, strncmp], by simp⟩
  | cons k key ih =>
    rw [List.mem_cons, not_or] at hk
    cases text with
    | nil =>
      refine ⟨_, ?_, iff_of_false (toNat_sub_ne_zero hk.1) (by simp)⟩
      show (if (0 : UInt8) ≠ k then _ else _) = _
      rw [if_pos hk.1]
    | cons b text =>
      rw [List.mem_cons, not_or] at ht
      rw [List.cons_prefix_cons]
      show ∃ c, (if b ≠ k then some ((b.toNat : Int) - k.toNat) else if b = 0 then some 0
        else strncmp (text ++ 0 :: rest) (key ++ rest') key.length) = some c ∧ _
      by_cases hbk : b = k
      · obtain ⟨c, hc, hiff⟩ := ih ht.2 hk.2
        rw [if_neg (not_not_intro hbk), if_neg (Ne.symm ht.1)]
        exact ⟨c, hc, hiff.trans ⟨fun hpre => ⟨hbk.symm, hpre⟩, And.right⟩⟩
      · rw [if_pos hbk]
        exact ⟨_, rfl, iff_of_false (toNat_sub_ne_zero hbk) fun hpre => hbk hpre.1.symm⟩

/-- A comparison with a block that ends while it agrees reads past its end. -/
theorem strncmp_overrun {block rest : List UInt8} (h : 0 ∉ block) (hrest : rest ≠ []) :
    strncmp (cstring (block ++ rest)) block (block ++ rest).length = none := by
  induction block with
  | nil =>
    obtain ⟨c, rest, rfl⟩ := List.exists_cons_of_ne_nil hrest
    rfl
  | cons b block ih =>
    rw [List.mem_cons, not_or] at h
    show (if b ≠ b then _ else if b = 0 then _
      else strncmp (cstring (block ++ rest)) block (block ++ rest).length) = _
    rw [if_neg (not_not_intro rfl), if_neg (Ne.symm h.1)]
    exact ih h.2

end Uartd.Lib
