import Fallow.Lib.Json

/-! Trimming a text and reading a number from it, as Python does on ASCII texts.

    `pyInt` takes surrounding white space, one sign and single underscores between digits; it refuses
    texts of more than `maxStrDigits` digits. What a decimal rendering says it reads back. -/

namespace Fallow.Lib
open List Json

/-- A text without the characters of `space` at its ends. -/
def stripBy (space : Char → Bool) (cs : List Char) : List Char :=
  ((cs.dropWhile space).reverse.dropWhile space).reverse

def isSpace (c : Char) : Bool :=
  9 ≤ c.toNat ∧ c.toNat ≤ 13 ∨ 28 ≤ c.toNat ∧ c.toNat ≤ 32

/-- `text.strip()` -/
def strip (cs : List Char) : List Char := stripBy isSpace cs

/-- Digits with single underscores between them; `afterDigit` tells what came last. -/
def digitsValue : (afterDigit : Bool) → ℕ → List Char → Option ℕ
  | afterDigit, n, [] => if afterDigit then some n else none
  | afterDigit, n, c :: cs =>
    if c = '_' then if afterDigit then digitsValue false n cs else none
    else if 48 ≤ c.toNat ∧ c.toNat ≤ 57 then digitsValue true (10 * n + (c.toNat - 48)) cs
    else none

def maxStrDigits : ℕ := 4300

/-- `int(text)` for ASCII texts, `none` for a `ValueError`. -/
def pyInt (text : String) : Option ℤ :=
  let cs := strip text.toList
  if maxStrDigits < (cs.filter fun c => 48 ≤ c.toNat ∧ c.toNat ≤ 57).length then none
  else match cs with
    | '-' :: ds => (digitsValue false 0 ds).map fun n => -(n : ℤ)
    | '+' :: ds => (digitsValue false 0 ds).map fun n => (n : ℤ)
    | ds => (digitsValue false 0 ds).map fun n => (n : ℤ)

/-! ### Trimming -/

theorem dropWhile_of_head {α : Type} {p : α → Bool} {s : List α}
    (h : ∀ c ∈ s.head?, p c = false) : s.dropWhile p = s := by
  cases s with
  | nil => rfl
  | cons c s => rw [dropWhile_cons_of_neg (by simp [h c rfl])]

theorem stripBy_none {space : Char → Bool} {cs : List Char} (h : ∀ c ∈ cs, space c = false) :
    stripBy space cs = cs := by
  rw [stripBy, dropWhile_of_head fun c hc => h c (mem_of_mem_head? hc),
    dropWhile_of_head fun c hc => h c (mem_reverse.mp (mem_of_mem_head? hc)), reverse_reverse]

theorem isSpace_digit (h : isDigit c = true) : isSpace c = false := by
  simp only [isDigit, decide_eq_true_eq] at h
  simp only [isSpace, decide_eq_false_iff_not]
  omega

/-! ### Reading a decimal back -/

theorem digitsValue_digits : ∀ {ds : List Char} {n : ℕ},
    (∀ c ∈ ds, isDigit c = true) →
      digitsValue true n ds = some (ds.foldl (fun n c => 10 * n + (c.toNat - 48)) n)
  | [], _, _ => rfl
  | d :: ds, n, h => by
    have hd := h d mem_cons_self
    simp only [isDigit, decide_eq_true_eq] at hd
    have hne : d ≠ '_' := by
      rintro rfl
      exact absurd hd (by decide)
    rw [digitsValue, if_neg hne, if_pos hd,
      digitsValue_digits fun c hc => h c (mem_cons_of_mem _ hc)]
    rfl

theorem digitsValue_first
    (h : isDigit d = true) : digitsValue afterDigit n (d :: ds) = digitsValue true n (d :: ds) := by
  have hne : d ≠ '_' := by
    rintro rfl
    exact absurd h (by decide)
  rw [digitsValue, digitsValue, if_neg hne, if_neg hne]

theorem length_decimal_le : ∀ {n : ℕ}, n < 10 ^ (k + 1) → (decimal n).length ≤ k + 1 := by
  induction k with
  | zero =>
    intro n hn
    rw [decimal, if_pos (by omega)]
    exact Nat.le_refl 1
  | succ k ih =>
    intro n hn
    rw [decimal]
    split
    · exact Nat.le_add_left 1 (k + 1)
    have := @ih (n / 10) (Nat.div_lt_of_lt_mul (by omega))
    rw [length_append, length_singleton]
    omega

/-- CORRECT: `int` reads what `str` wrote. -/
theorem pyInt_decimal (hlen : (decimal n).length ≤ maxStrDigits) :
    pyInt (String.ofList (decimal n)) = some (n : ℤ) := by
  have hdig := isDigit_of_mem_decimal n
  have hstrip : strip (decimal n) = decimal n :=
    stripBy_none fun c hc => isSpace_digit (hdig c hc)
  have hval := ofDigits_decimal n
  obtain ⟨d, ds, hds⟩ : ∃ d ds, decimal n = d :: ds := by
    rcases decimal_shape n with h | ⟨d, ds, h, -⟩
    · exact ⟨_, _, h⟩
    · exact ⟨d, ds, h⟩
  have hd : isDigit d = true := hdig d (by rw [hds]; exact mem_cons_self)
  have hread : digitsValue false 0 (d :: ds) = some n := by
    rw [digitsValue_first hd, ← hds, digitsValue_digits hdig]
    exact congrArg some hval
  have hcount := length_filter_le (fun c : Char => decide (48 ≤ c.toNat ∧ c.toNat ≤ 57)) (decimal n)
  simp only [pyInt, String.toList_ofList, hstrip]
  rw [if_neg (by omega), hds]
  split
  · rename_i h
    obtain ⟨rfl, -⟩ := List.cons.inj h
    exact absurd hd (by decide)
  · rename_i h
    obtain ⟨rfl, -⟩ := List.cons.inj h
    exact absurd hd (by decide)
  · rw [hread]
    rfl

end Fallow.Lib
