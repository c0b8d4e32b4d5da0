import Mathlib

/-! Base64 with the standard alphabet and padding.

    Three bytes are one number below 2²⁴, written as four digits of six bits. The decoder is the
    lenient one: line breaks are skipped and the spare bits before a padding are not looked at. What
    it owes the encoder is `decode_encode`. -/

namespace Fallow.Lib.Base64
open List Option

def alphabet : List Char :=
  "ABCDEFGHIJKLMNOPQRSTUVWXYZabcdefghijklmnopqrstuvwxyz0123456789+/".toList

def digit (i : ℕ) : Char := alphabet.getD i 'A'

def value (c : Char) : Option ℕ := alphabet.findIdx? (· = c)

def encode : List UInt8 → List Char
  | a :: b :: c :: rest =>
    let n := a.toNat * 65536 + b.toNat * 256 + c.toNat
    digit (n / 262144) :: digit (n / 4096 % 64) :: digit (n / 64 % 64) :: digit (n % 64) :: encode rest
  | [a, b] =>
    let n := a.toNat * 65536 + b.toNat * 256
    [digit (n / 262144), digit (n / 4096 % 64), digit (n / 64 % 64), '=']
  | [a] =>
    let n := a.toNat * 65536
    [digit (n / 262144), digit (n / 4096 % 64), '=', '=']
  | [] => []

/-- The bytes of one group of digits, padding only at the very end. -/
def decodeGroups : List Char → Option (List UInt8)
  | [] => some []
  | [a, b, '=', '='] => do
    let n := (← value a) * 262144 + (← value b) * 4096
    return [.ofNat (n / 65536)]
  | [a, b, c, '='] => do
    let n := (← value a) * 262144 + (← value b) * 4096 + (← value c) * 64
    return [.ofNat (n / 65536), .ofNat (n / 256 % 256)]
  | a :: b :: c :: d :: rest => do
    let n := (← value a) * 262144 + (← value b) * 4096 + (← value c) * 64 + (← value d)
    let bytes ← decodeGroups rest
    return .ofNat (n / 65536) :: .ofNat (n / 256 % 256) :: .ofNat (n % 256) :: bytes
  | _ => none

def decode (s : List Char) : Option (List UInt8) :=
  decodeGroups (s.filter fun c => c ≠ '\n' ∧ c ≠ '\r')

/-! ### Digits -/

variable {i : ℕ}

theorem value_digit (h : i < 64) : value (digit i) = some i := by
  have hall : ∀ i < 64, value (digit i) = some i := by decide +kernel
  exact hall i h

/-- What an encoding is made of. -/
def plain (c : Char) : Bool := c ∈ alphabet ∨ c = '='

theorem plain_digit : plain (digit i) = true := by
  unfold digit plain
  rw [getD_eq_getElem?_getD]
  cases h : alphabet[i]? with
  | none => decide
  | some c => simp [mem_of_getElem? h]

theorem digit_ne_pad (h : i < 64) : digit i ≠ '=' := by
  have hall : ∀ i < 64, digit i ≠ '=' := by decide +kernel
  exact hall i h

/-- INVARIANT: an encoding holds digits and padding only. -/
theorem plain_of_mem_encode : ∀ (bs : List UInt8), ∀ c ∈ encode bs, plain c = true
  | [], c, h => absurd h (by simp [encode])
  | [a], c, h => by
    simp only [encode, mem_cons, not_mem_nil, or_false] at h
    rcases h with rfl | rfl | rfl | rfl
    · exact plain_digit
    · exact plain_digit
    · decide
    · decide
  | [a, b], c, h => by
    simp only [encode, mem_cons, not_mem_nil, or_false] at h
    rcases h with rfl | rfl | rfl | rfl
    · exact plain_digit
    · exact plain_digit
    · exact plain_digit
    · decide
  | _ :: _ :: _ :: rest, c, h => by
    simp only [encode, mem_cons] at h
    rcases h with rfl | rfl | rfl | rfl | h
    · exact plain_digit
    · exact plain_digit
    · exact plain_digit
    · exact plain_digit
    · exact plain_of_mem_encode rest c h

theorem length_encode : ∀ bs : List UInt8, (encode bs).length = 4 * ((bs.length + 2) / 3)
  | [] => rfl
  | [_] => by simp [encode]
  | [_, _] => by simp [encode]
  | _ :: _ :: _ :: rest => by
    simp only [encode, length_cons, length_encode rest]
    omega

/-! ### Round trip -/

theorem ofNat_toNat (h : n = a.toNat) : UInt8.ofNat n = a := by
  rw [h]; exact UInt8.ofNat_toNat

theorem decodeGroups_encode : ∀ bs : List UInt8, decodeGroups (encode bs) = some bs
  | [] => rfl
  | [a] => by
    have ha := a.toNat_lt
    simp only [encode, decodeGroups]
    rw [value_digit (by omega), value_digit (by omega)]
    simp only [Option.pure_def, bind_eq_bind, bind_some]
    rw [ofNat_toNat (a := a) (by omega)]
  | [a, b] => by
    have ha := a.toNat_lt
    have hb := b.toNat_lt
    simp only [encode]
    rw [decodeGroups]
    · rw [value_digit (by omega), value_digit (by omega), value_digit (by omega)]
      simp only [Option.pure_def, bind_eq_bind, bind_some]
      rw [ofNat_toNat (a := a) (by omega), ofNat_toNat (a := b) (by omega)]
    · exact digit_ne_pad (by omega)
  | a :: b :: c :: rest => by
    have ha := a.toNat_lt
    have hb := b.toNat_lt
    have hc := c.toNat_lt
    simp only [encode]
    rw [decodeGroups]
    · rw [value_digit (by omega), value_digit (by omega), value_digit (by omega),
        value_digit (by omega), decodeGroups_encode rest]
      simp only [Option.pure_def, bind_eq_bind, bind_some]
      rw [ofNat_toNat (a := a) (by omega), ofNat_toNat (a := b) (by omega),
        ofNat_toNat (a := c) (by omega)]
    · intro _ h; exact absurd h (digit_ne_pad (by omega))
    · intro h; exact absurd h (digit_ne_pad (by omega))

/-- CORRECT: decoding an encoding gives the bytes back. -/
theorem decode_encode : decode (encode bs) = some bs := by
  have hkeep : (encode bs).filter (fun c => c ≠ '\n' ∧ c ≠ '\r') = encode bs := by
    refine filter_eq_self.mpr fun c hc => ?_
    have hp := plain_of_mem_encode bs c hc
    have hn : plain '\n' = false := by decide
    have hr : plain '\r' = false := by decide
    simp only [decide_eq_true_eq]
    refine ⟨?_, ?_⟩
    · rintro rfl; rw [hn] at hp; cases hp
    · rintro rfl; rw [hr] at hp; cases hp
  rw [decode, hkeep, decodeGroups_encode]

end Fallow.Lib.Base64
