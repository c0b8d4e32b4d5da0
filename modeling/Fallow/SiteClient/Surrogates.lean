import Mathlib

/-! `siteclient.go`, the check of a join bundle's text: `hasLoneSurrogateEscape` runs over the bytes
    of a valid JSON document and stops at backslashes alone.

        "   p l a i n   \n   \\   \ud83d\ude00   "
            1 byte      2    2    6, a pair 12

    Outside strings there is no backslash, and inside one the scanner always stands where an item
    of the string begins. -/

namespace Fallow.SiteClient
open List

abbrev Bytes := List UInt8

def hexDigit (c : UInt8) : Option ℕ :=
  if 48 ≤ c ∧ c ≤ 57 then some (c.toNat - 48)
  else if 97 ≤ c ∧ c ≤ 102 then some (c.toNat - 97 + 10)
  else if 65 ≤ c ∧ c ≤ 70 then some (c.toNat - 65 + 10)
  else none

def parseHex4 (b : Bytes) : Option ℕ :=
  b.foldlM (fun v c => (hexDigit c).map (v <<< 4 ||| ·)) 0

def High (u : ℕ) : Prop := 0xD800 ≤ u ∧ u ≤ 0xDBFF
  deriving Decidable

def Low (u : ℕ) : Prop := 0xDC00 ≤ u ∧ u ≤ 0xDFFF
  deriving Decidable

/-- The loop, over the bytes from its position on; 92 is the backslash, 117 the `u`. -/
def hasLoneSurrogateEscape : Bytes → Bool
  | 92 :: 117 :: a :: b :: c :: d :: data =>
    match parseHex4 [a, b, c, d] with
    | none => hasLoneSurrogateEscape (a :: b :: c :: d :: data)
    | some hi =>
      if High hi then
        match data with
        | 92 :: 117 :: a :: b :: c :: d :: data =>
          match parseHex4 [a, b, c, d] with
          | none => true
          | some lo => ¬ Low lo ∨ hasLoneSurrogateEscape data
        | _ => true
      else Low hi ∨ hasLoneSurrogateEscape data
  | 92 :: _ :: data => hasLoneSurrogateEscape data
  | _ :: data => hasLoneSurrogateEscape data
  | [] => false

/-! ### Valid documents -/

structure HexDigit where
  byte : UInt8
  value : ℕ
  h : hexDigit byte = some value

/-- An item of a string: a byte that stands for itself, a two-byte escape, or a code unit. -/
inductive Item where
  | plain (c : UInt8) (h : 32 ≤ c ∧ c ≠ 34 ∧ c ≠ 92)
  | short (c : UInt8) (h : c ∈ [34, 92, 47, 98, 102, 110, 114, 116])
  | unit (a b c d : HexDigit)

def Item.text : Item → Bytes
  | .plain c _ => [c]
  | .short c _ => [92, c]
  | .unit a b c d => [92, 117, a.byte, b.byte, c.byte, d.byte]

def quoted (s : List Item) : Bytes := 34 :: (s.flatMap Item.text ++ [34])

def Of (cs t : Bytes) : Prop := ∀ c ∈ t, c ∈ cs

def ws : Bytes := [32, 9, 10, 13]

/-- What numbers and literals are made of: more texts than JSON has. -/
def scalarBytes : Bytes := "+-.0123456789Eaeflnrstu".toList.map (·.toNat.toUInt8)

inductive Kind where | value | elements | members

/-- The grammar: a text, and the strings in it. -/
inductive Derives : Kind → Bytes → List (List Item) → Prop where
  | scalar (h : Of scalarBytes t) : Derives .value t []
  | string (s : List Item) : Derives .value (quoted s) [s]
  | space (ha : Of ws a) (ht : Derives .value t ss) (hb : Of ws b) :
      Derives .value (a ++ (t ++ b)) ss
  | emptyArray (ha : Of ws a) : Derives .value (91 :: (a ++ [93])) []
  | array (ht : Derives .elements t ss) : Derives .value (91 :: (t ++ [93])) ss
  | emptyObject (ha : Of ws a) : Derives .value (123 :: (a ++ [125])) []
  | object (ht : Derives .members t ss) : Derives .value (123 :: (t ++ [125])) ss
  | element (ht : Derives .value t ss) : Derives .elements t ss
  | elements (ht : Derives .elements t ss) (ht' : Derives .value t' ss') :
      Derives .elements (t ++ 44 :: t') (ss ++ ss')
  | member (ha : Of ws a) (k : List Item) (hb : Of ws b) (ht : Derives .value t ss) :
      Derives .members (a ++ (quoted k ++ (b ++ 58 :: t))) (k :: ss)
  | members (ht : Derives .members t ss) (ht' : Derives .members t' ss') :
      Derives .members (t ++ 44 :: t') (ss ++ ss')

/-! ### Lone surrogates -/

/-- An escape whose code unit is in a range. -/
def Is (P : ℕ → Prop) : Option Item → Prop
  | some (.unit a b c d) => P (((a.value * 16 + b.value) * 16 + c.value) * 16 + d.value)
  | _ => False

/-- Some surrogate is not part of a high one immediately followed by a low one. -/
def Lone (s : List Item) : Prop :=
  ∃ i, Is High s[i]? ∧ ¬ Is Low s[i + 1]? ∨ Is Low s[i]? ∧ ∀ j, j + 1 = i → ¬ Is High s[j]?

variable {x y : Item} {s : List Item} {t t' : Bytes} {ss ss' : List (List Item)}

theorem not_high_of_low {o : Option Item} (h : Is Low o) : ¬ Is High o := by
  match o, h with
  | some (.unit ..), h =>
    intro hh
    have := Nat.le_trans h.1 hh.2
    omega

theorem lone_cons (hx : ¬ Is High (some x)) : Lone (x :: s) ↔ Is Low (some x) ∨ Lone s := by
  constructor
  · rintro ⟨_ | i, h⟩
    · exact .inl (h.resolve_left fun h => hx h.1).1
    · exact .inr ⟨i, h.imp_right fun h => ⟨h.1, fun j hj => h.2 (j + 1) (by omega)⟩⟩
  · rintro (h | ⟨i, h⟩)
    · exact ⟨0, .inr ⟨h, by omega⟩⟩
    · refine ⟨i + 1, h.imp_right fun h => ⟨h.1, fun j hj => ?_⟩⟩
      cases j with
      | zero => exact hx
      | succ j => exact h.2 j (by omega)

theorem lone_pair (hx : Is High (some x)) (hy : Is Low (some y)) : Lone (x :: y :: s) ↔ Lone s := by
  have hxl : ¬ Is Low (some x) := fun h => not_high_of_low h hx
  have hyh := not_high_of_low hy
  constructor
  · rintro ⟨_ | _ | i, h⟩
    · exact (h.elim (fun h => h.2 hy) fun h => hxl h.1).elim
    · exact (h.elim (fun h => hyh h.1) fun h => h.2 0 rfl hx).elim
    · exact ⟨i, h.imp_right fun h => ⟨h.1, fun j hj => h.2 (j + 2) (by omega)⟩⟩
  · rintro ⟨i, h⟩
    refine ⟨i + 2, h.imp_right fun h => ⟨h.1, fun j hj => ?_⟩⟩
    match j with
    | 0 => omega
    | 1 => exact hyh
    | j + 2 => exact h.2 j (by omega)

/-! ### The scan -/

theorem hexDigit_lt {c : UInt8} (h : hexDigit c = some v) : v < 16 := by
  simp only [hexDigit, UInt8.le_iff_toNat_le, UInt8.reduceToNat] at h
  split_ifs at h <;> cases h <;> omega

theorem parseHex4_unit (a b c d : HexDigit) : parseHex4 [a.byte, b.byte, c.byte, d.byte] =
    some (((a.value * 16 + b.value) * 16 + c.value) * 16 + d.value) := by
  have hor (v : ℕ) (d : HexDigit) : v <<< 4 ||| d.value = v * 16 + d.value := by
    rw [← Nat.shiftLeft_add_eq_or_of_lt (hexDigit_lt d.h), Nat.shiftLeft_eq]
  simp [parseHex4, a.h, b.h, c.h, d.h, hor]

theorem scan_plain {c : UInt8} (hc : c ≠ 92) :
    hasLoneSurrogateEscape (c :: t) = hasLoneSurrogateEscape t := by
  rw [hasLoneSurrogateEscape]
  · exact fun _ _ _ _ _ h _ => hc h
  · exact fun _ _ h _ => hc h

theorem short_ne {c : UInt8} (h : c ∈ [34, 92, 47, 98, 102, 110, 114, 116]) : c ≠ 117 := by
  rintro rfl
  exact absurd h (by decide)

theorem scan_item (hx : ¬ Is High (some x)) : hasLoneSurrogateEscape (x.text ++ t) = true ↔
    Is Low (some x) ∨ hasLoneSurrogateEscape t = true := by
  match x, hx with
  | .plain c h, _ => simp [Item.text, Is, scan_plain h.2.2]
  | .short c h, _ =>
    have hscan : hasLoneSurrogateEscape (92 :: c :: t) = hasLoneSurrogateEscape t := by
      rw [hasLoneSurrogateEscape]
      exact fun _ _ _ _ _ h' _ => short_ne h h'
    simp [Item.text, Is, hscan]
  | .unit a b c d, hx =>
    simp only [Is] at hx
    simp only [Item.text, Is, cons_append, nil_append]
    rw [hasLoneSurrogateEscape.eq_def]
    simp only [parseHex4_unit, if_neg hx, decide_eq_true_eq]

/-- After a high surrogate the scanner wants a low one. -/
theorem scan_high (hx : Is High (some x)) : ∀ s : List Item,
    hasLoneSurrogateEscape (x.text ++ (s.flatMap Item.text ++ 34 :: t)) = true ↔
      ¬ Is Low s[0]? ∨ hasLoneSurrogateEscape (s.tail.flatMap Item.text ++ 34 :: t) = true := by
  match x, hx with
  | .unit a b c d, hx =>
    simp only [Is] at hx
    intro s
    match s with
    | [] => simp [Item.text, Is, hasLoneSurrogateEscape, parseHex4_unit, hx]
    | .plain c hc :: s =>
      simp [Item.text, Is, hasLoneSurrogateEscape, parseHex4_unit, hx, hc]
    | .short c hc :: s =>
      simp [Item.text, Is, hasLoneSurrogateEscape, parseHex4_unit, hx, short_ne hc]
    | .unit .. :: s => simp [Item.text, Is, hasLoneSurrogateEscape, parseHex4_unit, hx]

/-- CORRECT: within a string the scan finds a lone surrogate or goes on after the string. -/
theorem scan_items : ∀ (s : List Item) (t : Bytes),
    hasLoneSurrogateEscape (s.flatMap Item.text ++ 34 :: t) = true ↔
      Lone s ∨ hasLoneSurrogateEscape t = true
  | [], t => by
    have hnone : ¬ Lone [] := fun ⟨i, h⟩ => by simp [Is] at h
    exact (or_iff_right hnone).symm
  | x :: s, t => by
    rw [flatMap_cons, append_assoc]
    by_cases hh : Is High (some x)
    · rw [scan_high hh]
      by_cases hl : Is Low s[0]?
      · match s, hl with
        | y :: s, hl =>
          rw [lone_pair hh hl, tail_cons, scan_items s t]
          exact or_iff_right (not_not_intro hl)
      · exact iff_of_true (.inl hl) (.inl ⟨0, .inl ⟨hh, hl⟩⟩)
    · rw [lone_cons hh, scan_item hh, scan_items s t, or_assoc]

/-! ### Documents -/

/-- Scanning over a text tells whether one of these strings has a lone surrogate, and goes on with
    what comes after the text. -/
def Tells (t : Bytes) (ss : List (List Item)) : Prop := ∀ rest,
  hasLoneSurrogateEscape (t ++ rest) = true ↔
    (∃ s ∈ ss, Lone s) ∨ hasLoneSurrogateEscape rest = true

theorem Tells.append (h : Tells t ss) (h' : Tells t' ss') : Tells (t ++ t') (ss ++ ss') := by
  intro rest
  rw [append_assoc, h, h', ← or_assoc]
  simp only [mem_append, or_and_right, exists_or]

theorem tells_quoted (s : List Item) : Tells (quoted s) [s] := by
  intro rest
  rw [quoted, cons_append, scan_plain (by decide), append_assoc]
  simpa using scan_items s rest

/-- Outside strings there is no backslash. -/
theorem tells_of {q : Bytes} (hq : 92 ∉ q) (h : Of q t) : Tells t [] := by
  intro rest
  simp only [not_mem_nil, false_and, exists_false, false_or]
  induction t with
  | nil => rfl
  | cons c t ih =>
    rw [cons_append, scan_plain fun hc => hq (hc ▸ h c mem_cons_self)]
    exact ih fun c hc => h c (mem_cons_of_mem _ hc)

theorem tells_byte {c : UInt8} (hc : c ≠ 92) : Tells [c] [] :=
  tells_of (q := [c]) (by simpa using hc.symm) fun _ h => h

theorem Tells.between (h : Tells t ss) (ha : Tells a []) (hb : Tells b []) :
    Tells (a ++ (t ++ b)) ss := by
  simpa using ha.append (h.append hb)

theorem Derives.tells {k : Kind} (h : Derives k t ss) : Tells t ss := by
  have hws {a} (h : Of ws a) : Tells a [] := tells_of (by decide) h
  induction h with
  | scalar h => exact tells_of (by decide +kernel) h
  | string s => exact tells_quoted s
  | space ha _ hb ih => exact ih.between (hws ha) (hws hb)
  | emptyArray ha | emptyObject ha =>
    exact (hws ha).between (tells_byte (by decide)) (tells_byte (by decide))
  | array _ ih | object _ ih => exact ih.between (tells_byte (by decide)) (tells_byte (by decide))
  | element _ ih => exact ih
  | elements _ _ ih ih' | members _ _ ih ih' =>
    exact ih.append ((tells_byte (by decide)).append ih')
  | member ha k hb _ ih =>
    exact (hws ha).append ((tells_quoted k).append
      ((hws hb).append ((tells_byte (by decide)).append ih)))

/-- CORRECT: a valid document is refused exactly when one of its strings has a lone surrogate. -/
theorem lone_surrogate_found {d : Bytes} (h : Derives .value d ss) :
    hasLoneSurrogateEscape d = true ↔ ∃ s ∈ ss, Lone s := by
  have hd := h.tells []
  simpa [hasLoneSurrogateEscape] using hd

/-- Of three surrogates the second and the third are a pair. -/
theorem lone_surrogate_found_first :
    hasLoneSurrogateEscape (quoted [.unit ⟨100, 13, rfl⟩ ⟨56, 8, rfl⟩ ⟨51, 3, rfl⟩ ⟨68, 13, rfl⟩,
      .unit ⟨68, 13, rfl⟩ ⟨56, 8, rfl⟩ ⟨51, 3, rfl⟩ ⟨100, 13, rfl⟩,
      .unit ⟨68, 13, rfl⟩ ⟨69, 14, rfl⟩ ⟨48, 0, rfl⟩ ⟨48, 0, rfl⟩]) = true :=
  (lone_surrogate_found (.string _)).2
    ⟨_, mem_singleton_self _, 0, .inl ⟨⟨by decide, by decide⟩, fun h => absurd h.1 (by decide)⟩⟩

end Fallow.SiteClient
