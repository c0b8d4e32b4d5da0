import Mathlib

/-! JSON records: one object whose members are integers, strings or null.

    The writer is compact and leaves every character that needs no escape as it is. The reader takes
    any JSON text of that shape, white space and escapes included; a text of another shape, a nested
    value or a number with a fraction, is not a record and is not read.

        read (render ms ++ rest) = (ms, rest)               round trip
        a record that reads p reads p ++ q the same way     no proper beginning of a record is one -/

namespace Fallow.Lib.Json
open List Option Char

inductive Scalar where
  | null
  | int (n : ℤ)
  | str (s : List Char)
  deriving DecidableEq, Repr

abbrev Member := List Char × Scalar

/-! ### Writing -/

def digitChar (d : ℕ) : Char := ofNat (48 + d)

def decimal (n : ℕ) : List Char :=
  if n < 10 then [digitChar n] else decimal (n / 10) ++ [digitChar (n % 10)]

def renderInt (n : ℤ) : List Char := if n < 0 then '-' :: decimal n.natAbs else decimal n.natAbs

def hexDigit (d : ℕ) : Char := if d < 10 then ofNat (48 + d) else ofNat (87 + d)

/-- Quote, backslash and control characters are escaped, the common ones by a letter. -/
def escape (c : Char) : List Char :=
  if c = '"' then ['\\', '"']
  else if c = '\\' then ['\\', '\\']
  else if c = '\n' then ['\\', 'n']
  else if c = '\r' then ['\\', 'r']
  else if c = '\t' then ['\\', 't']
  else if c = '\x08' then ['\\', 'b']
  else if c = '\x0c' then ['\\', 'f']
  else if c.toNat < 32 then ['\\', 'u', '0', '0', hexDigit (c.toNat / 16), hexDigit (c.toNat % 16)]
  else [c]

def renderString (s : List Char) : List Char := '"' :: (s.flatMap escape ++ ['"'])

def renderScalar : Scalar → List Char
  | .null => ['n', 'u', 'l', 'l']
  | .int n => renderInt n
  | .str s => renderString s

def renderMember (m : Member) : List Char := renderString m.1 ++ ':' :: renderScalar m.2

def renderMembers : List Member → List Char
  | [] => []
  | [m] => renderMember m
  | m :: ms => renderMember m ++ ',' :: renderMembers ms

def render (ms : List Member) : List Char := '{' :: (renderMembers ms ++ ['}'])

/-! ### Reading -/

def isWs (c : Char) : Bool := c = ' ' ∨ c = '\t' ∨ c = '\n' ∨ c = '\r'

def skipWs (s : List Char) : List Char := s.dropWhile isWs

def isDigit (c : Char) : Bool := 48 ≤ c.toNat ∧ c.toNat ≤ 57

def ofDigits (ds : List Char) : ℕ := ds.foldl (fun n c => 10 * n + (c.toNat - 48)) 0

/-- Digits without a superfluous leading zero. -/
def natOfDigits : List Char → Option ℕ
  | [] => none
  | '0' :: _ :: _ => none
  | ds => some (ofDigits ds)

def readNat (s : List Char) : Option (ℕ × List Char) :=
  (natOfDigits (s.takeWhile isDigit)).map fun n => (n, s.dropWhile isDigit)

def readInt : List Char → Option (ℤ × List Char)
  | '-' :: s => (readNat s).map fun x => (-(x.1 : ℤ), x.2)
  | s => (readNat s).map fun x => ((x.1 : ℤ), x.2)

def hexValue (c : Char) : Option ℕ :=
  if isDigit c then some (c.toNat - 48)
  else if 97 ≤ c.toNat ∧ c.toNat ≤ 102 then some (c.toNat - 87)
  else if 65 ≤ c.toNat ∧ c.toNat ≤ 70 then some (c.toNat - 55)
  else none

def hex4 (a b c d : Char) : Option ℕ := do
  return ((← hexValue a) * 16 + (← hexValue b)) * 256 + ((← hexValue c) * 16 + (← hexValue d))

def simpleEscape (c : Char) : Option Char :=
  if c = '"' ∨ c = '\\' ∨ c = '/' then some c
  else if c = 'n' then some '\n'
  else if c = 'r' then some '\r'
  else if c = 't' then some '\t'
  else if c = 'b' then some '\x08'
  else if c = 'f' then some '\x0c'
  else none

/-- A character as it stands, or a code unit given by its number. -/
inductive Piece where
  | char (c : Char)
  | unit (u : ℕ)
  deriving DecidableEq, Repr

/-- The pieces of a string up to its closing quote. -/
def readPieces : List Char → Option (List Piece × List Char)
  | [] => none
  | '"' :: s => some ([], s)
  | '\\' :: 'u' :: a :: b :: c :: d :: s => match hex4 a b c d with
    | none => none
    | some u => (readPieces s).map fun x => (.unit u :: x.1, x.2)
  | '\\' :: e :: s => match simpleEscape e with
    | none => none
    | some c => (readPieces s).map fun x => (.char c :: x.1, x.2)
  | c :: s => if c.toNat < 32 then none else (readPieces s).map fun x => (.char c :: x.1, x.2)

def isHigh (u : ℕ) : Bool := 0xD800 ≤ u ∧ u < 0xDC00

def isLow (u : ℕ) : Bool := 0xDC00 ≤ u ∧ u < 0xE000

/-- Surrogate pairs join into one character, a lone surrogate becomes the replacement character. -/
def joinPieces : List Piece → List Char
  | [] => []
  | .char c :: ps => c :: joinPieces ps
  | .unit u :: ps =>
    if isHigh u then match ps with
      | .unit l :: ps' =>
        if isLow l then ofNat (0x10000 + (u - 0xD800) * 0x400 + (l - 0xDC00)) :: joinPieces ps'
        else '�' :: joinPieces (.unit l :: ps')
      | ps' => '�' :: joinPieces ps'
    else if isLow u then '�' :: joinPieces ps
    else ofNat u :: joinPieces ps

def readString (s : List Char) : Option (List Char × List Char) :=
  (readPieces s).map fun x => (joinPieces x.1, x.2)

def readScalar : List Char → Option (Scalar × List Char)
  | '"' :: s => (readString s).map fun x => (.str x.1, x.2)
  | 'n' :: 'u' :: 'l' :: 'l' :: s => some (.null, s)
  | s => (readInt s).map fun x => (.int x.1, x.2)

/-- A key, a colon and a scalar, white space around them. -/
def readMember (s : List Char) : Option (Member × List Char) :=
  match skipWs s with
  | '"' :: s => match readString s with
    | none => none
    | some (k, s) => match skipWs s with
      | ':' :: s => (readScalar (skipWs s)).map fun x => ((k, x.1), x.2)
      | _ => none
  | _ => none

/-- Members up to the closing brace; every member takes at least one character of fuel. -/
def readMembers : ℕ → List Char → Option (List Member × List Char)
  | 0, _ => none
  | fuel + 1, s => match readMember s with
    | none => none
    | some (m, s) => match skipWs s with
      | ',' :: s => (readMembers fuel s).map fun x => (m :: x.1, x.2)
      | '}' :: s => some ([m], s)
      | _ => none

def readRecord (s : List Char) : Option (List Member × List Char) :=
  match skipWs s with
  | '{' :: s => match skipWs s with
    | '}' :: s => some ([], s)
    | s => readMembers s.length s
  | _ => none

/-- A text that is one record and nothing else. -/
def parse (s : List Char) : Option (List Member) :=
  match readRecord s with
  | some (ms, rest) => if (skipWs rest).isEmpty then some ms else none
  | none => none

/-! ### Numbers -/

variable {d : ℕ}

theorem toNat_digitChar (h : d < 10) : (digitChar d).toNat = 48 + d := by
  have hall : ∀ d < 10, (digitChar d).toNat = 48 + d := by decide
  exact hall d h

theorem isDigit_digitChar (h : d < 10) : isDigit (digitChar d) = true := by
  simp only [isDigit, toNat_digitChar h, decide_eq_true_eq]
  omega

theorem isDigit_of_mem_decimal (n : ℕ) : ∀ c ∈ decimal n, isDigit c = true := by
  induction n using decimal.induct with
  | case1 n h =>
    intro c hc
    rw [decimal, if_pos h] at hc
    rw [mem_singleton.mp hc]; exact isDigit_digitChar h
  | case2 n h ih =>
    intro c hc
    rw [decimal, if_neg h] at hc
    rcases mem_append.mp hc with hc | hc
    · exact ih c hc
    · rw [mem_singleton.mp hc]; exact isDigit_digitChar (by omega)

theorem ofDigits_decimal (n : ℕ) : ofDigits (decimal n) = n := by
  induction n using decimal.induct with
  | case1 n h => rw [decimal, if_pos h]; simp [ofDigits, toNat_digitChar h]
  | case2 n h ih =>
    rw [decimal, if_neg h]
    simp only [ofDigits, foldl_append, foldl_cons, foldl_nil] at ih ⊢
    rw [ih, toNat_digitChar (by omega)]
    omega

/-- A decimal starts with a zero only if it is one. -/
theorem decimal_shape (n : ℕ) : decimal n = ['0'] ∨ ∃ c cs, decimal n = c :: cs ∧ c ≠ '0' := by
  induction n using decimal.induct with
  | case1 n h =>
    rw [decimal, if_pos h]
    by_cases h0 : n = 0
    · rw [h0]; exact .inl rfl
    refine .inr ⟨_, [], rfl, fun hc => ?_⟩
    have := toNat_digitChar h
    rw [hc] at this
    have : ('0' : Char).toNat = 48 := rfl
    omega
  | case2 n h ih =>
    rw [decimal, if_neg h]
    rcases ih with hz | ⟨c, cs, hcs, hc⟩
    · -- the leading digits of a number of two digits are not zero
      have := ofDigits_decimal (n / 10)
      rw [hz] at this
      have : ofDigits ['0'] = 0 := rfl
      omega
    · exact .inr ⟨c, cs ++ [digitChar (n % 10)], by rw [hcs]; rfl, hc⟩

/-- What may follow a number: nothing, or a character that is no digit. -/
def Stops (s : List Char) : Prop := ∀ c ∈ s.head?, isDigit c = false

variable {s : List Char} {n : ℕ} {c : Char} {v : Scalar} {m : Member}

theorem takeWhile_digits (hd : ∀ c ∈ ds, isDigit c = true) (hs : Stops s) :
    (ds ++ s).takeWhile isDigit = ds ∧ (ds ++ s).dropWhile isDigit = s := by
  induction ds with
  | nil =>
    cases s with
    | nil => exact ⟨rfl, rfl⟩
    | cons c s =>
      have hc := hs c rfl
      simp [hc]
  | cons d ds ih =>
    have hd₀ := hd d mem_cons_self
    obtain ⟨h₁, h₂⟩ := ih fun c hc => hd c (mem_cons_of_mem _ hc)
    simp [hd₀, h₁, h₂]

theorem natOfDigits_decimal (n : ℕ) : natOfDigits (decimal n) = some n := by
  have hval := ofDigits_decimal n
  rcases decimal_shape n with hz | ⟨c, cs, hcs, hc⟩
  · rw [hz] at hval ⊢
    rw [natOfDigits, hval]
    · exact nofun
    · exact nofun
  · rw [hcs] at hval ⊢
    rw [natOfDigits, hval]
    · exact nofun
    · intro _ _ h; exact absurd (cons.inj h).1 hc

theorem readNat_decimal (hs : Stops s) : readNat (decimal n ++ s) = some (n, s) := by
  obtain ⟨h₁, h₂⟩ := takeWhile_digits (isDigit_of_mem_decimal n) hs
  rw [readNat, h₁, h₂, natOfDigits_decimal]; rfl

theorem readInt_renderInt (n : ℤ) (hs : Stops s) : readInt (renderInt n ++ s) = some (n, s) := by
  unfold renderInt
  by_cases hneg : n < 0
  · rw [if_pos hneg]
    simp only [cons_append, readInt, readNat_decimal hs, map_some]
    rw [show -(n.natAbs : ℤ) = n by omega]
  · rw [if_neg hneg, readInt.eq_def]
    split
    · -- a decimal does not start with a sign
      rename_i s' hs'
      have hmem : '-' ∈ decimal n.natAbs := by
        rcases decimal_shape n.natAbs with hz | ⟨c, cs, hcs, -⟩
        · rw [hz] at hs'; simp at hs'
        · rw [hcs] at hs' ⊢
          rw [(cons.inj hs').1]; exact mem_cons_self
      exact absurd (isDigit_of_mem_decimal _ _ hmem) (by decide)
    · rw [readNat_decimal hs]
      simp only [map_some]
      rw [show (n.natAbs : ℤ) = n by omega]

/-! ### Strings -/

theorem hexValue_hexDigit (h : d < 16) : hexValue (hexDigit d) = some d := by
  have hall : ∀ d < 16, hexValue (hexDigit d) = some d := by decide
  exact hall d h

/-- The piece a character is read back as. -/
def pieceOf (c : Char) : Piece :=
  if c.toNat < 32 ∧ c ≠ '\n' ∧ c ≠ '\r' ∧ c ≠ '\t' ∧ c ≠ '\x08' ∧ c ≠ '\x0c' then .unit c.toNat
  else .char c

/-- A string without escapes grows by its quotes only. -/
theorem length_renderString (h : ∀ c ∈ s, escape c = [c]) :
    (renderString s).length = s.length + 2 := by
  have hflat : s.flatMap escape = s := by
    induction s with
    | nil => rfl
    | cons c s ih =>
      rw [flatMap_cons, h c mem_cons_self,
        ih fun d hd => h d (mem_cons_of_mem _ hd), singleton_append]
  rw [renderString, hflat, length_cons, length_append]
  rfl

theorem readPieces_plain (hq : c ≠ '"') (hb : c ≠ '\\') (hc : ¬ c.toNat < 32)
    : readPieces (c :: s) = (readPieces s).map fun x => (.char c :: x.1, x.2) := by
  rw [readPieces, if_neg hc]
  · exact hq
  · intro _ _ _ _ _ h; exact absurd h hb
  · intro _ _ h; exact absurd h hb

theorem readPieces_escape :
    readPieces (escape c ++ s) = (readPieces s).map fun x => (pieceOf c :: x.1, x.2) := by
  unfold escape
  by_cases h₁ : c = '"'
  · subst h₁; rfl
  by_cases h₂ : c = '\\'
  · subst h₂; rfl
  by_cases h₃ : c = '\n'
  · subst h₃; rfl
  by_cases h₄ : c = '\r'
  · subst h₄; rfl
  by_cases h₅ : c = '\t'
  · subst h₅; rfl
  by_cases h₆ : c = '\x08'
  · subst h₆; rfl
  by_cases h₇ : c = '\x0c'
  · subst h₇; rfl
  by_cases h₈ : c.toNat < 32
  · have hhex : hex4 '0' '0' (hexDigit (c.toNat / 16)) (hexDigit (c.toNat % 16)) = some c.toNat := by
      have h₀ : hexValue '0' = some 0 := rfl
      simp only [hex4, h₀, hexValue_hexDigit (show c.toNat / 16 < 16 by omega),
        hexValue_hexDigit (show c.toNat % 16 < 16 by omega), Option.pure_def, bind_eq_bind,
        bind_some]
      congr 1; omega
    simp only [h₁, h₂, h₃, h₄, h₅, h₆, h₇, h₈, if_true, if_false, cons_append, nil_append]
    rw [readPieces, hhex, pieceOf, if_pos ⟨h₈, h₃, h₄, h₅, h₆, h₇⟩]
  · simp only [h₁, h₂, h₃, h₄, h₅, h₆, h₇, h₈, if_false, cons_append, nil_append]
    rw [readPieces_plain h₁ h₂ h₈, pieceOf, if_neg fun h => h₈ h.1]

theorem joinPieces_map_pieceOf : ∀ s : List Char, joinPieces (s.map pieceOf) = s
  | [] => rfl
  | c :: s => by
    have ih := joinPieces_map_pieceOf s
    rw [map_cons, pieceOf]
    split
    · rename_i h
      have hhigh : isHigh c.toNat = false := by simp only [isHigh, decide_eq_false_iff_not]; omega
      have hlow : isLow c.toNat = false := by simp only [isLow, decide_eq_false_iff_not]; omega
      unfold joinPieces
      simp only [hhigh, hlow, Bool.false_eq_true, if_false, ih, ofNat_toNat]
    · rw [joinPieces, ih]

/-- CORRECT: a rendered string reads back, whatever follows it. -/
theorem readString_render (k s : List Char) :
    readString (k.flatMap escape ++ '"' :: s) = some (k, s) := by
  have hpieces : ∀ k : List Char,
      readPieces (k.flatMap escape ++ '"' :: s) = some (k.map pieceOf, s) := by
    intro k
    induction k with
    | nil => rfl
    | cons c k ih =>
      rw [flatMap_cons, append_assoc, readPieces_escape, ih]; rfl
  rw [readString, hpieces, map_some, joinPieces_map_pieceOf]

/-! ### Records -/

theorem readScalar_render (hs : Stops s) : readScalar (renderScalar v ++ s) = some (v, s) := by
  cases v with
  | null => rfl
  | str k =>
    simp only [renderScalar, renderString, cons_append, append_assoc, readScalar]
    rw [nil_append, readString_render]; rfl
  | int n =>
    have hread := readInt_renderInt n hs
    simp only [renderScalar]
    rw [readScalar.eq_def]
    split
    · rename_i t ht; rw [ht] at hread; cases hread
    · rename_i t ht; rw [ht] at hread; cases hread
    · rw [hread]; rfl

theorem skipWs_cons (hc : isWs c = false) : skipWs (c :: s) = c :: s := by
  simp [skipWs, hc]

/-- No scalar starts with white space. -/
theorem skipWs_renderScalar : skipWs (renderScalar v ++ s) = renderScalar v ++ s := by
  cases v with
  | null => rfl
  | str k => rfl
  | int n =>
    have hdec : ∀ m, skipWs (decimal m ++ s) = decimal m ++ s := by
      intro m
      have hws : ∀ c, isDigit c = true → isWs c = false := by
        intro c hc
        simp only [isWs, decide_eq_false_iff_not]
        rintro (rfl | rfl | rfl | rfl) <;> exact absurd hc (by decide)
      cases hd : decimal m with
      | nil => rcases decimal_shape m with h | ⟨c, cs, h, -⟩ <;> rw [hd] at h <;> cases h
      | cons c cs =>
        exact skipWs_cons (hws c (isDigit_of_mem_decimal m c (hd ▸ mem_cons_self)))
    simp only [renderScalar, renderInt]
    split
    · rfl
    · exact hdec _

theorem readMember_render (hs : Stops s) : readMember (renderMember m ++ s) = some (m, s) := by
  obtain ⟨k, v⟩ := m
  have htext : renderMember (k, v) ++ s = '"' :: (k.flatMap escape ++ '"' :: ':' :: (renderScalar v ++ s)) := by
    simp [renderMember, renderString]
  rw [htext, readMember, skipWs_cons (by decide)]
  simp only [readString_render]
  rw [skipWs_cons (by decide)]
  simp only [skipWs_renderScalar, readScalar_render hs, map_some]

theorem readMembers_render : ∀ (ms : List Member) (fuel : ℕ) (s : List Char), ms ≠ [] →
    ms.length ≤ fuel → readMembers fuel (renderMembers ms ++ '}' :: s) = some (ms, s)
  | [], _, _, h, _ => absurd rfl h
  | m :: ms, 0, _, _, h => absurd h (by simp)
  | [m], fuel + 1, s, _, _ => by
    have hstop : Stops ('}' :: s) := by intro c hc; cases hc; decide
    rw [renderMembers, readMembers, readMember_render hstop]
    simp only [skipWs_cons (show isWs '}' = false by decide)]
  | m :: m' :: ms, fuel + 1, s, _, h => by
    have hstop : ∀ s, Stops (',' :: s) := by intro s c hc; cases hc; decide
    have ih := readMembers_render (m' :: ms) fuel s (by simp) (by simpa using h)
    rw [renderMembers]
    · rw [append_assoc, cons_append, readMembers, readMember_render (hstop _)]
      simp only [skipWs_cons (show isWs ',' = false by decide), ih, map_some]
    · simp

theorem length_le_renderMembers : ∀ ms : List Member, ms.length ≤ (renderMembers ms).length
  | [] => Nat.le_refl 0
  | [m] => by simp [renderMembers, renderMember, renderString]
  | m :: m' :: ms => by
    have ih := length_le_renderMembers (m' :: ms)
    rw [renderMembers]
    · simp only [length_append, length_cons] at ih ⊢
      omega
    · simp

/-- CORRECT: a rendered record reads back, whatever follows it. -/
theorem readRecord_render (ms : List Member) (s : List Char) :
    readRecord (render ms ++ s) = some (ms, s) := by
  have htext : render ms ++ s = '{' :: (renderMembers ms ++ '}' :: s) := by simp [render]
  rw [htext, readRecord, skipWs_cons (by decide)]
  cases ms with
  | nil => rfl
  | cons m ms =>
    have hlen := length_le_renderMembers (m :: ms)
    have hread := readMembers_render (m :: ms) (renderMembers (m :: ms) ++ '}' :: s).length s
      (by simp) (by rw [length_append]; omega)
    -- the first character is the quote of a key
    obtain ⟨t, ht⟩ : ∃ t, renderMembers (m :: ms) ++ '}' :: s = '"' :: t := by
      cases ms <;> exact ⟨_, rfl⟩
    rw [ht] at hread ⊢
    exact hread

/-! ### Beginnings of records -/

section
variable {q s r : List Char} {c : Char} {ms : List Member}

/-- What a reader makes of a value, it makes of it before a longer rest. -/
theorem read_append {β γ : Type} {x y : Option (β × List Char)} {f : β → γ} {e : γ}
    (h : x.map (fun x => (f x.1, x.2)) = some (e, r))
    (hx : ∀ {b}, x = some (b, r) → y = some (b, r ++ q)) :
    y.map (fun x => (f x.1, x.2)) = some (e, r ++ q) := by
  obtain ⟨⟨b, r'⟩, hr, he⟩ := map_eq_some_iff.mp h
  cases he
  rw [hx hr, map_some]

theorem skipWs_append (h : skipWs s = c :: r) : skipWs (s ++ q) = c :: (r ++ q) := by
  rw [skipWs, dropWhile_append]
  rw [show s.dropWhile isWs = c :: r from h]; rfl

theorem readPieces_simple (hx : simpleEscape e = some c) :
    readPieces ('\\' :: e :: s) = (readPieces s).map fun x => (.char c :: x.1, x.2) := by
  have hu : simpleEscape 'u' = none := by decide
  rw [readPieces, hx]
  rintro _ _ _ _ _ rfl
  rw [hu] at hx; cases hx

theorem readPieces_append : ∀ {s : List Char} {ps : List Piece} {r : List Char},
    readPieces s = some (ps, r) → readPieces (s ++ q) = some (ps, r ++ q) := by
  intro s
  induction s using readPieces.induct with
  | case1 => intro ps r h; cases h
  | case2 s => intro ps r h; cases h; rfl
  | case3 a b c d s hx =>
    intro ps r h
    rw [readPieces, hx] at h; cases h
  | case4 a b c d s u hx ih =>
    intro ps r h
    rw [readPieces, hx] at h
    simp only [cons_append]
    rw [readPieces, hx]
    exact read_append h ih
  | case5 e s hnot hx =>
    intro ps r h
    rw [readPieces, hx] at h
    · cases h
    · exact hnot
  | case6 e s hnot c hx ih =>
    intro ps r h
    rw [readPieces_simple hx] at h
    rw [cons_append, cons_append, readPieces_simple hx]
    exact read_append h ih
  | case7 c s h₁ h₂ h₃ hc =>
    intro ps r h
    rw [readPieces, if_pos hc] at h
    · cases h
    · exact h₁
    · exact h₂
    · exact h₃
  | case8 c s h₁ h₂ h₃ hc ih =>
    intro ps r h
    have hb : c ≠ '\\' := by
      rintro rfl
      cases s with
      | nil => cases h
      | cons e s => exact h₃ e s rfl rfl
    rw [readPieces_plain h₁ hb hc] at h
    rw [cons_append, readPieces_plain h₁ hb hc]
    exact read_append h ih

theorem readString_append (h : readString s = some (k, r)) :
    readString (s ++ q) = some (k, r ++ q) :=
  read_append h readPieces_append

/-- A number is read the same way once the character after it is there. -/
theorem readNat_append (h : readNat s = some (n, c :: r)) :
    readNat (s ++ q) = some (n, c :: (r ++ q)) := by
  obtain ⟨n', hn, he⟩ := map_eq_some_iff.mp h
  obtain ⟨rfl, hdrop⟩ := Prod.mk.inj he
  have htake : (s ++ q).takeWhile isDigit = s.takeWhile isDigit := by
    rw [takeWhile_append, if_neg]
    intro hlen
    have := congrArg length (takeWhile_append_dropWhile (p := isDigit) (l := s))
    rw [length_append, hdrop, length_cons] at this
    omega
  rw [readNat, htake, hn, dropWhile_append, hdrop]; rfl

theorem readInt_append {n : ℤ} (h : readInt s = some (n, c :: r)) :
    readInt (s ++ q) = some (n, c :: (r ++ q)) := by
  rw [readInt.eq_def] at h
  split at h
  · rw [cons_append, readInt]
    exact read_append (f := fun n : ℕ => -(n : ℤ)) h readNat_append
  · rename_i hsign
    rw [readInt]
    · exact read_append h readNat_append
    · intro t ht
      cases s with
      | nil => cases h
      | cons d s => exact hsign s (by rw [(cons.inj ht).1])

theorem readScalar_append
    (h : readScalar s = some (v, c :: r)) : readScalar (s ++ q) = some (v, c :: (r ++ q)) := by
  rw [readScalar.eq_def] at h
  split at h
  · rw [cons_append, readScalar]
    exact read_append h readString_append
  · cases h; rfl
  · rename_i hquote hnull
    rw [readScalar]
    · exact read_append h readInt_append
    · intro t ht
      cases s with
      | nil => cases h
      | cons d s => exact hquote s (by rw [(cons.inj ht).1])
    · intro t ht
      cases s with
      | nil => cases h
      | cons d s =>
        -- an integer does not start with the letter of a literal
        rw [(cons.inj ht).1] at h; cases h

theorem readMember_append
    (h : readMember s = some (m, c :: r)) : readMember (s ++ q) = some (m, c :: (r ++ q)) := by
  unfold readMember at h ⊢
  split at h
  · rename_i s₁ h₁
    rw [skipWs_append h₁]
    split at h
    · cases h
    rename_i k s₂ h₂
    simp only [readString_append h₂]
    split at h
    · rename_i s₃ h₃
      simp only [skipWs_append h₃]
      cases hw : skipWs s₃ with
      | nil => rw [hw] at h; cases h
      | cons d t =>
        rw [hw] at h
        rw [skipWs_append hw]
        exact read_append h readScalar_append
    · cases h
  · cases h

theorem readMembers_append : ∀ {fuel fuel' : ℕ} {s r : List Char} {ms : List Member},
    fuel ≤ fuel' → readMembers fuel s = some (ms, r) →
      readMembers fuel' (s ++ q) = some (ms, r ++ q)
  | 0, _, _, _, _, _, h => by cases h
  | fuel + 1, 0, _, _, _, hle, _ => absurd hle (by omega)
  | fuel + 1, fuel' + 1, s, r, ms, hle, h => by
    rw [readMembers] at h
    split at h
    · cases h
    rename_i m s₁ h₁
    -- a member is followed by a comma or the brace, so its rest is not empty
    have hmem : ∀ c t, s₁ = c :: t → readMember (s ++ q) = some (m, s₁ ++ q) := by
      rintro c t rfl
      exact readMember_append h₁
    have hne : ∃ c t, s₁ = c :: t := by
      cases s₁ with
      | nil => cases h
      | cons c t => exact ⟨c, t, rfl⟩
    obtain ⟨c, t, hct⟩ := hne
    rw [readMembers, hmem c t hct]
    split at h
    · rename_i s₂ h₂
      simp only [skipWs_append h₂]
      exact read_append h (readMembers_append (Nat.le_of_succ_le_succ hle))
    · rename_i s₂ h₂
      cases h
      simp only [skipWs_append h₂]
    · cases h

theorem readRecord_append (h : readRecord s = some (ms, r)) :
    readRecord (s ++ q) = some (ms, r ++ q) := by
  unfold readRecord at h ⊢
  split at h
  · rename_i s₁ h₁
    rw [skipWs_append h₁]
    simp only
    split at h
    · rename_i s₂ h₂
      cases h
      simp only [skipWs_append h₂]
    · rename_i hbrace
      cases hw : skipWs s₁ with
      | nil => rw [hw] at h; cases h
      | cons c t =>
        rw [hw] at h hbrace
        rw [skipWs_append hw]
        split
        · rename_i s₂ h₂
          exact (hbrace t (by rw [(cons.inj h₂).1])).elim
        · rw [← cons_append]
          exact readMembers_append (by rw [length_append]; omega) h
  · cases h

/-- CORRECT: no proper beginning of a record is a record. -/
theorem parse_beginning (hs : readRecord s = some (ms, []))
    (hp : p <+: s) (hne : p ≠ s) : parse p = none := by
  obtain ⟨q, rfl⟩ := hp
  unfold parse
  split
  · rename_i ms' r hr
    have := readRecord_append (q := q) hr
    rw [hs] at this
    have hrq : r ++ q = [] := (Prod.mk.inj (some.inj this)).2.symm
    rw [(append_eq_nil_iff.mp hrq).2, append_nil] at hne
    exact absurd rfl hne
  · rfl

theorem parse_render (ms : List Member) : parse (render ms) = some ms := by
  have h := readRecord_render ms []
  rw [append_nil] at h
  rw [parse, h]; rfl

end

end Fallow.Lib.Json
