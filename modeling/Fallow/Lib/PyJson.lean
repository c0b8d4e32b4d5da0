import Fallow.Lib.PyText

/-! The `json` module of Python: values as trees, `dumps` in ASCII and `loads`.

    Strings are lists of code points, as in Python; a character outside the printable ASCII range is
    written as one `\uXXXX` escape, or as a surrogate pair. Numbers are integers or floats; floats
    are a type with the two conversions Python has for them, of which only this is used: the text of
    a finite float is a number with a fraction or an exponent, and reads back as that float.

        readValue depth (render v ++ rest) = (v, rest)     for height v ≤ depth
        loads (render v) = v

    The reader of a comma-separated list takes the reader of its items as an argument, so that the
    depth bounds the nesting and nothing else. -/

namespace Fallow.Lib.PyJson
open Json List Option

/-- A Python string. -/
abbrev Str := List ℕ

/-- `str.isspace` of one code point. -/
def isSpaceCode (c : ℕ) : Bool :=
  (9 ≤ c ∧ c ≤ 13) ∨ (0x1C ≤ c ∧ c ≤ 0x20) ∨ c = 0x85 ∨ c = 0xA0 ∨ c = 0x1680 ∨
    (0x2000 ≤ c ∧ c ≤ 0x200A) ∨ c = 0x2028 ∨ c = 0x2029 ∨ c = 0x202F ∨ c = 0x205F ∨ c = 0x3000

/-- `not s.strip()`. -/
def blank (s : Str) : Bool := s.all isSpaceCode

/-- A string of Unicode scalar values: no surrogates. -/
def Scalar (s : Str) : Prop := ∀ c ∈ s, c < 0xD800 ∨ (0xE000 ≤ c ∧ c < 0x110000)

instance (s : Str) : Decidable (Scalar s) := inferInstanceAs (Decidable (∀ c ∈ s, _))

/-! ### Number tokens -/

/-- A number as it is spelled: sign, digits, fraction, exponent with its own sign. -/
structure Lit where
  neg : Bool
  whole : List Char
  frac : Option (List Char)
  exp : Option (Char × List Char × List Char)
  deriving DecidableEq

def Lit.signText (l : Lit) : List Char := if l.neg then ['-'] else []

def Lit.fracText (l : Lit) : List Char := match l.frac with
  | none => []
  | some ds => '.' :: ds

def Lit.expText (l : Lit) : List Char := match l.exp with
  | none => []
  | some (e, sign, ds) => e :: (sign ++ ds)

def Lit.text (l : Lit) : List Char := l.signText ++ (l.whole ++ (l.fracText ++ l.expText))

def Lit.isFloat (l : Lit) : Bool := l.frac.isSome || l.exp.isSome

def Digits (ds : List Char) : Prop := ds ≠ [] ∧ ∀ c ∈ ds, isDigit c = true

structure Lit.Wf (l : Lit) : Prop where
  whole : Digits l.whole
  leading : l.whole = ['0'] ∨ l.whole.head? ≠ some '0'
  frac : ∀ ds, l.frac = some ds → Digits ds
  exp : ∀ e sign ds, l.exp = some (e, sign, ds) →
    (e = 'e' ∨ e = 'E') ∧ (sign = [] ∨ sign = ['+'] ∨ sign = ['-']) ∧ Digits ds

def lexWhole : List Char → Option (List Char × List Char)
  | '0' :: s => some (['0'], s)
  | s => match s.takeWhile isDigit with
    | [] => none
    | ds => some (ds, s.dropWhile isDigit)

/-- A point without a digit after it is not part of the number. -/
def lexFrac : List Char → Option (List Char) × List Char
  | '.' :: s => match s.takeWhile isDigit with
    | [] => (none, '.' :: s)
    | ds => (some ds, s.dropWhile isDigit)
  | s => (none, s)

def lexSign : List Char → List Char × List Char
  | '+' :: s => (['+'], s)
  | '-' :: s => (['-'], s)
  | s => ([], s)

def lexExp : List Char → Option (Char × List Char × List Char) × List Char
  | [] => (none, [])
  | c :: s =>
    if c = 'e' ∨ c = 'E' then
      match (lexSign s).2.takeWhile isDigit with
      | [] => (none, c :: s)
      | ds => (some (c, (lexSign s).1, ds), (lexSign s).2.dropWhile isDigit)
    else (none, c :: s)

def lexNeg : List Char → Bool × List Char
  | '-' :: s => (true, s)
  | s => (false, s)

def lexNumber (s : List Char) : Option (Lit × List Char) :=
  match lexWhole (lexNeg s).2 with
  | none => none
  | some (whole, s') =>
    some (⟨(lexNeg s).1, whole, (lexFrac s').1, (lexExp (lexFrac s').2).1⟩, (lexExp (lexFrac s').2).2)

/-- What may follow a number. -/
def Ends (s : List Char) : Prop :=
  ∀ c ∈ s.head?, isDigit c = false ∧ c ≠ '.' ∧ c ≠ 'e' ∧ c ≠ 'E'

variable {s : List Char}

theorem Ends.stops (h : Ends s) : Stops s := fun c hc => (h c hc).1

variable {ds sign : List Char}

theorem digits_cases (h : Digits ds) : ∃ d ds', ds = d :: ds' ∧ isDigit d = true := by
  cases ds with
  | nil => exact absurd rfl h.1
  | cons d ds' => exact ⟨d, ds', rfl, h.2 d mem_cons_self⟩

theorem lexWhole_digits (h : Digits ds)
    (hl : ds = ['0'] ∨ ds.head? ≠ some '0') (hs : Stops s) : lexWhole (ds ++ s) = some (ds, s) := by
  rcases hl with rfl | hl
  · rfl
  obtain ⟨d, ds', rfl, hd⟩ := digits_cases h
  obtain ⟨h₁, h₂⟩ := takeWhile_digits h.2 hs
  rw [lexWhole, h₁, h₂]
  intro s' hs'
  exact absurd (congrArg some (cons.inj hs').1) hl

theorem lexFrac_some (h : Digits ds) (hs : Stops s) :
    lexFrac ('.' :: (ds ++ s)) = (some ds, s) := by
  obtain ⟨h₁, h₂⟩ := takeWhile_digits h.2 hs
  obtain ⟨d, ds', rfl, -⟩ := digits_cases h
  rw [lexFrac, h₁, h₂]

theorem lexFrac_none (h : ∀ c ∈ s.head?, c ≠ '.') : lexFrac s = (none, s) := by
  cases s with
  | nil => rfl
  | cons c s =>
    rw [lexFrac]
    rintro s' ⟨⟩
    exact h '.' rfl rfl

theorem lexSign_append (hs : sign = [] ∨ sign = ['+'] ∨ sign = ['-'])
    (h : Digits ds) : lexSign (sign ++ (ds ++ s)) = (sign, ds ++ s) := by
  obtain ⟨d, ds', rfl, hd⟩ := digits_cases h
  rcases hs with rfl | rfl | rfl
  · rw [nil_append, cons_append, lexSign]
    · rintro s' ⟨⟩
      cases hd
    · rintro s' ⟨⟩
      cases hd
  · rfl
  · rfl

theorem lexExp_some (he : e = 'e' ∨ e = 'E')
    (hs : sign = [] ∨ sign = ['+'] ∨ sign = ['-']) (h : Digits ds) (hr : Stops s) :
    lexExp (e :: (sign ++ (ds ++ s))) = (some (e, sign, ds), s) := by
  obtain ⟨h₁, h₂⟩ := takeWhile_digits h.2 hr
  obtain ⟨d, ds', rfl, -⟩ := digits_cases h
  rw [lexExp, if_pos he, lexSign_append hs h]
  rw [h₁, h₂]

theorem lexExp_none (h : ∀ c ∈ s.head?, c ≠ 'e' ∧ c ≠ 'E') : lexExp s = (none, s) := by
  cases s with
  | nil => rfl
  | cons c s =>
    have hc := h c rfl
    rw [lexExp, if_neg (by simp [hc.1, hc.2])]

variable {l : Lit} {y : List Char}

/-- CORRECT: a number is read as it is spelled. -/
theorem lexNumber_text (h : l.Wf) (hs : Ends s) : lexNumber (l.text ++ s) = some (l, s) := by
  obtain ⟨d, ds', hw, hd⟩ := digits_cases h.whole
  have hneg : lexNeg (l.text ++ s) = (l.neg, l.whole ++ (l.fracText ++ (l.expText ++ s))) := by
    rw [Lit.text, Lit.signText]
    cases l.neg with
    | true => simp [lexNeg]
    | false =>
      simp only [Bool.false_eq_true, if_false, nil_append, hw, cons_append, append_assoc]
      rw [lexNeg]
      rintro s' ⟨⟩
      cases hd
  have hexp : lexExp (l.expText ++ s) = (l.exp, s) := by
    rw [Lit.expText]
    cases hl : l.exp with
    | none => exact lexExp_none fun c hc => ⟨(hs c hc).2.2.1, (hs c hc).2.2.2⟩
    | some x =>
      obtain ⟨e, sign, ds⟩ := x
      obtain ⟨he, hsign, hds⟩ := h.exp e sign ds hl
      simp only [cons_append, append_assoc]
      exact lexExp_some he hsign hds hs.stops
  -- neither an exponent nor what follows the number starts with a digit or a point
  have hafter : ∀ c ∈ (l.expText ++ s).head?, isDigit c = false ∧ c ≠ '.' := by
    rw [Lit.expText]
    intro c hc
    cases hl : l.exp with
    | none =>
      rw [hl] at hc
      exact ⟨(hs c hc).1, (hs c hc).2.1⟩
    | some x =>
      obtain ⟨e, sign, ds⟩ := x
      obtain ⟨he, -, -⟩ := h.exp e sign ds hl
      obtain rfl : e = c := by simpa [hl] using hc
      rcases he with rfl | rfl
      · decide
      · decide
  have hfrac : lexFrac (l.fracText ++ (l.expText ++ s)) = (l.frac, l.expText ++ s) ∧
      Stops (l.fracText ++ (l.expText ++ s)) := by
    rw [Lit.fracText]
    cases hl : l.frac with
    | none => exact ⟨lexFrac_none fun c hc => (hafter c hc).2, fun c hc => (hafter c hc).1⟩
    | some ds =>
      refine ⟨lexFrac_some (h.frac ds hl) fun c hc => (hafter c hc).1, fun c hc => ?_⟩
      obtain rfl : '.' = c := by simpa using hc
      rfl
  rw [lexNumber, hneg]
  rw [lexWhole_digits h.whole h.leading hfrac.2]
  dsimp only
  rw [hfrac.1]
  rw [hexp]

/-! ### Strings -/

def unitEscape (u : ℕ) : List Char :=
  ['\\', 'u', hexDigit (u / 4096), hexDigit (u / 256 % 16), hexDigit (u / 16 % 16), hexDigit (u % 16)]

/-- Code units of a code point beyond the basic plane. -/
def highUnit (c : ℕ) : ℕ := 0xD800 + (c - 0x10000) / 0x400

def lowUnit (c : ℕ) : ℕ := 0xDC00 + (c - 0x10000) % 0x400

/-- The characters with an escape of their own. -/
def shortEscape (c : ℕ) : Option Char :=
  if c = 34 then some '"'
  else if c = 92 then some '\\'
  else if c = 10 then some 'n'
  else if c = 13 then some 'r'
  else if c = 9 then some 't'
  else if c = 12 then some 'f'
  else if c = 8 then some 'b'
  else none

/-- `ensure_ascii`: printable ASCII stands for itself. -/
def escapeCode (c : ℕ) : List Char :=
  match shortEscape c with
  | some e => ['\\', e]
  | none =>
    if 32 ≤ c ∧ c ≤ 126 then [Char.ofNat c]
    else if c < 0x10000 then unitEscape c
    else unitEscape (highUnit c) ++ unitEscape (lowUnit c)

def renderStr (s : Str) : List Char := '"' :: (s.flatMap escapeCode ++ ['"'])

/-- Surrogate pairs join into one code point, a lone surrogate stays. -/
def joinCodes : List Piece → Str
  | [] => []
  | .char c :: ps => c.toNat :: joinCodes ps
  | .unit u :: .unit l :: ps =>
    if isHigh u ∧ isLow l then (0x10000 + (u - 0xD800) * 0x400 + (l - 0xDC00)) :: joinCodes ps
    else u :: joinCodes (.unit l :: ps)
  | .unit u :: ps => u :: joinCodes ps

/-- The rest of a string after its opening quote. -/
def readStr (s : List Char) : Option (Str × List Char) :=
  (readPieces s).map fun x => (joinCodes x.1, x.2)

/-- The pieces a code point is read back as. -/
def piecesOf (c : ℕ) : List Piece :=
  if (shortEscape c).isSome ∨ (32 ≤ c ∧ c ≤ 126) then [.char (Char.ofNat c)]
  else if c < 0x10000 then [.unit c]
  else [.unit (highUnit c), .unit (lowUnit c)]

theorem readPieces_unitEscape (hu : u < 0x10000) :
    readPieces (unitEscape u ++ s) = (readPieces s).map fun x => (.unit u :: x.1, x.2) := by
  have hhex : hex4 (hexDigit (u / 4096)) (hexDigit (u / 256 % 16)) (hexDigit (u / 16 % 16))
      (hexDigit (u % 16)) = some u := by
    simp only [hex4, hexValue_hexDigit (show u / 4096 < 16 by omega),
      hexValue_hexDigit (show u / 256 % 16 < 16 by omega),
      hexValue_hexDigit (show u / 16 % 16 < 16 by omega),
      hexValue_hexDigit (show u % 16 < 16 by omega), Option.pure_def, Option.bind_eq_bind,
      Option.bind_some]
    congr 1
    omega
  rw [unitEscape, cons_append, cons_append, cons_append, cons_append,
    cons_append, cons_append, nil_append, readPieces, hhex]

variable {c : ℕ}

theorem readPieces_shortEscape (h : shortEscape c = some e) : readPieces ('\\' :: e :: s)
      = (readPieces s).map fun x => (.char (Char.ofNat c) :: x.1, x.2) := by
  unfold shortEscape at h
  by_cases h₁ : c = 34
  · subst h₁; cases h; rfl
  by_cases h₂ : c = 92
  · subst h₂; cases h; rfl
  by_cases h₃ : c = 10
  · subst h₃; cases h; rfl
  by_cases h₄ : c = 13
  · subst h₄; cases h; rfl
  by_cases h₅ : c = 9
  · subst h₅; cases h; rfl
  by_cases h₆ : c = 12
  · subst h₆; cases h; rfl
  by_cases h₇ : c = 8
  · subst h₇; cases h; rfl
  · simp only [h₁, h₂, h₃, h₄, h₅, h₆, h₇, if_false] at h
    cases h

theorem shortEscape_lt (h : (shortEscape c).isSome) : c < 128 := by
  unfold shortEscape at h
  grind

theorem toNat_ofNat (h : c < 0xD800) : (Char.ofNat c).toNat = c := by
  rw [Char.ofNat, dif_pos (.inl h)]
  rfl

/-- The four ways a code point is written; one that stands for itself is no quote or backslash. -/
theorem escapeCode_cases (c : ℕ) : (∃ e, shortEscape c = some e ∧ escapeCode c = ['\\', e]) ∨
    (32 ≤ c ∧ c ≤ 126 ∧ escapeCode c = [Char.ofNat c] ∧ Char.ofNat c ≠ '"' ∧ Char.ofNat c ≠ '\\') ∨
    ((shortEscape c = none ∧ ¬ (32 ≤ c ∧ c ≤ 126)) ∧ (c < 0x10000 ∧ escapeCode c = unitEscape c ∨
      ¬ c < 0x10000 ∧ escapeCode c = unitEscape (highUnit c) ++ unitEscape (lowUnit c))) := by
  unfold escapeCode
  cases he : shortEscape c with
  | some e => exact .inl ⟨e, rfl, rfl⟩
  | none =>
    by_cases hp : 32 ≤ c ∧ c ≤ 126
    · have hval : (Char.ofNat c).toNat = c := toNat_ofNat (by omega)
      refine .inr (.inl ⟨hp.1, hp.2, if_pos hp, fun h => ?_, fun h => ?_⟩)
      · obtain rfl : c = 34 := by rw [← hval, h]; rfl
        cases he
      · obtain rfl : c = 92 := by rw [← hval, h]; rfl
        cases he
    · refine .inr (.inr ⟨⟨rfl, hp⟩, ?_⟩)
      rw [if_neg hp]
      by_cases hb : c < 0x10000
      · exact .inl ⟨hb, if_pos hb⟩
      · exact .inr ⟨hb, if_neg hb⟩

theorem readPieces_escapeCode (hc : c < 0x110000) :
    readPieces (escapeCode c ++ s) = (readPieces s).map fun x => (piecesOf c ++ x.1, x.2) := by
  unfold piecesOf
  rcases escapeCode_cases c with
    ⟨e, he, h⟩ | ⟨hl, hr, h, hq, hb⟩ | ⟨⟨he, hp⟩, ⟨hb, h⟩ | ⟨hb, h⟩⟩ <;> rw [h]
  · rw [he]
    exact readPieces_shortEscape he
  · rw [if_pos (.inr ⟨hl, hr⟩)]
    exact readPieces_plain hq hb (by rw [toNat_ofNat (by omega)]; omega)
  · rw [if_neg (by simp [he, hp]), if_pos hb]
    exact readPieces_unitEscape hb
  · rw [if_neg (by simp [he, hp]), if_neg hb, append_assoc,
      readPieces_unitEscape (show highUnit c < 0x10000 by unfold highUnit; omega),
      readPieces_unitEscape (show lowUnit c < 0x10000 by unfold lowUnit; omega), Option.map_map]
    rfl

theorem joinCodes_piecesOf (hc : c < 0xD800 ∨ (0xE000 ≤ c ∧ c < 0x110000))
    : joinCodes (piecesOf c ++ ps) = c :: joinCodes ps := by
  unfold piecesOf
  split
  · next h =>
    have hlt : c < 128 := by
      rcases h with h | h
      · exact shortEscape_lt h
      · omega
    rw [singleton_append, joinCodes, toNat_ofNat (by omega)]
  split
  · -- a unit that is no surrogate joins with nothing
    have hhigh : isHigh c = false := by
      simp only [isHigh, decide_eq_false_iff_not]
      omega
    rw [singleton_append]
    cases ps with
    | nil => rfl
    | cons p ps =>
      cases p with
      | char d => rfl
      | unit l => rw [joinCodes, hhigh, if_neg (by simp)]
  · next hb =>
    have hhigh : isHigh (highUnit c) = true := by
      refine decide_eq_true ?_
      unfold highUnit
      omega
    have hlow : isLow (lowUnit c) = true := by
      refine decide_eq_true ?_
      unfold lowUnit
      omega
    have hjoin : 0x10000 + (highUnit c - 0xD800) * 0x400 + (lowUnit c - 0xDC00) = c := by
      unfold highUnit lowUnit
      omega
    rw [cons_append, singleton_append, joinCodes, hhigh, hlow, if_pos ⟨rfl, rfl⟩, hjoin]

/-- CORRECT: a string reads back, whatever follows it. -/
theorem readStr_render (hk : Scalar k) :
    readStr (k.flatMap escapeCode ++ '"' :: s) = some (k, s) := by
  have hpieces : ∀ k : Str, Scalar k →
      readPieces (k.flatMap escapeCode ++ '"' :: s) = some (k.flatMap piecesOf, s) ∧
        joinCodes (k.flatMap piecesOf) = k := by
    intro k
    induction k with
    | nil => exact fun _ => ⟨rfl, rfl⟩
    | cons c k ih =>
      intro hk
      have hc := hk c mem_cons_self
      obtain ⟨h₁, h₂⟩ := ih fun d hd => hk d (mem_cons_of_mem _ hd)
      rw [flatMap_cons, append_assoc, readPieces_escapeCode (by omega), h₁,
        flatMap_cons, joinCodes_piecesOf hc, h₂]
      exact ⟨rfl, rfl⟩
  obtain ⟨h₁, h₂⟩ := hpieces k hk
  rw [readStr, h₁, map_some, h₂]

/-! ### Floats and values -/

/-- What `json` needs of Python's floats. -/
class PyFloat (F : Type) where
  repr : F → List Char
  /-- `float(text)` of a number token. -/
  ofText : List Char → F
  /-- `float(n)`; `none` is an `OverflowError`. -/
  ofInt : ℤ → Option F
  isFinite : F → Bool
  nan : F
  inf : F
  negInf : F
  repr_spec : ∀ x, isFinite x = true →
    ∃ l : Lit, l.Wf ∧ l.isFloat = true ∧ repr x = l.text ∧ ofText l.text = x

inductive Value (F : Type) where
  | null
  | bool (b : Bool)
  | int (n : ℤ)
  | float (x : F)
  | str (s : Str)
  | arr (vs : List (Value F))
  | obj (ms : List (Str × Value F))

variable {F : Type} [PyFloat F]

/-! ### Writing -/

/-- `separators=(",", ":")`, or the default with blanks. -/
def itemSep (spaced : Bool) : List Char := if spaced then [',', ' '] else [',']

def keySep (spaced : Bool) : List Char := if spaced then [':', ' '] else [':']

def join (sep : List Char) : List (List Char) → List Char
  | [] => []
  | [x] => x
  | x :: y :: xs => x ++ (sep ++ join sep (y :: xs))

mutual

/-- `json.dumps`. -/
def render (spaced : Bool) : Value F → List Char
  | .null => ['n', 'u', 'l', 'l']
  | .bool true => ['t', 'r', 'u', 'e']
  | .bool false => ['f', 'a', 'l', 's', 'e']
  | .int n => renderInt n
  | .float x => PyFloat.repr x
  | .str s => renderStr s
  | .arr vs => '[' :: (join (itemSep spaced) (renderAll spaced vs) ++ [']'])
  | .obj ms => '{' :: (join (itemSep spaced) (renderPairs spaced ms) ++ ['}'])

def renderAll (spaced : Bool) : List (Value F) → List (List Char)
  | [] => []
  | v :: vs => render spaced v :: renderAll spaced vs

def renderPairs (spaced : Bool) : List (Str × Value F) → List (List Char)
  | [] => []
  | (k, v) :: ms => (renderStr k ++ (keySep spaced ++ render spaced v)) :: renderPairs spaced ms

end

/-! ### Reading -/

def Lit.value (l : Lit) : Option (Value F) :=
  if l.isFloat then some (.float (PyFloat.ofText l.text))
  else if l.whole.length ≤ maxStrDigits then
    some (.int (if l.neg then -(ofDigits l.whole : ℤ) else (ofDigits l.whole : ℤ)))
  else none

def readWord : List Char → Option (Value F × List Char)
  | 'n' :: 'u' :: 'l' :: 'l' :: s => some (.null, s)
  | 't' :: 'r' :: 'u' :: 'e' :: s => some (.bool true, s)
  | 'f' :: 'a' :: 'l' :: 's' :: 'e' :: s => some (.bool false, s)
  | 'N' :: 'a' :: 'N' :: s => some (.float PyFloat.nan, s)
  | 'I' :: 'n' :: 'f' :: 'i' :: 'n' :: 'i' :: 't' :: 'y' :: s => some (.float PyFloat.inf, s)
  | '-' :: 'I' :: 'n' :: 'f' :: 'i' :: 'n' :: 'i' :: 't' :: 'y' :: s =>
    some (.float PyFloat.negInf, s)
  | _ => none

def readAtom : List Char → Option (Value F × List Char)
  | '"' :: s => (readStr s).map fun x => (.str x.1, x.2)
  | s => match lexNumber s with
    | some (l, rest) => l.value.map fun v => (v, rest)
    | none => readWord s

/-- Items up to the closing bracket, white space around the commas. -/
def readSeq {β : Type} (item : List Char → Option (β × List Char)) (close : Char) :
    ℕ → List Char → Option (List β × List Char)
  | 0, _ => none
  | fuel + 1, s => match item s with
    | none => none
    | some (v, s) => match skipWs s with
      | [] => none
      | c :: s =>
        if c = close then some ([v], s)
        else if c = ',' then (readSeq item close fuel (skipWs s)).map fun x => (v :: x.1, x.2)
        else none

def readPair {β : Type} (item : List Char → Option (β × List Char)) :
    List Char → Option ((Str × β) × List Char)
  | '"' :: s => match readStr s with
    | none => none
    | some (k, s) => match skipWs s with
      | ':' :: s => (item (skipWs s)).map fun x => ((k, x.1), x.2)
      | _ => none
  | _ => none

def readValue : ℕ → List Char → Option (Value F × List Char)
  | 0, _ => none
  | depth + 1, '[' :: s => match skipWs s with
    | ']' :: s => some (.arr [], s)
    | s => (readSeq (readValue depth) ']' s.length s).map fun x => (.arr x.1, x.2)
  | depth + 1, '{' :: s => match skipWs s with
    | '}' :: s => some (.obj [], s)
    | s => (readSeq (readPair (readValue depth)) '}' s.length s).map fun x => (.obj x.1, x.2)
  | _ + 1, s => readAtom s

/-- `json.loads`: one value and nothing else. -/
def loads (s : List Char) : Option (Value F) :=
  match readValue (s.length + 1) (skipWs s) with
  | none => none
  | some (v, rest) => if skipWs rest = [] then some v else none

/-! ### Values that read back -/

mutual

/-- Finite floats, integers Python converts, strings without surrogates. -/
def Clean : Value F → Prop
  | .null => True
  | .bool _ => True
  | .int n => (decimal n.natAbs).length ≤ maxStrDigits
  | .float x => PyFloat.isFinite x = true
  | .str s => Scalar s
  | .arr vs => CleanAll vs
  | .obj ms => CleanPairs ms

def CleanAll : List (Value F) → Prop
  | [] => True
  | v :: vs => Clean v ∧ CleanAll vs

def CleanPairs : List (Str × Value F) → Prop
  | [] => True
  | (k, v) :: ms => (Scalar k ∧ Clean v) ∧ CleanPairs ms

end

mutual

def height : Value F → ℕ
  | .arr vs => heights vs + 1
  | .obj ms => pairHeights ms + 1
  | _ => 1

def heights : List (Value F) → ℕ
  | [] => 0
  | v :: vs => max (height v) (heights vs)

def pairHeights : List (Str × Value F) → ℕ
  | [] => 0
  | (_, v) :: ms => max (height v) (pairHeights ms)

end

/-! ### Tokens -/

theorem Lit.Wf.head (h : l.Wf) : ∃ c t, l.text = c :: t ∧ (isDigit c = true ∨ c = '-') := by
  obtain ⟨neg, whole, frac, exp⟩ := l
  obtain ⟨d, ds, hw, hd⟩ := digits_cases h.whole
  subst hw
  cases neg with
  | true => exact ⟨'-', _, rfl, .inr rfl⟩
  | false => exact ⟨d, _, rfl, .inl hd⟩

variable {v : Value F}

/-- A number token is read as a number. -/
theorem readAtom_text (h : l.Wf) (hv : l.value = some v)
    (hs : Ends s) : readAtom (l.text ++ s) = some (v, s) := by
  have hlex := lexNumber_text h hs
  obtain ⟨c, t, ht, hc⟩ := h.head
  rw [ht, cons_append] at hlex ⊢
  rw [readAtom, hlex]
  · dsimp only
    rw [hv]
    rfl
  · rintro s' ⟨⟩
    rcases hc with hc | hc <;> cases hc

/-- The spelling of an integer. -/
def intLit (n : ℤ) : Lit := ⟨decide (n < 0), decimal n.natAbs, none, none⟩

theorem intLit_wf : (intLit n).Wf := by
  have hne : decimal n.natAbs ≠ [] := by
    rcases decimal_shape n.natAbs with h | ⟨c, cs, h, -⟩ <;> rw [h] <;> nofun
  refine ⟨⟨hne, isDigit_of_mem_decimal _⟩, ?_, nofun, nofun⟩
  rcases decimal_shape n.natAbs with h | ⟨c, cs, h, hc⟩
  · exact .inl h
  refine .inr ?_
  change (decimal n.natAbs).head? ≠ some '0'
  rw [h]
  exact fun he => hc (some.inj he)

theorem intLit_text : (intLit n).text = renderInt n := by
  unfold intLit Lit.text Lit.signText Lit.fracText Lit.expText renderInt
  by_cases h : n < 0
  · simp [h]
  · simp [h]

theorem intLit_value (h : (decimal n.natAbs).length ≤ maxStrDigits) :
    (intLit n).value = some (.int n : Value F) := by
  have hf : (intLit n).isFloat = false := rfl
  have hlen : (intLit n).whole.length ≤ maxStrDigits := h
  rw [Lit.value, hf, if_neg (by simp), if_pos hlen]
  congr 2
  change (if decide (n < 0) = true then -(ofDigits (decimal n.natAbs) : ℤ)
    else (ofDigits (decimal n.natAbs) : ℤ)) = n
  rw [ofDigits_decimal]
  by_cases hn : n < 0
  · simp only [hn, decide_true, if_true]
    omega
  · simp only [hn, decide_false, Bool.false_eq_true, if_false]
    omega

/-! ### Lists -/

/-- What stands around an item: it starts with no white space. -/
def Starts (x : List Char) : Prop := ∀ c ∈ x.head?, isWs c = false

variable {x : List Char}

theorem skipWs_of_starts (h : Starts x) : skipWs x = x := by
  cases x with
  | nil => rfl
  | cons c x => exact skipWs_cons (h c rfl)

theorem starts_append (hne : x ≠ []) (h : Starts x) : Starts (x ++ s) := by
  cases x with
  | nil => exact absurd rfl hne
  | cons c x => exact h

variable {spaced : Bool}

theorem skipWs_itemSep (hs : Starts s) : skipWs ((itemSep spaced).drop 1 ++ s) = s := by
  cases spaced with
  | true =>
    change skipWs (' ' :: s) = s
    exact skipWs_of_starts hs
  | false => exact skipWs_of_starts hs

/-- CORRECT: a list of items that read back reads back. -/
theorem readSeq_join {β : Type} {item : List Char → Option (β × List Char)}
    (hclose : isWs close = false) (hcomma : close ≠ ',') (hends : Ends [close]) (spaced : Bool)
    {text : β → List Char} (s : List Char) : ∀ (vs : List β) (fuel : ℕ), vs ≠ [] →
    vs.length ≤ fuel →
    (∀ v ∈ vs, text v ≠ [] ∧ Starts (text v) ∧
      ∀ t, Ends t → item (text v ++ t) = some (v, t)) →
    readSeq item close fuel (join (itemSep spaced) (vs.map text) ++ close :: s) = some (vs, s)
  | [], _, hne, _, _ => absurd rfl hne
  | [v], 0, _, hlen, _ | v :: w :: vs, 0, _, hlen, _ => absurd hlen (by simp)
  | [v], fuel + 1, _, _, hv => by
    obtain ⟨-, -, hitem⟩ := hv v mem_cons_self
    have hr : Ends (close :: s) := hends
    rw [map_cons, map_nil, join, readSeq, hitem _ hr]
    dsimp only
    rw [skipWs_cons hclose]
    dsimp only
    rw [if_pos rfl]
  | v :: w :: vs, fuel + 1, _, hlen, hv => by
    obtain ⟨-, -, hitem⟩ := hv v mem_cons_self
    obtain ⟨hwne, hwst, -⟩ := hv w (mem_cons_of_mem _ mem_cons_self)
    have ih := readSeq_join hclose hcomma hends spaced s (w :: vs) fuel nofun
      (Nat.le_of_succ_le_succ hlen) fun x hx => hv x (mem_cons_of_mem _ hx)
    have hrest : Starts (join (itemSep spaced) ((w :: vs).map text) ++ close :: s) := by
      cases vs with
      | nil => exact starts_append hwne hwst
      | cons x vs =>
        rw [map_cons, map_cons, join, append_assoc]
        exact starts_append hwne hwst
    have hsep : ∀ r, itemSep spaced ++ r = ',' :: ((itemSep spaced).drop 1 ++ r) := by
      cases spaced <;> exact fun _ => rfl
    rw [map_cons, map_cons, join, append_assoc, append_assoc, hsep, readSeq,
      hitem _ (by rintro c ⟨⟩; decide)]
    dsimp only
    rw [skipWs_cons (by decide)]
    dsimp only
    rw [if_neg hcomma.symm, if_pos rfl]
    rw [map_cons] at hrest ih
    rw [skipWs_itemSep hrest, ih]
    rfl

theorem length_le_join (sep : List Char) : ∀ xs : List (List Char), (∀ x ∈ xs, x ≠ []) →
    xs.length ≤ (join sep xs).length
  | [], _ => Nat.le_refl 0
  | [x], h => length_pos_iff.2 (h x mem_cons_self)
  | x :: y :: xs, h => by
    have hx := length_pos_iff.2 (h x mem_cons_self)
    have ih := length_le_join sep (y :: xs) fun z hz => h z (mem_cons_of_mem _ hz)
    rw [join, length_append, length_append, length_cons]
    omega

/-- The same with the fuel the readers give. -/
theorem readSeq_text {β : Type} {item : List Char → Option (β × List Char)} (close : Char)
    (hclose : isWs close = false) (hcomma : close ≠ ',') (hends : Ends [close]) (spaced : Bool)
    {text : β → List Char} (s : List Char) {vs : List β} (hne : vs ≠ [])
    (hv : ∀ v ∈ vs, text v ≠ [] ∧ Starts (text v) ∧
      ∀ t, Ends t → item (text v ++ t) = some (v, t)) :
    readSeq item close (join (itemSep spaced) (vs.map text) ++ close :: s).length
      (join (itemSep spaced) (vs.map text) ++ close :: s) = some (vs, s) := by
  refine readSeq_join hclose hcomma hends spaced s vs _ hne ?_ hv
  have hle := length_le_join (itemSep spaced) (vs.map text) fun x hx => by
    obtain ⟨v, hin, rfl⟩ := mem_map.1 hx
    exact (hv v hin).1
  rw [length_map] at hle
  rw [length_append]
  omega

variable {t : List Char}

/-- A joined list starts as its first item does. -/
theorem join_head (sep : List Char) (xs : List (List Char)) {c : Char}
    (hx : x = c :: t) (s : List Char) : ∃ r, join sep (x :: xs) ++ s = c :: r := by
  subst hx
  cases xs with
  | nil | cons y ys => exact ⟨_, rfl⟩

/-! ### The round trip -/

theorem renderAll_eq_map : ∀ vs : List (Value F),
    renderAll spaced vs = vs.map (render spaced)
  | [] => rfl
  | v :: vs => by rw [renderAll, renderAll_eq_map vs, map_cons]

/-- One member of an object. -/
def renderPair (spaced : Bool) (m : Str × Value F) : List Char :=
  renderStr m.1 ++ (keySep spaced ++ render spaced m.2)

theorem renderPairs_eq_map : ∀ ms : List (Str × Value F),
    renderPairs spaced ms = ms.map (renderPair spaced)
  | [] => rfl
  | (k, v) :: ms => by
    rw [renderPairs, renderPairs_eq_map ms, map_cons]
    rfl

theorem cleanAll_iff : ∀ vs : List (Value F), CleanAll vs ↔ ∀ v ∈ vs, Clean v
  | [] => by simp [CleanAll]
  | v :: vs => by simp [CleanAll, cleanAll_iff vs]

theorem cleanPairs_iff : ∀ ms : List (Str × Value F),
    CleanPairs ms ↔ ∀ m ∈ ms, Scalar m.1 ∧ Clean m.2
  | [] => by simp [CleanPairs]
  | (k, v) :: ms => by simp [CleanPairs, cleanPairs_iff ms]

omit [PyFloat F] in
theorem height_le_heights : ∀ {vs : List (Value F)} {v : Value F}, v ∈ vs → height v ≤ heights vs
  | w :: vs, v, h => by
    rcases mem_cons.1 h with rfl | h
    · exact Nat.le_max_left ..
    · exact Nat.le_trans (height_le_heights h) (Nat.le_max_right ..)

omit [PyFloat F] in
theorem height_le_pairHeights : ∀ {ms : List (Str × Value F)} {m : Str × Value F}, m ∈ ms →
    height m.2 ≤ pairHeights ms
  | (k, v) :: ms, m, h => by
    rcases mem_cons.1 h with rfl | h
    · exact Nat.le_max_left ..
    · exact Nat.le_trans (height_le_pairHeights h) (Nat.le_max_right ..)

/-- A rendered value starts with a character of its own. -/
theorem render_head (spaced : Bool) (h : Clean v) :
    ∃ c t, render spaced v = c :: t ∧ isWs c = false ∧ c ≠ ']' ∧ c ≠ '}' := by
  have hdigit : ∀ c, (isDigit c = true ∨ c = '-') → isWs c = false ∧ c ≠ ']' ∧ c ≠ '}' := by
    rintro c (hc | rfl)
    · refine ⟨?_, ?_, ?_⟩
      · rw [Bool.eq_false_iff]
        intro hw
        rcases of_decide_eq_true hw with rfl | rfl | rfl | rfl <;> cases hc
      · rintro rfl; cases hc
      · rintro rfl; cases hc
    · decide
  cases v with
  | null | str s | arr vs | obj ms => exact ⟨_, _, rfl, by decide⟩
  | bool b => cases b <;> exact ⟨_, _, rfl, by decide⟩
  | int n =>
    obtain ⟨c, t, ht, hc⟩ := intLit_wf.head
    rw [intLit_text] at ht
    exact ⟨c, t, ht, hdigit c hc⟩
  | float x =>
    obtain ⟨l, hl, -, hr, -⟩ := PyFloat.repr_spec x h
    obtain ⟨c, t, ht, hc⟩ := hl.head
    exact ⟨c, t, hr.trans ht, hdigit c hc⟩

variable {depth : ℕ}

theorem readValue_atom {c : Char} (h₁ : c ≠ '[') (h₂ : c ≠ '{') :
    (readValue (depth + 1) (c :: t) : Option (Value F × List Char)) = readAtom (c :: t) := by
  rw [readValue]
  · rintro s ⟨⟩
    exact h₁ rfl
  · rintro s ⟨⟩
    exact h₂ rfl

theorem readValue_arr {c : Char} (hc : isWs c = false) (hb : c ≠ ']') :
    (readValue (depth + 1) ('[' :: c :: t) : Option (Value F × List Char))
      = (readSeq (readValue depth) ']' (c :: t).length (c :: t)).map fun x => (.arr x.1, x.2) := by
  rw [readValue, skipWs_cons hc]
  split
  · next h => exact absurd (cons.inj h).1 hb
  · rfl

theorem readValue_obj {c : Char} (hc : isWs c = false) (hb : c ≠ '}') :
    (readValue (depth + 1) ('{' :: c :: t) : Option (Value F × List Char))
      = (readSeq (readPair (readValue depth)) '}' (c :: t).length (c :: t)).map
          fun x => (.obj x.1, x.2) := by
  rw [readValue, skipWs_cons hc]
  split
  · next h => exact absurd (cons.inj h).1 hb
  · rfl

theorem readValue_number (h : l.Wf) (hv : l.value = some v)
    (hs : Ends s) : readValue (depth + 1) (l.text ++ s) = some (v, s) := by
  have hatom := readAtom_text h hv hs
  obtain ⟨c, t, ht, hc⟩ := h.head
  rw [ht, cons_append] at hatom ⊢
  rw [readValue_atom, hatom]
  · rintro rfl; rcases hc with hc | hc <;> cases hc
  · rintro rfl; rcases hc with hc | hc <;> cases hc

theorem readPair_render {m : Str × Value F} (hk : Scalar m.1) (hv : Clean m.2)
    (hitem : ∀ t, Ends t → item (render spaced m.2 ++ t) = some (m.2, t))
    (ht : Ends t) : readPair item (renderPair spaced m ++ t) = some (m, t) := by
  obtain ⟨c, r, hr, hc, -, -⟩ := render_head spaced hv
  have hstart : Starts (render spaced m.2 ++ t) := by
    rw [hr]
    rintro c' ⟨⟩
    exact hc
  have hkey : ∀ r, keySep spaced ++ r = ':' :: ((keySep spaced).drop 1 ++ r) := by
    cases spaced <;> exact fun _ => rfl
  have hskip : skipWs ((keySep spaced).drop 1 ++ (render spaced m.2 ++ t))
      = render spaced m.2 ++ t := by
    cases spaced with
    | true =>
      change skipWs (' ' :: (render true m.2 ++ t)) = _
      exact skipWs_of_starts hstart
    | false => exact skipWs_of_starts hstart
  have hassoc : renderPair spaced m ++ t = '"' :: (m.1.flatMap escapeCode ++
      '"' :: (keySep spaced ++ (render spaced m.2 ++ t))) := by
    simp [renderPair, renderStr]
  rw [hassoc, readPair, readStr_render hk]
  dsimp only
  rw [hkey, skipWs_cons (by decide)]
  change Option.map _ (item (skipWs _)) = _
  rw [hskip, hitem t ht]
  rfl

/-- CORRECT: a rendered value reads back, whatever follows it. -/
theorem readValue_render (spaced : Bool) : ∀ (depth : ℕ) (v : Value F), height v ≤ depth → Clean v →
    ∀ s, Ends s → readValue depth (render spaced v ++ s) = some (v, s)
  | 0, v, hd, _, _, _ => absurd hd (by cases v <;> simp [height])
  | depth + 1, v, hd, hv, s, hs => by
    cases v with
    | null => rfl
    | bool b => cases b <;> rfl
    | int n =>
      rw [render, ← intLit_text]
      exact readValue_number intLit_wf (intLit_value hv) hs
    | float x =>
      obtain ⟨l, hl, hf, hr, hx⟩ := PyFloat.repr_spec x hv
      rw [render, hr]
      refine readValue_number hl ?_ hs
      rw [Lit.value, if_pos hf, hx]
    | str k =>
      have hassoc : render spaced (.str k : Value F) ++ s
          = '"' :: (k.flatMap escapeCode ++ '"' :: s) := by simp [render, renderStr]
      rw [hassoc, readValue_atom (by decide) (by decide), readAtom, readStr_render hv]
      rfl
    | arr vs =>
      have hclean := (cleanAll_iff vs).1 hv
      have hassoc : render spaced (.arr vs) ++ s
          = '[' :: (join (itemSep spaced) (vs.map (render spaced)) ++ ']' :: s) := by
        simp [render, renderAll_eq_map]
      rw [hassoc]
      cases vs with
      | nil => rfl
      | cons w ws =>
        have hitems : ∀ v ∈ w :: ws, render spaced v ≠ [] ∧ Starts (render spaced v) ∧
            ∀ t, Ends t → readValue depth (render spaced v ++ t) = some (v, t) := by
          intro v hin
          obtain ⟨c, r, hr, hc, -, -⟩ := render_head spaced (hclean v hin)
          have hh := height_le_heights hin
          rw [height] at hd
          refine ⟨by rw [hr]; nofun, ?_, fun t ht => ?_⟩
          · rw [hr]
            rintro c' ⟨⟩
            exact hc
          · exact readValue_render spaced depth v (by omega) (hclean v hin) t ht
        obtain ⟨c, r, hr, hc, hb, -⟩ := render_head spaced (hclean w mem_cons_self)
        have hseq := readSeq_text ']' (by decide) (by decide) (by rintro c ⟨⟩; decide) spaced s
          (by nofun) hitems
        obtain ⟨r', hr'⟩ := join_head (itemSep spaced) (ws.map (render spaced)) hr (']' :: s)
        rw [map_cons, hr'] at hseq ⊢
        rw [readValue_arr hc hb, hseq]
        rfl
    | obj ms =>
      have hclean := (cleanPairs_iff ms).1 hv
      have hassoc : render spaced (.obj ms) ++ s
          = '{' :: (join (itemSep spaced) (ms.map (renderPair spaced)) ++ '}' :: s) := by
        simp [render, renderPairs_eq_map]
      rw [hassoc]
      cases ms with
      | nil => rfl
      | cons w ws =>
        have hitems : ∀ m ∈ w :: ws, renderPair spaced m ≠ [] ∧ Starts (renderPair spaced m) ∧
            ∀ t, Ends t → readPair (readValue depth) (renderPair spaced m ++ t) = some (m, t) := by
          intro m hin
          have hh := height_le_pairHeights hin
          rw [height] at hd
          refine ⟨nofun, ?_, fun t ht => ?_⟩
          · rintro c' ⟨⟩
            decide
          · refine readPair_render (hclean m hin).1 (hclean m hin).2 (fun t' ht' => ?_) ht
            exact readValue_render spaced depth m.2 (by omega) (hclean m hin).2 t' ht'
        have hseq := readSeq_text '}' (by decide) (by decide) (by rintro c ⟨⟩; decide) spaced s
          (by nofun) hitems
        obtain ⟨r', hr'⟩ := join_head (itemSep spaced) (ws.map (renderPair spaced))
          (rfl : renderPair spaced w = _) ('}' :: s)
        rw [map_cons, hr'] at hseq ⊢
        rw [readValue_obj (by decide) (by decide), hseq]
        rfl

/-! ### Plain text -/

/-- Printable ASCII. -/
def Plain (cs : List Char) : Prop := ∀ c ∈ cs, 32 ≤ c.toNat ∧ c.toNat < 127

instance (cs : List Char) : Decidable (Plain cs) := decidableBAll _ cs

theorem plain_nil : Plain [] := nofun

theorem plain_cons {c : Char} (hc : 32 ≤ c.toNat ∧ c.toNat < 127) (h : Plain cs) :
    Plain (c :: cs) := forall_mem_cons.2 ⟨hc, h⟩

theorem plain_append (h : Plain cs) (h' : Plain ds) : Plain (cs ++ ds) :=
  forall_mem_append.2 ⟨h, h'⟩

theorem plain_hexDigit : ∀ d < 16, 32 ≤ (hexDigit d).toNat ∧ (hexDigit d).toNat < 127 := by decide

theorem plain_unitEscape (hu : u < 0x10000) : Plain (unitEscape u) := by
  refine plain_cons (by decide) (plain_cons (by decide) ?_)
  exact plain_cons (plain_hexDigit _ (by omega)) (plain_cons (plain_hexDigit _ (by omega))
    (plain_cons (plain_hexDigit _ (by omega)) (plain_cons (plain_hexDigit _ (by omega)) plain_nil)))

theorem plain_shortEscape (h : shortEscape c = some e) : 32 ≤ e.toNat ∧ e.toNat < 127 := by
  have hall : ∀ c < 128, (shortEscape c).all (fun e => 32 ≤ e.toNat ∧ e.toNat < 127) = true := by
    decide
  have he := hall c (shortEscape_lt (by rw [h]; rfl))
  rw [h] at he
  exact of_decide_eq_true he

theorem plain_escapeCode (hc : c < 0x110000) : Plain (escapeCode c) := by
  rcases escapeCode_cases c with ⟨e, he, h⟩ | ⟨_, _, h, -⟩ | ⟨-, ⟨hb, h⟩ | ⟨hb, h⟩⟩ <;> rw [h]
  · exact plain_cons (by decide) (plain_cons (plain_shortEscape he) plain_nil)
  · refine plain_cons ?_ plain_nil
    rw [toNat_ofNat (by omega)]
    omega
  · exact plain_unitEscape hb
  · refine plain_append (plain_unitEscape ?_) (plain_unitEscape ?_)
    · rw [highUnit]; omega
    · rw [lowUnit]; omega

theorem plain_renderStr {s : Str} (h : Scalar s) : Plain (renderStr s) := by
  refine plain_cons (by decide) (plain_append ?_ (plain_cons (by decide) plain_nil))
  intro x hx
  obtain ⟨c, hc, hx⟩ := mem_flatMap.1 hx
  refine plain_escapeCode ?_ x hx
  rcases h c hc with h | h
  · omega
  · exact h.2

theorem plain_digits (h : ∀ c ∈ ds, isDigit c = true) : Plain ds := by
  intro c hc
  have hd := of_decide_eq_true (h c hc)
  omega

theorem Lit.Wf.plain (h : l.Wf) : Plain l.text := by
  refine plain_append ?_ (plain_append (plain_digits h.whole.2) (plain_append ?_ ?_))
  · rw [Lit.signText]
    split
    · exact plain_cons (by decide) plain_nil
    · exact plain_nil
  · rw [Lit.fracText]
    split
    · exact plain_nil
    · next ds hf => exact plain_cons (by decide) (plain_digits (h.frac ds hf).2)
  · rw [Lit.expText]
    split
    · exact plain_nil
    next e sign ds he =>
    obtain ⟨h₁, h₂, h₃⟩ := h.exp e sign ds he
    refine plain_cons ?_ (plain_append ?_ (plain_digits h₃.2))
    · rcases h₁ with rfl | rfl <;> decide
    rcases h₂ with rfl | rfl | rfl
    · exact plain_nil
    · exact plain_cons (by decide) plain_nil
    · exact plain_cons (by decide) plain_nil

theorem plain_join (hsep : Plain sep) : ∀ {xs : List (List Char)},
    (∀ x ∈ xs, Plain x) → Plain (join sep xs)
  | [], _ => plain_nil
  | [x], h => h x (mem_singleton_self x)
  | x :: _ :: _, h => plain_append (h x mem_cons_self) (plain_append hsep
      (plain_join hsep fun z hz => h z (mem_cons_of_mem _ hz)))

theorem plain_itemSep : Plain (itemSep spaced) := by cases spaced <;> decide

theorem plain_keySep : Plain (keySep spaced) := by cases spaced <;> decide

mutual

variable {spaced : Bool}

/-- Rendered text is printable ASCII. -/
theorem plain_render : ∀ {v : Value F}, Clean v → Plain (render spaced v)
  | .null, _ | .bool true, _ | .bool false, _ => by rw [render]; decide
  | .int n, _ => by rw [render, ← intLit_text]; exact intLit_wf.plain
  | .float x, h => by
    obtain ⟨l, hl, -, hr, -⟩ := PyFloat.repr_spec x h
    rw [render, hr]
    exact hl.plain
  | .str s, h => by rw [render]; exact plain_renderStr h
  | .arr vs, h => by
    exact plain_cons (by decide) (plain_append
      (plain_join plain_itemSep (plain_renderAll h)) (plain_cons (by decide) plain_nil))
  | .obj ms, h => by
    exact plain_cons (by decide) (plain_append (plain_join plain_itemSep (plain_renderPairs h))
      (plain_cons (by decide) plain_nil))

theorem plain_renderAll : ∀ {vs : List (Value F)}, CleanAll vs →
    ∀ x ∈ renderAll spaced vs, Plain x
  | [], _, _, hx => by rw [renderAll] at hx; cases hx
  | v :: vs, h, x, hx => by
    rcases mem_cons.1 hx with rfl | hx
    · exact plain_render h.1
    · exact plain_renderAll h.2 x hx

theorem plain_renderPairs : ∀ {ms : List (Str × Value F)}, CleanPairs ms →
    ∀ x ∈ renderPairs spaced ms, Plain x
  | [], _, _, hx => by rw [renderPairs] at hx; cases hx
  | (k, v) :: ms, h, x, hx => by
    rcases mem_cons.1 hx with rfl | hx
    · exact plain_append (plain_renderStr h.1.1) (plain_append plain_keySep (plain_render h.1.2))
    · exact plain_renderPairs h.2 x hx

end

/-! ### Whole texts -/

theorem length_le_join_of_mem (sep : List Char) : ∀ {xs : List (List Char)} {x : List Char},
    x ∈ xs → x.length ≤ (join sep xs).length
  | [y], x, hx => by rw [mem_singleton.1 hx]; exact Nat.le_refl _
  | y :: z :: xs, x, hx => by
    rw [join, length_append, length_append]
    rcases mem_cons.1 hx with rfl | hx
    · omega
    · have hle := length_le_join_of_mem sep hx
      omega

theorem length_render_pos (spaced : Bool) (h : Clean v) : 1 ≤ (render spaced v).length := by
  obtain ⟨c, t, hr, -⟩ := render_head spaced h
  rw [hr, length_cons]
  omega

theorem length_join_cons_le (sep x : List Char) : ∀ xs : List (List Char),
    (join sep xs).length ≤ (join sep (x :: xs)).length
  | [] => Nat.zero_le _
  | y :: xs => by
    rw [join, length_append, length_append]
    omega

mutual

/-- A text is at least as long as its value is deep. -/
theorem height_le_length (spaced : Bool) : ∀ {v : Value F}, Clean v →
    height v ≤ (render spaced v).length
  | .null, h | .bool _, h | .int _, h | .float _, h | .str _, h => by simpa only [height] using length_render_pos spaced h
  | .arr vs, h => by
    have hle := heights_le_join spaced (itemSep spaced) h
    rw [render, height, length_cons, length_append]
    omega
  | .obj ms, h => by
    have hle := pairHeights_le_join spaced (itemSep spaced) h
    rw [render, height, length_cons, length_append]
    omega

theorem heights_le_join (spaced : Bool) (sep : List Char) : ∀ {vs : List (Value F)}, CleanAll vs →
    heights vs ≤ (join sep (renderAll spaced vs)).length
  | [], _ => by rw [heights]; exact Nat.zero_le _
  | v :: vs, h => by
    have hv := height_le_length spaced h.1
    have hvs := heights_le_join spaced sep h.2
    have hmem := length_le_join_of_mem sep
      (mem_cons_self : render spaced v ∈ render spaced v :: renderAll spaced vs)
    have htail := length_join_cons_le sep (render spaced v) (renderAll spaced vs)
    rw [heights, renderAll]
    omega

theorem pairHeights_le_join (spaced : Bool) (sep : List Char) : ∀ {ms : List (Str × Value F)},
    CleanPairs ms → pairHeights ms ≤ (join sep (renderPairs spaced ms)).length
  | [], _ => by rw [pairHeights]; exact Nat.zero_le _
  | (k, v) :: ms, h => by
    have hv := height_le_length spaced h.1.2
    have hms := pairHeights_le_join spaced sep h.2
    have hmem := length_le_join_of_mem sep
      (mem_cons_self : renderStr k ++ (keySep spaced ++ render spaced v) ∈
        (renderStr k ++ (keySep spaced ++ render spaced v)) :: renderPairs spaced ms)
    have htail := length_join_cons_le sep (renderStr k ++ (keySep spaced ++ render spaced v))
      (renderPairs spaced ms)
    rw [length_append, length_append] at hmem
    rw [pairHeights, renderPairs]
    omega

end

/-- CORRECT: `loads` reads back what `dumps` wrote. -/
theorem loads_render (spaced : Bool) (h : Clean v) : loads (render spaced v) = some v := by
  obtain ⟨c, t, hr, hc, -, -⟩ := render_head spaced h
  have hskip : skipWs (render spaced v) = render spaced v := by rw [hr, skipWs_cons hc]
  have hread := readValue_render spaced ((render spaced v).length + 1) v
    (Nat.le_succ_of_le (height_le_length spaced h)) h [] nofun
  rw [append_nil] at hread
  rw [loads, hskip, hread]
  rfl

/-! ### Texts cut apart

    A string's text ends at its own closing quote, whatever its code points, and a number's at the
    first character that is no digit: equal texts with something behind them are equal in both parts. -/

/-- The text up to the closing quote, escapes untouched, and what follows. -/
def untilQuote : List Char → Option (List Char × List Char)
  | [] => none
  | '"' :: s => some ([], s)
  | '\\' :: c :: s => (untilQuote s).map fun x => ('\\' :: c :: x.1, x.2)
  | c :: s => (untilQuote s).map fun x => (c :: x.1, x.2)

theorem untilQuote_char {c : Char} (hq : c ≠ '"') (hb : c ≠ '\\') (s : List Char) :
    untilQuote (c :: s) = (untilQuote s).map fun x => (c :: x.1, x.2) := by
  rw [untilQuote.eq_def]
  split
  · next h => cases h
  · next h => exact absurd (cons.inj h).1 hq
  · next h => exact absurd (cons.inj h).1 hb
  · next h =>
    cases h
    rfl

theorem hexDigit_ne (d : ℕ) : hexDigit d ≠ '"' ∧ hexDigit d ≠ '\\' := by
  have hlow : ∀ d < 10, hexDigit d ≠ '"' ∧ hexDigit d ≠ '\\' := by decide
  by_cases hd : d < 10
  · exact hlow d hd
  rw [hexDigit, if_neg hd]
  have hval : (Char.ofNat (87 + d)).toNat = 87 + d ∨ (Char.ofNat (87 + d)).toNat = 0 := by
    unfold Char.ofNat
    split
    · exact .inl rfl
    · exact .inr rfl
  have hne : ∀ c : Char, c.toNat = 34 ∨ c.toNat = 92 → Char.ofNat (87 + d) ≠ c := by
    intro c hc heq
    rw [heq] at hval
    omega
  exact ⟨hne _ (.inl rfl), hne _ (.inr rfl)⟩

theorem untilQuote_unitEscape (u : ℕ) (s : List Char) :
    untilQuote (unitEscape u ++ s) = (untilQuote s).map fun x => (unitEscape u ++ x.1, x.2) := by
  have hd := fun d => untilQuote_char (hexDigit_ne d).1 (hexDigit_ne d).2
  change (untilQuote (_ :: _ :: _ :: _ :: s)).map _ = _
  rw [hd, hd, hd, hd]
  cases untilQuote s with
  | none | some x => rfl

theorem untilQuote_escapeCode :
    untilQuote (escapeCode c ++ s) = (untilQuote s).map fun x => (escapeCode c ++ x.1, x.2) := by
  rcases escapeCode_cases c with ⟨e, -, h⟩ | ⟨-, -, h, hq, hb⟩ | ⟨-, ⟨-, h⟩ | ⟨-, h⟩⟩ <;> rw [h]
  · rfl
  · exact untilQuote_char hq hb s
  · exact untilQuote_unitEscape c s
  · rw [append_assoc, untilQuote_unitEscape, untilQuote_unitEscape, Option.map_map]
    refine congrArg (fun f => (untilQuote s).map f) (funext fun x => ?_)
    simp

theorem untilQuote_renderStr {s : Str} :
    untilQuote (s.flatMap escapeCode ++ '"' :: x) = some (s.flatMap escapeCode, x) := by
  induction s with
  | nil => rfl
  | cons c s ih =>
    rw [flatMap_cons, append_assoc, untilQuote_escapeCode, ih]
    rfl

theorem renderStr_cut {s t : Str} (h : renderStr s ++ x = renderStr t ++ y) :
    s.flatMap escapeCode = t.flatMap escapeCode ∧ x = y := by
  rw [renderStr, renderStr] at h
  rw [cons_append, cons_append, append_assoc, append_assoc] at h
  have hread := congrArg untilQuote (cons.inj h).2
  rw [singleton_append, singleton_append, untilQuote_renderStr, untilQuote_renderStr] at hread
  exact Prod.mk.inj (some.inj hread)

/-- Strings that stand for themselves. -/
def Bare (s : Str) : Prop := ∀ c ∈ s, 32 ≤ c ∧ c ≤ 126 ∧ shortEscape c = none

theorem escapeCode_bare (h : 32 ≤ c ∧ c ≤ 126 ∧ shortEscape c = none) :
    escapeCode c = [Char.ofNat c] := by
  rw [escapeCode, h.2.2]
  exact if_pos ⟨h.1, h.2.1⟩

/-- A text without escapes has one reading. -/
theorem eq_of_bare {s t : Str} (ht : Bare t) (h : s.flatMap escapeCode = t.flatMap escapeCode) :
    s = t := by
  induction t generalizing s with
  | nil =>
    cases s with
    | nil => rfl
    | cons c s =>
      have hne : escapeCode c ≠ [] := by
        rcases escapeCode_cases c with ⟨_, -, h⟩ | ⟨-, -, h, -⟩ | ⟨-, ⟨-, h⟩ | ⟨-, h⟩⟩ <;> rw [h] <;>
          nofun
      exact absurd (append_eq_nil_iff.1 h).1 hne
  | cons d t ih =>
    have hd := ht d mem_cons_self
    have hdnat : (Char.ofNat d).toNat = d := toNat_ofNat (by omega)
    rw [flatMap_cons, escapeCode_bare hd] at h
    cases s with
    | nil => cases h
    | cons c s =>
      rw [flatMap_cons] at h
      -- an escape starts with a backslash, and d is none
      have hback : ∀ u, escapeCode c = '\\' :: u → False := by
        intro u hu
        rw [hu] at h
        have hchar : '\\' = Char.ofNat d := (cons.inj h).1
        obtain rfl : d = 92 := by rw [← hdnat, ← hchar]; rfl
        cases hd.2.2
      have hc : escapeCode c = [Char.ofNat c] ∧ 32 ≤ c ∧ c ≤ 126 := by
        rcases escapeCode_cases c with ⟨_, -, hu⟩ | ⟨hl, hr, h, -⟩ | ⟨-, ⟨-, hu⟩ | ⟨-, hu⟩⟩
        · exact (hback _ hu).elim
        · exact ⟨h, hl, hr⟩
        · exact (hback _ hu).elim
        · exact (hback _ hu).elim
      rw [hc.1] at h
      obtain ⟨hchar, hrest⟩ := cons.inj h
      have hcnat : (Char.ofNat c).toNat = c := toNat_ofNat (by omega)
      obtain rfl : c = d := by rw [← hcnat, ← hdnat, hchar]
      rw [ih (fun e he => ht e (mem_cons_of_mem _ he)) hrest]

theorem renderInt_cut (hx : Stops x) (hy : Stops y)
    (h : renderInt n ++ x = renderInt k ++ y) : n = k ∧ x = y := by
  have hread := congrArg readInt h
  rw [readInt_renderInt n hx, readInt_renderInt k hy] at hread
  exact Prod.mk.inj (some.inj hread)

/-- An array of strings, one of the two of strings that stand for themselves. -/
theorem renderStrs_cut {ss ts : List Str} (hts : ∀ t ∈ ts, Bare t)
    (h : join [','] (ss.map renderStr) ++ ']' :: x = join [','] (ts.map renderStr) ++ ']' :: y) :
    ss = ts ∧ x = y := by
  induction ts generalizing ss with
  | nil =>
    cases ss with
    | nil => exact ⟨rfl, (cons.inj h).2⟩
    | cons s ss =>
      cases ss with
      | nil | cons s' ss => cases h
  | cons t ts ih =>
    have ht := hts t mem_cons_self
    cases ss with
    | nil =>
      cases ts with
      | nil | cons t' ts => cases h
    | cons s ss =>
      cases ss with
      | nil =>
        cases ts with
        | nil =>
          obtain ⟨htext, hrest⟩ := renderStr_cut h
          rw [eq_of_bare ht htext]
          exact ⟨rfl, (cons.inj hrest).2⟩
        | cons t' ts =>
          change renderStr s ++ _ = (renderStr t ++ _) ++ _ at h
          rw [append_assoc] at h
          cases (renderStr_cut h).2
      | cons s' ss =>
        cases ts with
        | nil =>
          change (renderStr s ++ _) ++ _ = renderStr t ++ _ at h
          rw [append_assoc] at h
          cases (renderStr_cut h).2
        | cons t' ts =>
          change (renderStr s ++ _) ++ _ = (renderStr t ++ _) ++ _ at h
          rw [append_assoc (renderStr s), append_assoc (renderStr t)] at h
          obtain ⟨htext, hrest⟩ := renderStr_cut h
          rw [eq_of_bare ht htext]
          have hjoin := (cons.inj hrest).2
          obtain ⟨heq, hxy⟩ := @ih (s' :: ss) (fun e he => hts e (mem_cons_of_mem _ he)) hjoin
          exact ⟨by rw [heq], hxy⟩

end Fallow.Lib.PyJson
