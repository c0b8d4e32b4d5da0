import Fallow.Lib.PyJson

/-! Python strings as bytes and as lines: `encode`, `splitlines`, `strip`, and `itertools.batched`.

    A string with a surrogate has no encoding; the others have different ones. Lines that hold no
    line break come back from the text they are joined to:

        splitLines (l₁ ++ "\n" ++ l₂ ++ "\n" ++ ⋯) = [l₁, l₂, …] -/

namespace Fallow.Lib.PyStr
open PyJson List Char

abbrev Bytes := List UInt8

/-! ### Bytes -/

def utf8 (cs : List Char) : Bytes := cs.flatMap String.utf8EncodeChar

def codes (cs : List Char) : Str := cs.map toNat

/-- `s.encode()`; `none` is a `UnicodeEncodeError`. -/
def encode (s : Str) : Option Bytes := if Scalar s then some (utf8 (s.map ofNat)) else none

theorem utf8_injective (h : utf8 cs = utf8 ds) : cs = ds := by
  have hbytes : (String.ofList cs).toByteArray = (String.ofList ds).toByteArray := by
    exact congrArg toByteArray h
  exact String.ofList_inj.1 (String.toByteArray_inj.1 hbytes)

theorem toNat_ofNat_of_scalar (h : c < 0xD800 ∨ (0xE000 ≤ c ∧ c < 0x110000)) :
    (ofNat c).toNat = c := by
  have hv : c.isValidChar := by
    rcases h with h | h
    · exact .inl h
    · exact .inr ⟨by omega, h.2⟩
  rw [ofNat, dif_pos hv]
  rfl

variable {s : Str} {b : Bytes}

theorem codes_map_ofNat (h : Scalar s) : codes (s.map ofNat) = s := by
  have hid : s.map (toNat ∘ ofNat) = s.map id :=
    map_congr_left fun c hc => toNat_ofNat_of_scalar (h c hc)
  rw [codes, map_map, hid, map_id]

theorem encode_injective (hs : encode s = some b) (ht : encode t = some b) : s = t := by
  rw [encode] at hs ht
  split at hs
  · next hsc =>
    split at ht
    · next htc =>
      have h := utf8_injective (Option.some.inj (hs.trans ht.symm))
      rw [← codes_map_ofNat hsc, h, codes_map_ofNat htc]
    · cases ht
  · cases hs

theorem scalar_of_encode (h : encode s = some b) : Scalar s := by
  rw [encode] at h
  split at h
  · next hs => exact hs
  · cases h

theorem scalar_codes : Scalar (codes cs) := by
  intro c hc
  obtain ⟨d, -, rfl⟩ := mem_map.1 hc
  rcases d.valid with h | h
  · exact .inl h
  · exact .inr ⟨by have := h.1; simp only [Char.toNat]; omega, h.2⟩

/-! ### Lines -/

def isLineBreak (c : ℕ) : Bool :=
  (10 ≤ c ∧ c ≤ 13) ∨ (0x1C ≤ c ∧ c ≤ 0x1E) ∨ c = 0x85 ∨ c = 0x2028 ∨ c = 0x2029

def consHead (c : ℕ) : List Str → List Str
  | [] => [[c]]
  | l :: ls => (c :: l) :: ls

/-- `s.splitlines()`. -/
def splitLines : Str → List Str
  | [] => []
  | 13 :: 10 :: s => [] :: splitLines s
  | c :: s => if isLineBreak c then [] :: splitLines s else consHead c (splitLines s)

theorem splitLines_cons (h : isLineBreak c = false) :
    splitLines (c :: s) = consHead c (splitLines s) := by
  have hne : c ≠ 13 := by rintro rfl; cases h
  rw [splitLines, if_neg (by simp [h])]
  exact fun _ hc _ => hne hc

theorem splitLines_line (h : ∀ c ∈ l, isLineBreak c = false) :
    splitLines (l ++ 10 :: s) = l :: splitLines s := by
  induction l with
  | nil =>
    rw [nil_append, splitLines, if_pos (by decide)]
    nofun
  | cons c l ih =>
    rw [cons_append, splitLines_cons (h c mem_cons_self),
      ih fun d hd => h d (mem_cons_of_mem _ hd), consHead]

theorem mem_join (hsep : c ∉ sep) : ∀ {xs : List (List Char)},
    c ∈ join sep xs → ∃ x ∈ xs, c ∈ x
  | [x], h => ⟨x, mem_cons_self, h⟩
  | x :: y :: xs, h => by
    rcases mem_append.1 h with h | h
    · exact ⟨x, mem_cons_self, h⟩
    rcases mem_append.1 h with h | h
    · exact absurd h hsep
    · obtain ⟨z, hz, hc⟩ := mem_join hsep h
      exact ⟨z, mem_cons_of_mem _ hz, hc⟩

/-- `s.strip()`. -/
def strip (s : Str) : Str :=
  ((s.dropWhile isSpaceCode).reverse.dropWhile isSpaceCode).reverse

theorem strip_of_ends (hhead : ∀ c ∈ s.head?, isSpaceCode c = false)
    (hlast : ∀ c ∈ s.getLast?, isSpaceCode c = false) : strip s = s := by
  rw [strip, dropWhile_of_head hhead, dropWhile_of_head, reverse_reverse]
  rw [head?_reverse]
  exact hlast

/-! ### Lists -/

section
variable {α β : Type} {R : α → β → Prop} {n : ℕ}

section
variable {α β ε : Type} {x : Except ε α} {f : α → Except ε β}

theorem bind_error {e : ε} (h : x >>= f = .error e) :
    x = .error e ∨ ∃ a, x = .ok a ∧ f a = .error e := by
  cases x with
  | error e' => exact .inl (congrArg _ (Except.error.inj h))
  | ok a => exact .inr ⟨a, rfl, h⟩

theorem bind_ok {b : β} (h : x >>= f = .ok b) : ∃ a, x = .ok a ∧ f a = .ok b := by
  cases x with
  | error e' => cases h
  | ok a => exact ⟨a, rfl, h⟩

end

/-- `[f(x) for x in xs]`, when no item raises: item by item. -/
theorem mapM_eq_some : ∀ {xs : List α} {ys : List β},
    xs.mapM f = some ys ↔ List.Forall₂ (fun x y => f x = some y) xs ys
  | [], ys => by
    rw [mapM_nil, forall₂_nil_left_iff]
    exact ⟨fun h => (Option.some.inj h).symm, fun h => h ▸ rfl⟩
  | x :: xs, ys => by
    rw [mapM_cons, forall₂_cons_left_iff]
    constructor
    · intro h
      obtain ⟨y, hy, h⟩ := Option.bind_eq_some_iff.1 h
      obtain ⟨ys', hys, h⟩ := Option.bind_eq_some_iff.1 h
      cases h
      exact ⟨y, ys', hy, mapM_eq_some.1 hys, rfl⟩
    · rintro ⟨y, ys', hy, hys, rfl⟩
      rw [hy, mapM_eq_some.2 hys]
      rfl

theorem exists_of_forall₂ (h : List.Forall₂ R xs ys) : ∀ x ∈ xs, ∃ y ∈ ys, R x y := by
  induction h with
  | nil => nofun
  | @cons x y xs ys hxy _ ih =>
    intro a ha
    rcases mem_cons.1 ha with rfl | ha
    · exact ⟨y, mem_cons_self, hxy⟩
    · obtain ⟨b, hb, hab⟩ := ih a ha
      exact ⟨b, mem_cons_of_mem _ hb, hab⟩

theorem forall₂_of_exists : ∀ {xs : List α}, (∀ x ∈ xs, ∃ y, R x y) →
    ∃ ys, List.Forall₂ R xs ys
  | [], _ => ⟨[], .nil⟩
  | x :: xs, h => by
    obtain ⟨y, hy⟩ := h x mem_cons_self
    obtain ⟨ys, hys⟩ := forall₂_of_exists fun a ha => h a (mem_cons_of_mem _ ha)
    exact ⟨y :: ys, .cons hy hys⟩

theorem mapM_eq_ok {ε : Type} {f : α → Except ε β} : ∀ {xs : List α} {ys : List β},
    xs.mapM f = .ok ys ↔ List.Forall₂ (fun x y => f x = .ok y) xs ys
  | [], ys => by
    rw [mapM_nil, forall₂_nil_left_iff]
    exact ⟨fun h => (Except.ok.inj h).symm, fun h => h ▸ rfl⟩
  | x :: xs, ys => by
    rw [mapM_cons, forall₂_cons_left_iff]
    constructor
    · intro h
      obtain ⟨y, hy, h⟩ := bind_ok h
      obtain ⟨ys', hys, h⟩ := bind_ok h
      cases h
      exact ⟨y, ys', hy, mapM_eq_ok.1 hys, rfl⟩
    · rintro ⟨y, ys', hy, hys, rfl⟩
      rw [hy, mapM_eq_ok.2 hys]
      rfl

/-- The batches of `xs`, at most `fuel` of them. -/
def batches (n : ℕ) : (fuel : ℕ) → List α → List (List α)
  | 0, _ => []
  | _ + 1, [] => []
  | fuel + 1, x :: xs => (x :: xs).take n :: batches n fuel ((x :: xs).drop n)

/-- `itertools.batched(xs, n)`, for `n ≥ 1`. -/
def batched (n : ℕ) (xs : List α) : List (List α) := batches n xs.length xs

theorem flatten_batches (hn : 1 ≤ n) : ∀ (fuel : ℕ) (xs : List α), xs.length ≤ fuel →
    (batches n fuel xs).flatten = xs
  | 0, xs, h => by rw [eq_nil_of_length_eq_zero (Nat.le_zero.1 h)]; rfl
  | _ + 1, [], _ => rfl
  | fuel + 1, x :: xs, h => by
    have hlen : ((x :: xs).drop n).length ≤ fuel := by
      rw [length_drop]
      omega
    rw [batches, flatten_cons, flatten_batches hn fuel _ hlen, take_append_drop]

theorem flatten_batched (hn : 1 ≤ n) (xs : List α) : (batched n xs).flatten = xs :=
  flatten_batches hn xs.length xs (Nat.le_refl _)

theorem batches_ne_nil (hn : 1 ≤ n) : ∀ (fuel : ℕ) (xs : List α),
    ∀ b ∈ batches n fuel xs, b ≠ []
  | fuel + 1, x :: xs, b, hb => by
    rcases mem_cons.1 hb with rfl | hb
    · obtain ⟨k, rfl⟩ := Nat.exists_eq_add_of_le' hn
      nofun
    · exact batches_ne_nil hn fuel _ b hb

theorem batched_ne_nil (hn : 1 ≤ n) {xs b : List α} (hb : b ∈ batched n xs) : b ≠ [] :=
  batches_ne_nil hn xs.length xs b hb

end

end Fallow.Lib.PyStr
