import Fallow.Lib.Json

/-! Numbers written in one width, so that the order of the texts is the order of the numbers.

        f (x / k)  ++  g (x % k)        parts that sort make a whole that sorts -/

namespace Fallow.Lib
open List Json

/-- Below `n`, `f` writes numbers in `w` characters, in their order. -/
structure Sorts (w n : ℕ) (f : ℕ → List Char) : Prop where
  width : ∀ x < n, (f x).length = w
  mono : ∀ y < n, ∀ x < y, f x < f y

theorem append_lt_append : ∀ {a b : List Char} (s t : List Char), a < b → a.length = b.length →
    a ++ s < b ++ t
  | [], [], _, _, h, _ => absurd h (List.lt_irrefl _)
  | c :: a, d :: b, s, t, h, hlen => by
    rw [cons_append, cons_append]
    rw [cons_lt_cons_iff] at h ⊢
    exact h.imp_right fun ⟨hc, h⟩ => ⟨hc, append_lt_append s t h (Nat.succ.inj hlen)⟩

variable {w v n k m : ℕ} {f g : ℕ → List Char}

theorem Sorts.lt_iff (h : Sorts w n f) {x y : ℕ} (hx : x < n) (hy : y < n) : f x < f y ↔ x < y := by
  refine ⟨fun hlt => ?_, h.mono y hy x⟩
  rcases Nat.lt_trichotomy x y with hxy | rfl | hyx
  · exact hxy
  · exact absurd hlt (List.lt_irrefl _)
  · exact absurd hlt (List.lt_asymm (h.mono x hx y hyx))

theorem Sorts.le (h : Sorts w n f) (hm : m ≤ n) : Sorts w m f :=
  ⟨fun x hx => h.width x (by omega), fun y hy => h.mono y (by omega)⟩

theorem Sorts.cons (h : Sorts w n f) (c : Char) : Sorts (w + 1) n (c :: f ·) :=
  ⟨fun x hx => congrArg (· + 1) (h.width x hx),
    fun y hy x hxy => cons_lt_cons_iff.2 (.inr ⟨rfl, h.mono y hy x hxy⟩)⟩

theorem Sorts.concat (h : Sorts w n f) (t : List Char) : Sorts (w + t.length) n (f · ++ t) :=
  ⟨fun x hx => by rw [length_append, h.width x hx],
    fun y hy x hxy => append_lt_append t t (h.mono y hy x hxy)
      (by rw [h.width x (by omega), h.width y hy])⟩

theorem Sorts.of_succ (hw : ∀ x < n, (f x).length = w) (hs : ∀ x < n - 1, f x < f (x + 1)) :
    Sorts w n f := by
  refine ⟨hw, fun y hy x hxy => ?_⟩
  induction y with
  | zero => omega
  | succ y ih =>
    have hstep := hs y (by omega)
    rcases Nat.lt_or_eq_of_le (Nat.le_of_lt_succ hxy) with h | rfl
    · exact List.lt_trans (ih (by omega) h) hstep
    · exact hstep

/-- Two parts, the second written in a way that may depend on the first. -/
theorem Sorts.lex {p q : ℕ → ℕ} {g : ℕ → ℕ → List Char} {k : ℕ → ℕ} (hf : Sorts w m f)
    (hg : ∀ i, Sorts v (k i) (g i)) (hp : ∀ x < n, p x < m) (hq : ∀ x < n, q x < k (p x))
    (hlt : ∀ y < n, ∀ x < y, p x < p y ∨ p x = p y ∧ q x < q y) :
    Sorts (w + v) n fun x => f (p x) ++ g (p x) (q x) where
  width x hx := by rw [length_append, hf.width _ (hp x hx), (hg _).width _ (hq x hx)]
  mono y hy x hxy := by
    have hx : x < n := by omega
    rcases hlt y hy x hxy with h | ⟨he, h⟩
    · exact append_lt_append _ _ (hf.mono _ (hp y hy) _ h)
        (by rw [hf.width _ (hp x hx), hf.width _ (hp y hy)])
    · rw [he]
      exact append_left_lt ((hg _).mono _ (hq y hy) _ h)

theorem Sorts.pair (hf : Sorts w m f) (hg : Sorts v k g) :
    Sorts (w + v) (m * k) fun x => f (x / k) ++ g (x % k) := by
  have hk (x : ℕ) (hx : x < m * k) : 0 < k := Nat.pos_of_mul_pos_left (Nat.zero_lt_of_lt hx)
  refine hf.lex (g := fun _ => g) (k := fun _ => k) (fun _ => hg)
    (fun x hx => Nat.div_lt_of_lt_mul (Nat.mul_comm m k ▸ hx))
    (fun x hx => Nat.mod_lt x (hk x hx)) fun y _ x hxy => ?_
  rcases Nat.lt_or_eq_of_le (Nat.div_le_div_right (c := k) (Nat.le_of_lt hxy)) with h | h
  · exact .inl h
  · have hx := Nat.div_add_mod x k
    have hy := Nat.div_add_mod y k
    rw [h] at hx
    exact .inr ⟨h, by omega⟩

/-- A number in `w` decimal digits. -/
def pad : ℕ → ℕ → List Char
  | 0, _ => []
  | w + 1, n => pad w (n / 10) ++ [digitChar (n % 10)]

theorem sorts_pad : ∀ w, Sorts w (10 ^ w) (pad w)
  | 0 => ⟨fun _ _ => rfl, by omega⟩
  | w + 1 =>
    have hdigit : Sorts 1 10 ([digitChar ·]) := ⟨fun _ _ => rfl, by decide⟩
    (sorts_pad w).pair hdigit

end Fallow.Lib
