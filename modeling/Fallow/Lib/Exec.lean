import Mathlib

/-! Programs over a state that can stop with an error and keep the state they reached.

    Request handlers have this shape: statements on shared state, an exception that ends the request,
    no way back. `exec` runs one; the `exec_*` lemmas run it step by step. `Frames view m` says that
    `m` leaves a part of the state alone however it ends; it is proved along the program's binds. -/

namespace Fallow.Lib

abbrev Exec (σ ε : Type) := ExceptT ε (StateM σ)

variable {σ ε α β γ : Type} {f : σ → σ} {m : Exec σ ε α}

namespace Exec

def exec (m : Exec σ ε α) (s : σ) : Except ε α × σ := m s

@[simp] theorem exec_get : (get : Exec σ ε σ).exec s = (.ok s, s) := rfl

@[simp] theorem exec_modify : (modify f : Exec σ ε Unit).exec s = (.ok (), f s) := rfl

theorem exec_bind (m : Exec σ ε α) (f : α → Exec σ ε γ) (s : σ) :
    (m >>= f).exec s = match m.exec s with
      | (.ok a, t) => (f a).exec t
      | (.error e, t) => (.error e, t) := by
  simp only [ExceptT.bind, ExceptT.mk, exec, bind, StateT.bind]
  rcases m s with ⟨r, t⟩
  cases r <;> rfl

theorem exec_bind_ok {f : α → Exec σ ε γ}
    (h : m.exec s = (.ok a, t)) : (m >>= f).exec s = (f a).exec t := by
  rw [exec_bind, h]

theorem exec_bind_error {f : α → Exec σ ε γ}
    (h : m.exec s = (.error e, t)) : (m >>= f).exec s = (.error e, t) := by
  rw [exec_bind, h]

end Exec

/-! ### Frames -/

/-- FRAME: `view` reads the same before and after, also when the program stops with an error. -/
def Frames (view : σ → β) (m : Exec σ ε α) : Prop := ∀ s, view (m.exec s).2 = view s

namespace Frames

variable {view : σ → β}

theorem pure (a : α) : Frames view (pure a : Exec σ ε α) := fun _ => rfl

theorem throw (e : ε) : Frames view (throw e : Exec σ ε α) := fun _ => rfl

theorem get : Frames view (get : Exec σ ε σ) := fun _ => rfl

theorem modify (h : ∀ s, view (f s) = view s) : Frames view (modify f : Exec σ ε Unit) := h

theorem bind {f : α → Exec σ ε γ} (hm : Frames view m)
    (hf : ∀ a, Frames view (f a)) : Frames view (m >>= f) := by
  intro s
  have h := hm s
  rw [Exec.exec_bind]
  rcases hx : m.exec s with ⟨_ | a, t⟩ <;> rw [hx] at h
  · exact h
  · exact (hf a t).trans h

end Frames

end Fallow.Lib
