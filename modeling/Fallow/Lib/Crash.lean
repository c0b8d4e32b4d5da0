import Fallow.Lib.Run

/-! Programs of atomic commands on a store that outlives them, and what they leave behind when they
    are killed.

    A program is a tree of commands; the outside (`V`) decides how each one goes. A host runs one
    program at a time and may be killed between any two commands: the program is gone, the store is
    as the last command left it.

        start j        step v          step v               (returns)
      ∅ ───────▶ body j ───▶ k a ───▶ ⋯ ───▶ ret r / raise e ───▶ ∅
                   │           │        │
                   └───────────┴────────┴──── kill ──▶ ∅

    `Safe I Q p s` is the rule for both ends of a program. `I c` holds of the store whenever command
    `c` is next, so it is what a kill at that point leaves, and `Q` holds when the program ends by
    itself. `Safe.bind` and `Safe.attempt` follow the program's text, `Keeps.reach` lifts the result
    to whole histories of starts, steps and kills, and `Safe.exec` to one undisturbed run. -/

namespace Fallow.Lib.Crash

variable {C : Type} {A : C → Type} {σ V E R S J : Type}

/-- A program over commands `c`, each answered by an `A c`. -/
inductive Prog (A : C → Type) (E R : Type) where
  | ret (r : R)
  | raise (e : E)
  | op (c : C) (k : A c → Prog A E R)

variable {f : R → Prog A E S} {v : V} {c : C} {p : Prog A E R} {s : σ}
  {sem : (c : C) → V → σ → A c × σ} {may : C → σ → V → Prop} {I : Option C → σ → Prop}

namespace Prog

def bind : Prog A E R → (R → Prog A E S) → Prog A E S
  | .ret r, f => f r
  | .raise e, _ => .raise e
  | .op c k, f => .op c fun a => (k a).bind f

/-- `try`: an exception becomes a value. -/
def attempt : Prog A E R → Prog A E (Except E R)
  | .ret r => .ret (.ok r)
  | .raise e => .ret (.error e)
  | .op c k => .op c fun a => (k a).attempt

instance : Monad (Prog A E) where
  pure := .ret
  bind := bind

def perform (c : C) : Prog A E (A c) := .op c .ret

theorem bind_ret : ∀ (p : Prog A E R), p >>= .ret = p
  | .ret _ | .raise _ => rfl
  | .op c k => congrArg (Prog.op c) (funext fun a => bind_ret (k a))

theorem bind_assoc {T : Type} {g : S → Prog A E T} : ∀ (p : Prog A E R),
    p >>= f >>= g = p >>= fun r => f r >>= g
  | .ret _ | .raise _ => rfl
  | .op c k => congrArg (Prog.op c) (funext fun a => bind_assoc (k a))

/-- The store when the program is killed before the next command, the outside having answered `vs`. -/
def after (sem : (c : C) → V → σ → A c × σ) : Prog A E R → σ → List V → σ
  | .ret _, s, _ => s
  | .raise _, s, _ => s
  | .op _ _, s, [] => s
  | .op c k, s, v :: vs => (k (sem c v s).1).after sem (sem c v s).2 vs

/-- The program run to its end in one environment, undisturbed. -/
def exec (sem : (c : C) → V → σ → A c × σ) (v : V) : Prog A E R → σ → Except E R × σ
  | .ret r, s => (.ok r, s)
  | .raise e, s => (.error e, s)
  | .op c k, s => (k (sem c v s).1).exec sem v (sem c v s).2

/-- The program run to its end, the outside answering `vs` and `v` from then on. -/
def play (sem : (c : C) → V → σ → A c × σ) (v : V) : Prog A E R → σ → List V → Except E R × σ
  | .ret r, s, _ => (.ok r, s)
  | .raise e, s, _ => (.error e, s)
  | .op c k, s, vs =>
    (k (sem c (vs.headD v) s).1).play sem v (sem c (vs.headD v) s).2 vs.tail

/-- The answers of that run keep to `may`. -/
def Meets (sem : (c : C) → V → σ → A c × σ) (may : C → σ → V → Prop) (v : V) :
    Prog A E R → σ → List V → Prop
  | .ret _, _, _ => True
  | .raise _, _, _ => True
  | .op c k, s, vs => may c s (vs.headD v) ∧
      (k (sem c (vs.headD v) s).1).Meets sem may v (sem c (vs.headD v) s).2 vs.tail

instance (sem : (c : C) → V → σ → A c × σ) (may : C → σ → V → Prop) [∀ c s v, Decidable (may c s v)]
    (v : V) : ∀ (p : Prog A E R) (s : σ) (vs : List V), Decidable (p.Meets sem may v s vs)
  | .ret _, _, _ => isTrue trivial
  | .raise _, _, _ => isTrue trivial
  | .op c k, s, vs =>
    have := instDecidableMeets sem may v (k (sem c (vs.headD v) s).1) (sem c (vs.headD v) s).2 vs.tail
    inferInstanceAs (Decidable (_ ∧ _))

theorem Meets.of_forall :
    ∀ {p : Prog A E R} {s : σ} {vs : List V}, (∀ c s, ∀ u ∈ v :: vs, may c s u) →
      p.Meets sem may v s vs
  | .ret _, _, _, _ | .raise _, _, _, _ => trivial
  | .op c _, s, [], h => ⟨h c s v List.mem_cons_self, Meets.of_forall h⟩
  | .op c _, s, u :: _, h => ⟨h c s u (List.mem_cons_of_mem _ List.mem_cons_self),
      Meets.of_forall fun c s u' hu' => h c s u' (List.mem_cons.2 ((List.mem_cons.1 hu').imp_right
        (List.mem_cons_of_mem _)))⟩

section
variable {s t : σ} {e : E}

@[simp] theorem exec_pure (r : R) : (pure r : Prog A E R).exec sem v s = (.ok r, s) := rfl

theorem exec_perform {f : A c → Prog A E R} :
    (perform c >>= f).exec sem v s = (f (sem c v s).1).exec sem v (sem c v s).2 := rfl

variable {f : R → Prog A E S}

theorem exec_bind : ∀ {p : Prog A E R} {s : σ},
    (p >>= f).exec sem v s = match p.exec sem v s with
      | (.ok r, t) => (f r).exec sem v t
      | (.error e, t) => (.error e, t)
  | .ret _, _ | .raise _, _ => rfl
  | .op c k, s => exec_bind (p := k (sem c v s).1)

theorem exec_bind_ok
    (h : p.exec sem v s = (.ok r, t)) : (p >>= f).exec sem v s = (f r).exec sem v t := by
  rw [exec_bind, h]

theorem exec_bind_error
    (h : p.exec sem v s = (.error e, t)) : (p >>= f).exec sem v s = (.error e, t) := by
  rw [exec_bind, h]

theorem exec_attempt : ∀ {p : Prog A E R} {s : σ},
    p.attempt.exec sem v s = (.ok (p.exec sem v s).1, (p.exec sem v s).2)
  | .ret _, _ | .raise _, _ => rfl
  | .op c k, s => exec_attempt (p := k (sem c v s).1)

end

end Prog

/-! ### Crash conditions -/

variable (sem may I) in
/-- `I c` whenever command `c` is next and `Q` at the end, whatever the outside answers as long as
    it keeps to `may`. -/
def Safe (Q : Except E R → σ → Prop) : Prog A E R → σ → Prop
  | .ret r, s => Q (.ok r) s
  | .raise e, s => Q (.error e) s
  | .op c k, s => I (some c) s ∧
      ∀ v, may c s v → Safe Q (k (sem c v s).1) (sem c v s).2

section
variable {Q : Except E R → σ → Prop}

theorem Safe.ite [Decidable b] (hp : b → Safe sem may I Q p s) (hq : ¬ b → Safe sem may I Q q s) :
    Safe sem may I Q (if b then p else q) s := by
  by_cases h : b
  · rw [if_pos h]; exact hp h
  · rw [if_neg h]; exact hq h

/-- A command, then the rest of the program. -/
theorem Safe.perform {f : A c → Prog A E R} (hI : I (some c) s)
    (h : ∀ v, may c s v → Safe sem may I Q (f (sem c v s).1) (sem c v s).2) :
    Safe sem may I Q (Prog.perform c >>= f) s := ⟨hI, h⟩

variable {P : Except E R → σ → Prop}

theorem Safe.bind {Q : Except E S → σ → Prop} (hok : ∀ r t, P (.ok r) t → Safe sem may I Q (f r) t)
    (herr : ∀ e t, P (.error e) t → Q (.error e) t) : ∀ {p : Prog A E R} {s : σ},
    Safe sem may I P p s → Safe sem may I Q (p >>= f) s
  | .ret _, _, hp => hok _ _ hp
  | .raise _, _, hp => herr _ _ hp
  | .op _ _, _, hp => ⟨hp.1, fun v hv => Safe.bind hok herr (hp.2 v hv)⟩

/-- A tried program, then what its outcome leads to. -/
theorem Safe.attempt {Q : Except E S → σ → Prop}
    {f : Except E R → Prog A E S} (hf : ∀ r t, P r t → Safe sem may I Q (f r) t) :
    ∀ {p : Prog A E R} {s : σ}, Safe sem may I P p s → Safe sem may I Q (p.attempt >>= f) s
  | .ret _, _, hp | .raise _, _, hp => hf _ _ hp
  | .op _ _, _, hp => ⟨hp.1, fun v hv => Safe.attempt hf (hp.2 v hv)⟩

theorem Safe.mono (h : ∀ r t, P r t → Q r t) :
    ∀ {p : Prog A E R} {s : σ}, Safe sem may I P p s → Safe sem may I Q p s
  | .ret _, _, hp | .raise _, _, hp => h _ _ hp
  | .op _ _, _, hp => ⟨hp.1, fun v hv => Safe.mono h (hp.2 v hv)⟩

/-- One undisturbed run ends as the rule says. -/
theorem Safe.exec (hv : ∀ c s, may c s v) :
    ∀ {p : Prog A E R} {s : σ}, Safe sem may I Q p s → Q (p.exec sem v s).1 (p.exec sem v s).2
  | .ret _, _, hp | .raise _, _, hp => hp
  | .op c _, s, hp => by
    have hrest := Safe.exec hv (hp.2 v (hv c s))
    exact hrest

/-- A run whose answers keep to `may` ends as the rule says. -/
theorem Safe.play : ∀ {p : Prog A E R} {s : σ} {vs : List V},
    Safe sem may I Q p s → p.Meets sem may v s vs →
    Q (p.play sem v s vs).1 (p.play sem v s vs).2
  | .ret _, _, _, hp, _ | .raise _, _, _, hp, _ => hp
  | .op _ _, _, _, hp, hm => by
    have hrest := Safe.play (hp.2 _ hm.1) hm.2
    exact hrest

/-- With one condition throughout, the rule says exactly that a kill at any point leaves it. -/
theorem safe_iff_after {P : σ → Prop} : ∀ {p : Prog A E R} {s : σ},
    Safe sem (fun _ _ _ => True) (fun _ => P) (fun _ => P) p s ↔ ∀ vs, P (p.after sem s vs)
  | .ret _, _ | .raise _, _ => ⟨fun h _ => h, fun h => h []⟩
  | .op c k, s => by
    constructor
    · rintro ⟨hs, hk⟩ (_ | ⟨v, vs⟩)
      · exact hs
      · exact safe_iff_after.1 (hk v trivial) vs
    · intro h
      exact ⟨h [], fun v _ => safe_iff_after.2 fun vs => h (v :: vs)⟩

end

/-! ### Verdicts -/

/-- `G` at the end of a run whose answers all keep to `may`, `B` at the end of every other. -/
def Judged (sem : (c : C) → V → σ → A c × σ) (may : C → σ → V → Prop)
    (G B : Except E R → σ → Prop) : Prog A E R → σ → Prop
  | .ret r, s => G (.ok r) s
  | .raise e, s => G (.error e) s
  | .op c k, s => ∀ v, (may c s v → Judged sem may G B (k (sem c v s).1) (sem c v s).2) ∧
      (¬ may c s v → Safe sem (fun _ _ _ => True) (fun _ _ => True) B
        (k (sem c v s).1) (sem c v s).2)

section
variable {G B : Except E R → σ → Prop}

/-- A command, then the rest of the program. -/
theorem Judged.perform {f : A c → Prog A E R}
    (hmay : ∀ v, may c s v → Judged sem may G B (f (sem c v s).1) (sem c v s).2)
    (hnot : ∀ v, ¬ may c s v → Safe sem (fun _ _ _ => True) (fun _ _ => True) B
      (f (sem c v s).1) (sem c v s).2) :
    Judged sem may G B (Prog.perform c >>= f) s := fun v => ⟨hmay v, hnot v⟩

theorem Judged.bind (hok : ∀ r t, G (.ok r) t → Judged sem may G' B' (f r) t)
    (herr : ∀ e t, G (.error e) t → G' (.error e) t)
    (hok' : ∀ r t, B (.ok r) t → Safe sem (fun _ _ _ => True) (fun _ _ => True) B' (f r) t)
    (herr' : ∀ e t, B (.error e) t → B' (.error e) t) : ∀ {p : Prog A E R} {s : σ},
    Judged sem may G B p s → Judged sem may G' B' (p >>= f) s
  | .ret _, _, hp => hok _ _ hp
  | .raise _, _, hp => herr _ _ hp
  | .op _ _, _, hp => fun v => ⟨fun hv => Judged.bind hok herr hok' herr' ((hp v).1 hv),
      fun hv => Safe.bind hok' herr' ((hp v).2 hv)⟩

theorem Judged.attempt
    {f : Except E R → Prog A E S} (hf : ∀ r t, G r t → Judged sem may G' B' (f r) t)
    (hf' : ∀ r t, B r t → Safe sem (fun _ _ _ => True) (fun _ _ => True) B' (f r) t) :
    ∀ {p : Prog A E R} {s : σ}, Judged sem may G B p s →
      Judged sem may G' B' (p.attempt >>= f) s
  | .ret _, _, hp | .raise _, _, hp => hf _ _ hp
  | .op _ _, _, hp => fun v => ⟨fun hv => Judged.attempt hf hf' ((hp v).1 hv),
      fun hv => Safe.attempt hf' ((hp v).2 hv)⟩

theorem Judged.mono (hG : ∀ r t, G r t → G' r t)
    (hB : ∀ r t, B r t → B' r t) : ∀ {p : Prog A E R} {s : σ},
    Judged sem may G B p s → Judged sem may G' B' p s
  | .ret _, _, hp | .raise _, _, hp => hG _ _ hp
  | .op _ _, _, hp => fun v => ⟨fun hv => Judged.mono hG hB ((hp v).1 hv),
      fun hv => Safe.mono hB ((hp v).2 hv)⟩

/-- Every run ends in one of the two. -/
theorem Judged.safe : ∀ {p : Prog A E R} {s : σ},
    Judged sem may G B p s →
    Safe sem (fun _ _ _ => True) (fun _ _ => True) (fun r t => G r t ∨ B r t) p s
  | .ret _, _, hp | .raise _, _, hp => .inl hp
  | .op c k, s, hp => ⟨trivial, fun v _ => by
      by_cases hv : may c s v
      · exact Judged.safe ((hp v).1 hv)
      · exact Safe.mono (fun _ _ hb => .inr hb) ((hp v).2 hv)⟩

/-- A run is judged by whether its answers keep to `may`. -/
theorem Judged.play : ∀ {p : Prog A E R} {s : σ},
    Judged sem may G B p s → ∀ vs : List V,
    (p.Meets sem may v s vs → G (p.play sem v s vs).1 (p.play sem v s vs).2) ∧
    (¬ p.Meets sem may v s vs → B (p.play sem v s vs).1 (p.play sem v s vs).2)
  | .ret _, _, hp, _ | .raise _, _, hp, _ => ⟨fun _ => hp, fun hm => absurd trivial hm⟩
  | .op c k, s, hp, vs => by
    obtain ⟨hmay, hnot⟩ := hp (vs.headD v)
    refine ⟨fun hm => (Judged.play (hmay hm.1) vs.tail).1 hm.2, fun hm => ?_⟩
    by_cases hv : may c s (vs.headD v)
    · exact (Judged.play (hmay hv) vs.tail).2 fun hrest => hm ⟨hv, hrest⟩
    · exact (hnot hv).play (.of_forall fun _ _ _ _ => trivial)

end

/-! ### Programs that only look -/

/-- FRAME: no command of the program changes the store. -/
def Looks (sem : (c : C) → V → σ → A c × σ) : Prog A E R → Prop
  | .ret _ | .raise _ => True
  | .op c k => (∀ v s, (sem c v s).2 = s) ∧ ∀ a, Looks sem (k a)

theorem Looks.perform {f : A c → Prog A E R} (hc : ∀ v s, (sem c v s).2 = s)
    (hf : ∀ a, Looks sem (f a)) : Looks sem (Prog.perform c >>= f) := ⟨hc, hf⟩

theorem Looks.bind (hf : ∀ r, Looks sem (f r)) :
    ∀ {p : Prog A E R}, Looks sem p → Looks sem (p >>= f)
  | .ret r, _ => hf r
  | .raise _, _ => trivial
  | .op _ _, hp => ⟨hp.1, fun a => Looks.bind hf (hp.2 a)⟩

theorem Looks.safe (hI : ∀ c, I c s) :
    ∀ {p : Prog A E R}, Looks sem p → Safe sem may I (fun _ t => t = s) p s
  | .ret _, _ | .raise _, _ => rfl
  | .op c k, hp => ⟨hI _, fun v _ => by
      rw [hp.1 v s]
      exact Looks.safe hI (hp.2 (sem c v s).1)⟩

/-! ### Hosts -/

/-- The store and the program that runs on it. -/
structure Host (A : C → Type) (σ E R : Type) where
  store : σ
  running : Option (Prog A E R) := none

inductive Act (J V : Type) where
  | start (j : J)
  | step (v : V)
  | kill

/-- The command the host stands before. -/
def Host.next (s : Host A σ E R) : Option C :=
  match s.running with
  | some (.op c _) => some c
  | _ => none

/-- One action. A second start waits for the running program, a finished one makes way. -/
def step (sem : (c : C) → V → σ → A c × σ) (body : J → Prog A E R) (s : Host A σ E R) :
    Act J V → Host A σ E R
  | .start j => match s.running with
    | some _ => s
    | none => { s with running := some (body j) }
  | .step v => match s.running with
    | some (.op c k) => ⟨(sem c v s.store).2, some (k (sem c v s.store).1)⟩
    | _ => { s with running := none }
  | .kill => { s with running := none }

/-- The outside keeps to `may` at each command, kills only where `mayKill`, and starts only `jobs`. -/
def Allowed (may : C → σ → V → Prop) (mayKill : Option C → σ → Prop) (jobs : J → Prop)
    (s : Host A σ E R) : Act J V → Prop
  | .start j => jobs j
  | .step v => ∀ c, s.next = some c → may c s.store v
  | .kill => mayKill s.next s.store

section
variable {mayKill : Option C → σ → Prop} {jobs : J → Prop} {body : J → Prog A E R}

/-- The running program is safe and ends with `I none`; without one `I none` holds. -/
def Keeps (sem : (c : C) → V → σ → A c × σ) (may : C → σ → V → Prop) (I : Option C → σ → Prop)
    (s : Host A σ E R) : Prop :=
  match s.running with
  | none => I none s.store
  | some p => Safe sem may I (fun _ t => I none t) p s.store

variable {s : Host A σ E R}

/-- INVARIANT: the store meets the crash condition of the command the host stands before. -/
theorem Keeps.next (h : Keeps sem may I s) : I s.next s.store := by
  rcases s with ⟨t, _ | _ | _ | ⟨c, k⟩⟩
  · exact h
  · exact h
  · exact h
  · exact h.1

variable (hstart : ∀ j s, jobs j → I none s → Safe sem may I (fun _ t => I none t) (body j) s)
  (hkill : ∀ c s, I c s → mayKill c s → I none s)
include hstart hkill

theorem Keeps.step (h : Keeps sem may I s) (ha : Allowed may mayKill jobs s a) :
    Keeps sem may I (step sem body s a) := by
  cases a with
  | start j =>
    rcases s with ⟨t, _ | p⟩
    · exact hstart j t ha h
    · exact h
  | step v =>
    rcases s with ⟨t, _ | _ | _ | ⟨c, k⟩⟩
    · exact h
    · exact h
    · exact h
    · exact h.2 v (ha c rfl)
  | kill => exact hkill _ _ h.next ha

/-- INVARIANT: a crash condition kept by every job holds along every allowed history. -/
theorem Keeps.reach (h₀ : Keeps sem may I s₀)
    (h : Reach (Crash.step sem body) (Allowed may mayKill jobs) s₀ s) : Keeps sem may I s :=
  h.invariant (Keeps sem may I) h₀ fun _ _ hs ha => hs.step hstart hkill ha

end

end Fallow.Lib.Crash
