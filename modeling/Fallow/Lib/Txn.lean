import Fallow.Lib.Run

/-! Coroutines that share one database connection, one open transaction and one lock.

    A coroutine is a tree cut at its await points. The scheduler runs one atomic action of one
    coroutine at a time; statements act on the connection's working view, and `commit` and `rollback`
    act on the transaction as a whole, whoever wrote into it.

        working  = committed, then the pending statements
        commit   : pending statements join the log     (everyone's)
        rollback : pending statements are gone          (everyone's)

    `Disc` is the discipline a coroutine keeps: it rolls back only under the lock and never returns
    after that, it returns only once its writes are committed, and it leaves the lock with nothing
    pending unless it is about to raise. `returned_durable` is the consequence: while no rollback
    meets a pending write made outside the lock, what a returned coroutine wrote is in the log. -/

namespace Fallow.Lib.Txn
open Function List Option

/-- A coroutine over databases `D`, statements `W` and results `R`. A statement hands back its row
    count, `none` when it raises. -/
inductive Prog (D W R : Type) where
  | ret (r : R)
  | raise
  | read (k : D → Prog D W R)
  | exec (w : W) (k : Option ℕ → Prog D W R)
  | commit (k : Prog D W R)
  | rollback (k : Prog D W R)
  | acquire (k : Prog D W R)
  | release (k : Prog D W R)

/-- The connection, the lock and the coroutines; below them the history of the run. -/
structure Sys (D W R O : Type) where
  working : D
  committed : D
  lock : Option ℕ := none
  procs : ℕ → Option (Prog D W R) := fun _ => none
  /-- the call each coroutine runs -/
  ops : ℕ → Option O := fun _ => none
  /-- statements since the last commit or rollback, with their coroutine -/
  pending : List (ℕ × W) := []
  /-- committed statements -/
  log : List (ℕ × W) := []
  /-- all statements ever run -/
  issued : List (ℕ × W) := []
  /-- normal returns, in order -/
  returned : List (ℕ × R) := []

inductive Act (O : Type) where
  | spawn (i : ℕ) (op : O)
  | run (i : ℕ)

variable {D W R O : Type}

/-- Coroutine `i` goes on as `p`. -/
def Sys.next (s : Sys D W R O) (i : ℕ) (p : Prog D W R) : Sys D W R O :=
  { s with
    procs := update s.procs i (some p)
    returned := match p with
      | .ret r => s.returned ++ [(i, r)]
      | _ => s.returned }

/-- One scheduler step. A held lock blocks `acquire`; a finished coroutine has nothing to run. -/
def step (sem : W → D → D × Option ℕ) (body : O → Prog D W R) (s : Sys D W R O) :
    Act O → Sys D W R O
  | .spawn i op => match s.procs i with
    | some _ => s
    | none => { s.next i (body op) with ops := update s.ops i (some op) }
  | .run i => match s.procs i with
    | some (.read k) => s.next i (k s.working)
    | some (.exec w k) =>
      { s.next i (k (sem w s.working).2) with
        working := (sem w s.working).1
        pending := s.pending ++ [(i, w)]
        issued := s.issued ++ [(i, w)] }
    | some (.commit k) =>
      { s.next i k with committed := s.working, log := s.log ++ s.pending, pending := [] }
    | some (.rollback k) => { s.next i k with working := s.committed, pending := [] }
    | some (.acquire k) => match s.lock with
      | none => { s.next i k with lock := some i }
      | some _ => s
    | some (.release k) => { s.next i k with lock := none }
    | _ => s

/-! ### What one step does -/

section
variable {sem : W → D → D × Option ℕ} {body : O → Prog D W R} {s : Sys D W R O} {i : ℕ} {op : O}

/-- The action of coroutine `i`, whose program is `p`, takes the system to `s'`. -/
inductive Fires (sem : W → D → D × Option ℕ) (s : Sys D W R O) (i : ℕ) :
    Prog D W R → Prog D W R → Sys D W R O → Prop where
  | read (k : D → Prog D W R) : Fires sem s i (.read k) (k s.working) (s.next i (k s.working))
  | exec (w : W) (k : Option ℕ → Prog D W R) :
      Fires sem s i (.exec w k) (k (sem w s.working).2)
        { s.next i (k (sem w s.working).2) with
          working := (sem w s.working).1
          pending := s.pending ++ [(i, w)]
          issued := s.issued ++ [(i, w)] }
  | commit (k : Prog D W R) :
      Fires sem s i (.commit k) k
        { s.next i k with committed := s.working, log := s.log ++ s.pending, pending := [] }
  | rollback (k : Prog D W R) :
      Fires sem s i (.rollback k) k { s.next i k with working := s.committed, pending := [] }
  | acquire (k : Prog D W R) (free : s.lock = none) :
      Fires sem s i (.acquire k) k { s.next i k with lock := some i }
  | release (k : Prog D W R) : Fires sem s i (.release k) k { s.next i k with lock := none }

theorem step_run : step sem body s (.run i) = s ∨
      ∃ p q s', s.procs i = some p ∧ Fires sem s i p q s' ∧ step sem body s (.run i) = s' := by
  cases hp : s.procs i with
  | none => exact .inl (by simp [step, hp])
  | some p =>
    cases p with
    | ret r | raise => exact .inl (by simp [step, hp])
    | read k => exact .inr ⟨_, _, _, rfl, .read k, by simp only [step, hp]⟩
    | exec w k => exact .inr ⟨_, _, _, rfl, .exec w k, by simp only [step, hp]⟩
    | commit k => exact .inr ⟨_, _, _, rfl, .commit k, by simp only [step, hp]⟩
    | rollback k => exact .inr ⟨_, _, _, rfl, .rollback k, by simp only [step, hp]⟩
    | release k => exact .inr ⟨_, _, _, rfl, .release k, by simp only [step, hp]⟩
    | acquire k =>
      cases hl : s.lock with
      | none => exact .inr ⟨_, _, _, rfl, .acquire k hl, by simp only [step, hp, hl]⟩
      | some j => exact .inl (by simp [step, hp, hl])

theorem step_spawn : step sem body s (.spawn i op) = s ∨ (s.procs i = none ∧
      step sem body s (.spawn i op)
        = { s.next i (body op) with ops := update s.ops i (some op) }) := by
  cases hp : s.procs i with
  | none => exact .inr ⟨rfl, by simp only [step, hp]⟩
  | some p => exact .inl (by simp only [step, hp])

variable {s s' : Sys D W R O} {i j : ℕ} {p q : Prog D W R} {d₀ : D} {d : Bool}

section
variable (h : Fires sem s i p q s')
include h

theorem Fires.procs : s'.procs = update s.procs i (some q) := by cases h <;> rfl

theorem Fires.ops : s'.ops = s.ops := by cases h <;> rfl

theorem Fires.returned : s'.returned = (s.next i q).returned := by cases h <;> rfl

end

/-! ### The log is the committed database -/

/-- Run logged statements on a database. -/
def replay (sem : W → D → D × Option ℕ) (d : D) (es : List (ℕ × W)) : D :=
  es.foldl (fun d e => (sem e.2 d).1) d

theorem replay_append (d : D) (es es' : List (ℕ × W)) :
    replay sem d (es ++ es') = replay sem (replay sem d es) es' := foldl_append

/-- The committed view is the log replayed, the working view the pending statements after it. -/
structure Replays (sem : W → D → D × Option ℕ) (d₀ : D) (s : Sys D W R O) : Prop where
  committed : s.committed = replay sem d₀ s.log
  working : s.working = replay sem s.committed s.pending

theorem Replays.step (h : Replays sem d₀ s) (a : Act O) :
    Replays sem d₀ (Txn.step sem body s a) := by
  cases a with
  | spawn i op =>
    rcases step_spawn with he | ⟨_, he⟩
    · rw [he]; exact h
    · rw [he]; exact { h with }
  | run i =>
    rcases step_run with he | ⟨p, q, s', _, hf, he⟩
    · rw [he]; exact h
    rw [he]
    cases hf with
    | read k => exact { h with }
    | exec w k =>
      refine ⟨h.committed, ?_⟩
      change _ = replay sem s.committed (s.pending ++ [(i, w)])
      rw [replay_append, ← h.working]; rfl
    | commit k =>
      refine ⟨?_, rfl⟩
      rw [replay_append, ← h.committed, h.working]
    | rollback k => exact ⟨h.committed, rfl⟩
    | acquire k _ | release k => exact { h with }

/-! ### A process that may die -/

inductive CrashAct (O : Type) where
  | act (a : Act O)
  | crash

/-- The open transaction and the coroutines are lost, the committed database is not. -/
def crash (s : Sys D W R O) : Sys D W R O :=
  { s with
    working := s.committed
    lock := none
    procs := fun i => (s.procs i).map fun _ => .raise
    pending := [] }

def crashStep (sem : W → D → D × Option ℕ) (body : O → Prog D W R) (s : Sys D W R O) :
    CrashAct O → Sys D W R O
  | .act a => step sem body s a
  | .crash => crash s

theorem Replays.crash (h : Replays sem d₀ s) : Replays sem d₀ (Txn.crash s) := ⟨h.committed, rfl⟩

/-! ### Discipline -/

/-- No path of the program returns normally. -/
def Hopeless : Prog D W R → Prop
  | .ret _ => False
  | .raise => True
  | .read k => ∀ d, Hopeless (k d)
  | .exec _ k => ∀ n, Hopeless (k n)
  | .commit k => Hopeless k
  | .rollback k => Hopeless k
  | .acquire k => Hopeless k
  | .release k => Hopeless k

/-- The discipline of a program that holds the lock iff `h` and has pending writes only if `d`. It
    runs statements that meet `may` only; with `g` it writes under the lock only, and only then may
    it roll back. -/
def Disc (g : Bool) (may : W → Prop) : (h d : Bool) → Prog D W R → Prop
  | h, d, .ret _ => h = false ∧ d = false
  | h, _, .raise => h = false
  | h, d, .read k => ∀ x, Disc g may h d (k x)
  | h, _, .exec w k => may w ∧ (g = true → h = true) ∧ ∀ n, Disc g may h true (k n)
  | h, _, .commit k => Disc g may h false k
  | h, _, .rollback k => g = true ∧ h = true ∧ Hopeless k ∧ Disc g may h false k
  | h, d, .acquire k => h = false ∧ d = false ∧ Disc g may true false k
  | h, d, .release k => h = true ∧ (d = true → Hopeless k) ∧ Disc g may false d k

/-- What is kept for a running coroutine: its discipline, and where its writes are. -/
structure ProcOk (g : Bool) (may : W → Prop) (s : Sys D W R O) (i : ℕ) (p : Prog D W R) (d : Bool) :
    Prop where
  disc : Disc g may (decide (s.lock = some i)) d p
  may : ∀ w, (i, w) ∈ s.issued → may w
  written : ∀ w, (i, w) ∈ s.issued → (i, w) ∈ s.log ∨ (i, w) ∈ s.pending ∨ Hopeless p
  dirty : ∀ w, (i, w) ∈ s.pending → d = true
  guarded : g = true → d = true → s.lock = some i ∨ Hopeless p

/-- A rollback meets no pending write of another coroutine made outside the lock. -/
def RollbackAlone (locked : O → Bool) (s : Sys D W R O) : Act O → Prop
  | .run i => ∀ k, s.procs i = some (.rollback k) → ∀ e ∈ s.pending, e.1 ≠ i →
      ∃ op, s.ops e.1 = some op ∧ locked op = true
  | .spawn _ _ => True

/-- Every coroutine keeps its discipline, and only coroutines have written. -/
structure Disciplined (locked : O → Bool) (may : O → W → Prop) (s : Sys D W R O) : Prop where
  procs : ∀ i p, s.procs i = some p →
    ∃ op d, s.ops i = some op ∧ ProcOk (locked op) (may op) s i p d
  writer : ∀ e ∈ s.issued, (s.procs e.1).isSome
  returner : ∀ e ∈ s.returned, (s.procs e.1).isSome
  holder : ∀ i, s.lock = some i → (s.procs i).isSome
  pending : ∀ e ∈ s.pending, e ∈ s.issued

/-- The coroutine that fires. -/
theorem ProcOk.fires {may : W → Prop} (h : ProcOk g may s i p d) (hf : Fires sem s i p q s') :
    ∃ d', ProcOk g may s' i q d' := by
  cases hf with
  | read k =>
    exact ⟨d, h.disc _, h.may, fun w hw => (h.written w hw).imp_right (·.imp_right (· _)),
      h.dirty, fun hg hd => (h.guarded hg hd).imp_right (· _)⟩
  | exec w k =>
    obtain ⟨hmay, hlock, hd⟩ := h.disc
    refine ⟨true, hd _, ?_, ?_, fun _ _ => rfl, fun hg _ => .inl (of_decide_eq_true (hlock hg))⟩
    · intro w' hw'
      rcases mem_append.mp hw' with hw' | hw'
      · exact h.may w' hw'
      · rw [(Prod.mk.inj (mem_singleton.mp hw')).2]; exact hmay
    · intro w' hw'
      rcases mem_append.mp hw' with hw' | hw'
      · rcases h.written w' hw' with hl | hp | hh
        · exact .inl hl
        · exact .inr (.inl (mem_append_left _ hp))
        · exact .inr (.inr (hh _))
      · exact .inr (.inl (mem_append_right _ hw'))
  | commit k =>
    refine ⟨false, h.disc, h.may, ?_, fun w hw => absurd hw (by simp),
      fun _ hd => absurd hd (by simp)⟩
    intro w hw
    rcases h.written w hw with hl | hp | hh
    · exact .inl (mem_append_left _ hl)
    · exact .inl (mem_append_right _ hp)
    · exact .inr (.inr hh)
  | rollback k =>
    obtain ⟨_, _, hk, hd⟩ := h.disc
    exact ⟨false, hd, h.may, fun w _ => .inr (.inr hk), fun w hw => absurd hw (by simp),
      fun _ hd => absurd hd (by simp)⟩
  | acquire k free =>
    obtain ⟨_, rfl, hd⟩ := h.disc
    exact ⟨false, by simpa [Sys.next] using hd, h.may, h.written, h.dirty,
      fun _ hd => absurd hd (by simp)⟩
  | release k =>
    obtain ⟨_, hk, hd⟩ := h.disc
    exact ⟨d, by simpa [Sys.next] using hd, h.may, h.written, h.dirty, fun _ hd => .inr (hk hd)⟩

/-- The coroutines that do not. -/
theorem ProcOk.frame {may may' : W → Prop}
    (h : ProcOk g may s j p' d) (hi : ProcOk g' may' s i p d')
    (hf : Fires sem s i p q s') (hne : j ≠ i)
    (hroll : ∀ k, p = .rollback k → ∀ w, (j, w) ∈ s.pending → g = true) :
    ProcOk g may s' j p' d := by
  cases hf with
  | read k => exact { h with }
  | exec w k =>
    have hw : ∀ {w' : W} {es : List (ℕ × W)}, (j, w') ∈ es ++ [(i, w)] → (j, w') ∈ es := by
      intro w' es hw'
      rcases mem_append.mp hw' with hw' | hw'
      · exact hw'
      · exact absurd (Prod.mk.inj (mem_singleton.mp hw')).1 hne
    exact { h with
      may := fun w' hw' => h.may w' (hw hw')
      written := fun w' hw' => (h.written w' (hw hw')).imp_right
        (·.imp_left (mem_append_left _))
      dirty := fun w' hw' => h.dirty w' (hw hw') }
  | commit k =>
    refine { h with written := ?_, dirty := fun w hw => absurd hw (by simp) }
    intro w hw
    rcases h.written w hw with hl | hp | hh
    · exact .inl (mem_append_left _ hl)
    · exact .inl (mem_append_right _ hp)
    · exact .inr (.inr hh)
  | rollback k =>
    have hlock : s.lock = some i := of_decide_eq_true hi.disc.2.1
    refine { h with written := ?_, dirty := fun w hw => absurd hw (by simp) }
    intro w hw
    rcases h.written w hw with hl | hp | hh
    · exact .inl hl
    -- a write of `j` still pending was made under the lock, and `i` holds it
    · rcases h.guarded (hroll q rfl w hp) (h.dirty w hp) with hj | hh
      · rw [hlock] at hj; exact absurd (some.inj hj).symm hne
      · exact .inr (.inr hh)
    · exact .inr (.inr hh)
  | acquire k free =>
    have hdec : decide (some i = some j) = decide (s.lock = some j) := by
      rw [free]; simp [Ne.symm hne]
    refine { h with disc := ?_, guarded := ?_ }
    · rw [hdec]; exact h.disc
    · intro hg hd
      exact (h.guarded hg hd).imp_left fun hj => absurd (free.symm.trans hj) (by simp)
  | release k =>
    have hlock : s.lock = some i := of_decide_eq_true hi.disc.1
    have hdec : decide ((none : Option ℕ) = some j) = decide (s.lock = some j) := by
      rw [hlock]; simp [Ne.symm hne]
    refine { h with disc := ?_, guarded := ?_ }
    · rw [hdec]; exact h.disc
    · intro hg hd
      refine (h.guarded hg hd).imp_left fun hj => ?_
      rw [hlock] at hj; exact absurd (some.inj hj).symm hne

/-- A coroutine that goes on returns at most itself. -/
theorem mem_returned_next (he : e ∈ (s.next i p).returned) : e ∈ s.returned ∨ e.1 = i := by
  cases p with
  | ret r =>
    rcases mem_concat.1 he with he | rfl
    · exact .inl he
    · exact .inr rfl
  | _ => exact .inl he

theorem isSome_update {f : ℕ → Option (Prog D W R)}
    (h : j = i ∨ (f j).isSome) : (update f i (some p) j).isSome := by
  by_cases hj : j = i
  · rw [hj, update_self]; rfl
  · rw [update_of_ne hj]; exact h.resolve_left hj

variable {may : O → W → Prop} {locked : O → Bool}

section
variable (h : Disciplined locked may s)
include h

theorem Disciplined.spawn (hp : Disc (locked op) (may op) false false p)
    (hnone : s.procs i = none) :
    Disciplined locked may { s.next i p with ops := update s.ops i (some op) } := by
  have hidle : ∀ j, (s.procs j).isSome → j ≠ i := by
    rintro j hj rfl
    rw [hnone] at hj; exact absurd hj (by simp)
  refine ⟨?_, fun e he => isSome_update (.inr (h.writer e he)),
    fun e he => isSome_update ((mem_returned_next he).symm.imp_right (h.returner e)),
    fun j hj => isSome_update (.inr (h.holder j hj)), h.pending⟩
  intro j q hq
  rcases update_eq_some.1 hq with ⟨rfl, rfl⟩ | ⟨hj, hq⟩
  · refine ⟨op, false, update_self .., ?_, ?_, ?_, ?_, fun _ hd => absurd hd (by simp)⟩
    · have hlock : decide (s.lock = some j) = false :=
        decide_eq_false fun hl => hidle j (h.holder j hl) rfl
      change Disc _ _ (decide (s.lock = some j)) _ _
      rw [hlock]; exact hp
    · intro w hw; exact absurd rfl (hidle j (h.writer _ hw))
    · intro w hw; exact absurd rfl (hidle j (h.writer _ hw))
    · intro w hw; exact absurd rfl (hidle j (h.writer _ (h.pending _ hw)))
  · obtain ⟨op', d, hop, hok⟩ := h.procs j q hq
    exact ⟨op', d, by rw [← hop]; exact update_of_ne hj .., { hok with }⟩

theorem Disciplined.fires (hp : s.procs i = some p)
    (hf : Fires sem s i p q s') (hok : RollbackAlone locked s (.run i)) :
    Disciplined locked may s' := by
  obtain ⟨op, d, hop, hi⟩ := h.procs i p hp
  have hsome : ∀ j, (s.procs j).isSome → (s'.procs j).isSome := by
    intro j hj; rw [hf.procs]; exact isSome_update (.inr hj)
  have hself : (s'.procs i).isSome := hsome i (by rw [hp]; rfl)
  refine ⟨?_, ?_, ?_, ?_, ?_⟩
  · intro j r hr
    rw [hf.procs] at hr
    rcases update_eq_some.1 hr with ⟨rfl, rfl⟩ | ⟨hj, hr⟩
    · obtain ⟨d', hd'⟩ := hi.fires hf
      exact ⟨op, d', by rw [hf.ops]; exact hop, hd'⟩
    · obtain ⟨op', d', hop', hj'⟩ := h.procs j r hr
      refine ⟨op', d', by rw [hf.ops]; exact hop', hj'.frame hi hf hj ?_⟩
      rintro k rfl w hw
      obtain ⟨op'', hop'', hl⟩ := hok k hp _ hw hj
      rw [hop'] at hop''
      rw [some.inj hop'']; exact hl
  · intro e he
    cases hf with
    | exec w k =>
      rcases mem_concat.1 he with he | rfl
      · exact hsome _ (h.writer e he)
      · exact hself
    | _ => exact hsome _ (h.writer e he)
  · intro e he
    rw [hf.returned] at he
    rcases mem_returned_next he with he | he
    · exact hsome _ (h.returner e he)
    · rw [he]; exact hself
  · intro j hj
    cases hf with
    | acquire k free => rw [← some.inj hj]; exact hself
    | release k => exact absurd hj (by simp)
    | _ => exact hsome _ (h.holder j hj)
  · intro e he
    cases hf with
    | exec w k =>
      rcases mem_append.mp he with he | he
      · exact mem_append_left _ (h.pending e he)
      · exact mem_append_right _ he
    | commit k | rollback k => exact absurd he (by simp)
    | _ => exact h.pending e he

/-- INVARIANT: a step that meets `RollbackAlone` keeps every coroutine's discipline. -/
theorem Disciplined.step (hbody : ∀ op, Disc (locked op) (may op) false false (body op))
    (hok : RollbackAlone locked s a) : Disciplined locked may (Txn.step sem body s a) := by
  cases a with
  | spawn i op =>
    rcases step_spawn with he | ⟨hnone, he⟩
    · rw [he]; exact h
    · rw [he]; exact h.spawn (hbody op) hnone
  | run i =>
    rcases step_run with he | ⟨p, q, s', hp, hf, he⟩
    · rw [he]; exact h
    · rw [he]; exact h.fires hp hf hok

/-- What a returned coroutine wrote is in the log. -/
theorem Disciplined.returned_durable (hr : s.procs i = some (.ret r))
    (hw : (i, w) ∈ s.issued) : (i, w) ∈ s.log := by
  obtain ⟨op, d, _, hok⟩ := h.procs i _ hr
  obtain ⟨_, rfl⟩ := hok.disc
  rcases hok.written w hw with hl | hp | hh
  · exact hl
  · exact absurd (hok.dirty w hp) (by simp)
  · exact absurd hh id

end

/-! ### A coroutine nobody interrupts -/

/-- Run a program to its end with nobody in between: `base` is what a rollback goes back to. The
    answer is `none` when it raises. -/
def Prog.alone (sem : W → D → D × Option ℕ) : Prog D W R → (base d : D) → D × Option R
  | .ret r, _, d => (d, some r)
  | .raise, _, d => (d, none)
  | .read k, base, d => (k d).alone sem base d
  | .exec w k, base, d => (k (sem w d).2).alone sem base (sem w d).1
  | .commit k, _, d => k.alone sem d d
  | .rollback k, base, _ => k.alone sem base base
  | .acquire k, base, d => k.alone sem base d
  | .release k, base, d => k.alone sem base d

/-- INVARIANT: what every statement keeps, a program that runs alone keeps. -/
theorem Prog.alone_invariant (P : D → Prop) (hw : ∀ w d, P d → P (sem w d).1) :
    ∀ (p : Prog D W R) {base d : D}, P base → P d → P (p.alone sem base d).1 := by
  intro p
  induction p with
  | ret r | raise => intro _ _ _ hd; exact hd
  | read k ih => intro _ _ hb hd; exact ih _ hb hd
  | exec w k ih => intro _ _ hb hd; exact ih _ hb (hw w _ hd)
  | commit k ih => intro _ _ _ hd; exact ih hd hd
  | rollback k ih => intro _ _ hb _; exact ih hb hb
  | acquire k ih | release k ih => intro _ _ hb hd; exact ih hb hd

end

end Fallow.Lib.Txn
