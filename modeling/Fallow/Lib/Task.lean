import Fallow.Lib.Txn

/-! Coroutines that share a database connection, locks and a memory beside the database.

    `Lib.Txn` runs single methods; here a coroutine calls them one after another, takes locks around
    them and works on the memory in between, in sections that nothing interrupts. What it copies from
    the database into the memory it first read, and a read sees what others have not committed:

        writer   UPDATE ─────────────────────── COMMIT | ROLLBACK by a third
        reader          read ─▶ memory := value          (the value may never be committed)

    A read is tagged with the key whose value goes on into the memory. `Vouched` is what a program
    must keep for a copy never to run ahead: it hands the memory only values that the committed
    database has reached. While every tagged read finds its key with nothing uncommitted, a memory
    that is `fine` stays so along every run. -/

namespace Fallow.Lib.Task
open Function

inductive Prog (D W K L M R : Type) where
  | ret (r : R)
  | read (about : Option K) (k : D → Prog D W K L M R)
  | exec (w : W) (k : Option ℕ → Prog D W K L M R)
  | commit (k : Prog D W K L M R)
  | rollback (k : Prog D W K L M R)
  | acquire (l : L) (k : Prog D W K L M R)
  | release (l : L) (k : Prog D W K L M R)
  /-- work on the memory; goes on with the memory as it was -/
  | atomic (f : M → M) (k : M → Prog D W K L M R)

variable {D W K L M R O E : Type}

/-- Call a method: its lock is `l`, its reads are about `about`, and it goes on as `k` or raises. -/
def Prog.call {A : Type} (l : L) (about : Option K) (k : A → Prog D W K L M R)
    (raised : Prog D W K L M R) : Txn.Prog D W A → Prog D W K L M R
  | .ret r => k r
  | .raise => raised
  | .read f => .read about fun d => call l about k raised (f d)
  | .exec w f => .exec w fun n => call l about k raised (f n)
  | .commit p => .commit (call l about k raised p)
  | .rollback p => .rollback (call l about k raised p)
  | .acquire p => .acquire l (call l about k raised p)
  | .release p => .release l (call l about k raised p)

structure Sys (D W K L M R : Type) where
  working : D
  committed : D
  memory : M
  locks : L → Option ℕ := fun _ => none
  procs : ℕ → Option (Prog D W K L M R) := fun _ => none

/-- A new coroutine, one action of a coroutine, or somebody else's work on the memory. -/
inductive Act (O E : Type) where
  | spawn (i : ℕ) (op : O)
  | run (i : ℕ)
  | outside (e : E)

def Sys.next (s : Sys D W K L M R) (i : ℕ) (p : Prog D W K L M R) : Sys D W K L M R :=
  { s with procs := update s.procs i (some p) }

/-- One scheduler step. A held lock blocks `acquire`; a finished coroutine has nothing to run. -/
def step [DecidableEq L] (sem : W → D → D × Option ℕ) (body : O → Prog D W K L M R) (env : E → M → M)
    (s : Sys D W K L M R) : Act O E → Sys D W K L M R
  | .spawn i op => match s.procs i with
    | some _ => s
    | none => s.next i (body op)
  | .outside e => { s with memory := env e s.memory }
  | .run i => match s.procs i with
    | some (.read _ k) => s.next i (k s.working)
    | some (.exec w k) =>
      { s.next i (k (sem w s.working).2) with working := (sem w s.working).1 }
    | some (.commit k) => { s.next i k with committed := s.working }
    | some (.rollback k) => { s.next i k with working := s.committed }
    | some (.acquire l k) => match s.locks l with
      | none => { s.next i k with locks := update s.locks l (some i) }
      | some _ => s
    | some (.release l k) => { s.next i k with locks := update s.locks l none }
    | some (.atomic f k) => { s.next i (k s.memory) with memory := f s.memory }
    | _ => s

/-! ### Copies that never run ahead -/

/-- What is durable grows along `le`, the memory is `fine` against it, and `clean` keys have nothing
    uncommitted. -/
structure Copies (D K M : Type) where
  le : D → D → Prop
  fine : D → M → Prop
  clean : K → D → D → Prop

structure Copies.Lawful (C : Copies D K M) (sem : W → D → D × Option ℕ) : Prop where
  refl : ∀ d, C.le d d
  trans : ∀ {d d' d''}, C.le d d' → C.le d' d'' → C.le d d''
  exec : ∀ w d, C.le d (sem w d).1
  mono : ∀ {d d' m}, C.le d d' → C.fine d m → C.fine d' m

/-- The program keeps the memory fine from `c` on, if it reads clean keys. -/
def Vouched (C : Copies D K M) : Prog D W K L M R → D → Prop
  | .ret _, _ => True
  | .read none k, c => ∀ d, Vouched C (k d) c
  | .read (some a) k, c => ∀ d c', C.le c c' → C.clean a d c' → Vouched C (k d) c'
  | .exec _ k, c => ∀ n, Vouched C (k n) c
  | .commit k, c => Vouched C k c
  | .rollback k, c => Vouched C k c
  | .acquire _ k, c => Vouched C k c
  | .release _ k, c => Vouched C k c
  | .atomic f k, c => (∀ c' m, C.le c c' → C.fine c' m → C.fine c' (f m)) ∧ ∀ m, Vouched C (k m) c

section
variable {C : Copies D K M} {sem : W → D → D × Option ℕ} {s : Sys D W K L M R} {i : ℕ}
  {p : Prog D W K L M R} {c c' : D}

theorem Vouched.mono (hC : C.Lawful sem) (h : Vouched C p c) (hle : C.le c c') : Vouched C p c' := by
  induction p with
  | ret r => trivial
  | read about k ih =>
    cases about with
    | none => exact fun d => ih d (h d)
    | some a => exact fun d c'' hle' hd => h d c'' (hC.trans hle hle') hd
  | exec w k ih => exact fun n => ih n (h n)
  | commit k ih | rollback k ih | acquire l k ih | release l k ih => exact ih h
  | atomic f k ih =>
    exact ⟨fun c'' m hle' hm => h.1 c'' m (hC.trans hle hle') hm, fun m => ih m (h.2 m)⟩

/-- A method whose reads go nowhere vouches for its caller. -/
theorem vouched_call {A : Type} {k : A → Prog D W K L M R}
    (hk : ∀ r, Vouched C (k r) c) (hraised : Vouched C raised c) {p : Txn.Prog D W A} :
    Vouched C (.call l none k raised p) c := by
  induction p with
  | ret r => exact hk r
  | raise => exact hraised
  | read f ih => exact fun d => ih d
  | exec w f ih => exact fun n => ih n
  | commit p ih | rollback p ih | acquire p ih | release p ih => exact ih

/-- A tagged read finds its key clean. -/
def CleanReads (C : Copies D K M) (s : Sys D W K L M R) : Act O E → Prop
  | .run i => ∀ a k, s.procs i = some (.read (some a) k) → C.clean a s.working s.committed
  | _ => True

/-- INVARIANT: the memory is fine, and every coroutine will keep it so. -/
structure Kept (C : Copies D K M) (s : Sys D W K L M R) : Prop where
  ahead : C.le s.committed s.working
  fine : C.fine s.committed s.memory
  procs : ∀ i p, s.procs i = some p → Vouched C p s.committed

section
variable (hC : C.Lawful sem) {body : O → Prog D W K L M R} {env : E → M → M}
include hC

/-- One coroutine moves on while the durable database grows. -/
theorem Kept.procs_next (h : Kept C s) (hle : C.le s.committed c)
    (hp : Vouched C p c) : ∀ j q, (s.next i p).procs j = some q → Vouched C q c := by
  intro j q hj
  rcases update_eq_some.1 hj with ⟨-, rfl⟩ | ⟨-, hj⟩
  · exact hp
  · exact (h.procs j q hj).mono hC hle

theorem Kept.run [DecidableEq L] (body : O → Prog D W K L M R) (env : E → M → M)
    (h : Kept C s) (hclean : CleanReads (O := O) (E := E) C s (.run i)) :
    Kept C (step sem body env s (.run i)) := by
  cases hp : s.procs i with
  | none => simpa only [step, hp] using h
  | some p =>
    have hv := h.procs i p hp
    have hrefl := hC.refl s.committed
    cases p with
    | ret r => simpa only [step, hp] using h
    | read about k =>
      simp only [step, hp]
      refine ⟨h.ahead, h.fine, h.procs_next hC hrefl ?_⟩
      cases about with
      | none => exact hv s.working
      | some a => exact hv s.working s.committed hrefl (hclean a k hp)
    | exec w k =>
      simp only [step, hp]
      exact ⟨hC.trans h.ahead (hC.exec w s.working), h.fine, h.procs_next hC hrefl (hv _)⟩
    | commit k =>
      simp only [step, hp]
      exact ⟨hC.refl s.working, hC.mono h.ahead h.fine,
        h.procs_next hC h.ahead (Vouched.mono hC (p := k) hv h.ahead)⟩
    | rollback k =>
      simp only [step, hp]
      exact ⟨hrefl, h.fine, h.procs_next hC hrefl hv⟩
    | acquire l k =>
      cases hl : s.locks l with
      | none =>
        simp only [step, hp, hl]
        exact ⟨h.ahead, h.fine, h.procs_next hC hrefl hv⟩
      | some j => simpa only [step, hp, hl] using h
    | release l k =>
      simp only [step, hp]
      exact ⟨h.ahead, h.fine, h.procs_next hC hrefl hv⟩
    | atomic f k =>
      simp only [step, hp]
      exact ⟨h.ahead, hv.1 _ _ hrefl h.fine, h.procs_next hC hrefl (hv.2 _)⟩

/-- INVARIANT: one step of the system. -/
theorem Kept.step [DecidableEq L]
    (hbody : ∀ op c, Vouched C (body op) c) (henv : ∀ e c m, C.fine c m → C.fine c (env e m))
    (h : Kept C s) (act : Act O E) (hclean : CleanReads C s act) :
    Kept C (Task.step sem body env s act) := by
  cases act with
  | run i => exact h.run hC body env hclean
  | outside e => exact ⟨h.ahead, henv e _ _ h.fine, h.procs⟩
  | spawn i op =>
    simp only [Task.step]
    split
    · exact h
    · exact ⟨h.ahead, h.fine, h.procs_next hC (hC.refl _) (hbody op _)⟩

/-- CORRECT: while tagged reads are clean, the memory stays fine against what is durable. -/
theorem fine_of_cleanReads [DecidableEq L] (hbody : ∀ op c, Vouched C (body op) c)
    (henv : ∀ e c m, C.fine c m → C.fine c (env e m)) (h₀ : C.fine d m)
    (h : Reach (Task.step sem body env) (CleanReads C)
      ({ working := d, committed := d, memory := m } : Sys D W K L M R) s) :
    C.fine s.committed s.memory := by
  have hinv := h.invariant (Kept C) ⟨hC.refl d, h₀, fun _ _ hi => by cases hi⟩
    (fun s act hs hok => hs.step hC hbody henv act hok)
  exact hinv.fine

end

end

end Fallow.Lib.Task
