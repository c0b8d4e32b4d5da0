import Fallow.Lib.Crash
import Fallow.Lib.Wal

/-! `app/promote.py`: a warm-standby snapshot becomes the live database.

    The database is a main file with a log beside it. `promote` checks the snapshot, compares two
    modification times, and then works on files, one after the other:

        mkdir ▸ unlink tmp ▸ copyfile snapshot tmp ▸ replace tmp db ▸ unlink -wal ▸ unlink -shm
        └────────── main and log as they were ───────────┘ └ new main, old log ┘ └─ new main ─┘

    Between the replacement and the first unlink the new main file stands beside the log of the old
    one, and whoever opens the database then replays that log onto it. -/

namespace Fallow.Standby
open Lib Crash Option Prod List

variable {α : Type}

structure File (α : Type) where
  image : List α
  mtime : ℤ
  deriving DecidableEq

/-- The files `promote` touches: those of `db_path`, its temporary, and the snapshot. -/
structure Fs (α : Type) where
  db : Option (File α) := none
  wal : Option (Wal.Log α) := none
  shm : Bool := false
  promoteTmp : Option (File α) := none
  snapshot : Option (File α) := none
  deriving DecidableEq

/-- What SQLite reports about the contents of a file. -/
structure Sqlite (α : Type) where
  isDatabase : List α → Bool
  integrityOk : List α → Bool
  tableNames : List α → List String

inductive PromoteError where
  | notFound
  | empty
  | notADatabase
  | failedIntegrityCheck
  | missingTables (names : List String)
  | newer
  /-- not a `PromoteError`: the file system failed a step -/
  | osError
  deriving DecidableEq

/-! ### Commands -/

inductive Source where
  | db
  | snapshot
  deriving DecidableEq

inductive Op (α : Type) where
  | mkdir
  | unlinkTmp
  | createTmp
  | writeTmp (page : α)
  | replaceTmp
  | unlinkWal
  | unlinkShm

inductive Cmd (α : Type) where
  | look (p : Source)
  | disk (op : Op α)

/-- A look finds the file or nothing; an operation's `false` is an `OSError`. -/
abbrev Answer (α : Type) : Cmd α → Type
  | .look _ => Option (File α)
  | .disk _ => Bool

/-- How the next command goes. -/
structure Env where
  now : ℤ
  fails : Bool := false

def Op.run (v : Env) (fs : Fs α) (op : Op α) : Bool × Fs α :=
  if v.fails then (false, fs)
  else match op with
    | .mkdir => (true, fs)
    | .unlinkTmp => (true, { fs with promoteTmp := none })
    | .createTmp => (true, { fs with promoteTmp := some ⟨[], v.now⟩ })
    | .writeTmp page => match fs.promoteTmp with
      | none => (false, fs)
      | some f => (true, { fs with promoteTmp := some ⟨f.image ++ [page], v.now⟩ })
    -- a rename keeps the modification time
    | .replaceTmp => match fs.promoteTmp with
      | none => (false, fs)
      | some f => (true, { fs with db := some f, promoteTmp := none })
    | .unlinkWal => (true, { fs with wal := none })
    | .unlinkShm => (true, { fs with shm := false })

def sem : (c : Cmd α) → Env → Fs α → Answer α c × Fs α
  | .look .db, _, fs => (fs.db, fs)
  | .look .snapshot, _, fs => (fs.snapshot, fs)
  | .disk op, v, fs => op.run v fs

/-! ### The program -/

abbrev M (α : Type) := Prog (Answer α) PromoteError

def look (p : Source) : M α (Option (File α)) := Prog.perform (Cmd.look p)

def disk (op : Op α) : M α Unit := do
  if ← Prog.perform (Cmd.disk op) then pure () else .raise .osError

/-- `_REQUIRED_TABLES`. -/
def requiredTables : List String := ["registry_agents", "registry_models", "jobs", "work_units"]

/-- The verdict on a file's contents. -/
def checkImage (sqlite : Sqlite α) (image : List α) : Except PromoteError Unit :=
  if image = [] then .error .empty
  else if ¬ sqlite.isDatabase image then .error .notADatabase
  else if ¬ sqlite.integrityOk image then .error .failedIntegrityCheck
  else match requiredTables.filter (· ∉ sqlite.tableNames image) with
    | [] => .ok ()
    | missing => .error (.missingTables missing)

def validateSnapshot (sqlite : Sqlite α) : M α Unit := do
  match ← look .snapshot with
  | none => .raise .notFound
  | some f => match checkImage sqlite f.image with
    | .error e => .raise e
    | .ok () => pure ()

/-- A missing snapshot would be an `OSError`; it has just been validated. -/
def wouldClobberNewer : M α Bool := do
  match ← look .db with
  | none => pure false
  | some db => match ← look .snapshot with
    | none => .raise .osError
    | some f => pure (f.mtime ≤ db.mtime)

def writePages : List α → M α Unit
  | [] => pure ()
  | page :: pages => do
    disk (.writeTmp page)
    writePages pages

/-- `shutil.copyfile`. -/
def copySnapshot : M α Unit := do
  match ← look .snapshot with
  | none => .raise .osError
  | some f =>
    disk .createTmp
    writePages f.image

/-- The steps that change files. -/
def install : M α Unit := do
  disk .mkdir
  disk .unlinkTmp
  copySnapshot
  disk .replaceTmp
  disk .unlinkWal
  disk .unlinkShm

def promote (sqlite : Sqlite α) (force : Bool) : M α Unit := do
  validateSnapshot sqlite
  let newer ← if force then pure false else wouldClobberNewer
  if newer then .raise .newer
  else install

/-! ### What is at the database's path -/

variable {fs' fs : Fs α} {f : File α}

section
variable [Inhabited α]

/-- The logical database a fresh coordinator opens. -/
def openDb (fs : Fs α) : List α := Wal.recover ((fs.db.map File.image).getD []) fs.wal

/-- The transactions a fresh coordinator replays. -/
def walTxns (fs : Fs α) : List (Wal.Txn α) := (fs.wal.map Wal.Log.txns).getD []

theorem openDb_congr (hd : fs'.db = fs.db) (hw : fs'.wal = fs.wal) :
    openDb fs' = openDb fs := by rw [openDb, openDb, hd, hw]

theorem openDb_some (hd : fs.db = some f) (hne : f.image ≠ []) :
    openDb fs = Wal.replay (walTxns fs) f.image := by
  rw [openDb, hd]
  exact Wal.recover_eq hne

end

/-! ### Rules for the steps -/

section
variable {P : Fs α → Prop} {R : Type} {Q : Except PromoteError R → Fs α → Prop} {fs : Fs α}

/-- `P` whenever a step is next, `Q` at the end. -/
abbrev Holds (P : Fs α → Prop) (Q : Except PromoteError R → Fs α → Prop) (p : M α R) (fs : Fs α) :
    Prop := Safe sem (fun _ _ _ => True) (fun _ => P) Q p fs

variable {v : Env} {op : Op α}

/-- A failed operation leaves the files alone. -/
theorem run_false (h : op.run v fs = (false, fs')) : fs' = fs := by
  cases hv : v.fails with
  | true =>
    simp only [Op.run, hv, if_true] at h
    exact (mk.inj h).2.symm
  | false =>
    cases op with
    | writeTmp page | replaceTmp =>
      cases ht : fs.promoteTmp with
      | none => simp only [Op.run, hv, ht] at h; exact (mk.inj h).2.symm
      | some f => simp [Op.run, hv, ht] at h
    | _ => simp [Op.run, hv] at h

variable {k : Unit → M α R}

theorem holds_disk_iff : Holds P Q (disk op >>= k) fs ↔ P fs ∧
      ((∃ v fs', op.run v fs = (false, fs')) → Q (.error .osError) fs) ∧
      ∀ v fs', op.run v fs = (true, fs') → Holds P Q (k ()) fs' := by
  have hstep : ∀ v, Safe sem (fun _ _ _ => True) (fun _ => P) Q
      (Prog.bind (if (op.run v fs).1 = true then pure () else .raise .osError) k) (op.run v fs).2 ↔
        (((op.run v fs).1 = false → Q (.error .osError) fs) ∧
          ∀ fs', op.run v fs = (true, fs') → Holds P Q (k ()) fs') := by
    intro v
    cases hr : op.run v fs with
    | mk ok fs' =>
      cases ok with
      | true =>
        refine ⟨fun h => ⟨nofun, fun fs'' he => ?_⟩, fun h => h.2 fs' rfl⟩
        rw [← (mk.inj he).2]
        exact h
      | false =>
        obtain rfl := run_false hr
        refine ⟨fun h => ⟨fun _ => h, nofun⟩, fun h => h.1 rfl⟩
  constructor
  · rintro ⟨hP, hk⟩
    refine ⟨hP, fun ⟨v, fs', hr⟩ => ?_, fun v => ((hstep v).1 (hk v trivial)).2⟩
    exact ((hstep v).1 (hk v trivial)).1 (congrArg fst hr)
  · rintro ⟨hP, hE, hk⟩
    refine ⟨hP, fun v _ => (hstep v).2 ⟨fun hr => hE ⟨v, _, Prod.ext hr rfl⟩, hk v⟩⟩

theorem holds_look_iff {k : Option (File α) → M α R} :
    Holds P Q (look p >>= k) fs ↔ P fs ∧ Holds P Q (k (sem (.look p) ⟨0, false⟩ fs).1) fs := by
  constructor
  · intro h
    refine ⟨h.1, ?_⟩
    have hk := h.2 ⟨0, false⟩ trivial
    cases p with
    | db | snapshot => exact hk
  · rintro ⟨hP, hk⟩
    refine ⟨hP, fun v _ => ?_⟩
    cases p with
    | db | snapshot => exact hk

/-- `t` is `s` but for the temporary file and the shared memory. -/
structure Beside (s t : Fs α) : Prop where
  db : t.db = s.db
  wal : t.wal = s.wal
  snapshot : t.snapshot = s.snapshot

theorem Beside.refl (s : Fs α) : Beside s s := ⟨rfl, rfl, rfl⟩

theorem Beside.trans (hab : Beside a b) (hbc : Beside b c) : Beside a c :=
  ⟨hbc.db.trans hab.db, hbc.wal.trans hab.wal, hbc.snapshot.trans hab.snapshot⟩

variable {s t : Fs α}

/-- An operation that succeeds has not failed at the file system. -/
theorem fails_of_run (hr : op.run v s = (true, t)) : v.fails = false := by
  cases hv : v.fails with
  | true => simp [Op.run, hv] at hr
  | false => rfl

theorem run_writeTmp (hf : s.promoteTmp = some f) (hr : (Op.writeTmp page).run v s = (true, t)) :
    Beside s t ∧ t.promoteTmp = some ⟨f.image ++ [page], v.now⟩ := by
  simp only [Op.run, fails_of_run hr, hf] at hr
  obtain ⟨-, rfl⟩ := mk.inj hr
  exact ⟨⟨rfl, rfl, rfl⟩, rfl⟩

/-- The loop of `copyfile` only touches the temporary file. -/
theorem Holds.writePages (hP : ∀ t, Beside s t → P t)
    (hE : ∀ t, Beside s t → Q (.error .osError) t) : ∀ (pages : List α) {f : File α} {s' : Fs α},
    Beside s s' → s'.promoteTmp = some f →
    (∀ t mtime, Beside s t → t.promoteTmp = some ⟨f.image ++ pages, mtime⟩ → Holds P Q (k ()) t) →
    Holds P Q (writePages pages >>= k) s'
  | [], f, s', hb, hf, hk => hk s' f.mtime hb (by rw [hf, append_nil])
  | page :: pages, f, s', hb, hf, hk => by
    rw [Standby.writePages, Prog.bind_assoc, holds_disk_iff]
    refine ⟨hP s' hb, fun _ => hE s' hb, fun v t hr => ?_⟩
    obtain ⟨hbt, ht⟩ := run_writeTmp hf hr
    refine .writePages hP hE pages (hb.trans hbt) ht fun t' mtime hbt' ht' => ?_
    refine hk t' mtime hbt' ?_
    rw [ht', append_assoc]
    rfl

/-- The same loop, when every step succeeds. -/
theorem Holds.of_writePages : ∀ (pages : List α) {f : File α} {s : Fs α},
    s.promoteTmp = some f → Holds P Q (Standby.writePages pages >>= k) s →
    ∃ t mtime, Beside s t ∧ t.promoteTmp = some ⟨f.image ++ pages, mtime⟩ ∧ Holds P Q (k ()) t
  | [], f, s, hf, h => ⟨s, f.mtime, Beside.refl s, by rw [hf, append_nil], h⟩
  | page :: pages, f, s, hf, h => by
    rw [Standby.writePages, Prog.bind_assoc, holds_disk_iff] at h
    have hrun : (Op.writeTmp page).run ⟨0, false⟩ s
        = (true, { s with promoteTmp := some ⟨f.image ++ [page], 0⟩ }) := by
      simp only [Op.run, hf]
      rfl
    obtain ⟨t, mtime, hbt, ht, hk⟩ := Holds.of_writePages pages rfl (h.2.2 _ _ hrun)
    refine ⟨t, mtime, ⟨hbt.db, hbt.wal, hbt.snapshot⟩, ?_, hk⟩
    rw [ht, append_assoc]
    rfl

/-! ### The installation -/

/-- FRAME: the steps around the copy leave the database's files alone. -/
theorem run_beside (hr : op.run v s = (true, t))
    (hop : op = .mkdir ∨ op = .unlinkTmp ∨ op = .createTmp ∨ op = .unlinkShm) : Beside s t := by
  rcases hop with rfl | rfl | rfl | rfl <;>
  · simp only [Op.run, fails_of_run hr] at hr
    obtain ⟨-, rfl⟩ := mk.inj hr
    exact ⟨rfl, rfl, rfl⟩

theorem run_createTmp (hr : Op.createTmp.run v s = (true, t)) :
    t.promoteTmp = some ⟨[], v.now⟩ := by
  simp only [Op.run, fails_of_run hr] at hr
  obtain ⟨-, rfl⟩ := mk.inj hr
  rfl

theorem run_replaceTmp (hf : s.promoteTmp = some f)
    (hr : Op.replaceTmp.run v s = (true, t)) : t.db = some f ∧ t.wal = s.wal := by
  simp only [Op.run, fails_of_run hr, hf] at hr
  obtain ⟨-, rfl⟩ := mk.inj hr
  exact ⟨rfl, rfl⟩

theorem run_unlinkWal (hr : Op.unlinkWal.run v s = (true, t)) : t.db = s.db ∧ t.wal = none := by
  simp only [Op.run, fails_of_run hr] at hr
  obtain ⟨-, rfl⟩ := mk.inj hr
  exact ⟨rfl, rfl⟩

variable {snap : File α}

/-- The three situations of an installation: files as they were, new main file beside the old log,
    new main file alone. -/
theorem Holds.install {Q : Except PromoteError Unit → Fs α → Prop}
    (hs : fs.snapshot = some snap) (hold : ∀ t, Beside fs t → P t ∧ Q (.error .osError) t)
    (hmid : ∀ t mtime, t.db = some ⟨snap.image, mtime⟩ → t.wal = fs.wal →
      P t ∧ Q (.error .osError) t)
    (hnew : ∀ t mtime, t.db = some ⟨snap.image, mtime⟩ → t.wal = none →
      P t ∧ Q (.error .osError) t ∧ Q (.ok ()) t) : Holds P Q install fs := by
  rw [Standby.install, holds_disk_iff]
  refine ⟨(hold fs (.refl fs)).1, fun _ => (hold fs (.refl fs)).2, fun v₁ s₁ hr₁ => ?_⟩
  have hb₁ : Beside fs s₁ := run_beside hr₁ (.inl rfl)
  rw [holds_disk_iff]
  refine ⟨(hold s₁ hb₁).1, fun _ => (hold s₁ hb₁).2, fun v₂ s₂ hr₂ => ?_⟩
  have hb₂ : Beside fs s₂ := hb₁.trans (run_beside hr₂ (.inr (.inl rfl)))
  rw [copySnapshot, Prog.bind_assoc, holds_look_iff]
  refine ⟨(hold s₂ hb₂).1, ?_⟩
  simp only [sem, hb₂.snapshot, hs]
  rw [Prog.bind_assoc, holds_disk_iff]
  refine ⟨(hold s₂ hb₂).1, fun _ => (hold s₂ hb₂).2, fun v₃ s₃ hr₃ => ?_⟩
  have hb₃ : Beside fs s₃ := hb₂.trans (run_beside hr₃ (.inr (.inr (.inl rfl))))
  refine .writePages (fun t ht => (hold t ht).1) (fun t ht => (hold t ht).2) snap.image hb₃
    (run_createTmp hr₃) fun s₄ mtime hb₄ hf₄ => ?_
  rw [holds_disk_iff]
  refine ⟨(hold s₄ hb₄).1, fun _ => (hold s₄ hb₄).2, fun v₅ s₅ hr₅ => ?_⟩
  obtain ⟨hdb₅, hwal₅⟩ := run_replaceTmp hf₄ hr₅
  have hwal₅ : s₅.wal = fs.wal := hwal₅.trans hb₄.wal
  rw [holds_disk_iff]
  refine ⟨(hmid s₅ mtime hdb₅ hwal₅).1, fun _ => (hmid s₅ mtime hdb₅ hwal₅).2, fun v₆ s₆ hr₆ => ?_⟩
  obtain ⟨hdb₆, hwal₆⟩ := run_unlinkWal hr₆
  have hdb₆ : s₆.db = some ⟨snap.image, mtime⟩ := hdb₆.trans hdb₅
  rw [← Prog.bind_ret (Standby.disk Op.unlinkShm), holds_disk_iff]
  refine ⟨(hnew s₆ mtime hdb₆ hwal₆).1, fun _ => (hnew s₆ mtime hdb₆ hwal₆).2.1, fun v₇ s₇ hr₇ => ?_⟩
  have hb₇ : Beside s₆ s₇ := run_beside hr₇ (.inr (.inr (.inr rfl)))
  exact (hnew s₇ mtime (hb₇.db.trans hdb₆) (hb₇.wal.trans hwal₆)).2.2

/-- An installation that goes well passes through the second situation. -/
theorem Holds.of_install {Q : Except PromoteError Unit → Fs α → Prop}
    (hs : fs.snapshot = some snap) (h : Holds P Q Standby.install fs) :
    ∃ t mtime, t.db = some ⟨snap.image, mtime⟩ ∧ t.wal = fs.wal ∧ P t := by
  rw [Standby.install, holds_disk_iff] at h
  have h₁ := h.2.2 ⟨0, false⟩ fs rfl
  rw [holds_disk_iff] at h₁
  have h₂ := h₁.2.2 ⟨0, false⟩ _ rfl
  rw [copySnapshot, Prog.bind_assoc, holds_look_iff] at h₂
  have h₂ := h₂.2
  simp only [sem, hs] at h₂
  rw [Prog.bind_assoc, holds_disk_iff] at h₂
  have h₃ := h₂.2.2 ⟨0, false⟩ _ rfl
  obtain ⟨s₄, mtime, hb₄, hf₄, h₄⟩ := Holds.of_writePages snap.image rfl h₃
  rw [holds_disk_iff] at h₄
  have hrun : Op.replaceTmp.run ⟨0, false⟩ s₄
      = (true, { s₄ with db := some ⟨snap.image, mtime⟩, promoteTmp := none }) := by
    simp only [Op.run, hf₄]
    rfl
  have h₅ := h₄.2.2 _ _ hrun
  refine ⟨{ s₄ with db := some ⟨snap.image, mtime⟩, promoteTmp := none }, mtime, rfl, hb₄.wal, ?_⟩
  exact h₅.1

/-! ### The whole program -/

/-- What the checks before the installation say. -/
def verdict (sqlite : Sqlite α) (force : Bool) (fs : Fs α) : Except PromoteError Unit :=
  match fs.snapshot with
  | none => .error .notFound
  | some snap => match checkImage sqlite snap.image with
    | .error e => .error e
    | .ok () =>
      if force then .ok ()
      else match fs.db with
        | none => .ok ()
        | some db => if snap.mtime ≤ db.mtime then .error .newer else .ok ()

variable {sqlite : Sqlite α} {force : Bool}

theorem holds_promote_iff {Q : Except PromoteError Unit → Fs α → Prop}
    : Holds P Q (promote sqlite force) fs ↔ P fs ∧
      match verdict sqlite force fs with
      | .error e => Q (.error e) fs
      | .ok () => Holds P Q install fs := by
  rw [promote, validateSnapshot, Prog.bind_assoc, holds_look_iff]
  cases hs : fs.snapshot with
  | none => simp only [sem, verdict, hs]; rfl
  | some snap =>
    simp only [sem, verdict, hs]
    cases hc : checkImage sqlite snap.image with
    | error e => rfl
    | ok u =>
      cases force with
      | true => rfl
      | false =>
        change P fs ∧ Holds P Q (wouldClobberNewer >>= _) fs ↔ _
        rw [wouldClobberNewer, Prog.bind_assoc, holds_look_iff]
        cases hd : fs.db with
        | none =>
          simp only [sem, hd]
          exact ⟨fun h => h.2, fun h => ⟨h.1, h⟩⟩
        | some db =>
          simp only [sem, hd]
          rw [Prog.bind_assoc, holds_look_iff]
          simp only [sem, hs]
          by_cases hle : snap.mtime ≤ db.mtime
          · simp only [hle, if_true]
            exact ⟨fun h => h.2.2, fun h => ⟨h.1, h.1, h⟩⟩
          · simp only [hle, if_false]
            exact ⟨fun h => h.2.2, fun h => ⟨h.1, h.1, h⟩⟩

theorem verdict_ok (hs : fs.snapshot = some snap) (h : verdict sqlite force fs = .ok ()) :
    snap.image ≠ [] ∧ (force = false → ∀ db, fs.db = some db → db.mtime < snap.mtime) := by
  rw [verdict, hs] at h
  cases hc : checkImage sqlite snap.image with
  | error e => simp [hc] at h
  | ok u =>
    refine ⟨fun hnil => ?_, fun hf db hd => ?_⟩
    · rw [checkImage, if_pos hnil] at hc
      cases hc
    · simp only [hc, hf, hd, Bool.false_eq_true, if_false] at h
      split at h
      · cases h
      · next hle => exact Int.not_le.1 hle

/-- CORRECT: a promotion that returns has passed the checks and left the snapshot, alone. -/
theorem exec_promote (h : (promote sqlite force).exec sem v fs = (.ok (), fs')) :
    ∃ snap mtime, fs.snapshot = some snap ∧ verdict sqlite force fs = .ok () ∧
      fs'.db = some ⟨snap.image, mtime⟩ ∧ fs'.wal = none := by
  have hall : Holds (fun _ => True) (fun r t => r = .ok () → ∃ snap mtime,
      fs.snapshot = some snap ∧ verdict sqlite force fs = .ok () ∧
        t.db = some ⟨snap.image, mtime⟩ ∧ t.wal = none) (promote sqlite force) fs := by
    rw [holds_promote_iff]
    refine ⟨trivial, ?_⟩
    cases hv : verdict sqlite force fs with
    | error e => exact nofun
    | ok u =>
      cases hs : fs.snapshot with
      | none => rw [verdict, hs] at hv; cases hv
      | some snap =>
        refine Holds.install hs (fun _ _ => ⟨trivial, nofun⟩) (fun _ _ _ _ => ⟨trivial, nofun⟩) ?_
        exact fun t mtime hd hw => ⟨trivial, nofun, fun _ => ⟨snap, mtime, rfl, rfl, hd, hw⟩⟩
  have hend := Safe.exec (v := v) (fun _ _ => trivial) hall
  rw [h] at hend
  exact hend rfl

end

/-! ### Crashes -/

section
variable [Inhabited α]

/-- The old log does no harm beside the new main file: the snapshot has everything it would write,
    or nothing else of the snapshot differs from the old main file. -/
def Harmless (fs : Fs α) (snap : File α) : Prop :=
  ∀ t, (walTxns fs).getLast? = some t →
    (t.size = snap.image.length ∧
      ∀ i < t.size, ∀ v, Wal.settled (walTxns fs) i = some v → snap.image.getD i default = v) ∨
    ∃ db, fs.db = some db ∧ db.image ≠ [] ∧
      ∀ i < t.size, Wal.settled (walTxns fs) i = none →
        snap.image.getD i default = db.image.getD i default

/-- Opening with the new main file and the old log. -/
theorem harmless_iff (hne : snap.image ≠ []) : (Wal.replay (walTxns fs) snap.image = openDb fs ∨
      Wal.replay (walTxns fs) snap.image = snap.image) ↔ Harmless fs snap := by
  cases hl : (walTxns fs).getLast? with
  | none =>
    have hnil : Wal.replay (walTxns fs) snap.image = snap.image := by
      rw [getLast?_eq_none_iff.1 hl]
      rfl
    refine ⟨fun _ t ht => ?_, fun _ => .inr hnil⟩
    rw [hl] at ht
    cases ht
  | some t =>
    have hself := Wal.replay_eq_self_iff (walTxns fs) snap.image
    constructor
    · rintro (hold | hsnap) t' ht'
      · obtain rfl : t = t' := mem_unique hl ht'
        refine .inr ?_
        -- the replay is not empty, so there was a database to open
        have hpos := Wal.replay_ne_nil hne (walTxns fs)
        cases hd : fs.db with
        | none => exact absurd (hold.trans (by rw [openDb, hd]; rfl)) hpos
        | some db =>
          have hdb : db.image ≠ [] := by
            intro hnil
            refine hpos (hold.trans ?_)
            rw [openDb, hd, map_some, getD_some, hnil]
            rfl
          rw [openDb_some hd hdb, Wal.replay_eq_replay_iff hl] at hold
          exact ⟨db, rfl, hdb, hold⟩
      · exact .inl (hself.1 hsnap t' ht')
    · intro h
      rcases h t hl with hsnap | ⟨db, hd, hdb, hrest⟩
      · refine .inr (hself.2 fun t' ht' => ?_)
        obtain rfl : t = t' := mem_unique hl ht'
        exact hsnap
      · refine .inl ?_
        rw [openDb_some hd hdb, Wal.replay_eq_replay_iff hl]
        exact hrest

/-- CORRECT: a promotion may be killed between any two of its steps, or stopped by a failing one,
    exactly if it is refused or the old log is harmless beside the snapshot. -/
theorem promote_crash_atomic_iff (sqlite : Sqlite α) (force : Bool) (fs : Fs α) (snap : File α)
    (hs : fs.snapshot = some snap) :
    (∀ vs, openDb ((promote sqlite force).after sem fs vs) = openDb fs ∨
      openDb ((promote sqlite force).after sem fs vs) = snap.image) ↔
    (verdict sqlite force fs = .ok () → Harmless fs snap) := by
  refine (safe_iff_after (P := fun t => openDb t = openDb fs ∨ openDb t = snap.image)).symm.trans
    (holds_promote_iff.trans ?_)
  cases hv : verdict sqlite force fs with
  | error e => exact ⟨fun _ => nofun, fun _ => ⟨.inl rfl, .inl rfl⟩⟩
  | ok u =>
    have hne := (verdict_ok hs hv).1
    have hmid : ∀ t mtime, t.db = some ⟨snap.image, mtime⟩ → t.wal = fs.wal →
        openDb t = Wal.replay (walTxns fs) snap.image := by
      intro t mtime hd hw
      rw [openDb_some hd hne, walTxns, hw]
      rfl
    constructor
    · rintro ⟨-, h⟩ -
      obtain ⟨t, mtime, hd, hw, ht⟩ := Holds.of_install hs h
      rw [hmid t mtime hd hw] at ht
      exact (harmless_iff hne).1 ht
    · intro h
      refine ⟨.inl rfl, Holds.install hs (fun t hb => ?_) (fun t mtime hd hw => ?_)
        fun t mtime hd hw => ?_⟩
      · have := openDb_congr hb.db hb.wal
        exact ⟨.inl this, .inl this⟩
      · rw [hmid t mtime hd hw]
        exact ⟨(harmless_iff hne).2 (h rfl), (harmless_iff hne).2 (h rfl)⟩
      · have hsnap : openDb t = snap.image := by
          rw [openDb_some hd hne, walTxns, hw]
          rfl
        exact ⟨.inr hsnap, .inr hsnap, .inr hsnap⟩

end

/-- A SQLite that finds every file in order. -/
def trusting : Sqlite ℕ := ⟨fun _ => true, fun _ => true, fun _ => requiredTables⟩

/-- A main file of two pages, a log that rewrites the second, and an older snapshot of both. -/
def beforePromotion : Fs ℕ where
  db := some ⟨[10, 20], 0⟩
  wal := some (.of 1 [⟨[], (1, 22), 2, Nat.two_pos⟩])
  shm := true
  snapshot := some ⟨[11, 21], 5⟩

theorem promote_crash_atomic_checkpointed : openDb { beforePromotion with wal := none } = [10, 20] ∧
    ∀ vs, openDb ((promote trusting false).after sem { beforePromotion with wal := none } vs)
        = openDb { beforePromotion with wal := none } ∨
      openDb ((promote trusting false).after sem { beforePromotion with wal := none } vs)
        = [11, 21] :=
  ⟨rfl, (promote_crash_atomic_iff trusting false { beforePromotion with wal := none }
    ⟨[11, 21], 5⟩ rfl).2 nofun⟩

/-- Killed between the replacement and the unlink of the log, the promotion leaves a database that
    is neither the old one nor the snapshot. -/
theorem old_log_onto_snapshot :
    ∃ vs, openDb ((promote trusting false).after sem beforePromotion vs) = [11, 22] ∧
      openDb ((promote trusting false).after sem beforePromotion vs) ≠ openDb beforePromotion ∧
      openDb ((promote trusting false).after sem beforePromotion vs) ≠ [11, 21] := by
  refine ⟨replicate 10 ⟨9, false⟩, ?_, ?_, ?_⟩
  · decide +kernel
  · decide +kernel
  · decide +kernel

end Fallow.Standby
