import Fallow.Standby.Promote

/-! `app/standby.py` beside a live database: commits, checkpoints and exports up to a promotion.

    A commit goes to the log; the main file, and with it the time the guard of `promote` looks at,
    changes at a checkpoint. An export reads the database, writes a temporary file and renames it:

        database    c₁   c₂ ▾ckpt   c₃           c₄      c₅ ▾ckpt
        ────────────┬────────────────────────────────────────────▶
        export    read ─────────▸ write ▸ rename
                  contents: c₁    mtime

    The guard compares the time of `write` with the time of the last checkpoint. It sees neither a
    commit that is still in the log nor one that went by between `read` and `write`. -/

namespace Fallow.Standby
open Lib Crash Wal List Option

variable {α : Type}

/-- An export between its read and its rename; `mtime` once the temporary file is written. -/
structure Export (α : Type) where
  image : List α
  seen : ℕ
  mtime : Option ℤ

/-- The files, and beside them what an observer knows: every commit, how many of them the snapshot
    holds, how many transactions of the log are in the main file, and the image it was created with. -/
structure Live (α : Type) where
  fs : Fs α := {}
  exporting : Option (Export α) := none
  backfilled : ℕ := 0
  log : List (Txn α) := []
  seen : ℕ := 0
  origin : List α := []

inductive Act (α : Type) where
  | create (page : α) (now : ℤ)
  /-- With a salt the writer starts the log over, if all of it is in the main file. -/
  | commit (t : Txn α) (restart : Option ℕ)
  /-- Write the first `k` transactions of the log back. -/
  | checkpoint (k : ℕ) (now : ℤ)
  /-- The last connection closes: write everything back and delete the log. -/
  | close (now : ℤ)
  | readSnapshot
  | writeSnapshot (now : ℤ)
  | replaceSnapshot
  /-- The export fails or its process dies. -/
  | abandon

/-- The log after a commit, and how much of it is in the main file. -/
def commitLog (s : Live α) (t : Txn α) (restart : Option ℕ) : Log α × ℕ :=
  match s.fs.wal, restart with
  | none, salt => (.of (salt.getD 0) [t], 0)
  | some l, none => (l.append t, s.backfilled)
  | some l, some salt =>
    if s.backfilled = l.txns.length then (.of salt [t], 0) else (l.append t, s.backfilled)

section
variable [Inhabited α]

def step (s : Live α) : Act α → Live α
  | .create page now => match s.fs.db with
    | some _ => s
    | none => { s with fs := { s.fs with db := some ⟨[page], now⟩ }, origin := [page] }
  | .commit t restart => match s.fs.db with
    | none => s
    | some _ =>
      { s with
        fs := { s.fs with wal := some (commitLog s t restart).1, shm := true }
        backfilled := (commitLog s t restart).2
        log := s.log ++ [t] }
  | .checkpoint k now => match s.fs.db with
    | none => s
    | some db =>
      if s.backfilled ≤ k ∧ k ≤ (walTxns s.fs).length ∧ 0 < k then
        { s with
          fs := { s.fs with db := some ⟨replay ((walTxns s.fs).take k) db.image, now⟩ }
          backfilled := k }
      else s
  | .close now => match s.fs.db with
    | none => s
    | some db =>
      let main : File α := if s.backfilled < (walTxns s.fs).length
        then ⟨replay (walTxns s.fs) db.image, now⟩ else db
      { s with fs := { s.fs with db := some main, wal := none, shm := false }, backfilled := 0 }
  | .readSnapshot => match s.fs.db with
    | none => s
    | some _ => { s with exporting := some ⟨openDb s.fs, s.log.length, none⟩ }
  | .writeSnapshot now => match s.exporting with
    | some ⟨image, seen, none⟩ => { s with exporting := some ⟨image, seen, some now⟩ }
    | _ => s
  | .replaceSnapshot => match s.exporting with
    | some ⟨image, seen, some mtime⟩ =>
      { s with fs := { s.fs with snapshot := some ⟨image, mtime⟩ }, exporting := none, seen := seen }
    | _ => s
  | .abandon => { s with exporting := none }

/-- Everything in the log is in the main file. -/
def Checkpointed (s : Live α) : Prop := s.backfilled = (walTxns s.fs).length

/-- No commit goes by an export between its read and its write, and no checkpoint gets a time before
    that of an exported file. -/
def Orderly (s : Live α) : Act α → Prop
  | .commit _ _ => ∀ e, s.exporting = some e → e.mtime.isSome
  | .checkpoint _ now | .close now =>
    (∀ f, s.fs.snapshot = some f → f.mtime ≤ now) ∧
      ∀ e m, s.exporting = some e → e.mtime = some m → m ≤ now
  | _ => True

/-! ### The log loses nothing -/

/-- INVARIANT: the database is what all commits make of the first image, an export what those made
    of it that it has seen. -/
structure Kept (s : Live α) : Prop where
  absent : s.fs.db = none → s.log = [] ∧ s.fs.wal = none ∧ s.exporting = none ∧
    s.fs.snapshot = none ∧ s.backfilled = 0
  filled : ∀ db, s.fs.db = some db → db.image ≠ []
  logical : ∀ db, s.fs.db = some db → replay (walTxns s.fs) db.image = replay s.log s.origin
  held : ∀ db, s.fs.db = some db → replay ((walTxns s.fs).take s.backfilled) db.image = db.image
  backfilled : s.backfilled ≤ (walTxns s.fs).length
  exported : ∀ e, s.exporting = some e → e.seen ≤ s.log.length ∧
    e.image = replay (s.log.take e.seen) s.origin
  snapshot : ∀ f, s.fs.snapshot = some f → s.seen ≤ s.log.length ∧
    f.image = replay (s.log.take s.seen) s.origin

theorem kept_empty : Kept ({} : Live α) :=
  ⟨fun _ => ⟨rfl, rfl, rfl, rfl, rfl⟩, nofun, nofun, nofun, Nat.le_refl 0, nofun, nofun⟩

variable {s : Live α} {seen : ℕ} {mtime now : ℤ}

section
variable (h : Kept s) {db : File α}
include h

theorem Kept.openDb (hd : s.fs.db = some db) : openDb s.fs = replay s.log s.origin := by
  rw [openDb_some hd (h.filled db hd), h.logical db hd]

/-- A commit is appended, or starts a log whose predecessor is all in the main file. -/
theorem commitLog_cases (t : Txn α) (restart : Option ℕ) :
    ((commitLog s t restart).1.txns = walTxns s.fs ++ [t] ∧
      (commitLog s t restart).2 = s.backfilled) ∨
    ((commitLog s t restart).1.txns = [t] ∧ (commitLog s t restart).2 = 0 ∧ Checkpointed s) := by
  cases hw : s.fs.wal with
  | none =>
    have hlen := h.backfilled
    simp only [walTxns, hw, map_none, getD_none, length_nil] at hlen
    refine .inr ⟨?_, ?_, ?_⟩
    · simp only [commitLog, hw, txns_of]
    · simp only [commitLog, hw]
    · simp only [Checkpointed, walTxns, hw, map_none, getD_none, length_nil]
      omega
  | some l =>
    have htx : walTxns s.fs = l.txns := by rw [walTxns, hw]; rfl
    cases restart with
    | none => exact .inl ⟨by simp only [commitLog, hw, txns_append, htx], by simp only [commitLog, hw]⟩
    | some salt =>
      by_cases hb : s.backfilled = l.txns.length
      · refine .inr ⟨?_, ?_, ?_⟩
        · simp only [commitLog, hw, hb, if_true, txns_of]
        · simp only [commitLog, hw, hb, if_true]
        · rw [Checkpointed, htx, hb]
      · refine .inl ⟨?_, ?_⟩
        · simp only [commitLog, hw, hb, if_false, txns_append, htx]
        · simp only [commitLog, hw, hb, if_false]

theorem Kept.commit (t : Txn α) (restart : Option ℕ) : Kept (step s (.commit t restart)) := by
  rw [step]
  cases hd : s.fs.db with
  | none => exact h
  | some db =>
    have hlog : replay (walTxns s.fs ++ [t]) db.image = replay (s.log ++ [t]) s.origin := by
      rw [replay_append, replay_append, h.logical db hd]
    have hold : ∀ n, n ≤ s.log.length → (s.log ++ [t]).take n = s.log.take n :=
      fun n hn => take_append_of_le_length hn
    refine ⟨fun hn => ?_, h.filled, fun db' hdb' => ?_, fun db' hdb' => ?_, ?_, fun e he => ?_,
      fun f hf => ?_⟩
    · rw [show s.fs.db = none from hn] at hd
      cases hd
    · obtain rfl : db = db' := mem_unique hd hdb'
      change replay (commitLog s t restart).1.txns db.image = _
      rcases commitLog_cases h t restart with ⟨htx, -⟩ | ⟨htx, -, hc⟩
      · rw [htx]
        exact hlog
      · have hheld := h.held db hd
        rw [hc, take_length] at hheld
        rw [htx, ← hlog, replay_append, hheld]
    · obtain rfl : db = db' := mem_unique hd hdb'
      change replay ((commitLog s t restart).1.txns.take (commitLog s t restart).2) db.image = _
      rcases commitLog_cases h t restart with ⟨htx, hb⟩ | ⟨htx, hb, -⟩
      · rw [htx, hb, take_append_of_le_length h.backfilled]
        exact h.held db hd
      · rw [hb]
        rfl
    · change (commitLog s t restart).2 ≤ (commitLog s t restart).1.txns.length
      have hle := h.backfilled
      rcases commitLog_cases h t restart with ⟨htx, hb⟩ | ⟨htx, hb, -⟩
      · rw [htx, hb, length_append]
        omega
      · omega
    · obtain ⟨hseen, himage⟩ := h.exported e he
      refine ⟨by simp only [length_append]; omega, ?_⟩
      rw [himage, hold _ hseen]
    · obtain ⟨hseen, himage⟩ := h.snapshot f hf
      refine ⟨by simp only [length_append]; omega, ?_⟩
      rw [himage, hold _ hseen]

theorem Kept.checkpoint (k : ℕ) (now : ℤ) : Kept (step s (.checkpoint k now)) := by
  rw [step]
  cases hd : s.fs.db with
  | none => exact h
  | some db =>
    dsimp only
    split
    · next hk =>
      obtain ⟨-, hlen, -⟩ := hk
      refine ⟨nofun, ?_, ?_, ?_, hlen, h.exported, h.snapshot⟩
      · rintro db' ⟨⟩
        exact replay_ne_nil (h.filled db hd) _
      · rintro db' ⟨⟩
        have := replay_checkpoint ((walTxns s.fs).take k) ((walTxns s.fs).drop k) db.image
        rw [take_append_drop] at this
        exact this.trans (h.logical db hd)
      · rintro db' ⟨⟩
        exact replay_replay
    · exact h

theorem Kept.close (now : ℤ) : Kept (step s (.close now)) := by
  rw [step]
  cases hd : s.fs.db with
  | none => exact h
  | some db =>
    have hmain : (if s.backfilled < (walTxns s.fs).length
        then (⟨replay (walTxns s.fs) db.image, now⟩ : File α) else db).image
          = replay (walTxns s.fs) db.image := by
      split
      · rfl
      next hle =>
      have hheld := h.held db hd
      rw [take_of_length_le (by omega)] at hheld
      exact hheld.symm
    refine ⟨nofun, ?_, ?_, ?_, Nat.le_refl 0, h.exported, h.snapshot⟩
    · rintro db' ⟨⟩
      rw [hmain]
      exact replay_ne_nil (h.filled db hd) _
    · rintro db' ⟨⟩
      exact hmain.trans (h.logical db hd)
    · rintro db' ⟨⟩
      rfl

theorem Kept.step (a : Act α) : Kept (step s a) := by
  cases a with
  | create page now =>
    rw [Standby.step]
    cases hd : s.fs.db with
    | some db => exact h
    | none =>
      obtain ⟨hlog, hwal, hexp, hsnap, hback⟩ := h.absent hd
      have htx : walTxns { s.fs with db := some ⟨[page], now⟩ } = [] := by
        simp only [walTxns, hwal, map_none, getD_none]
      refine ⟨by rintro ⟨⟩, ?_, ?_, ?_, ?_, ?_, ?_⟩
      · rintro db ⟨⟩ ⟨⟩
      · rintro db ⟨⟩
        rw [htx, hlog]
      · rintro db ⟨⟩
        rw [htx, take_nil]
        rfl
      · exact hback ▸ Nat.zero_le _
      · intro e he
        rw [show s.exporting = some e from he] at hexp
        cases hexp
      · intro f hf
        rw [show s.fs.snapshot = some f from hf] at hsnap
        cases hsnap
  | commit t restart => exact h.commit t restart
  | checkpoint k now => exact h.checkpoint k now
  | close now => exact h.close now
  | readSnapshot =>
    rw [Standby.step]
    cases hd : s.fs.db with
    | none => exact h
    | some db =>
      refine { h with absent := fun hn => ?_, exported := ?_ }
      · rw [show s.fs.db = none from hn] at hd
        cases hd
      · rintro e ⟨⟩
        exact ⟨Nat.le_refl _, by rw [h.openDb hd, take_length]⟩
  | writeSnapshot now =>
    rw [Standby.step]
    split
    · next image seen he =>
      refine { h with absent := fun hn => ?_, exported := ?_ }
      · rw [(h.absent hn).2.2.1] at he
        cases he
      · rintro e ⟨⟩
        have hread := h.exported _ he
        exact hread
    · exact h
  | replaceSnapshot =>
    rw [Standby.step]
    split
    · next image seen mtime he =>
      refine { h with absent := fun hn => ?_, exported := by rintro e ⟨⟩, snapshot := ?_ }
      · rw [(h.absent hn).2.2.1] at he
        cases he
      · rintro f ⟨⟩
        exact h.exported _ he
    · exact h
  | abandon =>
    refine { h with absent := fun hn => ?_, exported := by rintro e ⟨⟩ }
    obtain ⟨hlog, hwal, -, hsnap, hback⟩ := h.absent hn
    exact ⟨hlog, hwal, rfl, hsnap, hback⟩

/-! ### Orderly runs -/

/-- The guard can tell: a commit the copy has not seen is still in the log alone, or has been
    written back no earlier than the copy's own time. -/
def Tells (s : Live α) (seen : ℕ) (mtime : ℤ) : Prop :=
  seen < s.log.length → s.backfilled < (walTxns s.fs).length ∨
    ∃ db, s.fs.db = some db ∧ mtime ≤ db.mtime

structure Fresh (s : Live α) : Prop where
  snapshot : ∀ f, s.fs.snapshot = some f → Tells s s.seen f.mtime
  written : ∀ e m, s.exporting = some e → e.mtime = some m → Tells s e.seen m
  unwritten : ∀ e, s.exporting = some e → e.mtime = none → e.seen = s.log.length

/-- After a commit something is in the log alone. -/
theorem Tells.commit (hd : s.fs.db = some db) (t : Txn α)
    (restart : Option ℕ) (seen : ℕ) (mtime : ℤ) :
    Tells (Standby.step s (.commit t restart)) seen mtime := by
  intro _
  refine .inl ?_
  simp only [Standby.step, hd]
  change (commitLog s t restart).2 < (commitLog s t restart).1.txns.length
  have hle := h.backfilled
  rcases commitLog_cases h t restart with ⟨htx, hb⟩ | ⟨htx, hb, -⟩
  · rw [htx, hb, length_append, length_singleton]
    omega
  · rw [htx, hb, length_singleton]
    omega

end

theorem Tells.checkpoint (h : Tells s seen mtime) (hnow : mtime ≤ now) :
    Tells (Standby.step s (.checkpoint k now)) seen mtime := by
  cases hd : s.fs.db with
  | none =>
    simp only [Standby.step, hd]
    exact h
  | some db =>
    simp only [Standby.step, hd]
    split
    · exact fun _ => .inr ⟨_, rfl, hnow⟩
    · exact h

theorem Tells.close (h : Tells s seen mtime)
    (hnow : mtime ≤ now) : Tells (Standby.step s (.close now)) seen mtime := by
  cases hd : s.fs.db with
  | none =>
    simp only [Standby.step, hd]
    exact h
  | some db =>
    simp only [Standby.step, hd]
    split
    · exact fun _ => .inr ⟨_, rfl, hnow⟩
    next hle =>
    intro hlt
    rcases h hlt with hback | ⟨db', hd', hm⟩
    · exact absurd hback hle
    · obtain rfl : db = db' := mem_unique hd hd'
      exact .inr ⟨db, rfl, hm⟩

/-- FRAME: writing back touches neither the copies nor the history. -/
def SameCopies (s s' : Live α) : Prop :=
  s'.exporting = s.exporting ∧ s'.fs.snapshot = s.fs.snapshot ∧ s'.seen = s.seen ∧ s'.log = s.log

theorem copies_checkpoint (s : Live α) (k : ℕ) (now : ℤ) :
    SameCopies s (Standby.step s (.checkpoint k now)) := by
  cases hd : s.fs.db with
  | none => simp only [SameCopies, Standby.step, hd, and_self]
  | some db =>
    simp only [Standby.step, hd]
    split <;> exact ⟨rfl, rfl, rfl, rfl⟩

theorem copies_close (s : Live α) (now : ℤ) : SameCopies s (Standby.step s (.close now)) := by
  cases hd : s.fs.db with
  | none | some db => simp only [SameCopies, Standby.step, hd, and_self]

omit [Inhabited α] in
/-- Written back no earlier than the copies, the database still tells. -/
theorem Fresh.frame (h : Fresh s) (hsame : SameCopies s s') (ha : Orderly s (.close now))
    (htells : ∀ {seen mtime}, Tells s seen mtime → mtime ≤ now → Tells s' seen mtime) :
    Fresh s' := by
  obtain ⟨hexp, hsnap, hseen, hlog⟩ := hsame
  refine ⟨fun f hf => ?_, fun e m he hm => ?_, fun e he hm => ?_⟩
  · rw [hsnap] at hf
    rw [hseen]
    exact htells (h.snapshot f hf) (ha.1 f hf)
  · rw [hexp] at he
    exact htells (h.written e m he hm) (ha.2 e m he hm)
  · rw [hexp] at he
    rw [hlog]
    exact h.unwritten e he hm

theorem Fresh.step (h : Fresh s) (hk : Kept s) (a : Act α) (ha : Orderly s a) :
    Fresh (step s a) := by
  cases a with
  | create page now =>
    cases hd : s.fs.db with
    | some db => simp only [Standby.step, hd]; exact h
    | none =>
      obtain ⟨-, -, hexp, hsnap, -⟩ := hk.absent hd
      simp only [Standby.step, hd]
      refine ⟨fun f hf => ?_, fun e m he => ?_, fun e he => ?_⟩
      · rw [show s.fs.snapshot = some f from hf] at hsnap
        cases hsnap
      · rw [show s.exporting = some e from he] at hexp
        cases hexp
      · rw [show s.exporting = some e from he] at hexp
        cases hexp
  | commit t restart =>
    cases hd : s.fs.db with
    | none => simp only [Standby.step, hd]; exact h
    | some db =>
      have hexp : (Standby.step s (.commit t restart)).exporting = s.exporting := by
        simp only [Standby.step, hd]
      refine ⟨fun f _ => Tells.commit hk hd t restart _ _,
        fun e m _ _ => Tells.commit hk hd t restart _ _, fun e he hm => ?_⟩
      have := ha e (hexp ▸ he)
      rw [hm] at this
      cases this
  | checkpoint k now => exact h.frame (copies_checkpoint s k now) ha .checkpoint
  | close now => exact h.frame (copies_close s now) ha .close
  | readSnapshot =>
    cases hd : s.fs.db with
    | none => simp only [Standby.step, hd]; exact h
    | some db =>
      simp only [Standby.step, hd]
      refine ⟨h.snapshot, ?_, ?_⟩
      · rintro e m ⟨⟩ ⟨⟩
      · rintro e ⟨⟩ -
        rfl
  | writeSnapshot now =>
    simp only [Standby.step]
    split
    · next image seen he =>
      have hall : seen = s.log.length := h.unwritten _ he rfl
      refine ⟨h.snapshot, ?_, ?_⟩
      · rintro e m ⟨⟩ ⟨⟩ hlt
        exact absurd hall (Nat.ne_of_lt hlt)
      · rintro e ⟨⟩ ⟨⟩
    · exact h
  | replaceSnapshot =>
    simp only [Standby.step]
    split
    · next image seen mtime he =>
      refine ⟨?_, nofun, nofun⟩
      rintro f ⟨⟩
      exact h.written _ mtime he rfl
    · exact h
  | abandon => exact ⟨h.snapshot, nofun, nofun⟩

end

/-- A commit, written back, then an export. -/
def commitThenExport : List (Act ℕ) :=
  [.create 1 0, .commit ⟨[], (0, 2), 1, Nat.one_pos⟩ none, .checkpoint 1 1, .readSnapshot,
    .writeSnapshot 5, .replaceSnapshot]

/-- An export, then a commit that stays in the log. -/
def exportThenCommit : List (Act ℕ) :=
  [.create 1 0, .readSnapshot, .writeSnapshot 5, .replaceSnapshot,
    .commit ⟨[], (0, 2), 1, Nat.one_pos⟩ none]

/-- A commit that is written back while an export is between its read and its write. -/
def commitDuringExport : List (Act ℕ) :=
  [.create 1 0, .readSnapshot, .commit ⟨[], (0, 2), 1, Nat.one_pos⟩ none, .checkpoint 1 1,
    .writeSnapshot 5, .replaceSnapshot]

end Fallow.Standby
