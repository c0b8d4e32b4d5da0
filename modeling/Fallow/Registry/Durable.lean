import Fallow.Registry.Ops

/-! Acknowledged registry writes are durable, as far as they are.

    Every writing coroutine keeps the discipline of `Lib.Txn`: the four locked ones write under
    `_write_lock`, the others commit the one statement they made. That leaves one way to lose an
    acknowledged write: the rollback of a failed registration between another, unlocked, writer's
    statement and its commit. Likewise `bump_presence_generation` reads its answer back in a statement
    of its own, so two bumps of one agent that overlap can read the same number.

        create_api_key   INSERT ────────────────── COMMIT ─▶ key
        register_agent          UPDATE 0 rows ─▶ ROLLBACK          (the key is gone) -/

namespace Fallow.Registry
open Lib Lib.Txn Function List Option Txn

/-- Statements that leave every presence generation alone. -/
def Write.Quiet : Write → Prop
  | .presenceEvent .. | .bumpGeneration _ => False
  | _ => True

/-- What a call may write: a locked one touches no generation. -/
def Op.may (op : Op) (w : Write) : Prop := op.locked = true → w.Quiet

variable {w : Write} {op : Op} {g : Bool} {may : Write → Prop} {a : String} {now : ℤ}

/-- An unlocked call: one statement, its commit, and what follows. -/
theorem disc_single (hop : op.locked = false) {k : ℕ → RProg}
    (hk : ∀ n, Disc op.locked op.may false false (k n)) :
    Disc op.locked op.may false false (.exec w (orRaise fun n => .commit (k n))) := by
  refine ⟨fun hl => absurd (hop.symm.trans hl) (by simp),
    fun hl => absurd (hop.symm.trans hl) (by simp), fun n => ?_⟩
  cases n with
  | none => rfl
  | some n => exact hk n

theorem disc_unless [Decidable c]
    (hp : Disc g may false false p) : Disc g may false false (if c then .raise else p) := by
  split
  · rfl
  · exact hp

theorem disc_selectGeneration : Disc g may false false (selectGeneration a) := by
  intro db
  dsimp only
  cases db.agent a with
  | none => rfl
  | some r => exact ⟨rfl, rfl⟩

theorem disc_registerAgent :
    Disc true (fun w => w.Quiet) false false (registerAgent req fault now) := by
  have hback : ∀ {d : Bool}, Disc true (fun w : Write => w.Quiet) true d
      (.rollback (.release .raise) : RProg) :=
    ⟨rfl, rfl, trivial, rfl, fun h => absurd h (by simp), rfl⟩
  unfold registerAgent
  split
  · rfl
  refine ⟨rfl, rfl, fun db => ⟨trivial, fun _ => rfl, fun n => ?_⟩⟩
  dsimp only
  split
  · split
    · exact hback
    refine ⟨trivial, fun _ => rfl, fun n => ?_⟩
    cases n with
    | none => exact hback
    | some n =>
      split
      · exact hback
      · exact ⟨rfl, fun h => absurd h (by simp), fun _ => ⟨rfl, rfl⟩⟩
  · exact hback

theorem disc_revokeEnrollmentToken {id : Option String} :
    Disc true (fun w => w.Quiet) false false (revokeEnrollmentToken id now) := by
  cases id with
  | none => rfl
  | some id =>
    refine ⟨rfl, rfl, fun db => ?_⟩
    dsimp only
    split
    · exact ⟨rfl, fun h => absurd h (by simp), rfl, rfl⟩
    · refine ⟨trivial, fun _ => rfl, fun n => ?_⟩
      cases n with
      | none => exact ⟨rfl, fun _ => trivial, rfl⟩
      | some n => exact ⟨rfl, fun h => absurd h (by simp), rfl, rfl⟩
    · exact ⟨rfl, fun _ => trivial, rfl⟩

theorem disc_revokeAgent : Disc true (fun w => w.Quiet) false false (revokeAgent a now) := by
  refine ⟨rfl, rfl, trivial, fun _ => rfl, fun n => ?_⟩
  cases n with
  | none => exact ⟨rfl, fun _ => trivial, rfl⟩
  | some n => exact ⟨rfl, fun h => absurd h (by simp), disc_unless ⟨rfl, rfl⟩⟩

theorem disc_setAssignments : Disc true (fun w => w.Quiet) false false (setAssignments a ms) := by
  refine ⟨rfl, rfl, trivial, fun _ => rfl, fun n => ?_⟩
  cases n with
  | none => exact ⟨rfl, fun _ => trivial, rfl⟩
  | some n =>
    refine ⟨trivial, fun _ => rfl, fun n => ?_⟩
    cases n with
    | none => exact ⟨rfl, fun _ => trivial, rfl⟩
    | some n => exact ⟨rfl, fun h => absurd h (by simp), rfl, rfl⟩

/-- The statements a locked call may make are the quiet ones. -/
theorem may_of_locked (h : op.locked = true) : op.may = fun w => w.Quiet := by
  funext w; simp [Op.may, h]

/-- Every coroutine of the registry keeps the discipline. -/
theorem disc_body (op : Op) : Disc op.locked op.may false false op.body := by
  cases op with
  | createEnrollmentToken | putModel | saveQuotaSnapshots => exact disc_single rfl fun _ => ⟨rfl, rfl⟩
  | createApiKey h name allow rpm daily now =>
    simp only [Op.body, Registry.createApiKey]
    split
    · exact disc_single rfl fun _ => ⟨rfl, rfl⟩
    · rfl
  | recordHeartbeat | setAgentState => exact disc_single rfl fun _ => disc_unless ⟨rfl, rfl⟩
  | applyPresenceEvent a kind sequence now =>
    simp only [Op.body, Registry.applyPresenceEvent]
    split
    · rfl
    · exact disc_single rfl fun _ => disc_selectGeneration
  | bumpPresenceGeneration a =>
    exact disc_single rfl fun _ => disc_unless disc_selectGeneration
  | revokeAgent a now => rw [may_of_locked rfl]; exact disc_revokeAgent
  | setAssignments a ms => rw [may_of_locked rfl]; exact disc_setAssignments
  | revokeEnrollmentToken id now => rw [may_of_locked rfl]; exact disc_revokeEnrollmentToken
  | registerAgent req fault now => rw [may_of_locked rfl]; exact disc_registerAgent

/-! ### Generations under statements -/

/-- The agent's presence generation, `none` without a row. -/
def generation (db : Db) (a : String) : Option ℕ := (db.agent a).map (·.presenceGeneration)

variable {db : Db} {a : String}

theorem generation_run (h : generation db a = some n) :
    ∃ r, db.agent a = some r ∧ r.presenceGeneration = n ∧
      generation (w.run db).1 a = some (w.onAgent r).presenceGeneration := by
  obtain ⟨r, hr, rfl⟩ := map_eq_some_iff.mp h
  exact ⟨r, hr, rfl, by rw [generation, agent_run w hr]; rfl⟩

/-- A quiet statement keeps the generation of every agent that has a row. -/
theorem generation_quiet (hw : w.Quiet)
    (h : generation db a = some n) : generation (w.run db).1 a = some n := by
  obtain ⟨r, -, rfl, he⟩ := generation_run h
  rw [he]
  cases w with
  | presenceEvent | bumpGeneration => exact absurd hw id
  | _ => simp only [Write.onAgent] <;> split <;> rfl

/-- No statement lowers a generation. -/
theorem generation_mono (h : generation db a = some n) :
    ∃ n', generation (w.run db).1 a = some n' ∧ n ≤ n' := by
  by_cases hw : w.Quiet
  · exact ⟨n, generation_quiet hw h, Nat.le_refl n⟩
  obtain ⟨r, -, rfl, he⟩ := generation_run h
  refine ⟨_, he, ?_⟩
  cases w with
  | presenceEvent | bumpGeneration =>
    simp only [Write.onAgent]; split; exacts [Nat.le_succ _, Nat.le_refl _]
  | _ => exact absurd trivial hw

/-- A bump that matched its row raises it by one. -/
theorem generation_bump (h : ((Write.bumpGeneration a).run db).2 = some 1) :
    ∃ n, generation db a = some n ∧ generation ((Write.bumpGeneration a).run db).1 a = some (n + 1) := by
  have hcount : db.agents.countP (fun r => r.agentId = a) = 1 := some.inj h
  have hmem : ∃ r ∈ db.agents, r.agentId = a := by
    have : 0 < db.agents.countP (fun r => r.agentId = a) := by omega
    simpa using countP_pos_iff.mp this
  cases hr : db.agent a with
  | none =>
    obtain ⟨r, hr', ha⟩ := hmem
    exact absurd ha (Table.get_eq_none.mp hr r hr')
  | some r =>
    refine ⟨r.presenceGeneration, by rw [generation, hr]; rfl, ?_⟩
    rw [generation, agent_run _ hr, Write.onAgent, if_pos (Table.key_of_get hr)]; rfl

theorem generation_replay : ∀ (es : List (ℕ × Write)) {db : Db} {n : ℕ},
    generation db a = some n → ∃ n', generation (replay Write.run db es) a = some n' ∧ n ≤ n'
  | [], _, n, h => ⟨n, h, Nat.le_refl n⟩
  | e :: es, _, n, h => by
    obtain ⟨n₁, h₁, hle⟩ := generation_mono h
    obtain ⟨n₂, h₂, hle'⟩ := generation_replay es h₁
    exact ⟨n₂, h₂, Nat.le_trans hle hle'⟩

theorem generation_replay_quiet : ∀ (es : List (ℕ × Write)) {db : Db} {n : ℕ},
    (∀ e ∈ es, e.2.Quiet) → generation db a = some n →
      generation (replay Write.run db es) a = some n
  | [], _, _, _, h => h
  | e :: es, _, _, hq, h =>
    generation_replay_quiet es (fun e' he' => hq e' (mem_cons_of_mem _ he'))
      (generation_quiet (hq e mem_cons_self) h)

/-! ### Overlapping bumps -/

abbrev RSys := Sys Db Write Ret Op

/-- The number a bump of `a` returned. -/
def bumpValue (a : String) : Option Op → Ret → Option ℕ
  | some (.bumpPresenceGeneration b), .generation n => if b = a then some n else none
  | _, _ => none

/-- The numbers bumps of `a` returned so far, in order. -/
def bumped (a : String) (s : RSys) : List ℕ := s.returned.filterMap fun e => bumpValue a (s.ops e.1) e.2

/-- Coroutine `j` is a bump of `a` that has run its `UPDATE` and not yet read its answer. -/
def InWindow (a : String) (s : RSys) (j : ℕ) : Prop :=
  s.ops j = some (.bumpPresenceGeneration a) ∧
    (s.procs j = some (.commit (selectGeneration a)) ∨ s.procs j = some (selectGeneration a))

/-- A bump's `UPDATE` meets no other bump of its agent in that window. -/
def BumpAlone (s : RSys) : Act Op → Prop
  | .run i => ∀ a, s.ops i = some (.bumpPresenceGeneration a) →
      s.procs i = some (bumpPresenceGeneration a) → ∀ j, ¬ InWindow a s j
  | .spawn _ _ => True

/-- Where a bump of `a` can stand, and what is then known of the row. -/
inductive BumpAt (a : String) (s : RSys) (i : ℕ) : RProg → Prop where
  | start : BumpAt a s i (bumpPresenceGeneration a)
  | updated (row : (generation s.working a).isSome)
      (anchor : (generation s.committed a).isSome ∨ ∃ w, (i, w) ∈ s.pending) :
      BumpAt a s i (.commit (selectGeneration a))
  | committed (row : (generation s.committed a).isSome) : BumpAt a s i (selectGeneration a)
  | returned (n : ℕ) : BumpAt a s i (.ret (.generation n))
  | missed : BumpAt a s i (.commit .raise)
  | raised : BumpAt a s i .raise

/-- The returned numbers lie below the row, strictly while a bump is in its window. -/
structure Fence (a : String) (s : RSys) : Prop where
  stands : ∀ i p, s.ops i = some (.bumpPresenceGeneration a) → s.procs i = some p → BumpAt a s i p
  row : ∀ v ∈ bumped a s, (generation s.committed a).isSome
  low : ∀ v ∈ bumped a s, ∃ n, generation s.working a = some n ∧ v ≤ n
  strict : ∀ j, InWindow a s j → ∀ v ∈ bumped a s, ∃ n, generation s.working a = some n ∧ v < n
  unique : ∀ i j, InWindow a s i → InWindow a s j → i = j
  sorted : (bumped a s).Pairwise (· < ·)

section
variable {a : String} {d₀ : Db} {s s' : RSys} {i j : ℕ} {p q : RProg}

theorem generation_working (hr : Replays Write.run d₀ s) (h : (generation s.committed a).isSome) :
    (generation s.working a).isSome := by
  obtain ⟨n, hn⟩ := isSome_iff_exists.mp h
  obtain ⟨n', hn', -⟩ := generation_replay s.pending hn
  rw [hr.working, hn']; rfl

/-- The number a coroutine adds by going on as `q`. -/
def added (a : String) (op : Option Op) : RProg → List ℕ
  | .ret r => (bumpValue a op r).toList
  | _ => []

theorem bumped_fires (hf : Fires Write.run s i p q s') :
    bumped a s' = bumped a s ++ added a (s.ops i) q := by
  rw [bumped, hf.ops, hf.returned]
  cases q with
  | ret r =>
    change (s.returned ++ [(i, r)]).filterMap _ = _
    rw [filterMap_append]
    congr 1
  | _ => exact (append_nil _).symm

theorem added_of_ne (hop : s.ops i ≠ some (.bumpPresenceGeneration a)) :
    added a (s.ops i) q = [] := by
  cases q with
  | ret r =>
    change (bumpValue a (s.ops i) r).toList = []
    unfold bumpValue
    split
    · rename_i b n he
      rw [if_neg]; rfl
      rintro rfl; exact hop he
    · rfl
  | _ => rfl

theorem inWindow_of_ne (hf : Fires Write.run s i p q s') (hne : j ≠ i) :
    InWindow a s' j ↔ InWindow a s j := by
  unfold InWindow; rw [hf.ops, hf.procs, update_of_ne hne]

theorem not_inWindow (hf : Fires Write.run s i p q s')
    (hq : q ≠ .commit (selectGeneration a) ∧ q ≠ selectGeneration a) : ¬ InWindow a s' i := by
  rintro ⟨_, hi⟩
  rw [hf.procs, update_self] at hi
  rcases hi with hi | hi
  · exact hq.1 (some.inj hi)
  · exact hq.2 (some.inj hi)

theorem fires_selectGeneration (hf : Fires Write.run s i (selectGeneration a) q s')
    (hrow : s.working.agent a = some r) :
    q = .ret (.generation r.presenceGeneration) ∧ s' = s.next i q := by
  cases hf with
  | read k => exact ⟨by simp only [hrow], rfl⟩

section
variable (hr : Replays Write.run d₀ s) (hd : Disciplined Op.locked Op.may s)
  (hroll : RollbackAlone Op.locked s (.run i)) (h : Fence a s)
include hroll

/-- A bump that has written is not locked, so no rollback meets its pending write. -/
theorem not_rollback_of_pending (hp : s.procs i = some (.rollback q))
    (hop : s.ops j = some (.bumpPresenceGeneration a)) (hne : j ≠ i) (hw : (j, w) ∈ s.pending) : False := by
  obtain ⟨op, hop', hl⟩ := hroll q hp _ hw hne
  rw [hop] at hop'
  cases hop'
  exact absurd hl (by simp [Op.locked])

include hr

/-- FRAME: another coroutine's action keeps what is known where a bump stands. -/
theorem BumpAt.frame (h : BumpAt a s j r) (hop : s.ops j = some (.bumpPresenceGeneration a))
    (hp : s.procs i = some p) (hf : Fires Write.run s i p q s') (hne : j ≠ i) : BumpAt a s' j r := by
  cases h with
  | start => exact .start
  | returned n => exact .returned n
  | missed => exact .missed
  | raised => exact .raised
  | committed row =>
    refine .committed ?_
    cases hf with
    | commit k => exact generation_working hr row
    | _ => exact row
  | updated row anchor =>
    cases hf with
    | read k | acquire k _ | release k => exact .updated row anchor
    | exec w k =>
      obtain ⟨n, hn⟩ := isSome_iff_exists.mp row
      obtain ⟨n', hn', -⟩ := generation_mono hn
      exact .updated (isSome_iff_exists.mpr ⟨n', hn'⟩)
        (anchor.imp_right fun ⟨w', hw'⟩ => ⟨w', mem_append_left _ hw'⟩)
    | commit k => exact .updated row (.inl row)
    | rollback k =>
      rcases anchor with hc | ⟨w, hw⟩
      · exact .updated hc (.inl hc)
      · exact (not_rollback_of_pending hroll hp hop hne hw).elim

include hd

omit hr in
/-- What a rollback discards touches no generation. -/
theorem pending_quiet (hp : s.procs i = some (.rollback q)) : ∀ e ∈ s.pending, e.2.Quiet := by
  intro e he
  obtain ⟨r, hr⟩ := isSome_iff_exists.mp (hd.writer e (hd.pending e he))
  obtain ⟨op, d, hop, hok⟩ := hd.procs e.1 r hr
  refine hok.may e.2 (hd.pending e he) ?_
  by_cases hi : e.1 = i
  · rw [hi, hp] at hr
    cases hr
    exact hok.disc.1
  · obtain ⟨op', hop', hl⟩ := hroll q hp e he hi
    rw [hop] at hop'
    rw [some.inj hop']; exact hl

/-- A rollback that meets the condition keeps the generation of a committed row. -/
theorem generation_rollback (hp : s.procs i = some (.rollback q))
    (h : generation s.committed a = some n) : generation s.working a = some n := by
  rw [hr.working]
  exact generation_replay_quiet s.pending (pending_quiet hd hroll hp) h

include h

section
variable (hp : s.procs i = some p) (hf : Fires Write.run s i p q s')
include hp hf

/-- Once a number was returned, no action lowers the row. -/
theorem Fence.generation_fires (hv : v ∈ bumped a s)
    (hn : generation s.working a = some n) : ∃ n', generation s'.working a = some n' ∧ n ≤ n' := by
  cases hf with
  | exec w k => exact generation_mono hn
  | rollback k =>
    obtain ⟨m, hm⟩ := isSome_iff_exists.mp (h.row v hv)
    have := generation_rollback hr hd hroll hp hm
    rw [hn] at this
    exact ⟨m, hm, Nat.le_of_eq (some.inj this)⟩
  | _ => exact ⟨n, hn, Nat.le_refl n⟩

/-- What every action keeps: where the other bumps stand, and the returned numbers under the row. -/
theorem Fence.frame :
    (∀ j r, j ≠ i → s'.ops j = some (.bumpPresenceGeneration a) → s'.procs j = some r →
      BumpAt a s' j r) ∧ (∀ v ∈ bumped a s, (generation s'.committed a).isSome) ∧
    (∀ v ∈ bumped a s, ∃ n, generation s'.working a = some n ∧ v ≤ n) ∧
    (∀ j, j ≠ i → InWindow a s' j → ∀ v ∈ bumped a s, ∃ n, generation s'.working a = some n ∧ v < n)
    := by
  refine ⟨?_, ?_, ?_, ?_⟩
  · intro j r hne hop hj
    rw [hf.ops] at hop
    rw [hf.procs, update_of_ne hne] at hj
    exact (h.stands j r hop hj).frame hr hroll hop hp hf hne
  · intro v hv
    cases hf with
    | commit k => exact generation_working hr (h.row v hv)
    | _ => exact h.row v hv
  · intro v hv
    obtain ⟨n, hn, hle⟩ := h.low v hv
    obtain ⟨n', hn', hle'⟩ := h.generation_fires hr hd hroll hp hf hv hn
    exact ⟨n', hn', Nat.le_trans hle hle'⟩
  · intro j hne hj v hv
    obtain ⟨n, hn, hlt⟩ := h.strict j ((inWindow_of_ne hf hne).mp hj) v hv
    obtain ⟨n', hn', hle'⟩ := h.generation_fires hr hd hroll hp hf hv hn
    exact ⟨n', hn', Nat.lt_of_lt_of_le hlt hle'⟩

/-- An action of a coroutine that is no bump of `a`. -/
theorem Fence.fires_other (hop : s.ops i ≠ some (.bumpPresenceGeneration a)) : Fence a s' := by
  obtain ⟨hst, hrow, hlow, hstrict⟩ := h.frame hr hd hroll hp hf
  have hb : bumped a s' = bumped a s := by
    rw [bumped_fires hf, added_of_ne hop, append_nil]
  have hne : ∀ j, s'.ops j = some (.bumpPresenceGeneration a) → j ≠ i := by
    rintro j hj rfl
    rw [hf.ops] at hj; exact hop hj
  refine ⟨fun j r hj => hst j r (hne j hj) hj, ?_, ?_, ?_, ?_, ?_⟩
  · rw [hb]; exact hrow
  · rw [hb]; exact hlow
  · rw [hb]; exact fun j hj => hstrict j (hne j hj.1) hj
  · intro j k hj hk
    exact h.unique j k ((inWindow_of_ne hf (hne j hj.1)).mp hj) ((inWindow_of_ne hf (hne k hk.1)).mp hk)
  · rw [hb]; exact h.sorted

/-- An action of a bump of `a` that returns no number. -/
theorem Fence.fires_bump (hat : BumpAt a s' i q) (hadd : added a (s.ops i) q = [])
    (hwin : InWindow a s' i → (∀ j, j ≠ i → ¬ InWindow a s j) ∧
      ∀ v ∈ bumped a s, ∃ n, generation s'.working a = some n ∧ v < n) : Fence a s' := by
  obtain ⟨hst, hrow, hlow, hstrict⟩ := h.frame hr hd hroll hp hf
  have hb : bumped a s' = bumped a s := by rw [bumped_fires hf, hadd, append_nil]
  refine ⟨?_, ?_, ?_, ?_, ?_, ?_⟩
  · intro j r hop hj
    by_cases hne : j = i
    · rw [hf.procs, hne, update_self] at hj
      rw [hne, ← some.inj hj]; exact hat
    · exact hst j r hne hop hj
  · rw [hb]; exact hrow
  · rw [hb]; exact hlow
  · rw [hb]
    intro j hj
    by_cases hne : j = i
    · exact (hwin (hne ▸ hj)).2
    · exact hstrict j hne hj
  · intro j k hj hk
    by_cases hji : j = i <;> by_cases hki : k = i
    · rw [hji, hki]
    · exact absurd ((inWindow_of_ne hf hki).mp hk) ((hwin (hji ▸ hj)).1 k hki)
    · exact absurd ((inWindow_of_ne hf hji).mp hj) ((hwin (hki ▸ hk)).1 j hji)
    · exact h.unique j k ((inWindow_of_ne hf hji).mp hj) ((inWindow_of_ne hf hki).mp hk)
  · rw [hb]; exact h.sorted

end

/-- INVARIANT: the `UPDATE` of a bump that meets `BumpAlone`. -/
theorem Fence.fires_update (hbump : ∀ j, ¬ InWindow a s j)
    (hp : s.procs i = some (bumpPresenceGeneration a))
    (hf : Fires Write.run s i (bumpPresenceGeneration a) q s') : Fence a s' := by
  have hf' := hf
  cases hf' with
  | exec w k =>
    cases hn : ((Write.bumpGeneration a).run s.working).2 with
    | none =>
      rw [hn] at hf
      exact h.fires_bump hr hd hroll hp hf .raised rfl fun hw =>
        absurd hw (not_inWindow hf ⟨by simp [orRaise], by simp [orRaise, selectGeneration]⟩)
    | some n =>
      rw [hn] at hf
      by_cases h1 : n = 1
      · subst h1
        obtain ⟨m, hm, hm'⟩ := generation_bump hn
        refine h.fires_bump hr hd hroll hp hf
          (.updated (isSome_iff_exists.mpr ⟨m + 1, hm'⟩) (.inr ⟨.bumpGeneration a, by simp⟩))
          rfl fun _ => ⟨fun j _ => hbump j, fun v hv => ?_⟩
        obtain ⟨m₀, hm₀, hle⟩ := h.low v hv
        rw [hm] at hm₀
        exact ⟨m + 1, hm', by have := some.inj hm₀; omega⟩
      · have hk : orRaise (fun n => .commit (if n ≠ 1 then .raise else selectGeneration a)) (some n)
            = (.commit .raise : RProg) := by simp [orRaise, h1]
        rw [hk] at hf ⊢
        exact h.fires_bump hr hd hroll hp hf .missed rfl fun hw =>
          absurd hw (not_inWindow hf ⟨by simp [selectGeneration], by simp [selectGeneration]⟩)

/-- INVARIANT: the `COMMIT` of a bump that matched its row. -/
theorem Fence.fires_commit (hop : s.ops i = some (.bumpPresenceGeneration a))
    (hp : s.procs i = some (.commit (selectGeneration a)))
    (hf : Fires Write.run s i (.commit (selectGeneration a)) q s') : Fence a s' := by
  have hwin : InWindow a s i := ⟨hop, .inl hp⟩
  have hf' := hf
  cases hf' with
  | commit k =>
    cases h.stands i _ hop hp with
    | updated row _ =>
      exact h.fires_bump hr hd hroll hp hf (.committed row) rfl fun _ =>
        ⟨fun j hne hj => hne (h.unique j i hj hwin), h.strict i hwin⟩

/-- INVARIANT: the `SELECT` that ends a bump; the number it returns is above all earlier ones. -/
theorem Fence.fires_select (hop : s.ops i = some (.bumpPresenceGeneration a))
    (hp : s.procs i = some (selectGeneration a))
    (hf : Fires Write.run s i (selectGeneration a) q s') : Fence a s' := by
  have hwin : InWindow a s i := ⟨hop, .inr hp⟩
  have hcommitted : (generation s.committed a).isSome := by
    cases h.stands i _ hop hp with
    | committed row => exact row
  obtain ⟨n, hn⟩ := isSome_iff_exists.mp (generation_working hr hcommitted)
  obtain ⟨r, hrow, rfl⟩ := map_eq_some_iff.mp hn
  obtain ⟨hst, -, hlow, -⟩ := h.frame hr hd hroll hp hf
  obtain ⟨rfl, rfl⟩ := fires_selectGeneration hf hrow
  have hb := bumped_fires (a := a) hf
  rw [show added a (s.ops i) (.ret (.generation r.presenceGeneration)) = [r.presenceGeneration] by
    rw [hop]; simp [added, bumpValue]] at hb
  have hbelow : ∀ v ∈ bumped a s, v < r.presenceGeneration := by
    intro v hv
    obtain ⟨m, hm, hlt⟩ := h.strict i hwin v hv
    rw [hn] at hm
    rw [some.inj hm]; exact hlt
  have hout : ∀ j, ¬ InWindow a (s.next i (.ret (.generation r.presenceGeneration))) j := by
    intro j hj
    by_cases hne : j = i
    · exact not_inWindow hf ⟨by simp, by simp [selectGeneration]⟩ (hne ▸ hj)
    · exact hne (h.unique j i ((inWindow_of_ne hf hne).mp hj) hwin)
  refine ⟨?_, ?_, ?_, fun j hj => absurd hj (hout j), fun j _ hj => absurd hj (hout j), ?_⟩
  · intro j p' hop' hj
    by_cases hne : j = i
    · rw [hf.procs, hne, update_self] at hj
      rw [← some.inj hj]; exact .returned _
    · exact hst j p' hne hop' hj
  · intro v _; exact hcommitted
  · rw [hb]
    exact forall_mem_concat.2 ⟨hlow, _, hn, Nat.le_refl _⟩
  · rw [hb, pairwise_append]
    refine ⟨h.sorted, pairwise_singleton .., ?_⟩
    intro v hv w hw
    rw [mem_singleton.mp hw]; exact hbelow v hv

/-- INVARIANT: one action of any coroutine keeps the fence of every agent. -/
theorem Fence.fires (hbump : BumpAlone s (.run i)) (hp : s.procs i = some p)
    (hf : Fires Write.run s i p q s') : Fence a s' := by
  by_cases hop : s.ops i = some (.bumpPresenceGeneration a)
  · cases h.stands i p hop hp with
    | start => exact h.fires_update hr hd hroll (hbump a hop hp) hp hf
    | updated _ _ => exact h.fires_commit hr hd hroll hop hp hf
    | committed _ => exact h.fires_select hr hd hroll hop hp hf
    | missed =>
      have hf' := hf
      cases hf' with
      | commit k =>
        exact h.fires_bump hr hd hroll hp hf .raised rfl fun hw =>
          absurd hw (not_inWindow hf ⟨by simp, by simp [selectGeneration]⟩)
    | returned n | raised => cases hf
  · exact h.fires_other hr hd hroll hp hf hop

end

theorem bumped_spawn (hd : Disciplined Op.locked Op.may s) (hnone : s.procs i = none) :
    bumped a { s.next i op.body with ops := update s.ops i (some op) } = bumped a s := by
  have hold : s.returned.filterMap (fun e => bumpValue a (update s.ops i (some op) e.1) e.2)
      = bumped a s := by
    refine filterMap_congr fun e he => ?_
    have hne : e.1 ≠ i := by
      rintro rfl
      have := hd.returner e he
      rw [hnone] at this; exact absurd this (by simp)
    rw [update_of_ne hne]
  cases hb : op.body with
  | ret r =>
    -- no call returns without an await, least of all a bump
    change (s.returned ++ [(i, r)]).filterMap _ = _
    rw [filterMap_append, hold]
    have : bumpValue a (some op) r = none := by
      cases op with
      | bumpPresenceGeneration b => exact absurd hb (by simp [Op.body, bumpPresenceGeneration])
      | _ => rfl
    simp [this]
  | _ => exact hold

/-- INVARIANT: a new coroutine has returned nothing and stands at its start. -/
theorem Fence.spawn (h : Fence a s) (hd : Disciplined Op.locked Op.may s) (op : Op)
    (hnone : s.procs i = none) :
    Fence a { s.next i op.body with ops := update s.ops i (some op) } := by
  have hwin : ∀ j, InWindow a { s.next i op.body with ops := update s.ops i (some op) } j →
      InWindow a s j := by
    rintro j ⟨hop, hj⟩
    change update s.ops i (some op) j = _ at hop
    by_cases hne : j = i
    · subst hne
      have hop' : op = .bumpPresenceGeneration a := by
        rw [update_self] at hop; exact some.inj hop
      change update s.procs j (some op.body) j = _ ∨ update s.procs j (some op.body) j = _ at hj
      rw [update_self, hop'] at hj
      simp [Op.body, bumpPresenceGeneration, selectGeneration] at hj
    · change update s.procs i (some op.body) j = _ ∨ update s.procs i (some op.body) j = _ at hj
      rw [update_of_ne hne] at hop hj
      exact ⟨hop, hj⟩
  refine ⟨?_, ?_, ?_, ?_, fun j k hj hk => h.unique j k (hwin j hj) (hwin k hk), ?_⟩
  · intro j r hop hj
    change update s.ops i (some op) j = _ at hop
    change update s.procs i (some op.body) j = some r at hj
    by_cases hne : j = i
    · subst hne
      rw [update_self] at hop hj
      rw [← some.inj hj, some.inj hop]; exact .start
    · rw [update_of_ne hne] at hop hj
      cases h.stands j r hop hj with
      | start => exact .start
      | updated row anchor => exact .updated row anchor
      | committed row => exact .committed row
      | returned n => exact .returned n
      | missed => exact .missed
      | raised => exact .raised
  · rw [bumped_spawn hd hnone]; exact h.row
  · rw [bumped_spawn hd hnone]; exact h.low
  · rw [bumped_spawn hd hnone]; exact fun j hj => h.strict j (hwin j hj)
  · rw [bumped_spawn hd hnone]; exact h.sorted

/-- INVARIANT: every step that meets both conditions keeps the fence. -/
theorem Fence.step (h : Fence a s) (hr : Replays Write.run d₀ s)
    (hd : Disciplined Op.locked Op.may s) (act : Act Op) (hroll : RollbackAlone Op.locked s act)
    (hbump : BumpAlone s act) : Fence a (step Write.run Op.body s act) := by
  cases act with
  | spawn i op =>
    rcases step_spawn with he | ⟨hnone, he⟩
    · rw [he]; exact h
    · rw [he]; exact h.spawn hd op hnone
  | run i =>
    rcases step_run with he | ⟨p, q, s', hp, hf, he⟩
    · rw [he]; exact h
    · rw [he]; exact h.fires hr hd hroll hbump hp hf

end

/-! ### Runs -/

/-- A connection just opened on `d₀`. -/
def opened (d₀ : Db) : RSys := { working := d₀, committed := d₀ }

/-- A rollback meets no unlocked writer's pending statement, and bumps of one agent do not overlap. -/
def Apart (s : RSys) (act : Act Op) : Prop := RollbackAlone Op.locked s act ∧ BumpAlone s act

/-- What the registry owes its callers: the committed database is its log replayed, what a returned
    call wrote is in that log, and the numbers bumps of one agent returned only grow. -/
structure Acknowledged (d₀ : Db) (s : RSys) : Prop where
  committed : s.committed = replay Write.run d₀ s.log
  durable : ∀ i r, s.procs i = some (.ret r) → ∀ w, (i, w) ∈ s.issued → (i, w) ∈ s.log
  increasing : ∀ a, (bumped a s).Pairwise (· < ·)

theorem disciplined_opened (d₀ : Db) : Disciplined Op.locked Op.may (opened d₀) := by
  refine ⟨?_, ?_, ?_, ?_, ?_⟩
  · intro i p hp; exact absurd hp (by simp [opened])
  · intro e he; exact absurd he (by simp [opened])
  · intro e he; exact absurd he (by simp [opened])
  · intro i hi; exact absurd hi (by simp [opened])
  · intro e he; exact absurd he (by simp [opened])

theorem fence_opened (a : String) (d₀ : Db) : Fence a (opened d₀) := by
  refine ⟨?_, ?_, ?_, ?_, ?_, .nil⟩
  · intro i p hop; exact absurd hop (by simp [opened])
  · intro v hv; exact absurd hv (by simp [bumped, opened])
  · intro v hv; exact absurd hv (by simp [bumped, opened])
  · rintro j ⟨hop, _⟩; exact absurd hop (by simp [opened])
  · rintro i j ⟨hop, _⟩; exact absurd hop (by simp [opened])

def ciKey : Op := .createApiKey "5f2c" "ci" none none none 100

/-- A registration whose token nobody issued. -/
def strangerRequest : RegisterRequest :=
  { protocolVersion := 1, enrollmentTokenHash := "none", hostname := "lab-7", host := "10.0.0.7",
    capsJson := "", agentId := "a7", deviceTokenHash := "d7" }

/-- The registration's rollback falls between the key's `INSERT` and its `COMMIT`. -/
def lostKey : List (Act Op) :=
  [.spawn 0 ciKey, .spawn 1 (.registerAgent strangerRequest none 100), .run 0,
   .run 1, .run 1, .run 1, .run 1, .run 0]

/-- Both `UPDATE`s of an agent at generation 0 run before either answer is read. -/
def doubleBump : List (Act Op) :=
  [.spawn 0 (.bumpPresenceGeneration "a7"), .spawn 1 (.bumpPresenceGeneration "a7"),
   .run 0, .run 1, .run 0, .run 0, .run 1, .run 1]

def enrolled : Db := { agents := [enrolledRow strangerRequest none 0] }

end Fallow.Registry
