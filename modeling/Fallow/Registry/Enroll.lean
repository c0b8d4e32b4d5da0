import Fallow.Registry.Durable

/-! An enrolment spends a token and inserts an agent, in two statements of one open transaction.

    `register_agent` marks the token used, inserts the row and commits, all under `_write_lock`; on a
    failure it rolls the transaction back. The lock keeps other registrations out, not the writers
    that never take it, and their COMMIT commits the half that is there:

        register_agent     UPDATE token ──────────────────── INSERT fails ─▶ ROLLBACK
        record_heartbeat                UPDATE ─▶ COMMIT                    (the token stays spent)

    `Obeys` is the protocol of one call, cut into phases. While no COMMIT falls into the phases
    `half` and `failing`, the committed tokens that are spent and the committed agents stay in
    one-to-one correspondence through the calls that made them, whatever crashes. -/

namespace Fallow.Registry
open Lib Lib.Txn List Table

/-! ### Tokens and agents of a database -/

/-- The token is there, used and not revoked. -/
def Db.Spent (db : Db) (h : String) : Prop :=
  ∃ t, db.token h = some t ∧ t.usedAt.isSome ∧ t.revokedAt = none

/-- The primary keys, and no token is revoked that was not used. -/
structure Db.TokensOk (db : Db) : Prop where
  agents : Table.Keyed AgentRow.agentId db.agents
  tokens : Table.Keyed TokenRow.tokenHash db.enrollmentTokens
  unused : ∀ t ∈ db.enrollmentTokens, t.usedAt = none → t.revokedAt = none

/-- Statements that neither spend a token nor insert an agent. -/
def Write.Plain : Write → Prop
  | .spendToken .. | .insertAgent _ => False
  | _ => True

variable {now : ℤ} {row : AgentRow} {n : ℕ} {req : RegisterRequest} {fault : Option Fault}

section
variable {db : Db} {h a : String} {w : Write} {t : TokenRow}

theorem onToken_unused (ht : t.usedAt = none → t.revokedAt = none)
    (hu : (w.onToken t).usedAt = none) : (w.onToken t).revokedAt = none := by
  cases w with
  | spendToken h' now | voidToken h' now =>
    simp only [Write.onToken] at hu ⊢
    split at hu
    · cases hu
    · rename_i hc; rw [if_neg hc]; exact ht hu
  | _ => exact ht hu

/-- INVARIANT: every statement keeps the constraints. -/
theorem Db.TokensOk.run (hdb : db.TokensOk) (w : Write) : (w.run db).1.TokensOk := by
  rcases tokens_run w db with he | ⟨h, createdAt, mode, rfl, hfree, he⟩
  · refine ⟨keyed_run w hdb.agents, ?_, ?_⟩
    · rw [he, Table.Keyed, map_map]
      exact (map_congr_left fun t _ => onToken_hash w t) ▸ hdb.tokens
    · rw [he]
      intro t ht
      obtain ⟨t', ht', rfl⟩ := mem_map.mp ht
      exact onToken_unused (hdb.unused t' ht')
  · refine ⟨keyed_run _ hdb.agents, ?_, ?_⟩
    · rw [he]; exact keyed_append hdb.tokens hfree
    · rw [he]
      exact forall_mem_concat.2 ⟨hdb.unused, fun _ => rfl⟩

theorem tokensOk_empty : Db.TokensOk {} :=
  ⟨nodup_nil, nodup_nil, nofun⟩

theorem Db.TokensOk.replay (hdb : db.TokensOk) (es : List (ℕ × Write)) :
    (replay Write.run db es).TokensOk := by
  induction es generalizing db with
  | nil => exact hdb
  | cons e es ih => exact ih (hdb.run e.2)

theorem token_map (h : String) : Table.get TokenRow.tokenHash (ts.map w.onToken) h
      = (Table.get TokenRow.tokenHash ts h).map w.onToken := by
  rw [Table.get, List.find?_map]
  simp only [Function.comp_def, onToken_hash]
  rfl

/-- A plain statement keeps a row's verdict: a voided token is revoked as well as used. -/
theorem onToken_spent_plain (hw : w.Plain) :
    ((w.onToken t).usedAt.isSome ∧ (w.onToken t).revokedAt = none)
      ↔ (t.usedAt.isSome ∧ t.revokedAt = none) := by
  cases w with
  | spendToken => exact hw.elim
  | voidToken h' now =>
    simp only [Write.onToken]
    split
    · rename_i hc; simp [hc.2]
    · rfl
  | _ => rfl

/-- FRAME: plain statements spend no token. -/
theorem spent_run_plain (hw : w.Plain) : (w.run db).1.Spent h ↔ db.Spent h := by
  rcases tokens_run w db with he | ⟨h', createdAt, mode, rfl, hfree, he⟩
  · simp only [Db.Spent, Db.token, he, token_map, Option.map_eq_some_iff]
    constructor
    · rintro ⟨_, ⟨t, ht, rfl⟩, hs⟩
      exact ⟨t, ht, (onToken_spent_plain hw).mp hs⟩
    · rintro ⟨t, ht, hs⟩
      exact ⟨_, ⟨t, ht, rfl⟩, (onToken_spent_plain hw).mpr hs⟩
  · simp only [Db.Spent, Db.token, he, get_append]
    constructor
    · rintro ⟨t, ht, hs⟩
      rcases Option.or_eq_some_iff.mp ht with ht | ⟨-, ht⟩
      · exact ⟨t, ht, hs⟩
      split at ht
      · cases ht
        cases hs.1
      · cases ht
    · rintro ⟨t, ht, hs⟩
      exact ⟨t, by rw [ht]; rfl, hs⟩

/-- The UPDATE that hits one row spends its token, which was not spent before. -/
theorem spent_run_spend (hdb : db.TokensOk) (hn : ((Write.spendToken h now).run db).2 = some 1) :
    ¬ db.Spent h ∧ ∀ x, ((Write.spendToken h now).run db).1.Spent x ↔ db.Spent x ∨ x = h := by
  have hcount := Option.some.inj hn
  obtain ⟨t, hmem, ht⟩ := countP_pos_iff.mp (by rw [hcount]; exact Nat.one_pos)
  obtain ⟨rfl, hunused⟩ := of_decide_eq_true ht
  have hget : db.token t.tokenHash = some t := get_of_mem hdb.tokens hmem
  have hnot : ¬ db.Spent t.tokenHash := by
    rintro ⟨t', ht', hu, -⟩
    rw [hget] at ht'
    cases ht'
    rw [hunused] at hu
    cases hu
  refine ⟨hnot, fun x => ?_⟩
  rcases tokens_run (.spendToken t.tokenHash now) db with he | ⟨_, _, _, hw, -⟩
  swap
  · cases hw
  have htok : ((Write.spendToken t.tokenHash now).run db).1.token x
      = (db.token x).map (Write.spendToken t.tokenHash now).onToken := by
    rw [Db.token, he, token_map]; rfl
  rw [Db.Spent, htok]
  by_cases hx : x = t.tokenHash
  · subst hx
    rw [hget]
    simp [Write.onToken, hunused, hdb.unused t hmem hunused]
  · have hkeep : ∀ r, db.token x = some r → (Write.spendToken t.tokenHash now).onToken r = r := by
      intro r hr
      have hk : r.tokenHash = x := key_of_get hr
      simp only [Write.onToken]
      rw [if_neg (by rintro ⟨he, -⟩; exact hx (hk.symm.trans he))]
    constructor
    · rintro ⟨r', hr', hs⟩
      obtain ⟨r, hr, rfl⟩ := Option.map_eq_some_iff.mp hr'
      rw [hkeep r hr] at hs
      exact .inl ⟨r, hr, hs⟩
    · rintro (⟨r, hr, hs⟩ | he)
      · exact ⟨r, by rw [hr, Option.map_some, hkeep r hr], hs⟩
      · exact absurd he hx

theorem spent_run_insert : ((Write.insertAgent row).run db).1.Spent h ↔ db.Spent h := by
  simp only [Write.run]; split <;> rfl

/-- FRAME: only the INSERT of an agent adds one. -/
theorem agent_run_isSome (hw : ∀ row, w ≠ .insertAgent row) :
    ((w.run db).1.agent a).isSome = (db.agent a).isSome := by
  rw [agent_run_map hw, Option.isSome_map]

/-- The INSERT that raises nothing adds an agent that was not there. -/
theorem agent_run_insert (hn : ((Write.insertAgent row).run db).2 = some n) :
    db.agent row.agentId = none ∧ ∀ x, (((Write.insertAgent row).run db).1.agent x).isSome
      ↔ (db.agent x).isSome ∨ x = row.agentId := by
  simp only [Write.run] at hn ⊢
  split at hn
  · cases hn
  rename_i hfree
  refine ⟨Option.not_isSome_iff_eq_none.mp hfree, fun x => ?_⟩
  rw [if_neg hfree]
  simp only [Db.agent, get_append, Option.isSome_or, Bool.or_eq_true]
  refine or_congr_right ?_
  split
  · rename_i he; simp [he]
  · rename_i he; simp [Ne.symm he]

theorem Write.Plain.not_insert (hw : w.Plain) (row : AgentRow) : w ≠ .insertAgent row := by
  rintro rfl; exact hw

end

/-! ### Who enrolled whom -/

/-- Call `i`, a registration presenting token `h`, inserted agent `a`: its INSERT is among the
    statements `es` and found the id free. -/
def Enrols (ops : ℕ → Option Op) (es : List (ℕ × Write)) (i : ℕ) (h a : String) : Prop :=
  ∃ req fault now row before after, ops i = some (.registerAgent req fault now) ∧
    req.enrollmentTokenHash = h ∧ row.agentId = a ∧
    es = before ++ (i, .insertAgent row) :: after ∧ (replay Write.run {} before).agent a = none

/-- Agents and spent tokens correspond, but for a token `half` that has no agent yet. -/
structure Matched (ops : ℕ → Option Op) (es : List (ℕ × Write)) (db : Db) (half : Option String) :
    Prop where
  tokens : ∀ h, db.Spent h ↔ half = some h ∨ ∃ i a, Enrols ops es i h a
  agents : ∀ a, (db.agent a).isSome ↔ ∃ i h, Enrols ops es i h a
  fresh : ∀ h, half = some h → ∀ i a, ¬ Enrols ops es i h a
  byToken : ∀ {i j h a b}, Enrols ops es i h a → Enrols ops es j h b → a = b
  byAgent : ∀ {i j h k a}, Enrols ops es i h a → Enrols ops es j k a → h = k

section
variable {ops ops' : ℕ → Option Op} {es : List (ℕ × Write)} {i j : ℕ} {h a b : String} {w : Write}
  {db db' : Db} {half : Option String}

/-- The enrolments of a longer history: the old ones, and the last statement's. -/
theorem enrols_concat : Enrols ops (es ++ [(j, w)]) i h a ↔ Enrols ops es i h a ∨
    (j = i ∧ ∃ req fault now row, ops i = some (.registerAgent req fault now) ∧
      req.enrollmentTokenHash = h ∧ row.agentId = a ∧ w = .insertAgent row ∧
      (replay Write.run {} es).agent a = none) := by
  constructor
  · rintro ⟨req, fault, now, row, before, after, hop, hh, ha, hes, hfree⟩
    rcases split_concat hes with ⟨after', -, hes'⟩ | ⟨rfl, he, -⟩
    · exact .inl ⟨req, fault, now, row, before, after', hop, hh, ha, hes', hfree⟩
    · cases he
      exact .inr ⟨rfl, req, fault, now, row, hop, hh, ha, rfl, hfree⟩
  · rintro (⟨req, fault, now, row, before, after, hop, hh, ha, rfl, hfree⟩
      | ⟨rfl, req, fault, now, row, hop, hh, ha, rfl, hfree⟩)
    · exact ⟨req, fault, now, row, before, after ++ [(j, w)], hop, hh, ha, by simp, hfree⟩
    · exact ⟨req, fault, now, row, es, [], hop, hh, ha, rfl, hfree⟩

theorem enrols_concat_plain (hw : ∀ row, w ≠ .insertAgent row) :
    Enrols ops (es ++ [(j, w)]) i h a ↔ Enrols ops es i h a := by
  rw [enrols_concat]
  refine or_iff_left ?_
  rintro ⟨-, _, _, _, row, -, -, -, he, -⟩
  exact hw row he

/-- A call that has written nothing yet may still change what it is. -/
theorem enrols_congr (hops : ∀ e ∈ es, ops' e.1 = ops e.1) :
    Enrols ops' es i h a ↔ Enrols ops es i h a := by
  constructor
  · rintro ⟨req, fault, now, row, before, after, hop, hh, ha, rfl, hfree⟩
    rw [hops (i, .insertAgent row) (by simp)] at hop
    exact ⟨req, fault, now, row, before, after, hop, hh, ha, rfl, hfree⟩
  · rintro ⟨req, fault, now, row, before, after, hop, hh, ha, rfl, hfree⟩
    rw [← hops (i, .insertAgent row) (by simp)] at hop
    exact ⟨req, fault, now, row, before, after, hop, hh, ha, rfl, hfree⟩

/-- Only the enrolments, the spent tokens and the registered agents matter. -/
theorem Matched.of_same (hm : Matched ops es db half)
    (he : ∀ i h a, Enrols ops' es' i h a ↔ Enrols ops es i h a)
    (hs : ∀ x, db'.Spent x ↔ db.Spent x) (ha : ∀ a, (db'.agent a).isSome = (db.agent a).isSome) :
    Matched ops' es' db' half where
  tokens := by simpa only [he, hs] using hm.tokens
  agents := by simpa only [he, ha] using hm.agents
  fresh := by simpa only [he] using hm.fresh
  byToken := fun h₁ h₂ => hm.byToken ((he ..).mp h₁) ((he ..).mp h₂)
  byAgent := fun h₁ h₂ => hm.byAgent ((he ..).mp h₁) ((he ..).mp h₂)

theorem Matched.congr (hm : Matched ops es db half) (hops : ∀ e ∈ es, ops' e.1 = ops e.1) :
    Matched ops' es db half :=
  hm.of_same (fun _ _ _ => enrols_congr hops) (fun _ => Iff.rfl) fun _ => rfl

theorem Matched.plain (hm : Matched ops es db half) (hw : w.Plain) :
    Matched ops (es ++ [(j, w)]) (w.run db).1 half :=
  hm.of_same (fun _ _ _ => enrols_concat_plain hw.not_insert) (fun _ => spent_run_plain hw)
    fun _ => agent_run_isSome hw.not_insert

/-- The UPDATE leaves one spent token without an agent. -/
theorem Matched.spend (hm : Matched ops es db none) (hdb : db.TokensOk)
    (hn : ((Write.spendToken h now).run db).2 = some 1) :
    Matched ops (es ++ [(j, .spendToken h now)]) ((Write.spendToken h now).run db).1 (some h) := by
  have hne : ∀ row, Write.spendToken h now ≠ .insertAgent row := by intro row hc; cases hc
  have he : ∀ i x a, Enrols ops (es ++ [(j, .spendToken h now)]) i x a ↔ Enrols ops es i x a :=
    fun _ _ _ => enrols_concat_plain hne
  obtain ⟨hnot, hspent⟩ := spent_run_spend hdb hn
  refine
    { tokens := ?_
      agents := by simpa only [he, agent_run_isSome hne] using hm.agents
      fresh := ?_
      byToken := fun h₁ h₂ => hm.byToken ((he ..).mp h₁) ((he ..).mp h₂)
      byAgent := fun h₁ h₂ => hm.byAgent ((he ..).mp h₁) ((he ..).mp h₂) }
  · intro x
    rw [hspent, hm.tokens x]
    simp only [he, reduceCtorEq, false_or, Option.some.injEq]
    rw [or_comm, eq_comm]
  · rintro _ hx i a hen
    cases hx
    exact hnot ((hm.tokens h).mpr (.inr ⟨i, a, (he ..).mp hen⟩))

/-- The INSERT gives it one. -/
theorem Matched.insert (hm : Matched ops es db (some h)) (hes : db = replay Write.run {} es)
    (hop : ops j = some (.registerAgent req fault now)) (hh : req.enrollmentTokenHash = h)
    (hn : ((Write.insertAgent row).run db).2 = some n) :
    Matched ops (es ++ [(j, .insertAgent row)]) ((Write.insertAgent row).run db).1 none := by
  obtain ⟨hfree, hagents⟩ := agent_run_insert hn
  have he : ∀ i x a, Enrols ops (es ++ [(j, .insertAgent row)]) i x a
      ↔ Enrols ops es i x a ∨ (j = i ∧ x = h ∧ a = row.agentId) := by
    intro i x a
    rw [enrols_concat]
    refine or_congr_right ⟨?_, ?_⟩
    · rintro ⟨rfl, req', fault', now', row', hop', hx, ha, hrow, -⟩
      rw [hop] at hop'
      cases Option.some.inj hop'
      cases hrow
      exact ⟨rfl, hx.symm.trans hh, ha.symm⟩
    · rintro ⟨rfl, rfl, rfl⟩
      exact ⟨rfl, req, fault, now, row, hop, hh, rfl, rfl, by rw [← hes]; exact hfree⟩
  -- neither the token nor the agent was enrolled before
  have hnoTok : ∀ i a, ¬ Enrols ops es i h a := hm.fresh h rfl
  have hnoAg : ∀ i x, ¬ Enrols ops es i x row.agentId := by
    intro i x hen
    have := (hm.agents row.agentId).mpr ⟨i, x, hen⟩
    rw [hfree] at this
    cases this
  refine
    { tokens := ?_
      agents := ?_
      fresh := nofun
      byToken := ?_
      byAgent := ?_ }
  · intro x
    rw [spent_run_insert, hm.tokens x]
    simp only [he, reduceCtorEq, false_or, Option.some.injEq]
    constructor
    · rintro (rfl | ⟨i, a, hen⟩)
      · exact ⟨j, row.agentId, .inr ⟨rfl, rfl, rfl⟩⟩
      · exact ⟨i, a, .inl hen⟩
    · rintro ⟨i, a, hen | ⟨-, rfl, -⟩⟩
      · exact .inr ⟨i, a, hen⟩
      · exact .inl rfl
  · intro x
    rw [hagents, hm.agents x]
    simp only [he]
    constructor
    · rintro (⟨i, y, hen⟩ | rfl)
      · exact ⟨i, y, .inl hen⟩
      · exact ⟨j, h, .inr ⟨rfl, rfl, rfl⟩⟩
    · rintro ⟨i, y, hen | ⟨-, -, rfl⟩⟩
      · exact .inl ⟨i, y, hen⟩
      · exact .inr rfl
  · intro i k x a b h₁ h₂
    rcases (he ..).mp h₁ with h₁ | ⟨-, rfl, rfl⟩ <;> rcases (he ..).mp h₂ with h₂ | ⟨-, hx, hb⟩
    · exact hm.byToken h₁ h₂
    · subst hx; exact (hnoTok _ _ h₁).elim
    · exact (hnoTok _ _ h₂).elim
    · exact hb.symm
  · intro i k x y a h₁ h₂
    rcases (he ..).mp h₁ with h₁ | ⟨-, rfl, rfl⟩ <;> rcases (he ..).mp h₂ with h₂ | ⟨-, hy, ha⟩
    · exact hm.byAgent h₁ h₂
    · subst ha; exact (hnoAg _ _ h₁).elim
    · exact (hnoAg _ _ h₂).elim
    · exact hy.symm

end

/-! ### The protocol of one call -/

/-- Where a call stands: outside the lock, under it with nothing of its own pending, between its
    UPDATE and its INSERT, with both pending, or on its way to ROLLBACK. -/
inductive Phase where | idle | locked | half | full | failing
  deriving DecidableEq, Repr

/-- The token a call presents. -/
def Op.presents : Op → Option String
  | .registerAgent req _ _ => some req.enrollmentTokenHash
  | _ => none

/-- A program keeps the protocol of a call that presents `t`. -/
def Obeys (t : Option String) : RProg → Phase → Prop
  | .ret _, ph => ph = .idle
  | .raise, ph => ph = .idle
  | .read k, ph => (ph = .idle ∨ ph = .locked) ∧ ∀ db, Obeys t (k db) ph
  | .exec w k, ph =>
    (w.Plain ∧ (ph = .idle ∨ ph = .locked) ∧ ∀ n, Obeys t (k n) ph) ∨
    (∃ h now, t = some h ∧ w = .spendToken h now ∧ ph = .locked ∧ Obeys t (k (some 1)) .half ∧
      ∀ n, n ≠ some 1 → Obeys t (k n) .failing) ∨
    (∃ h row, t = some h ∧ w = .insertAgent row ∧ ph = .half ∧ Obeys t (k none) .failing ∧
      ∀ n, Obeys t (k (some n)) .full)
  | .commit k, ph => ((ph = .idle ∨ ph = .locked) ∧ Obeys t k ph) ∨ (ph = .full ∧ Obeys t k .locked)
  | .rollback k, ph => (ph = .half ∨ ph = .full ∨ ph = .failing) ∧ Obeys t k .locked
  | .acquire k, ph => ph = .idle ∧ Obeys t k .locked
  | .release k, ph => ph = .locked ∧ Obeys t k .idle

section
variable {t : Option String} {ph : Phase} {a : String}

/-- An unlocked call: one statement, its commit, and what follows. -/
theorem obeys_single (hw : w.Plain) {k : ℕ → RProg} (hk : ∀ n, Obeys t (k n) .idle) :
    Obeys t (.exec w (orRaise fun n => .commit (k n))) .idle := by
  refine .inl ⟨hw, .inl rfl, fun n => ?_⟩
  cases n with
  | none => rfl
  | some n => exact .inl ⟨.inl rfl, hk n⟩

theorem obeys_ite [Decidable c] (hp : Obeys t p ph) (hq : Obeys t q ph) :
    Obeys t (if c then p else q) ph := by
  split
  · exact hp
  · exact hq

theorem obeys_selectGeneration : Obeys t (selectGeneration a) .idle := by
  refine ⟨.inl rfl, fun db => ?_⟩
  dsimp only
  cases db.agent a <;> rfl

theorem obeys_registerAgent :
    Obeys (some req.enrollmentTokenHash) (registerAgent req fault now) .idle := by
  have hback : ∀ {ph}, (ph = .half ∨ ph = .full ∨ ph = .failing) →
      Obeys (some req.enrollmentTokenHash) (.rollback (.release .raise)) ph :=
    fun hph => ⟨hph, rfl, rfl⟩
  refine obeys_ite rfl ⟨rfl, .inr rfl, fun db => .inr (.inl ⟨_, _, rfl, rfl, rfl, ?_, ?_⟩)⟩
  · refine obeys_ite (hback (.inl rfl)) ?_
    refine .inr (.inr ⟨_, _, rfl, rfl, rfl, hback (.inr (.inr rfl)), fun n => ?_⟩)
    exact obeys_ite (hback (.inr (.inl rfl))) (.inr ⟨rfl, rfl, .inl rfl, fun _ => rfl⟩)
  · intro n hn
    dsimp only
    split
    · exact absurd rfl hn
    · exact hback (.inr (.inr rfl))

theorem obeys_revokeEnrollmentToken {id : Option String} :
    Obeys t (revokeEnrollmentToken id now) .idle := by
  cases id with
  | none => rfl
  | some id =>
    refine ⟨rfl, .inr rfl, fun db => ?_⟩
    dsimp only
    split
    · exact ⟨rfl, rfl⟩
    · refine .inl ⟨trivial, .inr rfl, fun n => ?_⟩
      cases n with
      | none => exact ⟨rfl, rfl⟩
      | some n => exact .inl ⟨.inr rfl, rfl, rfl⟩
    · exact ⟨rfl, rfl⟩

theorem obeys_setAssignments : Obeys t (setAssignments a ms) .idle := by
  refine ⟨rfl, .inl ⟨trivial, .inr rfl, fun n => ?_⟩⟩
  cases n with
  | none => exact ⟨rfl, rfl⟩
  | some n =>
    refine .inl ⟨trivial, .inr rfl, fun m => ?_⟩
    cases m with
    | none => exact ⟨rfl, rfl⟩
    | some m => exact .inl ⟨.inr rfl, rfl, rfl⟩

theorem obeys_revokeAgent : Obeys t (revokeAgent a now) .idle := by
  refine ⟨rfl, .inl ⟨trivial, .inr rfl, fun n => ?_⟩⟩
  cases n with
  | none => exact ⟨rfl, rfl⟩
  | some n => exact .inl ⟨.inr rfl, rfl, obeys_ite rfl rfl⟩

/-- Every call keeps the protocol. -/
theorem obeys_body {op : Op} : Obeys op.presents op.body .idle := by
  cases op with
  | registerAgent req fault now => exact obeys_registerAgent
  | createApiKey =>
    exact obeys_ite (obeys_single (by trivial) fun _ => rfl) rfl
  | recordHeartbeat | setAgentState => exact obeys_single (by trivial) fun _ => obeys_ite rfl rfl
  | applyPresenceEvent a =>
    exact obeys_ite rfl (obeys_single (by trivial) fun _ => obeys_selectGeneration)
  | bumpPresenceGeneration a =>
    exact obeys_single (by trivial) fun _ => obeys_ite rfl obeys_selectGeneration
  | createEnrollmentToken | putModel | saveQuotaSnapshots =>
    exact obeys_single (by trivial) fun _ => rfl
  | revokeAgent a now => exact obeys_revokeAgent
  | revokeEnrollmentToken id now => exact obeys_revokeEnrollmentToken
  | setAssignments a ms => exact obeys_setAssignments

/-- The next step inserts an agent or rolls back. -/
def Prog.Midway (p : RProg) : Prop :=
  (∃ row k, p = .exec (.insertAgent row) k) ∨ ∃ k, p = .rollback k

/-- A call with half an enrolment behind it goes on with its INSERT or its ROLLBACK. -/
theorem Obeys.midway (h : Obeys t p ph) (hph : ph = .half ∨ ph = .failing) : Prog.Midway p := by
  have hne : ¬ (ph = .idle ∨ ph = .locked) := by rcases hph with rfl | rfl <;> simp
  cases p with
  | ret r | raise => exact (hne (.inl h)).elim
  | read k => exact (hne h.1).elim
  | exec w k =>
    rcases h with ⟨-, hi, -⟩ | ⟨_, _, -, -, hl, -⟩ | ⟨_, row, -, rfl, -⟩
    · exact (hne hi).elim
    · exact (hne (.inr hl)).elim
    · exact .inl ⟨row, k, rfl⟩
  | commit k =>
    rcases h with ⟨hi, -⟩ | ⟨rfl, -⟩
    · exact (hne hi).elim
    · rcases hph with h | h <;> cases h
  | rollback k => exact .inr ⟨k, rfl⟩
  | acquire k => exact (hne (.inl h.1)).elim
  | release k => exact (hne (.inr h.1)).elim

end

end Fallow.Registry
