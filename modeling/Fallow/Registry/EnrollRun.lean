import Fallow.Registry.Enroll

/-! Spent tokens and enrolled agents, along every run.

    The invariant holds the two views apart: the committed one is always matched, the working one
    while nobody is half way, and exactly one token short of it while somebody is.

        phase     idle/locked ── UPDATE ─▶ half ── INSERT ─▶ full ── COMMIT ─▶ locked
        working   matched                  one token over    matched

    A COMMIT copies the working view, so it must not meet `half` or `failing`; a ROLLBACK and a crash
    copy the committed one, and may come at any time. -/

namespace Fallow.Registry
open Lib Lib.Txn Function List Table

/-- A COMMIT falls into nobody's half enrolment. -/
def CommitWhole (s : RSys) : CrashAct Op → Prop
  | .act (.run i) => ∀ k, s.procs i = some (.commit k) →
      ∀ j p, s.procs j = some p → ¬ Prog.Midway p
  | _ => True

/-- Tokens and agents match, in the committed view always and in the working view whenever no
    enrolment is under way; `ph` says where every call stands. -/
structure Enrolling (s : RSys) (ph : ℕ → Phase) : Prop where
  replays : Replays Write.run {} s
  procs : ∀ i p, s.procs i = some p → ∃ op, s.ops i = some op ∧ Obeys op.presents p (ph i)
  idle : ∀ i, s.procs i = none → ph i = .idle
  lock : ∀ i, ph i ≠ .idle → s.lock = some i
  writer : ∀ e ∈ s.log ++ s.pending, (s.procs e.1).isSome
  committed : Matched s.ops s.log s.committed none
  working : (∀ i, ph i ≠ .half ∧ ph i ≠ .failing) →
    Matched s.ops (s.log ++ s.pending) s.working none
  half : ∀ i op h, ph i = .half → s.ops i = some op → op.presents = some h →
    Matched s.ops (s.log ++ s.pending) s.working (some h)

section
variable {s s' : RSys} {ph : ℕ → Phase} {i j : ℕ} {p q : RProg} {op : Op} {ph' : Phase}

section
variable (h : Enrolling s ph)
include h

/-- The lock leaves everyone else outside. -/
theorem Enrolling.others (hi : ph i ≠ .idle) (hj : j ≠ i) : ph j = .idle := by
  by_contra hne
  have he := (h.lock j hne).symm.trans (h.lock i hi)
  exact hj (Option.some.inj he)

/-- With the lock in a phase of no debts, nobody is half way. -/
theorem Enrolling.settled (hi : ph i = .locked) : ∀ j, ph j ≠ .half ∧ ph j ≠ .failing := by
  intro j
  by_cases hj : j = i
  · subst hj; rw [hi]; simp
  · rw [h.others (by rw [hi]; simp) hj]; simp

theorem Enrolling.settled_of_whole
    (hc : ∀ j p, s.procs j = some p → ¬ Prog.Midway p) : ∀ j, ph j ≠ .half ∧ ph j ≠ .failing := by
  intro j
  cases hp : s.procs j with
  | none => rw [h.idle j hp]; simp
  | some p =>
    obtain ⟨op, -, hob⟩ := h.procs j p hp
    exact ⟨fun he => hc j p hp (hob.midway (.inl he)), fun he => hc j p hp (hob.midway (.inr he))⟩

/-- What every firing keeps: the calls in their phases, the writers known, the log replayed. -/
theorem Enrolling.fires (hp : s.procs i = some p)
    (hf : Fires Write.run s i p q s') (hop : s.ops i = some op) (hob : Obeys op.presents q ph')
    (hr : Replays Write.run {} s') (hlock : ∀ j, update ph i ph' j ≠ .idle → s'.lock = some j)
    (hcommitted : Matched s.ops s'.log s'.committed none)
    (hworking : (∀ j, update ph i ph' j ≠ .half ∧ update ph i ph' j ≠ .failing) →
      Matched s.ops (s'.log ++ s'.pending) s'.working none)
    (hhalf : ∀ j op h, update ph i ph' j = .half → s.ops j = some op →
      op.presents = some h → Matched s.ops (s'.log ++ s'.pending) s'.working (some h)) :
    Enrolling s' (update ph i ph') := by
  have hsome : ∀ j, (s.procs j).isSome → (s'.procs j).isSome := by
    intro j hj
    rw [hf.procs, update_apply]
    split
    · rfl
    · exact hj
  refine ⟨hr, ?_, ?_, hlock, ?_, by rw [hf.ops]; exact hcommitted, by rw [hf.ops]; exact hworking,
    by rw [hf.ops]; exact hhalf⟩
  · intro j r hj
    rw [hf.procs] at hj
    rw [hf.ops]
    rcases update_eq_some.1 hj with ⟨rfl, rfl⟩ | ⟨hji, hj⟩
    · rw [update_self]
      exact ⟨op, hop, hob⟩
    · rw [update_of_ne hji]
      exact h.procs j r hj
  · intro j hj
    rw [hf.procs] at hj
    by_cases hji : j = i
    · subst hji; rw [update_self] at hj; cases hj
    · rw [update_of_ne hji] at hj ⊢; exact h.idle j hj
  · intro e he
    have hold : e ∈ s.log ++ s.pending ∨ e.1 = i := by
      cases hf with
      | exec w k =>
        rw [← append_assoc, mem_append, mem_singleton] at he
        exact he.imp_right fun he => by rw [he]
      | commit k => exact .inl (by simpa using he)
      | rollback k =>
        rw [append_nil] at he
        exact .inl (mem_append_left _ he)
      | _ => exact .inl he
    rcases hold with he | he
    · exact hsome _ (h.writer e he)
    · rw [he]; exact hsome i (by rw [hp]; rfl)

/-- Under the lock, only its holder can be half way. -/
theorem Enrolling.not_half (hi : ph i ≠ .idle) (hne : ph' ≠ .half) (j : ℕ) :
    update ph i ph' j ≠ .half := by
  intro hj
  by_cases hji : j = i
  · subst hji; rw [update_self] at hj; exact hne hj
  · rw [update_of_ne hji, h.others hi hji] at hj; cases hj

theorem Enrolling.working_ok : s.working.TokensOk := by
  rw [h.replays.working, h.replays.committed, ← replay_append]
  exact tokensOk_empty.replay _

theorem Enrolling.working_eq : s.working = replay Write.run {} (s.log ++ s.pending) := by
  rw [replay_append, ← h.replays.committed, h.replays.working]

/-- The lock over a change of `i`'s phase under the lock. -/
theorem Enrolling.lock_update (hi : ph i ≠ .idle) :
    ∀ j, update ph i ph' j ≠ .idle → s.lock = some j := by
  intro j hj
  by_cases hji : j = i
  · subst hji; exact h.lock j hi
  · rw [update_of_ne hji] at hj; exact h.lock j hj

/-! ### One step -/

section
variable {w : Write} {t : String} (hr : Replays Write.run {} s')
include hr

/-- INVARIANT: a plain statement moves neither side of the correspondence. -/
theorem Enrolling.exec_plain (hp : s.procs i = some (.exec w k))
    (hf : Fires Write.run s i (.exec w k) q s') (hop : s.ops i = some op) (hw : w.Plain)
    (hk : ∀ n, Obeys op.presents (k n) (ph i)) : ∃ ph, Enrolling s' ph := by
  have hplain : ∀ {half}, Matched s.ops (s.log ++ s.pending) s.working half →
      Matched s.ops (s.log ++ (s.pending ++ [(i, w)])) (w.run s.working).1 half := by
    intro half hm
    rw [← append_assoc]
    exact hm.plain hw
  cases hf
  refine ⟨_, h.fires hp (.exec w k) hop (hk _) hr ?_ h.committed ?_ ?_⟩ <;> rw [update_eq_self]
  · exact h.lock
  · exact fun hs => hplain (h.working hs)
  · exact fun j op' t hj hop' ht => hplain (h.half j op' t hj hop' ht)

/-- INVARIANT: a call that holds the lock and failed a statement is on its way to ROLLBACK. -/
theorem Enrolling.exec_failing (hp : s.procs i = some (.exec w k))
    (hf : Fires Write.run s i (.exec w k) q s') (hop : s.ops i = some op) (hi : ph i ≠ .idle)
    (hk : Obeys op.presents (k (w.run s.working).2) .failing) : ∃ ph, Enrolling s' ph := by
  cases hf
  refine ⟨_, h.fires hp (.exec w k) hop hk hr (h.lock_update hi) h.committed ?_ ?_⟩
  · exact fun hs => absurd (update_self ..) (hs i).2
  · exact fun j op' t hj => absurd hj (h.not_half hi (by simp) j)

/-- INVARIANT: the UPDATE of one row leaves its token spent and without an agent. -/
theorem Enrolling.exec_spend (hp : s.procs i = some (.exec (.spendToken t now) k))
    (hf : Fires Write.run s i (.exec (.spendToken t now) k) q s')
    (hop : s.ops i = some op) (ht : op.presents = some t) (hph : ph i = .locked)
    (hn : ((Write.spendToken t now).run s.working).2 = some 1)
    (hk : Obeys op.presents (k (some 1)) .half) : ∃ ph, Enrolling s' ph := by
  have hi : ph i ≠ .idle := by rw [hph]; simp
  cases hf
  refine ⟨update ph i .half, h.fires hp (.exec _ k) hop (by rw [hn]; exact hk) hr
    (h.lock_update hi) h.committed ?_ ?_⟩
  · exact fun hs => absurd (update_self ..) (hs i).1
  · intro j op' t' hj hop' ht'
    have hji : j = i := by
      by_contra hji
      rw [update_of_ne hji, h.others hi hji] at hj
      cases hj
    subst hji
    rw [hop] at hop'
    cases hop'
    obtain rfl := Option.mem_unique ht ht'
    rw [← append_assoc]
    exact (h.working (h.settled hph)).spend h.working_ok hn

/-- INVARIANT: the INSERT completes it. -/
theorem Enrolling.exec_insert (hp : s.procs i = some (.exec (.insertAgent row) k))
    (hf : Fires Write.run s i (.exec (.insertAgent row) k) q s')
    (hop : s.ops i = some op) (ht : op.presents = some t) (hph : ph i = .half)
    (hn : ((Write.insertAgent row).run s.working).2 = some n)
    (hk : Obeys op.presents (k (some n)) .full) : ∃ ph, Enrolling s' ph := by
  have hi : ph i ≠ .idle := by rw [hph]; simp
  cases hf
  refine ⟨update ph i .full, h.fires hp (.exec _ k) hop (by rw [hn]; exact hk) hr
    (h.lock_update hi) h.committed ?_ ?_⟩
  · intro _
    cases op with
    | registerAgent req fault now =>
      rw [← append_assoc]
      exact (h.half i _ t hph hop ht).insert h.working_eq hop (Option.some.inj ht) hn
    | _ => cases ht
  · exact fun j op' t hj => absurd hj (h.not_half hi (by simp) j)

theorem Enrolling.exec (hp : s.procs i = some (.exec w k))
    (hf : Fires Write.run s i (.exec w k) q s') : ∃ ph, Enrolling s' ph := by
  obtain ⟨op, hop, hob⟩ := h.procs i _ hp
  rcases hob with ⟨hw, -, hk⟩ | ⟨t, now, ht, rfl, hph, hone, hother⟩
      | ⟨t, row, ht, rfl, hph, hnone, hsome⟩
  · exact h.exec_plain hr hp hf hop hw hk
  · by_cases hn : ((Write.spendToken t now).run s.working).2 = some 1
    · exact h.exec_spend hr hp hf hop ht hph hn hone
    · exact h.exec_failing hr hp hf hop (by rw [hph]; simp) (hother _ hn)
  · rcases Option.eq_none_or_eq_some ((Write.insertAgent row).run s.working).2 with hn | ⟨n, hn⟩
    · exact h.exec_failing hr hp hf hop (by rw [hph]; simp) (by rw [hn]; exact hnone)
    · exact h.exec_insert hr hp hf hop ht hph hn (hsome n)

/-- INVARIANT: a COMMIT, of whoever, while nobody is half way. -/
theorem Enrolling.commit (hp : s.procs i = some (.commit k))
    (hf : Fires Write.run s i (.commit k) q s')
    (hc : ∀ j p, s.procs j = some p → ¬ Prog.Midway p) : ∃ ph, Enrolling s' ph := by
  obtain ⟨op, hop, hob⟩ := h.procs i _ hp
  have hset := h.settled_of_whole hc
  have hm := h.working hset
  have hnil : Matched s.ops (s.log ++ s.pending ++ []) s.working none := by
    rw [append_nil]; exact hm
  cases hf
  rcases hob with ⟨hph, hk⟩ | ⟨hph, hk⟩
  · refine ⟨_, h.fires hp (.commit _) hop hk hr ?_ hm (fun _ => hnil) ?_⟩ <;> rw [update_eq_self]
    · exact h.lock
    · exact fun j op' t hj => absurd hj (hset j).1
  · have hi : ph i ≠ .idle := by rw [hph]; simp
    refine ⟨_, h.fires hp (.commit _) hop hk hr (h.lock_update hi) hm (fun _ => hnil) ?_⟩
    exact fun j op' t hj => absurd hj (h.not_half hi (by simp) j)

/-- INVARIANT: a ROLLBACK goes back to what is committed. -/
theorem Enrolling.rollback (hp : s.procs i = some (.rollback k))
    (hf : Fires Write.run s i (.rollback k) q s') : ∃ ph, Enrolling s' ph := by
  obtain ⟨op, hop, hph, hk⟩ := h.procs i _ hp
  have hi : ph i ≠ .idle := by rcases hph with he | he | he <;> rw [he] <;> simp
  have hnil : Matched s.ops (s.log ++ []) s.committed none := by
    rw [append_nil]; exact h.committed
  cases hf
  refine ⟨_, h.fires hp (.rollback _) hop hk hr (h.lock_update hi) h.committed (fun _ => hnil) ?_⟩
  exact fun j op' t hj => absurd hj (h.not_half hi (by simp) j)

/-- INVARIANT: entering and leaving the lock. -/
theorem Enrolling.acquire (hp : s.procs i = some (.acquire k))
    (hf : Fires Write.run s i (.acquire k) q s') : ∃ ph, Enrolling s' ph := by
  obtain ⟨op, hop, hph, hk⟩ := h.procs i _ hp
  cases hf with
  | acquire _ free =>
    have hidle : ∀ j, ph j = .idle := by
      intro j
      by_contra hj
      rw [h.lock j hj] at free
      cases free
    have hset : ∀ j, ph j ≠ .half ∧ ph j ≠ .failing := fun j => by rw [hidle j]; simp
    refine ⟨_, h.fires hp (.acquire _ free) hop hk hr ?_ h.committed (fun _ => h.working hset) ?_⟩
    · intro j hj
      by_cases hji : j = i
      · rw [hji]
      · rw [update_of_ne hji, hidle j] at hj; exact absurd rfl hj
    · intro j op' t hj
      by_cases hji : j = i
      · rw [hji, update_self] at hj; cases hj
      · rw [update_of_ne hji, hidle j] at hj; cases hj

theorem Enrolling.release (hp : s.procs i = some (.release k))
    (hf : Fires Write.run s i (.release k) q s') : ∃ ph, Enrolling s' ph := by
  obtain ⟨op, hop, hph, hk⟩ := h.procs i _ hp
  have hi : ph i ≠ .idle := by rw [hph]; simp
  cases hf
  refine ⟨_, h.fires hp (.release _) hop hk hr ?_ h.committed (fun _ => h.working (h.settled hph)) ?_⟩
  · intro j hj
    by_cases hji : j = i
    · rw [hji, update_self] at hj; exact absurd rfl hj
    · rw [update_of_ne hji, h.others hi hji] at hj; exact absurd rfl hj
  · exact fun j op' t hj => absurd hj (h.not_half hi (by simp) j)

theorem Enrolling.read (hp : s.procs i = some (.read k))
    (hf : Fires Write.run s i (.read k) q s') : ∃ ph, Enrolling s' ph := by
  obtain ⟨op, hop, -, hk⟩ := h.procs i _ hp
  cases hf
  refine ⟨_, h.fires hp (.read k) hop (hk _) hr ?_ h.committed ?_ ?_⟩ <;> rw [update_eq_self]
  · exact h.lock
  · exact h.working
  · exact h.half

end

/-- INVARIANT: a new call has written nothing and stands outside the lock. -/
theorem Enrolling.spawn (hfree : s.procs i = none) :
    Enrolling { s.next i op.body with ops := update s.ops i (some op) } ph := by
  have hnone : ∀ e ∈ s.log ++ s.pending, e.1 ≠ i := by
    intro e he hei
    have := h.writer e he
    rw [hei, hfree] at this
    cases this
  have hops : ∀ e ∈ s.log ++ s.pending, update s.ops i (some op) e.1 = s.ops e.1 :=
    fun e he => update_of_ne (hnone e he) ..
  refine ⟨{ h.replays with }, ?_, ?_, h.lock, ?_, ?_, ?_, ?_⟩
  · intro j p hj
    change ∃ op', update s.ops i (some op) j = some op' ∧ _
    rcases update_eq_some.1 hj with ⟨rfl, rfl⟩ | ⟨hji, hj⟩
    · exact ⟨op, update_self .., by rw [h.idle j hfree]; exact obeys_body⟩
    · rw [update_of_ne hji]
      exact h.procs j p hj
  · intro j hj
    change update s.procs i (some op.body) j = none at hj
    by_cases hji : j = i
    · rw [hji, update_self] at hj; cases hj
    · rw [update_of_ne hji] at hj; exact h.idle j hj
  · intro e he
    change (update s.procs i (some op.body) e.1).isSome
    rw [update_of_ne (hnone e he)]
    exact h.writer e he
  · exact h.committed.congr fun e he => hops e (mem_append_left _ he)
  · exact fun hs => (h.working hs).congr hops
  · intro j op' t hj hop' ht
    have hji : j ≠ i := by rintro rfl; rw [h.idle j hfree] at hj; cases hj
    change update s.ops i (some op) j = some op' at hop'
    rw [update_of_ne hji] at hop'
    exact (h.half j op' t hj hop' ht).congr hops

/-- INVARIANT: a crash keeps what is committed, and nothing else. -/
theorem Enrolling.crash : Enrolling (Txn.crash s) fun _ => .idle := by
  have hnil : Matched s.ops (s.log ++ []) s.committed none := by
    rw [append_nil]; exact h.committed
  refine ⟨h.replays.crash, ?_, fun _ _ => rfl, fun _ hne => absurd rfl hne, ?_, h.committed,
    fun _ => hnil, nofun⟩
  · intro i p hi
    obtain ⟨p', hp', rfl⟩ := Option.map_eq_some_iff.mp hi
    obtain ⟨op, hop, -⟩ := h.procs i p' hp'
    exact ⟨op, hop, rfl⟩
  · intro e he
    change e ∈ s.log ++ [] at he
    rw [append_nil] at he
    change (Option.map _ (s.procs e.1)).isSome
    rw [Option.isSome_map]
    exact h.writer e (mem_append_left _ he)

end

end

/-- INVARIANT: one step of the system. -/
theorem Enrolling.step (h : Enrolling s ph) (c : CrashAct Op)
    (hc : CommitWhole s c) : ∃ ph, Enrolling (crashStep Write.run Op.body s c) ph := by
  cases c with
  | crash => exact ⟨_, h.crash⟩
  | act act =>
    have hr : Replays Write.run {} (Txn.step Write.run Op.body s act) := h.replays.step act
    cases act with
    | spawn i op =>
      rcases step_spawn with he | ⟨hfree, he⟩
      · exact ⟨ph, by rw [crashStep, he]; exact h⟩
      · exact ⟨ph, by rw [crashStep, he]; exact h.spawn hfree⟩
    | run i =>
      rcases step_run with he | ⟨p, q, s', hp, hf, he⟩
      · exact ⟨ph, by rw [crashStep, he]; exact h⟩
      rw [he] at hr
      rw [crashStep, he]
      cases p with
      | ret r => cases hf
      | raise => cases hf
      | read k => exact h.read hr hp hf
      | exec w k => exact h.exec hr hp hf
      | commit k => exact h.commit hr hp hf (hc k hp)
      | rollback k => exact h.rollback hr hp hf
      | acquire k => exact h.acquire hr hp hf
      | release k => exact h.release hr hp hf

theorem enrolling_opened : Enrolling (opened {}) fun _ => .idle := by
  have hno : ∀ i h a, ¬ Enrols (fun _ => none) [] i h a := by
    rintro i h a ⟨req, fault, now, row, before, after, hop, -⟩
    cases hop
  have hm : Matched (fun _ => none) [] {} none := by
    refine ⟨fun h => ?_, fun a => ?_, fun h hh => (by cases hh), fun h₁ => (hno _ _ _ h₁).elim,
      fun h₁ => (hno _ _ _ h₁).elim⟩
    · simp only [hno, exists_false, reduceCtorEq, or_self, iff_false]
      rintro ⟨t, ht, -⟩
      cases ht
    · simp only [hno, exists_false, iff_false]
      exact Bool.false_ne_true
  exact ⟨⟨rfl, rfl⟩, fun _ _ hi => (by cases hi), fun _ _ => rfl, fun _ hne => absurd rfl hne,
    fun _ he => (by cases he), hm, fun _ => hm, nofun⟩

/-! ### The correspondence -/

/-- `row` was inserted by a `register_agent` call that presented `token`. -/
def EnrolledBy (s : RSys) (token : TokenRow) (row : AgentRow) : Prop :=
  ∃ i, Enrols s.ops s.log i token.tokenHash row.agentId

/-- In the committed state, spent tokens and agents correspond one to one. -/
structure OneToOne (s : RSys) : Prop where
  token : ∀ t ∈ s.committed.enrollmentTokens, t.usedAt.isSome → t.revokedAt = none →
    ∃! r, r ∈ s.committed.agents ∧ EnrolledBy s t r
  agent : ∀ r ∈ s.committed.agents, ∃! t, t ∈ s.committed.enrollmentTokens ∧ t.usedAt.isSome ∧
    t.revokedAt = none ∧ EnrolledBy s t r

theorem Matched.oneToOne (hm : Matched s.ops s.log s.committed none)
    (hok : s.committed.TokensOk) : OneToOne s := by
  have hagent : ∀ r ∈ s.committed.agents, s.committed.agent r.agentId = some r :=
    fun r hr => get_of_mem hok.agents hr
  have htoken : ∀ t ∈ s.committed.enrollmentTokens, s.committed.token t.tokenHash = some t :=
    fun t ht => get_of_mem hok.tokens ht
  constructor
  · intro t ht hu hv
    rcases (hm.tokens t.tokenHash).mp ⟨t, htoken t ht, hu, hv⟩ with hc | ⟨i, a, hen⟩
    · cases hc
    obtain ⟨r, hr⟩ := Option.isSome_iff_exists.mp ((hm.agents a).mpr ⟨i, _, hen⟩)
    have hra : r.agentId = a := key_of_get hr
    refine ⟨r, ⟨mem_of_get hr, i, by rw [hra]; exact hen⟩, ?_⟩
    rintro r' ⟨hr', j, hen'⟩
    have heq := hagent r' hr'
    rw [hm.byToken hen' hen, hr] at heq
    exact (Option.some.inj heq).symm
  · intro r hr
    obtain ⟨i, h, hen⟩ := (hm.agents r.agentId).mp (by rw [hagent r hr]; rfl)
    obtain ⟨t, ht, hu, hv⟩ := (hm.tokens h).mpr (.inr ⟨i, _, hen⟩)
    have hth : t.tokenHash = h := key_of_get ht
    refine ⟨t, ⟨mem_of_get ht, hu, hv, i, by rw [hth]; exact hen⟩, ?_⟩
    rintro t' ⟨ht', -, -, j, hen'⟩
    have heq := htoken t' ht'
    rw [hm.byAgent hen' hen, ht] at heq
    exact (Option.some.inj heq).symm

/-- CORRECT: while no COMMIT falls into a half enrolment, a token is spent iff it made an agent. -/
theorem enrollment_one_to_one {s : RSys}
    (h : Reach (crashStep Write.run Op.body) CommitWhole (opened {}) s) : OneToOne s := by
  obtain ⟨ph, hinv⟩ := h.invariant (fun s => ∃ ph, Enrolling s ph) ⟨_, enrolling_opened⟩
    (fun s c ⟨ph, hs⟩ hc => hs.step c hc)
  refine hinv.committed.oneToOne ?_
  rw [hinv.replays.committed]
  exact tokensOk_empty.replay _

def labRequest : RegisterRequest :=
  { protocolVersion := 1, enrollmentTokenHash := "t1", hostname := "lab-7", host := "10.0.0.7",
    capsJson := "", agentId := "a7", deviceTokenHash := "d7" }

/-- A token is issued and an agent enrols with it. -/
def enrolment : List (CrashAct Op) :=
  [.act (.spawn 0 (.createEnrollmentToken "t1" .legacy 100)), .act (.run 0), .act (.run 0),
   .act (.spawn 1 (.registerAgent labRequest none 200)), .act (.run 1), .act (.run 1), .act (.run 1),
   .act (.run 1), .act (.run 1)]

theorem enrollment_one_to_one_lab :
    OneToOne (runs (crashStep Write.run Op.body) (opened {}) enrolment) ∧
      (runs (crashStep Write.run Op.body) (opened {}) enrolment).committed.agents ≠ [] := by
  refine ⟨enrollment_one_to_one (Admitted.reach _ .start
    ⟨trivial, ?_, ?_, trivial, ?_, ?_, ?_, ?_, ?_, trivial⟩), by decide +kernel⟩
  · rintro k ⟨⟩
  · rintro k - (_ | j) p hj hm
    · cases hj; rcases hm with ⟨_, _, h⟩ | ⟨_, h⟩ <;> cases h
    · cases hj
  · rintro k ⟨⟩
  · rintro k ⟨⟩
  · rintro k ⟨⟩
  · rintro k ⟨⟩
  · rintro k - (_ | _ | j) p hj hm
    · cases hj; rcases hm with ⟨_, _, h⟩ | ⟨_, h⟩ <;> cases h
    · cases hj; rcases hm with ⟨_, _, h⟩ | ⟨_, h⟩ <;> cases h
    · cases hj

/-- Another token is issued, and committed, between the UPDATE of a registration and its INSERT. -/
def halfEnrolment : List (CrashAct Op) :=
  [.act (.spawn 0 (.createEnrollmentToken "t1" .legacy 100)), .act (.run 0), .act (.run 0),
   .act (.spawn 1 (.registerAgent labRequest (some .insert) 200)), .act (.run 1), .act (.run 1),
   .act (.run 1), .act (.spawn 2 (.createEnrollmentToken "t2" .legacy 201)), .act (.run 2),
   .act (.run 2), .act (.run 1), .act (.run 1)]

/-- The INSERT fails and the ROLLBACK finds nothing to undo: the token is spent, nobody enrolled. -/
theorem token_spent_without_agent :
    (runs (crashStep Write.run Op.body) (opened {}) halfEnrolment).committed
      = { enrollmentTokens := [{ tokenHash := "t1", createdAt := 100, usedAt := some 200 },
                               { tokenHash := "t2", createdAt := 201 }] } ∧
    ¬ OneToOne (runs (crashStep Write.run Op.body) (opened {}) halfEnrolment) := by
  have hdb : (runs (crashStep Write.run Op.body) (opened {}) halfEnrolment).committed
      = { enrollmentTokens := [{ tokenHash := "t1", createdAt := 100, usedAt := some 200 },
                               { tokenHash := "t2", createdAt := 201 }] } := by decide +kernel
  refine ⟨hdb, fun h => ?_⟩
  obtain ⟨r, ⟨hr, -⟩, -⟩ := h.token { tokenHash := "t1", createdAt := 100, usedAt := some 200 }
    (by rw [hdb]; decide) rfl rfl
  cases hr

end Fallow.Registry
