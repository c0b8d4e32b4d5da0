import Fallow.App.AssignOrder

/-! Every undisturbed step keeps the order of the assignment operations.

    A step of an operation that has begun can settle agents (`Inv.settle` says what that does to the
    serial value) and write the table; the lemmas below are one per kind of step, and `Inv.step` puts
    them together. -/

namespace Fallow.App.Assign
open Lib Registry Scheduler Pipeline Function List Pc

variable {env : Env} {db₀ : Db} {s s' : State} {i j : ℕ} {op : Op} {pc pc' : Pc}
  {pre post : List Entry} {a : String} {v : Set String}

/-- One coroutine has moved on. -/
structure Moved (s s' : State) (i : ℕ) (pc' : Pc) : Prop where
  procs : s'.procs = update s.procs i (some pc')
  ops : s'.ops = s.ops
  order : s'.order = s.order

section
variable (hm : Moved s s' i pc')
include hm

theorem Moved.self : s'.procs i = some pc' := by
  rw [hm.procs, update_self]

theorem Moved.other (hj : j ≠ i) : s'.procs j = s.procs j := by
  rw [hm.procs, update_of_ne hj]

theorem Moved.cases (hj : s'.procs j = some q) :
    (j = i ∧ q = pc') ∨ (j ≠ i ∧ s.procs j = some q) := by
  by_cases hji : j = i
  · subst hji
    exact .inl ⟨rfl, Option.mem_unique hj hm.self⟩
  · exact .inr ⟨hji, (hm.other hji).symm.trans hj⟩

theorem Moved.ahead (j : ℕ) (a : String) :
    s'.Ahead j a ↔ (j = i ∧ pc'.Ahead a) ∨ (j ≠ i ∧ s.Ahead j a) := by
  simp only [State.Ahead, hm.procs]
  by_cases hj : j = i
  · subst hj; simp
  · simp [hj]

end

/-- What may have been read stays so while fewer agents are ahead. -/
theorem Reads.mono (h : Reads env db₀ s pre a v)
    (hsub : ∀ j o, .op j o ∈ pre → ∀ b, s'.Ahead j b → s.Ahead j b) : Reads env db₀ s' pre a v :=
  ⟨h.1, fun j o hj ha => h.2 j o hj (hsub j o hj a ha)⟩

theorem not_ahead_updates (hclear : ∀ j o, .op j o ∈ pre → ¬ s.Ahead j a) :
    ∀ u ∈ updates env a db₀ pre, ¬ s.Ahead u.1 a := by
  intro u hu
  obtain ⟨pre', o, post', rfl, -⟩ := mem_updates hu
  exact hclear u.1 o (by simp)

namespace Inv

theorem updates_nodup (h : Inv env db₀ s) (a : String) :
    ((updates env a db₀ s.order).map Prod.fst).Nodup := by
  rw [updates_ids]; exact h.nodup

section
variable (hs : s.order = pre ++ .op i op :: post) {ms : List String} {next : Pc}
include hs

/-- An operation has one place. -/
theorem place_unique (h : Inv env db₀ s) (hs' : s.order = pre' ++ .op i op' :: post') :
    pre = pre' ∧ op = op' ∧ post = post' := by
  have hpre : pre = pre' := by
    have hb : before s.order i = pre := by rw [hs]; exact before_split (hs ▸ h.nodup)
    have hb' : before s.order i = pre' := by rw [hs']; exact before_split (hs' ▸ h.nodup)
    exact hb.symm.trans hb'
  subst hpre
  rw [hs] at hs'
  obtain ⟨he, hpost⟩ := cons.inj (append_cancel_left hs')
  cases he
  exact ⟨rfl, rfl, hpost⟩

theorem clear (h : Inv env db₀ s) (hc : s.Clear i a) : ∀ j o, .op j o ∈ pre → ¬ s.Ahead j a := by
  rw [State.Clear, hs, before_split (hs ▸ h.nodup)] at hc
  exact hc

omit hs in
/-- A coroutine in the middle of `set_assignments` has begun. -/
theorem setting_place (h : Inv env db₀ s) (hp : s.procs i = some (.setting a ms stage next)) :
    ∃ pre op post, s.order = pre ++ .op i op :: post := by
  obtain ⟨op, -, hm | ⟨hw, -⟩⟩ := h.procs i _ hp
  · obtain ⟨pre, post, hs⟩ := append_of_mem hm
    exact ⟨pre, op, post, hs⟩
  · cases hw

section
variable (hp : s.procs i = some pc)
include hp

section
variable (h : Inv env db₀ s)
include h

/-- While an operation has an agent ahead that those before it have settled, nobody else is between
    the DELETE and the INSERT of that agent. -/
theorem no_other_writer (ha : pc.Ahead a)
    (hclear : ∀ j o, .op j o ∈ pre → ¬ s.Ahead j a) (hji : j ≠ i) :
    s.procs j ≠ some (.setting a ms .insert next) := by
  intro hj
  have hahead : s.Ahead j a := ⟨_, hj, .inl ⟨rfl, .inr (.inr rfl)⟩⟩
  obtain ⟨preⱼ, opⱼ, postⱼ, hsj⟩ := h.setting_place hj
  have hm : .op j opⱼ ∈ pre ++ .op i op :: post := by rw [← hs, hsj]; simp
  rcases mem_append.mp hm with hm | hm
  · exact hclear j opⱼ hm hahead
  rcases mem_cons.mp hm with he | hm
  · cases he; exact hji rfl
  -- `i` stands before `j`, which read the agent only when `i` had settled it
  obtain ⟨q, q', rfl⟩ := append_of_mem hm
  have hs' : s.order = (pre ++ .op i op :: q) ++ .op j opⱼ :: q' := by simp [hs]
  obtain ⟨-, hst, -⟩ := h.at_place hs' hj
  cases hst with
  | setting _ _ _ v hr _ _ => exact hr.2 i op (by simp) ⟨pc, hp, ha⟩

/-- The table of an agent that is next for the operation is the serial one before it. -/
theorem held_before (ha : pc.Ahead a) (hpc : ∀ ms next, pc ≠ .setting a ms .insert next)
    (hclear : ∀ j o, .op j o ∈ pre → ¬ s.Ahead j a) :
    held s.working a = heldAfter env db₀ pre a := by
  have hnone : ∀ j ms next, s.procs j ≠ some (.setting a ms .insert next) := by
    intro j ms next hj
    by_cases hji : j = i
    · subst hji
      exact hpc ms next (Option.mem_unique hp hj)
    · exact h.no_other_writer hs hp ha hclear hji hj
  have hpipe := h.pipelined a
  rw [h.table a hnone]
  rw [hs, updates_split] at hpipe ⊢
  exact hpipe.value_before (not_ahead_updates hclear) ⟨pc, hp, ha⟩

/-! ### Settling -/

section
variable (hm : Moved s s' i pc')
include hm

/-- Moving on settles agents: inert ones, or ones that everybody before has settled. The serial
    value of a settled agent moves on by the operation's effect. -/
theorem settle (hshrink : pc'.Ahead a → pc.Ahead a)
    (hdrop : pc.Ahead a → ¬ pc'.Ahead a → op.effect env (view db₀ pre) a = id ∨
      ∀ j o, .op j o ∈ pre → ¬ s.Ahead j a) : Pipelined (s'.Ahead · a) (updates env a db₀ s.order) ∧
      (pc.Ahead a → ¬ pc'.Ahead a → value (s'.Ahead · a) (updates env a db₀ s.order) v =
          op.effect env (view db₀ pre) a (value (s.Ahead · a) (updates env a db₀ s.order) v)) ∧
      ((pc.Ahead a → pc'.Ahead a) → value (s'.Ahead · a) (updates env a db₀ s.order) v =
          value (s.Ahead · a) (updates env a db₀ s.order) v) := by
  have hself : s.Ahead i a ↔ pc.Ahead a := by
    constructor
    · rintro ⟨q, hq, ha⟩; rwa [Option.mem_unique hp hq]
    · exact fun ha => ⟨pc, hp, ha⟩
  by_cases hd : pc.Ahead a ∧ ¬ pc'.Ahead a
  · obtain ⟨ha, hna⟩ := hd
    have hrel : (s'.Ahead · a) = fun j => s.Ahead j a ∧ j ≠ i := by
      funext j
      refine propext ((hm.ahead j a).trans ?_)
      constructor
      · rintro (⟨-, h⟩ | ⟨hj, h⟩)
        · exact absurd h hna
        · exact ⟨h, hj⟩
      · exact fun ⟨h, hj⟩ => .inr ⟨hj, h⟩
    have hpipe := h.pipelined a
    have hnd := h.updates_nodup a
    rw [hs, updates_split] at hpipe hnd ⊢
    rw [hrel]
    refine ⟨?_, fun _ _ => ?_, fun hkeep => absurd (hkeep ha) hna⟩
    · rcases hdrop ha hna with hid | hclear
      · exact hpipe.skip hnd hid
      · exact hpipe.reach hnd (not_ahead_updates hclear)
    · rcases hdrop ha hna with hid | hclear
      · rw [value_skip hnd hid, hid]; rfl
      · have hpre : ∀ u ∈ updates env a db₀ pre, ¬ s.Ahead u.1 a := not_ahead_updates hclear
        rw [hpipe.value_reach hnd hpre (hself.mpr ha), hpipe.value_before hpre (hself.mpr ha)]
  · have hrel : (s'.Ahead · a) = (s.Ahead · a) := by
      funext j
      refine propext ((hm.ahead j a).trans ?_)
      by_cases hj : j = i
      · subst hj
        simp only [true_and, ne_eq, not_true_eq_false, false_and, or_false, hself]
        exact ⟨hshrink, fun ha => by_contra fun hna => hd ⟨ha, hna⟩⟩
      · simp [hj]
    rw [hrel]
    exact ⟨h.pipelined a, fun ha hna => absurd ⟨ha, hna⟩ hd, fun _ => rfl⟩

/-! ### A coroutine that has begun moves on -/

section
variable (hst : Stands env (view db₀ pre) (Reads env db₀ s pre) op pc')
  (hch : pc'.choosing = true → pc.choosing = true)
include hst hch

/-- The places after the coroutine of one of them has moved on. -/
theorem places (hshrink : ∀ a, pc'.Ahead a → pc.Ahead a) :
    ∀ pre i op post, s'.order = pre ++ .op i op :: post → ∃ pc, s'.procs i = some pc ∧
      s'.ops i = some op ∧ Stands env (view db₀ pre) (Reads env db₀ s' pre) op pc ∧
      (pc.choosing = true → ∀ row, .enroll row ∉ post) := by
  have hsub : ∀ j b, s'.Ahead j b → s.Ahead j b := by
    intro j b hj
    rcases (hm.ahead j b).mp hj with ⟨rfl, hb⟩ | ⟨-, hb⟩
    · exact ⟨pc, hp, hshrink b hb⟩
    · exact hb
  intro pre₁ j o post₁ hs₁
  rw [hm.order] at hs₁
  by_cases hj : j = i
  · subst hj
    obtain ⟨rfl, rfl, rfl⟩ := h.place_unique hs hs₁
    obtain ⟨hop, -, hc⟩ := h.at_place hs hp
    refine ⟨pc', hm.self, by rw [hm.ops]; exact hop, ?_, fun hpc' => hc (hch hpc')⟩
    exact hst.mono fun a v hr => hr.mono fun j _ _ b => hsub j b
  · obtain ⟨q, hq, hop, hst', hc⟩ := h.order pre₁ j o post₁ hs₁
    refine ⟨q, by rw [hm.other hj]; exact hq, by rw [hm.ops]; exact hop, ?_, hc⟩
    exact hst'.mono fun a v hr => hr.mono fun j _ _ b => hsub j b

variable (hlock : ∀ j, s'.lock = some j ↔
    ∃ a ms stage next, s'.procs j = some (.setting a ms stage next) ∧ stage ≠ .acquire)
  (hsynced : (∀ j a ms stage next, s'.procs j = some (.setting a ms stage next) →
    stage ≠ .insert ∧ stage ≠ .commit) → s'.committed.assignments = s'.working.assignments)
include hlock hsynced

/-- What is left to say about such a step: the table, the lock and the committed database. -/
theorem moved (hview : SameView s'.working s.working) (hshrink : ∀ a, pc'.Ahead a → pc.Ahead a)
    (hpipe : ∀ a, Pipelined (s'.Ahead · a) (updates env a db₀ s.order))
    (htable : ∀ a, (∀ j ms next, s'.procs j ≠ some (.setting a ms .insert next)) →
      held s'.working a = value (s'.Ahead · a) (updates env a db₀ s.order) (held db₀ a))
    (hemptied : ∀ j a ms next, s'.procs j = some (.setting a ms .insert next) →
      held s'.working a = ∅) : Inv env db₀ s' where
  keyed := by rw [hview.agents]; exact h.keyed
  same := by
    rw [hm.order]
    exact ⟨hview.agents.trans h.same.agents, hview.models.trans h.same.models⟩
  nodup := by rw [hm.order]; exact h.nodup
  procs := by
    intro j q hq
    rw [hm.ops, hm.order]
    rcases hm.cases hq with ⟨rfl, -⟩ | ⟨-, hq⟩
    · exact ⟨op, (h.at_place hs hp).1, .inl (by rw [hs]; simp)⟩
    · obtain ⟨o, ho, hw⟩ := h.procs j q hq
      exact ⟨o, ho, hw.imp_right fun ⟨hw, hn⟩ => ⟨hw.congr hview.models.symm, hn⟩⟩
  order := h.places hs hp hm hst hch hshrink
  pipelined := by rw [hm.order]; exact hpipe
  table := by rw [hm.order]; exact htable
  emptied := hemptied
  lock := hlock
  synced := hsynced

/-- A step that writes nothing and keeps what is ahead, while nobody is before an INSERT. -/
theorem kept (hwork : s'.working = s.working) (hahead : ∀ a, pc'.Ahead a ↔ pc.Ahead a)
    (hnone : ∀ j a ms next, s.procs j ≠ some (.setting a ms .insert next))
    (hpc' : ∀ a ms next, pc' ≠ .setting a ms .insert next) : Inv env db₀ s' := by
  have hsettle := fun a v => h.settle (v := v) (a := a) hs hp hm (hahead a).mp
    fun ha hna => absurd ((hahead a).mpr ha) hna
  refine h.moved hs hp hm hst hch hlock hsynced (by rw [hwork]; exact ⟨rfl, rfl⟩)
    (fun a => (hahead a).mp) (fun a => (hsettle a ∅).1) ?_ ?_
  · intro a _
    rw [hwork]
    exact (h.table a (hnone · a)).trans ((hsettle a _).2.2 (hahead a).mpr).symm
  · intro j a ms next hj
    rcases hm.cases hj with ⟨-, hq⟩ | ⟨-, hq⟩
    · exact absurd hq.symm (hpc' a ms next)
    · exact absurd hq (hnone j a ms next)

end

end

/-- A step outside `set_assignments`: nothing is written, and what it settles it leaves alone. -/
theorem goto (hpc : pc.isSetting = false)
    (hpc' : ∀ a ms stage next, pc' = .setting a ms stage next → stage = .acquire)
    (hst : Stands env (view db₀ pre) (Reads env db₀ s pre) op pc')
    (hshrink : ∀ a, pc'.Ahead a → pc.Ahead a) (hch : pc'.choosing = true → pc.choosing = true)
    (hdrop : ∀ a, pc.Ahead a → ¬ pc'.Ahead a → op.effect env (view db₀ pre) a = id ∨
      (∀ j o, .op j o ∈ pre → ¬ s.Ahead j a) ∧
        op.effect env (view db₀ pre) a (heldAfter env db₀ pre a) = heldAfter env db₀ pre a) :
    Inv env db₀ (s.goto i pc') := by
  have hm : Moved s (s.goto i pc') i pc' := ⟨rfl, rfl, rfl⟩
  have hsettle := fun a v => h.settle (v := v) (a := a) hs hp hm (hshrink a)
    fun ha hna => (hdrop a ha hna).imp_right And.left
  -- the coroutine is at no stage that holds the lock, before and after
  have hold : ∀ j a ms stage next, s.procs j = some (.setting a ms stage next) →
      (s.goto i pc').procs j = some (.setting a ms stage next) := by
    intro j a ms stage next hj
    rw [hm.other]
    · exact hj
    · rintro rfl
      rw [Option.mem_unique hp hj] at hpc
      cases hpc
  have hnew : ∀ j a ms stage next, (s.goto i pc').procs j = some (.setting a ms stage next) →
      stage ≠ .acquire → s.procs j = some (.setting a ms stage next) := by
    intro j a ms stage next hj hstage
    rcases hm.cases hj with ⟨-, hq⟩ | ⟨-, hq⟩
    · exact absurd (hpc' _ _ _ _ hq.symm) hstage
    · exact hq
  refine h.moved hs hp hm hst hch ?_ ?_ ⟨rfl, rfl⟩ hshrink (fun a => (hsettle a ∅).1) ?_ ?_
  · intro j
    refine (h.lock j).trans ⟨?_, ?_⟩
    · rintro ⟨a, ms, stage, next, hj, hstage⟩
      exact ⟨a, ms, stage, next, hold j a ms stage next hj, hstage⟩
    · rintro ⟨a, ms, stage, next, hj, hstage⟩
      exact ⟨a, ms, stage, next, hnew j a ms stage next hj hstage, hstage⟩
  · exact fun hq => h.synced fun j a ms stage next hj =>
      hq j a ms stage next (hold j a ms stage next hj)
  · intro a hnone
    have hnone' : ∀ j ms next, s.procs j ≠ some (.setting a ms .insert next) :=
      fun j ms next hj => hnone j ms next (hold j a ms _ next hj)
    have htable := h.table a hnone'
    by_cases hd : pc.Ahead a ∧ ¬ pc'.Ahead a
    · refine htable.trans (((hsettle a _).2.1 hd.1 hd.2).trans ?_).symm
      rw [← htable]
      rcases hdrop a hd.1 hd.2 with hid | ⟨hclear, hkeep⟩
      · rw [hid]; rfl
      · rw [h.held_before hs hp hd.1 (by rintro ms next rfl; cases hpc) hclear]; exact hkeep
    · exact htable.trans ((hsettle a _).2.2 fun ha => by_contra fun hna => hd ⟨ha, hna⟩).symm
  · exact fun j a ms next hj => h.emptied j a ms next (hnew j a ms _ next hj (by simp))

end

end

end

/-! ### `set_assignments` -/

section
variable {ms : List String} {st st' : SetPc} {next : Pc}

/-- Whoever is past `acquire` holds the lock. -/
theorem only_holder (h : Inv env db₀ s) (hi : s.procs i = some (.setting a ms st next))
    (hst : st ≠ .acquire)
    (hj : s.procs j = some (.setting b ms' st' next')) (hst' : st' ≠ .acquire) : j = i := by
  have h₁ := (h.lock i).mpr ⟨a, ms, st, next, hi, hst⟩
  have h₂ := (h.lock j).mpr ⟨b, ms', st', next', hj, hst'⟩
  exact (Option.mem_unique h₁ h₂).symm

/-- The lock stays with the call from one of its stages to the next. -/
theorem lock_kept (h : Inv env db₀ s) (hp : s.procs i = some (.setting a ms st next))
    (hst : st ≠ .acquire) (hm : Moved s s' i (.setting a ms st' next)) (hst' : st' ≠ .acquire)
    (hlock : s'.lock = s.lock) (j : ℕ) : s'.lock = some j ↔
      ∃ a ms stage next, s'.procs j = some (.setting a ms stage next) ∧ stage ≠ .acquire := by
  rw [hlock, h.lock j]
  constructor
  · rintro ⟨b, ms', st₁, next', hj, hst₁⟩
    obtain rfl := h.only_holder hp hst hj hst₁
    exact ⟨a, ms, st', next, hm.self, hst'⟩
  · rintro ⟨b, ms', st₁, next', hj, hst₁⟩
    rcases hm.cases hj with ⟨rfl, -⟩ | ⟨-, hj⟩
    · exact ⟨a, ms, st, next, hp, hst⟩
    · exact ⟨b, ms', st₁, next', hj, hst₁⟩

/-- The call moves to another of its stages. -/
theorem stands_stage (h : Stands env db R op (.setting a ms st next)) :
    Stands env db R op (.setting a ms st' next) := by
  cases h with
  | setting hn ho ha v hr hw hauto => exact .setting hn ho ha v hr hw hauto

/-- Before the INSERT the agent is ahead, after it no more. -/
theorem setting_ahead (hst : st = .acquire ∨ st = .delete ∨ st = .insert)
    (hst' : st' = .acquire ∨ st' = .delete ∨ st' = .insert) (b : String) :
    (setting a ms st' next).Ahead b ↔ (setting a ms st next).Ahead b := by
  simp only [Pc.Ahead, hst, hst']

section
variable (h : Inv env db₀ s)
include h

theorem set_acquire (hp : s.procs i = some (.setting a ms .acquire next))
    (hfree : s.lock = none) (hm : Moved s s' i (.setting a ms .delete next))
    (hwork : s'.working = s.working) (hcomm : s'.committed = s.committed)
    (hlock : s'.lock = some i) : Inv env db₀ s' := by
  obtain ⟨pre, op, post, hs⟩ := h.setting_place hp
  have hidle : ∀ j b ms' st next', s.procs j = some (.setting b ms' st next') → st = .acquire := by
    intro j b ms' st next' hj
    by_contra hst
    have := (h.lock j).mpr ⟨b, ms', st, next', hj, hst⟩
    rw [hfree] at this; cases this
  refine h.kept hs hp hm (stands_stage (h.at_place hs hp).2.1) nofun ?_ ?_ hwork
    (setting_ahead (by simp) (by simp)) (fun j b ms' next' hj => ?_) nofun
  · intro j
    rw [hlock]
    constructor
    · intro hj
      cases hj
      exact ⟨a, ms, .delete, next, hm.self, by simp⟩
    · rintro ⟨b, ms', st, next', hj, hst⟩
      rcases hm.cases hj with ⟨rfl, -⟩ | ⟨-, hq⟩
      · rfl
      · exact absurd (hidle j b ms' st next' hq) hst
  · intro _
    rw [hcomm, hwork]
    exact h.synced fun j b ms' st next' hj => by rw [hidle j b ms' st next' hj]; simp
  · cases hidle j b ms' _ next' hj

theorem set_delete (hp : s.procs i = some (.setting a ms .delete next))
    (hm : Moved s s' i (.setting a ms .insert next))
    (hwork : s'.working = ((Write.deleteAssignments a).run s.working).1)
    (hlock : s'.lock = s.lock) : Inv env db₀ s' := by
  obtain ⟨pre, op, post, hs⟩ := h.setting_place hp
  have hahead : ∀ b, (setting a ms .insert next).Ahead b ↔ (setting a ms .delete next).Ahead b :=
    setting_ahead (by simp) (by simp)
  have hsettle := fun b v => h.settle (v := v) (a := b) hs hp hm (hahead b).mp
    fun ha hna => absurd ((hahead b).mpr ha) hna
  refine h.moved hs hp hm (stands_stage (h.at_place hs hp).2.1) nofun
    (h.lock_kept hp (by simp) hm (by simp) hlock) ?_ (by rw [hwork]; exact ⟨rfl, rfl⟩)
    (fun b => (hahead b).mp) (fun b => (hsettle b ∅).1) ?_ ?_
  · intro hq
    exact absurd rfl (hq i a ms .insert next hm.self).1
  · intro b hnone
    have hba : b ≠ a := by
      rintro rfl
      exact hnone i ms next hm.self
    rw [hwork, held_delete, if_neg hba]
    refine (h.table b fun j ms' next' hj => ?_).trans ((hsettle b _).2.2 (hahead b).mpr).symm
    obtain rfl := h.only_holder hp (by simp) hj (by simp)
    rw [hp] at hj; cases hj
  · intro j b ms' next' hj
    rcases hm.cases hj with ⟨-, hq⟩ | ⟨hji, hq⟩
    · cases hq
      rw [hwork, held_delete, if_pos rfl]
    · exact absurd (h.only_holder hp (by simp) hq (by simp)) hji

omit h in
theorem written_congr (h : revoked db a ↔ revoked db' a) : written db a ms = written db' a ms := by
  classical
  exact if_congr h rfl rfl

/-- The INSERT settles the agent. -/
theorem set_insert (hp : s.procs i = some (.setting a ms .insert next))
    (hm : Moved s s' i (.setting a ms .commit next))
    (hwork : s'.working = ((Write.insertAssignments a ms).run s.working).1)
    (hlock : s'.lock = s.lock) : Inv env db₀ s' := by
  obtain ⟨pre, op, post, hs⟩ := h.setting_place hp
  have hst := (h.at_place hs hp).2.1
  obtain ⟨v, ⟨hv, hclear⟩, hwrote, hset⟩ : ∃ v, Reads env db₀ s pre a v ∧
      written (view db₀ pre) a ms = op.effect env (view db₀ pre) a v ∧ ¬ next.Ahead a := by
    cases hst with
    | setting _ _ hset v hr hw _ => exact ⟨v, hr, hw, hset⟩
  have ha : (setting a ms .insert next).Ahead a := .inl ⟨rfl, .inr (.inr rfl)⟩
  have hna : ¬ (setting a ms .commit next).Ahead a := by simp [Pc.Ahead, hset]
  have hshrink : ∀ b, (setting a ms .commit next).Ahead b →
      (setting a ms .insert next).Ahead b := by
    intro b; simp only [Pc.Ahead, reduceCtorEq, or_self, and_false, false_or]; exact .inr
  have hother : ∀ b, b ≠ a → (setting a ms .insert next).Ahead b →
      (setting a ms .commit next).Ahead b :=
    fun b hb h => .inr (h.resolve_left fun h => hb h.1)
  have hview : SameView s'.working s.working := by
    rw [hwork]
    refine ⟨insertAssignments_frame.1, ?_⟩
    simp only [Write.run, Sql.insertAssignments]; split <;> rfl
  have hsettle := fun b v => h.settle (v := v) (a := b) hs hp hm (hshrink b) fun hb hnb => by
    by_cases hba : b = a
    · subst hba; exact .inr hclear
    · exact absurd (hother b hba hb) hnb
  refine h.moved hs hp hm (stands_stage hst) (by rintro ⟨⟩)
    (h.lock_kept hp (by simp) hm (by simp) hlock) ?_ hview hshrink (fun b => (hsettle b ∅).1) ?_ ?_
  · intro hq
    exact absurd rfl (hq i a ms .commit next hm.self).2
  · intro b _
    rw [hwork, held_insert]
    by_cases hba : b = a
    · subst hba
      have hpipe := h.pipelined b
      have hvalue : value (s.Ahead · b) (updates env b db₀ s.order) (held db₀ b) = v := by
        rw [hs, updates_split] at hpipe ⊢
        exact (hpipe.value_before (not_ahead_updates hclear) ⟨_, hp, ha⟩).trans hv
      have hrev : revoked s.working b ↔ revoked (view db₀ pre) b :=
        (h.same.revoked b).trans ((view_revoked _ _).trans (view_revoked _ _).symm)
      refine Eq.trans ?_ ((hsettle b _).2.1 ha hna).symm
      rw [if_pos rfl, h.emptied i b ms next hp, Set.empty_union, written_congr hrev, hwrote, hvalue]
    · rw [if_neg hba]
      refine (h.table b fun j ms' next' hj => ?_).trans ((hsettle b _).2.2 (hother b hba)).symm
      obtain rfl := h.only_holder hp (by simp) hj (by simp)
      rw [hp] at hj; cases hj
      exact hba rfl
  · intro j b ms' next' hj
    rcases hm.cases hj with ⟨-, hq⟩ | ⟨hji, hq⟩
    · cases hq
    · exact absurd (h.only_holder hp (by simp) hq (by simp)) hji

theorem set_commit (hp : s.procs i = some (.setting a ms .commit next))
    (hm : Moved s s' i (.setting a ms .release next)) (hwork : s'.working = s.working)
    (hcomm : s'.committed = s.working) (hlock : s'.lock = s.lock) : Inv env db₀ s' := by
  obtain ⟨pre, op, post, hs⟩ := h.setting_place hp
  have hnone : ∀ j b ms' next', s.procs j ≠ some (.setting b ms' .insert next') := by
    intro j b ms' next' hj
    obtain rfl := h.only_holder hp (by simp) hj (by simp)
    rw [hp] at hj; cases hj
  exact h.kept hs hp hm (stands_stage (h.at_place hs hp).2.1) nofun
    (h.lock_kept hp (by simp) hm (by simp) hlock) (fun _ => by rw [hcomm, hwork]) hwork
    (fun b => by simp [Pc.Ahead]) hnone nofun

theorem set_release (hp : s.procs i = some (.setting a ms .release next))
    (hm : Moved s s' i next) (hwork : s'.working = s.working)
    (hcomm : s'.committed = s.committed) (hlock : s'.lock = none) : Inv env db₀ s' := by
  obtain ⟨pre, op, post, hs⟩ := h.setting_place hp
  obtain ⟨hnext, hplain, hset⟩ : Stands env (view db₀ pre) (Reads env db₀ s pre) op next ∧
      next.isSetting = false ∧ ¬ next.Ahead a := by
    cases (h.at_place hs hp).2.1 with
    | setting hn ho hset _ _ _ _ => exact ⟨hn, ho, hset⟩
  have hchoose : next.choosing = true → (setting a ms .release next).choosing = true := by
    intro hc
    cases next <;> first | exact absurd trivial hset | cases hc
  have hnew : ∀ j b ms' st next', s'.procs j = some (.setting b ms' st next') → st = .acquire := by
    intro j b ms' st next' hj
    by_contra hst'
    rcases hm.cases hj with ⟨-, hq⟩ | ⟨hji, hq⟩
    · rw [← hq] at hplain; cases hplain
    · exact hji (h.only_holder hp (by simp) hq hst')
  refine h.kept hs hp hm hnext hchoose ?_ ?_ hwork (fun b => by simp [Pc.Ahead])
    (fun j b ms' next' hj => ?_) (by rintro b ms' next' rfl; cases hplain)
  · intro j
    rw [hlock]
    constructor
    · exact nofun
    · rintro ⟨b, ms', st, next', hj, hst'⟩
      exact absurd (hnew j b ms' st next' hj) hst'
  · intro _
    rw [hcomm, hwork]
    refine h.synced fun j b ms' st next' hj => ?_
    by_cases hst' : st = .acquire
    · subst hst'; simp
    · obtain rfl := h.only_holder hp (by simp) hj hst'
      rw [hp] at hj; cases hj; simp
  · obtain rfl := h.only_holder hp (by simp) hj (by simp)
    rw [hp] at hj; cases hj

end

end

end Inv

end Fallow.App.Assign
