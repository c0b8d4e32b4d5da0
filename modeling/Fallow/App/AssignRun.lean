import Fallow.App.AssignStep

/-! Operations that begin, wait or are rejected, and what happens around them: with these every
    undisturbed step keeps the invariant (`Inv.step`). -/

namespace Fallow.App.Assign
open Lib Registry Scheduler Pipeline Function List State

variable {env : Env} {db₀ : Db} {s s' : State} {i j : ℕ} {op : Op} {pc pc' : Pc}
  {pre post : List Entry} {a : String} {v : Set String}

theorem mem_ids {es : List Entry} : i ∈ es.filterMap Entry.id ↔ ∃ o, .op i o ∈ es := by
  rw [mem_filterMap]
  constructor
  · rintro ⟨e, he, hid⟩
    cases e with
    | op j o => exact ⟨o, by rw [← Option.some.inj hid]; exact he⟩
    | beat | enroll => cases hid
  · rintro ⟨o, ho⟩
    exact ⟨_, ho, rfl⟩

/-- The calls of `set_assignments` under way are the same. -/
def SameSetting (s s' : State) : Prop := ∀ j a ms st next,
  s'.procs j = some (.setting a ms st next) ↔ s.procs j = some (.setting a ms st next)

theorem sameSetting_update (hprocs : s'.procs = update s.procs i (some pc'))
    (hold : ∀ pc, s.procs i = some pc → pc.isSetting = false) (hpc' : pc'.isSetting = false) :
    SameSetting s s' := by
  intro j a ms st next
  rw [hprocs]
  by_cases hji : j = i
  · subst hji
    rw [update_self]
    constructor
    · intro h; rw [Option.some.inj h] at hpc'; cases hpc'
    · intro h; cases hold _ h
  · rw [update_of_ne hji]

/-- The operations that have begun have the same agents ahead. -/
def SameAhead (s s' : State) : Prop := ∀ j o, .op j o ∈ s.order → ∀ a, s'.Ahead j a ↔ s.Ahead j a

theorem sameAhead_update (hprocs : s'.procs = update s.procs i (some pc'))
    (hnew : ∀ o, .op i o ∉ s.order) : SameAhead s s' := by
  intro j o hj a
  have hji : j ≠ i := by rintro rfl; exact hnew o hj
  simp only [State.Ahead, hprocs, update_of_ne hji]

section
variable (h : SameAhead s s')
include h

theorem SameAhead.updates (a : String) :
    ∀ u ∈ updates env a db₀ s.order, (s.Ahead u.1 a ↔ s'.Ahead u.1 a) := by
  intro u hu
  obtain ⟨pre, o, post, hs, -⟩ := mem_updates hu
  exact (h u.1 o (by rw [hs]; simp) a).symm

theorem SameAhead.pipelined (hp : Pipelined (s.Ahead · a)
    (Assign.updates env a db₀ s.order)) : Pipelined (s'.Ahead · a) (Assign.updates env a db₀ s.order) :=
  hp.congr fun u hu => .inl (h.updates a u hu)

theorem SameAhead.value : value (s'.Ahead · a) (Assign.updates env a db₀ s.order) v =
      Pipeline.value (s.Ahead · a) (Assign.updates env a db₀ s.order) v :=
  value_congr fun u hu => .inr (h.updates a u hu).symm

theorem SameAhead.reads (hs : s.order = pre ++ post)
    (hr : Reads env db₀ s pre a v) : Reads env db₀ s' pre a v :=
  hr.mono fun j o hj b => (h j o (by rw [hs]; exact mem_append_left _ hj) b).mp

end

namespace Inv

/-! ### Coroutines that have not begun -/

/-- A coroutine without an entry starts, goes on or raises. -/
theorem wait (h : Inv env db₀ s) (hprocs : s'.procs = update s.procs i (some pc'))
    (hops : s'.ops = update s.ops i (some op)) (horder : s'.order = s.order)
    (hwork : s'.working = s.working) (hcomm : s'.committed = s.committed)
    (hlock : s'.lock = s.lock) (hold : ∀ pc, s.procs i = some pc → pc.isSetting = false)
    (hnew : ∀ o, .op i o ∉ s.order) (hw : Waits env s.working op pc') : Inv env db₀ s' := by
  have hset : SameSetting s s' := sameSetting_update hprocs hold (by cases hw <;> rfl)
  have hahead : SameAhead s s' := sameAhead_update hprocs hnew
  refine ⟨by rw [hwork]; exact h.keyed, by rw [hwork, horder]; exact h.same,
    by rw [horder]; exact h.nodup, ?_, ?_, ?_, ?_, ?_, ?_, ?_⟩
  · intro j q hq
    rw [hprocs] at hq
    rw [hops, horder, hwork]
    rcases update_eq_some.1 hq with ⟨rfl, rfl⟩ | ⟨hji, hq⟩
    · exact ⟨op, update_self .., .inr ⟨hw, hnew⟩⟩
    · rw [update_of_ne hji]
      exact h.procs j q hq
  · intro pre j o post hs
    rw [horder] at hs
    have hji : j ≠ i := by rintro rfl; exact hnew o (by rw [hs]; simp)
    obtain ⟨q, hq, ho, hst, hc⟩ := h.order pre j o post hs
    refine ⟨q, by rw [hprocs, update_of_ne hji]; exact hq,
      by rw [hops, update_of_ne hji]; exact ho, ?_, hc⟩
    exact hst.mono fun a v => hahead.reads hs
  · intro a; rw [horder]; exact hahead.pipelined (h.pipelined a)
  · intro a hnone
    rw [hwork, horder, hahead.value]
    exact h.table a fun j ms next hj => hnone j ms next ((hset ..).mpr hj)
  · intro j a ms next hj
    rw [hwork]
    exact h.emptied j a ms next ((hset ..).mp hj)
  · intro j
    rw [hlock, h.lock j]
    simp only [hset j]
  · intro hq
    rw [hcomm, hwork]
    exact h.synced fun j a ms st next hj => hq j a ms st next ((hset ..).mpr hj)

/-! ### An operation begins -/

theorem begin (h : Inv env db₀ s) (hp : s.procs i = some pc) (hop : s.ops i = some op)
    (hnew : ∀ o, .op i o ∉ s.order) (hpc : pc.isSetting = false) (hpc' : pc'.isSetting = false)
    (hst : Stands env (view db₀ s.order) (Reads env db₀ s s.order) op pc')
    (hin : ∀ a, pc'.Ahead a ∨ op.effect env (view db₀ s.order) a = id ∨
      (∀ j o, .op j o ∈ s.order → ¬ s.Ahead j a) ∧
        op.effect env (view db₀ s.order) a (held s.working a) = held s.working a) :
    Inv env db₀ ((s.begin (.op i op)).goto i pc') := by
  have hset : SameSetting s ((s.begin (.op i op)).goto i pc') := by
    refine sameSetting_update rfl (fun q hq => ?_) hpc'
    rw [← Option.mem_unique hp hq]; exact hpc
  have hahead : SameAhead s ((s.begin (.op i op)).goto i pc') := sameAhead_update rfl hnew
  have hself : ∀ a, ((s.begin (.op i op)).goto i pc').Ahead i a ↔ pc'.Ahead a := by
    intro a; simp [State.Ahead]
  have hview : view db₀ (s.order ++ [.op i op]) = view db₀ s.order := view_append
  have hups : ∀ a, updates env a db₀ (s.order ++ [.op i op]) =
      updates env a db₀ s.order ++ [(i, op.effect env (view db₀ s.order) a)] :=
    fun a => updates_append ..
  refine ⟨h.keyed, ⟨?_, ?_⟩, ?_, ?_, ?_, ?_, ?_, ?_, ?_, ?_⟩
  · exact h.same.agents.trans (by rw [goto_order, begin_order, hview])
  · exact h.same.models.trans (by rw [goto_order, begin_order, hview])
  · rw [goto_order, begin_order, filterMap_append]
    refine nodup_append.mpr ⟨h.nodup, by simp [Entry.id], ?_⟩
    intro x hx y hy
    obtain rfl : y = i := by simpa [Entry.id] using hy
    rintro rfl
    obtain ⟨o, ho⟩ := mem_ids.mp hx
    exact hnew o ho
  · intro j q hq
    by_cases hji : j = i
    · subst hji
      exact ⟨op, hop, .inl (by simp)⟩
    · rw [goto_procs, update_of_ne hji] at hq
      obtain ⟨o, ho, hm⟩ := h.procs j q hq
      refine ⟨o, ho, hm.imp (fun hm => by simp [hm]) fun hn => ⟨hn.1, fun o' hm => ?_⟩⟩
      rcases mem_concat.1 hm with hm | hm
      · exact hn.2 o' hm
      · cases hm; exact hji rfl
  · intro pre j o post hs
    rcases split_concat hs with ⟨post', rfl, hs'⟩ | ⟨rfl, he, rfl⟩
    · have hji : j ≠ i := by rintro rfl; exact hnew o (by rw [hs']; simp)
      obtain ⟨q, hq, ho, hst', hc⟩ := h.order pre j o post' hs'
      refine ⟨q, by rw [goto_procs, update_of_ne hji]; exact hq, ho,
        hst'.mono fun a v => hahead.reads hs', fun hch row hm => ?_⟩
      rcases mem_concat.1 hm with hm | hm
      · exact hc hch row hm
      · cases hm
    · cases he
      refine ⟨pc', by simp, hop, ?_, by simp⟩
      exact hst.mono fun a v => hahead.reads (append_nil _).symm
  · intro a
    rw [goto_order, begin_order, hups]
    refine (hahead.pipelined (h.pipelined a)).snoc ?_
    rcases hin a with ha | hid | ⟨hclear, -⟩
    · exact .inl ((hself a).mpr ha)
    · exact .inr (.inl hid)
    · refine .inr (.inr fun u hu hau => ?_)
      exact not_ahead_updates hclear u hu ((hahead.updates a u hu).mpr hau)
  · intro a hnone
    have htable := h.table a fun j ms next hj => hnone j ms next ((hset ..).mpr hj)
    rw [goto_order, begin_order, hups, value_append, hahead.value, ← htable]
    change held s.working a = _
    rcases hin a with ha | hid | ⟨-, hkeep⟩
    · rw [value_cons_pos ((hself a).mpr ha)]; rfl
    · rw [value_ahead (fun u hu => .inr (by rw [mem_singleton.mp hu]; exact hid))]
    · by_cases ha : pc'.Ahead a
      · rw [value_cons_pos ((hself a).mpr ha)]; rfl
      · rw [value_cons_neg fun hi => ha ((hself a).mp hi), hkeep]; rfl
  · exact fun j a ms next hj => h.emptied j a ms next ((hset ..).mp hj)
  · intro j
    refine (h.lock j).trans ?_
    simp only [hset j]
  · exact fun hq => h.synced fun j a ms st next hj => hq j a ms st next ((hset ..).mpr hj)

/-! ### A PUT is rejected -/

theorem view_filter : ∀ (es : List Entry) (db : Db),
    view db (es.filter fun e => e.id ≠ some i) = view db es
  | [], _ => rfl
  | e :: es, db => by
    by_cases he : e.id = some i
    · rw [filter_cons_of_neg (by simp [he]), view_filter es]
      cases e with
      | op => rfl
      | beat | enroll => cases he
    · rw [filter_cons_of_pos (by simp [he])]
      exact view_filter es (e.onDb db)

theorem updates_filter : ∀ (es : List Entry) (db : Db),
    updates env a db (es.filter fun e => e.id ≠ some i) =
      (updates env a db es).filter fun u => u.1 ≠ i
  | [], _ => rfl
  | e :: es, db => by
    by_cases he : e.id = some i
    · rw [filter_cons_of_neg (by simp [he]), updates_filter es, updates, filter_append]
      cases e with
      | op j o =>
        cases he
        simp [Entry.update, Entry.onDb]
      | beat | enroll => cases he
    · rw [filter_cons_of_pos (by simp [he]), updates, updates, filter_append, updates_filter es]
      congr 1
      cases e with
      | op j o =>
        have hji : j ≠ i := fun h => he (congrArg some h)
        simp [Entry.update, hji]
      | beat | enroll => rfl

section
variable (h : Inv env db₀ s)
include h

/-- The entry leaves the history: it had every agent ahead, so nothing behind it has read any. -/
theorem reject (hs : s.order = pre ++ .op i op :: post)
    (hp : s.procs i = some pc) (hpc : pc.isSetting = false) (hall : ∀ a, pc.Ahead a)
    (e : RouteError) : Inv env db₀ (s.abort i e) := by
  have hset : SameSetting s (s.abort i e) := by
    refine sameSetting_update rfl (fun q hq => ?_) rfl
    rw [← Option.mem_unique hp hq]; exact hpc
  have hself : ∀ a, s.Ahead i a := fun a => ⟨pc, hp, hall a⟩
  have hother : ∀ {j}, j ≠ i → ∀ a, (s.abort i e).Ahead j a ↔ s.Ahead j a := by
    intro j hji a
    simp only [State.Ahead, abort_procs, update_of_ne hji]
  refine ⟨h.keyed, ⟨?_, ?_⟩, ?_, ?_, ?_, ?_, ?_, ?_, ?_, ?_⟩
  · exact h.same.agents.trans (by rw [abort_order, view_filter])
  · exact h.same.models.trans (by rw [abort_order, view_filter])
  · exact h.nodup.sublist (filter_sublist.filterMap _)
  · intro j q hq
    rcases update_eq_some.1 hq with ⟨rfl, rfl⟩ | ⟨hji, hq⟩
    · refine ⟨op, (h.at_place hs hp).1, .inr ⟨.raised op e, fun o hm => ?_⟩⟩
      simp [Entry.id] at hm
    · obtain ⟨o, ho, hm⟩ := h.procs j q hq
      refine ⟨o, ho, hm.imp (fun hm => ?_) fun hn => ⟨hn.1, fun o' hm => ?_⟩⟩
      · exact mem_filter.mpr ⟨hm, by simp [Entry.id, hji]⟩
      · exact hn.2 o' (mem_filter.mp hm).1
  · intro pre' j o post' hs'
    rw [abort_order, filter_eq_append_iff] at hs'
    obtain ⟨l₁, l₂, hl, rfl, hl₂⟩ := hs'
    obtain ⟨l₃, l₄, rfl, hl₃, hj, rfl⟩ := filter_eq_cons_iff.mp hl₂
    have hji : j ≠ i := by rintro rfl; simp [Entry.id] at hj
    have hsj : s.order = (l₁ ++ l₃) ++ .op j o :: l₄ := by rw [hl, append_assoc]
    have hpre : (l₁ ++ l₃).filter (fun e => e.id ≠ some i) = l₁.filter fun e => e.id ≠ some i := by
      rw [filter_append, filter_eq_nil_iff.mpr hl₃, append_nil]
    obtain ⟨q, hq, ho, hst, hc⟩ := h.order _ j o _ hsj
    refine ⟨q, by rw [abort_procs, update_of_ne hji]; exact hq, ho, ?_,
      fun hch row hm => hc hch row (mem_filter.mp hm).1⟩
    rw [← hpre, view_filter]
    refine hst.mono fun a v hr => ?_
    -- what `j` has read is from before `i`, or `j` stands before `i`
    have hout : ∀ o', .op i o' ∉ l₁ ++ l₃ := fun o' hm => hr.2 i o' hm (hself a)
    have hkeep : (l₁ ++ l₃).filter (fun e => e.id ≠ some i) = l₁ ++ l₃ := by
      refine filter_eq_self.mpr fun e he => decide_eq_true fun hid => ?_
      obtain ⟨o', ho'⟩ := mem_ids.mp (mem_filterMap.mpr ⟨e, he, hid⟩)
      exact hout o' ho'
    rw [hkeep]
    refine hr.mono fun k o' hk b => ?_
    have hki : k ≠ i := by rintro rfl; exact hout o' hk
    exact (hother hki b).mp
  · intro a
    rw [abort_order, updates_filter]
    refine ((h.pipelined a).filter _).congr fun u hu => .inl ?_
    exact (hother (by simpa using (mem_filter.mp hu).2) a).symm
  · intro a hnone
    have htable := h.table a fun j ms next hj => hnone j ms next ((hset ..).mpr hj)
    rw [abort_order, updates_filter]
    refine htable.trans ((value_filter (hself a)).symm.trans (value_congr fun u hu => .inr ?_))
    exact (hother (by simpa using (mem_filter.mp hu).2) a).symm
  · exact fun j a ms next hj => h.emptied j a ms next ((hset ..).mp hj)
  · intro j
    refine (h.lock j).trans ?_
    simp only [hset j]
  · exact fun hq => h.synced fun j a ms st next hj => hq j a ms st next ((hset ..).mpr hj)

/-! ### Heartbeats and enrolments -/

theorem around (he : e.id = none)
    (hk : Table.Keyed AgentRow.agentId db.agents) (hview : SameView db (e.onDb (view db₀ s.order)))
    (hassign : db.assignments = s.working.assignments)
    (hc : ∀ row, e = .enroll row → ∀ j pc, s.procs j = some pc → pc.choosing = false) :
    Inv env db₀ { s.begin e with working := db } := by
  have hups : ∀ a, updates env a db₀ (s.order ++ [e]) = updates env a db₀ s.order := by
    intro a
    rw [updates_append]
    cases e with
    | op => cases he
    | beat | enroll => exact append_nil _
  have hne : ∀ i o, e ≠ .op i o := by rintro i o rfl; cases he
  have hheld : ∀ a, held db a = held s.working a := fun a => by rw [held, held, hassign]
  have hmodels : s.working.models = db.models :=
    h.same.models.trans (hview.models.trans onDb_models).symm
  refine ⟨hk, ?_, ?_, ?_, ?_, ?_, ?_, ?_, h.lock, ?_⟩
  · change SameView db (view db₀ (s.order ++ [e]))
    rw [view_append]; exact hview
  · change ((s.order ++ [e]).filterMap Entry.id).Nodup
    rw [filterMap_append, filterMap_cons_none he, filterMap_nil, append_nil]
    exact h.nodup
  · intro j q hq
    obtain ⟨o, ho, hm⟩ := h.procs j q hq
    refine ⟨o, ho, hm.imp (mem_append_left _) fun hn => ⟨hn.1.congr hmodels, fun o' hm => ?_⟩⟩
    rcases mem_concat.1 hm with hm | hm
    · exact hn.2 o' hm
    · exact hne j o' hm.symm
  · intro pre j o post hs
    rcases split_concat hs with ⟨post', rfl, hs'⟩ | ⟨-, he', -⟩
    · obtain ⟨q, hq, ho, hst, hch⟩ := h.order pre j o post' hs'
      refine ⟨q, hq, ho, hst, fun hqc row hm => ?_⟩
      rcases mem_concat.1 hm with hm | hm
      · exact hch hqc row hm
      · rw [hc row hm.symm j q hq] at hqc
        cases hqc
    · exact absurd he' (hne j o)
  · intro a
    change Pipelined (s.Ahead · a) (updates env a db₀ (s.order ++ [e]))
    rw [hups]; exact h.pipelined a
  · intro a hnone
    change held db a = value (s.Ahead · a) (updates env a db₀ (s.order ++ [e])) _
    rw [hups, hheld]; exact h.table a hnone
  · intro j a ms next hj
    rw [hheld]; exact h.emptied j a ms next hj
  · intro hq
    exact (h.synced hq).trans hassign.symm

/-! ### What is known of the coroutine that runs -/

/-- A coroutine that only one that has begun can be. -/
theorem begun (hp : s.procs i = some pc)
    (hno : ∀ op, ¬ Waits env s.working op pc) : ∃ pre op post, s.order = pre ++ .op i op :: post ∧
      Stands env (view db₀ pre) (Reads env db₀ s pre) op pc ∧
      (pc.choosing = true → ∀ row, .enroll row ∉ post) := by
  obtain ⟨op, -, hm | ⟨hw, -⟩⟩ := h.procs i pc hp
  · obtain ⟨pre, post, hs⟩ := append_of_mem hm
    exact ⟨pre, op, post, hs, (h.at_place hs hp).2⟩
  · exact absurd hw (hno op)

/-- A coroutine that only one that has not begun can be. -/
theorem unbegun (hp : s.procs i = some pc)
    (hno : ∀ db R op, ¬ Stands env db R op pc) : ∃ op, s.ops i = some op ∧
      Waits env s.working op pc ∧ ∀ o, .op i o ∉ s.order := by
  obtain ⟨op, hop, hm | ⟨hw, hn⟩⟩ := h.procs i pc hp
  · obtain ⟨pre, post, hs⟩ := append_of_mem hm
    exact absurd (h.at_place hs hp).2.1 (hno _ _ _)
  · exact ⟨op, hop, hw, hn⟩

/-- The view an operation began against, seen from now. -/
theorem revoked_iff (pre : List Entry) (a : String) :
    revoked s.working a ↔ revoked (view db₀ pre) a :=
  (h.same.revoked a).trans ((view_revoked _ _).trans (view_revoked _ _).symm)

theorem models_eq (pre : List Entry) : s.working.models = (view db₀ pre).models := by
  rw [h.same.models, view_models, view_models]

theorem registered_now (hs : s.order = pre ++ post)
    (hr : registered (view db₀ pre) a) : registered s.working a := by
  rw [h.same.registered, hs, view_append]
  exact view_registered post hr

theorem registered_then (hs : s.order = pre ++ .op i op :: post)
    (hn : ∀ row, .enroll row ∉ post) (hr : registered s.working a) :
    registered (view db₀ pre) a := by
  rw [h.same.registered, hs, view_append] at hr
  refine registered_of_view (fun row hm => ?_) hr
  rcases mem_cons.mp hm with hm | hm
  · cases hm
  · exact hn row hm

end

end Inv

variable {cfg : RegistryConfig} {db : Db} {now : ℤ} {x : AgentSnapshot}

theorem mem_snapshots
    (hx : x ∈ snapshots cfg db now) : ∃ r ∈ db.agents, rowSnapshot cfg now r = x := by
  simp only [snapshots, mem_map, mem_filter, mem_mergeSort] at hx
  obtain ⟨r, ⟨⟨hr, -⟩, -⟩, he⟩ := hx
  exact ⟨r, hr, he⟩

theorem registered_of_snapshots (hx : x ∈ snapshots cfg db now) : registered db x.agentId := by
  obtain ⟨r, hr, rfl⟩ := mem_snapshots hx
  exact ⟨r, hr, rfl⟩

section
variable (hk : Table.Keyed AgentRow.agentId db.agents)
include hk

/-- With the primary key a snapshot is found by its agent. -/
theorem snapshots_unique (hx : x ∈ snapshots cfg db now)
    (hy : y ∈ snapshots cfg db now) (he : x.agentId = y.agentId) : x = y := by
  obtain ⟨r, hr, rfl⟩ := mem_snapshots hx
  obtain ⟨r', hr', rfl⟩ := mem_snapshots hy
  rw [inj_on_of_nodup_map hk hr hr' he]

theorem sweepList_nodup : ((sweepList env db now).map (·.agentId)).Nodup := by
  have hsnap : ((snapshots env.cfg db now).map (·.agentId)).Nodup := by
    have hrows : (((db.agents.filter (·.revokedAt = none)).mergeSort
        fun a b => decide (a.registeredAt ≤ b.registeredAt)).map (·.agentId)).Nodup :=
      ((mergeSort_perm _ _).map _).nodup_iff.mpr (Table.keyed_filter _ hk)
    rw [snapshots, map_map]
    exact hrows.sublist (filter_sublist.map _)
  exact ((mergeSort_perm _ _).map _).nodup_iff.mpr hsnap

end

/-- The agents' ids after a history are those before and the enrolled ones. -/
theorem keyed_of_view : ∀ (es : List Entry) {db : Db},
    Table.Keyed AgentRow.agentId (view db es).agents → Table.Keyed AgentRow.agentId db.agents
  | [], _, h => h
  | e :: es, db, h => by
    have h := keyed_of_view es h
    cases e with
    | op => exact h
    | beat b hb now =>
      have hids : (Table.update (fun r : AgentRow => decide (r.agentId = b))
          (Sql.heartbeatRow hb now) db.agents).map (·.agentId) = db.agents.map (·.agentId) := by
        rw [Table.update, map_map]
        refine map_congr_left fun r _ => ?_
        simp only [Function.comp]
        split <;> rfl
      rw [Table.Keyed, ← hids]; exact h
    | enroll row =>
      have hnd : ((db.agents ++ [enrolled row]).map AgentRow.agentId).Nodup := h
      rw [map_append] at hnd
      exact (nodup_append.mp hnd).1

end Fallow.App.Assign
