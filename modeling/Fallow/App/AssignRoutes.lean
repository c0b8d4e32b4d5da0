import Fallow.App.AssignRun

/-! Each await of the three operations, checked against its effect.

    For a step that reads an agent's set: what it read is the serial set before the operation, and
    what it leaves alone or sets out to write is the operation's effect on it. -/

namespace Fallow.App.Assign
open Lib Registry Scheduler Pipeline List Option Function State

variable {env : Env} {db₀ : Db} {s : State} {i : ℕ} {pc : Pc} {a : String}

namespace Inv

/-! ### PUT -/

variable {db : Db} {v : Set String}

section
variable {p : Put} {m : ModelManifest}

section
variable (h : Inv env db₀ s)
include h

theorem resume_putManifest (hp : s.procs i = some (.putManifest p)) :
    Inv env db₀ (s.resume env i (.putManifest p)) := by
  obtain ⟨op, hop, hw, hnew⟩ := h.unbegun hp fun _ _ _ hst => by cases hst
  obtain rfl : op = .put p := by cases hw; rfl
  have hbegin : Checked env (view db₀ s.order) (Reads env db₀ s s.order) p →
      Inv env db₀ ((s.begin (.op i (.put p))).goto i (.putOnline p)) := fun hc =>
    h.begin hp hop hnew rfl rfl (.putOnline hc) fun _ => .inl trivial
  simp only [resume]
  split
  · rename_i m hm
    split
    · rename_i hnil
      refine hbegin fun m' _ x hx => ?_
      simp [checkList, hnil, sorted] at hx
    · exact h.wait rfl (update_eq_self_iff.mpr hop.symm).symm rfl rfl rfl rfl
        (fun q hq => by rw [← mem_unique hp hq]; rfl) hnew (.putSnapshots hm)
  · rename_i hm
    refine hbegin fun m' hm' => ?_
    rw [← h.same.getManifest, hm] at hm'
    cases hm'

theorem resume_putSnapshots (hp : s.procs i = some (.putSnapshots p m)) :
    Inv env db₀ (s.resume env i (.putSnapshots p m)) := by
  obtain ⟨op, hop, hw, hnew⟩ := h.unbegun hp fun _ _ _ hst => by cases hst
  cases hw with
  | putSnapshots hm =>
    refine h.begin hp hop hnew rfl rfl (.putCheck (by rw [← h.same.getManifest]; exact hm) [] ?_
      fun x hx => by cases hx) fun _ => .inl trivial
    rw [← h.same.checkList]; rfl

theorem resume_putCheck
    (hp : s.procs i = some (.putCheck p m left)) (hok : ∀ x l, left = x :: l → s.Clear i x.agentId) :
    Inv env db₀ (s.resume env i (.putCheck p m left)) := by
  obtain ⟨pre, op, post, hs, hst, -⟩ := h.begun hp nofun
  cases hst with
  | putCheck hm passed hl hc =>
    cases left with
    | nil =>
      refine h.goto hs hp rfl (by simp) (.putOnline fun m' hm' x hx => ?_) (fun _ h => h)
        (fun h => h) fun _ ha hna => absurd ha hna
      rw [hm] at hm'
      cases hm'
      rw [hl, append_nil] at hx
      exact hc x hx
    | cons x left =>
      have hclear := h.clear hs (hok x left rfl)
      have hread := h.held_before (a := x.agentId) hs hp trivial (by simp) hclear
      -- the target passes, on the set it was seen with
      have hpass : Passes env p m x (held s.working x.agentId) →
          Inv env db₀ (s.goto i (.putCheck p m left)) := by
        intro hx
        refine h.goto hs hp rfl (by simp) (.putCheck hm (passed ++ [x]) (by simp [hl]) ?_)
          (fun _ h => h) (fun h => h) fun _ ha hna => absurd ha hna
        exact forall_mem_concat.2 ⟨hc, _, ⟨rfl, hclear⟩, by rw [← hread]; exact hx⟩
      simp only [resume]
      split
      · rename_i hmem
        exact hpass (.inl (mem_desiredModels.mp hmem))
      · split
        · rename_i hfit
          exact hpass (.inr hfit)
        · exact h.reject hs hp rfl (fun _ => trivial) _

theorem resume_putOnline (hp : s.procs i = some (.putOnline p)) :
    Inv env db₀ (s.resume env i (.putOnline p)) := by
  obtain ⟨pre, op, post, hs, hst, hch⟩ := h.begun hp nofun
  cases hst with
  | putOnline hc =>
    refine h.goto hs hp rfl (by simp) (.putOffline hc fun a ha => ?_) (fun _ h => h) (fun h => h)
      fun _ ha hna => absurd ha hna
    obtain ⟨x, hx, rfl⟩ := mem_map.mp ha
    exact h.registered_then hs (hch rfl) (registered_of_snapshots hx)

theorem resume_putOffline
    (hp : s.procs i = some (.putOffline p online)) (hok : s.Covers env p online) :
    Inv env db₀ (s.resume env i (.putOffline p online)) := by
  obtain ⟨pre, op, post, hs, hst, hch⟩ := h.begun hp nofun
  cases hst with
  | putOffline hc hfound =>
    refine h.goto hs hp rfl (by simp) (.putLoop hc (p.order.nodup _) fun a ha => ?_)
      (fun _ _ => trivial) nofun fun a _ hna => .inl ?_
    · rw [p.order.mem, mem_append, mem_append] at ha
      rcases ha with (ha | ha) | ha
      · exact .inr (hfound a ha)
      · obtain ⟨r, hr, rfl⟩ := mem_map.mp ha
        exact .inr (h.registered_then hs (hch rfl) ⟨r, (mem_filter.mp hr).1, rfl⟩)
      · exact .inl ha
    · -- an agent outside the walk is revoked, or nobody's
      change ¬ a ∈ p.order.iter _ at hna
      rw [p.order.mem, mem_append, mem_append, not_or, not_or] at hna
      funext v
      simp only [Op.effect, id]
      split
      · rfl
      rename_i hrev
      rw [if_neg hna.2, if_neg]
      intro hreg
      obtain ⟨r, hr, rfl⟩ := h.registered_now hs hreg
      have hlive : r.revokedAt = none := by
        rw [← not_isSome_iff_eq_none]
        intro hsome
        exact hrev ((h.revoked_iff pre _).mp ⟨r, hr, rfl, hsome⟩)
      rcases hok r hr hlive with hon | hoff
      · exact hna.1.1 hon
      · exact hna.1.2 (mem_map.mpr ⟨r, mem_filter.mpr ⟨hr, hoff⟩, rfl⟩)

omit h in
/-- The new set of a PUT is its effect, where set_assignments writes it. -/
theorem updated_effect (hcur : ∀ x, x ∈ current ↔ x ∈ v) (hrev : ¬ revoked db a)
    (hfound : a ∈ p.agentIds ∨ registered db a) :
    {x | x ∈ p.updated a current} = (Op.put p).effect env db a v := by
  ext x
  simp only [Op.effect, if_neg hrev, Put.updated, Set.mem_ofPred_eq]
  by_cases ha : a ∈ p.agentIds
  · rw [if_pos ha, if_pos ha, Set.mem_insert_iff]
    split
    · rename_i hm
      rw [hcur]
      exact ⟨.inr, fun h => h.elim (fun h => by rw [h]; exact (hcur _).mp hm) id⟩
    · rw [mem_append, mem_singleton, hcur, or_comm]
  · rw [if_neg ha, if_neg ha, if_pos (hfound.resolve_left ha)]
    simp [hcur]

theorem resume_putLoop (hclean : Clean db₀)
    (hp : s.procs i = some (.putLoop p todo)) (hok : ∀ a l, todo = a :: l → s.Clear i a) :
    Inv env db₀ (s.resume env i (.putLoop p todo)) := by
  obtain ⟨pre, op, post, hs, hst, -⟩ := h.begun hp nofun
  cases hst with
  | putLoop hc hnd hfound =>
    cases todo with
    | nil =>
      exact h.goto hs hp rfl (by simp) (.putReturned hc) (fun _ h => absurd h id) nofun nofun
    | cons a todo =>
      obtain ⟨hna, hnd'⟩ := nodup_cons.mp hnd
      have hclear := h.clear hs (hok a todo rfl)
      have hread := h.held_before (a := a) hs hp mem_cons_self (by simp) hclear
      have hloop : Stands env (view db₀ pre) (Reads env db₀ s pre) (.put p) (.putLoop p todo) :=
        .putLoop hc hnd' fun b hb => hfound b (mem_cons_of_mem _ hb)
      have hcur : ∀ x, x ∈ desiredModels a s.working ↔ x ∈ heldAfter env db₀ pre a := by
        intro x; rw [mem_desiredModels, hread]
      have hempty : revoked (view db₀ pre) a → heldAfter env db₀ pre a = ∅ := fun hr =>
        heldAfter_revoked hclean ((view_revoked _ _).mp hr)
      simp only [resume]
      split
      · rename_i hsame
        refine h.goto hs hp rfl (by simp) hloop (fun b hb => mem_cons_of_mem _ hb)
          nofun fun b hb hnb => ?_
        obtain rfl : b = a := (mem_cons.mp hb).resolve_right hnb
        refine .inr ⟨hclear, ?_⟩
        by_cases hr : revoked (view db₀ pre) b
        · rw [effect_revoked hr]; rfl
        · rw [← updated_effect hcur hr (hfound b mem_cons_self), hsame]
          ext x; exact hcur x
      · refine h.goto hs hp rfl (by rintro _ _ _ _ ⟨⟩; rfl) (.setting hloop rfl hna _ ⟨rfl, hclear⟩ ?_
          fun _ _ h => by cases h) ?_ nofun ?_
        · unfold written
          split
          · rename_i hr
            rw [effect_revoked hr, hempty hr]; rfl
          · rename_i hr
            rw [← updated_effect hcur hr (hfound a mem_cons_self)]
            ext x; simp [sorted]
        · rintro b (⟨rfl, -⟩ | hb)
          · exact mem_cons_self
          · exact mem_cons_of_mem _ hb
        · intro b hb hnb
          refine absurd ?_ hnb
          rcases mem_cons.mp hb with rfl | hb
          · exact .inl ⟨rfl, .inl rfl⟩
          · exact .inr hb

end

end

/-! ### The fit sweep -/

section
variable {f : Sweep} {modelId : String} {m : ModelManifest} {now : ℤ}

section
variable (h : Inv env db₀ s) {todo : List AgentSnapshot}
include h

theorem resume_fitManifest (hp : s.procs i = some (.fitManifest modelId now)) :
    Inv env db₀ (s.resume env i (.fitManifest modelId now)) := by
  obtain ⟨op, hop, hw, hnew⟩ := h.unbegun hp fun _ _ _ hst => by cases hst
  have hplain : ∀ q, s.procs i = some q → q.isSetting = false := fun q hq => by
    rw [← mem_unique hp hq]; rfl
  have hops : s.ops = update s.ops i (some op) :=
    (update_eq_self_iff.mpr hop.symm).symm
  simp only [resume]
  split
  · refine h.wait rfl hops ?_ rfl rfl rfl hplain hnew (.raised _ _)
    refine filter_eq_self.mpr fun e he => decide_eq_true fun hid => ?_
    obtain ⟨o, ho⟩ := mem_ids.mp (mem_filterMap.mpr ⟨e, he, hid⟩)
    exact hnew o ho
  · rename_i m hm
    cases hw
    exact h.wait rfl hops rfl rfl rfl rfl hplain hnew (.fitSnapshots hm)

theorem resume_fitSnapshots (hp : s.procs i = some (.fitSnapshots modelId m now)) :
    Inv env db₀ (s.resume env i (.fitSnapshots modelId m now)) := by
  obtain ⟨op, hop, hw, hnew⟩ := h.unbegun hp fun _ _ _ hst => by cases hst
  cases hw with
  | fitSnapshots hm =>
    have hmem : ∀ x, x ∈ sweepList env s.working now ↔ x ∈ snapshots env.cfg (view db₀ s.order) now := by
      intro x; rw [h.same.sweepList, sweepList, mem_mergeSort]
    refine h.begin hp hop hnew rfl rfl
      (Stands.fitLoop (f := { modelId := modelId, manifest := m, now := now })
        (by rw [← h.same.getManifest]; exact hm) (sweepList_nodup h.keyed)
        fun x hx => (hmem x).mp hx) fun a => ?_
    by_cases ha : a ∈ (sweepList env s.working now).map (·.agentId)
    · exact .inl ha
    refine .inr (.inl ?_)
    funext v
    simp only [Op.effect, id]
    rw [if_neg]
    rintro ⟨-, -, m', -, x, hx, rfl, -⟩
    exact ha (mem_map_of_mem ((hmem x).mpr hx))

omit h in
/-- The effect of a sweep on an agent it walks. -/
theorem fit_effect
    (hk : Table.Keyed AgentRow.agentId db.agents) (hm : getManifest env db modelId = some m)
    (hx : x ∈ snapshots env.cfg db now) : ((v ≠ ∅ ∨ (modelFit m (env.capacity x)).fits = false) →
      (Op.fit modelId now).effect env db x.agentId v = v) ∧
    (v = ∅ → (modelFit m (env.capacity x)).fits = true → ¬ revoked db x.agentId →
      (Op.fit modelId now).effect env db x.agentId v = {modelId}) := by
  constructor
  · intro hno
    simp only [Op.effect]
    rw [if_neg]
    rintro ⟨-, hv, m', hm', y, hy, hid, hfit⟩
    rw [hm] at hm'
    cases hm'
    rw [snapshots_unique hk hy hx hid] at hfit
    rcases hno with hno | hno
    · exact hno hv
    · rw [hno] at hfit; cases hfit
  · intro hv hfit hrev
    simp only [Op.effect]
    rw [if_pos ⟨hrev, hv, m, hm, x, hx, rfl, hfit⟩]

theorem resume_fitLoop
    (hp : s.procs i = some (.fitLoop f todo)) (hok : ∀ x l, todo = x :: l → s.Clear i x.agentId) :
    Inv env db₀ (s.resume env i (.fitLoop f todo)) := by
  obtain ⟨pre, op, post, hs, hst, -⟩ := h.begun hp nofun
  cases hst with
  | @fitLoop _ _ now hm hnd hfound =>
    cases todo with
    | nil =>
      exact h.goto hs hp rfl (by simp) (.fitOffline hm) (fun _ h => absurd h id) nofun nofun
    | cons x todo =>
      rw [map_cons, nodup_cons] at hnd
      have hfound' : ∀ y ∈ todo, y ∈ snapshots env.cfg (view db₀ pre) now :=
        fun y hy => hfound y (mem_cons_of_mem _ hy)
      have hclear := h.clear hs (hok x todo rfl)
      have hhead : (Pc.fitLoop f (x :: todo)).Ahead x.agentId := mem_cons_self
      have hread := h.held_before hs hp hhead (by simp) hclear
      have hk : Table.Keyed AgentRow.agentId (view db₀ pre).agents := by
        refine keyed_of_view (.op i (.fit f.modelId now) :: post) ?_
        rw [← view_append, ← hs, ← h.same.agents]; exact h.keyed
      obtain ⟨hkeep, hwrite⟩ := fit_effect (v := heldAfter env db₀ pre x.agentId) hk hm
        (hfound x mem_cons_self)
      -- the agent is left alone, whatever is reported
      have hskip : ∀ f' : Sweep, f'.modelId = f.modelId → f'.manifest = f.manifest →
          (heldAfter env db₀ pre x.agentId ≠ ∅ ∨
            (modelFit f.manifest (env.capacity x)).fits = false) →
          Inv env db₀ (s.goto i (.fitLoop f' todo)) := by
        intro f' hid hman hno
        have hloop : Stands env (view db₀ pre) (Reads env db₀ s pre) (.fit f'.modelId now)
            (.fitLoop f' todo) := .fitLoop (by rw [hid, hman]; exact hm) hnd.2 hfound'
        rw [hid] at hloop
        refine h.goto hs hp rfl (by simp) hloop (fun b hb => mem_cons_of_mem _ hb)
          nofun fun b hb hnb => ?_
        obtain rfl : b = x.agentId := (mem_cons.mp hb).resolve_right hnb
        exact .inr ⟨hclear, hkeep hno⟩
      simp only [resume]
      split
      · rename_i hmem
        refine hskip _ rfl rfl (.inl ?_)
        rw [← hread]
        exact Set.nonempty_iff_ne_empty.mp ⟨_, mem_desiredModels.mp hmem⟩
      · split
        · rename_i hne
          refine hskip _ rfl rfl (.inl ?_)
          rw [← hread]
          exact fun he => hne (desiredModels_eq_nil.mpr he)
        · rename_i hnil
          rw [not_not, desiredModels_eq_nil, hread] at hnil
          split
          · rename_i hfit
            exact hskip _ rfl rfl (.inr (by simpa using hfit))
          · rename_i hfit
            have hfit : (modelFit f.manifest (env.capacity x)).fits = true := by simpa using hfit
            refine h.goto hs hp rfl (by rintro _ _ _ _ ⟨⟩; rfl) (.setting (.fitReread hm hnd.2 hfound')
              rfl hnd.1 _ ⟨rfl, hclear⟩ ?_ fun _ _ h => by cases h) ?_ nofun ?_
            · unfold written
              split
              · rename_i hr
                rw [effect_revoked hr, hnil]; rfl
              · rename_i hr
                rw [hwrite hnil hfit hr]
                ext y; simp
            · rintro b (⟨rfl, -⟩ | hb)
              · exact mem_cons_self
              · exact mem_cons_of_mem _ hb
            · intro b hb hnb
              refine absurd ?_ hnb
              rcases mem_cons.mp hb with rfl | hb
              · exact .inl ⟨rfl, .inl rfl⟩
              · exact .inr hb

theorem resume_fitReread (hp : s.procs i = some (.fitReread f a todo)) :
    Inv env db₀ (s.resume env i (.fitReread f a todo)) := by
  obtain ⟨pre, op, post, hs, hst, -⟩ := h.begun hp nofun
  cases hst with
  | @fitReread _ _ _ now hm hnd hfound =>
    have hnext : ∀ f' : Sweep, f'.modelId = f.modelId → f'.manifest = f.manifest →
        Inv env db₀ (s.goto i (.fitLoop f' todo)) := by
      intro f' hid hman
      have hloop : Stands env (view db₀ pre) (Reads env db₀ s pre) (.fit f'.modelId now)
          (.fitLoop f' todo) := .fitLoop (by rw [hid, hman]; exact hm) hnd hfound
      rw [hid] at hloop
      exact h.goto hs hp rfl (by simp) hloop (fun _ h => h) nofun fun _ ha hna => absurd ha hna
    simp only [resume]
    split <;> exact hnext _ rfl rfl

theorem resume_fitOffline
    (hp : s.procs i = some (.fitOffline f l)) : Inv env db₀ (s.resume env i (.fitOffline f l)) := by
  obtain ⟨pre, op, post, hs, hst, -⟩ := h.begun hp nofun
  cases hst with
  | fitOffline hm =>
    exact h.goto hs hp rfl (by simp) (.fitReturned hm) (fun _ h => absurd h id)
      nofun fun _ ha => absurd ha id

end

end

/-! ### Placement after an enrolment -/

section
variable {caps : DeviceCaps}

/-- A sole effect. -/
theorem auto_effect_ne (h : b ≠ a) : (Op.autoAssign a caps).effect env db b = id := by
  funext v
  simp [Op.effect, h]

theorem resume_autoDesired (h : Inv env db₀ s) (hp : s.procs i = some (.autoDesired a caps))
    (hok : s.Clear i a) : Inv env db₀ (s.resume env i (.autoDesired a caps)) := by
  obtain ⟨op, hop, hw, hnew⟩ := h.unbegun hp fun _ _ _ hst => by cases hst
  obtain rfl : op = .autoAssign a caps := by cases hw; rfl
  have hclear : ∀ j o, .op j o ∈ s.order → ¬ s.Ahead j a := by
    rw [State.Clear, before_of_not_mem hnew] at hok; exact hok
  simp only [resume]
  split
  · rename_i hne
    refine h.begin hp hop hnew rfl rfl .autoReturned fun b => ?_
    by_cases hb : b = a
    · subst hb
      refine .inr (.inr ⟨hclear, ?_⟩)
      have hv : held s.working b ≠ ∅ := fun he => hne (desiredModels_eq_nil.mpr he)
      simp [Op.effect, hv]
    · exact .inr (.inl (auto_effect_ne hb))
  · rename_i hnil
    rw [not_not, desiredModels_eq_nil] at hnil
    have hnone : ∀ j ms next, s.procs j ≠ some (.setting a ms .insert next) := by
      intro j ms next hj
      obtain ⟨pre, o, post, hs⟩ := h.setting_place hj
      exact hclear j o (by rw [hs]; simp) ⟨_, hj, .inl ⟨rfl, .inr (.inr rfl)⟩⟩
    have hread : heldAfter env db₀ s.order a = ∅ := by
      rw [← hnil, h.table a hnone, value_serial (not_ahead_updates hclear)]; rfl
    refine h.begin hp hop hnew rfl rfl (.autoModels ⟨hread, hclear⟩) fun b => ?_
    by_cases hb : b = a
    · exact .inl hb
    · exact .inr (.inl (auto_effect_ne hb))

theorem resume_autoModels (h : Inv env db₀ s) (hp : s.procs i = some (.autoModels a caps)) :
    Inv env db₀ (s.resume env i (.autoModels a caps)) := by
  obtain ⟨pre, op, post, hs, hst, -⟩ := h.begun hp (by rintro _ ⟨⟩)
  cases hst with
  | autoModels hr =>
    have hlist : listModels env s.working = listModels env (view db₀ pre) := by
      rw [listModels, listModels, h.models_eq pre]
    simp only [resume, hlist]
    split
    · rename_i hsel
      refine h.goto hs hp rfl (by simp) .autoReturned (fun _ h => absurd h id) (by rintro ⟨⟩)
        fun b hb _ => ?_
      obtain rfl : b = a := hb
      refine .inr ⟨hr.2, ?_⟩
      rw [hr.1]
      simp [Op.effect, hsel]
    · rename_i chosen hsel
      refine h.goto hs hp rfl (by rintro _ _ _ _ ⟨⟩; rfl) (.setting .autoReturned rfl id ∅ hr ?_
        fun _ _ _ => rfl) ?_ (by rintro ⟨⟩) ?_
      · unfold written
        split
        · rename_i hrev
          rw [effect_revoked hrev]; rfl
        · rename_i hrev
          simp only [Op.effect, hrev, not_false_eq_true, and_self, if_true, hsel]
          ext y; simp
      · rintro b (⟨rfl, -⟩ | hb)
        · rfl
        · exact absurd hb id
      · rintro b rfl hnb
        exact absurd (.inl ⟨rfl, .inl rfl⟩) hnb

end

/-! ### Every step -/

theorem resume (h : Inv env db₀ s) (hclean : Clean db₀) (hp : s.procs i = some pc)
    (hok : s.Undisturbed env (.run i)) : Inv env db₀ (s.resume env i pc) := by
  obtain ⟨hclear, hcovers⟩ := hok pc hp
  cases pc with
  | putManifest p => exact h.resume_putManifest hp
  | putSnapshots p m => exact h.resume_putSnapshots hp
  | putCheck p m left =>
    exact h.resume_putCheck hp fun x l hl => hclear _ (by rw [hl]; rfl)
  | putOnline p => exact h.resume_putOnline hp
  | putOffline p online => exact h.resume_putOffline hp (hcovers p online rfl)
  | putLoop p todo => exact h.resume_putLoop hclean hp fun a l hl => hclear _ (by rw [hl]; rfl)
  | fitManifest modelId now => exact h.resume_fitManifest hp
  | fitSnapshots modelId m now => exact h.resume_fitSnapshots hp
  | fitLoop f todo => exact h.resume_fitLoop hp fun x l hl => hclear _ (by rw [hl]; rfl)
  | fitReread f a todo => exact h.resume_fitReread hp
  | fitOffline f l => exact h.resume_fitOffline hp
  | autoDesired a caps => exact h.resume_autoDesired hp (hclear a rfl)
  | autoModels a caps => exact h.resume_autoModels hp
  | returned resp => exact h
  | raised e => exact h
  | setting a ms stage next =>
    cases stage with
    | acquire =>
      simp only [State.resume, State.set]
      split
      · exact h
      · rename_i hl
        exact h.set_acquire hp (not_isSome_iff_eq_none.mp hl) ⟨rfl, rfl, rfl⟩ rfl rfl rfl
    | delete => exact h.set_delete hp ⟨rfl, rfl, rfl⟩ rfl rfl
    | insert => exact h.set_insert hp ⟨rfl, rfl, rfl⟩ rfl rfl
    | commit => exact h.set_commit hp ⟨rfl, rfl, rfl⟩ rfl rfl rfl
    | release => exact h.set_release hp ⟨rfl, rfl, rfl⟩ rfl rfl rfl

/-- INVARIANT: every undisturbed step keeps the order. -/
theorem step (h : Inv env db₀ s) (hclean : Clean db₀) (hok : s.Undisturbed env act) :
    Inv env db₀ (s.step env act) := by
  cases act with
  | spawn i op =>
    cases hp : s.procs i with
    | some pc => simp only [State.step, hp]; exact h
    | none =>
      have hw : Waits env s.working op op.start := by
        cases op with
        | put p => exact .putManifest p
        | fit modelId now => exact .fitManifest modelId now
        | autoAssign b caps => exact .autoDesired b caps
      simp only [State.step, hp]
      refine h.wait rfl rfl rfl rfl rfl rfl (fun q hq => ?_) (fun o hm => ?_) hw
      · rw [hp] at hq; cases hq
      · obtain ⟨pre, post, hs⟩ := append_of_mem hm
        obtain ⟨q, hq, -⟩ := h.order pre i o post hs
        rw [hp] at hq; cases hq
  | run i =>
    cases hp : s.procs i with
    | none => simp only [State.step, hp]; exact h
    | some pc => simp only [State.step, hp]; exact h.resume hclean hp hok
  | beat a hb now =>
    refine h.around rfl (keyed_run _ h.keyed) ⟨?_, h.same.models⟩ rfl fun row he => by cases he
    simp only [Write.run, Sql.updateAgents, Entry.onDb, h.same.agents]
  | enroll row =>
    simp only [State.step]
    split
    · exact h
    rename_i hfree
    refine h.around rfl ?_ ⟨?_, h.same.models⟩ rfl fun _ _ => hok
    · exact Table.keyed_append h.keyed (not_isSome_iff_eq_none.mp hfree)
    · simp only [Entry.onDb, h.same.agents]
  | commit =>
    exact { h with synced := fun _ => rfl }

/-- INVARIANT: over a whole run. -/
theorem reach (hk : Table.Keyed AgentRow.agentId db₀.agents) (hclean : Clean db₀)
    (hr : Reach (State.step env) (State.Undisturbed env) (State.start db₀) s) : Inv env db₀ s :=
  Reach.invariant (Inv env db₀) (Inv.start hk) (fun _ _ h hok => h.step hclean hok) hr

end Inv

end Fallow.App.Assign
