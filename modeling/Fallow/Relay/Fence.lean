import Fallow.Lib.Run
import Fallow.Relay.Broker

/-! The presence fence: after `invalidate_agent` returned with a generation, nothing older is left.

    Three places hold generations: the fence itself, the waiters and the live works. Every operation
    but three is calm, it can only drop waiters and works. `claim` and `offer` bring in generations
    that passed the fence, and `invalidate_agent` raises the fence and drops what lies below it, all
    in one locked section. So what a passed invalidation dropped never comes back, and an upload
    under an older generation finds no work to match. -/

namespace Fallow.Relay
open Lib Function List Option Broker

/-- A claim id in the registry names a work that is not terminal. -/
def Live (b : Broker) (c : ℕ) : Prop := ∃ w, b.heap[c]? = some w ∧ w.state.terminal = false

/-- An invalidation whose locked section has run: it returned, or is still closing streams. -/
def Passed (b : Broker) (f : String × ℤ) : Prop :=
  f ∈ b.completed ∨ ∃ cs reason, Task.close cs reason (some f) ∈ b.tasks

/-- INVARIANT: works and waiters of an agent are at or above every invalidation that passed. -/
structure Fenced (b : Broker) : Prop where
  live : ∀ c ∈ b.works, Live b c
  fence : ∀ f, Passed b f → ∃ g, b.generation f.1 = some g ∧ f.2 ≤ g
  works : ∀ f, Passed b f → ∀ c ∈ b.works, ∀ w, b.heap[c]? = some w → w.agentId = f.1 →
    f.2 ≤ w.generation
  waiters : ∀ f, Passed b f → ∀ e ∈ b.waiters f.1, f.2 ≤ e.2

/-! ### Calm operations -/

/-- Waiters and works are only dropped, nobody's identity or generation changes, the fence stays. -/
structure Calm (b b' : Broker) : Prop where
  works : ∀ c ∈ b'.works, c ∈ b.works
  live : ∀ c ∈ b'.works, Live b c → Live b' c
  heap : ∀ (c : ℕ) (w' : Work), b'.heap[c]? = some w' →
    ∃ w : Work, b.heap[c]? = some w ∧ w'.agentId = w.agentId ∧ w'.generation = w.generation
  waiters : ∀ a, ∀ e ∈ b'.waiters a, e ∈ b.waiters a
  generation : b'.generation = b.generation
  passed : ∀ f, Passed b' f → Passed b f

theorem Calm.refl (b : Broker) : Calm b b :=
  ⟨fun _ h => h, fun _ _ h => h, fun _ w h => ⟨w, h, rfl, rfl⟩, fun _ _ h => h, rfl, fun _ h => h⟩

theorem Calm.trans (h₁ : Calm b₁ b₂) (h₂ : Calm b₂ b₃) : Calm b₁ b₃ := by
  refine ⟨fun c h => h₁.works c (h₂.works c h),
    fun c h hl => h₂.live c h (h₁.live c (h₂.works c h) hl), fun c w₃ h => ?_,
    fun a e h => h₁.waiters a e (h₂.waiters a e h), h₂.generation.trans h₁.generation,
    fun f h => h₁.passed f (h₂.passed f h)⟩
  obtain ⟨w₂, hw₂, ha₂, hg₂⟩ := h₂.heap c w₃ h
  obtain ⟨w₁, hw₁, ha₁, hg₁⟩ := h₁.heap c w₂ hw₂
  exact ⟨w₁, hw₁, ha₂.trans ha₁, hg₂.trans hg₁⟩

variable {b b' : Broker} {a agent : String} {go : Broker → Work → Broker × Except RelayError Unit}
  {w : Work} {c : ℕ}

/-- INVARIANT: a calm operation keeps the fence. -/
theorem Fenced.calm (h : Fenced b) (hc : Calm b b') : Fenced b' := by
  refine ⟨fun c hw => hc.live c hw (h.live c (hc.works c hw)), fun f hf => ?_, ?_, ?_⟩
  · rw [hc.generation]; exact h.fence f (hc.passed f hf)
  · intro f hf c hcw w' hw' ha
    obtain ⟨w, hw, hagent, hgen⟩ := hc.heap c w' hw'
    rw [hgen]
    exact h.works f (hc.passed f hf) c (hc.works c hcw) w hw (hagent.symm.trans ha)
  · intro f hf e he
    exact h.waiters f (hc.passed f hf) e (hc.waiters _ e he)

section
variable {b : Broker}

/-- Only claims, terminal records and calls of the past change. -/
theorem Calm.of_eq (hw : b'.works = b.works) (hh : b'.heap = b.heap)
    (hq : b'.waiters = b.waiters) (hg : b'.generation = b.generation)
    (hp : ∀ f, Passed b' f → Passed b f) : Calm b b' := by
  refine ⟨fun c h => hw ▸ h, fun c _ h => ?_, fun c w h => ⟨w, hh ▸ h, rfl, rfl⟩,
    fun a e h => hq ▸ h, hg, hp⟩
  unfold Live; rw [hh]; exact h

theorem calm_modifyFut (k : ℕ) (f : Fut → Fut) : Calm b (b.modifyFut k f) :=
  .of_eq rfl rfl rfl rfl fun _ h => h

theorem calm_setPhase (k : ℕ) (p : ClaimPhase) : Calm b (b.setPhase k p) :=
  .of_eq rfl rfl rfl rfl fun _ h => h

variable {c k : ℕ}

/-- A change of one work that keeps who it is and does not end it. -/
theorem calm_modifyWork (ha : ∀ w, (f w).agentId = w.agentId)
    (hg : ∀ w, (f w).generation = w.generation)
    (ht : ∀ w, w.state.terminal = false → (f w).state.terminal = false) :
    Calm b (b.modifyWork c f) := by
  refine ⟨fun _ h => h, fun d _ ⟨w, hw, hl⟩ => ?_, fun d w' hw' => ?_, fun _ _ h => h, rfl,
    fun _ h => h⟩
  · refine ⟨if c = d then f w else w, ?_, ?_⟩
    · simp [modifyWork, getElem?_modify, hw]
    · split
      · exact ht w hl
      · exact hl
  · simp only [modifyWork, getElem?_modify] at hw'
    obtain ⟨w, hw, he⟩ := map_eq_some_iff.mp hw'
    refine ⟨w, hw, ?_⟩
    rw [← he]
    split
    · exact ⟨ha w, hg w⟩
    · exact ⟨rfl, rfl⟩

/-- CORRECT: `_terminate` is calm, and a live work leaves the registry. -/
theorem calm_terminate (c : ℕ) (state : WorkState) (reason : Option String) :
    Calm b (b.terminate c state reason).1 := by
  unfold terminate
  split
  · exact .refl b
  split
  · exact .refl b
  refine ⟨fun d h => (mem_filter.mp h).1, fun d hd ⟨w, hw, hl⟩ => ?_, fun d w' hw' => ?_,
    fun _ _ h => h, rfl, fun _ h => h⟩
  · have hne : d ≠ c := of_decide_eq_true (mem_filter.mp hd).2
    exact ⟨w, by simp [hw, Ne.symm hne], hl⟩
  · simp only [getElem?_modify] at hw'
    obtain ⟨w, hw, he⟩ := map_eq_some_iff.mp hw'
    refine ⟨w, hw, ?_⟩
    rw [← he]
    split <;> exact ⟨rfl, rfl⟩

theorem not_mem_works_terminate (hl : c ∈ b.works → Live b c)
    : c ∉ (b.terminate c state reason).1.works := by
  unfold terminate
  intro hc
  split at hc
  · rename_i hnone
    obtain ⟨w, hw, -⟩ := hl hc
    rw [hnone] at hw; cases hw
  · rename_i w hw
    split at hc
    · rename_i ht
      obtain ⟨w', hw', hl'⟩ := hl hc
      rw [hw] at hw'
      rw [some.inj hw', hl'] at ht; cases ht
    · simp at hc

theorem calm_settle : Calm b (b.settle cs reason none) := by
  unfold settle
  split
  · exact .of_eq rfl rfl rfl rfl fun f h => by simpa [Passed] using h
  · refine .of_eq rfl rfl rfl rfl fun f h => ?_
    simpa [Passed] using h

/-- Terminate and close: how every call that ends a claim goes on. -/
theorem calm_end (c : ℕ) (state : WorkState) (reason : Option String) (close : String) :
    Calm b (((b.terminate c state reason).1).settle (b.terminate c state reason).2 close none) :=
  (calm_terminate c state reason).trans calm_settle

theorem calm_waiters (h : ∀ e ∈ l, e ∈ b.waiters a) :
    Calm b { b with waiters := update b.waiters a l } := by
  refine ⟨fun _ h => h, fun _ _ h => h, fun _ w h => ⟨w, h, rfl, rfl⟩, fun a' e he => ?_, rfl,
    fun _ h => h⟩
  change e ∈ update b.waiters a l a' at he
  by_cases ha : a' = a
  · rw [ha, update_self] at he
    rw [ha]; exact h e he
  · rwa [update_of_ne ha] at he

theorem calm_resume : Calm b (b.resume k) := by
  unfold resume
  split
  · exact calm_setPhase _ _
  · exact .refl b

theorem calm_giveUp : Calm b (b.giveUp k) := by
  unfold giveUp
  split
  · exact (calm_modifyFut _ _).trans (calm_setPhase _ _)
  · exact .refl b

theorem calm_abandonWaiter : Calm b (b.abandonWaiter k) := by
  unfold abandonWaiter
  split
  · rename_i a _ fut _
    have hdrop := (calm_waiters (a := a) (l := (b.waiters a).filter (·.1 ≠ k))
      fun e he => (mem_filter.mp he).1).trans (calm_setPhase k (.returned none))
    cases fut with
    | result c => exact hdrop.trans (calm_end ..)
    | pending => exact hdrop.trans (calm_modifyFut ..)
    | cancelled => exact hdrop
  · exact .refl b

variable {agent : String} {g now : ℤ} {chunk : Bytes} {n : ℕ}

theorem calm_upload (hgo : ∀ b w, Calm b (go b w).1) : Calm b (b.upload agent c g now go).1 := by
  have hlate : ∀ w, Calm b (b.expireIfLate c w now).1 := by
    intro w
    unfold expireIfLate
    split
    · exact calm_terminate ..
    · exact .refl b
  unfold upload
  split
  · exact .refl b
  rename_i w _
  dsimp only
  split
  · exact (hlate w).trans (hgo _ w)
  · exact (hlate w).trans calm_settle

theorem calm_startResponse : Calm b (b.startResponse agent c g status contentType now).1 := by
  refine calm_upload fun b w => ?_
  split
  · exact .refl b
  · exact calm_modifyWork (by intro _; rfl) (by intro _; rfl) (by intro _ _; rfl)

/-- A task that is no invalidation. -/
theorem calm_addTask (ht : ∀ cs reason f, t ≠ .close cs reason (some f)) :
    Calm b { b with tasks := b.tasks ++ [t] } := by
  refine .of_eq rfl rfl rfl rfl fun f h => h.imp_right ?_
  rintro ⟨cs, reason, hm⟩
  rcases mem_concat.1 hm with hm | hm
  · exact ⟨cs, reason, hm⟩
  · exact absurd hm.symm (ht cs reason f)

theorem calm_write : Calm b (b.write agent c g chunk now).1 := by
  unfold write
  split
  · exact .refl b
  refine calm_upload fun b w => ?_
  split
  · exact .refl b
  · split
    · exact .refl b
    · exact calm_addTask (by intro _ _ _ h; cases h)

theorem calm_finish : Calm b (b.finish agent c g now).1 := by
  refine calm_upload fun b w => ?_
  split
  · exact .refl b
  · exact calm_end ..

theorem calm_fail : Calm b (b.fail agent c g code now).1 := by
  unfold fail
  split
  · exact .refl b
  · exact calm_upload fun b w => calm_end ..

theorem calm_disconnect : Calm b (b.disconnect c) := calm_end ..

theorem calm_read : Calm b (b.read c) :=
  calm_modifyWork (by intro _; rfl) (by intro _; rfl) (fun _ h => h)

/-- Tasks that go, or turn into one that is no invalidation. -/
theorem calm_tasks
    (h : ∀ t ∈ ts, t ∈ b.tasks ∨ ∀ cs reason f, t ≠ .close cs reason (some f)) :
    Calm b { b with tasks := ts } := by
  refine .of_eq rfl rfl rfl rfl fun f hp => hp.imp_right ?_
  rintro ⟨cs, reason, hm⟩
  exact ⟨cs, reason, (h _ hm).resolve_right fun hn => hn cs reason f rfl⟩

theorem calm_eraseTask (n : ℕ) : Calm b { b with tasks := b.tasks.eraseIdx n } :=
  calm_tasks fun _ ht => .inl (mem_of_mem_eraseIdx ht)

theorem calm_runWrite : Calm b (b.runWrite n c chunk deadline now) := by
  unfold runWrite
  split
  · exact .refl b
  split
  · exact calm_eraseTask n
  split
  · refine calm_tasks fun t ht => ?_
    rcases mem_or_eq_of_mem_set ht with ht | rfl
    · exact .inl ht
    · exact .inr (by intro _ _ _ h; cases h)
  split
  · exact .refl b
  · exact (calm_eraseTask n).trans
      (calm_modifyWork (by intro _; rfl) (by intro _; rfl) (fun _ h => h))

theorem calm_runExpire : Calm b (b.runExpire n c) := by
  unfold runExpire
  dsimp only
  split
  · exact (calm_eraseTask n).trans (calm_end ..)
  · exact calm_eraseTask n

variable {cs : List ℕ} {reason : String} {fence : Option (String × ℤ)}

/-- An invalidation still closing streams has passed already, and so has one that is done. -/
theorem calm_endTask (hmem : Task.close cs reason fence ∈ b.tasks) (n : ℕ) :
    Calm b { b with tasks := b.tasks.eraseIdx n, completed := b.completed ++ fence.toList } := by
  refine .of_eq rfl rfl rfl rfl fun f hp => ?_
  rcases hp with hp | ⟨cs', reason', hm⟩
  · rcases mem_append.mp hp with hp | hp
    · exact .inl hp
    · rw [mem_toList] at hp
      exact .inr ⟨cs, reason, hp ▸ hmem⟩
  · exact .inr ⟨cs', reason', mem_of_mem_eraseIdx hm⟩

theorem calm_nextClose (hmem : Task.close cs reason fence ∈ b.tasks) (n : ℕ) (cs' : List ℕ) :
    Calm b { b with tasks := b.tasks.set n (.close cs' reason fence) } := by
  refine .of_eq rfl rfl rfl rfl fun f hp => hp.imp_right ?_
  rintro ⟨cs'', reason', hm⟩
  rcases mem_or_eq_of_mem_set hm with hm | hm
  · exact ⟨cs'', reason', hm⟩
  · cases hm; exact ⟨_, _, hmem⟩

theorem calm_runClose
    (ht : b.tasks[n]? = some (.close cs reason fence)) : Calm b (b.runClose n cs reason fence) := by
  have hmem : Task.close cs reason fence ∈ b.tasks := mem_of_getElem? ht
  unfold runClose
  cases cs with
  | nil => exact calm_endTask hmem n
  | cons c cs =>
    have hclose : Calm b (b.modifyWork c fun w => { w with stream := w.stream.close reason }) :=
      calm_modifyWork (by intro _; rfl) (by intro _; rfl) (fun _ h => h)
    dsimp only
    split
    · exact hclose.trans (calm_endTask (b := b.modifyWork c _) hmem n)
    · exact hclose.trans (calm_nextClose (b := b.modifyWork c _) hmem n cs)

theorem calm_runTask : Calm b (b.runTask n now) := by
  unfold runTask
  split
  · exact .refl b
  · exact calm_runWrite
  · exact calm_runExpire
  · rename_i ht; exact calm_runClose ht

/-! ### Claims and offers -/

/-- Raising a fence takes nothing away. -/
theorem Fenced.raise (h : Fenced b) (a : String) (newer : ℤ) : Fenced { b with
      generation := update b.generation a
        (some (max ((b.generation a).getD 0) newer)) } := by
  refine ⟨h.live, fun f hf => ?_, h.works, h.waiters⟩
  obtain ⟨g₀, hg₀, hle⟩ := h.fence f hf
  by_cases ha : f.1 = a
  · refine ⟨max g₀ newer, ?_, Int.le_trans hle (Int.le_max_left ..)⟩
    change update b.generation a _ f.1 = _
    rw [ha, update_self, ← ha, hg₀]; rfl
  · refine ⟨g₀, ?_, hle⟩
    change update b.generation a _ f.1 = _
    rw [update_of_ne ha, hg₀]

theorem Fenced.claim (h : Fenced b) (a : String) (g : ℤ) : Fenced (b.claim a g).1 := by
  unfold Broker.claim
  dsimp only
  split
  · exact h
  rename_i hpass
  refine ⟨h.live, (h.raise a g).fence, h.works, fun f hf e he => ?_⟩
  change e ∈ update b.waiters a _ f.1 at he
  by_cases ha : f.1 = a
  · rw [ha, update_self] at he
    rcases mem_concat.mp he with he | rfl
    · exact h.waiters f hf e (ha ▸ he)
    -- the new waiter passed the fence
    obtain ⟨g₀, hg₀, hle⟩ := h.fence f hf
    rw [ha] at hg₀
    rw [hg₀, getD_some] at hpass
    exact Int.le_trans hle (Int.not_lt.mp hpass)
  · rw [update_of_ne ha] at he
    exact h.waiters f hf e he

theorem Live.lt_length (h : Live b c) : c < b.heap.length := by
  obtain ⟨w, hw, -⟩ := h
  exact (List.getElem?_eq_some_iff.mp hw).1

/-- A new work at a generation no passed invalidation of its agent exceeds. -/
theorem Fenced.addWork (h : Fenced b) (hstate : w.state.terminal = false)
    (hgen : ∀ f, Passed b f → w.agentId = f.1 → f.2 ≤ w.generation) :
    Fenced { b with heap := b.heap ++ [w], works := b.works ++ [b.heap.length] } := by
  have hold : ∀ c ∈ b.works, (b.heap ++ [w])[c]? = b.heap[c]? :=
    fun c hc => getElem?_append_left (h.live c hc).lt_length
  refine ⟨fun c hc => ?_, h.fence, fun f hf c hc w' hw' ha => ?_, h.waiters⟩
  · rcases mem_concat.1 hc with hc | rfl
    · obtain ⟨w₀, hw₀, hl⟩ := h.live c hc
      exact ⟨w₀, (hold c hc).trans hw₀, hl⟩
    · exact ⟨w, getElem?_concat_length .., hstate⟩
  · rcases mem_concat.1 hc with hc | rfl
    · exact h.works f hf c hc w' ((hold c hc).symm.trans hw') ha
    · have hw : w = w' := some.inj ((getElem?_concat_length ..).symm.trans hw')
      rw [← hw] at ha ⊢
      exact hgen f hf ha

theorem Fenced.offer (h : Fenced b) (a : String) (port : ℕ) (request : RelayRequest)
    (deadline : ℤ) : Fenced (b.offer a port request deadline).1 := by
  unfold Broker.offer
  split
  · exact h
  split
  · exact h
  split
  · exact h.calm (calm_waiters fun e he => absurd he (by simp))
  rename_i k g slots hdrop
  have hmem : ∀ e ∈ (k, g) :: slots, e ∈ b.waiters a := by
    intro e he
    rw [← hdrop] at he
    exact (dropWhile_suffix _).subset he
  have hpop : Calm b { b with waiters := update b.waiters a slots } :=
    calm_waiters fun e he => hmem e (mem_cons_of_mem _ he)
  dsimp only
  split
  · exact h.calm (hpop.trans (calm_modifyFut ..))
  have hadd := (h.calm hpop).addWork
    (w := { agentId := a, replicaPort := port, request := request, deadline := deadline,
            generation := g, stream := .new b.maxBuffer }) rfl fun f hf ha =>
      h.waiters f (hpop.passed f hf) (k, g) (ha ▸ hmem _ mem_cons_self)
  exact hadd.calm (calm_modifyFut k fun _ => .result b.heap.length)

/-! ### Invalidation -/

theorem calm_terminateAll (reason : String) : ∀ (cs : List ℕ) (b : Broker),
    Calm b (terminateAll reason cs b).1
  | [], b => .refl b
  | c :: cs, _ => (calm_terminate c _ _).trans (calm_terminateAll reason cs _)

theorem not_mem_works_terminateAll (reason : String) : ∀ (cs : List ℕ) {b : Broker},
    (∀ c ∈ b.works, Live b c) → ∀ c ∈ (terminateAll reason cs b).1.works, c ∉ cs
  | [], _, _, _, _ => not_mem_nil
  | c :: cs, b, hl, d, hd => by
    have hc := calm_terminate (b := b) c .invalid (some reason)
    have hrest := calm_terminateAll reason cs (b.terminate c .invalid (some reason)).1
    rintro hmem
    rcases mem_cons.mp hmem with rfl | hmem
    · exact not_mem_works_terminate (hl d) (hrest.works d hd)
    · exact not_mem_works_terminateAll reason cs
        (fun c' hc' => hc.live c' hc' (hl c' (hc.works c' hc'))) d hd hmem

theorem calm_cancelAll : ∀ (ks : List ℕ) (b : Broker), Calm b (cancelAll ks b)
  | [], b => .refl b
  | k :: ks, _ => (calm_modifyFut k _).trans (calm_cancelAll ks _)

theorem waiters_cancelAll : ∀ (ks : List ℕ) (b : Broker),
    (cancelAll ks b).waiters = b.waiters
  | [], _ => rfl
  | k :: ks, b => waiters_cancelAll ks (b.modifyFut k Fut.cancel)

/-- The one new invalidation has passed once fence, works and waiters are at or above it. -/
theorem Fenced.settle (h : Fenced b) (hfence : ∃ g, b.generation a = some g ∧ newer ≤ g)
    (hworks : ∀ c ∈ b.works, ∀ w, b.heap[c]? = some w → w.agentId = a → newer ≤ w.generation)
    (hwaiters : ∀ e ∈ b.waiters a, newer ≤ e.2) (cs : List ℕ) (reason : String) :
    Fenced (b.settle cs reason (some (a, newer))) := by
  have hpassed : ∀ f, Passed (b.settle cs reason (some (a, newer))) f →
      Passed b f ∨ f = (a, newer) := by
    intro f hf
    unfold Broker.settle at hf
    split at hf
    · rcases hf with hf | hf
      · exact (mem_concat.1 hf).imp_left .inl
      · exact .inl (.inr hf)
    · rcases hf with hf | ⟨cs', reason', hm⟩
      · exact .inl (.inl hf)
      · rcases mem_concat.1 hm with hm | hm
        · exact .inl (.inr ⟨cs', reason', hm⟩)
        · cases hm; exact .inr rfl
  have hsame : (b.settle cs reason (some (a, newer))).works = b.works ∧
      (b.settle cs reason (some (a, newer))).heap = b.heap ∧
      (b.settle cs reason (some (a, newer))).generation = b.generation ∧
      (b.settle cs reason (some (a, newer))).waiters = b.waiters := by
    unfold Broker.settle; split <;> exact ⟨rfl, rfl, rfl, rfl⟩
  obtain ⟨hw, hh, hg, hq⟩ := hsame
  refine ⟨fun c hc => ?_, fun f hf => ?_, fun f hf c hc w hwc ha => ?_, fun f hf e he => ?_⟩
  · unfold Live; rw [hh]; exact h.live c (hw ▸ hc)
  · rw [hg]
    rcases hpassed f hf with hf | rfl
    · exact h.fence f hf
    · exact hfence
  · rw [hw] at hc
    rw [hh] at hwc
    rcases hpassed f hf with hf | rfl
    · exact h.works f hf c hc w hwc ha
    · exact hworks c hc w hwc ha
  · rw [hq] at he
    rcases hpassed f hf with hf | rfl
    · exact h.waiters f hf e he
    · exact hwaiters e he

theorem Fenced.invalidateAgent (h : Fenced b) (a : String) (newer : ℤ) (reason : String) :
    Fenced (b.invalidateAgent a newer reason) := by
  unfold Broker.invalidateAgent
  dsimp only
  have hraise := h.raise a newer
  have hg : update b.generation a (some (max ((b.generation a).getD 0) newer)) a
      = some (max ((b.generation a).getD 0) newer) := update_self ..
  generalize hb₁ : ({ b with
      generation := update b.generation a
        (some (max ((b.generation a).getD 0) newer)) } : Broker) = b₁ at hraise ⊢
  have hterm := calm_terminateAll reason (b₁.outdated a newer) b₁
  have hgone := not_mem_works_terminateAll reason (b₁.outdated a newer) hraise.live
  generalize (terminateAll reason (b₁.outdated a newer) b₁) = t at hterm hgone ⊢
  have hdrop : Calm t.1 (cancelAll
      (((t.1.waiters a).filter fun e => decide (e.2 < newer)).map (·.1))
      { t.1 with
        waiters := update t.1.waiters a
          ((t.1.waiters a).filter fun e => ¬ e.2 < newer) }) :=
    (calm_waiters fun e he => (mem_filter.mp he).1).trans (calm_cancelAll _ _)
  have hcalm := hterm.trans hdrop
  refine (hraise.calm hcalm).settle ?_ ?_ ?_ _ _
  · rw [hcalm.generation, ← hb₁]
    exact ⟨_, hg, Int.le_max_right ..⟩
  · intro c hc w hw hagent
    obtain ⟨w₁, hw₁, ha₁, hg₁⟩ := hcalm.heap c w hw
    rw [hg₁]
    by_contra hlt
    refine hgone c (hdrop.works c hc) (mem_filter.mpr ⟨hcalm.works c hc, ?_⟩)
    rw [hw₁]
    simp [← ha₁, hagent, Int.not_le.mp hlt]
  · intro e he
    rw [waiters_cancelAll] at he
    change e ∈ update t.1.waiters a _ a at he
    rw [update_self] at he
    simpa using (mem_filter.mp he).2

/-- INVARIANT: every step keeps the fence. -/
theorem Fenced.step (h : Fenced b) (act : Act) : Fenced (Relay.step b act) := by
  cases act with
  | offer a port request deadline => exact h.offer a port request deadline
  | claim a g => exact h.claim a g
  | invalidateAgent a newer reason => exact h.invalidateAgent a newer reason
  | resume k => exact h.calm calm_resume
  | giveUp k => exact h.calm calm_giveUp
  | abandonWaiter k => exact h.calm calm_abandonWaiter
  | startResponse => exact h.calm calm_startResponse
  | write => exact h.calm calm_write
  | finish => exact h.calm calm_finish
  | fail => exact h.calm calm_fail
  | disconnect c => exact h.calm calm_disconnect
  | read c => exact h.calm calm_read
  | runTask n now => exact h.calm calm_runTask

end

/-! ### Runs -/

/-- The largest generation of the agent's invalidations that have returned. -/
def fenceOf (b : Broker) (a : String) : Option ℤ := ((b.completed.filter (·.1 = a)).map (·.2)).max?

theorem mem_completed_of_fenceOf (h : fenceOf b a = some G) : (a, G) ∈ b.completed := by
  obtain ⟨f, hf, rfl⟩ := mem_map.mp (max?_mem h)
  obtain ⟨hm, ha⟩ := mem_filter.mp hf
  rw [← of_decide_eq_true ha]; exact hm

/-- An upload that is answered with an error and changes nothing. -/
def Refused (b : Broker) (r : Broker × Except RelayError Unit) : Prop := ∃ e, r = (b, .error e)

/-- What the fence of `a` at `G` guarantees. -/
structure Upheld (b : Broker) (a : String) (G : ℤ) : Prop where
  works : ∀ c ∈ b.works, ∀ w, b.heap[c]? = some w → w.agentId = a → ¬ w.generation < G
  waiters : ∀ e ∈ b.waiters a, ¬ e.2 < G
  uploads : ∀ c w g, b.heap[c]? = some w → w.agentId = a → g < G → ∀ (agent : String) (now : ℤ),
    (∀ status contentType, Refused b (b.startResponse agent c g status contentType now)) ∧
    (∀ chunk, Refused b (b.write agent c g chunk now)) ∧ Refused b (b.finish agent c g now)

/-- No work of the agent matches a generation below its fence. -/
theorem check_below
    (hworks : ∀ c ∈ b.works, ∀ w, b.heap[c]? = some w → w.agentId = a → ¬ w.generation < G)
    (hw : b.heap[c]? = some w) (ha : w.agentId = a) (hg : g < G) :
    ∃ e, b.check agent c g = .error e := by
  unfold check
  by_cases hc : c ∈ b.works
  · have hne : w.generation ≠ g := by
      have := hworks c hc w hw ha
      omega
    rw [if_pos hc, hw]
    dsimp only
    split <;> exact ⟨_, rfl⟩
  · rw [if_neg hc]
    dsimp only
    split <;> exact ⟨_, rfl⟩

theorem refused_upload (h : b.check agent c g = .error e) :
    Refused b (b.upload agent c g now go) := by
  unfold upload
  rw [h]; exact ⟨e, rfl⟩

theorem fenced_fresh (maxBuffer : ℕ) : Fenced { maxBuffer := maxBuffer } := by
  refine ⟨?_, ?_, ?_, ?_⟩
  · intro c hc; exact absurd hc (by simp)
  · rintro f (hf | ⟨_, _, hf⟩)
    · exact absurd hf (by simp)
    · exact absurd hf (by simp)
  · intro f _ c hc; exact absurd hc (by simp)
  · intro f _ e he; exact absurd he (by simp)

/-- CORRECT: in every reachable state, after an invalidation at `G` returned, no live work and no
    waiter of the agent is older than `G`, and uploads under an older generation are refused. -/
theorem presence_fence (maxBuffer : ℕ) (acts : List Act) (a : String) (G : ℤ)
    (hG : fenceOf (runs step { maxBuffer := maxBuffer } acts) a = some G) :
    Upheld (runs step { maxBuffer := maxBuffer } acts) a G := by
  have h := runs_invariant Fenced (fun b act hb => hb.step act) acts _ (fenced_fresh maxBuffer)
  have hpassed : Passed _ (a, G) := .inl (mem_completed_of_fenceOf hG)
  have hworks : ∀ c ∈ (runs step { maxBuffer := maxBuffer } acts).works, ∀ w,
      (runs step { maxBuffer := maxBuffer } acts).heap[c]? = some w → w.agentId = a →
        ¬ w.generation < G := fun c hc w hw ha => Int.not_lt.mpr (h.works _ hpassed c hc w hw ha)
  refine ⟨hworks, fun e he => Int.not_lt.mpr (h.waiters _ hpassed e he), ?_⟩
  intro c w g hw ha hg agent now
  obtain ⟨e, he⟩ := check_below hworks hw ha hg
  refine ⟨fun _ _ => refused_upload he, fun chunk => ?_, refused_upload he⟩
  unfold write
  split
  · exact ⟨_, rfl⟩
  · exact refused_upload he

/-- A claim at generation 1 is served while the agent is invalidated at 2. -/
def returningUser : List Act :=
  [.claim "desk" 1, .offer "desk" 8001 {} 100, .claim "desk" 1, .invalidateAgent "desk" 2 "reclaimed",
   .runTask 0 5]

theorem presence_fence_returningUser :
    fenceOf (runs step { maxBuffer := 1024 } returningUser) "desk" = some 2 ∧
      Upheld (runs step { maxBuffer := 1024 } returningUser) "desk" 2 :=
  ⟨rfl, presence_fence 1024 returningUser "desk" 2 rfl⟩

end Fallow.Relay
