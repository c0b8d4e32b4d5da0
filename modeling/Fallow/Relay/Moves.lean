import Fallow.Lib.Run
import Fallow.Relay.Broker

/-! What the broker's operations are made of.

    Every locked section, and every step of a call that leaves the response streams alone, is a chain
    of a few moves: bookkeeping of waiters and fences, the life of one claim call, the birth and the
    end of one work, the start of its response, new tasks. An invariant is checked once per move and
    holds along every operation. `ok` says which tasks a chain may add. -/

namespace Fallow.Relay
open Function List Option Broker

inductive Move (ok : Task → Prop) (b : Broker) : Broker → Prop where
  | records (waiters : String → List (ℕ × ℤ)) (generation : String → Option ℤ)
      (completed : List (String × ℤ)) :
      Move ok b { b with waiters := waiters, generation := generation, completed := completed }
  | called (agentId : String) (g : ℤ) :
      Move ok b { b with claims := b.claims ++ [{ agentId := agentId, presenceGeneration := g }] }
  | cancel (k : ℕ) : Move ok b (b.modifyFut k Fut.cancel)
  | resumed {k c : ℕ} {call : ClaimCall} (hk : b.claims[k]? = some call) (hf : call.fut = .result c)
      (hp : call.phase = .waiting) : Move ok b (b.setPhase k (.returned (some c)))
  | gaveUp {k : ℕ} {call : ClaimCall} (hk : b.claims[k]? = some call) (hp : call.phase = .waiting)
      (hf : call.fut ≠ .pending) : Move ok b (b.setPhase k .abandoning)
  /-- a call that gave up leaves no live work behind -/
  | abandoned {k : ℕ} {call : ClaimCall} (hk : b.claims[k]? = some call)
      (hp : call.phase = .abandoning) (hf : call.fut ≠ .pending)
      (hd : ∀ c w, call.fut = .result c → b.heap[c]? = some w → w.state.terminal = true) :
      Move ok b (b.setPhase k (.returned none))
  | ended (c : ℕ) {state : WorkState} (reason : Option String) (hs : state.terminal = true) :
      Move ok b (b.terminate c state reason).1
  /-- a new work for a call whose future is still pending -/
  | offered {k : ℕ} {call : ClaimCall} {w : Work} (hk : b.claims[k]? = some call)
      (hf : call.fut = .pending) (hw : w.state = .claimed) (hs : w.stream = .new b.maxBuffer) :
      Move ok b ({ b with heap := b.heap ++ [w], works := b.works ++ [b.heap.length] }.modifyFut k
        fun _ => .result b.heap.length)
  | responded {c : ℕ} {w : Work} {f : Work → Work} (hw : b.heap[c]? = some w)
      (hst : w.state = .claimed) (hf : ∀ w, (f w).state = .responding)
      (hstream : ∀ w, (f w).stream = w.stream ∧ (f w).deadline = w.deadline) :
      Move ok b (b.modifyWork c f)
  | tasks {ts : List Task} (h : ∀ t ∈ ts, t ∈ b.tasks ∨ ok t) : Move ok b { b with tasks := ts }

/-- A chain of moves. -/
abbrev Moves (ok : Task → Prop) : Broker → Broker → Prop := Relation.ReflTransGen (Move ok)

section
variable {ok : Task → Prop} {b : Broker}

/-! ### Building blocks -/

/-- A list changed at one place, read at another. -/
theorem getElem?_modify_map {α : Type} {l : List α} {f : α → α} :
    (l.modify c f)[d]? = (l[d]?).map fun x => if c = d then f x else x := by
  rw [List.getElem?_modify, Option.map_eq_map]

variable {state : WorkState} {reason : Option String}

variable {c : ℕ} {w : Work}

/-- `_terminate` of a work that is terminal or unknown changes nothing. -/
theorem terminate_fst_of_nil
    (h : (b.terminate c state reason).2 = []) : (b.terminate c state reason).1 = b := by
  unfold terminate at h ⊢
  split at h
  · rfl
  · split at h
    · rename_i ht; rw [if_pos ht]
    · cases h

theorem terminate_snd :
    (b.terminate c state reason).2 = [] ∨ (b.terminate c state reason).2 = [c] := by
  unfold terminate
  split
  · exact .inl rfl
  · split
    · exact .inl rfl
    · exact .inr rfl

/-- After `_terminate` the work is terminal. -/
theorem terminal_of_terminate (hs : state.terminal = true)
    (hw : (b.terminate c state reason).1.heap[c]? = some w) : w.state.terminal = true := by
  unfold terminate at hw
  split at hw
  · rename_i hnone; rw [hnone] at hw; cases hw
  rename_i w₀ hw₀
  split at hw
  · rename_i ht
    rw [hw₀] at hw
    rw [← some.inj hw]; exact ht
  · simp only [List.getElem?_modify, hw₀, if_true] at hw
    rw [← some.inj hw]; exact hs

variable {k : ℕ} {p : ClaimPhase} {f : Fut → Fut}

theorem claims_terminate : (b.terminate c state reason).1.claims[k]? = b.claims[k]? := by
  unfold terminate
  split
  · rfl
  · split <;> rfl

/-- A call's phase and the end of a work do not meet. -/
theorem terminate_setPhase : (b.setPhase k p).terminate c state reason
      = ((b.terminate c state reason).1.setPhase k p, (b.terminate c state reason).2) := by
  have hheap : (b.setPhase k p).heap = b.heap := rfl
  unfold terminate
  rw [hheap]
  cases b.heap[c]? with
  | none => rfl
  | some w =>
    dsimp only
    by_cases ht : w.state.terminal = true
    · rw [if_pos ht, if_pos ht]
    · simp only [if_neg ht, setPhase]

theorem moves_waiters (a : String) (l : List (ℕ × ℤ)) :
    Moves ok b { b with waiters := update b.waiters a l } :=
  .single (.records _ b.generation b.completed)

theorem moves_settle {reason : String}
    (hok : ok (.close cs reason fence)) : Moves ok b (b.settle cs reason fence) := by
  unfold settle
  split
  · exact .single (.records b.waiters b.generation _)
  · exact .single (.tasks (Lib.forall_mem_concat.2 ⟨fun _ => .inl, .inr hok⟩))

/-- Terminate and close: how every call that ends a claim goes on. -/
theorem moves_end (hs : state.terminal = true) (hok : ∀ cs, ok (.close cs close none)) :
    Moves ok b (((b.terminate c state reason).1).settle (b.terminate c state reason).2 close none) :=
  .head (.ended c reason hs) (moves_settle (hok _))

theorem getElem?_modifyFut (hk : b.claims[k]? = some call) :
    (b.modifyFut k f).claims[k]? = some { call with fut := f call.fut } := by
  simp [modifyFut, hk]

/-- A future and its call's phase do not meet. -/
theorem setPhase_modifyFut : (b.setPhase k p).modifyFut k f = (b.modifyFut k f).setPhase k p := by
  unfold setPhase modifyFut
  simp only [modify_modify_eq]
  rfl

theorem Fut.cancel_ne_pending {f : Fut} : f.cancel ≠ .pending := by cases f <;> rintro ⟨⟩

/-! ### Offers and claims -/

variable {g : ℤ} {a : String}

theorem moves_claim : Moves ok b (b.claim a g).1 := by
  unfold claim
  dsimp only
  split
  · exact .refl
  have hrec : Moves ok b { b with
      generation := update b.generation a (some (max ((b.generation a).getD 0) g))
      waiters := update b.waiters a (b.waiters a ++ [(b.claims.length, g)]) } :=
    .single (.records _ _ b.completed)
  exact hrec.tail (.called a g)

/-- The waiter an offer takes has a pending future. -/
theorem pending_of_dropWhile {l slots : List (ℕ × ℤ)}
    (h : l.dropWhile (b.futDone ·.1) = (k, g) :: slots) :
    ∃ call, b.claims[k]? = some call ∧ call.fut = .pending := by
  have hnot : b.futDone k = false := by
    have hne : l.dropWhile (b.futDone ·.1) ≠ [] := by rw [h]; simp
    have := head_dropWhile_not (fun e : ℕ × ℤ => b.futDone e.1) hne
    simpa [h] using this
  unfold futDone at hnot
  cases hk : b.claims[k]? with
  | none => rw [hk] at hnot; cases hnot
  | some call =>
    refine ⟨call, rfl, ?_⟩
    rw [hk, all_some] at hnot
    cases hf : call.fut with
    | pending => rfl
    | result c | cancelled => rw [hf] at hnot; cases hnot

theorem moves_offer : Moves ok b (b.offer a port request deadline).1 := by
  unfold offer
  split
  · exact .refl
  split
  · exact .refl
  split
  · exact .single (.records _ b.generation b.completed)
  rename_i k g slots hdrop
  obtain ⟨call, hk, hf⟩ := pending_of_dropWhile hdrop
  have hpop : Moves ok b { b with waiters := update b.waiters a slots } :=
    moves_waiters a slots
  dsimp only
  split
  · exact hpop.tail (.cancel k)
  · exact hpop.tail (.offered hk hf rfl rfl)

theorem moves_resume : Moves ok b (b.resume k) := by
  unfold resume
  split
  · rename_i hk; exact .single (.resumed hk rfl rfl)
  · exact .refl

theorem moves_giveUp : Moves ok b (b.giveUp k) := by
  unfold giveUp
  split
  · rename_i hk
    exact .head (.cancel k) (.single (.gaveUp (getElem?_modifyFut hk) rfl Fut.cancel_ne_pending))
  · exact .refl

theorem moves_abandonWaiter (hok : ∀ cs, ok (.close cs "cancelled" none)) :
    Moves ok b (b.abandonWaiter k) := by
  unfold abandonWaiter
  split
  · rename_i a _ fut hk
    refine (moves_waiters a ((b.waiters a).filter (·.1 ≠ k))).trans ?_
    cases fut with
    | result c =>
      -- the assigned work is ended first, then the call returns
      dsimp only
      rw [terminate_setPhase]
      have hfail : WorkState.failed.terminal = true := rfl
      refine .head (.ended c (some "cancelled") hfail) (.head ?_ (moves_settle (hok _)))
      refine .abandoned (claims_terminate.trans hk) rfl nofun ?_
      rintro c' w ⟨⟩ hw
      exact terminal_of_terminate hfail hw
    | pending =>
      dsimp only
      rw [setPhase_modifyFut]
      refine .head (.cancel k) (.single (.abandoned (getElem?_modifyFut hk) rfl nofun ?_))
      rintro c w ⟨⟩
    | cancelled =>
      refine .single (.abandoned hk rfl nofun ?_)
      rintro c w ⟨⟩
  · exact .refl

/-! ### Uploads -/

variable {agent : String}

/-- What a passed check says. -/
theorem check_ok (h : b.check agent c g = .ok w) :
    c ∈ b.works ∧ b.heap[c]? = some w ∧ w.agentId = agent ∧ w.generation = g := by
  unfold check at h
  split at h
  · split at h <;> cases h
  rename_i w' hw'
  split at hw'
  · rename_i hc
    split at h
    · cases h
    rename_i ha
    split at h
    · cases h
    · rename_i hg
      cases h
      exact ⟨hc, hw', not_not.mp ha, not_not.mp hg⟩
  · cases hw'

variable {now : ℤ} {go : Broker → Work → Broker × Except RelayError Unit} {b' : Broker}

/-- An upload that is not late goes on with the broker as it was. -/
theorem expireIfLate_fst_of_nil (h : (b.expireIfLate c w now).2 = []) :
    (b.expireIfLate c w now).1 = b := by
  unfold expireIfLate at h ⊢
  split at h
  · rename_i hd; rw [if_pos hd]; exact terminate_fst_of_nil h
  · rename_i hd; rw [if_neg hd]

/-- The three ways of an upload: refused by the check, late, or let through. -/
theorem upload_cases : (∃ e, b.upload agent c g now go = (b, .error e)) ∨
    (∃ w, b.check agent c g = .ok w ∧ w.deadline ≤ now ∧ b.upload agent c g now go
      = ((b.terminate c .failed (some deadlineExpired)).1.settle
          (b.terminate c .failed (some deadlineExpired)).2 deadlineExpired none,
          .error (.state "deadline expired" (some .gone)))) ∨
    (∃ w, b.check agent c g = .ok w ∧ (b.expireIfLate c w now).2 = [] ∧
      b.upload agent c g now go = go b w) := by
  unfold upload
  cases hc : b.check agent c g with
  | error e => exact .inl ⟨e, rfl⟩
  | ok w =>
    refine .inr ?_
    dsimp only
    cases hl : (b.expireIfLate c w now).2 with
    | nil => exact .inr ⟨w, rfl, hl, by
        rw [isEmpty_nil, if_pos rfl, expireIfLate_fst_of_nil hl]⟩
    | cons d ds =>
      have hd : w.deadline ≤ now := by
        by_contra hd
        rw [expireIfLate, if_neg hd] at hl
        cases hl
      refine .inl ⟨w, rfl, hd, ?_⟩
      rw [if_neg (by simp), ← hl, expireIfLate, if_pos hd]

section
variable (hok : ∀ cs, ok (.close cs deadlineExpired none))
include hok

theorem moves_upload

    (hgo : ∀ w, b.check agent c g = .ok w → Moves ok b (go b w).1) :
    Moves ok b (b.upload agent c g now go).1 := by
  rcases upload_cases with
    ⟨e, he⟩ | ⟨w, -, -, he⟩ | ⟨w, hw, -, he⟩
  · rw [he]
  · rw [he]; exact moves_end rfl hok
  · rw [he]; exact hgo w hw

theorem moves_startResponse : Moves ok b (b.startResponse agent c g status contentType now).1 := by
  refine moves_upload hok fun w hw => ?_
  obtain ⟨-, hheap, -⟩ := check_ok hw
  split
  · exact .refl
  · rename_i hst
    exact .single (.responded hheap (not_not.mp hst) (by intro _; rfl) (by intro _; exact ⟨rfl, rfl⟩))

theorem moves_write
    (hw : ∀ w, b.heap[c]? = some w → chunk.length ≤ maxResponseChunkBytes → chunk ≠ [] →
      ok (.write c chunk w.deadline)) : Moves ok b (b.write agent c g chunk now).1 := by
  unfold write
  split
  · exact .refl
  rename_i hlen
  refine moves_upload hok fun w hcheck => ?_
  obtain ⟨-, hheap, -⟩ := check_ok hcheck
  split
  · exact .refl
  split
  · exact .refl
  · rename_i hne
    refine .single (.tasks (Lib.forall_mem_concat.2 ⟨fun _ => .inl, .inr ?_⟩))
    exact hw w hheap (Nat.not_lt.mp hlen) (by simpa using hne)

theorem moves_finish (heof : (b.finish agent c g now).2 = .ok () → ok (.close [c] "eof" none)) :
    Moves ok b (b.finish agent c g now).1 := by
  unfold finish at heof ⊢
  rcases upload_cases with ⟨e, he⟩ | ⟨w, -, -, he⟩ | ⟨w, hw, -, he⟩
  · rw [he]
  · rw [he]; exact moves_end rfl hok
  rw [he] at heof ⊢
  split
  · exact .refl
  rename_i hst
  rw [if_neg hst] at heof
  have hfin : WorkState.finished.terminal = true := rfl
  refine .head (.ended c none hfin) ?_
  change Moves ok _ ((b.terminate c .finished none).1.settle (b.terminate c .finished none).2 "eof" none)
  rcases terminate_snd with hs | hs
  · rw [hs]; exact .single (.records _ _ _)
  · rw [hs]; exact moves_settle (heof rfl)

theorem moves_fail (hcode : code ∈ failCodes → ∀ cs, ok (.close cs code none)) :
    Moves ok b (b.fail agent c g code now).1 := by
  unfold fail
  split
  · exact .refl
  · rename_i hc
    exact moves_upload hok fun w _ => moves_end rfl (hcode (not_not.mp hc))

end

theorem moves_disconnect (hok : ∀ cs, ok (.close cs "client_disconnect" none)) :
    Moves ok b (b.disconnect c) := moves_end rfl hok

/-! ### Invalidation -/

theorem moves_terminateAll {reason : String} : ∀ (cs : List ℕ) (b : Broker),
    Moves ok b (terminateAll reason cs b).1
  | [], _ => .refl
  | c :: cs, _ => .head (.ended c (some reason) rfl) (moves_terminateAll cs _)

theorem moves_cancelAll : ∀ (ks : List ℕ) (b : Broker), Moves ok b (cancelAll ks b)
  | [], _ => .refl
  | k :: ks, _ => .head (.cancel k) (moves_cancelAll ks _)

theorem moves_invalidateAgent {reason : String}
    (hok : ∀ cs, ok (.close cs reason (some (a, newer)))) :
    Moves ok b (b.invalidateAgent a newer reason) := by
  have hraise : Moves ok b { b with
      generation := update b.generation a
        (some (max ((b.generation a).getD 0) newer)) } := .single (.records b.waiters _ b.completed)
  exact ((hraise.trans (moves_terminateAll _ _)).trans (moves_waiters a _)).trans
    ((moves_cancelAll _ _).trans (moves_settle (hok _)))

/-! ### Tasks -/

theorem moves_eraseTask (n : ℕ) : Moves ok b { b with tasks := b.tasks.eraseIdx n } :=
  .single (.tasks fun _ ht => .inl (mem_of_mem_eraseIdx ht))

theorem moves_runExpire (hok : ∀ cs, ok (.close cs deadlineExpired none)) :
    Moves ok b (b.runExpire n c) := by
  unfold runExpire
  dsimp only
  split
  · exact (moves_eraseTask n).trans (moves_end rfl hok)
  · exact moves_eraseTask n

/-! ### Steps -/

/-- One work's response stream changed, and of the tables of works and calls nothing else. -/
structure Streamed (b b' : Broker) : Prop where
  heap : ∃ c, ∃ f : ResponseStream → ResponseStream,
    b'.heap = b.heap.modify c fun w => { w with stream := f w.stream }
  works : b'.works = b.works
  terminalClass : b'.terminalClass = b.terminalClass
  claims : b'.claims = b.claims

/-- A step is a chain of moves, or a read, a write or a close of one stream. -/
theorem step_cases (b : Broker) (act : Act) :
    Moves (fun _ => True) b (step b act) ∨ Streamed b (step b act) := by
  cases act with
  | offer a port request deadline => exact .inl moves_offer
  | claim a g => exact .inl moves_claim
  | resume k => exact .inl moves_resume
  | giveUp k => exact .inl moves_giveUp
  | abandonWaiter k => exact .inl (moves_abandonWaiter fun _ => trivial)
  | startResponse agent c g status contentType now =>
    exact .inl (moves_startResponse fun _ => trivial)
  | write agent c g chunk now =>
    exact .inl (moves_write (fun _ => trivial) fun _ _ _ _ => trivial)
  | finish agent c g now =>
    exact .inl (moves_finish (fun _ => trivial) fun _ => trivial)
  | fail agent c g code now =>
    exact .inl (moves_fail (fun _ => trivial) fun _ _ => trivial)
  | invalidateAgent a newer reason =>
    exact .inl (moves_invalidateAgent fun _ => trivial)
  | disconnect c => exact .inl (moves_disconnect fun _ => trivial)
  | read c => exact .inr ⟨⟨c, (·.pop), rfl⟩, rfl, rfl, rfl⟩
  | runTask n now =>
    simp only [step, runTask]
    cases b.tasks[n]? with
    | none => exact .inl .refl
    | some task =>
      cases task with
      | expire c => exact .inl (moves_runExpire fun _ => trivial)
      | write c chunk deadline =>
        dsimp only [runWrite]
        split
        · exact .inl .refl
        split
        · exact .inl (moves_eraseTask n)
        split
        · refine .inl (.single (.tasks fun t ht => ?_))
          exact (mem_or_eq_of_mem_set ht).imp_right fun _ => trivial
        split
        · exact .inl .refl
        · exact .inr ⟨⟨c, (·.push chunk), rfl⟩, rfl, rfl, rfl⟩
      | close cs reason fence =>
        cases cs with
        | nil =>
          exact .inl ((moves_eraseTask n).tail (.records b.waiters b.generation _))
        | cons c cs =>
          dsimp only [runClose]
          split
          · exact .inr ⟨⟨c, (·.close reason), rfl⟩, rfl, rfl, rfl⟩
          · exact .inr ⟨⟨c, (·.close reason), rfl⟩, rfl, rfl, rfl⟩

/-- No move forgets a work. -/
theorem Move.heap_le (hm : Move ok b b') : b.heap.length ≤ b'.heap.length := by
  cases hm with
  | ended c reason hs =>
    unfold terminate
    split
    · exact Nat.le_refl _
    · split
      · exact Nat.le_refl _
      · exact Nat.le_of_eq (length_modify ..).symm
  | offered hk hf hw hs =>
    change _ ≤ (b.heap ++ [_]).length
    rw [length_append]
    exact Nat.le_add_right ..
  | responded hw hst hf hs => exact Nat.le_of_eq (length_modify ..).symm
  | _ => exact Nat.le_refl _

theorem Moves.heap_le (hm : Moves ok b b') : b.heap.length ≤ b'.heap.length := by
  induction hm with
  | refl => exact Nat.le_refl _
  | tail _ hm ih => exact Nat.le_trans ih hm.heap_le

theorem heap_le_step : b.heap.length ≤ (step b act).heap.length := by
  rcases step_cases b act with hm | hs
  · exact Moves.heap_le hm
  · obtain ⟨c, f, hf⟩ := hs.heap
    rw [hf]
    exact Nat.le_of_eq (length_modify ..).symm

end

end Fallow.Relay
