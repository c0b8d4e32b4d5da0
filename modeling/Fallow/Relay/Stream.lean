import Fallow.Relay.Fence
import Fallow.Relay.Moves

/-! Response streams keep what was written, in order, and say how it ended.

    `History` records what the two ends of every claim's stream saw: the chunks whose write was
    accepted, the answers the exchange read, and whether `finish` was accepted. Accepted chunks go to
    the queue's end and reads take them from its front, so the two lists differ by the queue:

        accepted   = read ++ queued                 (empty chunks aside)
        terminal     set once, after the last accepted chunk, seen with an empty queue

    An empty chunk is accepted without ever reaching the stream. And the clean end is the terminal
    text `eof`: an invalidation, whose reason is any text, could say it too. -/

namespace Fallow.Relay
open Lib Function Option Broker ResponseStream

/-! ### What the two ends see -/

/-- What one read hands to the client. -/
inductive Item where
  | chunk (bytes : Bytes)
  | terminal (reason : String)
  deriving DecidableEq, Repr

/-- `_ResponseStream.read`: the next chunk, else the terminal; `none` while it waits. -/
def ResponseStream.next (st : ResponseStream) : Option Item :=
  match st.chunks with
  | chunk :: _ => some (.chunk chunk)
  | [] => st.terminal.map .terminal

/-- `_ResponseStream.write` appends the chunk. -/
def ResponseStream.accepts (st : ResponseStream) (chunk : Bytes) (deadline now : ℤ) : Bool :=
  st.terminal = none ∧ now < deadline ∧ ¬ st.full chunk

structure History where
  /-- accepted chunks, with the clock reading -/
  accepted : ℕ → List (Bytes × ℤ) := fun _ => []
  seen : ℕ → List Item := fun _ => []
  finished : ℕ → Bool := fun _ => false

variable {c m : ℕ} {chunk : Bytes} {now : ℤ} {reason : String}

namespace History

def accept (h : History) (c : ℕ) (chunk : Bytes) (now : ℤ) : History :=
  { h with accepted := update h.accepted c (h.accepted c ++ [(chunk, now)]) }

def see (h : History) (c : ℕ) (item : Item) : History :=
  { h with seen := update h.seen c (h.seen c ++ [item]) }

def finish (h : History) (c : ℕ) : History :=
  { h with finished := update h.finished c true }

@[simp] theorem accept_seen (h : History) : (h.accept c chunk now).seen = h.seen := rfl

@[simp] theorem see_accepted (h : History) :
    (h.see c item).accepted = h.accepted := rfl

/-- What an action taken in `b` adds. -/
def record (h : History) (b : Broker) : Act → History
  | .write agent c g chunk now =>
    if chunk = [] ∧ (b.write agent c g chunk now).2.isOk then h.accept c chunk now else h
  | .finish agent c g now => if (b.finish agent c g now).2.isOk then h.finish c else h
  | .read c => match (b.heap[c]?).bind (·.stream.next) with
    | some item => h.see c item
    | none => h
  | .runTask n now => match b.tasks[n]? with
    | some (.write c chunk deadline) =>
      if (b.heap[c]?).any (·.stream.accepts chunk deadline now) then h.accept c chunk now else h
    | _ => h
  | _ => h

end History

structure Traced where
  broker : Broker
  history : History := {}

def Traced.step (t : Traced) (act : Act) : Traced :=
  ⟨Relay.step t.broker act, t.history.record t.broker act⟩

/-- A fresh broker and an empty history. -/
def Traced.fresh (maxBuffer : ℕ) : Traced := ⟨{ maxBuffer := maxBuffer }, {}⟩

def chunksOf : List Item → List Bytes
  | [] => []
  | .chunk bytes :: items => bytes :: chunksOf items
  | .terminal _ :: items => chunksOf items

def terminalsOf : List Item → List String
  | [] => []
  | .chunk _ :: items => terminalsOf items
  | .terminal reason :: items => reason :: terminalsOf items

/-- The accepted chunks that have bytes. -/
def nonEmpty (l : List (Bytes × ℤ)) : List Bytes := (l.map (·.1)).filter (· ≠ [])

theorem chunksOf_append : chunksOf (xs ++ ys) = chunksOf xs ++ chunksOf ys := by
  induction xs with
  | nil => rfl
  | cons x xs ih => cases x <;> simp [chunksOf, ih]

theorem terminalsOf_append : terminalsOf (xs ++ ys) = terminalsOf xs ++ terminalsOf ys := by
  induction xs with
  | nil => rfl
  | cons x xs ih => cases x <;> simp [terminalsOf, ih]

theorem nonEmpty_append : nonEmpty (xs ++ ys) = nonEmpty xs ++ nonEmpty ys := by
  simp [nonEmpty]

/-! ### One stream -/

/-- INVARIANT: the stream of claim `c` against its history. -/
structure StreamOk (m : ℕ) (h : History) (c : ℕ) (w : Work) : Prop where
  split : chunksOf (h.seen c) ++ w.stream.chunks = nonEmpty (h.accepted c)
  order : h.seen c = (chunksOf (h.seen c)).map .chunk ++ (terminalsOf (h.seen c)).map .terminal
  ends : ∀ t ∈ terminalsOf (h.seen c), w.stream.terminal = some t ∧ w.stream.chunks = []
  buffered : w.stream.buffered = (w.stream.chunks.map List.length).sum
  bounded : w.stream.buffered ≤ w.stream.maxBytes
  maxBytes : w.stream.maxBytes = max m maxResponseChunkBytes
  inTime : ∀ e ∈ h.accepted c, e.2 < w.deadline
  eof : w.stream.terminal = some "eof" → h.finished c = true

section
variable {m : ℕ} {h h' : History} {c : ℕ} {w w' : Work}

section
variable (hok : StreamOk m h c w)
include hok

/-- Only the stream, the deadline and the history of the claim matter. -/
theorem StreamOk.congr (hs : w'.stream = w.stream)
    (hd : w'.deadline = w.deadline) (ha : h'.accepted c = h.accepted c) (hseen : h'.seen c = h.seen c)
    (hf : h.finished c = true → h'.finished c = true) : StreamOk m h' c w' := by
  refine ⟨?_, ?_, ?_, ?_, ?_, ?_, ?_, ?_⟩
  · rw [hs, ha, hseen]; exact hok.split
  · rw [hseen]; exact hok.order
  · rw [hs, hseen]; exact hok.ends
  · rw [hs]; exact hok.buffered
  · rw [hs]; exact hok.bounded
  · rw [hs]; exact hok.maxBytes
  · rw [hd, ha]; exact hok.inTime
  · rw [hs]; exact fun he => hf (hok.eof he)

omit hok in
theorem StreamOk.new (hs : w.stream = .new m) (ha : h.accepted c = [])
    (hseen : h.seen c = []) : StreamOk m h c w := by
  refine ⟨?_, ?_, ?_, ?_, ?_, ?_, ?_, ?_⟩ <;> simp [hs, ha, hseen, ResponseStream.new, chunksOf,
    terminalsOf, nonEmpty]

/-- The queue grows at its end. -/
theorem StreamOk.push (hne : chunk ≠ []) (hlen : chunk.length ≤ maxResponseChunkBytes)
    (hacc : w.stream.accepts chunk w.deadline now = true) :
    StreamOk m (h.accept c chunk now) c { w with stream := w.stream.push chunk } := by
  obtain ⟨hterm, hnow, hroom⟩ := of_decide_eq_true hacc
  have haccepted : (h.accept c chunk now).accepted c = h.accepted c ++ [(chunk, now)] :=
    update_self ..
  have hkept : nonEmpty [(chunk, now)] = [chunk] := by simp [nonEmpty, hne]
  have hbuf := hok.buffered
  have hmax := hok.maxBytes
  -- an empty queue has room for any chunk, a filled one was asked
  have hroom' : w.stream.buffered + chunk.length ≤ w.stream.maxBytes := by
    by_cases hq : w.stream.chunks = []
    · rw [hq] at hbuf
      simp only [List.map_nil, List.sum_nil] at hbuf
      omega
    · simp only [full, List.isEmpty_iff, hq, not_false_eq_true, true_and,
        decide_eq_true_eq, Nat.not_lt] at hroom
      exact hroom
  refine ⟨?_, hok.order, ?_, ?_, hroom', hmax, ?_, hok.eof⟩
  · rw [haccepted, nonEmpty_append, hkept, ← hok.split]
    exact (List.append_assoc ..).symm
  · intro t ht
    have := (hok.ends t ht).1
    rw [hterm] at this
    cases this
  · change w.stream.buffered + chunk.length = ((w.stream.chunks ++ [chunk]).map List.length).sum
    simp [hbuf]
  · rw [haccepted]
    exact forall_mem_concat.2 ⟨hok.inTime, hnow⟩

/-- A read takes the first chunk of the queue. -/
theorem StreamOk.pop (hq : w.stream.chunks = chunk :: rest) :
    StreamOk m (h.see c (.chunk chunk)) c { w with stream := w.stream.pop } := by
  have hseen : (h.see c (.chunk chunk)).seen c = h.seen c ++ [.chunk chunk] := update_self ..
  have hpop : w.stream.pop
      = { w.stream with chunks := rest, buffered := w.stream.buffered - chunk.length } := by
    unfold ResponseStream.pop; rw [hq]
  -- with a chunk in the queue no terminal was seen yet
  have hnone : terminalsOf (h.seen c) = [] := by
    refine List.eq_nil_iff_forall_not_mem.mpr fun t ht => ?_
    have := (hok.ends t ht).2
    rw [hq] at this
    cases this
  have hbuf := hok.buffered
  rw [hq, List.map_cons, List.sum_cons] at hbuf
  have horder := hok.order
  rw [hnone, List.map_nil, List.append_nil] at horder
  refine ⟨?_, ?_, ?_, ?_, ?_, ?_, hok.inTime, ?_⟩
  · rw [hseen, chunksOf_append, hpop, History.see_accepted, ← hok.split, hq]
    simp [chunksOf]
  · rw [hseen, chunksOf_append, terminalsOf_append, hnone, List.map_append, ← horder]
    simp [chunksOf, terminalsOf]
  · rw [hseen, terminalsOf_append, hnone]
    intro t ht
    cases ht
  · rw [hpop]
    change w.stream.buffered - chunk.length = (rest.map List.length).sum
    omega
  · rw [hpop]; exact Nat.le_trans (Nat.sub_le ..) hok.bounded
  · rw [hpop]; exact hok.maxBytes
  · rw [hpop]; exact hok.eof

/-- A read of an empty, terminated stream sees the terminal. -/
theorem StreamOk.seeTerminal (hq : w.stream.chunks = [])
    (ht : w.stream.terminal = some t) :
    StreamOk m (h.see c (.terminal t)) c { w with stream := w.stream.pop } := by
  have hseen : (h.see c (.terminal t)).seen c = h.seen c ++ [.terminal t] := update_self ..
  have hpop : w.stream.pop = w.stream := by unfold ResponseStream.pop; rw [hq]
  rw [hpop]
  refine { hok with split := ?_, order := ?_, ends := ?_ }
  · rw [hseen, chunksOf_append]
    simpa [chunksOf] using hok.split
  · rw [hseen, chunksOf_append, terminalsOf_append, List.map_append, List.map_append]
    nth_rewrite 1 [hok.order]
    simp [chunksOf, terminalsOf]
  · rw [hseen, terminalsOf_append]
    intro t' ht'
    rcases List.mem_append.mp ht' with ht' | ht'
    · exact hok.ends t' ht'
    · have he : t' = t := by simpa [terminalsOf] using ht'
      exact ⟨he ▸ ht, hq⟩

/-- Closing sets the terminal once. -/
theorem StreamOk.close (heof : reason = "eof" → h.finished c = true) :
    StreamOk m h c { w with stream := w.stream.close reason } := by
  cases ht : w.stream.terminal with
  | some t =>
    have hclose : w.stream.close reason = w.stream := by unfold ResponseStream.close; rw [ht]
    rw [hclose]; exact hok
  | none =>
    have hclose : w.stream.close reason = { w.stream with terminal := some reason } := by
      unfold ResponseStream.close; rw [ht]
    rw [hclose]
    refine { hok with ends := ?_, eof := ?_ }
    · intro t hmem
      have := (hok.ends t hmem).1
      rw [ht] at this
      cases this
    · intro he
      exact heof (some.inj he)

/-- An empty chunk is accepted without touching the stream. -/
theorem StreamOk.acceptEmpty (hnow : now < w.deadline) : StreamOk m (h.accept c [] now) c w := by
  have haccepted : (h.accept c [] now).accepted c = h.accepted c ++ [([], now)] :=
    update_self ..
  refine { hok with split := ?_, inTime := ?_ }
  · rw [haccepted, nonEmpty_append]
    simpa [nonEmpty] using hok.split
  · rw [haccepted]
    exact forall_mem_concat.2 ⟨hok.inTime, hnow⟩

end

end

/-! ### All streams -/

/-- The deadline of a claim, once it exists. -/
def deadlineOf (b : Broker) (c : ℕ) : Option ℤ := (b.heap[c]?).map (·.deadline)

/-- What a pending task may do to a stream: write a chunk of a size that was checked, or close it
    cleanly after a finish. -/
def TaskOk (b : Broker) (h : History) : Task → Prop
  | .write c chunk deadline =>
    chunk.length ≤ maxResponseChunkBytes ∧ chunk ≠ [] ∧ deadlineOf b c = some deadline
  | .close cs reason _ => reason = "eof" → ∀ c ∈ cs, h.finished c = true
  | .expire _ => True

structure StreamInv (m : ℕ) (b : Broker) (h : History) : Prop where
  buffer : b.maxBuffer = m
  works : ∀ c w, b.heap[c]? = some w → StreamOk m h c w
  fresh : ∀ c, b.heap[c]? = none → h.accepted c = [] ∧ h.seen c = []
  tasks : ∀ t ∈ b.tasks, TaskOk b h t

section
variable {m : ℕ} {b b' : Broker} {h h' : History} {c : ℕ}

theorem TaskOk.mono (ht : TaskOk b h t)
    (hd : ∀ c d, deadlineOf b c = some d → deadlineOf b' c = some d) : TaskOk b' h t := by
  cases t with
  | write c chunk deadline => exact ⟨ht.1, ht.2.1, hd c deadline ht.2.2⟩
  | close cs reason fence => exact ht
  | expire c => trivial

variable {f : Work → Work} {d : ℕ}

theorem deadlineOf_modify (hd : ∀ w, (f w).deadline = w.deadline)
    (hheap : b'.heap = b.heap.modify c f) : deadlineOf b' d = deadlineOf b d := by
  rw [deadlineOf, deadlineOf, hheap, getElem?_modify_map, map_map]
  congr 1
  funext w
  split
  · exact hd w
  · rfl

/-- A change of one work that leaves its stream and its deadline alone. -/
theorem StreamInv.modify (hi : StreamInv m b h) (hf : ∀ w, (f w).stream = w.stream)
    (hd : ∀ w, (f w).deadline = w.deadline) (hheap : b'.heap = b.heap.modify c f)
    (hbuf : b'.maxBuffer = b.maxBuffer) (htasks : b'.tasks = b.tasks) : StreamInv m b' h := by
  refine ⟨hbuf.trans hi.buffer, fun d w' hw' => ?_, fun d hnone => ?_, fun t ht => ?_⟩
  · rw [hheap, getElem?_modify_map] at hw'
    obtain ⟨w, hw, rfl⟩ := map_eq_some_iff.mp hw'
    refine (hi.works d w hw).congr ?_ ?_ rfl rfl id
    · split
      · exact hf w
      · rfl
    · split
      · exact hd w
      · rfl
  · refine hi.fresh d ?_
    rw [hheap, getElem?_modify_map, map_eq_none_iff] at hnone
    exact hnone
  · rw [htasks] at ht
    exact (hi.tasks t ht).mono fun d e he => (deadlineOf_modify hd hheap).trans he

variable {ok : Task → Prop} {cs : List ℕ} {fence : Option (String × ℤ)}

/-- No move changes a deadline. -/
theorem deadlineOf_move (hm : Move ok b b')
    (he : deadlineOf b d = some e) : deadlineOf b' d = some e := by
  cases hm with
  | ended c reason hs =>
    unfold terminate
    split
    · exact he
    · split
      · exact he
      · exact (deadlineOf_modify (by intro _; rfl) rfl).trans he
  | responded hw hst hf hstream => exact (deadlineOf_modify (fun w => (hstream w).2) rfl).trans he
  | offered hk hf hw hs =>
    obtain ⟨w', hw', rfl⟩ := map_eq_some_iff.mp he
    change ((b.heap ++ _)[d]?).map (·.deadline) = _
    rw [getElem?_concat_iff.2 (.inl hw')]
    rfl
  | _ => exact he

/-- INVARIANT: a move leaves every stream as it was. -/
theorem StreamInv.move (hi : StreamInv m b h) (hm : Move ok b b')
    (hok : ∀ t, ok t → TaskOk b h t) : StreamInv m b' h := by
  have hd : ∀ c d, deadlineOf b c = some d → deadlineOf b' c = some d :=
    fun _ _ he => deadlineOf_move hm he
  cases hm with
  | ended c reason hs =>
    unfold terminate
    split
    · exact hi
    · split
      · exact hi
      · exact hi.modify (by intro _; rfl) (by intro _; rfl) rfl rfl rfl
  | responded hw hst hf hstream =>
    exact hi.modify (fun w => (hstream w).1) (fun w => (hstream w).2) rfl rfl rfl
  | @offered k call w hk hf hw hs =>
    refine ⟨hi.buffer, fun c w' hw' => ?_, fun c hnone => ?_, fun t ht => (hi.tasks t ht).mono hd⟩
    · rcases getElem?_concat_iff.1 hw' with hw' | ⟨rfl, rfl⟩
      · exact hi.works c w' hw'
      · obtain ⟨ha, hseen⟩ := hi.fresh b.heap.length (List.getElem?_eq_none (Nat.le_refl _))
        exact .new (hs.trans (by rw [hi.buffer])) ha hseen
    · refine hi.fresh c ?_
      change (b.heap ++ [w])[c]? = none at hnone
      rw [List.getElem?_eq_none_iff, List.length_append] at hnone
      exact List.getElem?_eq_none (Nat.le_trans (Nat.le_add_right ..) hnone)
  | tasks hts =>
    refine ⟨hi.buffer, hi.works, hi.fresh, fun t ht => ?_⟩
    rcases hts t ht with ht | ht
    · exact hi.tasks t ht
    · exact hok t ht
  | _ => exact { hi with }

theorem StreamInv.moves (hi : StreamInv m b h) (hm : Moves ok b b')
    (hok : ∀ t, ok t → TaskOk b h t) : StreamInv m b' h := by
  have hboth : StreamInv m b' h ∧ ∀ t, ok t → TaskOk b' h t := by
    induction hm with
    | refl => exact ⟨hi, hok⟩
    | tail _ hmove ih =>
      exact ⟨ih.1.move hmove ih.2, fun t ht => (ih.2 t ht).mono fun _ _ he => deadlineOf_move hmove he⟩
  exact hboth.1

/-- The history of one claim and its work change together. -/
theorem StreamInv.at (hi : StreamInv m b h) (hd : ∀ w, (f w).deadline = w.deadline)
    (hheap : b'.heap = b.heap.modify c f) (hbuf : b'.maxBuffer = b.maxBuffer)
    (htasks : ∀ t ∈ b'.tasks, TaskOk b h t) (ha : ∀ d, d ≠ c → h'.accepted d = h.accepted d)
    (hseen : ∀ d, d ≠ c → h'.seen d = h.seen d) (hfin : h'.finished = h.finished)
    (hc : ∀ w, b.heap[c]? = some w → StreamOk m h' c (f w)) (hnone : b.heap[c]? = none → h' = h) :
    StreamInv m b' h' := by
  refine ⟨hbuf.trans hi.buffer, fun d w' hw' => ?_, fun d hd' => ?_, fun t ht => ?_⟩
  · rw [hheap, getElem?_modify_map] at hw'
    obtain ⟨w, hw, rfl⟩ := map_eq_some_iff.mp hw'
    by_cases hcd : c = d
    · subst hcd
      rw [if_pos rfl]
      exact hc w hw
    · rw [if_neg hcd]
      exact (hi.works d w hw).congr rfl rfl (ha d (.symm hcd)) (hseen d (.symm hcd))
        (by rw [hfin]; exact id)
  · rw [hheap, getElem?_modify_map, map_eq_none_iff] at hd'
    by_cases hcd : d = c
    · rw [hnone (hcd ▸ hd')]; exact hi.fresh d hd'
    · rw [ha d hcd, hseen d hcd]; exact hi.fresh d hd'
  · have hok := (htasks t ht).mono fun d e he => (deadlineOf_modify hd hheap).trans he
    cases t with
    | write => exact hok
    | close => rw [TaskOk, hfin]; exact hok
    | expire => trivial

/-! ### One step -/

theorem taskOk_close
    (hne : reason ≠ "eof") : TaskOk b h (.close cs reason fence) := fun he => absurd he hne

/-- The reasons the broker gives itself never read as a clean end. -/
theorem failCodes_ne_eof (hc : code ∈ failCodes) : code ≠ "eof" := by
  rintro rfl
  revert hc
  decide

/-- An accepted write of an empty chunk comes before the deadline. -/
theorem now_lt_of_write_ok (hlive : ∀ c ∈ b.works, Live b c) (hok : (b.write agent c g chunk now).2.isOk = true) :
    ∃ w, b.heap[c]? = some w ∧ now < w.deadline := by
  unfold write at hok
  split at hok
  · cases hok
  rcases upload_cases with
    ⟨e, he⟩ | ⟨w, -, -, he⟩ | ⟨w, hw, hlate, -⟩
  · rw [he] at hok; cases hok
  · rw [he] at hok; cases hok
  · obtain ⟨hmem, hheap, -⟩ := check_ok hw
    refine ⟨w, hheap, ?_⟩
    by_contra hnow
    obtain ⟨w', hw', hst⟩ := hlive c hmem
    rw [hheap] at hw'
    cases hw'
    rw [expireIfLate, if_pos (Int.not_lt.mp hnow), terminate, hheap] at hlate
    simp [hst] at hlate

section
variable (hi : StreamInv m b h) {n : ℕ}
include hi

theorem StreamInv.write (hlive : ∀ c ∈ b.works, Live b c) (agent : String)
    (c : ℕ) (g : ℤ) (chunk : Bytes) (now : ℤ) :
    StreamInv m (b.write agent c g chunk now).1 (h.record b (.write agent c g chunk now)) := by
  have hrec : StreamInv m b (h.record b (.write agent c g chunk now)) := by
    simp only [History.record]
    split
    · rename_i hacc
      obtain ⟨w, hw, hnow⟩ := now_lt_of_write_ok hlive hacc.2
      have hid : b.heap = b.heap.modify c id := by simp
      refine hi.at (by intro _; rfl) hid rfl hi.tasks ?_ (by intro _ _; rfl) rfl ?_ ?_
      · intro d hd; exact update_of_ne hd ..
      · intro w' hw'
        rw [hw] at hw'
        cases hw'
        rw [hacc.1]
        exact (hi.works c w hw).acceptEmpty hnow
      · intro hnone; rw [hw] at hnone; cases hnone
    · exact hi
  refine hrec.moves (moves_write ?_ ?_) fun _ ht => ht
  · exact fun cs => taskOk_close (by decide)
  · exact fun w hw hlen hne => ⟨hlen, hne, by rw [deadlineOf, hw]; rfl⟩

theorem StreamInv.finish (agent : String) (c : ℕ) (g now : ℤ) :
    StreamInv m (b.finish agent c g now).1 (h.record b (.finish agent c g now)) := by
  have hgrow : ∀ d, h.finished d = true → (h.finish c).finished d = true := by
    intro d hd
    change update h.finished c true d = true
    by_cases hdc : d = c
    · rw [hdc, update_self]
    · rw [update_of_ne hdc]; exact hd
  have hfin : StreamInv m b (h.finish c) := by
    refine ⟨hi.buffer, fun d w hw => (hi.works d w hw).congr rfl rfl rfl rfl (hgrow d), hi.fresh,
      fun t ht => ?_⟩
    have hok := hi.tasks t ht
    cases t with
    | write => exact hok
    | close cs reason fence => exact fun he d hd => hgrow d (hok he d hd)
    | expire => trivial
  simp only [History.record]
  split
  · refine hfin.moves (moves_finish (fun cs => taskOk_close (by decide)) ?_) fun _ ht => ht
    rintro - - d hd
    rw [List.mem_singleton.mp hd]
    exact update_self ..
  · rename_i hno
    refine hi.moves (moves_finish (fun cs => taskOk_close (by decide)) ?_) fun _ ht => ht
    intro hok
    rw [hok] at hno
    exact absurd rfl hno

theorem StreamInv.read (c : ℕ) : StreamInv m (b.read c) (h.record b (.read c)) := by
  have hother : ∀ item d, d ≠ c → (h.see c item).seen d = h.seen d :=
    fun item d hd => update_of_ne hd ..
  cases hw : b.heap[c]? with
  | none =>
    simp only [History.record, hw, bind_none]
    exact hi.at (by intro _; rfl) rfl rfl hi.tasks (by intro _ _; rfl) (by intro _ _; rfl) rfl
      (fun w hw' => by rw [hw] at hw'; cases hw') (by intro _; rfl)
  | some w =>
    have hgo : ∀ item, StreamOk m (h.see c item) c { w with stream := w.stream.pop } →
        StreamInv m (b.read c) (h.see c item) := by
      intro item hok
      refine hi.at (by intro _; rfl) rfl rfl hi.tasks (by intro _ _; rfl) (hother item) rfl ?_ ?_
      · intro w' hw'
        rw [hw] at hw'
        cases hw'
        exact hok
      · intro hnone; rw [hw] at hnone; cases hnone
    simp only [History.record, hw, bind_some, next]
    cases hq : w.stream.chunks with
    | cons chunk rest => exact hgo _ ((hi.works c w hw).pop hq)
    | nil =>
      cases ht : w.stream.terminal with
      | some t => exact hgo _ ((hi.works c w hw).seeTerminal hq ht)
      | none =>
        -- the reader waits
        refine hi.at (by intro _; rfl) rfl rfl hi.tasks (by intro _ _; rfl) (by intro _ _; rfl) rfl
          (fun w' hw' => ?_) (by intro _; rfl)
        have hpop : w'.stream.pop = w'.stream := by
          rw [hw] at hw'
          cases hw'
          unfold pop; rw [hq]
        rw [hpop]
        exact hi.works c w' hw'

theorem StreamInv.runWrite (hn : b.tasks[n]? = some (.write c chunk deadline)) (now : ℤ) :
    StreamInv m (b.runWrite n c chunk deadline now)
      (if (b.heap[c]?).any (·.stream.accepts chunk deadline now) then h.accept c chunk now else h) := by
  obtain ⟨hlen, hne, hdead⟩ := hi.tasks _ (List.mem_of_getElem? hn)
  obtain ⟨w, hw, rfl⟩ := map_eq_some_iff.mp hdead
  have htasks : ∀ t ∈ b.tasks.eraseIdx n, TaskOk b h t :=
    fun t ht => hi.tasks t (List.mem_of_mem_eraseIdx ht)
  unfold Broker.runWrite
  simp only [hw, any_some]
  by_cases hterm : w.stream.terminal.isSome
  · have hno : w.stream.accepts chunk w.deadline now = false := by
      obtain ⟨t, ht⟩ := isSome_iff_exists.mp hterm
      simp [accepts, ht]
    rw [if_pos hterm, hno, if_neg (by simp)]
    exact hi.moves (moves_eraseTask n) fun _ ht => ht
  rw [if_neg hterm]
  by_cases hlate : w.deadline ≤ now
  · have hno : w.stream.accepts chunk w.deadline now = false := by
      simp [accepts, Int.not_lt.mpr hlate]
    rw [if_pos hlate, hno, if_neg (by simp)]
    have hexpire : Moves (TaskOk b h) b { b with tasks := b.tasks.set n (.expire c) } := by
      refine .single (.tasks fun t ht => ?_)
      rcases List.mem_or_eq_of_mem_set ht with ht | rfl
      · exact .inl ht
      · exact .inr trivial
    exact hi.moves hexpire fun _ ht => ht
  rw [if_neg hlate]
  by_cases hfull : w.stream.full chunk
  · have hno : w.stream.accepts chunk w.deadline now = false := by
      simp [accepts, hfull]
    rw [if_pos hfull, hno, if_neg (by simp)]
    exact hi
  have hacc : w.stream.accepts chunk w.deadline now = true :=
    decide_eq_true ⟨not_isSome_iff_eq_none.mp hterm, Int.not_le.mp hlate, hfull⟩
  rw [if_neg hfull, hacc, if_pos rfl]
  refine hi.at (by intro _; rfl) rfl rfl htasks ?_ (by intro _ _; rfl) rfl ?_ ?_
  · intro d hd; exact update_of_ne hd ..
  · intro w' hw'
    rw [hw] at hw'
    cases hw'
    exact (hi.works c w hw).push hne hlen hacc
  · intro hnone; rw [hw] at hnone; cases hnone

theorem StreamInv.runClose (hn : b.tasks[n]? = some (.close cs reason fence)) :
    StreamInv m (b.runClose n cs reason fence) h := by
  have hok : TaskOk b h (.close cs reason fence) := hi.tasks _ (List.mem_of_getElem? hn)
  have herase : ∀ t ∈ b.tasks.eraseIdx n, TaskOk b h t :=
    fun t ht => hi.tasks t (List.mem_of_mem_eraseIdx ht)
  unfold Broker.runClose
  cases cs with
  | nil => exact ⟨hi.buffer, hi.works, hi.fresh, herase⟩
  | cons c cs =>
    have hc : ∀ w, b.heap[c]? = some w →
        StreamOk m h c { w with stream := w.stream.close reason } :=
      fun w hw => (hi.works c w hw).close fun he => hok he c List.mem_cons_self
    dsimp only
    split
    · exact hi.at (by intro _; rfl) rfl rfl herase (by intro _ _; rfl) (by intro _ _; rfl) rfl hc
        (by intro _; rfl)
    · refine hi.at (by intro _; rfl) rfl rfl (fun t ht => ?_) (by intro _ _; rfl) (by intro _ _; rfl)
        rfl hc (by intro _; rfl)
      rcases List.mem_or_eq_of_mem_set ht with ht | rfl
      · exact hi.tasks t ht
      · exact fun he d hd => hok he d (List.mem_cons_of_mem _ hd)

/-- INVARIANT: every action but an invalidation for the reason `eof` keeps the streams intact. -/
theorem StreamInv.step (hlive : ∀ c ∈ b.works, Live b c) (act : Act)
    (hact : ∀ a g, act ≠ .invalidateAgent a g "eof") :
    StreamInv m (Relay.step b act) (h.record b act) := by
  have hlate : ∀ cs, TaskOk b h (.close cs deadlineExpired none) := fun cs => taskOk_close (by decide)
  have hkeep : ∀ {b'}, Moves (TaskOk b h) b b' → StreamInv m b' h :=
    fun hm => hi.moves hm fun _ ht => ht
  cases act with
  | offer a port request deadline => exact hkeep moves_offer
  | claim a g => exact hkeep moves_claim
  | resume k => exact hkeep moves_resume
  | giveUp k => exact hkeep moves_giveUp
  | abandonWaiter k => exact hkeep (moves_abandonWaiter fun cs => taskOk_close (by decide))
  | startResponse agent c g status contentType now =>
    exact hkeep (moves_startResponse hlate)
  | write agent c g chunk now => exact hi.write hlive agent c g chunk now
  | finish agent c g now => exact hi.finish agent c g now
  | fail agent c g code now =>
    exact hkeep (moves_fail hlate fun hc cs => taskOk_close (failCodes_ne_eof hc))
  | invalidateAgent a newer reason =>
    refine hkeep (moves_invalidateAgent fun cs => taskOk_close ?_)
    rintro rfl
    exact hact a newer rfl
  | disconnect c => exact hkeep (moves_disconnect fun cs => taskOk_close (by decide))
  | read c => exact hi.read c
  | runTask n now =>
    simp only [Relay.step, runTask, History.record]
    cases hn : b.tasks[n]? with
    | none => exact hi
    | some task =>
      cases task with
      | write c chunk deadline => exact hi.runWrite hn now
      | expire c => exact hkeep (moves_runExpire hlate)
      | close cs reason fence => exact hi.runClose hn

end

end

/-! ### Whole runs -/

/-- What the client of claim `c` can rely on; `counted` are the accepted chunks it is to see. -/
structure Integrity (maxBuffer : ℕ) (h : History) (c : ℕ) (w : Work) (counted : List Bytes) : Prop where
  inOrder : chunksOf (h.seen c) <+: counted
  atEnd : h.seen c = (chunksOf (h.seen c)).map .chunk ++ (terminalsOf (h.seen c)).map .terminal
  oneEnd : ∀ t ∈ terminalsOf (h.seen c), ∀ t' ∈ terminalsOf (h.seen c), t = t'
  cleanEnd : "eof" ∈ terminalsOf (h.seen c) → h.finished c = true ∧ chunksOf (h.seen c) = counted
  buffered : w.stream.buffered = (w.stream.chunks.map List.length).sum
  bounded : w.stream.buffered ≤ max maxBuffer maxResponseChunkBytes
  inTime : ∀ e ∈ h.accepted c, e.2 < w.deadline

theorem StreamOk.integrity (hok : StreamOk m h c w) :
    Integrity m h c w (nonEmpty (h.accepted c)) := by
  refine ⟨⟨w.stream.chunks, hok.split⟩, hok.order, ?_, ?_, hok.buffered, ?_, hok.inTime⟩
  · intro t ht t' ht'
    have := (hok.ends t ht).1.symm.trans (hok.ends t' ht').1
    exact some.inj this
  · intro heof
    obtain ⟨hterm, hq⟩ := hok.ends "eof" heof
    have hsplit := hok.split
    rw [hq, List.append_nil] at hsplit
    exact ⟨hok.eof hterm, hsplit⟩
  · rw [← hok.maxBytes]; exact hok.bounded

theorem streamInv_fresh : StreamInv m { maxBuffer := m } {} := by
  refine ⟨rfl, fun c w hw => ?_, fun c _ => ⟨rfl, rfl⟩, fun t ht => ?_⟩
  · cases hw
  · cases ht

/-- No invalidation is made for the reason `eof`. -/
def NoEofReason (act : Act) : Prop := ∀ a g, act ≠ .invalidateAgent a g "eof"

/-- CORRECT: on every claim, in every interleaving, the client sees the accepted bytes in order and
    complete before a clean end. -/
theorem stream_integrity (maxBuffer : ℕ) (acts : List Act) (hacts : ∀ act ∈ acts, NoEofReason act)
    {c : ℕ} {w : Work} (hw : (runs Traced.step (.fresh maxBuffer) acts).broker.heap[c]? = some w) :
    Integrity maxBuffer (runs Traced.step (.fresh maxBuffer) acts).history c w
      (nonEmpty ((runs Traced.step (.fresh maxBuffer) acts).history.accepted c)) := by
  have hreach : Reach Traced.step (fun _ => NoEofReason) (.fresh maxBuffer)
      (runs Traced.step (.fresh maxBuffer) acts) :=
    Admitted.reach acts .start (Admitted.of_forall acts _ hacts)
  have hinv := hreach.invariant
    (fun t : Traced => Fenced t.broker ∧ StreamInv maxBuffer t.broker t.history)
    ⟨fenced_fresh maxBuffer, streamInv_fresh⟩
    (fun t act ⟨hf, hi⟩ hact => ⟨hf.step act, hi.step hf.live act hact⟩)
  exact (hinv.2.works c w hw).integrity

/-- One chunk, then the end. -/
def oneChunk : List Act :=
  [.claim "desk" 1, .offer "desk" 8001 {} 100, .startResponse "desk" 0 1 200 "application/json" 5,
   .write "desk" 0 1 [104, 105] 6, .runTask 0 6, .finish "desk" 0 1 7, .runTask 0 7, .read 0, .read 0]

theorem stream_integrity_oneChunk : ∃ w,
    (runs Traced.step (.fresh 1024) oneChunk).broker.heap[0]? = some w ∧
    Integrity 1024 (runs Traced.step (.fresh 1024) oneChunk).history 0 w
      (nonEmpty ((runs Traced.step (.fresh 1024) oneChunk).history.accepted 0)) ∧
    (runs Traced.step (.fresh 1024) oneChunk).history.seen 0
      = [.chunk [104, 105], .terminal "eof"] := by
  have hacts : ∀ act ∈ oneChunk, NoEofReason act := by
    intro act hact a g he
    subst he
    simp [oneChunk] at hact
  exact ⟨_, rfl, stream_integrity 1024 oneChunk hacts rfl, by decide +kernel⟩

/-- A response is cut off by an invalidation whose reason is `eof`. -/
def eofReason : List Act :=
  [.claim "desk" 1, .offer "desk" 8001 {} 100, .startResponse "desk" 0 1 200 "application/json" 5,
   .invalidateAgent "desk" 2 "eof", .runTask 0 6, .read 0]

/-- An empty chunk goes before another. -/
def emptyChunk : List Act :=
  [.claim "desk" 1, .offer "desk" 8001 {} 100, .startResponse "desk" 0 1 200 "application/json" 5,
   .write "desk" 0 1 [] 6, .write "desk" 0 1 [104, 105] 7, .runTask 0 7, .read 0]

/-- The client sees a clean end that no finish made, or misses a chunk that was accepted. -/
theorem clean_end_without_finish :
    (∀ w, ¬ Integrity 1024 (runs Traced.step (.fresh 1024) eofReason).history 0 w
      (((runs Traced.step (.fresh 1024) eofReason).history.accepted 0).map (·.1))) ∧
    ∀ w, ¬ Integrity 1024 (runs Traced.step (.fresh 1024) emptyChunk).history 0 w
      (((runs Traced.step (.fresh 1024) emptyChunk).history.accepted 0).map (·.1)) := by
  constructor
  · intro w h
    have hseen : "eof" ∈ terminalsOf ((runs Traced.step (.fresh 1024) eofReason).history.seen 0) := by
      decide +kernel
    have hno : (runs Traced.step (.fresh 1024) eofReason).history.finished 0 = false := by
      decide +kernel
    have := (h.cleanEnd hseen).1
    cases this
  · intro w h
    have hnot : ¬ chunksOf ((runs Traced.step (.fresh 1024) emptyChunk).history.seen 0)
        <+: ((runs Traced.step (.fresh 1024) emptyChunk).history.accepted 0).map (·.1) := by
      decide +kernel
    exact hnot h.inOrder

end Fallow.Relay
