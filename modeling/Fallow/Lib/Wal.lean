import Mathlib

/-! A database in a main file and a write-ahead log.

    The main file is a list of pages. The log is a list of frames, one page each; a frame that ends
    a transaction carries the size of the database after it. Recovery takes the frames up to the
    first stale or damaged one, drops what follows the last commit, and replays the rest:

        frames   p₁  p₂  p₇/n  p₂/n'  p₃ │ stale …
                 └── txn ──┘  └ txn ┘ └─ no commit: dropped

        recover main log = replay (txns log) main

    A page is settled by a list of transactions if what they leave there does not depend on the
    image they start from. All facts about replaying twice, or over another image, are facts about
    which pages are settled. -/

namespace Fallow.Lib.Wal
open List

variable {α : Type*}

/-- `commit` is the size of the database in pages at the end of a transaction, 0 elsewhere. -/
structure Frame (α : Type*) where
  salt : ℕ
  intact : Bool
  page : ℕ
  data : α
  commit : ℕ
  deriving DecidableEq

/-- The log file: the salt of its header, and its frames. -/
structure Log (α : Type*) where
  salt : ℕ
  frames : List (Frame α)
  deriving DecidableEq

/-- A committed transaction: page writes, the last of them in the commit frame. -/
structure Txn (α : Type*) where
  before : List (ℕ × α)
  last : ℕ × α
  size : ℕ
  size_pos : 0 < size
  deriving DecidableEq

/-! ### Reading and writing the log -/

/-- The frames before the first one of another salt or with a bad checksum. -/
def Log.valid (l : Log α) : List (Frame α) :=
  l.frames.takeWhile fun f => f.salt = l.salt ∧ f.intact

/-- Cut frames into transactions; `writes` is the one being read. -/
def group (writes : List (ℕ × α)) : List (Frame α) → List (Txn α)
  | [] => []
  | f :: fs =>
    if h : 0 < f.commit then ⟨writes, (f.page, f.data), f.commit, h⟩ :: group [] fs
    else group (writes ++ [(f.page, f.data)]) fs

def Log.txns (l : Log α) : List (Txn α) := group [] l.valid

def Txn.frames (salt : ℕ) (t : Txn α) : List (Frame α) :=
  t.before.map (fun w => ⟨salt, true, w.1, w.2, 0⟩) ++ [⟨salt, true, t.last.1, t.last.2, t.size⟩]

/-- The log that holds exactly `ts`. -/
def Log.of (salt : ℕ) (ts : List (Txn α)) : Log α := ⟨salt, ts.flatMap (Txn.frames salt)⟩

/-- A commit goes after the last one; frames without a commit are overwritten. -/
def Log.append (l : Log α) (t : Txn α) : Log α := .of l.salt (l.txns ++ [t])

variable {salt : ℕ} {t : Txn α}

theorem group_frames : group [] (t.frames salt ++ fs) = t :: group [] fs := by
  have hloop : ∀ (ws acc : List (ℕ × α)), group acc
      (ws.map (fun w => (⟨salt, true, w.1, w.2, 0⟩ : Frame α)) ++
        ([⟨salt, true, t.last.1, t.last.2, t.size⟩] ++ fs))
      = ⟨acc ++ ws, t.last, t.size, t.size_pos⟩ :: group [] fs := by
    intro ws
    induction ws with
    | nil =>
      intro acc
      simp [group, t.size_pos]
    | cons w ws ih =>
      intro acc
      rw [map_cons, cons_append, group, dif_neg (Nat.lt_irrefl 0), ih]
      simp
  rw [Txn.frames, append_assoc, hloop]
  rfl

theorem Txn.frames_valid : ∀ f ∈ t.frames salt, f.salt = salt ∧ f.intact := by
  intro f hf
  rcases mem_append.1 hf with hf | hf
  · obtain ⟨w, -, rfl⟩ := mem_map.1 hf
    exact ⟨rfl, rfl⟩
  · rw [mem_singleton.1 hf]
    exact ⟨rfl, rfl⟩

variable {ts : List (Txn α)}

/-- CORRECT: what was committed is what recovery finds. -/
@[simp] theorem txns_of : (Log.of salt ts).txns = ts := by
  have hvalid : (Log.of salt ts).valid = ts.flatMap (Txn.frames salt) := by
    refine takeWhile_eq_self_iff.2 fun f hf => decide_eq_true ?_
    obtain ⟨t, -, hft⟩ := mem_flatMap.1 hf
    exact Txn.frames_valid f hft
  rw [Log.txns, hvalid]
  clear hvalid
  induction ts with
  | nil => rfl
  | cons t ts ih => rw [flatMap_cons, group_frames, ih]

@[simp] theorem txns_append {l : Log α} : (l.append t).txns = l.txns ++ [t] :=
  txns_of

/-! ### Replay -/

variable [Inhabited α]

/-- The last write to page `i`. -/
def Txn.page (t : Txn α) (i : ℕ) : Option α :=
  ((t.before ++ [t.last]).reverse.find? (·.1 = i)).map (·.2)

/-- Pages past the end of the file read as blank. -/
def Txn.apply (t : Txn α) (image : List α) : List α :=
  (range t.size).map fun i => (t.page i).getD (image.getD i default)

def replay (ts : List (Txn α)) (image : List α) : List α :=
  ts.foldl (fun image t => t.apply image) image

/-- What `ts` leaves at page `i` whatever was there; `none` if it leaves the page alone. -/
def settled (ts : List (Txn α)) (i : ℕ) : Option α :=
  ts.foldl (fun acc t => if i < t.size then (t.page i).or acc else some default) none

theorem replay_append (ps qs : List (Txn α)) (image : List α) :
    replay (ps ++ qs) image = replay qs (replay ps image) := foldl_append ..

variable {image main : List α} {i : ℕ}

theorem getD_apply : (t.apply image).getD i default
      = if i < t.size then (t.page i).getD (image.getD i default) else default := by
  rw [Txn.apply, getD_eq_getElem?_getD, getElem?_map]
  split
  · next h => rw [getElem?_range h]; rfl
  · next h => rw [getElem?_eq_none (by simpa using h)]; rfl

/-- A page after a replay: settled, or as it was. -/
theorem getD_replay :
    (replay ts image).getD i default = (settled ts i).getD (image.getD i default) := by
  have hfold : ∀ (ts : List (Txn α)) (img : List α) (acc : Option α),
      img.getD i default = acc.getD (image.getD i default) →
      (replay ts img).getD i default = (ts.foldl (fun acc t =>
        if i < t.size then (t.page i).or acc else some default) acc).getD (image.getD i default) := by
    intro ts
    induction ts with
    | nil => exact fun img acc h => h
    | cons t ts ih =>
      intro img acc h
      refine ih (t.apply img) _ ?_
      rw [getD_apply]
      dsimp only
      split
      · rw [h]
        cases t.page i with
        | none | some v => rfl
      · rfl
  exact hfold ts image none rfl

theorem length_replay :
    (replay ts image).length = (ts.getLast?.map (·.size)).getD image.length := by
  rcases eq_nil_or_concat ts with rfl | ⟨ts', t, rfl⟩
  · rfl
  · simp [replay, Txn.apply]

/-- Images are equal if they have the same pages. -/
theorem image_ext {a b : List α} (hlen : a.length = b.length)
    (hpage : ∀ i < b.length, a.getD i default = b.getD i default) : a = b := by
  refine ext_getElem hlen fun i ha hb => ?_
  have := hpage i hb
  rwa [getD_eq_getElem _ _ ha, getD_eq_getElem _ _ hb] at this

/-- Replaying twice is replaying once. -/
theorem replay_replay : replay ts (replay ts image) = replay ts image := by
  refine image_ext ?_ fun i _ => ?_
  · rw [length_replay, length_replay]
    cases ts.getLast? with
    | none | some t => rfl
  · rw [getD_replay, getD_replay]
    cases settled ts i with
    | none | some v => rfl

/-- A checkpoint writes back the first transactions of the log; recovery does not notice. -/
theorem replay_checkpoint (ps qs : List (Txn α)) (image : List α) :
    replay (ps ++ qs) (replay ps image) = replay (ps ++ qs) image := by
  rw [replay_append, replay_replay, replay_append]

/-- A log changes nothing iff the image has its size and its pages. -/
theorem replay_eq_self_iff (ts : List (Txn α)) (image : List α) :
    replay ts image = image ↔ ∀ t, ts.getLast? = some t → t.size = image.length ∧
      ∀ i < t.size, ∀ v, settled ts i = some v → image.getD i default = v := by
  constructor
  · intro h t ht
    refine ⟨?_, fun i _ v hv => ?_⟩
    · rw [← congrArg length h, length_replay, ht]
      rfl
    · rw [← h, getD_replay, hv]
      rfl
  · intro h
    cases hl : ts.getLast? with
    | none => rw [getLast?_eq_none_iff.1 hl]; rfl
    | some t =>
      obtain ⟨hsize, hpage⟩ := h t hl
      refine image_ext (by rw [length_replay, hl]; exact hsize) fun i hi => ?_
      rw [getD_replay]
      cases hv : settled ts i with
      | none => rfl
      | some v => exact (hpage i (hsize ▸ hi) v hv).symm

/-- A log makes two images equal iff they agree on the pages it leaves alone. -/
theorem replay_eq_replay_iff (hl : ts.getLast? = some t)
    {a b : List α} : replay ts a = replay ts b ↔
      ∀ i < t.size, settled ts i = none → a.getD i default = b.getD i default := by
  have hlen : ∀ image, (replay ts image).length = t.size := by
    intro image
    rw [length_replay, hl]
    rfl
  constructor
  · intro h i _ hnone
    have := congrArg (fun l : List α => l.getD i default) h
    simpa only [getD_replay, hnone, Option.getD_none] using this
  · intro h
    refine image_ext ((hlen a).trans (hlen b).symm) fun i hi => ?_
    rw [getD_replay, getD_replay]
    cases hs : settled ts i with
    | none => exact h i (hlen b ▸ hi) hs
    | some v => rfl

/-! ### Opening a database -/

/-- What opening finds: beside an empty or missing main file a log is deleted, otherwise its valid
    frames are replayed. -/
def recover (main : List α) (log : Option (Log α)) : List α :=
  match main, log with
  | [], _ => []
  | p :: ps, none => p :: ps
  | p :: ps, some l => replay l.txns (p :: ps)

theorem recover_eq (h : main ≠ []) :
    recover main log = replay ((log.map Log.txns).getD []) main := by
  cases main with
  | nil => exact absurd rfl h
  | cons p ps =>
    cases log with
    | none | some l => rfl

theorem replay_ne_nil (h : main ≠ []) (ts : List (Txn α)) : replay ts main ≠ [] := by
  have hpos : 0 < (replay ts main).length := by
    rw [length_replay]
    cases ts.getLast? with
    | none => exact length_pos_iff.2 h
    | some t => exact t.size_pos
  exact length_pos_iff.1 hpos

end Fallow.Lib.Wal
