import Fallow.Lib.Crash

/-! The disk and the network as the model cache meets them.

    A file is its bytes; a path without a file reads `none`. Every command that can fail does so when
    the outside says so: a failed `append` leaves some of its bytes behind, every other failed command
    leaves the disk alone. Renaming is atomic. A response is what the HTTP client hands on: nothing,
    or a status and the pieces of the body that arrive before it ends or breaks off. -/

namespace Fallow.ModelCache
open Lib Crash Function

abbrev Bytes := List UInt8

abbrev Path := String

/-- The files on disk. -/
abbrev Fs := Path → Option Bytes

inductive Response where
  | refused
  | answered (status : ℕ) (chunks : List Bytes) (whole : Bool)
  deriving DecidableEq, Repr

/-- Operations that change the disk. -/
inductive Op where
  | mkdir (p : Path)
  /-- open for writing, emptied -/
  | create (p : Path)
  | openAppend (p : Path)
  | append (p : Path) (bs : Bytes)
  | close
  | unlink (p : Path)
  | rename (p q : Path)
  deriving DecidableEq, Repr

inductive Cmd where
  | isFile (p : Path)
  | read (p : Path)
  | disk (op : Op)
  /-- `GET` of a model's blob with a `Range` header -/
  | get (modelId : String) (range : Option String)
  /-- sleep this many times the backoff base -/
  | sleep (factor : ℕ)
  deriving DecidableEq, Repr

/-- What a command hands back; an operation's `false` is an `OSError`. -/
abbrev Answer : Cmd → Type
  | .isFile _ => Bool
  | .read _ => Option Bytes
  | .disk _ => Bool
  | .get _ _ => Response
  | .sleep _ => Unit

/-- How the next command goes: whether the disk fails it, after how many bytes, and what the
    coordinator would answer. -/
structure Env where
  fails : Option ℕ := none
  answer : String → Option String → Response := fun _ _ => .refused

/-- One operation. -/
def Op.run (v : Env) (fs : Fs) : Op → Bool × Fs
  | .mkdir _ | .close => (v.fails = none, fs)
  | .create p => match v.fails with
    | none => (true, update fs p (some []))
    | some _ => (false, fs)
  | .openAppend p => match v.fails with
    | none => (true, update fs p (some ((fs p).getD [])))
    | some _ => (false, fs)
  | .append p bs => match v.fails with
    | none => (true, update fs p (some ((fs p).getD [] ++ bs)))
    | some n => (false, update fs p (some ((fs p).getD [] ++ bs.take n)))
  | .unlink p => match v.fails with
    | none => (true, update fs p none)
    | some _ => (false, fs)
  | .rename p q => match v.fails, fs p with
    | none, some b => (true, update (update fs p none) q (some b))
    | _, _ => (false, fs)

/-- One command. -/
def sem : (c : Cmd) → Env → Fs → Answer c × Fs
  | .isFile p, _, fs => ((fs p).isSome, fs)
  | .read p, v, fs => (if v.fails = none then fs p else none, fs)
  | .disk op, v, fs => op.run v fs
  | .get modelId range, v, fs => (v.answer modelId range, fs)
  | .sleep _, _, fs => ((), fs)

/-! ### What an operation does -/

section
variable (v : Env) (fs : Fs) (p q : Path)

theorem run_mkdir : (Op.mkdir p).run v fs = (true, fs) ∨ (Op.mkdir p).run v fs = (false, fs) := by
  rcases hv : v.fails with _ | n
  · exact .inl (by simp [Op.run, hv])
  · exact .inr (by simp [Op.run, hv])

theorem run_close : Op.close.run v fs = (true, fs) ∨ Op.close.run v fs = (false, fs) := by
  rcases hv : v.fails with _ | n
  · exact .inl (by simp [Op.run, hv])
  · exact .inr (by simp [Op.run, hv])

theorem run_create : (Op.create p).run v fs = (true, update fs p (some [])) ∨
    (Op.create p).run v fs = (false, fs) := by
  rcases hv : v.fails with _ | n
  · exact .inl (by simp only [Op.run, hv])
  · exact .inr (by simp only [Op.run, hv])

theorem run_openAppend : (Op.openAppend p).run v fs = (true, update fs p (some ((fs p).getD []))) ∨
    (Op.openAppend p).run v fs = (false, fs) := by
  rcases hv : v.fails with _ | n
  · exact .inl (by simp only [Op.run, hv])
  · exact .inr (by simp only [Op.run, hv])

/-- A failed `append` has written some of its bytes. -/
theorem run_append (bs : Bytes) :
    (Op.append p bs).run v fs = (true, update fs p (some ((fs p).getD [] ++ bs))) ∨ ∃ w, w <+: bs ∧
      (Op.append p bs).run v fs = (false, update fs p (some ((fs p).getD [] ++ w))) := by
  rcases hv : v.fails with _ | n
  · exact .inl (by simp only [Op.run, hv])
  · exact .inr ⟨bs.take n, List.take_prefix n bs, by simp only [Op.run, hv]⟩

theorem run_unlink : (Op.unlink p).run v fs = (true, update fs p none) ∨
    (Op.unlink p).run v fs = (false, fs) := by
  rcases hv : v.fails with _ | n
  · exact .inl (by simp only [Op.run, hv])
  · exact .inr (by simp only [Op.run, hv])

/-- A `rename` moves the whole file or nothing. -/
theorem run_rename : (v.fails = none ∧ ∃ b, fs p = some b ∧
      (Op.rename p q).run v fs = (true, update (update fs p none) q (some b))) ∨
    ((v.fails ≠ none ∨ fs p = none) ∧ (Op.rename p q).run v fs = (false, fs)) := by
  rcases hv : v.fails with _ | n
  · rcases hb : fs p with _ | b
    · exact .inr ⟨.inr rfl, by simp only [Op.run, hv, hb]⟩
    · exact .inl ⟨rfl, b, rfl, by simp only [Op.run, hv, hb]⟩
  · exact .inr ⟨.inl (by simp), by simp only [Op.run, hv]⟩

end

end Fallow.ModelCache
