import Fallow.Lib.Sorts
import Fallow.Queue.Sql

/-! `to_iso` of `_serialization.py`: the texts under which the store keeps its times.

        aware datetime ──▶ instant ──▶ 2026-03-01T08:15:00.000250+00:00
                            (µs)       year, month, day | clock

    Every field has its width, and the calendar counts days in order, so the texts sort as the
    instants do: what lets the other modules keep a time as an integer. -/

namespace Fallow.Queue
open Lib

/-! ### The calendar of `datetime` -/

def isLeap (year : ℕ) : Bool := year % 4 = 0 ∧ (year % 100 ≠ 0 ∨ year % 400 = 0)

def daysBeforeYear (year : ℕ) : ℕ :=
  let y := year - 1
  y * 365 + y / 4 - y / 100 + y / 400

def daysBeforeMonth (leap : Bool) (month : ℕ) : ℕ :=
  [0, 0, 31, 59, 90, 120, 151, 181, 212, 243, 273, 304, 334].getD month 0 +
    if month > 2 ∧ leap then 1 else 0

/-- Year and day of the year, both of day `n` counted from 0001-01-01. -/
def yearDay (n : ℕ) : ℕ × ℕ :=
  let n400 := n / 146097
  let n := n % 146097
  let n100 := n / 36524
  let n := n % 36524
  let n4 := n / 1461
  let n := n % 1461
  let n1 := n / 365
  let year := n400 * 400 + n100 * 100 + n4 * 4 + n1 + 1
  if n1 = 4 ∨ n100 = 4 then (year - 1, 365) else (year, n % 365)

def monthDay (leap : Bool) (n : ℕ) : ℕ × ℕ :=
  let month := (n + 50) / 32
  let month := if daysBeforeMonth leap month > n then month - 1 else month
  (month, n - daysBeforeMonth leap month + 1)

/-- A datetime with a time zone: what its clock shows, and the offset from UTC. -/
structure Datetime where
  year : ℕ
  month : ℕ
  day : ℕ
  hour : ℕ
  minute : ℕ
  second : ℕ
  microsecond : ℕ
  utcoffset : ℤ

def microsPerDay : ℕ := 86400000000

/-- Days from 0001-01-01 to the epoch. -/
def epoch : ℕ := 719162

/-- The instant, in microseconds since the epoch. -/
def Datetime.instant (d : Datetime) : ℤ :=
  (daysBeforeYear d.year + daysBeforeMonth (isLeap d.year) d.month + d.day - 1 - epoch : ℤ) *
    microsPerDay + d.hour * 3600000000 + d.minute * 60000000 + d.second * 1000000 +
    d.microsecond - d.utcoffset

def isoDay (leap : Bool) (n : ℕ) : List Char :=
  pad 2 (monthDay leap n).1 ++ '-' :: pad 2 (monthDay leap n).2

def isoDate (n : ℕ) : List Char :=
  pad 4 (yearDay n).1 ++ '-' :: isoDay (isLeap (yearDay n).1) (yearDay n).2

def isoSecond (t : ℕ) : List Char := pad 2 (t / 1000000) ++ '.' :: pad 6 (t % 1000000)

def isoMinute (t : ℕ) : List Char := pad 2 (t / 60000000) ++ ':' :: isoSecond (t % 60000000)

def isoClock (t : ℕ) : List Char := pad 2 (t / 3600000000) ++ ':' :: isoMinute (t % 3600000000)

/-- `isoformat(timespec="microseconds")` of a UTC time, from microseconds since 0001-01-01. -/
def isoformat (t : ℕ) : List Char :=
  isoDate (t / microsPerDay) ++ 'T' :: isoClock (t % microsPerDay) ++ "+00:00".toList

/-- `None` is the `OverflowError` of a UTC time outside the years 1 to 9999. -/
def toIso (d : Datetime) : Option (List Char) :=
  let t := d.instant + epoch * microsPerDay
  if 0 ≤ t ∧ t < 3652059 * microsPerDay then some (isoformat t.toNat) else none

/-! ### Order -/

theorem isLeap_iff (year : ℕ) :
    isLeap year = true ↔ year % 4 = 0 ∧ (year % 100 ≠ 0 ∨ year % 400 = 0) := decide_eq_true_iff

/-- Four centuries, a century, four years, a year. -/
theorem daysBeforeYear_parts {a b c d : ℕ} (hb : b < 4) (hc : c < 25) (hd : d < 4) :
    daysBeforeYear (a * 400 + b * 100 + c * 4 + d + 1) =
      a * 146097 + b * 36524 + c * 1461 + d * 365 := by
  have h4 : (a * 400 + b * 100 + c * 4 + d) / 4 = a * 100 + b * 25 + c := by omega
  have h100 : (a * 400 + b * 100 + c * 4 + d) / 100 = a * 4 + b := by omega
  have h400 : (a * 400 + b * 100 + c * 4 + d) / 400 = a := by omega
  simp only [daysBeforeYear, Nat.add_sub_cancel, h4, h100, h400]
  omega

theorem yearDay_spec (n : ℕ) : daysBeforeYear (yearDay n).1 + (yearDay n).2 = n ∧
    1 ≤ (yearDay n).1 ∧ (yearDay n).2 < if isLeap (yearDay n).1 then 366 else 365 := by
  have hn := Nat.div_add_mod n 146097
  have h400 : n % 146097 < 146097 := Nat.mod_lt _ (by decide)
  simp only [isLeap_iff, yearDay]
  generalize n / 146097 = a at *
  generalize n % 146097 = n' at *
  split
  next hlast =>
    -- the last day of four years, or of four centuries
    obtain ⟨b, c, hb, hc, hday, hyear, hleap⟩ : ∃ b c, b < 4 ∧ c < 25 ∧
        n' = b * 36524 + c * 1461 + 1460 ∧ n' / 36524 * 100 + n' % 36524 / 1461 * 4 +
          n' % 36524 % 1461 / 365 = b * 100 + c * 4 + 4 ∧ (c = 24 → b = 3) := by
      rcases hlast with h | h
      · exact ⟨n' / 36524, n' % 36524 / 1461, by omega⟩
      · exact ⟨3, 24, by omega⟩
    have hparts := daysBeforeYear_parts (a := a) hb hc (show 3 < 4 by decide)
    rw [show a * 400 + n' / 36524 * 100 + n' % 36524 / 1461 * 4 + n' % 36524 % 1461 / 365 + 1 - 1 =
      a * 400 + b * 100 + c * 4 + 3 + 1 by omega, hparts, if_pos (by omega)]
    omega
  · rw [daysBeforeYear_parts (by omega) (by omega) (by omega)]
    refine ⟨by omega, by omega, ?_⟩
    split <;> omega

theorem daysBeforeYear_succ {year : ℕ} (h : 1 ≤ year) : daysBeforeYear (year + 1) =
    daysBeforeYear year + if isLeap year then 366 else 365 := by
  obtain ⟨y, rfl⟩ := Nat.exists_eq_add_of_le' h
  simp only [daysBeforeYear, isLeap_iff, Nat.add_one_sub_one, Nat.succ_div, Nat.dvd_iff_mod_eq_zero]
  split_ifs <;> omega

theorem daysBeforeYear_mono : Monotone daysBeforeYear :=
  monotone_nat_of_le_succ fun
    | 0 => by decide
    | y + 1 => by
      rw [daysBeforeYear_succ y.succ_pos]
      exact Nat.le_add_right _ _

theorem yearDay_lt {x y : ℕ} (h : x < y) :
    (yearDay x).1 < (yearDay y).1 ∨ (yearDay x).1 = (yearDay y).1 ∧ (yearDay x).2 < (yearDay y).2 := by
  obtain ⟨hx, -, -⟩ := yearDay_spec x
  obtain ⟨hy, hy1, hyd⟩ := yearDay_spec y
  rcases Nat.lt_trichotomy (yearDay x).1 (yearDay y).1 with hlt | heq | hgt
  · exact .inl hlt
  · rw [heq] at hx
    exact .inr ⟨heq, by omega⟩
  · have hsucc := daysBeforeYear_succ hy1
    have hmono : daysBeforeYear ((yearDay y).1 + 1) ≤ _ := daysBeforeYear_mono hgt
    omega

theorem sorts_isoDay (leap : Bool) : Sorts 5 (if leap then 366 else 365) (isoDay leap) := by
  cases leap with
  | true => exact .of_succ (by decide +kernel) (by decide +kernel)
  | false => exact .of_succ (by decide +kernel) (by decide +kernel)

theorem sorts_isoDate : Sorts 10 3652059 isoDate := by
  refine (sorts_pad 4).lex (fun year => (sorts_isoDay (isLeap year)).cons '-') (fun n hn => ?_)
    (fun n _ => (yearDay_spec n).2.2) fun _ _ _ => yearDay_lt
  obtain ⟨hday, -⟩ := yearDay_spec n
  by_contra hge
  have hmono := daysBeforeYear_mono (not_lt.1 hge)
  have hmax : daysBeforeYear (10 ^ 4) = 3652059 := by decide
  omega

theorem sorts_isoformat : Sorts 32 (3652059 * microsPerDay) isoformat := by
  have hsecond : Sorts 9 60000000 isoSecond :=
    .pair (f := pad 2) (k := 1000000) ((sorts_pad 2).le (m := 60) (by decide)) ((sorts_pad 6).cons '.')
  have hminute : Sorts 12 3600000000 isoMinute :=
    .pair (f := pad 2) (k := 60000000) ((sorts_pad 2).le (m := 60) (by decide)) (hsecond.cons ':')
  have hclock : Sorts 15 86400000000 isoClock :=
    .pair (f := pad 2) (k := 3600000000) ((sorts_pad 2).le (m := 24) (by decide)) (hminute.cons ':')
  exact (sorts_isoDate.pair (hclock.cons 'T')).concat "+00:00".toList

/-! ### What is stored -/

/-- `SELECTOR_EXPIRED` on the columns as they are stored. -/
def selectorExpiredText (now : List Char) (state : WorkUnitState)
    (leaseExpires : Option (List Char)) : Bool :=
  state = .leased ∧ leaseExpires.any (· < now)

/-- A time column that holds `NULL` or what `to_iso` made of the time. -/
inductive Stored : Option ℤ → Option (List Char) → Prop where
  | null : Stored none none
  | text {d : Datetime} (h : toIso d = some s) : Stored (some d.instant) (some s)

theorem toIso_lt_iff {a b : Datetime} (ha : toIso a = some s) (hb : toIso b = some t) :
    s < t ↔ a.instant < b.instant := by
  simp only [toIso, Option.ite_none_right_eq_some, Option.some.injEq] at ha hb
  obtain ⟨ha, rfl⟩ := ha
  obtain ⟨hb, rfl⟩ := hb
  rw [sorts_isoformat.lt_iff (by omega) (by omega)]
  omega

/-- CORRECT: stored times sort as instants, so `requeue_expired` selects the leases whose expiry is
    before now. -/
theorem timestamps_sort {a b : Datetime} (ha : toIso a = some s) (hb : toIso b = some t) :
    (s < t ↔ a.instant < b.instant) ∧ ∀ (w : UnitRow) (text : Option (List Char)),
      Stored w.leaseExpires text →
        selectorExpiredText t w.state text = Sql.selectorExpired b.instant w := by
  refine ⟨toIso_lt_iff ha hb, fun w text h => ?_⟩
  rw [selectorExpiredText, Sql.selectorExpired]
  generalize w.leaseExpires = e at h
  cases h with
  | null => rfl
  | text h => simp only [Option.any_some, toIso_lt_iff h hb]

/-- Half past eleven at one hour west of UTC, and two o'clock at one hour east. -/
theorem timestamps_sort_new_year :
    "2025-01-01T00:30:00.000001+00:00".toList < "2025-01-01T01:00:00.000000+00:00".toList ↔
      (⟨2024, 12, 31, 23, 30, 0, 1, -3600000000⟩ : Datetime).instant <
        (⟨2025, 1, 1, 2, 0, 0, 0, 3600000000⟩ : Datetime).instant :=
  (timestamps_sort (by decide +kernel) (by decide +kernel)).1

end Fallow.Queue
