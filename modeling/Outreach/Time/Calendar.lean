/-!
# Outreach.Time.Calendar

The proleptic Gregorian calendar as a numbering of days: day 0 is 1 January 1970. `Date.toDays`
and `Date.ofDays` go between dates and day numbers, `Weekday.ofDays` names the day of the week,
and `daysInMonth` gives the length of a month.
-/

namespace Outreach

structure Date where
  year : Int
  month : Nat
  day : Nat
deriving DecidableEq, Repr

def isLeapYear (y : Int) : Bool :=
  y % 4 == 0 && (y % 100 != 0 || y % 400 == 0)

def daysInMonth (y : Int) (m : Nat) : Nat :=
  if m = 2 then (if isLeapYear y then 29 else 28)
  else if m = 4 ∨ m = 6 ∨ m = 9 ∨ m = 11 then 30
  else 31

namespace Date

def Valid (d : Date) : Prop :=
  1 ≤ d.month ∧ d.month ≤ 12 ∧ 1 ≤ d.day ∧ d.day ≤ daysInMonth d.year d.month

instance (d : Date) : Decidable d.Valid := by
  unfold Valid; infer_instance

/-- Years are counted from March, so that the leap day is the last of its year; 146097 days
make an era of 400 years. -/
def toDays (d : Date) : Int :=
  let y := if d.month ≤ 2 then d.year - 1 else d.year
  let era := y / 400
  let yearOfEra := y % 400
  let month : Int := ((d.month + 9) % 12 : Nat)
  let dayOfYear := (153 * month + 2) / 5 + d.day - 1
  let dayOfEra := yearOfEra * 365 + yearOfEra / 4 - yearOfEra / 100 + dayOfYear
  era * 146097 + dayOfEra - 719468

def ofDays (n : Int) : Date :=
  let z := n + 719468
  let era := z / 146097
  let dayOfEra := z % 146097
  let yearOfEra :=
    (dayOfEra - dayOfEra / 1460 + dayOfEra / 36524 - dayOfEra / 146096) / 365
  let dayOfYear := dayOfEra - (365 * yearOfEra + yearOfEra / 4 - yearOfEra / 100)
  let month := (5 * dayOfYear + 2) / 153
  let day := dayOfYear - (153 * month + 2) / 5 + 1
  if month < 10 then ⟨yearOfEra + era * 400, (month + 3).toNat, day.toNat⟩
  else ⟨yearOfEra + era * 400 + 1, (month - 9).toNat, day.toNat⟩

example : toDays ⟨1970, 1, 1⟩ = 0 ∧ toDays ⟨2024, 2, 29⟩ = 19782 := by decide
example : ofDays 19782 = ⟨2024, 2, 29⟩ ∧ ofDays (-1) = ⟨1969, 12, 31⟩ := by decide

end Date

inductive Weekday where
  | mon
  | tue
  | wed
  | thu
  | fri
  | sat
  | sun
deriving DecidableEq, Repr

namespace Weekday

/-- The week in order, Monday first. -/
def all : List Weekday := [mon, tue, wed, thu, fri, sat, sun]

/-- Days since Monday. -/
def index : Weekday → Nat
  | mon => 0
  | tue => 1
  | wed => 2
  | thu => 3
  | fri => 4
  | sat => 5
  | sun => 6

/-- Day 0 was a Thursday. -/
def ofDays (n : Int) : Weekday :=
  match ((n + 3) % 7).toNat with
  | 0 => mon
  | 1 => tue
  | 2 => wed
  | 3 => thu
  | 4 => fri
  | 5 => sat
  | _ => sun

def abbreviation : Weekday → String
  | mon => "Mon"
  | tue => "Tue"
  | wed => "Wed"
  | thu => "Thu"
  | fri => "Fri"
  | sat => "Sat"
  | sun => "Sun"

/-- The first day on or after day `n` that is a `w`. -/
def onOrAfter (w : Weekday) (n : Int) : Int :=
  n + ((w.index : Int) - (ofDays n).index) % 7

theorem index_ofDays (n : Int) : ((ofDays n).index : Int) = (n + 3) % 7 := by
  have h0 : 0 ≤ (n + 3) % 7 := Int.emod_nonneg _ (by decide)
  have h7 : (n + 3) % 7 < 7 := Int.emod_lt_of_pos _ (by decide)
  rw [ofDays]
  generalize (n + 3) % 7 = k at h0 h7 ⊢
  obtain ⟨k, rfl⟩ := Int.eq_ofNat_of_zero_le h0
  have hk : k < 7 := by omega
  match k, hk with
  | 0, _ | 1, _ | 2, _ | 3, _ | 4, _ | 5, _ | 6, _ => rfl

/-- The day found is the wanted day of the week, less than a week ahead. -/
theorem ofDays_onOrAfter (w : Weekday) (n : Int) :
    ofDays (onOrAfter w n) = w ∧ n ≤ onOrAfter w n ∧ onOrAfter w n < n + 7 := by
  have hi := index_ofDays n
  have hj := index_ofDays (onOrAfter w n)
  have hw : w.index < 7 := by cases w <;> decide
  refine ⟨?_, by simp only [onOrAfter]; omega, by simp only [onOrAfter]; omega⟩
  have : (ofDays (onOrAfter w n)).index = w.index := by
    simp only [onOrAfter] at hj ⊢; omega
  revert this
  generalize ofDays (onOrAfter w n) = v
  cases v <;> cases w <;> decide

end Weekday
end Outreach
