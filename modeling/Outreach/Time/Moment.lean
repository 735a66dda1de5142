import Outreach.Text.Numeral
import Outreach.Time.Calendar

/-!
# Outreach.Time.Moment

A `Moment` is a reading of a clock: whole seconds since 1970-01-01T00:00:00 on that clock, and
nanoseconds. An `Instant` is the reading of the UTC clock, a `WallTime` that of a clock on a wall
in some zone. Nanoseconds from 10⁹ on lie within a leap second, which is written as second 60
and comes after the whole of its second and before the next one.

* `Moment.plus`, `Moment.plus?` — adding a number of nanoseconds, without and with the check
  that the result is representable.
* `Moment.since` — the nanoseconds from one reading to another.
* `Fault` — how a computation with moments fails.
-/

namespace Outreach

structure Moment where
  seconds : Int
  nanos : Nat
deriving DecidableEq, Repr

abbrev Instant := Moment
abbrev WallTime := Moment

/-- How a computation with moments fails: for a cause of its own, or because it leaves the
representable range where that is not foreseen. An overflow ends the run. -/
inductive Fault (ε : Type) where
  | cause (e : ε)
  | overflow
deriving DecidableEq, Repr

/-- A time span counts nanoseconds. -/
abbrev Span := Int

namespace Span

def ofSeconds (n : Int) : Span := n * 1000000000
def ofMillis (n : Int) : Span := n * 1000000

/-- The largest number of milliseconds in a time span, in either direction. -/
def mostMillis : Nat := 9223372036854775807

/-- A number of milliseconds as a span, if it is within the limit. -/
def ofMillis? (n : Int) : Option Span := if n.natAbs ≤ mostMillis then some (ofMillis n) else none

def ofMinutes (n : Int) : Span := ofSeconds (n * 60)
def ofHours (n : Int) : Span := ofSeconds (n * 3600)
def ofDays (n : Int) : Span := ofSeconds (n * 86400)

end Span

namespace Moment

instance : LT Moment where
  lt a b := a.seconds < b.seconds ∨ (a.seconds = b.seconds ∧ a.nanos < b.nanos)

instance : LE Moment where
  le a b := a.seconds < b.seconds ∨ (a.seconds = b.seconds ∧ a.nanos ≤ b.nanos)

instance (a b : Moment) : Decidable (a < b) :=
  inferInstanceAs (Decidable (a.seconds < b.seconds ∨ (a.seconds = b.seconds ∧ a.nanos < b.nanos)))

instance (a b : Moment) : Decidable (a ≤ b) :=
  inferInstanceAs (Decidable (a.seconds < b.seconds ∨ (a.seconds = b.seconds ∧ a.nanos ≤ b.nanos)))

theorem lt_def {a b : Moment} :
    a < b ↔ a.seconds < b.seconds ∨ (a.seconds = b.seconds ∧ a.nanos < b.nanos) := Iff.rfl

theorem le_def {a b : Moment} :
    a ≤ b ↔ a.seconds < b.seconds ∨ (a.seconds = b.seconds ∧ a.nanos ≤ b.nanos) := Iff.rfl

theorem not_lt {a b : Moment} : ¬ a < b ↔ b ≤ a := by
  rw [lt_def, le_def]; omega

/-- The first representable day, 1 January of the year -262143. -/
def firstDay : Int := -96465292

/-- The last representable day, 31 December of the year 262142. -/
def lastDay : Int := 95026236

example : firstDay = Date.toDays ⟨-262143, 1, 1⟩ ∧ lastDay = Date.toDays ⟨262142, 12, 31⟩ := by
  decide

def IsDay (n : Int) : Prop :=
  firstDay ≤ n ∧ n ≤ lastDay

instance (n : Int) : Decidable (IsDay n) := by
  unfold IsDay; infer_instance

/-- The number of the day in which the moment lies. -/
def day (t : Moment) : Int :=
  t.seconds / 86400

def secondOfDay (t : Moment) : Int :=
  t.seconds % 86400

def InRange (t : Moment) : Prop :=
  IsDay t.day

instance (t : Moment) : Decidable t.InRange := by
  unfold InRange; infer_instance

/-- The moment on day `n`, `s` seconds after its midnight. -/
def ofDay (n : Int) (s : Int) : Moment :=
  ⟨n * 86400 + s, 0⟩

def ofNanos (n : Int) : Moment :=
  ⟨n / 1000000000, (n % 1000000000).toNat⟩

def toNanos (t : Moment) : Int :=
  t.seconds * 1000000000 + t.nanos

/-- The same reading `offset` seconds further on. -/
def shift (t : Moment) (offset : Int) : Moment :=
  ⟨t.seconds + offset, t.nanos⟩

/-- Adds a span. Inside a leap second a step of under a second moves within it; a longer step
forward leaves it as if it were the second it belongs to, and a step back enters from the
second after it. -/
def plus (t : Moment) (d : Span) : Moment :=
  if t.nanos < 1000000000 then ofNanos (t.toNanos + d)
  else if 1000000000 ≤ d ∨ (0 < d ∧ 2000000000 ≤ t.nanos + d) then
    ofNanos (t.toNanos - 1000000000 + d)
  else if d ≤ -1000000000 then ofNanos (t.toNanos + d)
  else ⟨t.seconds, (t.nanos + d).toNat⟩

def plus? (t : Moment) (d : Span) : Option Moment :=
  if (t.plus d).InRange then some (t.plus d) else none

/-- The span from `s` to `t`. A leap second counts only if the other reading is at a different
time of day. -/
def since (t s : Moment) : Span :=
  let gap := t.secondOfDay - s.secondOfDay
  let leap : Int :=
    if s.secondOfDay < t.secondOfDay ∧ 1000000000 ≤ s.nanos then 1
    else if t.secondOfDay < s.secondOfDay ∧ 1000000000 ≤ t.nanos then -1
    else 0
  Span.ofSeconds ((t.day - s.day) * 86400 + gap + leap) + ((t.nanos : Int) - s.nanos)

theorem plus_of_not_leap {t : Moment} (h : t.nanos < 1000000000) (d : Span) :
    t.plus d = ofNanos (t.toNanos + d) := by
  simp [plus, h]

theorem plus?_eq_some_iff {t u : Moment} {d : Span} :
    t.plus? d = some u ↔ t.plus d = u ∧ u.InRange := by
  unfold plus?
  split
  · constructor
    · intro h; cases h; exact ⟨rfl, by assumption⟩
    · rintro ⟨rfl, _⟩; rfl
  · constructor
    · intro h; cases h
    · rintro ⟨rfl, h⟩; contradiction

/-! ## Writing -/

/-- Four digits for the years 0 to 9999; any other year has a sign and at least four digits. -/
def yearText (y : Int) : List Char :=
  if 0 ≤ y ∧ y ≤ 9999 then Numeral.digits 4 y.toNat
  else
    let n := y.natAbs
    (if y < 0 then '-' else '+') ::
      (if n < 1000 then Numeral.digits 4 n else (toString n).toList)

def dateText (t : Moment) : List Char :=
  let d := Date.ofDays t.day
  yearText d.year ++ '-' :: Numeral.digits 2 d.month ++ '-' :: Numeral.digits 2 d.day

/-- A leap second shows as the second after the one it belongs to. -/
def clockText (t : Moment) : List Char :=
  let s := t.secondOfDay.toNat
  let second := s % 60 + (if 1000000000 ≤ t.nanos then 1 else 0)
  Numeral.digits 2 (s / 3600) ++ ':' :: Numeral.digits 2 (s / 60 % 60) ++
    ':' :: Numeral.digits 2 second

/-- Nanoseconds within the second shown. -/
def fraction (t : Moment) : Nat :=
  if 1000000000 ≤ t.nanos then t.nanos - 1000000000 else t.nanos

/-- The fraction with the fewest of 0, 3, 6 and 9 digits that is exact. -/
def fractionText (t : Moment) : List Char :=
  let n := t.fraction
  if n = 0 then []
  else if n % 1000000 = 0 then '.' :: Numeral.digits 3 (n / 1000000)
  else if n % 1000 = 0 then '.' :: Numeral.digits 6 (n / 1000)
  else '.' :: Numeral.digits 9 n

/-- `YYYY-MM-DD HH:MM:SS`, with a fraction if there is one. -/
def text (t : Moment) : String :=
  String.ofList (t.dateText ++ ' ' :: t.clockText ++ t.fractionText)

/-- As `text`, with a `T` between date and time. -/
def textT (t : Moment) : String :=
  String.ofList (t.dateText ++ 'T' :: t.clockText ++ t.fractionText)

end Moment
end Outreach
