import Outreach.Text.Quoted
import Outreach.Time.Zone

/-!
# Outreach.Schedule

Repeating schedules. A schedule fires at an hour and minute of the wall clock of a zone: every
day, on some days of the week, or on one day of each month, where a day past the end of the
month means its last day.

* `Schedule.weekdays` — the days of the week that the letters of `days` name.
* `Schedule.validate` — the fields that the repeat period needs are there and in range.
* `Schedule.nextFire` — the first fire after an instant.
-/

namespace Outreach

inductive RepeatPeriod where
  | never
  | daily
  | weekly
  | monthly
deriving DecidableEq, Repr

inductive ScheduleError where
  | missingHourOrMinute
  | weeklyWithoutDays
  | monthlyWithoutDay
  | unknownRepeatPeriod (code : String)
  | invalidDayOfWeek (letter : Char)
  | invalidTime (hour minute : Nat)
  | invalidDayOfMonth (day : Nat)
  | unresolvable (wall : WallTime) (zone : String)
deriving DecidableEq, Repr

namespace ScheduleError

def message : ScheduleError → String
  | missingHourOrMinute => "repeating schedule needs both hour and minute"
  | weeklyWithoutDays => "weekly schedule needs at least one day of the week"
  | monthlyWithoutDay => "monthly schedule needs a day of the month"
  | unknownRepeatPeriod code => "unknown repeat period " ++ quoteText code
  | invalidDayOfWeek letter => "invalid day of week " ++ quoteChar letter
  | invalidTime hour minute => s!"invalid time of day {hour}:{minute}"
  | invalidDayOfMonth day => s!"invalid day of month {day}"
  | unresolvable wall zone => "cannot resolve " ++ wall.text ++ " in " ++ zone

end ScheduleError

namespace RepeatPeriod

/-- The letter by which a period is stored and shown. -/
def code : RepeatPeriod → String
  | never => "O"
  | daily => "D"
  | weekly => "W"
  | monthly => "M"

def ofCode (s : String) : Except ScheduleError RepeatPeriod :=
  if s = "O" then .ok never
  else if s = "D" then .ok daily
  else if s = "W" then .ok weekly
  else if s = "M" then .ok monthly
  else .error (.unknownRepeatPeriod s)

theorem ofCode_code (p : RepeatPeriod) : ofCode p.code = .ok p := by
  cases p <;> simp [code, ofCode]

end RepeatPeriod

/-- The letter of a day of the week; `R` is Thursday and `U` Sunday. -/
def Weekday.ofLetter? : Char → Option Weekday
  | 'M' => some .mon
  | 'T' => some .tue
  | 'W' => some .wed
  | 'R' => some .thu
  | 'F' => some .fri
  | 'S' => some .sat
  | 'U' => some .sun
  | _ => none

structure Schedule where
  repeats : RepeatPeriod
  hour : Option Nat
  minute : Option Nat
  day : Option Nat
  days : Option String
deriving DecidableEq, Repr

namespace Schedule

def daily (hour minute : Nat) : Schedule :=
  ⟨.daily, some hour, some minute, none, none⟩

def weekly (days : String) (hour minute : Nat) : Schedule :=
  ⟨.weekly, some hour, some minute, none, some days⟩

def monthly (day hour minute : Nat) : Schedule :=
  ⟨.monthly, some hour, some minute, some day, none⟩

/-- The days of a list of letters, or the first letter that names none. -/
def weekdaysOf : List Char → Except ScheduleError (List Weekday)
  | [] => .ok []
  | c :: cs =>
    match Weekday.ofLetter? c with
    | none => .error (.invalidDayOfWeek c)
    | some d =>
      match weekdaysOf cs with
      | .error e => .error e
      | .ok ds => .ok (d :: ds)

/-- The days of the week selected, each once, Monday first. -/
def weekdays (s : Schedule) : Except ScheduleError (List Weekday) :=
  match weekdaysOf (s.days.getD "").toList with
  | .error e => .error e
  | .ok ds => .ok (Weekday.all.filter fun d => ds.contains d)

/-- The second of the day at which the schedule fires. -/
def timeOfDay (s : Schedule) : Except ScheduleError Int :=
  match s.hour, s.minute with
  | some hour, some minute =>
    if hour < 24 ∧ minute < 60 then .ok ((hour * 3600 + minute * 60 : Nat) : Int)
    else .error (.invalidTime hour minute)
  | _, _ => .error .missingHourOrMinute

/-- The time of day, with the fields the period needs beside it checked. -/
def validate (s : Schedule) : Except ScheduleError Unit :=
  match s.repeats with
  | .never => .ok ()
  | .daily =>
    match s.timeOfDay with
    | .error e => .error e
    | .ok _ => .ok ()
  | .weekly =>
    match s.timeOfDay with
    | .error e => .error e
    | .ok _ =>
      match s.weekdays with
      | .error e => .error e
      | .ok [] => .error .weeklyWithoutDays
      | .ok (_ :: _) => .ok ()
  | .monthly =>
    match s.timeOfDay with
    | .error e => .error e
    | .ok _ =>
      match s.day with
      | none => .error .monthlyWithoutDay
      | some day =>
        if 1 ≤ day ∧ day ≤ 31 then .ok () else .error (.invalidDayOfMonth day)

/-- Day `day` of the month `ahead` months after that of day `n`, or its last day if the month is
shorter. There is none past the last representable month. -/
def dayOfMonth? (n : Int) (ahead day : Nat) : Option Int :=
  let base := Date.ofDays n
  let index := base.year * 12 + (base.month : Int) - 1 + ahead
  let year := index / 12
  let month := (index % 12).toNat + 1
  let next : Date := if month = 12 then ⟨year + 1, 1, 1⟩ else ⟨year, month + 1, 1⟩
  if Moment.IsDay next.toDays then
    some (Date.toDays ⟨year, month, min day (daysInMonth year month)⟩)
  else none

/-- Day `n` and the `count` days after it; all of them have to be representable. -/
def daysAhead (n : Int) (count : Nat) : Option (List Int) :=
  let days := (List.range (count + 1)).map fun (k : Nat) => n + k
  if ∀ d ∈ days, Moment.IsDay d then some days else none

/-- The days to try from day `n` on, in order. -/
def candidates (s : Schedule) (n : Int) : Except (Fault ScheduleError) (List Int) :=
  match s.repeats with
  | .never => .ok []
  | .daily =>
    match daysAhead n 1 with
    | none => .error .overflow
    | some ds => .ok ds
  | .weekly =>
    match s.weekdays with
    | .error e => .error (.cause e)
    | .ok selected =>
      match daysAhead n 7 with
      | none => .error .overflow
      | some ds => .ok (ds.filter fun d => selected.contains (Weekday.ofDays d))
  | .monthly =>
    match s.day with
    | none => .error (.cause .monthlyWithoutDay)
    | some day => .ok ((List.range 3).filterMap fun m => dayOfMonth? n m day)

/-- The first of the days whose fire, at second `time` of the day, is after `now`. -/
def firstAfter (z : Zone) (now : Instant) (time : Int) :
    List Int → Except (Fault ScheduleError) (Option Instant)
  | [] => .ok none
  | d :: ds =>
    let wall := Moment.ofDay d time
    match z.localize wall with
    | .error .overflow => .error .overflow
    | .error (.cause _) => .error (.cause (.unresolvable wall z.name))
    | .ok fire => if now < fire then .ok (some fire) else firstAfter z now time ds

/-- The first fire strictly after `now`; a schedule that never repeats has none. -/
def nextFire (s : Schedule) (z : Zone) (now : Instant) :
    Except (Fault ScheduleError) (Option Instant) :=
  match s.validate with
  | .error e => .error (.cause e)
  | .ok () =>
    if s.repeats = .never then .ok none
    else
      match s.timeOfDay with
      | .error e => .error (.cause e)
      | .ok time =>
        match z.wallTime? now with
        | none => .error .overflow
        | some today =>
          match s.candidates today.day with
          | .error e => .error e
          | .ok ds => firstAfter z now time ds

/-- Up to `count` fires, each after the one before it, ending with the first absence or error. -/
def fires (s : Schedule) (z : Zone) :
    Nat → Instant → List (Except (Fault ScheduleError) (Option Instant))
  | 0, _ => []
  | n + 1, now =>
    match s.nextFire z now with
    | .ok (some t) => .ok (some t) :: fires s z n t
    | r => [r]

end Schedule
end Outreach
