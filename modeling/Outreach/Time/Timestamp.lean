import Outreach.Time.Moment

/-!
# Outreach.Time.Timestamp

Instants and wall times as text.

* `Timestamp.parse` — RFC 3339 with an explicit offset, as an instant.
* `Instant.toStored` — the form in which instants are kept: UTC with milliseconds, cut off.
* `Instant.toExact` — UTC with all nine decimals.
* `WallTime.parse` — `YYYY-MM-DDTHH:MM:SS` with an optional fraction and no offset.
-/

namespace Outreach
namespace Timestamp

/-- The rest of `cs` after one character that satisfies `p`. -/
def char? (p : Char → Bool) : List Char → Option (List Char)
  | [] => none
  | c :: cs => if p c then some cs else none

/-- `MM-DD` after the year, as a day number. -/
def monthDay? (year : Int) (cs : List Char) : Option (Int × List Char) := do
  let cs ← char? (· == '-') cs
  let (month, cs) ← Numeral.read? 2 cs
  let cs ← char? (· == '-') cs
  let (day, cs) ← Numeral.read? 2 cs
  let date : Date := ⟨year, month, day⟩
  if date.Valid then some (date.toDays, cs) else none

/-- Digits after the point as nanoseconds; those past the ninth are dropped. -/
def nanosOf (ds : List Char) : Nat :=
  match Numeral.read? 9 (ds ++ List.replicate (9 - ds.length) '0') with
  | some (n, _) => n
  | none => 0

/-- An optional point and at least one digit. -/
def fraction? : List Char → Option (Nat × List Char)
  | '.' :: cs =>
    let ds := cs.takeWhile Numeral.isDigit
    if ds.isEmpty then none else some (nanosOf ds, cs.dropWhile Numeral.isDigit)
  | cs => some (0, cs)

/-- `HH:MM:SS` and a fraction on day `n`. Second 60 is a leap second. -/
def clock? (n : Int) (cs : List Char) : Option (Moment × List Char) := do
  let (hour, cs) ← Numeral.read? 2 cs
  let cs ← char? (· == ':') cs
  let (minute, cs) ← Numeral.read? 2 cs
  let cs ← char? (· == ':') cs
  let (second, cs) ← Numeral.read? 2 cs
  let (nanos, cs) ← fraction? cs
  if 23 < hour ∨ 59 < minute ∨ 60 < second then none
  else if second = 60 then
    some (⟨n * 86400 + (hour * 3600 + minute * 60 + 59 : Nat), nanos + 1000000000⟩, cs)
  else some (⟨n * 86400 + (hour * 3600 + minute * 60 + second : Nat), nanos⟩, cs)

/-- `Z` or `±HH:MM` to the end of the text, in seconds east of UTC. The minus sign of
typography counts as a minus. -/
def offset? : List Char → Option Int
  | [] => none
  | c :: cs =>
    if c = 'Z' ∨ c = 'z' then (if cs.isEmpty then some 0 else none)
    else if c = '+' ∨ c = '-' ∨ c = '\u2212' then do
      let (hour, cs) ← Numeral.read? 2 cs
      let cs ← char? (· == ':') cs
      let (minute, cs) ← Numeral.read? 2 cs
      if cs.isEmpty ∧ hour < 24 ∧ minute < 60 then
        let s : Int := (hour * 3600 + minute * 60 : Nat)
        some (if c = '+' then s else -s)
      else none
    else none

def isDateTimeSeparator (c : Char) : Bool :=
  c == 'T' || c == 't' || c == ' '

def parseChars (cs : List Char) : Option Instant := do
  let (year, cs) ← Numeral.read? 4 cs
  let (day, cs) ← monthDay? year cs
  let cs ← char? isDateTimeSeparator cs
  let (wall, cs) ← clock? day cs
  let offset ← offset? cs
  some (wall.shift (-offset))

/-- The instant that an RFC 3339 text names. -/
def parse (s : String) : Option Instant :=
  parseChars s.toList

end Timestamp

namespace Instant

def storedChars (t : Instant) : List Char :=
  t.dateText ++ 'T' :: t.clockText ++ '.' :: Numeral.digits 3 (t.fraction / 1000000) ++ ['Z']

/-- UTC text with milliseconds; what is finer is cut off. -/
def toStored (t : Instant) : String :=
  String.ofList (storedChars t)

/-- UTC text with nanoseconds. -/
def toExact (t : Instant) : String :=
  String.ofList (t.dateText ++ 'T' :: t.clockText ++ '.' :: Numeral.digits 9 t.fraction ++ ['Z'])

end Instant

namespace WallTime

/-- A year with an optional sign. -/
def year? : List Char → Option (Int × List Char)
  | '+' :: cs => unsigned? cs
  | '-' :: cs =>
    match unsigned? cs with
    | some (y, cs) => some (-y, cs)
    | none => none
  | cs => unsigned? cs
where
  unsigned? (cs : List Char) : Option (Int × List Char) :=
    match Numeral.upTo 1000000 0 (cs.takeWhile Numeral.isDigit) with
    | .ok y => if 4 ≤ (cs.takeWhile Numeral.isDigit).length then
        some (y, cs.dropWhile Numeral.isDigit) else none
    | .error _ => none

/-- The wall time that `YYYY-MM-DDTHH:MM:SS`, with an optional fraction, names. -/
def parse (s : String) : Option WallTime := do
  let (year, cs) ← year? s.toList
  let (day, cs) ← Timestamp.monthDay? year cs
  let cs ← Timestamp.char? Timestamp.isDateTimeSeparator cs
  let (t, cs) ← Timestamp.clock? day cs
  if cs.isEmpty ∧ t.InRange then some t else none

end WallTime
end Outreach
