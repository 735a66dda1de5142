import Outreach.Time.Zone

/-!
# Outreach.Time.ZoneRule

Rules that write a zone's changes compactly: a change on one date, or one change in every year
of a range, on the first given day of the week on or after a day of a month. Dates and times
are UTC.
-/

namespace Outreach

inductive ZoneRule where
  | once (year : Int) (month day : Nat) (second : Nat) (offset : Int)
  | yearly (first : Int) (years : Nat) (month : Nat) (weekday : Weekday) (fromDay : Nat)
      (second : Nat) (offset : Int)

namespace ZoneRule

def expand : ZoneRule → List OffsetChange
  | .once y m d s off => [⟨(Date.mk y m d).toDays * 86400 + s, off⟩]
  | .yearly first years m w d s off =>
    (List.range years).map fun (k : Nat) =>
      ⟨w.onOrAfter (Date.mk (first + (k : Int)) m d).toDays * 86400 + s, off⟩

end ZoneRule

/-- The zone whose changes are those of the rules, in the order of time. -/
def Zone.ofRules (name : String) (first : Int) (rules : List ZoneRule) : Zone :=
  ⟨name, first, (rules.flatMap ZoneRule.expand).mergeSort fun a b => decide (a.start ≤ b.start)⟩

end Outreach
