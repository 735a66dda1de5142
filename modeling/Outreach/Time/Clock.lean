import Outreach.Time.Moment

/-!
# Outreach.Time.Clock

A clock that moves only when it is told to.
-/

namespace Outreach

inductive ClockStep where
  | advance (millis : Int)
  | set (t : Instant)
deriving DecidableEq, Repr

/-- The reading after a step, if it can be represented. -/
def ClockStep.apply (t : Instant) : ClockStep → Option Instant
  | advance millis => t.plus? (Span.ofMillis millis)
  | set u => some u

/-- The readings of a clock, the first before any step. -/
def clockReadings (t : Instant) : List ClockStep → Option (List Instant)
  | [] => some [t]
  | s :: ss =>
    match s.apply t with
    | none => none
    | some u =>
      match clockReadings u ss with
      | none => none
      | some ts => some (t :: ts)

end Outreach
