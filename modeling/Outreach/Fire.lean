import Outreach.Database
import Outreach.Database.Unreadable

/-!
# Outreach.Fire

Fires of campaign events: one is scheduled for an event and a contact, and later handled, that
is fired or skipped. `Fire.ofRow` reads a stored fire.
-/

namespace Outreach

inductive FireResult where
  | fired
  | skipped
deriving DecidableEq, Repr

namespace FireResult

/-- The letter by which a result is stored. -/
def code : FireResult → String
  | fired => "F"
  | skipped => "S"

def ofCode? (s : String) : Option FireResult :=
  if s = "F" then some fired
  else if s = "S" then some skipped
  else none

theorem ofCode?_code (r : FireResult) : ofCode? r.code = some r := by
  cases r <;> simp [code, ofCode?]

end FireResult

structure Fire where
  id : FireId
  event : EventId
  contact : ContactId
  scheduled : Instant
  fired : Option Instant
  result : Option FireResult
deriving DecidableEq, Repr

/-- A fire to be scheduled. -/
structure NewFire where
  event : EventId
  contact : ContactId
  scheduled : Instant
deriving DecidableEq, Repr

namespace Fire

def pending (f : Fire) : Bool := f.fired.isNone

def resultOf (r : FireRow) : Except Unreadable (Option FireResult) :=
  match r.result with
  | none => .ok none
  | some code =>
    match FireResult.ofCode? code with
    | some result => .ok (some result)
    | none => .error (.fireResult code r.id)

/-- Reads a row: its result, then the time it is scheduled for, then the time it was handled. -/
def ofRow (r : FireRow) : Except Unreadable Fire :=
  match resultOf r with
  | .error e => .error e
  | .ok result =>
    match Instant.ofStored r.scheduled with
    | .error e => .error e
    | .ok scheduled =>
      match Instant.ofStored? r.fired with
      | .error e => .error e
      | .ok fired => .ok ⟨r.id, r.event, r.contact, scheduled, fired, result⟩

/-- Reads rows up to the first that cannot be read. -/
def ofRows : List FireRow → Except Unreadable (List Fire)
  | [] => .ok []
  | r :: rs =>
    match ofRow r with
    | .error e => .error e
    | .ok f =>
      match ofRows rs with
      | .error e => .error e
      | .ok fs => .ok (f :: fs)

end Fire
end Outreach
