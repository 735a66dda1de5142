import Outreach.Text.Quoted
import Outreach.Time.Timestamp

/-!
# Outreach.Database.Unreadable

Stored texts that do not mean what their column is for.
-/

namespace Outreach

inductive Unreadable where
  | timestamp (text : String)
  | contactUuid (text : String)
  | fireResult (code : String) (fire : Int)
  | flowUuid (text : String)
  | flowType (code : String) (flow : Int)
  | flowDefinition (flow : Int)
deriving DecidableEq, Repr

def Unreadable.message : Unreadable → String
  | timestamp text => "bad rfc3339: " ++ text
  | contactUuid text => "bad contact uuid: " ++ text
  | fireResult code fire => "bad fired_result " ++ quoteText code ++ s!" on fire #{fire}"
  | flowUuid text => "bad flow uuid: " ++ text
  | flowType code flow => "unknown flow type " ++ quoteText code ++ s!" for flow #{flow}"
  | flowDefinition flow => s!"invalid definition for flow #{flow}"

namespace Instant

/-- A stored instant. -/
def ofStored (s : String) : Except Unreadable Instant :=
  match Timestamp.parse s with
  | some t => .ok t
  | none => .error (.timestamp s)

/-- A stored instant that may be absent. -/
def ofStored? : Option String → Except Unreadable (Option Instant)
  | none => .ok none
  | some s =>
    match ofStored s with
    | .ok t => .ok (some t)
    | .error e => .error e

end Instant
end Outreach
