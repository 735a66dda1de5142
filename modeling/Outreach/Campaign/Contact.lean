import Outreach.Campaign.Event

/-!
# Outreach.Campaign.Contact

A contact as scheduling sees it: its groups, and the dates that events can be relative to.
-/

namespace Outreach

structure FieldValue where
  text : String
  datetime : Option Instant
deriving DecidableEq, Repr

structure Contact where
  id : ContactId
  uuid : Uuid
  createdOn : Instant
  lastSeenOn : Option Instant
  groups : List GroupId
  fields : List (String × FieldValue)
deriving DecidableEq

namespace Contact

def inGroup (c : Contact) (g : GroupId) : Bool :=
  c.groups.contains g

def field? (c : Contact) (key : String) : Option FieldValue :=
  match c.fields.find? fun f => f.1 == key with
  | some f => some f.2
  | none => none

/-- The instant from which an event relative to `r` counts. Every contact has a creation time;
the others have to be set. -/
def reference? (c : Contact) : Reference → Option Instant
  | .createdOn => some c.createdOn
  | .lastSeenOn => c.lastSeenOn
  | .field key =>
    match c.field? key with
    | some v => v.datetime
    | none => none

end Contact
end Outreach
