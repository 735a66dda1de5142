import Outreach.Text.Quoted
import Outreach.Text.Uuid
import Outreach.Time.Moment

/-!
# Outreach.Campaign.Event

Campaigns and their events. A campaign applies to the members of one contact group; each of its
events starts a flow some time before or after a date of the contact.

* `EventSpec` — an event as it is defined, `Event` — one attached to its campaign.
* `Reference` — the date of a contact that an event is relative to.
* `CampaignError` — what is wrong with an event, with its wording in `CampaignError.message`.
-/

namespace Outreach

abbrev OrgId := Int
abbrev CampaignId := Int
abbrev EventId := Int
abbrev GroupId := Int
abbrev ContactId := Int
abbrev FlowId := Int
abbrev FireId := Int

inductive OffsetUnit where
  | minutes
  | hours
  | days
  | weeks
deriving DecidableEq, Repr

inductive StartMode where
  | interrupt
  | skip
  | passive
deriving DecidableEq, Repr

inductive Reference where
  | createdOn
  | lastSeenOn
  | field (key : String)
deriving DecidableEq, Repr

inductive CampaignError where
  | unknownOffsetUnit (code : String)
  | unknownStartMode (code : String)
  | invalidDeliveryHour (hour : Nat)
  | unresolvableLocalTime (wall : WallTime) (zone : String)
  | outOfRange (offset : Int) (unit : OffsetUnit)
  | eventNotFound (event : EventId)
deriving DecidableEq, Repr

namespace OffsetUnit

def word : OffsetUnit → String
  | minutes => "minutes"
  | hours => "hours"
  | days => "days"
  | weeks => "weeks"

def ofCode (s : String) : Except CampaignError OffsetUnit :=
  if s = "M" then .ok minutes
  else if s = "H" then .ok hours
  else if s = "D" then .ok days
  else if s = "W" then .ok weeks
  else .error (.unknownOffsetUnit s)

end OffsetUnit

namespace StartMode

/-- The letter by which a mode is stored. -/
def code : StartMode → String
  | interrupt => "I"
  | skip => "S"
  | passive => "P"

def ofCode (s : String) : Except CampaignError StartMode :=
  if s = "I" then .ok interrupt
  else if s = "S" then .ok skip
  else if s = "P" then .ok passive
  else .error (.unknownStartMode s)

theorem ofCode_code (m : StartMode) : ofCode m.code = .ok m := by
  cases m <;> simp [code, ofCode]

end StartMode

namespace Reference

/-- The key of the field, or the reserved key of a date that every contact has. -/
def key : Reference → String
  | createdOn => "created_on"
  | lastSeenOn => "last_seen_on"
  | field k => k

def ofKey (k : String) : Reference :=
  if k = "created_on" then createdOn
  else if k = "last_seen_on" then lastSeenOn
  else field k

theorem key_ofKey (k : String) : (ofKey k).key = k := by
  unfold ofKey
  split
  · rename_i h; exact h.symm
  · split
    · rename_i h; exact h.symm
    · rfl

end Reference

namespace CampaignError

def message : CampaignError → String
  | unknownOffsetUnit code => "unknown offset unit: " ++ quoteText code
  | unknownStartMode code => "unknown start mode: " ++ quoteText code
  | invalidDeliveryHour hour => s!"invalid delivery hour: {hour}"
  | unresolvableLocalTime wall zone =>
    "local time " ++ wall.text ++ " cannot be resolved in " ++ zone
  | outOfRange offset unit => s!"offset of {offset} " ++ unit.word ++ " is out of range"
  | eventNotFound event => s!"no campaign event #{event}"

end CampaignError

structure EventSpec where
  id : EventId
  uuid : Uuid
  offset : Int
  unit : OffsetUnit
  deliveryHour : Option Nat
  relativeTo : Reference
  startMode : StartMode
  flow : FlowId
deriving DecidableEq

/-- An event whose unit and start mode are still codes. -/
structure EventCodes where
  id : EventId
  uuid : Uuid
  offset : Int
  unit : String
  deliveryHour : Option Nat
  relativeTo : String
  startMode : String
  flow : FlowId

/-- Reads the codes, the unit first. -/
def EventCodes.spec (c : EventCodes) : Except CampaignError EventSpec :=
  match OffsetUnit.ofCode c.unit with
  | .error e => .error e
  | .ok unit =>
    match StartMode.ofCode c.startMode with
    | .error e => .error e
    | .ok mode =>
      .ok ⟨c.id, c.uuid, c.offset, unit, c.deliveryHour, Reference.ofKey c.relativeTo, mode, c.flow⟩

/-- The campaign of an event and the group whose members it is for. -/
structure Home where
  campaign : CampaignId
  group : GroupId
deriving DecidableEq, Repr

/-- An event with its campaign, or with none if the campaign is gone. -/
structure Event where
  spec : EventSpec
  home : Option Home
deriving DecidableEq

namespace Event

def id (e : Event) : EventId := e.spec.id

def detached (e : Event) : Event := { e with home := none }

end Event

structure Campaign where
  id : CampaignId
  uuid : Uuid
  name : String
  group : GroupId
  specs : List EventSpec
deriving DecidableEq

namespace Campaign

/-- The events in the order of their definition. -/
def events (c : Campaign) : List Event :=
  c.specs.map fun s => ⟨s, some ⟨c.id, c.group⟩⟩

/-- The first event with this id. -/
def event? (c : Campaign) (id : EventId) : Option Event :=
  c.events.find? fun e => e.id == id

end Campaign
end Outreach
