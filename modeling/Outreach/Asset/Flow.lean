import Outreach.Database
import Outreach.Database.Unreadable
import Outreach.Text.Json
import Outreach.Text.Uuid

/-!
# Outreach.Asset.Flow

Flows and how they are stored. A flow is referred to by its identifier or by its number.

* `Flow.ofRow` — reads a stored flow.
* `Database.loadFlow` — the active flow of an org with a given reference.
-/

namespace Outreach

inductive FlowType where
  | messaging
  | voice
  | background
  | survey
deriving DecidableEq, Repr

namespace FlowType

/-- The letter by which a type is stored. -/
def code : FlowType → String
  | messaging => "M"
  | voice => "V"
  | background => "B"
  | survey => "S"

def ofCode? (s : String) : Option FlowType :=
  if s = "M" then some messaging
  else if s = "V" then some voice
  else if s = "B" then some background
  else if s = "S" then some survey
  else none

theorem ofCode?_code (t : FlowType) : ofCode? t.code = some t := by
  cases t <;> simp [code, ofCode?]

end FlowType

structure Flow where
  id : FlowId
  uuid : Uuid
  name : String
  flowType : FlowType
  definition : JsonValue

inductive FlowRef where
  | uuid (u : Uuid)
  | id (n : FlowId)
deriving DecidableEq

namespace FlowRef

def text : FlowRef → String
  | uuid u => u.toString
  | id n => s!"#{n}"

def names (r : FlowRef) (f : Flow) : Bool :=
  match r with
  | uuid u => f.uuid == u
  | id n => f.id == n

/-- Whether a row is the one referred to; identifiers are compared as texts. -/
def namesRow (r : FlowRef) (row : FlowRow) : Bool :=
  match r with
  | uuid u => row.uuid == u.toString
  | id n => row.id == n

end FlowRef

/-- Reads a row: its identifier, then its type, then its definition. -/
def Flow.ofRow (r : FlowRow) : Except Unreadable Flow :=
  match Uuid.parse r.uuid with
  | none => .error (.flowUuid r.uuid)
  | some uuid =>
    match FlowType.ofCode? r.flowType with
    | none => .error (.flowType r.flowType r.id)
    | some type =>
      match JsonValue.parse r.definition with
      | none => .error (.flowDefinition r.id)
      | some definition => .ok ⟨r.id, uuid, r.name, type, definition⟩

/-- How loading an asset fails. -/
inductive LoadFailure where
  | forced (message : String)
  | unknownOrg (org : OrgId)
  | noDatabase (path : String)
  | noTable (table : TableName)
  | unreadable (what : Unreadable)
deriving DecidableEq, Repr

def LoadFailure.message : LoadFailure → String
  | forced message => message
  | unknownOrg org => s!"org #{org} not found"
  | noDatabase path => "open sqlite database " ++ path
  | noTable table => "no such table: " ++ table.text
  | unreadable what => what.message

/-- The active flow of an org that a reference names, if there is one. -/
def Database.loadFlow (db : Database) (org : OrgId) (ref : FlowRef) :
    Except LoadFailure (Option Flow) :=
  match db.lacking? [.flows] with
  | some t => .error (.noTable t)
  | none =>
    match db.flows.find? fun r => r.org == org && r.active && ref.namesRow r with
    | none => .ok none
    | some row =>
      match Flow.ofRow row with
      | .error e => .error (.unreadable e)
      | .ok f => .ok (some f)

end Outreach
