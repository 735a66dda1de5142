import Outreach.Campaign.Event

/-!
# Outreach.Database

The tables of the store as plain values. Texts are kept as they were given; what they mean is
for those who read them. Restoring an earlier value is what rolling back a transaction does.

* `Database` — contacts, group members, field values, fires and flows, and the tables that have
  been dropped.
* `Cause`, `Statement` — why a statement was refused, and which one it was.
* `Database.nextFireId` — the number that the next fire gets: one past the largest there is.
-/

namespace Outreach

structure ContactRow where
  id : ContactId
  org : OrgId
  uuid : String
  createdOn : String
  lastSeenOn : Option String
  active : Bool
deriving DecidableEq, Repr

structure MemberRow where
  group : GroupId
  contact : ContactId
deriving DecidableEq, Repr

structure ValueRow where
  contact : ContactId
  key : String
  text : String
  datetime : Option String
deriving DecidableEq, Repr

/-- A fire is pending while `fired` is not set, and settled once it is. -/
structure FireRow where
  id : FireId
  event : EventId
  contact : ContactId
  scheduled : String
  fired : Option String
  result : Option String
deriving DecidableEq, Repr

structure FlowRow where
  id : FlowId
  org : OrgId
  uuid : String
  name : String
  flowType : String
  definition : String
  active : Bool
deriving DecidableEq, Repr

inductive TableName where
  | contacts
  | members
  | values
  | fires
  | flows
deriving DecidableEq, Repr

namespace TableName

def text : TableName → String
  | contacts => "contacts"
  | members => "contact_group_members"
  | values => "contact_field_values"
  | fires => "campaign_event_fires"
  | flows => "flows"

def all : List TableName := [contacts, members, values, fires, flows]

def ofText? (s : String) : Option TableName :=
  all.find? fun t => t.text == s

end TableName

structure Database where
  contacts : List ContactRow := []
  members : List MemberRow := []
  values : List ValueRow := []
  fires : List FireRow := []
  flows : List FlowRow := []
  dropped : List TableName := []
deriving DecidableEq, Repr

/-- Why a statement was refused. -/
inductive Cause where
  | unique
  | foreignKey
  | check
  | noTable (table : TableName)
deriving DecidableEq, Repr

/-- The statements that are named when they fail. -/
inductive Statement where
  | insertFires
  | deletePending (event : EventId)
  | deletePendingOfContacts
  | markFires
  | loadDue
  | loadFires
  | loadPending (event : EventId)
  | loadMembers (group : GroupId)
  | loadContacts
  | loadContactGroups
  | loadContactValues
deriving DecidableEq, Repr

def Statement.text : Statement → String
  | insertFires => "insert event fires"
  | deletePending event => s!"delete unfired fires of event #{event}"
  | deletePendingOfContacts => "delete unfired fires of contacts"
  | markFires => "mark event fires"
  | loadDue => "load due event fires"
  | loadFires => "load event fires"
  | loadPending event => s!"load unfired fires of event #{event}"
  | loadMembers group => s!"load members of group #{group}"
  | loadContacts => "load contacts"
  | loadContactGroups => "load contact groups"
  | loadContactValues => "load contact field values"

namespace FireRow

def pending (r : FireRow) : Bool := r.fired.isNone

end FireRow

namespace Database

/-- The first of the tables that has been dropped. -/
def lacking? (db : Database) (ts : List TableName) : Option TableName :=
  ts.find? fun t => db.dropped.contains t

def hasContact (db : Database) (c : ContactId) : Bool :=
  db.contacts.any fun r => r.id == c

def hasPending (db : Database) (e : EventId) (c : ContactId) : Bool :=
  db.fires.any fun r => r.pending && r.event == e && r.contact == c

def nextFireId (db : Database) : FireId :=
  db.fires.foldl (fun m r => max m r.id) 0 + 1

end Database
end Outreach
