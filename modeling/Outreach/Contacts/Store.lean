import Outreach.Campaign.Contact
import Outreach.Fire.Store

/-!
# Outreach.Contacts.Store

What scheduling reads about contacts. Only active contacts of the org in question count.

* `Database.eligibleMembers` — the members of a group with the date an event is relative to.
* `Database.loadContacts` — whole contacts, with their groups and field values.
-/

namespace Outreach
namespace Database

def isActive (org : OrgId) (r : ContactRow) : Bool :=
  r.org == org && r.active

/-- The stored text of the date that an event relative to `ref` counts from. -/
def storedReference (db : Database) (r : ContactRow) : Reference → Option String
  | .createdOn => some r.createdOn
  | .lastSeenOn => r.lastSeenOn
  | .field key =>
    match db.values.find? fun v => v.contact == r.id && v.key == key with
    | some v => v.datetime
    | none => none

/-- The tables that the reference needs beside contacts and members. -/
def referenceTables : Reference → List TableName
  | .field _ => [.values]
  | _ => []

/-- The active contacts of the org in a group, by id. -/
def membersOf (db : Database) (org : OrgId) (group : GroupId) : List ContactRow :=
  (db.contacts.filter fun r => isActive org r && db.members.contains ⟨group, r.id⟩).mergeSort
    fun a b => decide (a.id ≤ b.id)

/-- Reads the dates of contacts, up to the first that cannot be read. -/
def readReferences (db : Database) (ref : Reference) :
    List ContactRow → Except StoreError (List (ContactId × Option Instant))
  | [] => .ok []
  | r :: rs =>
    match Instant.ofStored? (db.storedReference r ref) with
    | .error e => .error (.unreadable e)
    | .ok t =>
      match readReferences db ref rs with
      | .error e => .error e
      | .ok ts => .ok ((r.id, t) :: ts)

/-- The members of a group with the date that an event relative to `ref` counts from, by id. -/
def eligibleMembers (db : Database) (org : OrgId) (group : GroupId) (ref : Reference) :
    Except StoreError (List (ContactId × Option Instant)) :=
  match db.lacking? ([.members, .contacts] ++ referenceTables ref) with
  | some t => .error (.refused (.loadMembers group) (.noTable t))
  | none => db.readReferences ref (db.membersOf org group)

/-! ## Whole contacts -/

/-- A contact without its groups and values: its identifier is read first, then its dates. -/
def bareContact (r : ContactRow) : Except Unreadable Contact :=
  match Uuid.parse r.uuid with
  | none => .error (.contactUuid r.uuid)
  | some uuid =>
    match Instant.ofStored r.createdOn with
    | .error e => .error e
    | .ok createdOn =>
      match Instant.ofStored? r.lastSeenOn with
      | .error e => .error e
      | .ok lastSeenOn => .ok ⟨r.id, uuid, createdOn, lastSeenOn, [], []⟩

def bareContacts : List ContactRow → Except Unreadable (List Contact)
  | [] => .ok []
  | r :: rs =>
    match bareContact r with
    | .error e => .error e
    | .ok c =>
      match bareContacts rs with
      | .error e => .error e
      | .ok cs => .ok (c :: cs)

/-- Reads field values, up to the first that cannot be read. -/
def readValues : List ValueRow → Except Unreadable (List (ContactId × String × FieldValue))
  | [] => .ok []
  | r :: rs =>
    match Instant.ofStored? r.datetime with
    | .error e => .error e
    | .ok datetime =>
      match readValues rs with
      | .error e => .error e
      | .ok vs => .ok ((r.contact, r.key, ⟨r.text, datetime⟩) :: vs)

/-- The groups of a contact, each once, in ascending order. -/
def groupsOf (db : Database) (c : ContactId) : List GroupId :=
  ((db.members.filter fun m => m.contact == c).map (·.group)).mergeSort fun a b => decide (a ≤ b)

/-- The contacts of one query: the contacts themselves are read first, then the values of those
found, contact by contact and key by key. -/
def loadPiece (db : Database) (org : OrgId) (ids : List ContactId) :
    Except StoreError (List Contact) :=
  let rows := (db.contacts.filter fun r => isActive org r && ids.contains r.id).mergeSort
    fun a b => decide (a.id ≤ b.id)
  let values := (db.values.filter fun v => rows.any fun r => r.id == v.contact).mergeSort
    fun a b => decide (a.contact < b.contact) || (a.contact == b.contact && decide (a.key ≤ b.key))
  match bareContacts rows with
  | .error e => .error (.unreadable e)
  | .ok cs =>
    match readValues values with
    | .error e => .error (.unreadable e)
    | .ok vs =>
      .ok (cs.map fun c =>
        { c with
          groups := db.groupsOf c.id
          fields := (vs.filter fun v => v.1 == c.id).map (·.2) })

/-- The queries of one piece and the tables they need. -/
def pieceTables : List (Statement × TableName) :=
  [(.loadContacts, .contacts), (.loadContactGroups, .members), (.loadContactValues, .values)]

def loadPieces (db : Database) (org : OrgId) :
    List (List ContactId) → Except StoreError (List Contact)
  | [] => .ok []
  | ids :: rest =>
    match pieceTables.find? fun q => db.dropped.contains q.2 with
    | some (s, t) => .error (.refused s (.noTable t))
    | none =>
      match db.loadPiece org ids with
      | .error e => .error e
      | .ok cs =>
        match loadPieces db org rest with
        | .error e => .error e
        | .ok more => .ok (cs ++ more)

/-- The active contacts of the org with the given ids, in the order of ids. -/
def loadContacts (db : Database) (org : OrgId) (ids : List ContactId) :
    Except StoreError (List Contact) :=
  match db.loadPieces org (chunksOf idsPerQuery ids) with
  | .error e => .error e
  | .ok cs => .ok (cs.mergeSort fun a b => decide (a.id ≤ b.id))

end Database
end Outreach
