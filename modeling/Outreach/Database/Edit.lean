import Outreach.Database
import Outreach.Text.Uuid

/-!
# Outreach.Database.Edit

Direct edits of the tables, each a statement that either takes effect as a whole or is refused
and changes nothing. They answer how many rows they touched.

* `Database.edit` — an edit given as a value.
* `Database.edits` — edits in a row, which stop at the first that is refused.

Contacts have their own id and text identifier. A member, a field value and a fire belong to a
contact that exists, and vanish with it.
-/

namespace Outreach
namespace Database

abbrev Edited := Except Cause (Nat × Database)

/-- Refuses a statement on a table that is not there. -/
def guarded (db : Database) (ts : List TableName) (run : Edited) : Edited :=
  match db.lacking? ts with
  | some t => .error (.noTable t)
  | none => run

def addContact (db : Database) (r : ContactRow) : Edited :=
  db.guarded [.contacts]
    (if db.contacts.any fun s => s.id == r.id || s.uuid == r.uuid then .error .unique
     else .ok (1, { db with contacts := db.contacts ++ [r] }))

def addMember (db : Database) (r : MemberRow) : Edited :=
  db.guarded [.members, .contacts]
    (if db.members.contains r then .error .unique
     else if db.hasContact r.contact then .ok (1, { db with members := db.members ++ [r] })
     else .error .foreignKey)

/-- Changes the contact with this id. -/
def changeContact (db : Database) (c : ContactId) (f : ContactRow → ContactRow) : Edited :=
  db.guarded [.contacts]
    (.ok ((db.contacts.filter fun r => r.id == c).length,
      { db with contacts := db.contacts.map fun r => if r.id = c then f r else r }))

def setActive (db : Database) (c : ContactId) (active : Bool) : Edited :=
  db.changeContact c fun r => { r with active }

def setSeen (db : Database) (c : ContactId) (text : Option String) : Edited :=
  db.changeContact c fun r => { r with lastSeenOn := text }

/-- The tables without the contacts that satisfy `p` and all that belongs to them. -/
def withoutContacts (db : Database) (p : ContactId → Bool) : Database :=
  { db with
    contacts := db.contacts.filter fun r => !p r.id
    members := db.members.filter fun r => !p r.contact
    values := db.values.filter fun r => !p r.contact
    fires := db.fires.filter fun r => !p r.contact }

def deleteContact (db : Database) (c : ContactId) : Edited :=
  db.guarded [.contacts]
    (.ok ((db.contacts.filter fun r => r.id == c).length, db.withoutContacts (· == c)))

def deleteMember (db : Database) (r : MemberRow) : Edited :=
  db.guarded [.members, .contacts]
    (.ok ((db.members.filter fun s => s == r).length,
      { db with members := db.members.filter fun s => s != r }))

/-- Sets a field value, in place of one of the same contact and key. -/
def setValue (db : Database) (r : ValueRow) : Edited :=
  db.guarded [.values, .contacts]
    (if db.hasContact r.contact then
      .ok (1, { db with values :=
        (db.values.filter fun s => !(s.contact == r.contact && s.key == r.key)) ++ [r] })
     else .error .foreignKey)

def addFlow (db : Database) (r : FlowRow) : Edited :=
  db.guarded [.flows]
    (if r.flowType ∉ ["M", "V", "B", "S"] then .error .check
     else if db.flows.any fun s => s.id == r.id || s.uuid == r.uuid then .error .unique
     else .ok (1, { db with flows := db.flows ++ [r] }))

/-- Inserts a fire with the given texts. A fire is either pending or has both a time and a
result, and an event has one pending fire for a contact. -/
def addFire (db : Database) (event : EventId) (contact : ContactId) (scheduled : String)
    (fired result : Option String) : Edited :=
  db.guarded [.fires, .contacts]
    (if fired.isNone != result.isNone ∨
        result.any fun code => decide (code ∉ ["F", "S"]) then .error .check
     else if fired.isNone ∧ db.hasPending event contact then .error .unique
     else if db.hasContact contact then
      .ok (1, { db with
        fires := db.fires ++ [⟨db.nextFireId, event, contact, scheduled, fired, result⟩] })
     else .error .foreignKey)

/-- The edits that touch rows. -/
inductive Edit where
  | addContact (r : ContactRow)
  | setActive (c : ContactId) (active : Bool)
  | setSeen (c : ContactId) (text : Option String)
  | deleteContact (c : ContactId)
  | addMember (r : MemberRow)
  | deleteMember (r : MemberRow)
  | setValue (r : ValueRow)
  | addFlow (r : FlowRow)
  | addFire (event : EventId) (contact : ContactId) (scheduled : String)
      (fired result : Option String)
deriving DecidableEq, Repr

def edit (db : Database) : Edit → Edited
  | .addContact r => db.addContact r
  | .setActive c active => db.setActive c active
  | .setSeen c text => db.setSeen c text
  | .deleteContact c => db.deleteContact c
  | .addMember r => db.addMember r
  | .deleteMember r => db.deleteMember r
  | .setValue r => db.setValue r
  | .addFlow r => db.addFlow r
  | .addFire event contact scheduled fired result => db.addFire event contact scheduled fired result

/-! ## Edits in a row -/

/-- Edits up to the first that is refused; those before it stay. -/
def edits (db : Database) : List Edit → Except Cause Unit × Database
  | [] => (.ok (), db)
  | e :: es =>
    match db.edit e with
    | .error c => (.error c, db)
    | .ok (_, db) => db.edits es

/-- The edits that add a contact and put it into the group, if one is given. Its text identifier
is its number in 128 bits. -/
def Edit.ofContact (org : OrgId) (createdOn : String) (group : Option GroupId) (c : ContactId) :
    List Edit :=
  let uuid := Uuid.ofNat (BitVec.ofInt 128 c).toNat
  let added := Edit.addContact ⟨c, org, uuid.toString, createdOn, none, true⟩
  match group with
  | none => [added]
  | some g => [added, .addMember ⟨g, c⟩]

/-- Adds the contacts from `first` to `last` one by one, and answers how many there are. -/
def addContacts (db : Database) (org : OrgId) (createdOn : String) (group : Option GroupId)
    (first last : ContactId) : Except Cause Nat × Database :=
  let cs := (List.range (last + 1 - first).toNat).map fun (n : Nat) => first + (n : Int)
  match db.edits (cs.flatMap (Edit.ofContact org createdOn group)) with
  | (.error c, db) => (.error c, db)
  | (.ok (), db) => (.ok cs.length, db)

/-- Drops a table with its rows; with the contacts go all that belong to them. -/
def dropTable (db : Database) (t : TableName) : Except Cause Database :=
  match db.lacking? [t] with
  | some t => .error (.noTable t)
  | none =>
    let emptied : Database :=
      match t with
      | .contacts => db.withoutContacts fun _ => true
      | .members => { db with members := [] }
      | .values => { db with values := [] }
      | .fires => { db with fires := [] }
      | .flows => { db with flows := [] }
    .ok { emptied with dropped := t :: db.dropped }

end Database
end Outreach
