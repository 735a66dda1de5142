import Outreach.Chunks
import Outreach.Fire

/-!
# Outreach.Fire.Store

The store of fires. Writes touch pending fires only, and an event has at most one pending fire
for a contact: adding a second one does nothing. Long lists are worked off in statements of
limited size; each statement takes effect as a whole or not at all, and those before a refused
one stay.

* `addFires`, `deletePending`, `deletePendingOfContacts`, `deletePendingOfEvent`, `markFires` —
  the writes, which answer how many rows they touched.
* `dueFires`, `firesWithIds`, `pendingOfEvent` — the reads.
-/

namespace Outreach

/-- How access to the store fails. -/
inductive StoreError where
  | refused (statement : Statement) (cause : Cause)
  | unreadable (what : Unreadable)
deriving DecidableEq, Repr

/-- The statement that was refused, or what could not be read. -/
def StoreError.message : StoreError → String
  | refused statement _ => statement.text
  | unreadable what => what.message

namespace Database

/-- Rows in one insertion. -/
def rowsPerInsert : Nat := 300

/-- Numbers in one list of a query. -/
def idsPerQuery : Nat := 900

/-- The tables a statement that changes the fires' contacts needs. -/
def fireTables : List TableName := [.fires, .contacts]

/-! ## One statement -/

/-- Inserts a pending fire unless there is one already; one row or none. -/
def insertFire (db : Database) (f : NewFire) : Nat × Database :=
  if db.hasPending f.event f.contact then (0, db)
  else
    (1, { db with fires := db.fires ++
      [⟨db.nextFireId, f.event, f.contact, f.scheduled.toStored, none, none⟩] })

def insertFires : List NewFire → Database → Nat × Database
  | [], db => (0, db)
  | f :: fs, db =>
    let (n, db) := db.insertFire f
    let (m, db) := insertFires fs db
    (n + m, db)

/-- One insertion. A contact that does not exist makes the whole of it fail. -/
def insertStatement (fs : List NewFire) (db : Database) : Except StoreError (Nat × Database) :=
  match db.lacking? fireTables with
  | some t => .error (.refused .insertFires (.noTable t))
  | none =>
    if fs.all fun f => db.hasContact f.contact then .ok (insertFires fs db)
    else .error (.refused .insertFires .foreignKey)

/-- Deletes the pending fires that satisfy `p`. -/
def deleteStatement (s : Statement) (p : FireRow → Bool) (db : Database) :
    Except StoreError (Nat × Database) :=
  match db.lacking? fireTables with
  | some t => .error (.refused s (.noTable t))
  | none =>
    .ok ((db.fires.filter fun r => r.pending && p r).length,
      { db with fires := db.fires.filter fun r => !(r.pending && p r) })

def markRow (ids : List FireId) (at' : String) (result : FireResult) (r : FireRow) : FireRow :=
  if r.pending && ids.contains r.id then
    { r with fired := some at', result := some result.code }
  else r

/-- Settles the pending fires with the given ids. -/
def markStatement (ids : List FireId) (at' : String) (result : FireResult) (db : Database) :
    Except StoreError (Nat × Database) :=
  match db.lacking? [.fires] with
  | some t => .error (.refused .markFires (.noTable t))
  | none =>
    .ok ((db.fires.filter fun r => r.pending && ids.contains r.id).length,
      { db with fires := db.fires.map (markRow ids at' result) })

/-! ## Several statements -/

/-- Statements one after the other, up to the first that is refused; the rows they touched. -/
def inTurn {α : Type} (run : α → Database → Except StoreError (Nat × Database)) :
    List α → Database → Except StoreError Nat × Database
  | [], db => (.ok 0, db)
  | a :: as, db =>
    match run a db with
    | .error e => (.error e, db)
    | .ok (n, db) =>
      match inTurn run as db with
      | (.ok m, db) => (.ok (n + m), db)
      | (.error e, db) => (.error e, db)

/-- Adds pending fires; a pair that has one already is passed over. -/
def addFires (fs : List NewFire) (db : Database) : Except StoreError Nat × Database :=
  inTurn insertStatement (chunksOf rowsPerInsert fs) db

/-- The events of a list of pairs, each once, in ascending order. -/
def eventsOf (pairs : List (EventId × ContactId)) : List EventId :=
  (pairs.map (·.1)).eraseDups.mergeSort fun a b => decide (a ≤ b)

/-- Pieces of work: an event with some of the contacts that are paired with it. -/
def deletions (pairs : List (EventId × ContactId)) : List (EventId × List ContactId) :=
  (eventsOf pairs).flatMap fun e =>
    (chunksOf idsPerQuery ((pairs.filter fun p => p.1 == e).map (·.2))).map fun cs => (e, cs)

/-- Deletes the pending fires of the pairs. -/
def deletePending (pairs : List (EventId × ContactId)) (db : Database) :
    Except StoreError Nat × Database :=
  inTurn (fun d => deleteStatement (.deletePending d.1)
    fun r => r.event == d.1 && d.2.contains r.contact) (deletions pairs) db

/-- Deletes the pending fires of the contacts, whatever the event. -/
def deletePendingOfContacts (cs : List ContactId) (db : Database) :
    Except StoreError Nat × Database :=
  inTurn (fun cs => deleteStatement .deletePendingOfContacts fun r => cs.contains r.contact)
    (chunksOf idsPerQuery cs) db

/-- Deletes the pending fires of an event. -/
def deletePendingOfEvent (e : EventId) (db : Database) : Except StoreError Nat × Database :=
  inTurn (fun e => deleteStatement (.deletePending e) fun r => r.event == e) [e] db

/-- Settles fires; those already settled are left alone and not counted. -/
def markFires (ids : List FireId) (t : Instant) (result : FireResult) (db : Database) :
    Except StoreError Nat × Database :=
  inTurn (fun ids => markStatement ids t.toStored result) (chunksOf idsPerQuery ids) db

/-! ## Reads -/

def readFires (rs : List FireRow) : Except StoreError (List Fire) :=
  match Fire.ofRows rs with
  | .ok fs => .ok fs
  | .error e => .error (.unreadable e)

/-- Earlier first, and of two at one time the one with the smaller id. -/
def dueBefore (a b : FireRow) : Bool :=
  decide (a.scheduled < b.scheduled) || (a.scheduled == b.scheduled && decide (a.id ≤ b.id))

/-- The first rows of a list, all if the limit is negative. -/
def takeLimit {α : Type} (limit : Int) (l : List α) : List α :=
  if limit < 0 then l else l.take limit.toNat

/-- The pending fires due at `now`, earliest first. Stored texts are compared as texts. -/
def dueFires (now : Instant) (limit : Int) (db : Database) : Except StoreError (List Fire) :=
  match db.lacking? [.fires] with
  | some t => .error (.refused .loadDue (.noTable t))
  | none =>
    let due := db.fires.filter fun r => r.pending && !decide (now.toStored < r.scheduled)
    readFires (takeLimit limit (due.mergeSort dueBefore))

/-- The rows with the given ids, list by list. -/
def rowsWithIds (ids : List FireId) (db : Database) : List FireRow :=
  let rows := (chunksOf idsPerQuery ids).flatMap fun ids =>
    db.fires.filter fun r => ids.contains r.id
  rows.mergeSort fun a b => decide (a.id ≤ b.id)

/-- The fires with the given ids, in the order of ids. -/
def firesWithIds (ids : List FireId) (db : Database) : Except StoreError (List Fire) :=
  match db.lacking? [.fires] with
  | some t => if ids.isEmpty then .ok [] else .error (.refused .loadFires (.noTable t))
  | none => readFires (db.rowsWithIds ids)

/-- The pending fires of an event, by contact. -/
def pendingOfEvent (e : EventId) (db : Database) : Except StoreError (List Fire) :=
  match db.lacking? [.fires] with
  | some t => .error (.refused (.loadPending e) (.noTable t))
  | none =>
    readFires ((db.fires.filter fun r => r.pending && r.event == e).mergeSort fun a b =>
      decide (a.contact < b.contact) || (a.contact == b.contact && decide (a.id ≤ b.id)))

end Database
end Outreach
