import Outreach.Fire.Store

/-!
# Outreach.Database.Connection

A connection to the tables, with the transactions that are open on it. A transaction within
another one undoes its own changes alone. Others see the tables as they were before the
outermost open transaction.

* `Connection.atomically` — work in a transaction of its own, undone if it fails.
* `Connection.addFires` — adding fires, which can be made to fail once after a number of calls.
* `Connection.write` — any write to the store of fires.
-/

namespace Outreach

structure Connection where
  db : Database := {}
  /-- The tables as they were when each open transaction began, the innermost first. -/
  saved : List Database := []
  /-- The addition of fires that is refused, counted from the next one; zero for none. -/
  refusal : Nat := 0

/-- How a write to the store of fires fails. -/
inductive WriteError where
  | store (e : StoreError)
  | refused
deriving DecidableEq, Repr

def WriteError.message : WriteError → String
  | store e => e.message
  | refused => "insert failed"

namespace Connection

/-- What others see. -/
def committed (c : Connection) : Database := c.saved.getLast?.getD c.db

def start (c : Connection) : Connection := { c with saved := c.db :: c.saved }

/-- Keeps the changes of the innermost transaction. -/
def commit (c : Connection) : Connection := { c with saved := c.saved.tail }

/-- Undoes the changes of the innermost transaction. -/
def rollback (c : Connection) : Connection :=
  match c.saved with
  | [] => c
  | db :: saved => { c with db, saved }

/-- Work in a transaction of its own, which is undone if the work fails. An overflow never comes
back to the transaction: it ends the run, and all that is open goes with the connection. It counts
as a failure here because to others, who alone see the tables after it, that makes no difference
(`committed_rollback`). -/
def atomically {ε α : Type} (work : Connection → Except ε α × Connection) (c : Connection) :
    Except ε α × Connection :=
  match work c.start with
  | (.ok a, c) => (.ok a, c.commit)
  | (.error e, c) => (.error e, c.rollback)

/-- Work on the tables. -/
def onTables {ε α : Type} (work : Database → Except ε α × Database) (c : Connection) :
    Except ε α × Connection :=
  let (r, db) := work c.db
  (r, { c with db })

def addFires (fs : List NewFire) (c : Connection) : Except WriteError Nat × Connection :=
  match c.refusal with
  | 1 => (.error .refused, { c with refusal := 0 })
  | n =>
    match c.onTables (Database.addFires fs) with
    | (.ok rows, c) => (.ok rows, { c with refusal := n - 1 })
    | (.error e, c) => (.error (.store e), { c with refusal := n - 1 })

/-- The writes to the store of fires. -/
inductive Write where
  | add (fires : List NewFire)
  | delete (pairs : List (EventId × ContactId))
  | deleteOfContacts (contacts : List ContactId)
  | deleteOfEvent (event : EventId)
  | mark (ids : List FireId) (t : Instant) (result : FireResult)
deriving DecidableEq, Repr

/-- A write that changes or deletes fires. -/
def alter (statement : Database → Except StoreError Nat × Database) (c : Connection) :
    Except WriteError Nat × Connection :=
  match c.onTables statement with
  | (.ok n, c) => (.ok n, c)
  | (.error e, c) => (.error (.store e), c)

def write (w : Write) (c : Connection) : Except WriteError Nat × Connection :=
  match w with
  | .add fires => c.addFires fires
  | .delete pairs => c.alter (Database.deletePending pairs)
  | .deleteOfContacts contacts => c.alter (Database.deletePendingOfContacts contacts)
  | .deleteOfEvent event => c.alter (Database.deletePendingOfEvent event)
  | .mark ids t result => c.alter (Database.markFires ids t result)

theorem committed_of_saved_eq_nil {c : Connection} (h : c.saved = []) : c.committed = c.db := by
  simp [committed, h]

theorem rollback_start (c : Connection) : c.start.rollback = c := rfl

/-- Others do not see whether a transaction has been undone. -/
theorem committed_rollback (c : Connection) : c.rollback.committed = c.committed := by
  obtain ⟨here, saved, n⟩ := c
  cases saved with
  | nil => rfl
  | cons db saved => simp [rollback, committed, List.getLast?_cons]

end Connection
end Outreach
