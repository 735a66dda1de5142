import Outreach.Cache
import Outreach.Reconcile

/-!
# Outreach.Scheduler

What the scheduler is told, and what it does about it. Campaigns and their events come from the
cache; a new or edited event is looked for among campaigns that are read anew.

* `Change` — something that has happened to contacts or events.
* `World.reconcile` — brings the fires in line with a change.
-/

namespace Outreach

/-- Something that has happened to contacts or events. -/
inductive Change where
  | joined (org : OrgId) (group : GroupId) (contacts : List ContactId) (now : Instant)
  | left (org : OrgId) (group : GroupId) (contacts : List ContactId)
  | valueSet (org : OrgId) (key : String) (contacts : List ContactId) (now : Instant)
  | eventEdited (org : OrgId) (event : EventId) (now : Instant)
  | eventDropped (event : EventId)
  | contactsGone (contacts : List ContactId)
deriving DecidableEq, Repr

inductive SchedulerError where
  | assets (e : AssetError)
  | reconcile (e : ReconcileError)
deriving DecidableEq

namespace SchedulerError

def ofReconcile : Fault ReconcileError → Fault SchedulerError
  | .cause e => .cause (reconcile e)
  | .overflow => .overflow

end SchedulerError

namespace World

variable {δ : Type}

/-- Work on the tables of the world. -/
def onTables (work : Connection → Worked Tally) (w : World δ) :
    Except (Fault SchedulerError) Tally × World δ :=
  match work w.tables with
  | (.ok t, tables) => (.ok t, { w with tables })
  | (.error f, tables) => (.error (SchedulerError.ofReconcile f), { w with tables })

/-- Work on the tables that needs a snapshot. -/
def withSnapshot (found : Except AssetError Snapshot × World δ)
    (work : Snapshot → Connection → Worked Tally) :
    Except (Fault SchedulerError) Tally × World δ :=
  match found with
  | (.error e, w) => (.error (.cause (.assets e)), w)
  | (.ok s, w) => w.onTables (work s)

/-- Schedules an event of a snapshot for the members of its campaign's group. -/
def scheduleIn (s : Snapshot) (event : EventId) (now : Instant) (c : Connection) : Worked Tally :=
  match s.view.event? event with
  | some ⟨spec, some home⟩ => c.scheduleEvent s.org s.zone spec home.group now
  | _ => (.error (.cause (.campaign (.eventNotFound event))), c)

/-- Brings the fires in line with a change, with contacts in batches of the given size. -/
def reconcile (src : Sources δ) (batch : Nat) (change : Change) (w : World δ) :
    Except (Fault SchedulerError) Tally × World δ :=
  match change with
  | .joined org group contacts now =>
    withSnapshot (w.get src org) fun s =>
      Connection.recompute batch org s.zone (s.view.eventsOf group) contacts now
  | .left org group contacts =>
    withSnapshot (w.get src org) fun s =>
      Connection.withdraw batch ((s.view.eventsOf group).map Event.id) contacts
  | .valueSet org key contacts now =>
    withSnapshot (w.get src org) fun s =>
      Connection.recompute batch org s.zone (s.view.eventsRelativeTo key) contacts now
  | .eventEdited org event now =>
    withSnapshot (w.refresh src org (.of (.part .campaigns))) fun s => scheduleIn s event now
  | .eventDropped event => w.onTables (Connection.dropEvent event)
  | .contactsGone contacts => w.onTables (Connection.withdrawAll batch contacts)

end World
end Outreach
