import Outreach.Asset.Record
import Outreach.Database.Connection
import Outreach.Database.Edit
import Outreach.Scheduler
import Outreach.Time.Clock

/-!
# Outreach.Session.Step

The steps of a session with a store of assets, a cache of snapshots, the tables and a scheduler.

* `Step` — one step, on one of the parts. Steps may hold others: those of a transaction, and those
  that run when a category is loaded.
* `Draft` — the data of an org that a step gives.
* `Step.size` — the number of steps, those inside included.
-/

namespace Outreach

/-- A new value for one category of an org's data. -/
inductive OrgChange where
  | part (p : Part) (listed : p.Source)
  | flows (fs : List Flow)

def OrgChange.apply (d : OrgData) : OrgChange → OrgData
  | part p listed => d.set p listed
  | flows fs => { d with flows := fs }

/-- A code in the data of an org that has no meaning. -/
inductive Flaw where
  | campaign (e : CampaignError)
  | schedule (e : ScheduleError)
deriving DecidableEq

/-- Data of an org: the categories in the order of building, up to the first with a flaw. -/
structure Draft where
  changes : List OrgChange
  flaw : Option Flaw := none

def Draft.apply (dr : Draft) (d : OrgData) : OrgData :=
  dr.changes.foldl OrgChange.apply d

namespace Session

/-- Steps on the store of assets. -/
inductive StoreStep where
  | insertOrg (org : OrgId) (data : Draft)
  | updateOrg (org : OrgId) (data : Draft)
  | fail (c : Category) (message : String)
  | clear (c : Category)
  | counts

/-- Steps on the cache. -/
inductive CacheStep where
  | get (org : OrgId)
  | refresh (org : OrgId) (mask : Mask)
  | together (org : OrgId) (callers : Nat)
  | flush
  | size

/-- Steps on a snapshot. -/
inductive SnapshotStep where
  | flow (ref : FlowRef)
  | shelved (ref : FlowRef)
  | simulate (replacements : List (Uuid × JsonValue)) (channels : List Channel)
  | look (p : Part) (q : Lookup)
  | index (group : GroupId) (event : EventId) (key : String)
  | debug

/-- Steps on the tables, those of fires aside. -/
inductive TableStep where
  | edit (e : Database.Edit)
  | addContacts (org : OrgId) (createdOn : String) (group : Option GroupId) (first last : ContactId)
  | dropTable (name : String)
  | rows
  | members (org : OrgId) (group : GroupId) (ref : Reference)
  | contacts (org : OrgId) (ids : List ContactId)

/-- Steps on the store of fires. -/
inductive FireStep where
  | write (w : Connection.Write)
  | due (now : Instant) (limit : Int)
  | withIds (ids : List FireId)
  | pendingOf (event : EventId)

inductive Step where
  | store (s : StoreStep)
  | clock (s : ClockStep)
  | cache (s : CacheStep)
  | snapshot (number : Int) (s : SnapshotStep)
  | table (s : TableStep)
  | fires (s : FireStep)
  | reconcile (change : Change)
  /-- A flow as others see the tables. -/
  | storedFlow (org : OrgId) (ref : FlowRef)
  /-- The addition of fires that will be refused, counted from the next one. -/
  | refuseFires (call : Nat)
  /-- Steps that run before the next load of a category. -/
  | onLoad (c : Category) (steps : List Step)
  | transaction (steps : List Step) (commit : Bool)
deriving Nonempty

mutual

def Step.size : Step → Nat
  | .onLoad _ steps => Step.sizes steps + 1
  | .transaction steps _ => Step.sizes steps + 1
  | _ => 1

def Step.sizes : List Step → Nat
  | [] => 0
  | s :: ss => s.size + Step.sizes ss

end

end Session
end Outreach
