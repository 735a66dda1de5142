import Outreach.Campaign.FireTime
import Outreach.Contacts.Store
import Outreach.Database.Connection

/-!
# Outreach.Reconcile

Bringing fires in line with contacts and events: the pending fires that a change may have made
wrong are deleted, then computed anew from what is stored now. Long lists of contacts are worked
off in batches, each in a transaction of its own, so that a failure leaves the batches before it.

* `Connection.recompute` — events anew for contacts.
* `Connection.withdraw`, `Connection.withdrawAll` — no events for contacts any more.
* `Connection.scheduleEvent` — one event anew for all members of a group.
-/

namespace Outreach

/-- Pending fires deleted and scheduled. -/
structure Tally where
  deleted : Nat := 0
  scheduled : Nat := 0
deriving DecidableEq, Repr

def Tally.add (t u : Tally) : Tally :=
  ⟨t.deleted + u.deleted, t.scheduled + u.scheduled⟩

inductive ReconcileError where
  | campaign (e : CampaignError)
  | store (e : StoreError)
  | refused
deriving DecidableEq, Repr

namespace ReconcileError

def ofWrite : WriteError → ReconcileError
  | .store e => store e
  | .refused => refused

def ofCampaign : Fault CampaignError → Fault ReconcileError
  | .cause e => .cause (campaign e)
  | .overflow => .overflow

end ReconcileError

/-- What work on a connection comes to. -/
abbrev Worked (α : Type) := Except (Fault ReconcileError) α × Connection

/-! ## Fires of contacts -/

/-- The fires of events for one contact. -/
def firesOf (z : Zone) (now : Instant) (c : Contact) :
    List Event → Except (Fault CampaignError) (List NewFire)
  | [] => .ok []
  | e :: es =>
    match e.fireFor z now c with
    | .error f => .error f
    | .ok fire =>
      match firesOf z now c es with
      | .error f => .error f
      | .ok fires =>
        match fire with
        | none => .ok fires
        | some t => .ok (⟨e.id, c.id, t⟩ :: fires)

/-- The fires of events for contacts, contact by contact. -/
def firesOfAll (z : Zone) (now : Instant) (es : List Event) :
    List Contact → Except (Fault CampaignError) (List NewFire)
  | [] => .ok []
  | c :: cs =>
    match firesOf z now c es with
    | .error f => .error f
    | .ok fires =>
      match firesOfAll z now es cs with
      | .error f => .error f
      | .ok more => .ok (fires ++ more)

/-- The fires of one event for members of a group that have the date it is relative to. -/
def firesOfMembers (z : Zone) (now : Instant) (s : EventSpec) :
    List (ContactId × Option Instant) → Except (Fault CampaignError) (List NewFire)
  | [] => .ok []
  | (_, none) :: ms => firesOfMembers z now s ms
  | (c, some start) :: ms =>
    match s.fireTime z now start with
    | .error f => .error f
    | .ok fire =>
      match firesOfMembers z now s ms with
      | .error f => .error f
      | .ok fires =>
        match fire with
        | none => .ok fires
        | some t => .ok (⟨s.id, c, t⟩ :: fires)

/-- Every event with every contact. -/
def pairsOf (events : List EventId) (cs : List ContactId) : List (EventId × ContactId) :=
  events.flatMap fun e => cs.map fun c => (e, c)

namespace Connection

/-! ## In one transaction -/

/-- A write to the store of fires, as part of the work. -/
def perform (w : Write) (c : Connection) : Worked Nat :=
  match c.write w with
  | (.ok n, c) => (.ok n, c)
  | (.error e, c) => (.error (.cause (.ofWrite e)), c)

/-- Adds the fires that were computed, if they could be. -/
def schedule (deleted : Nat) (fires : Except (Fault CampaignError) (List NewFire))
    (c : Connection) : Worked Tally :=
  match fires with
  | .error f => (.error (ReconcileError.ofCampaign f), c)
  | .ok fires =>
    match c.perform (.add fires) with
    | (.error f, c) => (.error f, c)
    | (.ok scheduled, c) => (.ok ⟨deleted, scheduled⟩, c)

/-- Events anew for one batch of contacts. -/
def recomputeBatch (org : OrgId) (z : Zone) (events : List Event) (now : Instant)
    (cs : List ContactId) (c : Connection) : Worked Tally :=
  match c.perform (.delete (pairsOf (events.map Event.id) cs)) with
  | (.error f, c) => (.error f, c)
  | (.ok deleted, c) =>
    match c.db.loadContacts org cs with
    | .error e => (.error (.cause (.store e)), c)
    | .ok contacts => c.schedule deleted (firesOfAll z now events contacts)

/-- No events for one batch of contacts. -/
def withdrawBatch (events : List EventId) (cs : List ContactId) (c : Connection) : Worked Tally :=
  match c.perform (.delete (pairsOf events cs)) with
  | (.error f, c) => (.error f, c)
  | (.ok deleted, c) => (.ok ⟨deleted, 0⟩, c)

/-- No events at all for one batch of contacts. -/
def withdrawAllBatch (cs : List ContactId) (c : Connection) : Worked Tally :=
  match c.perform (.deleteOfContacts cs) with
  | (.error f, c) => (.error f, c)
  | (.ok deleted, c) => (.ok ⟨deleted, 0⟩, c)

/-- One event anew for the members of a group. -/
def scheduleMembers (org : OrgId) (z : Zone) (s : EventSpec) (group : GroupId) (now : Instant)
    (c : Connection) : Worked Tally :=
  match c.db.eligibleMembers org group s.relativeTo with
  | .error e => (.error (.cause (.store e)), c)
  | .ok members =>
    match c.perform (.deleteOfEvent s.id) with
    | (.error f, c) => (.error f, c)
    | (.ok deleted, c) => c.schedule deleted (firesOfMembers z now s members)

/-! ## In batches -/

/-- Batches one after the other, up to the first that fails. -/
def inBatches (work : List ContactId → Connection → Worked Tally) :
    List (List ContactId) → Connection → Worked Tally
  | [], c => (.ok {}, c)
  | cs :: rest, c =>
    match c.atomically (work cs) with
    | (.error f, c) => (.error f, c)
    | (.ok t, c) =>
      match inBatches work rest c with
      | (.error f, c) => (.error f, c)
      | (.ok u, c) => (.ok (t.add u), c)

/-- Computes events anew for contacts. Without events nothing is done. -/
def recompute (batch : Nat) (org : OrgId) (z : Zone) (events : List Event) (cs : List ContactId)
    (now : Instant) (c : Connection) : Worked Tally :=
  if events.isEmpty then (.ok {}, c)
  else inBatches (recomputeBatch org z events now) (chunksOf batch cs) c

/-- Drops the pending fires of events for contacts. -/
def withdraw (batch : Nat) (events : List EventId) (cs : List ContactId) (c : Connection) :
    Worked Tally :=
  if events.isEmpty then (.ok {}, c)
  else inBatches (withdrawBatch events) (chunksOf batch cs) c

/-- Drops all pending fires of contacts. -/
def withdrawAll (batch : Nat) (cs : List ContactId) (c : Connection) : Worked Tally :=
  inBatches withdrawAllBatch (chunksOf batch cs) c

/-- Computes one event anew for the members of a group. -/
def scheduleEvent (org : OrgId) (z : Zone) (s : EventSpec) (group : GroupId) (now : Instant)
    (c : Connection) : Worked Tally :=
  c.atomically (scheduleMembers org z s group now)

/-- Drops the pending fires of an event. -/
def dropEvent (e : EventId) (c : Connection) : Worked Tally :=
  match c.perform (.deleteOfEvent e) with
  | (.error f, c) => (.error f, c)
  | (.ok deleted, c) => (.ok ⟨deleted, 0⟩, c)

end Connection
end Outreach
