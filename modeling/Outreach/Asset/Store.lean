import Outreach.Asset.Record

/-!
# Outreach.Asset.Store

A store that holds the assets of orgs in memory. It counts how often each category is loaded,
and a category can be made to fail.
-/

namespace Outreach

structure AssetStore where
  orgs : Index OrgId OrgData := .empty
  loads : Index Category Nat := .empty
  forced : Index Category String := .empty

namespace AssetStore

def loadCount (s : AssetStore) (c : Category) : Nat :=
  (s.loads.find? c).getD 0

/-- Replaces everything that is known about an org. -/
def insertOrg (s : AssetStore) (org : OrgId) (d : OrgData) : AssetStore :=
  { s with orgs := s.orgs.insert org d }

/-- Edits the data of an org, which comes into being if it is not there. -/
def update (s : AssetStore) (org : OrgId) (f : OrgData → OrgData) : AssetStore :=
  s.insertOrg org (f ((s.orgs.find? org).getD {}))

/-- Makes every load of a category fail. -/
def fail (s : AssetStore) (c : Category) (message : String) : AssetStore :=
  { s with forced := s.forced.insert c message }

def clear (s : AssetStore) (c : Category) : AssetStore :=
  { s with forced := s.forced.erase c }

def count (s : AssetStore) (c : Category) : AssetStore :=
  { s with loads := s.loads.insert c (s.loadCount c + 1) }

/-- What a load of a category finds of an org. -/
def find (s : AssetStore) (c : Category) (org : OrgId) : Except LoadFailure OrgData :=
  match s.forced.find? c with
  | some message => .error (.forced message)
  | none =>
    match s.orgs.find? org with
    | some d => .ok d
    | none => .error (.unknownOrg org)

/-- Loads a category, which is counted also when it fails. -/
def load (s : AssetStore) (p : Part) (org : OrgId) : Except LoadFailure p.Source × AssetStore :=
  match s.find (.part p) org with
  | .error e => (.error e, s.count (.part p))
  | .ok d => (.ok (d.source p), s.count (.part p))

/-- Loads one flow. -/
def loadFlow (s : AssetStore) (org : OrgId) (ref : FlowRef) :
    Except LoadFailure (Option Flow) × AssetStore :=
  match s.find .flows org with
  | .error e => (.error e, s.count .flows)
  | .ok d => (.ok (d.flows.find? ref.names), s.count .flows)

end AssetStore
end Outreach
