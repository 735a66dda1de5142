import Outreach.Asset.Error
import Outreach.Asset.Snapshot
import Outreach.Database.Connection

/-!
# Outreach.Cache

Snapshots of orgs, kept for a while. A snapshot is served until its age reaches the time to
live; then, or if there is none, one is built in full. A refresh reads some categories anew,
shares the others with the snapshot it starts from, and keeps its age.

Loading may change the world in any way, since whoever loads may use the cache itself. While a
full build of an org is under way, a second one inside it is refused.

* `World`, `Sources` — what there is, and where assets are loaded from.
* `World.get`, `World.refresh` — the snapshot of an org.
* `World.build` — reading categories in order, up to the first that fails.
-/

namespace Outreach

structure Cache where
  ttl : Span
  entries : Index OrgId Snapshot := .empty
  /-- The orgs of which a full build is under way. -/
  building : List OrgId := []
  /-- How many serial numbers each org has used. -/
  supply : Index OrgId Nat := .empty
  shelves : Index (OrgId × Nat) Shelf := .empty

/-- The clock, the cache and the tables, and all else that sources depend on. -/
structure World (δ : Type) where
  clock : Instant
  cache : Cache
  tables : Connection := {}
  rest : δ

/-- Where assets are loaded from. -/
structure Sources (δ : Type) where
  load : (p : Part) → OrgId → World δ → Except LoadFailure p.Source × World δ
  loadFlow : OrgId → FlowRef → World δ → Except LoadFailure (Option Flow) × World δ

/-- A category that has been read. -/
structure Reading where
  part : Part
  readAt : Instant
  content : part.Content

/-- When a category was read, and what it held. -/
def Reading.of? (p : Part) : List Reading → Option (Instant × p.Content)
  | [] => none
  | r :: rs => if h : r.part = p then some (r.readAt, h ▸ r.content) else Reading.of? p rs

namespace Cache

def nextSerial (c : Cache) (org : OrgId) : Nat := (c.supply.find? org).getD 0

def shelf (c : Cache) (org : OrgId) (n : Nat) : Shelf := (c.shelves.find? (org, n)).getD {}

def setShelf (c : Cache) (org : OrgId) (n : Nat) (s : Shelf) : Cache :=
  { c with shelves := c.shelves.insert (org, n) s }

def publish (c : Cache) (s : Snapshot) : Cache :=
  { c with entries := c.entries.insert s.org s }

/-- A snapshot of what was read and, for the rest, of `prev`; without one, it is built at `now`.
It has the next serial number, and so have its new editions and a new shelf. -/
def assemble (c : Cache) (org : OrgId) (prev : Option Snapshot) (newShelf : Bool) (now : Instant)
    (rs : List Reading) : Snapshot × Cache :=
  let serial := c.nextSerial org
  let inherited (p : Part) : Edition p.Content :=
    match prev with
    | some s => s.parts p
    | none => ⟨serial, now, p.index p.nothing⟩
  ({ org
     serial
     builtAt :=
      match prev with
      | some s => s.builtAt
      | none => now
     parts := fun p =>
      match Reading.of? p rs with
      | some (t, content) => ⟨serial, t, content⟩
      | none => inherited p
     shelf :=
      match prev with
      | some s => if newShelf then serial else s.shelf
      | none => serial },
   { c with supply := c.supply.insert org (serial + 1) })

end Cache

namespace World

variable {δ : Type}

/-- The snapshot of an org that is not too old. -/
def fresh? (w : World δ) (org : OrgId) : Option Snapshot :=
  match w.cache.entries.find? org with
  | none => none
  | some s => if w.clock.since s.builtAt < w.cache.ttl then some s else none

/-- Reads one category and indexes what was loaded. -/
def readPart (src : Sources δ) (org : OrgId) (p : Part) (w : World δ) :
    Except AssetError Reading × World δ :=
  match src.load p org w with
  | (.error e, w') => (.error (.load p org e), w')
  | (.ok listed, w') => (.ok ⟨p, w.clock, p.index listed⟩, w')

/-- Reads categories one after the other, up to the first that fails. -/
def readParts (src : Sources δ) (org : OrgId) :
    List Part → World δ → Except AssetError (List Reading) × World δ
  | [], w => (.ok [], w)
  | p :: ps, w =>
    match readPart src org p w with
    | (.error e, w) => (.error e, w)
    | (.ok r, w) =>
      match readParts src org ps w with
      | (.error e, w) => (.error e, w)
      | (.ok rs, w) => (.ok (r :: rs), w)

/-- The categories that a build reads. -/
def partsToRead (prev : Option Snapshot) (m : Mask) : List Part :=
  match prev with
  | none => Part.all
  | some _ => Part.all.filter fun p => m.reloads (.part p)

/-- Builds a snapshot that reads anew what the mask says, or everything if there is nothing to
start from. -/
def build (src : Sources δ) (org : OrgId) (prev : Option Snapshot) (m : Mask) (w : World δ) :
    Except AssetError Snapshot × World δ :=
  match readParts src org (partsToRead prev m) w with
  | (.error e, w') => (.error e, w')
  | (.ok rs, w') =>
    let (s, cache) := w'.cache.assemble org prev (m.reloads .flows) w.clock rs
    (.ok s, { w' with cache })

def setBuilding (w : World δ) (orgs : List OrgId) : World δ :=
  { w with cache := { w.cache with building := orgs } }

/-- Keeps a snapshot unless it has grown too old while it was built. -/
def keep (w : World δ) (s : Snapshot) : World δ :=
  if w.clock.since s.builtAt < w.cache.ttl then { w with cache := w.cache.publish s } else w

/-- Builds the snapshot of an org in full, unless that is asked for in the course of such a build
(`AssetError.buildInProgress`). -/
def buildFull (src : Sources δ) (org : OrgId) (w : World δ) :
    Except AssetError Snapshot × World δ :=
  if w.cache.building.contains org then (.error (.buildInProgress org), w)
  else
    match build src org none .full (w.setBuilding (org :: w.cache.building)) with
    | (.error e, w) => (.error e, w.setBuilding (w.cache.building.erase org))
    | (.ok s, w) => (.ok s, (w.keep s).setBuilding (w.cache.building.erase org))

/-- The snapshot of an org. -/
def get (src : Sources δ) (org : OrgId) (w : World δ) : Except AssetError Snapshot × World δ :=
  match w.fresh? org with
  | some s => (.ok s, w)
  | none => buildFull src org w

/-- The snapshot of an org with the categories of the mask read anew. -/
def refresh (src : Sources δ) (org : OrgId) (m : Mask) (w : World δ) :
    Except AssetError Snapshot × World δ :=
  match w.fresh? org with
  | none => buildFull src org w
  | some prev =>
    if m = .empty then (.ok prev, w)
    else
      match build src org (some prev) m w with
      | (.error e, w) => (.error e, w)
      | (.ok s, w) => (.ok s, { w with cache := w.cache.publish s })

/-- Drops every entry. -/
def flush (w : World δ) : World δ :=
  { w with cache := { w.cache with entries := .empty } }

end World
end Outreach
