import Outreach.Asset.Record
import Outreach.Asset.View

/-!
# Outreach.Asset.Snapshot

The assets of an org as they were read. Snapshots share what they did not read anew: an
`Edition` is one reading of a category, told from others of the org by its serial number, and a
shelf holds the flows that were loaded so far.

* `Snapshot.view` — what scheduling looks up in the campaigns of a snapshot.
* `Shelf.find?`, `Shelf.put` — the flows on a shelf, by identifier and by number.
-/

namespace Outreach

structure Edition (α : Type) where
  serial : Nat
  readAt : Instant
  content : α

structure Snapshot where
  org : OrgId
  serial : Nat
  builtAt : Instant
  parts : (p : Part) → Edition p.Content
  /-- The number of the shelf, among those of the org. -/
  shelf : Nat

namespace Snapshot

def content (s : Snapshot) (p : Part) : p.Content := (s.parts p).content

/-- Whether two snapshots are one and the same. -/
def same (s t : Snapshot) : Bool := s.org == t.org && s.serial == t.serial

def zone (s : Snapshot) : Zone := (s.content .environment).timezone

def campaigns (s : Snapshot) : List Campaign := AssetSet.items (s.content .campaigns)

def view (s : Snapshot) : View := View.ofCampaigns s.campaigns

end Snapshot

/-- A flow on a shelf: the number of its copy there, and when it was loaded. -/
structure Shelved where
  serial : Nat
  loadedAt : Instant
  flow : Flow

structure Shelf where
  byUuid : Index Uuid Shelved := .empty
  byId : Index FlowId Shelved := .empty
  supply : Nat := 0

namespace Shelf

def size (s : Shelf) : Nat := s.byId.size

def find? (s : Shelf) : FlowRef → Option Shelved
  | .uuid u => s.byUuid.find? u
  | .id n => s.byId.find? n

/-- A new copy of a flow, under its identifier and under its number. -/
def put (s : Shelf) (loadedAt : Instant) (f : Flow) : Shelf :=
  let copy : Shelved := ⟨s.supply, loadedAt, f⟩
  { byUuid := s.byUuid.insert f.uuid copy
    byId := s.byId.insert f.id copy
    supply := s.supply + 1 }

end Shelf
end Outreach
