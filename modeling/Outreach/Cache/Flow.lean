import Outreach.Cache

/-!
# Outreach.Cache.Flow

The flows of a snapshot. A flow is loaded when it is first asked for and then kept on the shelf
of the snapshot, which snapshots share that did not read flows anew. A simulation runs on a copy
of a snapshot with a shelf of its own, on which some flows have another definition.
-/

namespace Outreach
namespace World

variable {δ : Type}

/-- Loads a flow that has to exist. -/
def demand (src : Sources δ) (org : OrgId) (ref : FlowRef) (w : World δ) :
    Except AssetError Flow × World δ :=
  match src.loadFlow org ref w with
  | (.error e, w) => (.error (.flowLoad ref org e), w)
  | (.ok none, w) => (.error (.flowNotFound ref org), w)
  | (.ok (some f), w) => (.ok f, w)

def shelfOf (w : World δ) (s : Snapshot) : Shelf := w.cache.shelf s.org s.shelf

/-- The flow on the snapshot's shelf, where it is put if it is not there. -/
def flow (src : Sources δ) (s : Snapshot) (ref : FlowRef) (w : World δ) :
    Except AssetError Flow × World δ :=
  match (w.shelfOf s).find? ref with
  | some copy => (.ok copy.flow, w)
  | none =>
    match demand src s.org ref w with
    | (.error e, w) => (.error e, w)
    | (.ok f, w') =>
      (.ok f, { w' with cache := w'.cache.setShelf s.org s.shelf ((w'.shelfOf s).put w.clock f) })

/-- The flow on a shelf that nobody else knows. -/
def flowOn (src : Sources δ) (org : OrgId) (shelf : Shelf) (ref : FlowRef) (w : World δ) :
    Except AssetError Shelved × World δ :=
  match shelf.find? ref with
  | some copy => (.ok copy, w)
  | none =>
    match demand src org ref w with
    | (.error e, w) => (.error e, w)
    | (.ok f, w') => (.ok ⟨shelf.supply, w.clock, f⟩, w')

/-- A shelf with the flows of the given identifiers, each with its new definition. -/
def replaceFlows (src : Sources δ) (org : OrgId) :
    List (Uuid × JsonValue) → Shelf → World δ → Except AssetError Shelf × World δ
  | [], shelf, w => (.ok shelf, w)
  | (u, definition) :: rest, shelf, w =>
    match flowOn src org shelf (.uuid u) w with
    | (.error (.flowNotFound _ _), w) => (.error (.unknownFlow u org), w)
    | (.error e, w) => (.error e, w)
    | (.ok copy, w) =>
      replaceFlows src org rest (shelf.put copy.loadedAt { copy.flow with definition }) w

end World

namespace Snapshot

/-- The channels with test channels among them, as an edition of its own. -/
def withChannels (s : Snapshot) (serial : Nat) (extra : List Channel) :
    (p : Part) → Edition p.Content
  | .channels =>
    if extra.isEmpty then s.parts .channels
    else
      { serial
        readAt := (s.parts .channels).readAt
        content := AssetSet.withExtra (s.content .channels) extra }
  | p => s.parts p

end Snapshot

namespace World

variable {δ : Type}

/-- A copy of a snapshot for a simulation. It shares all categories, the channels only if there
are no test channels. -/
def simulate (src : Sources δ) (s : Snapshot) (replacements : List (Uuid × JsonValue))
    (extra : List Channel) (w : World δ) : Except AssetError Snapshot × World δ :=
  match replaceFlows src s.org replacements {} w with
  | (.error e, w) => (.error e, w)
  | (.ok shelf, w) =>
    let serial := w.cache.nextSerial s.org
    let cache := { w.cache with supply := w.cache.supply.insert s.org (serial + 1) }
    (.ok { s with serial, parts := s.withChannels serial extra, shelf := serial },
     { w with cache := cache.setShelf s.org serial shelf })

end World
end Outreach
