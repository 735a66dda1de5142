import Outreach.Cache

/-!
# Outreach.Cache.SingleFlight

Callers that ask for snapshots at the same time, as processes that take turns in any order. Who
misses joins the registration of the org, or makes one. A registration has a cell that is
written once: the first to come to it looks again and builds, the others wait, and all take the
result from the cell. Who leaves removes the registration if it still is the one joined.

* `Caller`, `Phase` — a process and how far it has come.
* `Crowd.step` — one atomic step of one caller.
* `World.getTogether` — callers that ask for one org and take turns one after the other.
-/

namespace Outreach

/-- What a caller asks for: the snapshot, with the categories of the mask read anew. -/
structure Request where
  org : OrgId
  mask : Mask

abbrev Outcome := Except AssetError Snapshot

inductive Phase where
  | looking
  | joining
  | joined (cell : Nat)
  | checking (cell : Nat)
  | building (cell : Nat) (started : Instant) (todo : List Part) (done : List Reading)
  | publishing (cell : Nat) (s : Snapshot)
  | settling (cell : Nat) (r : Outcome)
  | leaving (cell : Nat) (r : Outcome)
  | refreshing (prev : Snapshot) (todo : List Part) (done : List Reading)
  | finished (r : Outcome)

structure Caller where
  request : Request
  phase : Phase := .looking

/-- A cell is free, being written, or written for good. -/
inductive Cell where
  | free
  | busy
  | settled (r : Outcome)

structure Crowd (δ : Type) where
  world : World δ
  callers : List Caller
  /-- The cell that is registered for each org. -/
  loading : Index OrgId Nat := .empty
  cells : Index Nat Cell := .empty
  nextCell : Nat := 0

namespace Crowd

variable {δ : Type}

def setWorld (c : Crowd δ) (w : World δ) : Crowd δ := { c with world := w }

def setCell (c : Crowd δ) (n : Nat) (cell : Cell) : Crowd δ :=
  { c with cells := c.cells.insert n cell }

/-- The cell registered for an org, a new one if there is none. -/
def register (c : Crowd δ) (org : OrgId) : Nat × Crowd δ :=
  match c.loading.find? org with
  | some n => (n, c)
  | none =>
    (c.nextCell,
     { c with
       loading := c.loading.insert org c.nextCell
       cells := c.cells.insert c.nextCell .free
       nextCell := c.nextCell + 1 })

/-- Removes the registration of an org if it is for this cell. -/
def unregister (c : Crowd δ) (org : OrgId) (n : Nat) : Crowd δ :=
  if c.loading.find? org = some n then { c with loading := c.loading.erase org } else c

/-- The step of a caller that looks for an entry. -/
def look (r : Request) (c : Crowd δ) : Phase × Crowd δ :=
  match c.world.fresh? r.org with
  | none => (.joining, c)
  | some s =>
    if r.mask = .empty then (.finished (.ok s), c)
    else (.refreshing s (World.partsToRead (some s) r.mask) [], c)

/-- The step of a caller that has come to a cell. -/
def enter (cell : Nat) (c : Crowd δ) : Phase × Crowd δ :=
  match c.cells.find? cell with
  | some (.settled r) => (.leaving cell r, c)
  | some .free => (.checking cell, c.setCell cell .busy)
  | _ => (.joined cell, c)

/-- The step of the caller that writes a cell: an entry may have been made in the meantime. -/
def check (org : OrgId) (cell : Nat) (c : Crowd δ) : Phase × Crowd δ :=
  match c.world.fresh? org with
  | some s => (.settling cell (.ok s), c)
  | none =>
    if c.world.cache.building.contains org then (.settling cell (.error (.buildInProgress org)), c)
    else
      (.building cell c.world.clock Part.all [],
       c.setWorld (c.world.setBuilding (org :: c.world.cache.building)))

/-- The step of the caller that builds in full. -/
def readNext (src : Sources δ) (org : OrgId) (cell : Nat) (started : Instant) (done : List Reading)
    (c : Crowd δ) : List Part → Phase × Crowd δ
  | p :: ps =>
    match World.readPart src org p c.world with
    | (.error e, w) =>
      (.settling cell (.error e), c.setWorld (w.setBuilding (w.cache.building.erase org)))
    | (.ok r, w) => (.building cell started ps (done ++ [r]), c.setWorld w)
  | [] =>
    let (s, cache) := c.world.cache.assemble org none true started done
    (.publishing cell s, c.setWorld { c.world with cache })

/-- The step of a caller that refreshes an entry. -/
def refreshNext (src : Sources δ) (r : Request) (prev : Snapshot) (done : List Reading)
    (c : Crowd δ) : List Part → Phase × Crowd δ
  | p :: ps =>
    match World.readPart src r.org p c.world with
    | (.error e, w) => (.finished (.error e), c.setWorld w)
    | (.ok d, w) => (.refreshing prev ps (done ++ [d]), c.setWorld w)
  | [] =>
    let (s, cache) :=
      c.world.cache.assemble r.org (some prev) (r.mask.reloads .flows) c.world.clock done
    (.finished (.ok s), c.setWorld { c.world with cache := cache.publish s })

/-- One step of a caller. A caller that waits for a cell and one that has finished stay as they
are. -/
def advance (src : Sources δ) (r : Request) (phase : Phase) (c : Crowd δ) : Phase × Crowd δ :=
  match phase with
  | .looking => look r c
  | .joining =>
    let (cell, c) := c.register r.org
    (.joined cell, c)
  | .joined cell => enter cell c
  | .checking cell => check r.org cell c
  | .building cell started todo done => readNext src r.org cell started done c todo
  | .publishing cell s =>
    let w := c.world.keep s
    (.settling cell (.ok s), c.setWorld (w.setBuilding (w.cache.building.erase r.org)))
  | .settling cell res => (.leaving cell res, c.setCell cell (.settled res))
  | .leaving cell res => (.finished res, c.unregister r.org cell)
  | .refreshing prev todo done => refreshNext src r prev done c todo
  | .finished res => (.finished res, c)

/-- One step of the caller at a position. -/
def step (src : Sources δ) (i : Nat) (c : Crowd δ) : Crowd δ :=
  match c.callers[i]? with
  | none => c
  | some caller =>
    let (phase, c) := advance src caller.request caller.phase c
    { c with callers := c.callers.set i { caller with phase } }

/-- Steps of the callers at the given positions. -/
def run (src : Sources δ) (turns : List Nat) (c : Crowd δ) : Crowd δ :=
  turns.foldl (fun c i => c.step src i) c

end Crowd

/-- The result of a caller that has finished. -/
def Caller.result? (c : Caller) : Option Outcome :=
  match c.phase with
  | .finished r => some r
  | _ => none

namespace World

/-- More rounds than a full build and the steps around it take. -/
def rounds : Nat := Part.all.length + 10

/-- Callers that ask for the snapshot of one org at once, each taking a step in every round. -/
def getTogether {δ : Type} (src : Sources δ) (org : OrgId) (callers : Nat) (w : World δ) :
    List Outcome × World δ :=
  let crowd : Crowd δ := { world := w, callers := List.replicate callers ⟨⟨org, .empty⟩, .looking⟩ }
  let turns := (List.replicate rounds (List.range callers)).flatten
  let c := crowd.run src turns
  (c.callers.filterMap Caller.result?, c.world)

end World
end Outreach
