import Outreach.Asset.Store
import Outreach.Cache.Flow
import Outreach.Cache.SingleFlight
import Outreach.Session.Answer
import Outreach.Settings

/-!
# Outreach.Session.State

What a session works on. Snapshots are numbered as they come to be shown, and so are, for each
category, the objects that the snapshots hold.

* `Setup` — what a session starts from; `Setup.admits` says which steps it can run at all.
* `State` — the world of a session; `State.present` numbers a snapshot and what it holds.
* `sources` — the loaders of a session, with the steps that run before a load.
-/

namespace Outreach
namespace Session

/-- Where flows come from. -/
inductive FlowOrigin where
  | store
  | tables
  /-- A database that cannot be opened. -/
  | unreachable (path : String)
deriving DecidableEq, Repr

structure Setup where
  start : Instant
  /-- How long a snapshot is served, in milliseconds. -/
  ttlMillis : Int
  batch : Nat
  flows : FlowOrigin := .store
  /-- Whether tables were made. -/
  tables : Bool := true
  /-- Whether steps hold the connection to the tables. -/
  connected : Bool := true
  /-- Whether the cache has a clock of its own, and the scheduler a store that never refuses. -/
  live : Bool := false

/-- The setup that settings give, where flows come from a database. -/
def Setup.ofSettings (start : Instant) (flows : FlowOrigin) (tables : Bool)
    (s : Settings) : Setup :=
  { start, ttlMillis := s.ttlMillis, batch := s.batchSize, flows, tables, live := true }

/-- Steps on the tables, on the store of fires and of the scheduler work on the connection, and so
do transactions. A flow is read on another one. -/
def Setup.admits (setup : Setup) : Step → Bool
  | .table _ | .fires _ | .reconcile _ | .transaction _ _ => setup.tables && setup.connected
  | .storedFlow _ _ => setup.tables
  | _ => true

/-- Everything beside the clock, the cache and the tables. -/
structure Backdrop where
  store : AssetStore := {}
  /-- The steps to run before a load of a category, the oldest first. -/
  hooks : List (Category × List Step) := []
  /-- The answers of the steps that ran before loads since the current step began, in the order in
  which they ended. -/
  heard : List Answer := []
  shown : List Snapshot := []
  /-- The objects of each category, as org and serial number. -/
  objects : Index Category (List (OrgId × Nat)) := .empty
  /-- The clock that steps read and set. -/
  clock : Instant
  /-- Whether a computation has left the representable range. -/
  overflowed : Bool := false

abbrev State := World Backdrop

/-- The state in which a session starts, if the snapshots are served for a representable time. A
session without tables has a database all the same, but one in which none was made. -/
def Setup.state? (s : Setup) : Option State :=
  match Span.ofMillis? s.ttlMillis with
  | none => none
  | some ttl =>
    some
      { clock := s.start
        cache := { ttl }
        tables := { db := { dropped := if s.tables then [] else TableName.all } }
        rest := { clock := s.start } }

namespace State

def mapRest (s : State) (f : Backdrop → Backdrop) : State := { s with rest := f s.rest }

def mapStore (s : State) (f : AssetStore → AssetStore) : State :=
  s.mapRest fun r => { r with store := f r.store }

def mapTables (s : State) (f : Connection → Connection) : State := { s with tables := f s.tables }

def hear (s : State) (answers : List Answer) : State :=
  s.mapRest fun r => { r with heard := answers }

def overflow (s : State) : State := s.mapRest fun r => { r with overflowed := true }

/-- Sets the clock, and that of the cache unless it has its own. -/
def setClock (setup : Setup) (t : Instant) (s : State) : State :=
  let s := s.mapRest fun r => { r with clock := t }
  if setup.live then s else { s with clock := t }

/-- Which object of a category a snapshot holds. -/
def object (snapshot : Snapshot) : Category → OrgId × Nat
  | .part p => (snapshot.org, (snapshot.parts p).serial)
  | .flows => (snapshot.org, snapshot.shelf)

/-- The number of an object among those of its category. -/
def generation (c : Category) (object : OrgId × Nat) (s : State) : Nat × State :=
  let known := (s.rest.objects.find? c).getD []
  (known.idxOf object,
   if object ∈ known then s
   else s.mapRest fun r => { r with objects := r.objects.insert c (known ++ [object]) })

def generations (snapshot : Snapshot) : List Category → State → List Nat × State
  | [], s => ([], s)
  | c :: cs, s =>
    let (n, s) := s.generation c (object snapshot c)
    let (ns, s) := generations snapshot cs s
    (n :: ns, s)

/-- Shows a snapshot: it gets a number when that happens for the first time, and so do the objects
it holds. -/
def present (setup : Setup) (snapshot : Snapshot) (s : State) : Shown × State :=
  let number := s.rest.shown.findIdx snapshot.same
  let s :=
    if number < s.rest.shown.length then s
    else s.mapRest fun r => { r with shown := r.shown ++ [snapshot] }
  let (generations, s) := s.generations snapshot Category.all
  ({ number
     org := snapshot.org
     builtAt := if setup.live then none else some snapshot.builtAt
     generations
     cached := s.cache.entries.size }, s)

def presentAll (setup : Setup) : List Snapshot → State → List Shown × State
  | [], s => ([], s)
  | snapshot :: rest, s =>
    let (shown, s) := s.present setup snapshot
    let (more, s) := presentAll setup rest s
    (shown :: more, s)

/-- The snapshot with a number. -/
def shown? (s : State) (n : Int) : Option Snapshot :=
  if n < 0 then none else s.rest.shown[n.toNat]?

/-- The oldest hook of a category, and the others. -/
def takeHook (c : Category) :
    List (Category × List Step) → Option (List Step × List (Category × List Step))
  | [] => none
  | h :: hs =>
    if h.1 = c then some (h.2, hs)
    else
      match takeHook c hs with
      | none => none
      | some (steps, rest) => some (steps, h :: rest)

/-- Runs steps one by one and adds what each answers to what was heard before. -/
def overhear (inner : List Step → State → List Answer × State) : List Step → State → State
  | [], s => s
  | step :: steps, s =>
    let (answers, t) := inner [step] s
    overhear inner steps (t.hear (s.rest.heard ++ answers.flatMap Answer.overheard))

/-- Runs the oldest hook of a category, if there is one. -/
def runHook (inner : List Step → State → List Answer × State) (c : Category) (s : State) : State :=
  match takeHook c s.rest.hooks with
  | none => s
  | some (steps, hooks) => s.mapRest (fun r => { r with hooks }) |>.overhear inner steps

end State

/-- The loaders of a session. The steps before a load run by `inner`; flows are loaded without. -/
def sources (setup : Setup) (inner : List Step → State → List Answer × State) :
    Sources Backdrop where
  load p org (s : State) :=
    let s := s.runHook inner (.part p)
    let (r, store) := s.rest.store.load p org
    (r, s.mapStore fun _ => store)
  loadFlow org ref (s : State) :=
    match setup.flows with
    | .store =>
      let (r, store) := s.rest.store.loadFlow org ref
      (r, s.mapStore fun _ => store)
    | .tables => (s.tables.committed.loadFlow org ref, s)
    | .unreachable path => (.error (.noDatabase path), s)

end Session
end Outreach
