import Outreach.Contacts.Store
import Outreach.Session.State

/-!
# Outreach.Session

Running the steps of a session one after the other. A step that fails leaves what it has done
and the next one goes on from there; only the tables are ever rolled back.

* `Session.exec` — one step, with what ran before its loads. Steps that run before a load have no
  connection to the tables.
* `Session.run` — a whole session, which has no answers if a computation leaves the
  representable range.
-/

namespace Outreach
namespace Session

abbrev Result := Except Failure Reply × State

namespace State

def reply (s : State) (r : Reply) : Result := (.ok r, s)

def refuse (s : State) (f : Failure) : Result := (.error f, s)

/-- Goes on with the snapshot that has a number. -/
def withSnapshot (s : State) (n : Int) (go : Snapshot → Result) : Result :=
  match s.shown? n with
  | none => s.refuse .noSnapshot
  | some snapshot => go snapshot

/-- Answers with a snapshot. -/
def answerSnapshot (setup : Setup) : Except AssetError Snapshot × State → Result
  | (.error e, s) => s.refuse (.assets e)
  | (.ok snapshot, s) =>
    let (shown, s) := s.present setup snapshot
    s.reply (.snapshot shown)

/-- Answers with what was read from the tables. -/
def answerRead {α : Type} (s : State) (f : α → Reply) : Except StoreError α → Result
  | .error e => s.refuse (.store e)
  | .ok a => s.reply (f a)

/-- Answers with the numbers of snapshots, or with the first error. -/
def answerTogether (setup : Setup) : List Outcome × State → Result
  | (outcomes, s) =>
    match outcomes.mapM id with
    | .error e => s.refuse (.assets e)
    | .ok snapshots =>
      let (shown, s) := s.presentAll setup snapshots
      s.reply (.numbers (shown.map Shown.number))

def loadCounts (s : State) : List (Category × Nat) :=
  (Category.all.map fun c => (c, s.rest.store.loadCount c)).filter fun n => n.2 ≠ 0

/-- How a snapshot, its shelf and its groups are written for a reader. -/
def debugTexts (s : State) (snapshot : Snapshot) : List String :=
  ["OrgAssets \x7b org_id: OrgId(" ++ s!"{snapshot.org}" ++ "), built_at: " ++
      snapshot.builtAt.textT ++ "Z, .. \x7d",
   "FlowCache \x7b len: " ++ s!"{(s.shelfOf snapshot).size}" ++ " \x7d",
   Part.groups.debug (snapshot.content .groups)]

/-- Answers with a tally and the numbers of fires there are now. -/
def answerTally : Except (Fault SchedulerError) Tally × State → Result
  | (.error .overflow, s) => s.overflow.reply .done
  | (.error (.cause e), s) => s.refuse (.scheduler e)
  | (.ok t, s) =>
    match s.tables.db.lacking? [.fires] with
    | some t => s.refuse (.refused (.noTable t))
    | none =>
      let fires := s.tables.db.fires
      s.reply (.tally t fires.length (fires.filter FireRow.pending).length)

end State

open State

def execStore (s : State) : StoreStep → Result
  | .insertOrg org data =>
    match data.flaw with
    | some f => s.refuse (.flaw f)
    | none => (s.mapStore fun st => st.insertOrg org (data.apply {})).reply .done
  | .updateOrg org data =>
    let s := s.mapStore fun st => st.update org data.apply
    match data.flaw with
    | some f => s.refuse (.flaw f)
    | none => s.reply .done
  | .fail c message => (s.mapStore fun st => st.fail c message).reply .done
  | .clear c => (s.mapStore fun st => st.clear c).reply .done
  | .counts => s.reply (.counts s.loadCounts)

def execClock (setup : Setup) (s : State) (step : ClockStep) : Result :=
  match step.apply s.rest.clock with
  | none => s.overflow.reply .done
  | some t => (s.setClock setup t).reply (.clock t)

def execCache (setup : Setup) (src : Sources Backdrop) (s : State) : CacheStep → Result
  | .get org => answerSnapshot setup (s.get src org)
  | .refresh org mask => answerSnapshot setup (World.refresh src org mask s)
  | .together org callers => answerTogether setup (s.getTogether src org callers)
  | .flush => State.reply s.flush .done
  | .size => s.reply (.cacheSize s.cache.entries.size s.cache.ttl)

def execSnapshot (setup : Setup) (src : Sources Backdrop) (s : State) (snapshot : Snapshot) :
    SnapshotStep → Result
  | .flow ref =>
    match s.flow src snapshot ref with
    | (.error e, s) => refuse s (.assets e)
    | (.ok f, s) => reply s (.flow f (s.shelfOf snapshot).size)
  | .shelved ref =>
    let shelf := s.shelfOf snapshot
    s.reply (.shelved ((shelf.find? ref).map Shelved.flow) shelf.size)
  | .simulate replacements channels =>
    answerSnapshot setup (s.simulate src snapshot replacements channels)
  | .look p q => s.reply (.found p (p.look q (snapshot.content p)))
  | .index group event key =>
    let view := snapshot.view
    s.reply (.index snapshot.org snapshot.zone.name ((view.campaignsOf group).map Campaign.id)
      (view.event? event) (view.eventsRelativeTo key))
  | .debug => s.reply (.texts (s.debugTexts snapshot))

def dropTable (s : State) (name : String) : Result :=
  match TableName.ofText? name with
  | none => s.refuse .unknownTable
  | some t =>
    match s.tables.db.dropTable t with
    | .error c => s.refuse (.refused c)
    | .ok db => (s.mapTables fun c => { c with db }).reply .done

def execTable (s : State) : TableStep → Result
  | .edit e =>
    match s.tables.db.edit e with
    | .error c => s.refuse (.refused c)
    | .ok (n, db) => (s.mapTables fun c => { c with db }).reply (.touched n)
  | .addContacts org createdOn group first last =>
    match s.tables.db.addContacts org createdOn group first last with
    | (.error c, db) => (s.mapTables fun t => { t with db }).refuse (.refused c)
    | (.ok n, db) => (s.mapTables fun t => { t with db }).reply (.touched n)
  | .dropTable name => dropTable s name
  | .rows =>
    match s.tables.db.lacking? [.fires] with
    | some t => s.refuse (.refused (.noTable t))
    | none => s.reply (.rows (s.tables.db.fires.mergeSort fun a b => decide (a.id ≤ b.id)))
  | .members org group ref => s.answerRead .members (s.tables.db.eligibleMembers org group ref)
  | .contacts org ids => s.answerRead .contacts (s.tables.db.loadContacts org ids)

def execFires (s : State) : FireStep → Result
  | .write w =>
    match s.tables.write w with
    | (.error e, c) => (s.mapTables fun _ => c).refuse (.write e)
    | (.ok n, c) => (s.mapTables fun _ => c).reply (.touched n)
  | .due now limit => s.answerRead .fires (s.tables.db.dueFires now limit)
  | .withIds ids => s.answerRead .fires (s.tables.db.firesWithIds ids)
  | .pendingOf event => s.answerRead .fires (s.tables.db.pendingOfEvent event)

/-- A step other than a transaction. -/
def perform (setup : Setup) (src : Sources Backdrop) (s : State) : Step → Result
  | .store step => execStore s step
  | .clock step => execClock setup s step
  | .cache step => execCache setup src s step
  | .snapshot n step => s.withSnapshot n fun snapshot => execSnapshot setup src s snapshot step
  | .table step => execTable s step
  | .fires step => execFires s step
  | .reconcile change => answerTally (s.reconcile src setup.batch change)
  | .storedFlow org ref =>
    match s.tables.committed.loadFlow org ref with
    | .error e => s.refuse (.storedFlow e)
    | .ok f => s.reply (.storedFlow f)
  | .refuseFires call =>
    (s.mapTables fun c => if setup.live then c else { c with refusal := call }).reply .done
  | .onLoad c steps => (s.mapRest fun r => { r with hooks := r.hooks ++ [(c, steps)] }).reply .done
  | .transaction _ _ => s.reply .done

/-- One step, where `inner` runs the steps inside it. Those that run before a load are without the
connection to the tables, which belongs to whoever causes the load. -/
def exec (setup : Setup) (inner : Setup → List Step → State → List Answer × State) (step : Step)
    (s : State) : Answer × State :=
  if setup.admits step then
    match step with
    | .transaction steps commit =>
      let (answers, t) := inner setup steps (s.mapTables Connection.start)
      (.transaction answers commit,
       t.mapTables (if commit then Connection.commit else Connection.rollback))
    | step =>
      let src := sources setup (inner { setup with connected := false })
      let (r, t) := perform setup src (s.hear []) step
      (.given r t.rest.heard, t.hear [])
  else (.given (.error .noTables) [], s)

/-- Steps one after the other. -/
def inOrder (exec : Step → State → Answer × State) : List Step → State → List Answer × State
  | [], s => ([], s)
  | step :: steps, s =>
    let (a, s) := exec step s
    let (as, s) := inOrder exec steps s
    (a :: as, s)

/-- Steps one after the other, where steps inside others nest at most `depth` deep. -/
def runSteps : Nat → Setup → List Step → State → List Answer × State
  | 0 => fun _ _ s => ([], s)
  | depth + 1 => fun setup => inOrder (exec setup (runSteps depth))

/-- A whole session. Every step runs at most once, so that their number bounds how deep they nest
when they run. -/
def run (setup : Setup) (steps : List Step) : Option (List Answer) :=
  match setup.state? with
  | none => none
  | some s =>
    let (answers, t) := runSteps (Step.sizes steps + 1) setup steps s
    if t.rest.overflowed then none else some answers

end Session
end Outreach
