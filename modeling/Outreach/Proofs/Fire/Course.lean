import Outreach.Proofs.Cache
import Outreach.Proofs.Fire.Steps
import Outreach.Scheduler

/-!
# Outreach.Proofs.Fire.Course

Courses of events in which fires are written, by hand and by the scheduler, in transactions that
are kept or undone.

* `Call` — one thing done to a connection: a write, or the beginning or end of a transaction.
* `Traced` — work on a connection with the calls that it is made of. `World.calls` are those of
  the scheduler, and `World.reconcile_follows` says that it comes to the same.
* `Course` — a course of events, with the connection as it was after each call.
* `Course.keeps`, `Course.keeps_while` — what every call keeps holds throughout a course.
-/

namespace Outreach

/-- One thing done to a connection. -/
inductive Call where
  | write (w : Connection.Write)
  | start
  | commit
  | rollback
deriving DecidableEq

namespace Call

def run : Call → Connection → Connection
  | write w, c => (c.write w).2
  | start, c => c.start
  | commit, c => c.commit
  | rollback, c => c.rollback

/-- The connection after some calls. -/
def follow : List Call → Connection → Connection
  | [], c => c
  | k :: ks, c => follow ks (k.run c)

/-- The connection after each of some calls. -/
def path : List Call → Connection → List Connection
  | [], _ => []
  | k :: ks, c => k.run c :: path ks (k.run c)

theorem follow_append (ks js : List Call) (c : Connection) :
    follow (ks ++ js) c = follow js (follow ks c) := by
  induction ks generalizing c with
  | nil => rfl
  | cons k ks ih => exact ih _

theorem path_append (ks js : List Call) (c : Connection) :
    path (ks ++ js) c = path ks c ++ path js (follow ks c) := by
  induction ks generalizing c with
  | nil => rfl
  | cons k ks ih => exact congrArg (_ :: ·) (ih _)

end Call

/-! ## Work and its calls -/

/-- Work on a connection, with the calls that it is made of. -/
structure Traced (ε α : Type) where
  work : Connection → Except ε α × Connection
  calls : Connection → List Call
  follows : ∀ c, (work c).2 = Call.follow (calls c) c

namespace Traced

open Connection

variable {ε α : Type}

/-- The transaction ends as the work does. -/
def ending : Except ε α → Call
  | .ok _ => .commit
  | .error _ => .rollback

def atomically (t : Traced ε α) : Traced ε α where
  work := Connection.atomically t.work
  calls c := .start :: t.calls c.start ++ [ending (t.work c.start).1]
  follows c := by
    have h := t.follows c.start
    simp only [List.cons_append, Call.follow, Call.follow_append, Call.run, ← h,
      Connection.atomically]
    split <;> (rename_i h'; rw [h']; rfl)

theorem perform_follows (w : Connection.Write) (c : Connection) :
    (c.perform w).2 = (Call.write w).run c := by
  simp only [Connection.perform, Call.run]
  split <;> (rename_i h; rw [h])

/-- A write, and what is done after it if it succeeds. -/
def after (w : Connection.Write) (rest : Nat → Connection → List Call) (c : Connection) :
    List Call :=
  .write w ::
    match c.perform w with
    | (.error _, _) => []
    | (.ok n, c) => rest n c

theorem follow_after_of_error {w : Connection.Write} {rest : Nat → Connection → List Call}
    {c c' : Connection} {f : Fault ReconcileError} (h : c.perform w = (.error f, c')) :
    Call.follow (after w rest c) c = c' := by
  simp only [after, h, Call.follow, ← perform_follows]

theorem follow_after_of_ok {w : Connection.Write} {rest : Nat → Connection → List Call}
    {c c' : Connection} {n : Nat} (h : c.perform w = (.ok n, c')) :
    Call.follow (after w rest c) c = Call.follow (rest n c') c' := by
  simp only [after, h, Call.follow, ← perform_follows]

def schedule (deleted : Nat) (fires : Except (Fault CampaignError) (List NewFire)) :
    Traced (Fault ReconcileError) Tally where
  work := Connection.schedule deleted fires
  calls c :=
    match fires with
    | .error _ => []
    | .ok fires => after (.add fires) (fun _ _ => []) c
  follows c := by
    cases fires with
    | error f => rfl
    | ok fires =>
      simp only [Connection.schedule]
      split
      · rename_i h
        rw [follow_after_of_error h]
      · rename_i h
        rw [follow_after_of_ok h]
        rfl

def recomputeBatch (org : OrgId) (z : Zone) (events : List Event) (now : Instant)
    (cs : List ContactId) : Traced (Fault ReconcileError) Tally where
  work := Connection.recomputeBatch org z events now cs
  calls := after (.delete (pairsOf (events.map Event.id) cs)) fun deleted c =>
    match c.db.loadContacts org cs with
    | .error _ => []
    | .ok contacts => (schedule deleted (firesOfAll z now events contacts)).calls c
  follows c := by
    simp only [Connection.recomputeBatch]
    split
    · rename_i h
      rw [follow_after_of_error h]
    · rename_i deleted c' h
      rw [follow_after_of_ok h]
      cases c'.db.loadContacts org cs with
      | error e => rfl
      | ok contacts => exact (schedule deleted _).follows c'

/-- A write whose answer is a number of deleted fires. -/
def deleting (w : Connection.Write) : Traced (Fault ReconcileError) Tally where
  work c :=
    match c.perform w with
    | (.error f, c) => (.error f, c)
    | (.ok deleted, c) => (.ok ⟨deleted, 0⟩, c)
  calls := after w fun _ _ => []
  follows c := by
    split
    · rename_i h
      rw [follow_after_of_error h]
    · rename_i h
      rw [follow_after_of_ok h]
      rfl

def scheduleMembers (org : OrgId) (z : Zone) (s : EventSpec) (group : GroupId) (now : Instant) :
    Traced (Fault ReconcileError) Tally where
  work := Connection.scheduleMembers org z s group now
  calls c :=
    match c.db.eligibleMembers org group s.relativeTo with
    | .error _ => []
    | .ok members =>
      after (.deleteOfEvent s.id)
        (fun deleted => (schedule deleted (firesOfMembers z now s members)).calls) c
  follows c := by
    simp only [Connection.scheduleMembers]
    cases c.db.eligibleMembers org group s.relativeTo with
    | error e => rfl
    | ok members =>
      simp only
      split
      · rename_i h
        rw [follow_after_of_error h]
      · rename_i deleted c' h
        rw [follow_after_of_ok h]
        exact (schedule deleted _).follows c'

/-- The calls of batches, up to the first that fails. -/
def batchCalls (t : List ContactId → Traced (Fault ReconcileError) Tally) :
    List (List ContactId) → Connection → List Call
  | [], _ => []
  | cs :: rest, c =>
    (t cs).atomically.calls c ++
      match (t cs).atomically.work c with
      | (.error _, _) => []
      | (.ok _, c) => batchCalls t rest c

def inBatches (t : List ContactId → Traced (Fault ReconcileError) Tally)
    (css : List (List ContactId)) : Traced (Fault ReconcileError) Tally where
  work := Connection.inBatches (fun cs => (t cs).work) css
  calls := batchCalls t css
  follows c := by
    induction css generalizing c with
    | nil => rfl
    | cons cs rest ih =>
      have hfirst := (t cs).atomically.follows c
      simp only [batchCalls, Call.follow_append, ← hfirst]
      unfold Connection.inBatches
      split
      · rename_i h
        have h' : (t cs).atomically.work c = _ := h
        rw [h']
        rfl
      · rename_i tally c' h
        have h' : (t cs).atomically.work c = _ := h
        rw [h']
        rw [← ih c']
        split <;> (rename_i h''; rw [h''])

def recompute (batch : Nat) (org : OrgId) (z : Zone) (events : List Event) (cs : List ContactId)
    (now : Instant) : Traced (Fault ReconcileError) Tally where
  work := Connection.recompute batch org z events cs now
  calls c :=
    if events.isEmpty then []
    else (inBatches (recomputeBatch org z events now) (chunksOf batch cs)).calls c
  follows c := by
    unfold Connection.recompute
    split
    · rfl
    · exact (inBatches (recomputeBatch org z events now) (chunksOf batch cs)).follows c

def withdraw (batch : Nat) (events : List EventId) (cs : List ContactId) :
    Traced (Fault ReconcileError) Tally where
  work := Connection.withdraw batch events cs
  calls c :=
    if events.isEmpty then []
    else (inBatches (fun cs => deleting (.delete (pairsOf events cs))) (chunksOf batch cs)).calls c
  follows c := by
    unfold Connection.withdraw
    split
    · rfl
    · exact (inBatches (fun cs => deleting (.delete (pairsOf events cs))) _).follows c

def withdrawAll (batch : Nat) (cs : List ContactId) : Traced (Fault ReconcileError) Tally where
  work := Connection.withdrawAll batch cs
  calls := (inBatches (fun cs => deleting (.deleteOfContacts cs)) (chunksOf batch cs)).calls
  follows := (inBatches (fun cs => deleting (.deleteOfContacts cs)) (chunksOf batch cs)).follows

def dropEvent (e : EventId) : Traced (Fault ReconcileError) Tally where
  work := Connection.dropEvent e
  calls := (deleting (.deleteOfEvent e)).calls
  follows := (deleting (.deleteOfEvent e)).follows

def scheduleIn (s : Snapshot) (event : EventId) (now : Instant) :
    Traced (Fault ReconcileError) Tally where
  work := World.scheduleIn s event now
  calls c :=
    match s.view.event? event with
    | some ⟨spec, some home⟩ =>
      (scheduleMembers s.org s.zone spec home.group now).atomically.calls c
    | _ => []
  follows c := by
    unfold World.scheduleIn
    match s.view.event? event with
    | none => rfl
    | some ⟨_, none⟩ => rfl
    | some ⟨spec, some home⟩ =>
      exact (scheduleMembers s.org s.zone spec home.group now).atomically.follows c

end Traced

/-! ## The calls of the scheduler -/

namespace World

variable {δ : Type}

/-- The calls of work that needs a snapshot. -/
def callsWith (found : Except AssetError Snapshot × World δ)
    (t : Snapshot → Traced (Fault ReconcileError) Tally) : List Call :=
  match found with
  | (.error _, _) => []
  | (.ok s, w) => (t s).calls w.tables

/-- The calls by which the scheduler brings the fires in line with a change. -/
def calls (src : Sources δ) (batch : Nat) (change : Change) (w : World δ) : List Call :=
  match change with
  | .joined org group contacts now =>
    callsWith (w.get src org) fun s =>
      .recompute batch org s.zone (s.view.eventsOf group) contacts now
  | .left org group contacts =>
    callsWith (w.get src org) fun s =>
      .withdraw batch ((s.view.eventsOf group).map Event.id) contacts
  | .valueSet org key contacts now =>
    callsWith (w.get src org) fun s =>
      .recompute batch org s.zone (s.view.eventsRelativeTo key) contacts now
  | .eventEdited org event now =>
    callsWith (w.refresh src org (.of (.part .campaigns))) fun s => .scheduleIn s event now
  | .eventDropped event => (Traced.dropEvent event).calls w.tables
  | .contactsGone contacts => (Traced.withdrawAll batch contacts).calls w.tables

theorem onTables_follows (t : Traced (Fault ReconcileError) Tally) (w : World δ) :
    (w.onTables t.work).2.tables = Call.follow (t.calls w.tables) w.tables := by
  rw [← t.follows]
  unfold onTables
  split <;> (rename_i h; rw [h])

theorem withSnapshot_follows (found : Except AssetError Snapshot × World δ) (w : World δ)
    (hw : found.2.tables = w.tables) (t : Snapshot → Traced (Fault ReconcileError) Tally) :
    (withSnapshot found fun s => (t s).work).2.tables =
      Call.follow (callsWith found t) w.tables := by
  rw [← hw]
  unfold withSnapshot callsWith
  split
  · rfl
  · exact onTables_follows (t _) _

theorem reconcile_follows {src : Sources δ} (hk : src.KeepTables) (batch : Nat) (change : Change)
    (w : World δ) :
    (w.reconcile src batch change).2.tables =
      Call.follow (w.calls src batch change) w.tables := by
  cases change with
  | joined org group contacts now =>
    exact withSnapshot_follows _ w (get_tables hk org w) fun s =>
      .recompute batch org s.zone (s.view.eventsOf group) contacts now
  | left org group contacts =>
    exact withSnapshot_follows _ w (get_tables hk org w) fun s =>
      .withdraw batch ((s.view.eventsOf group).map Event.id) contacts
  | valueSet org key contacts now =>
    exact withSnapshot_follows _ w (get_tables hk org w) fun s =>
      .recompute batch org s.zone (s.view.eventsRelativeTo key) contacts now
  | eventEdited org event now =>
    exact withSnapshot_follows _ w (refresh_tables hk org _ w) fun s => .scheduleIn s event now
  | eventDropped event => exact onTables_follows (.dropEvent event) w
  | contactsGone contacts => exact onTables_follows (.withdrawAll batch contacts) w

end World

/-! ## Courses of events -/

/-- The course of events from `w` to another world, with the connection as it was after each
call. What happens elsewhere may touch all but the fires and what transactions go back to. -/
inductive Course {δ : Type} (src : Sources δ) (w : World δ) : List Connection → World δ → Prop where
  | here : Course src w [] w
  | call {ms : List Connection} {w' : World δ} (h : Course src w ms w') (k : Call) :
    Course src w (ms ++ [k.run w'.tables]) { w' with tables := k.run w'.tables }
  | change {ms : List Connection} {w' : World δ} (h : Course src w ms w') (batch : Nat)
      (change : Change) :
    Course src w (ms ++ Call.path (w'.calls src batch change) w'.tables)
      (w'.reconcile src batch change).2
  | elsewhere {ms : List Connection} {w' w'' : World δ} (h : Course src w ms w')
      (hfires : w''.tables.db.fires = w'.tables.db.fires)
      (hsaved : w''.tables.saved = w'.tables.saved) :
    Course src w (ms ++ [w''.tables]) w''

section Keeps

variable {Q P : Connection → Prop} (hcall : ∀ k c, Q c → P c → P (Call.run k c))

include hcall

theorem Call.keeps_while (ks : List Call) {c : Connection} (hQ : Q c) (hP : P c)
    (hpath : ∀ m ∈ path ks c, Q m) :
    (∀ m ∈ path ks c, P m) ∧ P (follow ks c) ∧ Q (follow ks c) := by
  induction ks generalizing c with
  | nil => exact ⟨by simp [path], hP, hQ⟩
  | cons k ks ih =>
    have hk := hcall k c hQ hP
    obtain ⟨hms, hlast⟩ := ih (hpath _ List.mem_cons_self) hk
      fun m hm => hpath m (List.mem_cons_of_mem _ hm)
    refine ⟨fun m hm => ?_, hlast⟩
    rcases List.mem_cons.1 hm with rfl | hm
    · exact hk
    · exact hms m hm

/-- What each call keeps while `Q` holds, and what rests on the fires and the open transactions
alone, holds throughout a course of events in which `Q` does. -/
theorem Course.keeps_while {δ : Type} {src : Sources δ} (hk : src.KeepTables)
    (helse : ∀ c c' : Connection, c'.db.fires = c.db.fires → c'.saved = c.saved → P c → P c')
    {w w' : World δ} {ms : List Connection} (h : Course src w ms w') (hQ : Q w.tables)
    (hP : P w.tables) (hms : ∀ m ∈ ms, Q m) :
    (∀ m ∈ ms, P m) ∧ P w'.tables ∧ Q w'.tables := by
  have hone {ms : List Connection} {c : Connection} (hms : ∀ m ∈ ms, P m) (hc : P c) :
      ∀ m ∈ ms ++ [c], P m := by
    intro m hm
    rcases List.mem_append.1 hm with hm | hm
    · exact hms m hm
    · exact List.mem_singleton.1 hm ▸ hc
  have hlast {ms : List Connection} {c : Connection} (hms : ∀ m ∈ ms ++ [c], Q m) : Q c :=
    hms c (List.mem_append_right _ (List.mem_singleton.2 rfl))
  induction h with
  | here => exact ⟨by simp, hP, hQ⟩
  | call _ k ih =>
    obtain ⟨hbefore, hnow, hq⟩ := ih fun m hm => hms m (List.mem_append_left _ hm)
    have hnext := hcall k _ hq hnow
    exact ⟨hone hbefore hnext, hnext, hlast hms⟩
  | @change ms w' _ batch change ih =>
    obtain ⟨hbefore, hnow, hq⟩ := ih fun m hm => hms m (List.mem_append_left _ hm)
    obtain ⟨hpath, hend⟩ := Call.keeps_while hcall (w'.calls src batch change) hq hnow
      fun m hm => hms m (List.mem_append_right _ hm)
    rw [World.reconcile_follows hk]
    refine ⟨fun m hm => ?_, hend⟩
    rcases List.mem_append.1 hm with hm | hm
    · exact hbefore m hm
    · exact hpath m hm
  | elsewhere _ hfires hsaved ih =>
    obtain ⟨hbefore, hnow, -⟩ := ih fun m hm => hms m (List.mem_append_left _ hm)
    have hnext := helse _ _ hfires hsaved hnow
    exact ⟨hone hbefore hnext, hnext, hlast hms⟩

end Keeps

/-- What each call keeps holds throughout a course of events. -/
theorem Course.keeps {δ : Type} {src : Sources δ} (hk : src.KeepTables) {P : Connection → Prop}
    (hcall : ∀ k c, P c → P (Call.run k c))
    (helse : ∀ c c' : Connection, c'.db.fires = c.db.fires → c'.saved = c.saved → P c → P c')
    {w w' : World δ} {ms : List Connection} (h : Course src w ms w') (hw : P w.tables) :
    (∀ m ∈ ms, P m) ∧ P w'.tables := by
  obtain ⟨hms, hnow, -⟩ := keeps_while (Q := fun _ => True) (fun k c _ => hcall k c) hk helse h
    trivial hw fun _ _ => trivial
  exact ⟨hms, hnow⟩

end Outreach
