import Outreach.Proofs.Fire.Plan
import Outreach.Proofs.Time.Stored

/-!
# Outreach.Proofs.Fire.Tended

Tables of fires that nobody but the scheduler adds to. Each row stands for one instant, at which
its event was computed to fire.

* `FireRow.StandsFor` — the row is written for the instant; there is no other such instant.
* `Tending` — a step of a course of events; what calls keep it keeps (`Tending.keeps`).
* `Tended` — courses of events in which only the scheduler adds fires.
* `Tended.timed` — from a table without fires on, all rows stand for instants.
-/

namespace Outreach

open Relation

/-- The row is written for an instant at which its event was computed to fire. -/
structure FireRow.StandsFor (r : FireRow) (t : Instant) : Prop where
  text : r.scheduled = t.toStored
  computed : ∃ (s : EventSpec) (z : Zone) (now start : Instant),
    s.id = r.event ∧ s.fireTime z now start = .ok (some t)

namespace FireRow.StandsFor

variable {r : FireRow} {s t : Instant}

/-- Fires are computed for whole seconds. -/
theorem nanos (h : r.StandsFor t) : t.nanos = 0 := by
  obtain ⟨s, z, now, start, -, hfire⟩ := h.computed
  exact EventSpec.nanos_dueTime ((s.fireTime_eq_some_iff z now start t).1 hfire).1

/-- A whole second is known by its text. -/
theorem unique (hs : r.StandsFor s) (ht : r.StandsFor t) : s = t :=
  Instant.toStored_inj hs.nanos ht.nanos (hs.text.symm.trans ht.text)

end FireRow.StandsFor

theorem FireRow.standsFor_markRow (ids : List FireId) (text : String) (result : FireResult)
    {r : FireRow} {t : Instant} :
    (Database.markRow ids text result r).StandsFor t ↔ r.StandsFor t := by
  obtain ⟨-, hevent, -, hscheduled⟩ := Database.markRow_same ids text result r
  constructor
  · intro h
    exact ⟨hscheduled.symm.trans h.text, hevent ▸ h.computed⟩
  · intro h
    exact ⟨hscheduled.trans h.text, hevent ▸ h.computed⟩

/-- The time of the fire was computed, for some event of its number. -/
def NewFire.IsComputed (f : NewFire) : Prop := ∃ evs z now, f.Computed evs z now

theorem NewFire.standsFor_row {f : NewFire} (hf : f.IsComputed) (id : FireId) :
    (f.row id).StandsFor f.scheduled := by
  obtain ⟨evs, z, now, ev, -, hid, start, hfire⟩ := hf
  exact ⟨rfl, ev.spec, z, now, start, hid, hfire⟩

theorem World.Plans.isComputed {δ : Type} {src : Sources δ} {change : Change} {w : World δ}
    {f : NewFire} (h : w.Plans src change f) : f.IsComputed := by
  obtain ⟨now, -, s, -, -, hf⟩ := h
  exact ⟨_, _, now, hf⟩

namespace Database

/-- The table is in order, and all rows stand for instants. -/
structure Timed (db : Database) : Prop where
  coherent : db.Coherent
  rows : ∀ r ∈ db.fires, ∃ t, r.StandsFor t

theorem timed_of_empty {db : Database} (h : db.fires = []) : db.Timed :=
  ⟨coherent_of_empty h, by simp [h]⟩

theorem Timed.sublist {db db' : Database} (hd : db.Timed) (h : db'.fires.Sublist db.fires) :
    db'.Timed :=
  ⟨hd.coherent.sublist h, fun r hr => hd.rows r (h.mem hr)⟩

theorem Timed.adds {fs : List NewFire} (hfs : ∀ f ∈ fs, f.IsComputed) {db db' : Database}
    (hd : db.Timed) (h : Adds fs db db') : db'.Timed := by
  refine ⟨hd.coherent.adds h, ?_⟩
  intro r hr
  obtain ⟨f, hf, -⟩ := h
  rcases List.mem_append.1 hr with hr | hr
  · exact hd.rows r hr
  · obtain rfl := List.mem_singleton.1 hr
    exact ⟨f.scheduled, NewFire.standsFor_row (hfs f hf) _⟩

theorem Timed.drops {db db' : Database} (hd : db.Timed) (h : db.Drops db') : db'.Timed := by
  obtain ⟨p⟩ := h
  exact hd.sublist List.filter_sublist

theorem Timed.settles {ids : List FireId} {db db' : Database} (hd : db.Timed)
    (h : Settles ids db db') : db'.Timed := by
  refine ⟨hd.coherent.settles h, ?_⟩
  intro r hr
  obtain ⟨piece, -, text, result⟩ := h
  obtain ⟨q, hq, rfl⟩ := List.mem_map.1 hr
  obtain ⟨t, ht⟩ := hd.rows q hq
  exact ⟨t, (FireRow.standsFor_markRow piece text result).2 ht⟩

end Database

namespace Connection

theorem write_timed {w : Write} (hw : ∀ fs, w = .add fs → ∀ f ∈ fs, f.IsComputed)
    (c : Connection) (hc : c.db.Timed) : (c.write w).2.db.Timed := by
  obtain ⟨-, ⟨fs, hfs, h⟩ | h | ⟨ids, t, result, -, h⟩⟩ := c.write_steps w
  · exact Database.keeps_of_steps (fun _ _ hs hd => hd.adds (hw fs hfs) hs) h hc
  · exact Database.keeps_of_steps (fun _ _ hs hd => hd.drops hs) h hc
  · exact Database.keeps_of_steps (fun _ _ hs hd => hd.settles hs) h hc

end Connection

/-! ## Courses of events -/

/-- One step of a course of events, with the connection as it was after each call. It is a call by
hand, or the scheduler is told of a change, or something happens elsewhere. By hand and by the
scheduler only calls of certain forms are made. What happens elsewhere may change all but what
transactions go back to, and of the fires it may take some away, as deleting a contact does. -/
inductive Tending {δ : Type} (src : Sources δ) (hand : Connection → Call → Prop)
    (told : Change → List Call → Prop) (w : World δ) : List Connection → World δ → Prop where
  | call {k : Call} (hk : hand w.tables k) :
    Tending src hand told w [k.run w.tables] { w with tables := k.run w.tables }
  | change (batch : Nat) (change : Change) (hchange : told change (w.calls src batch change)) :
    Tending src hand told w (Call.path (w.calls src batch change) w.tables)
      (w.reconcile src batch change).2
  | elsewhere {w' : World δ} (hfires : w'.tables.db.fires.Sublist w.tables.db.fires)
      (hsaved : w'.tables.saved = w.tables.saved) : Tending src hand told w [w'.tables] w'

/-- What all calls keep of every copy of the tables, and fewer fires as well, a step keeps. -/
theorem Tending.keeps {δ : Type} {src : Sources δ} (hk : src.KeepTables)
    {hand : Connection → Call → Prop} {told : Change → List Call → Prop} {p : Database → Prop}
    (hhand : ∀ c k, hand c k → (∀ db ∈ c.copies, p db) → ∀ db ∈ (k.run c).copies, p db)
    (htold : ∀ (w : World δ) change ks, told change ks → ∀ k ∈ ks,
      Call.Within (w.Plans src change) k → ∀ c : Connection, (∀ db ∈ c.copies, p db) →
        ∀ db ∈ (k.run c).copies, p db)
    (hsub : ∀ db db' : Database, db'.fires.Sublist db.fires → p db → p db')
    {w w' : World δ} {ms : List Connection} (h : Tending src hand told w ms w')
    (hw : ∀ db ∈ w.tables.copies, p db) :
    (∀ c ∈ ms, ∀ db ∈ c.copies, p db) ∧ ∀ db ∈ w'.tables.copies, p db := by
  cases h with
  | call hcall =>
    have hnext := hhand _ _ hcall hw
    exact ⟨List.forall_mem_singleton.2 hnext, hnext⟩
  | change batch change hchange =>
    have hwithin := (w.calls_work src batch change).within
    rw [World.reconcile_follows hk]
    exact Call.keeps_path (p := fun c => ∀ db ∈ c.copies, p db)
      (fun k hmem => htold w change _ hchange k hmem (hwithin k hmem)) hw
  | elsewhere hfires hsaved =>
    have hnext := Connection.forall_copies_of_saved (hsub _ _ hfires) hsaved hw
    exact ⟨List.forall_mem_singleton.2 hnext, hnext⟩

/-- Courses of events in which nobody but the scheduler adds fires: by hand they are settled and
deleted, and transactions are begun and ended. -/
inductive Tended {δ : Type} (src : Sources δ) (start : World δ) :
    List Connection → World δ → Prop where
  | here : Tended src start [] start
  | step {ms ns : List Connection} {w w' : World δ} (h : Tended src start ms w)
      (hs : Tending src (fun _ k => ∀ fs, k ≠ .write (.add fs)) (fun _ _ => True) w ns w') :
    Tended src start (ms ++ ns) w'

namespace Call

theorem timed_run {k : Call} (hk : ∀ fs, k = .write (.add fs) → ∀ f ∈ fs, f.IsComputed)
    (c : Connection) (hc : ∀ db ∈ c.copies, db.Timed) : ∀ db ∈ (k.run c).copies, db.Timed := by
  refine Connection.forall_copies_run k c ?_ hc
  intro w hw hd
  subst hw
  exact c.write_timed (fun fs hfs => hk fs (congrArg Call.write hfs)) hd

theorem timed_planned {δ : Type} {src : Sources δ} {w : World δ} {change : Change} {k : Call}
    (hk : Within (w.Plans src change) k) (c : Connection) (hc : ∀ db ∈ c.copies, db.Timed) :
    ∀ db ∈ (k.run c).copies, db.Timed := by
  refine timed_run ?_ c hc
  intro fs hfs f hf
  subst hfs
  exact World.Plans.isComputed (hk f hf)

end Call

theorem Connection.copies_of_empty {p : Database → Prop} {c : Connection}
    (hp : ∀ db : Database, db.fires = [] → p db) (hfires : c.db.fires = [])
    (hsaved : c.saved = []) : ∀ db ∈ c.copies, p db := by
  rw [copies_of_saved_eq_nil hsaved]
  intro db hdb
  obtain rfl := List.mem_singleton.1 hdb
  exact hp _ hfires

theorem Tended.timed {δ : Type} {src : Sources δ} (hk : src.KeepTables) {start w : World δ}
    {ms : List Connection} (h : Tended src start ms w) (hfires : start.tables.db.fires = [])
    (hsaved : start.tables.saved = []) : ∀ c ∈ start.tables :: ms, ∀ db ∈ c.copies, db.Timed := by
  have hstart := Connection.copies_of_empty (fun _ => Database.timed_of_empty) hfires hsaved
  have hall : (∀ c ∈ ms, ∀ db ∈ c.copies, db.Timed) ∧ ∀ db ∈ w.tables.copies, db.Timed := by
    induction h with
    | here => exact ⟨by simp, hstart⟩
    | step _ hs ih =>
      obtain ⟨hms, hnow⟩ := ih
      obtain ⟨hns, hnext⟩ := hs.keeps hk
        (fun c k hadd => Call.timed_run (fun fs hfs => absurd hfs (hadd fs)) c)
        (fun w change ks _ k _ hwithin => Call.timed_planned hwithin)
        (fun _ _ hsub hd => hd.sublist hsub) hnow
      exact ⟨List.forall_mem_append.2 ⟨hms, hns⟩, hnext⟩
  exact List.forall_mem_cons.2 ⟨hstart, hall.1⟩

end Outreach
