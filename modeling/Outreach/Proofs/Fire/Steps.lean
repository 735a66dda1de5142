import Mathlib.Data.List.Nodup
import Mathlib.Logic.Relation
import Outreach.Database.Connection

/-!
# Outreach.Proofs.Fire.Steps

What the writes do to the table of fires. Each is made of steps of one of three kinds, whether it
succeeds or stops half way: pending fires are added where there are none (`Adds`), pending fires
are dropped (`Drops`), or pending fires are settled (`Settles`).

* `Coherent` — what the schema asks of the table; every step keeps it.
* `Names` — what a number stands for; only an addition at a free number can change it.
-/

namespace Outreach
namespace Database

open Relation

/-! ## Steps -/

/-- One of some fires is added, pending, for a pair that has no pending fire. -/
inductive Adds (fs : List NewFire) (db : Database) : Database → Prop where
  | add (f : NewFire) (hf : f ∈ fs) (h : db.hasPending f.event f.contact = false) :
    Adds fs db { db with fires := db.fires ++
      [⟨db.nextFireId, f.event, f.contact, f.scheduled.toStored, none, none⟩] }

/-- Some pending fires are dropped. -/
inductive Drops (db : Database) : Database → Prop where
  | drop (p : FireRow → Bool) :
    Drops db { db with fires := db.fires.filter fun r => !(r.pending && p r) }

/-- Some pending fires with the given numbers are settled. -/
inductive Settles (ids : List FireId) (db : Database) : Database → Prop where
  | settle (piece : List FireId) (h : piece ⊆ ids) (text : String) (result : FireResult) :
    Settles ids db { db with fires := db.fires.map (markRow piece text result) }

theorem inTurn_steps {α : Type} {R : Database → Database → Prop}
    {run : α → Database → Except StoreError (Nat × Database)} {as : List α}
    (hrun : ∀ a ∈ as, ∀ db n db', run a db = .ok (n, db') → ReflTransGen R db db')
    (db : Database) : ReflTransGen R db (inTurn run as db).2 := by
  induction as generalizing db with
  | nil => exact .refl
  | cons a as ih =>
    unfold inTurn
    split
    · exact .refl
    · rename_i n db' h
      have hfirst := hrun a List.mem_cons_self _ _ _ h
      have hrest := ih (fun a ha => hrun a (List.mem_cons_of_mem _ ha)) db'
      split
      · rename_i h'
        rw [h'] at hrest
        exact hfirst.trans hrest
      · rename_i h'
        rw [h'] at hrest
        exact hfirst.trans hrest

theorem insertFires_adds {all : List NewFire} (fs : List NewFire) (hall : fs ⊆ all)
    (db : Database) : ReflTransGen (Adds all) db (insertFires fs db).2 := by
  induction fs generalizing db with
  | nil => exact .refl
  | cons f fs ih =>
    simp only [insertFires]
    refine ReflTransGen.trans ?_ (ih (List.subset_of_cons_subset hall) _)
    unfold insertFire
    split
    · exact .refl
    · rename_i h
      exact .single (.add f (hall List.mem_cons_self) (Bool.eq_false_iff.2 h))

theorem addFires_adds (fs : List NewFire) (db : Database) :
    ReflTransGen (Adds fs) db (addFires fs db).2 := by
  apply inTurn_steps
  intro piece hpiece db n db' h
  have hsub : piece ⊆ fs := fun f hf => by
    rw [← flatten_chunksOf rowsPerInsert fs]
    exact List.mem_flatten.2 ⟨piece, hpiece, hf⟩
  unfold insertStatement at h
  split at h
  · cases h
  · split at h
    · have hdb : db' = (insertFires piece db).2 := by
        rw [Except.ok.inj h]
      exact hdb ▸ insertFires_adds piece hsub db
    · cases h

theorem deleteStatement_drops {s : Statement} {p : FireRow → Bool} {db db' : Database} {n : Nat}
    (h : deleteStatement s p db = .ok (n, db')) : ReflTransGen Drops db db' := by
  unfold deleteStatement at h
  split at h
  · cases h
  · cases h
    exact .single (.drop p)

theorem deletePending_drops (pairs : List (EventId × ContactId)) (db : Database) :
    ReflTransGen Drops db (deletePending pairs db).2 :=
  inTurn_steps (fun _ _ _ _ _ h => deleteStatement_drops h) db

theorem deletePendingOfContacts_drops (cs : List ContactId) (db : Database) :
    ReflTransGen Drops db (deletePendingOfContacts cs db).2 :=
  inTurn_steps (fun _ _ _ _ _ h => deleteStatement_drops h) db

theorem deletePendingOfEvent_drops (e : EventId) (db : Database) :
    ReflTransGen Drops db (deletePendingOfEvent e db).2 :=
  inTurn_steps (fun _ _ _ _ _ h => deleteStatement_drops h) db

theorem markFires_settles (ids : List FireId) (t : Instant) (result : FireResult) (db : Database) :
    ReflTransGen (Settles ids) db (markFires ids t result db).2 := by
  apply inTurn_steps
  intro piece hpiece db n db' h
  have hsub : piece ⊆ ids := fun i hi => by
    rw [← flatten_chunksOf idsPerQuery ids]
    exact List.mem_flatten.2 ⟨piece, hpiece, hi⟩
  unfold markStatement at h
  split at h
  · cases h
  · cases h
    exact .single (.settle piece hsub _ result)

/-! ## What the schema asks -/

/-- The pending fires of a pair. -/
def pendingOf (db : Database) (e : EventId) (x : ContactId) : List FireRow :=
  db.fires.filter fun r => r.pending && r.event == e && r.contact == x

/-- Fires have numbers of their own, a pair has one pending fire at most, and a fire has a time
at which it was handled just if it has a result. -/
structure Coherent (db : Database) : Prop where
  ids : (db.fires.map FireRow.id).Nodup
  one : ∀ e x, (db.pendingOf e x).length ≤ 1
  both : ∀ r ∈ db.fires, r.fired = none ↔ r.result = none

theorem le_foldl_id (rs : List FireRow) (m : Int) :
    m ≤ rs.foldl (fun m r => max m r.id) m ∧
      ∀ r ∈ rs, r.id ≤ rs.foldl (fun m r => max m r.id) m := by
  induction rs generalizing m with
  | nil => simp
  | cons r rs ih =>
    obtain ⟨h, h'⟩ := ih (max m r.id)
    simp only [List.foldl_cons]
    refine ⟨Int.le_trans (Int.le_max_left _ _) h, fun s hs => ?_⟩
    rcases List.mem_cons.1 hs with rfl | hs
    · exact Int.le_trans (Int.le_max_right _ _) h
    · exact h' s hs

theorem lt_nextFireId {db : Database} {r : FireRow} (h : r ∈ db.fires) : r.id < db.nextFireId :=
  Int.lt_add_one_of_le ((le_foldl_id db.fires 0).2 r h)

theorem pendingOf_eq_nil {db : Database} {e : EventId} {x : ContactId}
    (h : db.hasPending e x = false) : db.pendingOf e x = [] := by
  simp only [hasPending, List.any_eq_false] at h
  exact List.filter_eq_nil_iff.2 h

theorem markRow_of_settled {ids : List FireId} {text : String} {result : FireResult} {r : FireRow}
    (h : r.fired ≠ none) : markRow ids text result r = r := by
  unfold markRow FireRow.pending
  rw [if_neg]
  cases hf : r.fired with
  | none => exact absurd hf h
  | some _ => simp

/-- Marking a row leaves its number, its pair and its time. -/
theorem markRow_same (ids : List FireId) (text : String) (result : FireResult) (r : FireRow) :
    (markRow ids text result r).id = r.id ∧ (markRow ids text result r).event = r.event ∧
      (markRow ids text result r).contact = r.contact ∧
      (markRow ids text result r).scheduled = r.scheduled := by
  unfold markRow
  split <;> simp

theorem pending_of_markRow {ids : List FireId} {text : String} {result : FireResult} {r : FireRow}
    (h : (markRow ids text result r).fired = none) : markRow ids text result r = r := by
  unfold markRow at h ⊢
  split at h
  · cases h
  · rename_i hn
    rw [if_neg hn]

theorem Coherent.adds {fs : List NewFire} {db db' : Database} (hc : db.Coherent)
    (h : Adds fs db db') : db'.Coherent := by
  obtain ⟨f, -, hf⟩ := h
  refine ⟨?_, fun e x => ?_, ?_⟩
  · simp only [List.map_append, List.map_cons, List.map_nil, List.nodup_append, List.mem_map,
      List.mem_singleton]
    refine ⟨hc.ids, by simp, ?_⟩
    rintro _ ⟨r, hr, rfl⟩ _ rfl
    exact Int.ne_of_lt (lt_nextFireId hr)
  · have hle := hc.one e x
    simp only [pendingOf, List.filter_append, List.length_append] at hle ⊢
    by_cases hp : f.event = e ∧ f.contact = x
    · obtain ⟨rfl, rfl⟩ := hp
      have hnil := pendingOf_eq_nil hf
      rw [pendingOf] at hnil
      rw [hnil, List.length_nil, Nat.zero_add]
      exact List.length_filter_le _ _
    · have hnew : ([⟨db.nextFireId, f.event, f.contact, f.scheduled.toStored, none, none⟩] :
          List FireRow).filter (fun r => r.pending && r.event == e && r.contact == x) = [] := by
        simp only [List.filter_eq_nil_iff, List.mem_singleton, forall_eq, Bool.and_eq_true,
          beq_iff_eq]
        exact fun h => hp ⟨h.1.2, h.2⟩
      rw [hnew]
      simpa using hle
  · intro r hr
    rcases List.mem_append.1 hr with hr | hr
    · exact hc.both r hr
    · obtain rfl := List.mem_singleton.1 hr
      simp

/-- Fewer fires are in order too, whatever the other tables. -/
theorem Coherent.sublist {db db' : Database} (hc : db.Coherent)
    (h : db'.fires.Sublist db.fires) : db'.Coherent := by
  refine ⟨hc.ids.sublist (h.map _), fun e x => ?_, fun r hr => hc.both r (h.mem hr)⟩
  exact Nat.le_trans (h.filter _).length_le (hc.one e x)

theorem Coherent.drops {db db' : Database} (hc : db.Coherent) (h : db.Drops db') :
    db'.Coherent := by
  obtain ⟨p⟩ := h
  exact hc.sublist List.filter_sublist

theorem Coherent.settles {all : List FireId} {db db' : Database} (hc : db.Coherent)
    (h : Settles all db db') : db'.Coherent := by
  obtain ⟨ids, -, text, result⟩ := h
  refine ⟨?_, fun e x => ?_, ?_⟩
  · have hids : (db.fires.map (markRow ids text result)).map FireRow.id =
        db.fires.map FireRow.id := by
      rw [List.map_map]
      exact List.map_congr_left fun r _ => (markRow_same ids text result r).1
    rw [hids]
    exact hc.ids
  · refine Nat.le_trans ?_ (hc.one e x)
    simp only [pendingOf, List.filter_map, List.length_map, ← List.countP_eq_length_filter]
    apply List.countP_mono_left
    intro r _ h
    simp only [Function.comp, FireRow.pending, Bool.and_eq_true, Option.isNone_iff_eq_none] at h
    rw [pending_of_markRow h.1.1] at h
    simpa [FireRow.pending] using h
  · intro r hr
    obtain ⟨s, hs, rfl⟩ := List.mem_map.1 hr
    unfold markRow
    split
    · simp
    · exact hc.both s hs

/-- What each step of a kind keeps holds after any number of them. -/
theorem keeps_of_steps {R : Database → Database → Prop} {p : Database → Prop}
    (hR : ∀ a b, R a b → p a → p b) {db db' : Database} (h : ReflTransGen R db db')
    (hp : p db) : p db' := by
  induction h with
  | refl => exact hp
  | tail _ hstep ih => exact hR _ _ hstep ih

/-- The other tables do not matter. -/
theorem Coherent.congr {db db' : Database} (hc : db.Coherent) (h : db'.fires = db.fires) :
    db'.Coherent :=
  hc.sublist (h ▸ List.Sublist.refl _)

theorem coherent_of_empty {db : Database} (h : db.fires = []) : db.Coherent :=
  ⟨by simp [h], by simp [pendingOf, h], by simp [h]⟩

theorem coherent_of_nodup {db : Database} (hids : (db.fires.map FireRow.id).Nodup)
    (hpairs : ((db.fires.filter FireRow.pending).map fun r => (r.event, r.contact)).Nodup)
    (hboth : ∀ r ∈ db.fires, r.fired = none ↔ r.result = none) : db.Coherent := by
  refine ⟨hids, fun e x => ?_, hboth⟩
  have hcount := List.nodup_iff_count_le_one.1 hpairs (e, x)
  rw [List.count, List.countP_map, List.countP_filter, List.countP_eq_length_filter] at hcount
  refine Nat.le_trans (Nat.le_of_eq (congrArg List.length (List.filter_congr fun r _ => ?_))) hcount
  rw [Bool.eq_iff_iff]
  simp [and_comm, and_assoc, and_left_comm]

theorem Coherent.eq_of_id {db : Database} (hc : db.Coherent) {q r : FireRow} (hq : q ∈ db.fires)
    (hr : r ∈ db.fires) (hid : q.id = r.id) : q = r :=
  List.inj_on_of_nodup_map hc.ids hq hr hid

/-! ## What stays -/

/-- A settled fire stays as it is. -/
theorem mem_of_adds {fs : List NewFire} {db db' : Database} (h : Adds fs db db') {r : FireRow}
    (hr : r ∈ db.fires) : r ∈ db'.fires := by
  obtain ⟨f, -, -⟩ := h
  exact List.mem_append_left _ hr

theorem mem_of_drops {db db' : Database} (h : db.Drops db') {r : FireRow} (hr : r ∈ db.fires)
    (hs : r.fired ≠ none) : r ∈ db'.fires := by
  obtain ⟨p⟩ := h
  have hp : r.pending = false := Option.isNone_eq_false_iff.2 (Option.isSome_iff_ne_none.2 hs)
  exact List.mem_filter.2 ⟨hr, by simp [hp]⟩

theorem mem_of_settles {ids : List FireId} {db db' : Database} (h : Settles ids db db')
    {r : FireRow} (hr : r ∈ db.fires) (hs : r.fired ≠ none ∨ r.id ∉ ids) : r ∈ db'.fires := by
  obtain ⟨piece, hpiece, text, result⟩ := h
  refine List.mem_map.2 ⟨r, hr, ?_⟩
  rcases hs with hs | hs
  · exact markRow_of_settled hs
  · have hn : r.id ∉ piece := fun h => hs (hpiece h)
    simp [markRow, hn]

/-- Nothing but the fires differs. -/
def OnlyFires (db db' : Database) : Prop :=
  db' = { db with fires := db'.fires }

theorem OnlyFires.refl (db : Database) : db.OnlyFires db := rfl

theorem OnlyFires.symm {a b : Database} (h : a.OnlyFires b) : b.OnlyFires a := by
  unfold OnlyFires at *
  rw [h]

theorem OnlyFires.trans {a b c : Database} (h : a.OnlyFires b) (h' : b.OnlyFires c) :
    a.OnlyFires c := by
  unfold OnlyFires at *
  rw [h'] at *
  rw [h]

theorem onlyFires_of_steps {R : Database → Database → Prop} {db db' : Database}
    (hR : ∀ a b, R a b → a.OnlyFires b) (h : ReflTransGen R db db') : db.OnlyFires db' := by
  induction h with
  | refl => exact .refl db
  | tail _ hstep ih => exact ih.trans (hR _ _ hstep)

theorem Adds.onlyFires {fs : List NewFire} {db db' : Database} (h : Adds fs db db') :
    db.OnlyFires db' := by
  cases h; rfl

theorem Drops.onlyFires {db db' : Database} (h : db.Drops db') : db.OnlyFires db' := by
  cases h; rfl

theorem Settles.onlyFires {ids : List FireId} {db db' : Database} (h : Settles ids db db') :
    db.OnlyFires db' := by
  cases h; rfl

/-! ## What a number stands for -/

/-- Of a fire with number `i`, the event, the contact and the time satisfy `p`. -/
def Names (i : FireId) (p : EventId → ContactId → String → Prop) (db : Database) : Prop :=
  ∀ r ∈ db.fires, r.id = i → p r.event r.contact r.scheduled

theorem nextFireId_append (db : Database) (rs : List FireRow) :
    db.nextFireId ≤ { db with fires := db.fires ++ rs }.nextFireId := by
  simp only [nextFireId, List.foldl_append]
  exact Int.add_le_add_right (le_foldl_id rs _).1 1

/-- New numbers are past all others, so a number that is in the way stays what it is. -/
theorem Names.adds {i : FireId} {p : EventId → ContactId → String → Prop} {fs : List NewFire}
    {db db' : Database} (hn : Names i p db) (hi : i < db.nextFireId)
    (h : ReflTransGen (Adds fs) db db') :
    Names i p db' ∧ i < db'.nextFireId := by
  induction h with
  | refl => exact ⟨hn, hi⟩
  | tail _ hstep ih =>
    obtain ⟨hn, hi⟩ := ih
    obtain ⟨f, -, -⟩ := hstep
    refine ⟨fun r hr hri => ?_, Int.lt_of_lt_of_le hi (nextFireId_append _ _)⟩
    rcases List.mem_append.1 hr with hr | hr
    · exact hn r hr hri
    · obtain rfl := List.mem_singleton.1 hr
      exact absurd hri.symm (Int.ne_of_lt hi)

theorem Names.drops {i : FireId} {p : EventId → ContactId → String → Prop} {db db' : Database}
    (hn : Names i p db) (h : ReflTransGen Drops db db') : Names i p db' := by
  induction h with
  | refl => exact hn
  | tail _ hstep ih =>
    obtain ⟨q⟩ := hstep
    exact fun r hr => ih r (List.mem_filter.1 hr).1

theorem Names.settles {i : FireId} {p : EventId → ContactId → String → Prop} {ids : List FireId}
    {db db' : Database} (hn : Names i p db) (h : ReflTransGen (Settles ids) db db') :
    Names i p db' := by
  induction h with
  | refl => exact hn
  | tail _ hstep ih =>
    obtain ⟨piece, -, text, result⟩ := hstep
    intro r hr hri
    obtain ⟨s, hs, rfl⟩ := List.mem_map.1 hr
    obtain ⟨hid, he, hx, ht⟩ := markRow_same piece text result s
    rw [he, hx, ht]
    exact ih s hs (hid ▸ hri)

end Database

/-! ## Writes -/

namespace Connection

open Relation

theorem alter_eq (run : Database → Except StoreError Nat × Database) (c : Connection) :
    (c.alter run).2.saved = c.saved ∧ (c.alter run).2.db = (run c.db).2 := by
  unfold alter onTables
  split <;> (rename_i h; obtain ⟨-, rfl⟩ := Prod.mk.inj h; exact ⟨rfl, rfl⟩)

/-- Fires are added, or the addition is refused. -/
theorem addFires_db (fs : List NewFire) (c : Connection) :
    (c.addFires fs).2.saved = c.saved ∧
      ((c.addFires fs).2.db = c.db ∨ (c.addFires fs).2.db = (c.db.addFires fs).2) := by
  simp only [addFires, onTables]
  split
  · exact ⟨rfl, .inl rfl⟩
  · split <;> (rename_i h; obtain ⟨-, rfl⟩ := Prod.mk.inj h; exact ⟨rfl, .inr rfl⟩)

/-- Whatever comes of a write, it has taken steps of one kind, and not touched what open
transactions go back to. -/
theorem write_steps (w : Write) (c : Connection) :
    (c.write w).2.saved = c.saved ∧
      ((∃ fs, w = .add fs ∧ ReflTransGen (Database.Adds fs) c.db (c.write w).2.db) ∨
        ReflTransGen Database.Drops c.db (c.write w).2.db ∨
        ∃ ids t result, w = .mark ids t result ∧
          ReflTransGen (Database.Settles ids) c.db (c.write w).2.db) := by
  cases w with
  | add fs =>
    obtain ⟨hs, hdb⟩ := c.addFires_db fs
    refine ⟨hs, .inl ⟨fs, rfl, ?_⟩⟩
    rcases hdb with hdb | hdb
    · exact hdb ▸ .refl
    · exact hdb ▸ Database.addFires_adds fs c.db
  | delete pairs =>
    obtain ⟨hs, hdb⟩ := c.alter_eq (Database.deletePending pairs)
    exact ⟨hs, .inr (.inl (hdb ▸ Database.deletePending_drops pairs c.db))⟩
  | deleteOfContacts cs =>
    obtain ⟨hs, hdb⟩ := c.alter_eq (Database.deletePendingOfContacts cs)
    exact ⟨hs, .inr (.inl (hdb ▸ Database.deletePendingOfContacts_drops cs c.db))⟩
  | deleteOfEvent e =>
    obtain ⟨hs, hdb⟩ := c.alter_eq (Database.deletePendingOfEvent e)
    exact ⟨hs, .inr (.inl (hdb ▸ Database.deletePendingOfEvent_drops e c.db))⟩
  | mark ids t result =>
    obtain ⟨hs, hdb⟩ := c.alter_eq (Database.markFires ids t result)
    exact ⟨hs, .inr (.inr ⟨ids, t, result, rfl,
      hdb ▸ Database.markFires_settles ids t result c.db⟩)⟩

theorem write_onlyFires (w : Write) (c : Connection) : c.db.OnlyFires (c.write w).2.db := by
  obtain ⟨-, ⟨fs, -, h⟩ | h | ⟨ids, t, result, -, h⟩⟩ := c.write_steps w
  · exact Database.onlyFires_of_steps (fun _ _ hs => hs.onlyFires) h
  · exact Database.onlyFires_of_steps (fun _ _ hs => hs.onlyFires) h
  · exact Database.onlyFires_of_steps (fun _ _ hs => hs.onlyFires) h

/-- A write keeps the table in order. -/
theorem write_coherent (c : Connection) (w : Write) (hc : c.db.Coherent) :
    (c.write w).2.db.Coherent := by
  obtain ⟨-, ⟨fs, -, h⟩ | h | ⟨ids, t, result, -, h⟩⟩ := c.write_steps w
  · exact Database.keeps_of_steps (fun _ _ hs hc => hc.adds hs) h hc
  · exact Database.keeps_of_steps (fun _ _ hs hc => hc.drops hs) h hc
  · exact Database.keeps_of_steps (fun _ _ hs hc => hc.settles hs) h hc

end Connection
end Outreach
