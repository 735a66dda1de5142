import Outreach.Proofs.Fire.Course

/-!
# Outreach.Proofs.Fire.Integrity

The table of fires stays in order, whatever is written to it and whichever transactions are kept
or undone.

* `Connection.Sound` — the tables and all that open transactions go back to are in order, and what
  was settled when a transaction began has stayed.
* `Course.coherent_and_settled_stay` — from a table without fires on, the schema is kept, and a
  fire that is settled for good stays as it is.
-/

namespace Outreach

open Relation

namespace Database

/-- The fires that are settled in `outer` are there in `inner`. -/
def HoldsSettled (inner outer : Database) : Prop :=
  ∀ r ∈ outer.fires, r.fired ≠ none → r ∈ inner.fires

theorem holdsSettled_of_steps {R : Database → Database → Prop} {db db' : Database}
    (hR : ∀ a b, R a b → b.HoldsSettled a) (h : ReflTransGen R db db') : db'.HoldsSettled db := by
  induction h with
  | refl => exact fun r hr _ => hr
  | tail _ hstep ih => exact fun r hr hs => hR _ _ hstep r (ih r hr hs) hs

end Database

namespace Connection

/-- What is known of a connection: its tables and the copies of them that open transactions go
back to. -/
def copies (c : Connection) : List Database := c.db :: c.saved

/-- All copies are in order, and hold what is settled in those of the transactions around. -/
structure Sound (c : Connection) : Prop where
  coherent : ∀ db ∈ c.copies, db.Coherent
  settled : c.copies.Pairwise Database.HoldsSettled

theorem committed_mem (c : Connection) : c.committed ∈ c.copies := by
  unfold committed copies
  cases h : c.saved.getLast? with
  | none => exact List.mem_cons_self
  | some db => exact List.mem_cons_of_mem _ (List.mem_of_getLast? h)

theorem mem_copies {c : Connection} {db : Database} (h : db = c.db ∨ db = c.committed) :
    db ∈ c.copies := by
  rcases h with rfl | rfl
  · exact List.mem_cons_self
  · exact c.committed_mem

theorem copies_of_saved_eq_nil {c : Connection} (h : c.saved = []) : c.copies = [c.db] := by
  rw [copies, h]

/-- A write keeps all that is settled. -/
theorem write_holdsSettled (w : Write) (c : Connection) :
    (c.write w).2.db.HoldsSettled c.db := by
  obtain ⟨-, ⟨fs, -, h⟩ | h | ⟨ids, t, result, -, h⟩⟩ := c.write_steps w
  · exact Database.holdsSettled_of_steps (fun _ _ hs r hr _ => Database.mem_of_adds hs hr) h
  · exact Database.holdsSettled_of_steps (fun _ _ hs r hr => Database.mem_of_drops hs hr) h
  · exact Database.holdsSettled_of_steps
      (fun _ _ hs r hr hsr => Database.mem_of_settles hs hr (.inl hsr)) h

/-- A call leaves the copies, or makes one more, or drops some; only a write changes one. -/
theorem forall_copies_run {p : Database → Prop} (k : Call) (c : Connection)
    (hw : ∀ w, k = .write w → p c.db → p (c.write w).2.db) (hc : ∀ db ∈ c.copies, p db) :
    ∀ db ∈ (k.run c).copies, p db := by
  intro db hdb
  cases k with
  | write w =>
    rcases List.mem_cons.1 hdb with rfl | hdb
    · exact hw w rfl (hc _ List.mem_cons_self)
    · rw [show ((Call.write w).run c).saved = c.saved from (c.write_steps w).1] at hdb
      exact hc db (List.mem_cons_of_mem _ hdb)
  | start =>
    rcases List.mem_cons.1 hdb with rfl | hdb
    · exact hc _ List.mem_cons_self
    · exact hc db hdb
  | commit =>
    rcases List.mem_cons.1 hdb with rfl | hdb
    · exact hc _ List.mem_cons_self
    · exact hc db (List.mem_cons_of_mem _ (List.mem_of_mem_tail hdb))
  | rollback =>
    obtain ⟨here, saved, n⟩ := c
    cases saved with
    | nil => exact hc db hdb
    | cons d saved => exact hc db (List.mem_cons_of_mem _ hdb)

theorem forall_copies_of_saved {p : Database → Prop} {c c' : Connection}
    (hp : p c.db → p c'.db) (hsaved : c'.saved = c.saved) (hc : ∀ db ∈ c.copies, p db) :
    ∀ db ∈ c'.copies, p db := by
  intro db hdb
  rcases List.mem_cons.1 hdb with rfl | hdb
  · exact hp (hc _ List.mem_cons_self)
  · exact hc db (List.mem_cons_of_mem _ (hsaved ▸ hdb))

theorem forall_copies_elsewhere {p : Database → Prop} {c c' : Connection}
    (hp : ∀ db db' : Database, db'.fires = db.fires → p db → p db')
    (hfires : c'.db.fires = c.db.fires) (hsaved : c'.saved = c.saved)
    (hc : ∀ db ∈ c.copies, p db) : ∀ db ∈ c'.copies, p db :=
  forall_copies_of_saved (hp _ _ hfires) hsaved hc

theorem sound_run (k : Call) (c : Connection) (hc : c.Sound) : (k.run c).Sound := by
  refine ⟨forall_copies_run k c (fun w _ => c.write_coherent w) hc.coherent, ?_⟩
  obtain ⟨hhere, houter⟩ := List.pairwise_cons.1 hc.settled
  cases k with
  | write w =>
    have hcopies : ((Call.write w).run c).copies = (c.write w).2.db :: c.saved := by
      rw [← (c.write_steps w).1]
      rfl
    rw [hcopies]
    refine List.pairwise_cons.2 ⟨fun o ho r hr hs => ?_, houter⟩
    exact c.write_holdsSettled w r (hhere o ho r hr hs) hs
  | start =>
    refine List.pairwise_cons.2 ⟨fun o ho => ?_, hc.settled⟩
    rcases List.mem_cons.1 ho with rfl | ho
    · exact fun r hr _ => hr
    · exact hhere o ho
  | commit =>
    exact List.pairwise_cons.2
      ⟨fun o ho => hhere o (List.mem_of_mem_tail ho), houter.sublist (List.tail_sublist _)⟩
  | rollback =>
    obtain ⟨here, saved, n⟩ := c
    cases saved with
    | nil => exact hc.settled
    | cons d saved => exact houter

theorem sound_elsewhere (c c' : Connection) (hfires : c'.db.fires = c.db.fires)
    (hsaved : c'.saved = c.saved) (hc : c.Sound) : c'.Sound := by
  refine ⟨forall_copies_elsewhere (fun _ _ h hdb => hdb.congr h) hfires hsaved hc.coherent, ?_⟩
  obtain ⟨hhere, houter⟩ := List.pairwise_cons.1 hc.settled
  unfold copies
  rw [hsaved]
  refine List.pairwise_cons.2 ⟨fun o ho r hr hs => ?_, houter⟩
  rw [hfires]
  exact hhere o ho r hr hs

theorem sound_of_empty {c : Connection} (hfires : c.db.fires = []) (hsaved : c.saved = []) :
    c.Sound := by
  have hcopies := copies_of_saved_eq_nil hsaved
  refine ⟨fun db hdb => ?_, by rw [hcopies]; exact List.pairwise_singleton _ _⟩
  rw [hcopies] at hdb
  obtain rfl := List.mem_singleton.1 hdb
  exact Database.coherent_of_empty hfires

/-- The row is in all copies. -/
def HasRow (c : Connection) (r : FireRow) : Prop := ∀ db ∈ c.copies, r ∈ db.fires

/-- What others see is the outermost copy. -/
theorem committed_outermost {R : Database → Database → Prop} {c : Connection}
    (h : c.copies.Pairwise R) {db : Database} (hdb : db ∈ c.copies) :
    db = c.committed ∨ R db c.committed := by
  obtain ⟨here, saved, n⟩ := c
  induction saved generalizing here with
  | nil => exact .inl (List.mem_singleton.1 hdb)
  | cons d saved ih =>
    obtain ⟨hhere, houter⟩ := List.pairwise_cons.1 h
    have hlast : (Connection.mk here (d :: saved) n).committed =
        (Connection.mk d saved n).committed :=
      (committed_rollback (Connection.mk here (d :: saved) n)).symm
    rw [hlast]
    rcases List.mem_cons.1 hdb with rfl | hdb
    · exact .inr (hhere _ (committed_mem _))
    · exact ih d houter hdb

theorem hasRow_of_committed {c : Connection} (hc : c.Sound) {r : FireRow}
    (hr : r ∈ c.committed.fires) (hs : r.fired ≠ none) : c.HasRow r := by
  intro db hdb
  rcases committed_outermost hc.settled hdb with rfl | h
  · exact hr
  · exact h r hr hs

theorem hasRow_run {r : FireRow} (hs : r.fired ≠ none) (k : Call) (c : Connection)
    (hc : c.HasRow r) : (k.run c).HasRow r :=
  forall_copies_run k c (fun w _ hr => c.write_holdsSettled w r hr hs) hc

theorem hasRow_elsewhere {r : FireRow} (c c' : Connection) (hfires : c'.db.fires = c.db.fires)
    (hsaved : c'.saved = c.saved) (hc : c.HasRow r) : c'.HasRow r :=
  forall_copies_elsewhere (fun _ _ h hr => h ▸ hr) hfires hsaved hc

end Connection

/-- From a table without fires on, whatever is written by hand or by the scheduler, with success or
without, in transactions that are kept or undone: at each moment the tables and what others see of
them are as the schema asks, and a fire that others see settled stays in both, as it is and under
its number. -/
theorem Course.coherent_and_settled_stay {δ : Type} {src : Sources δ} (hk : src.KeepTables)
    {start now later : World δ} {before between : List Connection}
    (hfires : start.tables.db.fires = []) (hsaved : start.tables.saved = [])
    (hbefore : Course src start before now) (hbetween : Course src now between later) :
    (∀ c ∈ start.tables :: before ++ between, c.db.Coherent ∧ c.committed.Coherent) ∧
      ∀ r ∈ now.tables.committed.fires, r.fired ≠ none → ∀ c ∈ now.tables :: between,
        ∀ db, db = c.db ∨ db = c.committed →
          r ∈ db.fires ∧ ∀ q ∈ db.fires, q.id = r.id → q = r := by
  have hstart := Connection.sound_of_empty hfires hsaved
  obtain ⟨hsound, hnow⟩ :=
    hbefore.keeps hk Connection.sound_run Connection.sound_elsewhere hstart
  obtain ⟨hsound', -⟩ :=
    hbetween.keeps hk Connection.sound_run Connection.sound_elsewhere hnow
  have hcopy {c : Connection} {db : Database} (hdb : db = c.db ∨ db = c.committed) :
      db ∈ c.copies := by
    rcases hdb with rfl | rfl
    · exact List.mem_cons_self
    · exact c.committed_mem
  constructor
  · intro c hc
    have hcs : c.Sound := by
      rcases List.mem_append.1 hc with hc | hc
      · rcases List.mem_cons.1 hc with rfl | hc
        · exact hstart
        · exact hsound c hc
      · exact hsound' c hc
    exact ⟨hcs.coherent _ (hcopy (.inl rfl)), hcs.coherent _ (hcopy (.inr rfl))⟩
  · intro r hr hs c hc db hdb
    have hrow := Connection.hasRow_of_committed hnow hr hs
    obtain ⟨hrows, -⟩ :=
      hbetween.keeps hk (Connection.hasRow_run hs) Connection.hasRow_elsewhere hrow
    have hboth : c.Sound ∧ c.HasRow r := by
      rcases List.mem_cons.1 hc with rfl | hc
      · exact ⟨hnow, hrow⟩
      · exact ⟨hsound' c hc, hrows c hc⟩
    have hmem := hboth.2 db (hcopy hdb)
    exact ⟨hmem, fun q hq hid => (hboth.1.coherent db (hcopy hdb)).eq_of_id hq hmem hid⟩

/-- A fire is added and settled; then a transaction drops what it can and is kept. -/
theorem Course.settled_stays_of_one_contact :
    let tables : Connection := { db := { contacts := [⟨1, 1, "", "", none, true⟩] } }
    let settled := Call.follow
      [.write (.add [⟨10, 1, ⟨60, 0⟩⟩]), .write (.mark [1] ⟨90, 0⟩ .fired)] tables
    let r : FireRow :=
      ⟨1, 10, 1, "1970-01-01T00:01:00.000Z", some "1970-01-01T00:01:30.000Z", some "F"⟩
    r ∈ settled.committed.fires ∧
      r ∈ (Call.follow [.start, .write (.deleteOfContacts [1]), .commit] settled).db.fires := by
  intro tables settled r
  have hr : r ∈ settled.committed.fires := by decide +kernel
  have hkeep : (Sources.fixed fun _ => {}).KeepTables := fun _ _ _ => rfl
  have hfires : (World.ofTables tables).tables.db.fires = [] := rfl
  have hcourse := coherent_and_settled_stay hkeep hfires rfl
    (.call (.call .here (.write (.add [⟨10, 1, ⟨60, 0⟩⟩]))) (.write (.mark [1] ⟨90, 0⟩ .fired)))
    (.call (.call (.call .here .start) (.write (.deleteOfContacts [1]))) .commit)
  have hlast := hcourse.2 r hr (by simp [r]) _
    (List.mem_cons_of_mem _ (List.mem_append_right _ (List.mem_singleton.2 rfl))) _ (.inl rfl)
  exact ⟨hr, hlast.1⟩

end Outreach
