import Outreach.Proofs.Fire.Integrity
import Outreach.Proofs.Fire.Store

/-!
# Outreach.Proofs.Fire.Reuse

What becomes of the number of a fire between reading the fire and marking it. A new fire gets the
number after the largest in the table, so the number of a fire that is gone can be given again.

* `Database.Returns` — the fires that the reads of the store answer.
* `Course.marks_what_was_read_or_reused` — marking hits the fire that was read, unless its number
  was free at some moment, or a transaction went back to another fire of that number; and where a
  number is free, it can come to stand for another fire.
* `reused_number_marks_another_fire` — it does when the newest fire is withdrawn.
-/

namespace Outreach

open Relation

/-! ## Reading -/

namespace Database

/-- The reads of the store of fires answer this one among others. -/
inductive Returns (db : Database) (f : Fire) : Prop where
  | due (now : Instant) (limit : Int) (fs : List Fire) (h : db.dueFires now limit = .ok fs)
      (hf : f ∈ fs)
  | withIds (ids : List FireId) (fs : List Fire) (h : db.firesWithIds ids = .ok fs) (hf : f ∈ fs)
  | ofEvent (e : EventId) (fs : List Fire) (h : db.pendingOfEvent e = .ok fs) (hf : f ∈ fs)

theorem exists_row_of_returns {db : Database} {f : Fire} (h : db.Returns f) :
    ∃ r ∈ db.fires, Fire.ofRow r = .ok f := by
  cases h with
  | due now limit fs h hf =>
    obtain ⟨r, hr, hrf, -⟩ := exists_row_of_dueFires h hf
    exact ⟨r, hr, hrf⟩
  | withIds ids fs h hf =>
    unfold firesWithIds at h
    split at h
    · split at h
      · cases h; cases hf
      · cases h
    · obtain ⟨r, hr, hrf⟩ := exists_row_of_readFires h hf
      unfold rowsWithIds at hr
      obtain ⟨piece, -, hr⟩ := List.mem_flatMap.1 (List.mem_mergeSort.1 hr)
      exact ⟨r, (List.mem_filter.1 hr).1, hrf⟩
  | ofEvent e fs h hf =>
    unfold pendingOfEvent at h
    split at h
    · cases h
    · obtain ⟨r, hr, hrf⟩ := exists_row_of_readFires h hf
      exact ⟨r, (List.mem_filter.1 (List.mem_mergeSort.1 hr)).1, hrf⟩

/-! ## Marking -/

theorem mem_markFires {ids : List FireId} {t : Instant} {result : FireResult} {db : Database}
    {r : FireRow} (hr : r ∈ db.fires) (hs : r.fired ≠ none ∨ r.id ∉ ids) :
    r ∈ (markFires ids t result db).2.fires := by
  have h := markFires_settles ids t result db
  generalize (markFires ids t result db).2 = db' at h ⊢
  induction h with
  | refl => exact hr
  | tail _ hstep ih => exact mem_of_settles hstep ih hs

/-- A pending fire of the number does not stay as it is. -/
theorem not_mem_markFires {i : FireId} {t : Instant} {result : FireResult} {db : Database}
    (ht : db.dropped = []) {r : FireRow} (hp : r.fired = none) (hi : r.id = i) :
    r ∉ (markFires [i] t result db).2.fires := by
  have hdb : (markFires [i] t result db).2 =
      { db with fires := db.fires.map (markRow [i] t.toStored result) } :=
    congrArg Prod.snd (markFires_eq [i] t result (lacking?_eq_none ht _))
  rw [hdb]
  intro hr
  obtain ⟨q, -, hq⟩ := List.mem_map.1 hr
  have hsame := pending_of_markRow (hq ▸ hp)
  obtain rfl : q = r := hsame.symm.trans hq
  have hmark : markRow [i] t.toStored result q =
      { q with fired := some t.toStored, result := some result.code } := by
    simp [markRow, FireRow.pending, hp, hi]
  rw [hmark] at hsame
  rw [← hsame] at hp
  cases hp

/-! ## Free numbers -/

/-- Fires of events that nothing is known of yet, one after the other. -/
def newEvents (e : EventId) (x : ContactId) (n : Nat) : List NewFire :=
  (List.range n).map fun (k : Nat) => ⟨e + (k : Int), x, ⟨0, 0⟩⟩

theorem newEvents_succ (e : EventId) (x : ContactId) (n : Nat) :
    newEvents e x (n + 1) = newEvents e x n ++ [⟨e + (n : Int), x, ⟨0, 0⟩⟩] := by
  simp [newEvents, List.range_succ]

/-- They take the numbers from the next one on. -/
theorem insertFires_newEvents {db : Database} {e : EventId} (x : ContactId)
    (he : ∀ r ∈ db.fires, r.event < e) (n : Nat) :
    (insertFires (newEvents e x n) db).2.nextFireId = db.nextFireId + n ∧
      (∀ r ∈ (insertFires (newEvents e x n) db).2.fires, r.event < e + n) ∧
      ∀ k < n, ∃ r ∈ (insertFires (newEvents e x n) db).2.fires,
        r.fired = none ∧ r.id = db.nextFireId + k ∧ e ≤ r.event := by
  induction n with
  | zero => simpa [newEvents, insertFires] using he
  | succ n ih =>
    obtain ⟨hnext, hevents, hrows⟩ := ih
    have hlt : e + (n : Int) < e + ((n + 1 : Nat) : Int) := by
      push_cast
      exact Int.add_lt_add_left (Int.lt_succ _) _
    have hfree : (insertFires (newEvents e x n) db).2.hasPending (e + n) x = false := by
      simp only [hasPending, List.any_eq_false]
      intro r hr
      have hne : r.event ≠ e + n := Int.ne_of_lt (hevents r hr)
      simp [hne]
    obtain ⟨hid, hfires⟩ := nextFireId_insertFire (f := ⟨e + (n : Int), x, ⟨0, 0⟩⟩) hfree
    rw [newEvents_succ, insertFires_append]
    simp only [insertFires]
    refine ⟨?_, fun r hr => ?_, fun k hk => ?_⟩
    · rw [hid, hnext]
      push_cast
      exact Int.add_assoc _ _ _
    · rw [hfires] at hr
      rcases List.mem_append.1 hr with hr | hr
      · exact Int.lt_trans (hevents r hr) hlt
      · obtain rfl := List.mem_singleton.1 hr
        exact hlt
    · rw [hfires]
      rcases Nat.lt_succ_iff_lt_or_eq.1 hk with hk | rfl
      · obtain ⟨r, hr, hrow⟩ := hrows k hk
        exact ⟨r, List.mem_append_left _ hr, hrow⟩
      · refine ⟨_, List.mem_append_right _ (List.mem_singleton.2 rfl), rfl, hnext, ?_⟩
        exact Int.le_add_of_nonneg_right (Int.natCast_nonneg _)

theorem exists_event_after (rs : List FireRow) (e : EventId) :
    ∃ e', e < e' ∧ ∀ r ∈ rs, r.event < e' := by
  induction rs with
  | nil => exact ⟨e + 1, Int.lt_succ e, by simp⟩
  | cons q rs ih =>
    obtain ⟨e', he, hrs⟩ := ih
    refine ⟨max e' (q.event + 1), Int.lt_of_lt_of_le he (Int.le_max_left _ _), fun r hr => ?_⟩
    rcases List.mem_cons.1 hr with rfl | hr
    · exact Int.lt_of_lt_of_le (Int.lt_succ _) (Int.le_max_right _ _)
    · exact Int.lt_of_lt_of_le (hrs r hr) (Int.le_max_left _ _)

/-- A number that is free can be given to a fire of another event. -/
theorem exists_fires_for_number {db : Database} {i : FireId} (hi : db.nextFireId ≤ i) (e : EventId)
    {x : ContactId} (ht : db.dropped = []) (hx : db.hasContact x = true) :
    ∃ fs, ∃ r ∈ (addFires fs db).2.fires, r.fired = none ∧ r.id = i ∧ r.event ≠ e ∧
      (addFires fs db).2.dropped = [] := by
  obtain ⟨e', he, hlt⟩ := exists_event_after db.fires e
  obtain ⟨n, hn⟩ := Int.eq_ofNat_of_zero_le (Int.sub_nonneg.2 hi)
  have hin : i = db.nextFireId + n := by
    rw [← hn, Int.add_comm]
    exact (Int.sub_add_cancel _ _).symm
  obtain ⟨-, -, hrows⟩ := insertFires_newEvents x hlt (n + 1)
  have honly := onlyFires_insertFires (newEvents e' x (n + 1)) db
  have hadd : (addFires (newEvents e' x (n + 1)) db).2 =
      (insertFires (newEvents e' x (n + 1)) db).2 := by
    have hcontact : ∀ f ∈ newEvents e' x (n + 1), db.hasContact f.contact = true := by
      intro f hf
      obtain ⟨k, -, rfl⟩ := List.mem_map.1 hf
      exact hx
    exact congrArg Prod.snd (addFires_eq (lacking?_eq_none ht _) hcontact)
  refine ⟨newEvents e' x (n + 1), ?_⟩
  obtain ⟨r, hr, hp, hid, hre⟩ := hrows n (Nat.lt_succ_self n)
  rw [hadd]
  refine ⟨r, hr, hp, hid.trans hin.symm, ?_, by rw [honly]; exact ht⟩
  exact (Int.ne_of_lt (Int.lt_of_lt_of_le he hre)).symm

end Database

/-! ## Between reading and marking -/

namespace Connection

/-- In all copies of the tables the number of the fire stands for it. -/
def Stands (f : Fire) (c : Connection) : Prop :=
  ∀ db ∈ c.copies, db.Names f.id fun e x text =>
    e = f.event ∧ x = f.contact ∧ Instant.ofStored text = .ok f.scheduled

theorem stands_run {f : Fire} (k : Call) (c : Connection) (hi : f.id < c.db.nextFireId)
    (hc : c.Stands f) : (k.run c).Stands f := by
  refine forall_copies_run k c (fun w _ hn => ?_) hc
  obtain ⟨-, ⟨fs, -, h⟩ | h | ⟨ids, t, result, -, h⟩⟩ := c.write_steps w
  · exact (hn.adds hi h).1
  · exact hn.drops h
  · exact hn.settles h

theorem stands_elsewhere {f : Fire} (c c' : Connection) (hfires : c'.db.fires = c.db.fires)
    (hsaved : c'.saved = c.saved) (hc : c.Stands f) : c'.Stands f :=
  forall_copies_elsewhere (fun _ _ h hn r hr => hn r (h ▸ hr)) hfires hsaved hc

/-- Some number of transactions undone leads back to any copy. -/
theorem exists_follow_db (c : Connection) {db : Database} (h : db ∈ c.saved) :
    ∃ ks, (Call.follow ks c).db = db := by
  obtain ⟨here, saved, n⟩ := c
  induction saved generalizing here with
  | nil => cases h
  | cons d saved ih =>
    rcases List.mem_cons.1 h with rfl | h
    · exact ⟨[.rollback], rfl⟩
    · obtain ⟨ks, hks⟩ := ih d h
      exact ⟨.rollback :: ks, hks⟩

theorem write_mark_db (ids : List FireId) (t : Instant) (result : FireResult) (c : Connection) :
    (c.write (.mark ids t result)).2.db = (Database.markFires ids t result c.db).2 := by
  simp only [write, alter, onTables]
  split <;> (rename_i h; obtain ⟨-, rfl⟩ := Prod.mk.inj h; rfl)

theorem write_add_db (fs : List NewFire) {c : Connection} (h : c.refusal ≠ 1) :
    (c.write (.add fs)).2.db = (Database.addFires fs c.db).2 := by
  simp only [write, addFires, onTables]
  split <;> (rename_i h; obtain ⟨-, rfl⟩ := Prod.mk.inj h; rfl)

/-- Marking the number changes the row. -/
def Marks (c : Connection) (i : FireId) (t : Instant) (result : FireResult) (r : FireRow) : Prop :=
  r ∈ c.db.fires ∧ r ∉ (c.write (.mark [i] t result)).2.db.fires

theorem of_marks {c : Connection} {i : FireId} {t : Instant} {result : FireResult} {r : FireRow}
    (h : c.Marks i t result r) : r ∈ c.db.fires ∧ r.fired = none ∧ r.id = i := by
  obtain ⟨hr, hn⟩ := h
  rw [write_mark_db] at hn
  refine ⟨hr, ?_, ?_⟩
  · apply Classical.byContradiction
    exact fun hf => hn (Database.mem_markFires hr (.inl hf))
  · apply Classical.byContradiction
    exact fun hi => hn (Database.mem_markFires hr (.inr (by simpa using hi)))

theorem marks_of_pending {c : Connection} {i : FireId} (t : Instant) (result : FireResult)
    {r : FireRow} (ht : c.db.dropped = []) (hr : r ∈ c.db.fires) (hp : r.fired = none)
    (hi : r.id = i) : c.Marks i t result r := by
  refine ⟨hr, ?_⟩
  rw [write_mark_db]
  exact Database.not_mem_markFires ht hp hi

end Connection

/-- Marking a fire that was read some time ago hits that fire, unless since then its number was
free at some moment, or it was read in a transaction that goes back to another fire of its number.
Both exceptions are real: where the number is free, fires can be added so that marking it hits
another fire, and so does undoing the transaction. -/
theorem Course.marks_what_was_read_or_reused {δ : Type} {src : Sources δ} (hk : src.KeepTables)
    {start now later : World δ} {before between : List Connection}
    (hfires : start.tables.db.fires = []) (hsaved : start.tables.saved = [])
    (hbefore : Course src start before now) (hbetween : Course src now between later)
    {f : Fire} (hf : now.tables.db.Returns f) (t : Instant) (result : FireResult) :
    (∀ r, later.tables.Marks f.id t result r →
      r.IsOf f ∨ (∃ c ∈ between, c.db.nextFireId ≤ f.id) ∨
        ∃ db ∈ now.tables.saved, ∃ q ∈ db.fires, q.id = f.id ∧ ¬ q.IsOf f) ∧
    (∀ c : Connection, c.db.nextFireId ≤ f.id → c.refusal ≠ 1 → c.db.dropped = [] →
      ∀ x, c.db.hasContact x = true →
        ∃ fs r, (c.write (.add fs)).2.Marks f.id t result r ∧ ¬ r.IsOf f) ∧
    ∀ db ∈ now.tables.saved, db.dropped = [] → ∀ q ∈ db.fires, q.id = f.id → ¬ q.IsOf f →
      ∃ ks, (Call.follow ks now.tables).Marks f.id t result q := by
  obtain ⟨-, hsound⟩ := hbefore.keeps hk Connection.sound_run Connection.sound_elsewhere
    (Connection.sound_of_empty hfires hsaved)
  obtain ⟨g, hg, hgf⟩ := Database.exists_row_of_returns hf
  obtain ⟨hid, hgof⟩ := Fire.of_ofRow hgf
  have hnow : now.tables.db.Coherent := hsound.coherent _ List.mem_cons_self
  refine ⟨fun r hr => ?_, fun c hfree hrefusal ht x hx => ?_, fun db hdb ht q hq hqid hqf => ?_⟩
  · by_cases hother : ∃ db ∈ now.tables.saved, ∃ q ∈ db.fires, q.id = f.id ∧ ¬ q.IsOf f
    · exact .inr (.inr hother)
    · by_cases hfree : ∃ c ∈ between, c.db.nextFireId ≤ f.id
      · exact .inr (.inl hfree)
      · left
        have hstands : now.tables.Stands f := by
          intro db hdb q hq hqid
          rcases List.mem_cons.1 hdb with rfl | hdb
          · exact hnow.eq_of_id hq hg (hqid.trans hid.symm) ▸ hgof
          · exact Classical.byContradiction fun hqf => hother ⟨db, hdb, q, hq, hqid, hqf⟩
        -- only an addition at a free number could end this
        obtain ⟨-, hlater, -⟩ := hbetween.keeps_while Connection.stands_run hk
          Connection.stands_elsewhere (hid ▸ Database.lt_nextFireId hg) hstands
          fun c hc => Int.not_le.1 fun hle => hfree ⟨c, hc, hle⟩
        obtain ⟨hrmem, -, hrid⟩ := Connection.of_marks hr
        exact hlater _ List.mem_cons_self r hrmem hrid
  · obtain ⟨fs, r, hr, hp, hri, hre, ht'⟩ :=
      Database.exists_fires_for_number hfree f.event ht hx
    have hdb := Connection.write_add_db fs hrefusal
    refine ⟨fs, r, Connection.marks_of_pending t result ?_ ?_ hp hri, fun h => hre h.1⟩
    · rw [hdb]; exact ht'
    · rw [hdb]; exact hr
  · have hp : q.fired = none := by
      apply Classical.byContradiction
      intro hs
      obtain ⟨hhere, -⟩ := List.pairwise_cons.1 hsound.settled
      have hqg : q = g := hnow.eq_of_id (hhere db hdb q hq hs) hg (hqid.trans hid.symm)
      exact hqf (hqg ▸ hgof)
    obtain ⟨ks, hks⟩ := now.tables.exists_follow_db hdb
    exact ⟨ks, Connection.marks_of_pending t result (hks ▸ ht) (hks ▸ hq) hp hqid⟩

/-- The first of two fires is read, one of a third event is added, and the first is marked. -/
theorem Course.marks_what_was_read_of_two :
    let tables : Connection :=
      { db := { contacts := [⟨1, 1, "a", "", none, true⟩, ⟨2, 1, "b", "", none, true⟩] } }
    let read := Call.run (.write (.add [⟨10, 1, ⟨60, 0⟩⟩, ⟨10, 2, ⟨900, 0⟩⟩])) tables
    let later := Call.run (.write (.add [⟨11, 1, ⟨60, 0⟩⟩])) read
    let f : Fire := ⟨1, 10, 1, ⟨60, 0⟩, none, none⟩
    let r : FireRow := ⟨1, 10, 1, "1970-01-01T00:01:00.000Z", none, none⟩
    later.Marks f.id ⟨120, 0⟩ .fired r ∧ r.IsOf f := by
  intro tables read later f r
  have hread : read.db.dueFires ⟨90, 0⟩ 1 = .ok [f] := by decide +kernel
  have hmarks : later.Marks f.id ⟨120, 0⟩ .fired r := ⟨by decide +kernel, by decide +kernel⟩
  have hkeep : (Sources.fixed fun _ => {}).KeepTables := fun _ _ _ => rfl
  have hfires : (World.ofTables tables).tables.db.fires = [] := rfl
  have h := marks_what_was_read_or_reused hkeep hfires rfl
    (.call .here (.write (.add [⟨10, 1, ⟨60, 0⟩⟩, ⟨10, 2, ⟨900, 0⟩⟩])))
    (.call .here (.write (.add [⟨11, 1, ⟨60, 0⟩⟩])))
    (.due ⟨90, 0⟩ 1 [f] hread (List.mem_singleton.2 rfl)) ⟨120, 0⟩ .fired
  rcases h.1 r hmarks with h | ⟨c, hc, hfree⟩ | ⟨db, hdb, -⟩
  · exact ⟨hmarks, h⟩
  · obtain rfl := List.mem_singleton.1 hc
    exact absurd hfree (by decide +kernel)
  · have hsaved : read.saved = [] := by decide +kernel
    have hdb' : db ∈ read.saved := hdb
    rw [hsaved] at hdb'
    cases hdb'

/-- The fire read is withdrawn, a fire for another contact gets its number, and is marked. -/
theorem reused_number_marks_another_fire :
    let tables : Connection :=
      { db := { contacts := [⟨1, 1, "a", "", none, true⟩, ⟨2, 1, "b", "", none, true⟩] } }
    let read := Call.follow [.write (.add [⟨10, 1, ⟨60, 0⟩⟩])] tables
    let later := Call.follow
      [.write (.delete [(10, 1)]), .write (.add [⟨10, 2, ⟨3600, 0⟩⟩])] read
    let f : Fire := ⟨1, 10, 1, ⟨60, 0⟩, none, none⟩
    let r : FireRow := ⟨1, 10, 2, "1970-01-01T01:00:00.000Z", none, none⟩
    read.db.dueFires ⟨90, 0⟩ (-1) = .ok [f] ∧ later.Marks f.id ⟨120, 0⟩ .fired r ∧
      ¬ r.IsOf f := by
  intro tables read later f r
  refine ⟨by decide +kernel, ⟨by decide +kernel, by decide +kernel⟩, fun h => ?_⟩
  exact absurd h.2.1 (by decide)

end Outreach
