import Outreach.Proofs.Fire.Rows

/-!
# Outreach.Proofs.Fire.Statements

Writes to the store of fires are cut into statements of limited size. If the tables are there, and
the contacts of new fires, that makes no difference: the rows and the count are those of a single
statement with the whole list, whatever the list repeats and wherever it is cut.

* `Database.Inserts` — the rows that an insertion adds.
* `Database.AsOne` — several statements do what one does.
* `Database.pieces_write_as_one` — so do the four writes that take lists.
-/

namespace Outreach
namespace Database

/-- The row is one of the pair. -/
def rowOfPair (e : EventId) (x : ContactId) (r : FireRow) : Bool := r.event == e && r.contact == x

/-- The rows that the insertion of some fires adds. Their numbers follow those that are there. For
a pair there is a row if it is listed and has no pending fire: one that is pending, at the time of
the first fire listed for the pair. -/
structure Inserts (fs : List NewFire) (db : Database) (rows : List FireRow) : Prop where
  numbers : rows.map FireRow.id =
    (List.range rows.length).map fun (k : Nat) => db.nextFireId + (k : Int)
  pairs : ∀ e x, (rows.filter (rowOfPair e x)).map FireRow.unnumbered =
    if db.hasPending e x then []
    else (fs.find? (ofPair e x)).toList.map fun f => ⟨0, e, x, f.scheduled.toStored, none, none⟩

theorem inserts_nil (db : Database) : Inserts [] db [] :=
  ⟨rfl, fun e x => by simp⟩

/-- A fire of a pair that has one already adds nothing. -/
theorem Inserts.skip {f : NewFire} {fs : List NewFire} {db : Database} {rows : List FireRow}
    (h : Inserts fs db rows) (hf : db.hasPending f.event f.contact = true) :
    Inserts (f :: fs) db rows := by
  refine ⟨h.numbers, fun e x => ?_⟩
  rw [h.pairs, List.find?_cons]
  by_cases hp : ofPair e x f = true
  · obtain ⟨rfl, rfl⟩ := ofPair_iff.1 hp
    rw [if_pos hf, if_pos hf]
  · rw [Bool.not_eq_true] at hp
    simp only [hp]

/-- Another one adds its row, and from then on its pair has a pending fire. -/
theorem Inserts.cons {f : NewFire} {fs : List NewFire} {db : Database} {rows : List FireRow}
    (h : Inserts fs (db.insertFire f).2 rows) (hf : db.hasPending f.event f.contact = false) :
    Inserts (f :: fs) db
      (⟨db.nextFireId, f.event, f.contact, f.scheduled.toStored, none, none⟩ :: rows) := by
  refine ⟨?_, fun e x => ?_⟩
  · rw [List.map_cons, h.numbers, (nextFireId_insertFire hf).1, List.length_cons,
      List.range_succ_eq_map, List.map_cons, List.map_map]
    congr 1
    · exact (Int.add_zero _).symm
    · refine List.map_congr_left fun k _ => ?_
      simp only [Function.comp]
      push_cast
      rw [Int.add_assoc, Int.add_comm 1]
  · have hrest := h.pairs e x
    rw [hasPending_insertFire] at hrest
    rw [List.filter_cons, List.find?_cons]
    by_cases hp : ofPair e x f = true
    · obtain ⟨rfl, rfl⟩ := ofPair_iff.1 hp
      rw [hp, Bool.or_true, if_pos rfl] at hrest
      simp [rowOfPair, hp, hf, hrest, FireRow.unnumbered]
    · have hrow : rowOfPair e x
          ⟨db.nextFireId, f.event, f.contact, f.scheduled.toStored, none, none⟩ = ofPair e x f :=
        rfl
      rw [Bool.not_eq_true] at hp
      rw [hp, Bool.or_false] at hrest
      simp only [hrow, hp, hrest, Bool.false_eq_true, if_false]

/-- By induction on the list: each fire is passed over or adds one row after those before it. -/
theorem exists_inserts (fs : List NewFire) (db : Database) : ∃ rows, Inserts fs db rows ∧
    insertFires fs db = (rows.length, { db with fires := db.fires ++ rows }) := by
  induction fs generalizing db with
  | nil => exact ⟨[], inserts_nil db, by simp [insertFires]⟩
  | cons f fs ih =>
    obtain ⟨rows, hrows, hinsert⟩ := ih (db.insertFire f).2
    cases hf : db.hasPending f.event f.contact with
    | true =>
      have hsame : db.insertFire f = (0, db) := if_pos hf
      rw [hsame] at hrows hinsert
      exact ⟨rows, hrows.skip hf, by simp only [insertFires, hsame, hinsert, Nat.zero_add]⟩
    | false =>
      refine ⟨_, hrows.cons hf, ?_⟩
      have hadd : db.insertFire f = (1, { db with fires := db.fires ++
          [⟨db.nextFireId, f.event, f.contact, f.scheduled.toStored, none, none⟩] }) := by
        simp [insertFire, hf]
      rw [hadd] at hinsert
      simp only [insertFires, hadd, hinsert, List.length_cons, List.append_assoc,
        List.singleton_append, Nat.add_comm 1]

/-- Several statements did what one does: they touched `n` rows and left the tables `db'`. -/
structure AsOne (several : Except StoreError Nat × Database)
    (one : Except StoreError (Nat × Database)) (n : Nat) (db' : Database) : Prop where
  several : several = (.ok n, db')
  one : one = .ok (n, db')

/-- Adding adds just the rows of one insertion. Deleting takes away just the pending fires of the
pairs, or of the contacts; marking settles just the pending fires with the numbers. They answer how
many these are. -/
theorem pieces_write_as_one {db : Database} (ht : db.lacking? fireTables = none) :
    (∀ fs, (∀ f ∈ fs, db.hasContact f.contact = true) → ∃ rows, Inserts fs db rows ∧
      AsOne (addFires fs db) (insertStatement fs db) rows.length
        { db with fires := db.fires ++ rows }) ∧
    (∀ s pairs, AsOne (deletePending pairs db)
      (deleteStatement s (fun r => pairs.contains (r.event, r.contact)) db)
      (db.pendingCount fun e x => pairs.contains (e, x))
      (db.withoutPending fun e x => pairs.contains (e, x))) ∧
    (∀ s cs, AsOne (deletePendingOfContacts cs db)
      (deleteStatement s (fun r => cs.contains r.contact) db)
      (db.pendingCount fun _ x => cs.contains x) (db.withoutPending fun _ x => cs.contains x)) ∧
    ∀ ids t result, AsOne (markFires ids t result db) (markStatement ids t.toStored result db)
      (db.fires.countP fun r => r.pending && ids.contains r.id)
      { db with fires := db.fires.map (markRow ids t.toStored result) } := by
  have hfires := lacking?_fires ht
  have hdelete (s : Statement) (p : FireRow → Bool) : deleteStatement s p db =
      .ok (db.fires.countP fun r => r.pending && p r,
        { db with fires := db.fires.filter fun r => !(r.pending && p r) }) := by
    rw [deleteStatement, ht, List.countP_eq_length_filter]
  refine ⟨fun fs hc => ?_, fun s pairs => ?_, fun s cs => ?_, fun ids t result => ?_⟩
  · obtain ⟨rows, hrows, hinsert⟩ := exists_inserts fs db
    refine ⟨rows, hrows, ?_, ?_⟩
    · rw [addFires_eq ht hc, hinsert]
    · exact insertStatement_ok_iff.2 ⟨ht, List.all_eq_true.2 hc, hinsert⟩
  · exact ⟨deletePending_eq pairs ht, hdelete s _⟩
  · exact ⟨deletePendingOfContacts_eq cs ht, hdelete s _⟩
  · refine ⟨markFires_eq ids t result hfires, ?_⟩
    rw [markStatement, hfires, List.countP_eq_length_filter]

end Database

section

namespace Sample

/-- Two contacts, of which the first has a pending fire. -/
def booked : Database :=
  { contacts := [⟨1, 1, "", "", none, true⟩, ⟨2, 1, "", "", none, true⟩]
    fires := [⟨1, 10, 1, "2024-01-01T09:00:00.000Z", none, none⟩] }

/-- More fires of the second contact than one statement takes, and then others for both. -/
def visits : List NewFire :=
  List.replicate 301 ⟨10, 2, ⟨0, 0⟩⟩ ++ [⟨10, 2, ⟨60, 0⟩⟩, ⟨10, 1, ⟨60, 0⟩⟩]

end Sample

open Sample

/-- Of 303 visits one is added, at the time that is listed first; a list that repeats a fire 901
times deletes it once, and settles it once. -/
theorem Database.pieces_write_as_one_of_repeated :
    booked.lacking? Database.fireTables = none ∧
      (∀ f ∈ visits, booked.hasContact f.contact = true) ∧
      (∃ rows, (Database.addFires visits booked).1 = .ok rows.length ∧
        (Database.addFires visits booked).2.fires = booked.fires ++ rows ∧
        rows.filter (Database.rowOfPair 10 1) = [] ∧
        (rows.filter (Database.rowOfPair 10 2)).map FireRow.unnumbered =
          [⟨0, 10, 2, "1970-01-01T00:00:00.000Z", none, none⟩]) ∧
      (Database.deletePending (List.replicate 901 (10, 1)) booked).1 = .ok 1 ∧
      (Database.deletePendingOfContacts (List.replicate 901 1) booked).1 = .ok 1 ∧
      (Database.markFires (List.replicate 901 1) ⟨60, 0⟩ .fired booked).1 = .ok 1 := by
  have ht : booked.lacking? Database.fireTables = none := by decide
  have hc : ∀ f ∈ visits, booked.hasContact f.contact = true := by
    refine List.forall_mem_append.2 ⟨fun f hf => ?_, by decide⟩
    rw [List.eq_of_mem_replicate hf]
    decide
  obtain ⟨hadd, hdelete, hcontacts, hmark⟩ := Database.pieces_write_as_one ht
  refine ⟨ht, hc, ?_, ?_, ?_, ?_⟩
  · obtain ⟨rows, hrows, hone⟩ := hadd visits hc
    refine ⟨rows, congrArg Prod.fst hone.several, ?_, ?_, (hrows.pairs 10 2).trans ?_⟩
    · rw [hone.several]
    · exact List.map_eq_nil_iff.1 ((hrows.pairs 10 1).trans (if_pos (by decide)))
    · rw [if_neg (by decide), visits, List.find?_append]
      decide +kernel
  · exact (congrArg Prod.fst (hdelete (.deletePending 10) _).several).trans (by decide +kernel)
  · exact (congrArg Prod.fst (hcontacts .deletePendingOfContacts _).several).trans
      (by decide +kernel)
  · exact (congrArg Prod.fst (hmark _ _ _).several).trans (by decide +kernel)

end

end Outreach
