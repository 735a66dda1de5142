import Mathlib.Algebra.GroupWithZero.Nat
import Outreach.Proofs.Fire.Statements
import Outreach.Proofs.Time.Stored

/-!
# Outreach.Proofs.Fire.Marks

Histories of calls to the store that add, mark and read fires, in any order.

* `StoreCall`, `StoreCall.serve` — a call, and what is answered.
* `StoreCall.firstMark?`, `FireRow.settledBy` — the first call that marks a number, and what becomes
  of a row.
* `StoreCall.exists_added`, `StoreCall.exists_counts` — the rows after a history, and what was
  counted.
* `Database.TakesOne` — a pair can get one new pending fire.
* `StoreCall.first_mark_wins` — all of this of any history.
-/

namespace Outreach

/-! ## Rows -/

namespace FireRow

/-- The row, settled at the time and with the result if it is pending. -/
def settledBy (r : FireRow) : Option (Instant × FireResult) → FireRow
  | some (t, result) =>
    if r.pending then { r with fired := some t.toStored, result := some result.code } else r
  | none => r

variable {r : FireRow} {m m' : Option (Instant × FireResult)}

theorem settledBy_of_settled (h : r.pending = false) : r.settledBy m = r := by
  cases m with
  | none => rfl
  | some _ => simp only [settledBy, h]; rfl

theorem id_settledBy : (r.settledBy m).id = r.id := by
  unfold settledBy
  split
  · split <;> rfl
  · rfl

theorem pending_settledBy : (r.settledBy m).pending = (r.pending && m.isNone) := by
  cases hp : r.pending with
  | false => rw [settledBy_of_settled hp, hp, Bool.false_and]
  | true =>
    cases m with
    | none => exact hp
    | some _ => simp only [settledBy, hp]; rfl

/-- A row that is settled once stays as it is. -/
theorem settledBy_settledBy : (r.settledBy m).settledBy m' = r.settledBy (m.or m') := by
  cases m with
  | none => rfl
  | some _ =>
    refine settledBy_of_settled ?_
    rw [pending_settledBy, Option.isNone_some, Bool.and_false]

/-- The row is read with its time to the millisecond, if its own time and the year can be. -/
theorem ofRow_settledBy {s t : Instant} {result : FireResult} (hp : r.pending = true)
    (hs : Instant.ofStored r.scheduled = .ok s) (ht : t.WellFormed) (hy : t.FourDigitYear) :
    Fire.ofRow (r.settledBy (some (t, result))) =
      .ok ⟨r.id, r.event, r.contact, s, some t.wholeMillis, some result⟩ := by
  have htime : Instant.ofStored t.toStored = .ok t.wholeMillis := by
    rw [Instant.ofStored, Timestamp.parse_toStored ht hy]
  simp only [settledBy, hp, if_true, Fire.ofRow, Fire.resultOf, FireResult.ofCode?_code, hs,
    Instant.ofStored?, htime]

end FireRow

/-! ## Calls -/

/-- A call to the store that adds, marks or reads fires. -/
inductive StoreCall where
  | add (fires : List NewFire)
  | mark (ids : List FireId) (t : Instant) (result : FireResult)
  | due (now : Instant) (limit : Int)
  | withIds (ids : List FireId)
  | pendingOfEvent (event : EventId)

inductive StoreAnswer where
  | touched (rows : Except StoreError Nat)
  | found (fires : Except StoreError (List Fire))

namespace StoreCall

def serve : StoreCall → Database → StoreAnswer × Database
  | add fs, db => (.touched (db.addFires fs).1, (db.addFires fs).2)
  | mark ids t result, db =>
    (.touched (db.markFires ids t result).1, (db.markFires ids t result).2)
  | due now limit, db => (.found (db.dueFires now limit), db)
  | withIds ids, db => (.found (db.firesWithIds ids), db)
  | pendingOfEvent e, db => (.found (db.pendingOfEvent e), db)

/-- The calls of a history with their answers, and the tables after them. -/
def serveAll : List StoreCall → Database → List (StoreCall × StoreAnswer) × Database
  | [], db => ([], db)
  | k :: ks, db =>
    ((k, (k.serve db).1) :: (serveAll ks (k.serve db).2).1, (serveAll ks (k.serve db).2).2)

/-- What the calls that mark fires were answered. -/
def marked (log : List (StoreCall × StoreAnswer)) : List (Except StoreError Nat) :=
  log.filterMap fun
    | (mark _ _ _, .touched n) => some n
    | _ => none

/-- The time and the result that the call gives to a number. -/
def gives? (i : FireId) : StoreCall → Option (Instant × FireResult)
  | mark ids t result => if ids.contains i then some (t, result) else none
  | _ => none

/-- The time and the result of the first call that marks a number. -/
def firstMark? (i : FireId) (ks : List StoreCall) : Option (Instant × FireResult) :=
  ks.findSome? (gives? i)

theorem firstMark?_cons (i : FireId) (k : StoreCall) (ks : List StoreCall) :
    firstMark? i (k :: ks) = (k.gives? i).or (firstMark? i ks) := by
  rw [firstMark?, List.findSome?_cons]
  cases k.gives? i <;> rfl

end StoreCall

/-! ## One call -/

namespace Database

open Relation

variable {db db' : Database}

/-- Every fire has its contact. -/
def Referenced (db : Database) : Prop := ∀ r ∈ db.fires, db.hasContact r.contact = true

instance (db : Database) : Decidable db.Referenced := by
  unfold Referenced; infer_instance

theorem Referenced.settles {ids : List FireId} (h : db.Referenced) (hs : Settles ids db db') :
    db'.Referenced := by
  obtain ⟨piece, -, text, result⟩ := hs
  refine List.forall_mem_map.2 fun r hr => ?_
  obtain ⟨-, -, hx, -⟩ := markRow_same piece text result r
  exact hx ▸ h r hr

/-- How many fires are settled. -/
def settledCount (db : Database) : Nat := db.fires.countP fun r => !r.pending

theorem exists_rows_of_adds {fs : List NewFire} (h : ReflTransGen (Adds fs) db db') :
    ∃ rows, db' = { db with fires := db.fires ++ rows } ∧ ∀ r ∈ rows, r.pending = true := by
  induction h with
  | refl => exact ⟨[], by rw [List.append_nil], by simp⟩
  | tail _ hstep ih =>
    obtain ⟨rows, rfl, hrows⟩ := ih
    obtain ⟨f, -, -⟩ := hstep
    refine ⟨rows ++ [_], by rw [List.append_assoc], List.forall_mem_append.2 ⟨hrows, ?_⟩⟩
    exact List.forall_mem_singleton.2 rfl

theorem Inserts.exists_fire {fs : List NewFire} {rows : List FireRow} (h : Inserts fs db rows)
    {r : FireRow} (hr : r ∈ rows) : ∃ f ∈ fs, f.event = r.event ∧ f.contact = r.contact := by
  have hmem : r ∈ rows.filter (rowOfPair r.event r.contact) :=
    List.mem_filter.2 ⟨hr, by simp [rowOfPair]⟩
  have hpairs := h.pairs r.event r.contact
  cases hf : fs.find? (ofPair r.event r.contact) with
  | none =>
    rw [hf, Option.toList_none, List.map_nil, ite_self, List.map_eq_nil_iff] at hpairs
    rw [hpairs] at hmem
    cases hmem
  | some f => exact ⟨f, List.mem_of_find?_eq_some hf, ofPair_iff.1 (List.find?_some hf)⟩

/-- An addition that stops half way has added fires of known contacts only. -/
theorem Referenced.addFires (h : db.Referenced) (fs : List NewFire) :
    (db.addFires fs).2.Referenced := by
  refine keeps_of_steps (R := fun a b => a.Referenced → b.Referenced) (fun _ _ h => h)
    (inTurn_steps (fun piece _ a n b hrun => .single fun ha => ?_) db) h
  obtain ⟨-, hall, hinsert⟩ := insertStatement_ok_iff.1 hrun
  obtain ⟨rows, hrows, heq⟩ := exists_inserts piece a
  rw [heq] at hinsert
  cases hinsert
  refine List.forall_mem_append.2 ⟨ha, fun r hr => ?_⟩
  obtain ⟨f, hf, -, hx⟩ := hrows.exists_fire hr
  exact hx ▸ List.all_eq_true.1 hall f hf

theorem settledCount_of_rows {rows : List FireRow} (h : ∀ r ∈ rows, r.pending = true) :
    settledCount { db with fires := db.fires ++ rows } = db.settledCount := by
  have hnone : rows.countP (fun r => !r.pending) = 0 :=
    List.countP_eq_zero.2 fun r hr => by simp [h r hr]
  simp only [settledCount, List.countP_append, hnone, Nat.add_zero]

/-- Just the pending fires that are marked become settled. -/
theorem settledCount_markRow (ids : List FireId) (text : String) (result : FireResult) :
    settledCount { db with fires := db.fires.map (markRow ids text result) } =
      db.settledCount + db.fires.countP fun r => r.pending && ids.contains r.id := by
  simp only [settledCount, List.countP_map]
  induction db.fires with
  | nil => rfl
  | cons r rs ih =>
    simp only [List.countP_cons, ih, Function.comp, pending_markRow]
    cases r.pending <;> cases ids.contains r.id <;> simp <;> omega

end Database

namespace StoreCall

open Database

variable {db : Database}

theorem markRow_eq_settledBy (ids : List FireId) (t : Instant) (result : FireResult)
    (r : FireRow) :
    markRow ids t.toStored result r = r.settledBy ((mark ids t result).gives? r.id) := by
  cases hp : r.pending <;> cases hi : ids.contains r.id <;>
    simp only [markRow, gives?, FireRow.settledBy, hp, hi] <;> rfl

/-- What one call does to the rows. Those that are there stay in their order, settled if they are
marked; others come after them and are pending. -/
theorem exists_added_serve (k : StoreCall) (ht : db.lacking? [.fires] = none) : ∃ added,
    (k.serve db).2 =
      { db with fires := db.fires.map (fun r => r.settledBy (k.gives? r.id)) ++ added } := by
  have hnothing : db.fires.map (fun r => r.settledBy none) = db.fires := List.map_id'' (fun _ => rfl) _
  cases k with
  | add fs =>
    obtain ⟨rows, hrows, -⟩ := exists_rows_of_adds (addFires_adds fs db)
    refine ⟨rows, ?_⟩
    simp only [serve, gives?, hnothing, hrows]
  | mark ids t result =>
    refine ⟨[], ?_⟩
    have hrows : db.fires.map (markRow ids t.toStored result) =
        db.fires.map fun r => r.settledBy ((mark ids t result).gives? r.id) :=
      List.map_congr_left fun r _ => markRow_eq_settledBy ids t result r
    simp only [serve, markFires_eq ids t result ht, List.append_nil, hrows]
  | _ => exact ⟨[], by simp only [serve, gives?, hnothing, List.append_nil]⟩

/-- What one call answers, if it marks fires, is how many more are settled. -/
theorem exists_counts_serve (k : StoreCall) (ht : db.lacking? [.fires] = none) :
    ∃ counts : List Nat, marked [(k, (k.serve db).1)] = counts.map .ok ∧
      (k.serve db).2.settledCount = db.settledCount + counts.sum := by
  cases k with
  | add fs =>
    obtain ⟨rows, hrows, hpending⟩ := exists_rows_of_adds (addFires_adds fs db)
    refine ⟨[], rfl, ?_⟩
    simp only [serve, hrows, settledCount_of_rows hpending, List.sum_nil, Nat.add_zero]
  | mark ids t result =>
    refine ⟨[db.fires.countP fun r => r.pending && ids.contains r.id], ?_, ?_⟩
    · simp only [marked, serve, markFires_eq ids t result ht]
      rfl
    · simp only [serve, markFires_eq ids t result ht, settledCount_markRow, List.sum_singleton]
  | _ => exact ⟨[], rfl, rfl⟩

theorem coherent_serve (k : StoreCall) (hc : db.Coherent) : (k.serve db).2.Coherent := by
  cases k with
  | add fs => exact keeps_of_steps (fun _ _ h hc => hc.adds h) (addFires_adds fs db) hc
  | mark ids t result =>
    exact keeps_of_steps (fun _ _ h hc => hc.settles h) (markFires_settles ids t result db) hc
  | _ => exact hc

theorem referenced_serve (k : StoreCall) (h : db.Referenced) : (k.serve db).2.Referenced := by
  cases k with
  | add fs => exact h.addFires fs
  | mark ids t result =>
    exact keeps_of_steps (fun _ _ hs h => h.settles hs) (markFires_settles ids t result db) h
  | _ => exact h

/-! ## Histories -/

theorem serveAll_keeps {P : Database → Prop} (hP : ∀ (k : StoreCall) db, P db → P (k.serve db).2)
    (ks : List StoreCall) (h : P db) : P (serveAll ks db).2 := by
  induction ks generalizing db with
  | nil => exact h
  | cons k ks ih => exact ih (hP k db h)

/-- What a history does to the rows: each is settled by the first call that marks it. -/
theorem exists_added (ks : List StoreCall) (ht : db.lacking? [.fires] = none) : ∃ added,
    (serveAll ks db).2 =
      { db with fires := db.fires.map (fun r => r.settledBy (firstMark? r.id ks)) ++ added } := by
  induction ks generalizing db with
  | nil => exact ⟨[], by simp [serveAll, firstMark?, FireRow.settledBy]⟩
  | cons k ks ih =>
    obtain ⟨added, hadded⟩ := exists_added_serve k ht
    obtain ⟨more, hmore⟩ := @ih (k.serve db).2 (hadded ▸ ht)
    refine ⟨added.map (fun r => r.settledBy (firstMark? r.id ks)) ++ more, ?_⟩
    rw [serveAll, hmore, hadded]
    simp only [List.map_append, List.map_map, List.append_assoc, Function.comp_def,
      FireRow.id_settledBy, FireRow.settledBy_settledBy, firstMark?_cons]

theorem marked_cons (x : StoreCall × StoreAnswer) (log : List (StoreCall × StoreAnswer)) :
    marked (x :: log) = marked [x] ++ marked log :=
  List.filterMap_append (l := [x])

theorem exists_counts (ks : List StoreCall) (ht : db.lacking? [.fires] = none) :
    ∃ counts : List Nat, marked (serveAll ks db).1 = counts.map .ok ∧
      (serveAll ks db).2.settledCount = db.settledCount + counts.sum := by
  induction ks generalizing db with
  | nil => exact ⟨[], rfl, rfl⟩
  | cons k ks ih =>
    obtain ⟨first, hfirst, hcount⟩ := exists_counts_serve k ht
    obtain ⟨added, hadded⟩ := exists_added_serve k ht
    obtain ⟨rest, hrest, hcount'⟩ := @ih (k.serve db).2 (hadded ▸ ht)
    refine ⟨first ++ rest, ?_, ?_⟩
    · rw [serveAll, marked_cons, hfirst, hrest, List.map_append]
    · rw [serveAll, hcount', hcount, List.sum_append, Nat.add_assoc]

end StoreCall

namespace Database

variable {db db' : Database}

/-- The rows that are settled, and were not among the rows of `db` as they are. -/
def newlySettled (db db' : Database) : List FireRow :=
  db'.fires.filter fun r => !r.pending && !db.fires.contains r

theorem Coherent.nodup_fires (hc : db.Coherent) : db.fires.Nodup := hc.ids.of_map

/-- Rows settled before are settled still, so those that are new make the difference. -/
theorem settledCount_eq (hc : db.Coherent) (hc' : db'.Coherent)
    (hstay : ∀ r ∈ db.fires, r.pending = false → r ∈ db'.fires) :
    db'.settledCount = db.settledCount + (db.newlySettled db').length := by
  have hold : ((db'.fires.filter fun r => db.fires.contains r).filter fun r => !r.pending).Perm
      (db.fires.filter fun r => !r.pending) := by
    refine (List.perm_ext_iff_of_nodup ((hc'.nodup_fires.filter _).filter _)
      (hc.nodup_fires.filter _)).2 fun r => ?_
    simp only [List.mem_filter, List.contains_iff_mem, Bool.not_eq_true']
    exact ⟨fun h => ⟨h.1.2, h.2⟩, fun h => ⟨⟨hstay r h.1 h.2, h.1⟩, h.2⟩⟩
  rw [settledCount, settledCount, newlySettled,
    List.countP_eq_countP_filter_add db'.fires _ fun r => db.fires.contains r,
    List.countP_eq_length_filter, hold.length_eq, List.countP_eq_length_filter,
    List.countP_eq_length_filter, List.filter_filter]

/-- A pair can get one new pending fire, and no more: an addition that lists the pair adds it, at
the time that is listed first, and after that additions add none. -/
structure TakesOne (db : Database) (e : EventId) (x : ContactId) : Prop where
  contact : db.hasContact x = true
  free : db.hasPending e x = false
  one : ∀ fs f, (∀ g ∈ fs, db.hasContact g.contact = true) → fs.find? (ofPair e x) = some f →
    ∃ rows, db.addFires fs = (.ok rows.length, { db with fires := db.fires ++ rows }) ∧
      (rows.filter (rowOfPair e x)).map FireRow.unnumbered =
        [⟨0, e, x, f.scheduled.toStored, none, none⟩] ∧
      ∀ gs, (∀ g ∈ gs, db.hasContact g.contact = true) →
        ∃ more, addFires gs { db with fires := db.fires ++ rows } =
          (.ok more.length, { db with fires := db.fires ++ rows ++ more }) ∧
        more.filter (rowOfPair e x) = []

theorem takesOne_of_not_pending {e : EventId} {x : ContactId}
    (ht : db.lacking? fireTables = none) (hx : db.hasContact x = true)
    (hp : db.hasPending e x = false) : db.TakesOne e x := by
  refine ⟨hx, hp, fun fs f hfs hf => ?_⟩
  obtain ⟨rows, hrows, hinsert⟩ := exists_inserts fs db
  have hpair := hrows.pairs e x
  rw [hp, if_neg Bool.false_ne_true, hf] at hpair
  refine ⟨rows, by rw [addFires_eq ht hfs, hinsert], hpair, fun gs hgs => ?_⟩
  have hpending : hasPending { db with fires := db.fires ++ rows } e x = true := by
    have hadded := (pendingAt_insertFires fs db e x _).2 (.inr ⟨hp, f, hf, rfl⟩)
    rw [hinsert] at hadded
    exact (hasPending_iff _ e x).2 ⟨_, hadded⟩
  obtain ⟨more, hmore, hinsert'⟩ := exists_inserts gs { db with fires := db.fires ++ rows }
  refine ⟨more, by rw [addFires_eq (by exact ht) (by exact hgs), hinsert'], ?_⟩
  have hpair' := hmore.pairs e x
  rwa [hpending, if_pos rfl, List.map_eq_nil_iff] at hpair'

theorem hasPending_markRow (hc : db.Coherent) {r : FireRow} (hr : r ∈ db.fires)
    (hp : r.pending = true) {ids : List FireId} (hid : r.id ∈ ids) (text : String)
    (result : FireResult) :
    hasPending { db with fires := db.fires.map (markRow ids text result) } r.event r.contact =
      false := by
  refine List.any_eq_false.2 (List.forall_mem_map.2 fun s hs => ?_)
  obtain ⟨-, he, hx, -⟩ := markRow_same ids text result s
  rw [pending_markRow, he, hx]
  simp only [Bool.and_eq_true, beq_iff_eq, Bool.not_eq_true', not_and]
  rintro ⟨⟨hsp, hnot⟩, hse⟩ hsx
  have hsame : s = r := hc.eq_of_pair hs hr (Option.isNone_iff_eq_none.1 hsp)
    (Option.isNone_iff_eq_none.1 hp) hse hsx
  rw [hsame, List.contains_iff_mem.2 hid] at hnot
  cases hnot

end Database

open Database

/-- For any history of calls that add, mark and read fires. The rows that were there stay in their
order, and a pending one ends with the time and the result of the first call that marks its number,
or stays pending; it is read with that time to the millisecond. The counts of the calls that mark
fires add up to the number of rows that have become settled. A pair has one pending fire at most,
and once it is marked the pair can get one new one. -/
theorem StoreCall.first_mark_wins {db : Database} (hc : db.Coherent)
    (ht : db.lacking? fireTables = none) (href : db.Referenced) (ks : List StoreCall) :
    (∃ added, (serveAll ks db).2.fires =
      db.fires.map (fun r => r.settledBy (firstMark? r.id ks)) ++ added) ∧
    (∀ r ∈ db.fires, r.pending = true → ∀ s, Instant.ofStored r.scheduled = .ok s →
      ∀ t result, firstMark? r.id ks = some (t, result) → t.WellFormed → t.FourDigitYear →
        Fire.ofRow (r.settledBy (firstMark? r.id ks)) =
          .ok ⟨r.id, r.event, r.contact, s, some t.wholeMillis, some result⟩) ∧
    (∃ counts : List Nat, marked (serveAll ks db).1 = counts.map .ok ∧
      counts.sum = (db.newlySettled (serveAll ks db).2).length ∧
      ((db.newlySettled (serveAll ks db).2).map FireRow.id).Nodup) ∧
    (∀ e x, ((serveAll ks db).2.pendingOf e x).length ≤ 1) ∧
    ∀ r ∈ (serveAll ks db).2.fires, r.pending = true → ∀ ids t result, r.id ∈ ids →
      ((mark ids t result).serve (serveAll ks db).2).2.TakesOne r.event r.contact := by
  have hfires := lacking?_fires ht
  obtain ⟨added, hadded⟩ := exists_added ks hfires
  have hc' : (serveAll ks db).2.Coherent := serveAll_keeps (fun k _ => coherent_serve k) ks hc
  refine ⟨⟨added, congrArg Database.fires hadded⟩, ?_, ?_, hc'.one, ?_⟩
  · intro r hr hp s hs t result hmark htw hy
    rw [hmark]
    exact FireRow.ofRow_settledBy hp hs htw hy
  · obtain ⟨counts, hmarked, hcount⟩ := exists_counts ks hfires
    have hstay : ∀ r ∈ db.fires, r.pending = false → r ∈ (serveAll ks db).2.fires := by
      intro r hr hp
      rw [hadded]
      refine List.mem_append_left _ (List.mem_map.2 ⟨r, hr, ?_⟩)
      exact FireRow.settledBy_of_settled hp
    rw [settledCount_eq hc hc' hstay, Nat.add_left_cancel_iff] at hcount
    exact ⟨counts, hmarked, hcount.symm, hc'.ids.sublist (List.filter_sublist.map _)⟩
  · intro r hr hp ids t result hid
    have href' : (serveAll ks db).2.Referenced :=
      serveAll_keeps (fun k _ => referenced_serve k) ks href
    have ht' : (serveAll ks db).2.lacking? fireTables = none := hadded ▸ ht
    simp only [serve, markFires_eq ids t result (lacking?_fires ht')]
    exact takesOne_of_not_pending ht' (href' r hr)
      (hasPending_markRow hc' hr hp hid t.toStored result)

section

namespace Sample

/-- The fire of the first contact is marked twice over, and another one is added in between. -/
def handling : List StoreCall :=
  [.mark [1, 1] ⟨60, 0⟩ .fired, .due ⟨60, 0⟩ 10, .add [⟨10, 1, ⟨120, 0⟩⟩, ⟨10, 1, ⟨180, 0⟩⟩],
    .mark [2, 1] ⟨240, 0⟩ .skipped]

end Sample

open Sample

/-- The first fire keeps what the first call gave it; two rows are counted, though four numbers were
listed. -/
theorem StoreCall.first_mark_wins_of_handling :
    booked.Coherent ∧ booked.lacking? fireTables = none ∧ booked.Referenced ∧
      (∃ added, (serveAll handling booked).2.fires = ⟨1, 10, 1, "2024-01-01T09:00:00.000Z",
        some "1970-01-01T00:01:00.000Z", some "F"⟩ :: added) ∧
      ∃ counts : List Nat, marked (serveAll handling booked).1 = counts.map .ok ∧
        counts.sum = 2 := by
  have hc : booked.Coherent := coherent_of_nodup (by decide) (by decide) (by decide)
  have ht : booked.lacking? fireTables = none := by decide
  have href : booked.Referenced := by decide
  obtain ⟨⟨added, hadded⟩, -, ⟨counts, hmarked, hsum, -⟩, -⟩ :=
    StoreCall.first_mark_wins hc ht href handling
  have hrow : booked.fires.map (fun r => r.settledBy (firstMark? r.id handling)) =
      [⟨1, 10, 1, "2024-01-01T09:00:00.000Z", some "1970-01-01T00:01:00.000Z", some "F"⟩] := by
    decide +kernel
  rw [hrow] at hadded
  exact ⟨hc, ht, href, ⟨added, hadded⟩, counts, hmarked, hsum.trans (by decide +kernel)⟩

end

end Outreach
