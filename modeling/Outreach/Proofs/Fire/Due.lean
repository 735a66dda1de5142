import Outreach.Proofs.Fire.Tended

/-!
# Outreach.Proofs.Fire.Due

The query of due fires, which compares and sorts stored texts. It is exact as long as the pending
fires are in years of four digits; one that is not comes first at all times, and cannot be read.

* `Database.DueAre` — the fires are the first of those due, by time and then by number.
* `Database.dueFires_exact` — the query is exact if all pending fires are in years of four digits.
* `Database.dueFires_fails` — it fails if one is not.
* `Tended.due_exact_iff` — both together, for tables that only the scheduler adds to.
-/

namespace Outreach

/-! ## The order of rows -/

namespace FireRow

variable {κ : Type} [LT κ] {key : FireRow → κ}

/-- By the key, and rows of one key by number. -/
def Before (key : FireRow → κ) (a b : FireRow) : Prop :=
  key a < key b ∨ (key a = key b ∧ a.id ≤ b.id)

instance [DecidableEq κ] [DecidableLT κ] (a b : FireRow) : Decidable (Before key a b) :=
  inferInstanceAs (Decidable (key a < key b ∨ (key a = key b ∧ a.id ≤ b.id)))

theorem Before.trans (htrans : ∀ x y z : κ, x < y → y < z → x < z) {a b c : FireRow}
    (hab : Before key a b) (hbc : Before key b c) : Before key a c := by
  rcases hab with hab | ⟨hab, hid⟩
  · rcases hbc with hbc | ⟨hbc, -⟩
    · exact .inl (htrans _ _ _ hab hbc)
    · exact .inl (hbc ▸ hab)
  · rcases hbc with hbc | ⟨hbc, hid'⟩
    · exact .inl (hab ▸ hbc)
    · exact .inr ⟨hab.trans hbc, Int.le_trans hid hid'⟩

theorem before_total (htotal : ∀ x y : κ, x < y ∨ x = y ∨ y < x) (a b : FireRow) :
    Before key a b ∨ Before key b a := by
  rcases htotal (key a) (key b) with hlt | heq | hgt
  · exact .inl (.inl hlt)
  · rcases Int.le_total a.id b.id with hid | hid
    · exact .inl (.inr ⟨heq, hid⟩)
    · exact .inr (.inr ⟨heq.symm, hid⟩)
  · exact .inr (.inl hgt)

/-- Of rows with different numbers, one of two of a key has the smaller number. -/
theorem Before.strict {a b : FireRow} (h : Before key a b) (hid : a.id ≠ b.id) :
    key a < key b ∨ (key a = key b ∧ a.id < b.id) := by
  rcases h with hlt | ⟨heq, hle⟩
  · exact .inl hlt
  · exact .inr ⟨heq, Int.lt_iff_le_and_ne.2 ⟨hle, hid⟩⟩

end FireRow

namespace Database

theorem dueBefore_iff {a b : FireRow} :
    dueBefore a b = true ↔ FireRow.Before FireRow.scheduled a b := by
  simp [dueBefore, FireRow.Before]

theorem dueBefore_trans (a b c : FireRow) (hab : dueBefore a b = true)
    (hbc : dueBefore b c = true) : dueBefore a c = true := by
  rw [dueBefore_iff] at *
  exact hab.trans (fun _ _ _ => String.lt_trans) hbc

theorem dueBefore_total (a b : FireRow) : (dueBefore a b || dueBefore b a) = true := by
  rw [Bool.or_eq_true, dueBefore_iff, dueBefore_iff]
  refine FireRow.before_total ?_ a b
  intro x y
  by_cases hlt : x < y
  · exact .inl hlt
  · by_cases hgt : y < x
    · exact .inr (.inr hgt)
    · exact .inr (.inl (String.le_antisymm (String.not_lt.1 hgt) (String.not_lt.1 hlt)))

/-- The rows that are due by their texts, in the order in which they are read. -/
def dueRows (db : Database) (now : Instant) : List FireRow :=
  (db.fires.filter fun r => r.pending && !decide (now.toStored < r.scheduled)).mergeSort dueBefore

theorem dueFires_eq {db : Database} (hthere : db.lacking? [.fires] = none) (now : Instant)
    {limit : Int} (hlimit : 0 ≤ limit) :
    db.dueFires now limit = readFires ((db.dueRows now).take limit.toNat) := by
  have hnot : ¬ limit < 0 := Int.not_lt.2 hlimit
  simp only [dueFires, hthere, takeLimit, if_neg hnot, dueRows]

theorem perm_dueRows (db : Database) (now : Instant) :
    (db.dueRows now).Perm
      (db.fires.filter fun r => r.pending && !decide (now.toStored < r.scheduled)) :=
  List.mergeSort_perm _ _

theorem mem_dueRows {db : Database} {now : Instant} {r : FireRow} :
    r ∈ db.dueRows now ↔ r ∈ db.fires ∧ r.fired = none ∧ ¬ now.toStored < r.scheduled := by
  rw [(db.perm_dueRows now).mem_iff]
  simp [FireRow.pending]

theorem sorted_dueRows (db : Database) (now : Instant) :
    (db.dueRows now).Pairwise fun a b => dueBefore a b = true :=
  List.pairwise_mergeSort dueBefore_trans dueBefore_total _

/-! ## Exact answers -/

/-- The fires are the first ones, as many as the limit allows, of the pending fires whose instant
is `now` or before, by instant and then by number. -/
def DueAre (db : Database) (at' : FireRow → Instant) (now : Instant) (limit : Nat)
    (fs : List Fire) : Prop :=
  ∃ rows : List FireRow,
    rows.Perm (db.fires.filter fun r => r.pending && decide (at' r ≤ now)) ∧
    rows.Pairwise (fun a b => at' a < at' b ∨ (at' a = at' b ∧ a.id < b.id)) ∧
    fs = (rows.take limit).map fun r => ⟨r.id, r.event, r.contact, at' r, none, none⟩

/-- Rows with numbers of their own can be brought into this order. -/
theorem exists_inOrder (at' : FireRow → Instant) {rs : List FireRow}
    (hids : (rs.map FireRow.id).Nodup) : ∃ rows : List FireRow, rows.Perm rs ∧
      rows.Pairwise fun a b => at' a < at' b ∨ (at' a = at' b ∧ a.id < b.id) := by
  let before (a b : FireRow) : Bool := FireRow.Before at' a b
  have htrans (a b c : FireRow) (hab : before a b = true) (hbc : before b c = true) :
      before a c = true := by
    simp only [before, decide_eq_true_eq] at *
    exact hab.trans (fun _ _ _ => Moment.lt_trans) hbc
  have htotal (a b : FireRow) : (before a b || before b a) = true := by
    simp only [before, Bool.or_eq_true, decide_eq_true_eq]
    exact FireRow.before_total Moment.lt_or_eq_or_gt a b
  have hperm := List.mergeSort_perm rs before
  have hne : (rs.mergeSort before).Pairwise fun a b => a.id ≠ b.id :=
    List.pairwise_map.1 ((hperm.map FireRow.id).nodup_iff.2 hids)
  refine ⟨_, hperm, ((List.pairwise_mergeSort htrans htotal rs).and hne).imp ?_⟩
  intro a b h
  exact (decide_eq_true_iff.1 h.1).strict h.2

variable {db : Database} {at' : FireRow → Instant}

/-- No fires are the first none. -/
theorem Coherent.dueAre_nil (hc : db.Coherent) (at' : FireRow → Instant) (now : Instant) :
    db.DueAre at' now 0 [] := by
  obtain ⟨rows, hperm, horder⟩ := exists_inOrder at' (hc.ids.sublist (List.Sublist.map _
    (List.filter_sublist (p := fun r => r.pending && decide (at' r ≤ now)))))
  exact ⟨rows, hperm, horder, rfl⟩

theorem Coherent.nodup_dueRows (hc : db.Coherent) (now : Instant) :
    ((db.dueRows now).map FireRow.id).Nodup := by
  rw [((db.perm_dueRows now).map FireRow.id).nodup_iff]
  exact hc.ids.sublist (List.filter_sublist.map _)

theorem ofRow_of_standsFor {r : FireRow} {t : Instant} (h : r.StandsFor t)
    (hy : t.FourDigitYear) (hfired : r.fired = none) (hresult : r.result = none) :
    Fire.ofRow r = .ok ⟨r.id, r.event, r.contact, t, none, none⟩ := by
  simp only [Fire.ofRow, Fire.resultOf, hresult, hfired, h.text,
    Instant.ofStored_toStored h.nanos hy, Instant.ofStored?]

section Stands

variable (hat : ∀ r ∈ db.fires, r.StandsFor (at' r)) {now : Instant}

include hat

theorem not_toStored_lt_iff (hn : now.WellFormed) (hny : now.FourDigitYear) {r : FireRow}
    (hr : r ∈ db.fires) (hy : (at' r).FourDigitYear) :
    ¬ now.toStored < r.scheduled ↔ at' r ≤ now := by
  rw [(hat r hr).text, Instant.toStored_lt_iff hn hny (hat r hr).nanos hy, Moment.not_lt]

/-- Of rows in years of four digits, the order of texts is that of instants. -/
theorem before_of_dueBefore {a b : FireRow} (ha : a ∈ db.fires) (hb : b ∈ db.fires)
    (hya : (at' a).FourDigitYear) (hyb : (at' b).FourDigitYear) (h : dueBefore a b = true)
    (hid : a.id ≠ b.id) : at' a < at' b ∨ (at' a = at' b ∧ a.id < b.id) := by
  have hwell : (at' a).WellFormed := .inl (by rw [(hat a ha).nanos]; decide)
  have hstrict := (dueBefore_iff.1 h).strict hid
  rw [(hat a ha).text, (hat b hb).text] at hstrict
  rcases hstrict with hlt | ⟨heq, hlt⟩
  · exact .inl ((Instant.toStored_lt_iff hwell hya (hat b hb).nanos hyb).1 hlt)
  · exact .inr ⟨Instant.toStored_inj (hat a ha).nanos (hat b hb).nanos heq, hlt⟩

theorem dueFires_exact (hc : db.Coherent) (hthere : db.lacking? [.fires] = none)
    (hy : ∀ r ∈ db.fires, r.fired = none → (at' r).FourDigitYear) (hn : now.WellFormed)
    (hny : now.FourDigitYear) {limit : Int} (hlimit : 0 ≤ limit) :
    ∃ fs, db.dueFires now limit = .ok fs ∧ db.DueAre at' now limit.toNat fs := by
  have hrow {r : FireRow} (hr : r ∈ db.dueRows now) :
      r ∈ db.fires ∧ r.fired = none ∧ (at' r).FourDigitYear := by
    obtain ⟨hr, hfired, -⟩ := mem_dueRows.1 hr
    exact ⟨hr, hfired, hy r hr hfired⟩
  have hdue : (db.fires.filter fun r => r.pending && !decide (now.toStored < r.scheduled)) =
      db.fires.filter fun r => r.pending && decide (at' r ≤ now) := by
    apply List.filter_congr
    intro r hr
    cases hp : r.pending with
    | false => simp only [Bool.false_and]
    | true =>
      have hyear := hy r hr (Option.isNone_iff_eq_none.1 hp)
      have hiff := not_toStored_lt_iff hat hn hny hr hyear
      simp only [Bool.true_and, ← decide_not, hiff]
  have hread : readFires ((db.dueRows now).take limit.toNat) =
      .ok (((db.dueRows now).take limit.toNat).map
        fun r => ⟨r.id, r.event, r.contact, at' r, none, none⟩) := by
    have hrows : ∀ r ∈ (db.dueRows now).take limit.toNat,
        Fire.ofRow r = .ok ⟨r.id, r.event, r.contact, at' r, none, none⟩ := by
      intro r hr
      obtain ⟨hr, hfired, hyear⟩ := hrow (List.mem_of_mem_take hr)
      exact ofRow_of_standsFor (hat r hr) hyear hfired ((hc.both r hr).1 hfired)
    rw [readFires, Fire.ofRows_of_forall hrows]
  refine ⟨_, (dueFires_eq hthere now hlimit).trans hread, db.dueRows now, ?_, ?_, rfl⟩
  · rw [← hdue]
    exact db.perm_dueRows now
  · have hids : (db.dueRows now).Pairwise fun a b => a.id ≠ b.id :=
      List.pairwise_map.1 (hc.nodup_dueRows now)
    refine ((db.sorted_dueRows now).and hids).imp_of_mem ?_
    intro a b ha hb h
    obtain ⟨hma, -, hya⟩ := hrow ha
    obtain ⟨hmb, -, hyb⟩ := hrow hb
    exact before_of_dueBefore hat hma hmb hya hyb h.1 h.2

/-- A pending fire in another year comes first, and its time cannot be read. -/
theorem dueFires_fails (hc : db.Coherent) (hthere : db.lacking? [.fires] = none)
    (hny : now.FourDigitYear) {r : FireRow} (hr : r ∈ db.fires) (hfired : r.fired = none)
    (hy : ¬ (at' r).FourDigitYear) {limit : Int} (hlimit : 0 < limit) :
    ∃ text, db.dueFires now limit = .error (.unreadable (.timestamp text)) := by
  have hsigned : r.scheduled < now.toStored := by
    rw [(hat r hr).text]
    exact Instant.toStored_lt_of_signed hy hny
  have hmem : r ∈ db.dueRows now := mem_dueRows.2 ⟨hr, hfired, String.lt_asymm hsigned⟩
  have hsorted := db.sorted_dueRows now
  rw [dueFires_eq hthere now (Int.le_of_lt hlimit)]
  cases hrows : db.dueRows now with
  | nil => rw [hrows] at hmem; cases hmem
  | cons q rows =>
    have hq : q ∈ db.dueRows now := by rw [hrows]; exact List.mem_cons_self
    obtain ⟨hqr, hqfired, -⟩ := mem_dueRows.1 hq
    have hqy : ¬ (at' q).FourDigitYear := by
      rw [hrows] at hmem hsorted
      rcases List.mem_cons.1 hmem with rfl | hmem
      · exact hy
      · -- nothing in a year of four digits comes before `r`
        intro hqy
        have hlt : r.scheduled < q.scheduled := by
          rw [(hat r hr).text, (hat q hqr).text]
          exact Instant.toStored_lt_of_signed hy hqy
        rcases dueBefore_iff.1 ((List.pairwise_cons.1 hsorted).1 r hmem) with h | ⟨h, -⟩
        · exact String.lt_asymm h hlt
        · exact String.lt_irrefl _ (h ▸ hlt)
    have hread : Fire.ofRow q = .error (.timestamp q.scheduled) := by
      have hstored : Instant.ofStored q.scheduled = .error (.timestamp q.scheduled) := by
        rw [(hat q hqr).text]
        exact Instant.ofStored_of_signed hqy
      simp only [Fire.ofRow, Fire.resultOf, (hc.both q hqr).1 hqfired, hstored]
    obtain ⟨n, hn⟩ : ∃ n, limit.toNat = n + 1 := ⟨limit.toNat - 1, by omega⟩
    rw [hn, List.take_succ_cons]
    exact ⟨q.scheduled, by simp only [readFires, Fire.ofRows, hread]⟩

end Stands
end Database

/-! ## What the scheduler has added -/

/-- However the tables of fires came about, if only the scheduler has added to them: each row
stands for an instant, and the query of due fires is exact if and only if all pending fires are
in years of four digits, or no fires are asked for. -/
theorem Tended.due_exact_iff {δ : Type} {src : Sources δ} (hk : src.KeepTables)
    {start w : World δ} {ms : List Connection} (hfires : start.tables.db.fires = [])
    (hsaved : start.tables.saved = []) (h : Tended src start ms w) {c : Connection}
    (hc : c ∈ start.tables :: ms) {db : Database} (hdb : db = c.db ∨ db = c.committed)
    (hthere : db.lacking? [.fires] = none) :
    ∃ at' : FireRow → Instant, (∀ r ∈ db.fires, r.StandsFor (at' r)) ∧
      ∀ (now : Instant) (limit : Int), now.WellFormed → now.FourDigitYear → 0 ≤ limit →
        ((∃ fs, db.dueFires now limit = .ok fs ∧ db.DueAre at' now limit.toNat fs) ↔
          limit = 0 ∨ ∀ r ∈ db.fires, r.fired = none → (at' r).FourDigitYear) := by
  obtain ⟨hcoherent, hrows⟩ := h.timed hk hfires hsaved c hc db (Connection.mem_copies hdb)
  have hchoice : ∀ r : FireRow, ∃ t, r ∈ db.fires → r.StandsFor t := by
    intro r
    by_cases hr : r ∈ db.fires
    · obtain ⟨t, ht⟩ := hrows r hr
      exact ⟨t, fun _ => ht⟩
    · exact ⟨⟨0, 0⟩, fun h => absurd h hr⟩
  obtain ⟨at', hat⟩ := Classical.skolem.1 hchoice
  refine ⟨at', hat, ?_⟩
  intro now limit hn hny hlimit
  constructor
  · rintro ⟨fs, hdue, hare⟩
    by_cases hzero : limit = 0
    · exact .inl hzero
    · refine .inr ?_
      intro r hr hfired
      by_cases hy : (at' r).FourDigitYear
      · exact hy
      · have hpos : 0 < limit := by omega
        obtain ⟨text, herror⟩ := Database.dueFires_fails hat hcoherent hthere hny hr hfired hy hpos
        rw [herror] at hdue
        cases hdue
  · intro hcase
    rcases hcase with rfl | hy
    · refine ⟨[], ?_, hcoherent.dueAre_nil at' now⟩
      rw [Database.dueFires_eq hthere now hlimit, Int.toNat_zero, List.take_zero]
      rfl
    · exact Database.dueFires_exact hat hcoherent hthere hy hn hny hlimit

section

open Sample

/-- The reminder is due when its hour is over, and is found. -/
theorem Tended.due_exact_of_reminder :
    let w := (world.reconcile sources 100 (.joined 1 5 [1] midnight)).2
    ∃ at' : FireRow → Instant, (∀ r ∈ w.tables.db.fires, r.StandsFor (at' r)) ∧
      ∃ fs, w.tables.db.dueFires (minutesLater 60) 1 = .ok fs ∧
        w.tables.db.DueAre at' (minutesLater 60) 1 fs := by
  intro w
  have hrun : Tended sources world _ w :=
    .step (.step .here (.change 100 (.joined 1 5 [1] midnight) trivial))
      (.elsewhere (List.Sublist.refl _) rfl)
  have hfires : w.tables.db.fires = [⟨1, 10, 1, "2024-01-01T01:00:00.000Z", none, none⟩] := by
    decide +kernel
  obtain ⟨at', hat, hiff⟩ := due_exact_iff sources_steady.keepTables rfl rfl hrun (c := w.tables)
    (List.mem_cons_of_mem _ (List.mem_append_right _ (List.mem_singleton.2 rfl))) (.inl rfl)
    (by decide +kernel)
  refine ⟨at', hat, (hiff (minutesLater 60) 1 (by decide) (by decide +kernel) (by decide)).2 ?_⟩
  refine .inr fun r hr _ => ?_
  have hstands : r.StandsFor (minutesLater 60) := by
    rw [hfires] at hr
    obtain rfl := List.mem_singleton.1 hr
    exact ⟨stored_sixty.symm, reminder, Zone.utc, midnight, midnight, rfl, by decide +kernel⟩
  rw [(hat r hr).unique hstands]
  decide +kernel

/-- Three million days after a contact is created. -/
def Sample.distant : EventSpec := { reminder with id := 11, offset := 3000000, unit := .days }

/-- The campaign with the distant event in it. -/
def Sample.distantSources : Sources Unit :=
  .fixed fun _ => OrgData.set {} .campaigns [{ campaign with specs := [reminder, distant] }]

/-- The reminder is due, but it is not found, since the fire of the year 10237 comes before it. -/
theorem distant_fire_stops_the_queue :
    let u := (world.reconcile distantSources 100 (.eventEdited 1 10 midnight)).2
    let w := (u.reconcile distantSources 100 (.eventEdited 1 11 midnight)).2
    (∃ ms, Tended distantSources world ms w ∧ w.tables ∈ ms) ∧
      w.tables.db.fires = [⟨1, 10, 1, "2024-01-01T01:00:00.000Z", none, none⟩,
        ⟨2, 11, 1, "+10237-09-21T00:00:00.000Z", none, none⟩] ∧
      (minutesLater 60).FourDigitYear ∧
      ∃ text, w.tables.db.dueFires (minutesLater 60) 10 =
        .error (.unreadable (.timestamp text)) := by
  intro u w
  have hfires : w.tables.db.fires = [⟨1, 10, 1, "2024-01-01T01:00:00.000Z", none, none⟩,
      ⟨2, 11, 1, "+10237-09-21T00:00:00.000Z", none, none⟩] := by
    decide +kernel
  have hrun : Tended distantSources world _ w :=
    .step (.step (.step .here (.change 100 (.eventEdited 1 10 midnight) trivial))
      (.change 100 (.eventEdited 1 11 midnight) trivial)) (.elsewhere (List.Sublist.refl _) rfl)
  have hcoherent : w.tables.db.Coherent := by
    refine Database.coherent_of_nodup ?_ ?_ ?_
    · rw [hfires]; decide
    · rw [hfires]; decide
    · rw [hfires]; decide
  let at' (r : FireRow) : Instant := if r.id = 1 then minutesLater 60 else ⟨260904067200, 0⟩
  have hat : ∀ r ∈ w.tables.db.fires, r.StandsFor (at' r) := by
    rw [hfires]
    intro r hr
    rcases List.mem_cons.1 hr with rfl | hr
    · exact ⟨stored_sixty.symm, reminder, Zone.utc, midnight, midnight, rfl, by decide +kernel⟩
    · obtain rfl := List.mem_singleton.1 hr
      exact ⟨by decide +kernel, distant, Zone.utc, midnight, midnight, rfl, by decide +kernel⟩
  refine ⟨⟨_, hrun, List.mem_append_right _ (List.mem_singleton.2 rfl)⟩, hfires,
    by decide +kernel, ?_⟩
  refine Database.dueFires_fails hat hcoherent (by decide +kernel) (by decide +kernel)
    (r := ⟨2, 11, 1, "+10237-09-21T00:00:00.000Z", none, none⟩) ?_ rfl (by decide +kernel)
    (by decide)
  rw [hfires]
  exact List.mem_cons_of_mem _ (List.mem_singleton.2 rfl)

end

end Outreach
