import Outreach.Proofs.Fire.Tended

/-!
# Outreach.Proofs.Fire.Once

No occurrence of an event is fired twice. While the clock goes forward, a fire that is settled is
one that was due, so it is not later than now, and a fire that is added is later than now; so what
has been settled is not added again.

* `Watched` — courses of events along a clock, in which fires are settled only when they are due.
* `Database.InTime` — what is true of all tables in such a course.
* `Watched.no_occurrence_twice` — no two rows are of one event, contact and time.
-/

namespace Outreach

open Relation

/-- What is done by hand at `now`: transactions are begun and ended, and fires are settled that the
query of due fires has just returned. -/
inductive ByHand (now : Instant) (c : Connection) : Call → Prop where
  | start : ByHand now c .start
  | commit : ByHand now c .commit
  | rollback : ByHand now c .rollback
  | mark {limit : Int} {fs : List Fire} (hdue : c.db.dueFires now limit = .ok fs)
      {ids : List FireId} (hids : ids ⊆ fs.map Fire.id) (t : Instant) (result : FireResult) :
    ByHand now c (.write (.mark ids t result))

/-- The scheduler is told of a change when it happens, and fires in years of four digits come of
it. -/
def ToldInTime (now : Instant) (change : Change) (ks : List Call) : Prop :=
  (∀ t ∈ change.now?, t = now) ∧
    ∀ fs, Call.write (.add fs) ∈ ks → ∀ f ∈ fs, f.scheduled.FourDigitYear

/-- Courses of events along a clock that goes forward. -/
inductive Watched {δ : Type} (src : Sources δ) (start : World δ) :
    Instant → List Connection → World δ → Prop where
  | here {now : Instant} (hnow : now.WellFormed) : Watched src start now [] start
  | later {now next : Instant} {ms : List Connection} {w : World δ}
      (h : Watched src start now ms w) (hle : now ≤ next) (hnext : next.WellFormed) :
    Watched src start next ms w
  | step {now : Instant} {ms ns : List Connection} {w w' : World δ}
      (h : Watched src start now ms w)
      (hs : Tending src (ByHand now) (ToldInTime now) w ns w') :
    Watched src start now (ms ++ ns) w'

theorem Watched.wellFormed {δ : Type} {src : Sources δ} {start w : World δ} {now : Instant}
    {ms : List Connection} (h : Watched src start now ms w) : now.WellFormed := by
  induction h with
  | here hnow => exact hnow
  | later _ _ hnext => exact hnext
  | step _ _ ih => exact ih

/-! ## What has been settled is over -/

namespace NewFire

/-- The fire was computed at `now`, for later and in a year of four digits. -/
structure Ahead (now : Instant) (f : NewFire) : Prop where
  computed : f.IsComputed
  year : f.scheduled.FourDigitYear
  later : now < f.scheduled

end NewFire

theorem World.Plans.later {δ : Type} {src : Sources δ} {change : Change} {w : World δ}
    {f : NewFire} (h : w.Plans src change f) {now : Instant}
    (hnow : ∀ t ∈ change.now?, t = now) : now < f.scheduled := by
  obtain ⟨t, ht, s, -, -, ev, -, -, start, hfire⟩ := h
  obtain rfl := hnow t ht
  exact ((ev.spec.fireTime_eq_some_iff _ _ _ _).1 hfire).2

namespace Database

variable {now : Instant} {db db' : Database}

/-- The rows stand for instants in years of four digits, the settled ones for instants that are
over, and no two rows are of one event, contact and time. -/
structure InTime (now : Instant) (db : Database) : Prop where
  timed : db.Timed
  years : ∀ r ∈ db.fires, ∀ t, r.StandsFor t → t.FourDigitYear
  past : ∀ r ∈ db.fires, r.fired ≠ none → ∀ t, r.StandsFor t → t ≤ now
  once : ∀ q ∈ db.fires, ∀ r ∈ db.fires, q.event = r.event → q.contact = r.contact →
    q.scheduled = r.scheduled → q = r

theorem inTime_of_empty (now : Instant) (h : db.fires = []) : db.InTime now :=
  ⟨timed_of_empty h, by simp [h], by simp [h], by simp [h]⟩

theorem InTime.later (hd : db.InTime now) {next : Instant} (hle : now ≤ next) :
    db.InTime next :=
  ⟨hd.timed, hd.years, fun r hr hs t ht => Moment.le_trans (hd.past r hr hs t ht) hle, hd.once⟩

theorem InTime.sublist (hd : db.InTime now) (h : db'.fires.Sublist db.fires) :
    db'.InTime now where
  timed := hd.timed.sublist h
  years r hr := hd.years r (h.mem hr)
  past r hr := hd.past r (h.mem hr)
  once q hq r hr := hd.once q (h.mem hq) r (h.mem hr)

theorem InTime.drops (hd : db.InTime now) (h : db.Drops db') : db'.InTime now := by
  obtain ⟨p⟩ := h
  exact hd.sublist List.filter_sublist

/-- A row of the occurrence would be pending, which keeps others from being added, or settled and
thus over. -/
theorem InTime.not_row (hd : db.InTime now) {f : NewFire} (hf : f.Ahead now)
    (hnone : db.hasPending f.event f.contact = false) {q : FireRow} (hq : q ∈ db.fires)
    (hevent : q.event = f.event) (hcontact : q.contact = f.contact) :
    q.scheduled ≠ f.scheduled.toStored := by
  intro htext
  cases hfired : q.fired with
  | none =>
    have hpending : db.hasPending f.event f.contact = true :=
      (hasPending_iff db _ _).2 ⟨_, q, hq, hfired, hevent, hcontact, rfl⟩
    rw [hnone] at hpending
    cases hpending
  | some text =>
    obtain ⟨t, ht⟩ := hd.timed.rows q hq
    have hrow := NewFire.standsFor_row hf.computed 0
    have heq : t = f.scheduled :=
      Instant.toStored_inj ht.nanos hrow.nanos (ht.text.symm.trans htext)
    have hle := hd.past q hq (by simp [hfired]) t ht
    rw [heq] at hle
    exact Moment.not_lt.2 hle hf.later

theorem InTime.adds {fs : List NewFire} (hfs : ∀ f ∈ fs, f.Ahead now) (hd : db.InTime now)
    (h : Adds fs db db') : db'.InTime now := by
  have htimed := hd.timed.adds (fun f hf => (hfs f hf).computed) h
  obtain ⟨f, hf, hnone⟩ := h
  have hahead := hfs f hf
  have hstands := NewFire.standsFor_row hahead.computed db.nextFireId
  constructor
  case timed => exact htimed
  case years =>
    intro r hr t ht
    rcases List.mem_append.1 hr with hr | hr
    · exact hd.years r hr t ht
    · obtain rfl := List.mem_singleton.1 hr
      exact ht.unique hstands ▸ hahead.year
  case past =>
    intro r hr hs t ht
    rcases List.mem_append.1 hr with hr | hr
    · exact hd.past r hr hs t ht
    · obtain rfl := List.mem_singleton.1 hr
      exact absurd rfl hs
  case once =>
    intro q hq r hr he hx ht
    rcases List.mem_append.1 hq with hq | hq
    · rcases List.mem_append.1 hr with hr | hr
      · exact hd.once q hq r hr he hx ht
      · obtain rfl := List.mem_singleton.1 hr
        exact absurd ht (hd.not_row hahead hnone hq he hx)
    · obtain rfl := List.mem_singleton.1 hq
      rcases List.mem_append.1 hr with hr | hr
      · exact absurd ht.symm (hd.not_row hahead hnone hr he.symm hx.symm)
      · exact (List.mem_singleton.1 hr).symm

/-- The fires with these numbers are not later than now. -/
def AreOver (now : Instant) (ids : List FireId) (db : Database) : Prop :=
  ∀ r ∈ db.fires, r.id ∈ ids → ∀ t, r.StandsFor t → t ≤ now

theorem InTime.settles {ids : List FireId} (hd : db.InTime now) (hids : AreOver now ids db)
    (h : Settles ids db db') : db'.InTime now ∧ AreOver now ids db' := by
  have htimed := hd.timed.settles h
  obtain ⟨piece, hpiece, text, result⟩ := h
  have hrow {p : FireRow → Prop} (hp : ∀ r ∈ db.fires, p (markRow piece text result r)) :
      ∀ r ∈ db.fires.map (markRow piece text result), p r := by
    intro r hr
    obtain ⟨q, hq, rfl⟩ := List.mem_map.1 hr
    exact hp q hq
  refine ⟨?_, hrow ?_⟩
  · constructor
    case timed => exact htimed
    case years =>
      refine hrow ?_
      intro r hr t ht
      exact hd.years r hr t ((FireRow.standsFor_markRow _ _ _).1 ht)
    case past =>
      refine hrow ?_
      intro r hr hs t ht
      have ht' := (FireRow.standsFor_markRow _ _ _).1 ht
      by_cases hold : r.fired = none
      · -- the row has changed, so its number is one of those given
        refine hids r hr (hpiece ?_) t ht'
        by_cases hid : r.id ∈ piece
        · exact hid
        · have hsame : markRow piece text result r = r := by simp [markRow, hid]
          rw [hsame] at hs
          exact absurd hold hs
      · exact hd.past r hr hold t ht'
    case once =>
      refine hrow fun q hq => hrow ?_
      intro r hr he hx ht
      obtain ⟨-, hqe, hqx, hqt⟩ := markRow_same piece text result q
      obtain ⟨-, hre, hrx, hrt⟩ := markRow_same piece text result r
      rw [hd.once q hq r hr (hqe ▸ hre ▸ he) (hqx ▸ hrx ▸ hx) (hqt ▸ hrt ▸ ht)]
  · intro r hr hid t ht
    obtain ⟨hsame, -⟩ := markRow_same piece text result r
    exact hids r hr (hsame ▸ hid) t ((FireRow.standsFor_markRow _ _ _).1 ht)

/-- What the query of due fires returns is over. -/
theorem InTime.areOver_of_due (hd : db.InTime now) (hnow : now.WellFormed) {limit : Int}
    {fs : List Fire} (hdue : db.dueFires now limit = .ok fs) {ids : List FireId}
    (hids : ids ⊆ fs.map Fire.id) : AreOver now ids db := by
  intro r hr hid t ht
  obtain ⟨f, hf, hfid⟩ := List.mem_map.1 (hids hid)
  obtain ⟨q, hq, hqf, hlate⟩ := exists_row_of_dueFires hdue hf
  obtain ⟨hqid, -⟩ := Fire.of_ofRow hqf
  obtain rfl := hd.timed.coherent.eq_of_id hq hr (hqid.trans hfid)
  rw [← Moment.not_lt]
  intro hlt
  rw [ht.text] at hlate
  exact hlate (Instant.toStored_lt hnow ht.nanos (hd.years q hq t ht) hlt)

/-- Rows that are told apart by event, contact and time are listed once each. -/
theorem InTime.nodup_occurrences (hd : db.InTime now) :
    (db.fires.map fun r => (r.event, r.contact, r.scheduled)).Nodup := by
  refine List.Nodup.map_on ?_ (List.Nodup.of_map _ hd.timed.coherent.ids)
  intro q hq r hr heq
  simp only [Prod.mk.injEq] at heq
  exact hd.once q hq r hr heq.1 heq.2.1 heq.2.2

end Database

/-! ## Calls -/

namespace Connection

theorem write_inTime {now : Instant} {w : Write} {c : Connection}
    (hadd : ∀ fs, w = .add fs → ∀ f ∈ fs, f.Ahead now)
    (hmark : ∀ ids t result, w = .mark ids t result → Database.AreOver now ids c.db)
    (hc : c.db.InTime now) : (c.write w).2.db.InTime now := by
  obtain ⟨-, ⟨fs, hfs, h⟩ | h | ⟨ids, t, result, hw, h⟩⟩ := c.write_steps w
  · exact Database.keeps_of_steps (fun _ _ hs hd => hd.adds (hadd fs hfs) hs) h hc
  · exact Database.keeps_of_steps (fun _ _ hs hd => hd.drops hs) h hc
  · have hids := hmark ids t result hw
    exact (Database.keeps_of_steps (p := fun d => d.InTime now ∧ Database.AreOver now ids d)
      (fun _ _ hs hd => hd.1.settles hd.2 hs) h ⟨hc, hids⟩).1

end Connection

namespace Call

theorem inTime_run {now : Instant} {k : Call} {c : Connection}
    (hadd : ∀ fs, k = .write (.add fs) → ∀ f ∈ fs, f.Ahead now)
    (hmark : ∀ ids t result, k = .write (.mark ids t result) → Database.AreOver now ids c.db)
    (hc : ∀ db ∈ c.copies, db.InTime now) : ∀ db ∈ (k.run c).copies, db.InTime now := by
  refine Connection.forall_copies_run k c ?_ hc
  intro w hw hd
  subst hw
  exact Connection.write_inTime (fun fs hfs => hadd fs (congrArg Call.write hfs))
    (fun ids t result hw => hmark ids t result (congrArg Call.write hw)) hd

theorem inTime_byHand {now : Instant} (hnow : now.WellFormed) {k : Call} {c : Connection}
    (hk : ByHand now c k) (hc : ∀ db ∈ c.copies, db.InTime now) :
    ∀ db ∈ (k.run c).copies, db.InTime now := by
  refine inTime_run ?_ ?_ hc
  · intro fs hfs
    subst hfs
    cases hk
  · intro ids t result hw
    subst hw
    cases hk with
    | mark hdue hids =>
      exact (hc c.db List.mem_cons_self).areOver_of_due hnow hdue hids

end Call

theorem Call.inTime_told {δ : Type} {src : Sources δ} {now : Instant} {w : World δ}
    {change : Change} {ks : List Call} (htold : ToldInTime now change ks) {k : Call} (hk : k ∈ ks)
    (hwithin : Within (w.Plans src change) k) (c : Connection)
    (hc : ∀ db ∈ c.copies, db.InTime now) : ∀ db ∈ (k.run c).copies, db.InTime now := by
  obtain ⟨hnow, hyears⟩ := htold
  refine inTime_run ?_ ?_ hc
  · intro fs hfs f hf
    subst hfs
    have hplan : w.Plans src change f := hwithin f hf
    exact ⟨hplan.isComputed, hyears fs hk f hf, hplan.later hnow⟩
  · intro ids t result hw
    subst hw
    exact hwithin.elim

theorem Watched.inTime {δ : Type} {src : Sources δ} (hk : src.KeepTables) {start w : World δ}
    {now : Instant} {ms : List Connection} (h : Watched src start now ms w)
    (hstart : ∀ now, ∀ db ∈ start.tables.copies, db.InTime now) :
    (∀ c ∈ ms, ∀ db ∈ c.copies, db.InTime now) ∧ ∀ db ∈ w.tables.copies, db.InTime now := by
  induction h with
  | here hnow => exact ⟨by simp, hstart _⟩
  | later _ hle _ ih =>
    exact ⟨fun c hc db hdb => (ih.1 c hc db hdb).later hle, fun db hdb => (ih.2 db hdb).later hle⟩
  | step h hs ih =>
    obtain ⟨hms, hlast⟩ := ih
    obtain ⟨hns, hnext⟩ := hs.keeps hk (fun c k hhand => Call.inTime_byHand h.wellFormed hhand)
      (fun w change ks htold k hmem hwithin => Call.inTime_told htold hmem hwithin)
      (fun _ _ hsub hd => hd.sublist hsub) hlast
    exact ⟨List.forall_mem_append.2 ⟨hms, hns⟩, hnext⟩

/-- From a table without fires on, whatever changes meanwhile and whichever transactions are undone:
at no moment are there two rows, pending or settled, of one event, contact and time, in the tables
or in what others see of them. -/
theorem Watched.no_occurrence_twice {δ : Type} {src : Sources δ} (hk : src.KeepTables)
    {start w : World δ} {now : Instant} {ms : List Connection}
    (hfires : start.tables.db.fires = []) (hsaved : start.tables.saved = [])
    (h : Watched src start now ms w) {c : Connection} (hc : c ∈ start.tables :: ms)
    {db : Database} (hdb : db = c.db ∨ db = c.committed) :
    (db.fires.map fun r => (r.event, r.contact, r.scheduled)).Nodup := by
  have hstart (now : Instant) : ∀ db ∈ start.tables.copies, db.InTime now :=
    Connection.copies_of_empty (fun _ => Database.inTime_of_empty now) hfires hsaved
  have hall : ∀ c ∈ start.tables :: ms, ∀ db ∈ c.copies, db.InTime now :=
    List.forall_mem_cons.2 ⟨hstart now, (h.inTime hk hstart).1⟩
  exact (hall c hc db (Connection.mem_copies hdb)).nodup_occurrences

section

open Sample

/-- The reminder is settled when its hour is over, and told of the contact again the scheduler does
not bring it back. -/
theorem Watched.no_reminder_twice :
    let due := (world.reconcile sources 100 (.joined 1 5 [1] midnight)).2
    let c := Call.run (.write (.mark [1] (minutesLater 61) .fired)) due.tables
    let settled : World Unit := { due with tables := c }
    let w := (settled.reconcile sources 100 (.joined 1 5 [1] (minutesLater 60))).2
    w.tables.db.fires.map (fun r => (r.event, r.contact, r.scheduled)) =
        [(10, 1, "2024-01-01T01:00:00.000Z")] ∧
      (w.tables.db.fires.map fun r => (r.event, r.contact, r.scheduled)).Nodup := by
  intro due c settled w
  have hdue : due.tables.db.dueFires (minutesLater 60) 1 =
      .ok [⟨1, 10, 1, minutesLater 60, none, none⟩] := by
    decide +kernel
  have hfirst : world.calls sources 100 (.joined 1 5 [1] midnight) = [.start,
      .write (.delete [(10, 1)]), .write (.add [⟨10, 1, minutesLater 60⟩]), .commit] := by
    decide +kernel
  have hagain : settled.calls sources 100 (.joined 1 5 [1] (minutesLater 60)) = [.start,
      .write (.delete [(10, 1)]), .write (.add []), .commit] := by
    decide +kernel
  have htold : ToldInTime midnight (.joined 1 5 [1] midnight)
      (world.calls sources 100 (.joined 1 5 [1] midnight)) := by
    refine ⟨by rintro t ⟨⟩; rfl, fun fs hfs f hf => ?_⟩
    rw [hfirst] at hfs
    obtain rfl : fs = [⟨10, 1, minutesLater 60⟩] := by simpa using hfs
    obtain rfl := List.mem_singleton.1 hf
    decide +kernel
  have htold' : ToldInTime (minutesLater 60) (.joined 1 5 [1] (minutesLater 60))
      (settled.calls sources 100 (.joined 1 5 [1] (minutesLater 60))) := by
    refine ⟨by rintro t ⟨⟩; rfl, fun fs hfs f hf => ?_⟩
    rw [hagain] at hfs
    obtain rfl : fs = [] := by simpa using hfs
    cases hf
  have hhand : ByHand (minutesLater 60) due.tables
      (.write (.mark [1] (minutesLater 61) .fired)) :=
    .mark hdue (by simp) (minutesLater 61) .fired
  have hstart : Watched sources world midnight [] world := .here (by decide)
  have hlater := (hstart.step (.change 100 _ htold)).later (by decide : midnight ≤ minutesLater 60)
    (by decide)
  have hrun := ((hlater.step (.call hhand)).step (.change 100 _ htold')).step
    (.elsewhere (List.Sublist.refl _) rfl)
  refine ⟨by decide +kernel, no_occurrence_twice sources_steady.keepTables rfl rfl hrun
    (c := w.tables) (List.mem_cons_of_mem _ (List.mem_append_right _ ?_)) (.inl rfl)⟩
  exact List.mem_singleton.2 rfl

end

end Outreach
