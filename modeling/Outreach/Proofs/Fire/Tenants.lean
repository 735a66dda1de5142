import Outreach.Proofs.Cache.Edits
import Outreach.Proofs.Fire.Dropped

/-!
# Outreach.Proofs.Fire.Tenants

Orgs that share the tables leave the fires of each other alone, although fires are deleted by their
event, whichever org their contact is of.

* `Visits` — runs in which the scheduler is told of changes for orgs.
* `Database.Parted` — each fire is of an event that was looked up for the org of its contact;
  `Visits.parted` says that this holds throughout a run.
* `Visits.others_untouched` — the main result: for one org no fire of a contact of another one is
  added, changed or deleted.
-/

namespace Outreach

open Relation

/-! ## Whose fires are touched -/

namespace Database

/-- Each contact is of the org that it is always of. -/
def Homes (home : ContactId → OrgId) (db : Database) : Prop :=
  ∀ r ∈ db.contacts, home r.id = r.org

/-- The fires of contacts of an org. -/
def firesFor (home : ContactId → OrgId) (org : OrgId) (db : Database) : List FireRow :=
  db.fires.filter fun r => home r.contact == org

variable {p : FireRow → Bool} {db db' : Database}

/-- No fire that satisfies `p` is added, changed or deleted. -/
def Spares (p : FireRow → Bool) (db db' : Database) : Prop :=
  db'.fires.filter p = db.fires.filter p

theorem spares_of_steps {R : Database → Database → Prop} (hR : ∀ a b, R a b → a.Spares p b)
    (h : ReflTransGen R db db') : db.Spares p db' :=
  keeps_of_steps (p := fun d => db.Spares p d) (fun a b hstep ha => (hR a b hstep).trans ha) h rfl

theorem spares_of_adds {fs : List NewFire} (hfs : ∀ f ∈ fs, ∀ id, p (f.row id) = false)
    (h : ReflTransGen (Adds fs) db db') : db.Spares p db' := by
  refine spares_of_steps (fun a b hstep => ?_) h
  obtain ⟨f, hf, -⟩ := hstep
  have hrow : p ⟨a.nextFireId, f.event, f.contact, f.scheduled.toStored, none, none⟩ = false :=
    hfs f hf a.nextFireId
  simp only [Spares, List.filter_append, List.filter_cons, hrow, Bool.false_eq_true, if_false,
    List.filter_nil, List.append_nil]

/-- A deletion spares what it does not ask for. -/
theorem spares_of_deleteStatement {s : Statement} {q : FireRow → Bool} {n : Nat}
    (hq : ∀ r, q r = true → p r = false) (h : deleteStatement s q db = .ok (n, db')) :
    db.Spares p db' := by
  unfold deleteStatement at h
  split at h
  · cases h
  · cases h
    simp only [Spares, List.filter_filter]
    refine List.filter_congr fun r _ => ?_
    cases hp : p r with
    | false => rfl
    | true =>
      have hqr : q r = false := by
        cases hqr : q r with
        | false => rfl
        | true => exact absurd hp (by simp [hq r hqr])
      simp [hqr]

/-- So do deletions one after the other, also if one of them is refused. -/
theorem spares_of_deletions {α : Type} {s : α → Statement} {q : α → FireRow → Bool} {as : List α}
    (hq : ∀ a ∈ as, ∀ r, q a r = true → p r = false) (db : Database) :
    db.Spares p (inTurn (fun a => deleteStatement (s a) (q a)) as db).2 := by
  refine spares_of_steps (R := Spares p) (fun _ _ h => h)
    (inTurn_steps (fun a ha b n b' h => ?_) db)
  exact .single (spares_of_deleteStatement (hq a ha) h)

end Database

namespace Connection

variable {adds : NewFire → Prop} {drops : EventId → Prop} {p : FireRow → Bool}

/-- A write spares fires that are neither added nor of an event that is dropped. -/
theorem write_spares (hadds : ∀ f, adds f → ∀ id, p (f.row id) = false)
    (hdrops : ∀ r, drops r.event → p r = false) {w : Write} (hw : w.Of adds drops)
    (c : Connection) : c.db.Spares p (c.write w).2.db := by
  cases w with
  | add fs =>
    obtain ⟨-, hdb | hdb⟩ := c.addFires_db fs
    · exact congrArg (fun db : Database => db.fires.filter p) hdb
    · simp only [write, hdb]
      exact Database.spares_of_adds (fun f hf => hadds f (hw f hf)) (Database.addFires_adds fs c.db)
  | delete pairs =>
    simp only [write, (c.alter_eq _).2, Database.deletePending]
    refine Database.spares_of_deletions (fun d hd r hr => hdrops r ?_) c.db
    obtain ⟨hevent, -⟩ := Bool.and_eq_true_iff.1 hr
    obtain ⟨e, he, hd⟩ := List.mem_flatMap.1 hd
    obtain ⟨cs, -, rfl⟩ := List.mem_map.1 hd
    obtain ⟨x, hx⟩ := Database.mem_eventsOf.1 he
    rw [beq_iff_eq.1 hevent]
    exact hw (e, x) hx
  | deleteOfContacts cs =>
    simp only [write, (c.alter_eq _).2, Database.deletePendingOfContacts]
    exact Database.spares_of_deletions (fun _ _ r _ => hdrops r (hw r.event)) c.db
  | deleteOfEvent e =>
    simp only [write, (c.alter_eq _).2, Database.deletePendingOfEvent]
    refine Database.spares_of_deletions (fun d hd r hr => hdrops r ?_) c.db
    rw [beq_iff_eq.1 hr, List.mem_singleton.1 hd]
    exact hw
  | mark => exact hw.elim

end Connection

/-! ## Runs -/

variable {δ : Type}

/-- The scheduler is told of a change. -/
structure Visit (δ : Type) where
  world : World δ
  batch : Nat
  change : Change

namespace Visit

/-- The org that the change is for. -/
def org? (v : Visit δ) : Option OrgId := v.change.refresh?.map (·.1)

def calls (src : Sources δ) (v : Visit δ) : List Call := v.world.calls src v.batch v.change

def after (src : Sources δ) (v : Visit δ) : World δ := (v.world.reconcile src v.batch v.change).2

/-- The events of the snapshot that is looked up. -/
def events (src : Sources δ) (v : Visit δ) : List EventId :=
  match v.world.lookup src v.change with
  | some (.ok s, _) => (allEvents s.campaigns).map Event.id
  | _ => []

end Visit

/-- The events of all snapshots that were looked up for an org. -/
def eventsFor (src : Sources δ) (log : List (Visit δ)) (org : OrgId) : List EventId :=
  (log.filter fun v => v.org? == some org).flatMap (Visit.events src)

/-- Runs in which the scheduler is told of changes for orgs, with all that it was told. By hand
only transactions are begun and ended. What happens elsewhere may change all but what transactions
go back to and the org that a contact is of; of the fires it may take some away, as deleting a
contact does, and it keeps each snapshot under its org. -/
inductive Visits (src : Sources δ) (home : ContactId → OrgId) (start : World δ) :
    List (Visit δ) → World δ → Prop where
  | here : Visits src home start [] start
  | visit {log : List (Visit δ)} {w : World δ} (h : Visits src home start log w) (batch : Nat)
      (change : Change) (hchange : change.refresh? ≠ none) :
    Visits src home start (log ++ [⟨w, batch, change⟩]) (w.reconcile src batch change).2
  | transaction {log : List (Visit δ)} {w : World δ} (h : Visits src home start log w) {k : Call}
      (hk : k = .start ∨ k = .commit ∨ k = .rollback) :
    Visits src home start log { w with tables := k.run w.tables }
  | elsewhere {log : List (Visit δ)} {w w' : World δ} (h : Visits src home start log w)
      (hfiled : w'.Filed) (hhomes : w'.tables.db.Homes home)
      (hfires : w'.tables.db.fires.Sublist w.tables.db.fires)
      (hsaved : w'.tables.saved = w.tables.saved) :
    Visits src home start log w'

namespace World

variable {src : Sources δ} {change : Change} {w u : World δ} {s : Snapshot}

theorem lookup_tables (hk : src.KeepTables) {found : Except AssetError Snapshot × World δ}
    (h : w.lookup src change = some found) : found.2.tables = w.tables := by
  rw [lookup_eq] at h
  obtain ⟨r, -, rfl⟩ := Option.map_eq_some_iff.1 h
  exact refresh_tables hk r.1 r.2 w

theorem lookup_org (hw : w.Filed) (h : w.lookup src change = some (.ok s, u)) {org : OrgId}
    {m : Mask} (hchange : change.refresh? = some (org, m)) : s.org = org := by
  rw [lookup_eq, hchange] at h
  exact refresh_org hw (Option.some.inj h)

theorem onTables_filed (hw : w.Filed) (work : Connection → Worked Tally) :
    (w.onTables work).2.Filed := by
  unfold onTables
  split <;> exact hw

theorem withSnapshot_filed {found : Except AssetError Snapshot × World δ} (h : found.2.Filed)
    (work : Snapshot → Connection → Worked Tally) : (withSnapshot found work).2.Filed := by
  unfold withSnapshot
  split
  · exact h
  · exact onTables_filed h _

theorem reconcile_filed (hf : src.KeepFiled) (hw : w.Filed) (batch : Nat) (change : Change) :
    (w.reconcile src batch change).2.Filed := by
  cases change with
  | joined org => exact withSnapshot_filed ((get_within w).filed hf hw) _
  | left org => exact withSnapshot_filed ((get_within w).filed hf hw) _
  | valueSet org => exact withSnapshot_filed ((get_within w).filed hf hw) _
  | eventEdited org => exact withSnapshot_filed ((refresh_within _ w).filed hf hw) _
  | eventDropped event => exact onTables_filed hw _
  | contactsGone contacts => exact onTables_filed hw _

end World

/-! ## Whose fires there are -/

/-- Each contact is of its org, and so is the event of each fire of the contact. -/
structure Database.Parted (home : ContactId → OrgId) (events : OrgId → List EventId)
    (db : Database) : Prop where
  homes : db.Homes home
  owned : ∀ r ∈ db.fires, r.event ∈ events (home r.contact)

/-- The fire is of a contact of the org, and of one of its events. -/
def FireRow.isOf (home : ContactId → OrgId) (events : OrgId → List EventId) (org : OrgId)
    (r : FireRow) : Bool :=
  home r.contact == org && (events org).contains r.event

namespace Database.Parted

variable {home : ContactId → OrgId} {events events' : OrgId → List EventId} {db db' : Database}

theorem mono (h : db.Parted home events) (hsub : ∀ org, events org ⊆ events' org) :
    db.Parted home events' :=
  ⟨h.homes, fun r hr => hsub _ (h.owned r hr)⟩

theorem sublist (h : db.Parted home events) (hhomes : db'.Homes home)
    (hsub : db'.fires.Sublist db.fires) : db'.Parted home events :=
  ⟨hhomes, fun r hr => h.owned r (hsub.mem hr)⟩

/-- Fires are added for contacts of the org, and of its events only. -/
theorem write {org : OrgId} {adds : NewFire → Prop} {drops : EventId → Prop}
    (hadds : ∀ f, adds f → home f.contact = org ∧ f.event ∈ events org) {w : Connection.Write}
    (hw : w.Of adds drops) {c : Connection} (hc : c.db.Parted home events) :
    (c.write w).2.db.Parted home events := by
  constructor
  case homes =>
    rw [c.write_onlyFires w]
    exact hc.homes
  case owned =>
    intro r hr
    rcases Call.grows_of_within (hw.within hadds) c r hr with hr | ⟨f, ⟨horg, hevent⟩, id, rfl⟩
    · exact hc.owned r hr
    · show f.event ∈ events (home f.contact)
      rwa [horg]

/-- All fires of contacts of an org are of its own events. -/
theorem firesFor_eq (h : db.Parted home events) (org : OrgId) :
    db.firesFor home org = db.fires.filter (FireRow.isOf home events org) := by
  refine List.filter_congr fun r hr => ?_
  cases hhome : home r.contact == org with
  | false => simp [FireRow.isOf, hhome]
  | true =>
    have hevent := h.owned r hr
    rw [beq_iff_eq.1 hhome] at hevent
    simp [FireRow.isOf, hhome, hevent]

/-- If no event of one org is one of the other, then what is done to fires of one org spares all
fires of contacts of the other. -/
theorem write_firesFor {org other : OrgId} (hne : org ≠ other)
    (hapart : ∀ e ∈ events org, e ∉ events other) {adds : NewFire → Prop} {drops : EventId → Prop}
    (hadds : ∀ f, adds f → home f.contact = org) (hdrops : ∀ e, drops e → e ∈ events org)
    {w : Connection.Write} (hw : w.Of adds drops) {c : Connection} (hc : c.db.Parted home events)
    (hc' : (c.write w).2.db.Parted home events) :
    (c.write w).2.db.firesFor home other = c.db.firesFor home other := by
  rw [hc.firesFor_eq, hc'.firesFor_eq]
  refine Connection.write_spares (fun f hf id => ?_) (fun r hr => ?_) hw c
  · have hhome : ¬ home f.contact = other := fun h => hne ((hadds f hf).symm.trans h)
    simp [FireRow.isOf, NewFire.row, hhome]
  · have hevent := hapart _ (hdrops _ hr)
    simp [FireRow.isOf, hevent]

end Database.Parted

namespace Visit

variable {src : Sources δ} {home : ContactId → OrgId} {log : List (Visit δ)} {v : Visit δ}
  {org : OrgId}

theorem events_subset (hv : v ∈ log) (horg : v.org? = some org) :
    v.events src ⊆ eventsFor src log org := by
  intro e he
  exact List.mem_flatMap.2 ⟨v, List.mem_filter.2 ⟨hv, by simp [horg]⟩, he⟩

/-- A fire is added for a contact of the org that the change is for, and of an event that is looked
up for it. Fires of other events are not deleted. -/
theorem calls_of_org (hk : src.KeepTables) (hv : v ∈ log) (horg : v.org? = some org)
    (hfiled : v.world.Filed) (hhomes : ∀ db ∈ v.world.tables.copies, db.Homes home) :
    Call.Balanced (Connection.Write.Of
      (fun f => home f.contact = org ∧ f.event ∈ eventsFor src log org)
      (· ∈ eventsFor src log org)) (v.calls src) := by
  obtain ⟨⟨o, m⟩, hchange, rfl⟩ := Option.map_eq_some_iff.1 horg
  have hfound {s : Snapshot} {u : World δ}
      (hs : v.world.lookup src v.change = some (.ok s, u)) {ev : Event}
      (hev : ev ∈ allEvents s.campaigns) : ev.id ∈ eventsFor src log o := by
    refine events_subset hv horg ?_
    simp only [events, hs]
    exact List.mem_map_of_mem hev
  have hcalls := v.world.calls_balanced src v.batch v.change (fun x => home x = o) ?_
  · refine hcalls.mono fun w hw => hw.mono ?_ ?_
    · rintro f ⟨⟨now, -, s, u, hs, ev, hev, hid, -⟩, hx⟩
      exact ⟨hx, hid ▸ hfound hs hev⟩
    · rintro e (hnone | ⟨s, u, hs, ev, hev, rfl⟩)
      · rw [hchange] at hnone
        cases hnone
      · exact hfound hs hev
  · intro s u hs o' ho' db hdb r hr hro
    have ho : o' = o := by
      rcases ho' with rfl | ⟨m', hm'⟩
      · exact World.lookup_org hfiled hs hchange
      · rw [hchange] at hm'
        cases hm'
        rfl
    rw [show u.tables = v.world.tables from World.lookup_tables hk hs] at hdb
    exact (hhomes db hdb r hr).trans (hro.trans ho)

theorem after_tables (hk : src.KeepTables) (v : Visit δ) :
    (v.after src).tables = Call.follow (v.calls src) v.world.tables :=
  World.reconcile_follows hk v.batch v.change v.world

/-- Each fire stays one of an event of its contact's org. -/
theorem parted_after (hk : src.KeepTables) (hv : v ∈ log) (horg : v.org? = some org)
    (hfiled : v.world.Filed)
    (hparted : ∀ db ∈ v.world.tables.copies, db.Parted home (eventsFor src log)) :
    ∀ db ∈ (v.after src).tables.copies, db.Parted home (eventsFor src log) := by
  have hcalls := calls_of_org hk hv horg hfiled fun db hdb => (hparted db hdb).homes
  obtain ⟨-, hlast, hsaved⟩ := hcalls.keeps
    (fun w c hw hc => hc.write (fun f hf => hf) hw) (hparted _ List.mem_cons_self)
  rw [← after_tables hk] at hlast hsaved
  exact Connection.forall_copies_of_saved (fun _ => hlast) hsaved hparted

/-- Fires of contacts of another org stay as they are. -/
theorem firesFor_calls (hk : src.KeepTables) (hv : v ∈ log) (horg : v.org? = some org)
    (hfiled : v.world.Filed)
    (hparted : ∀ db ∈ v.world.tables.copies, db.Parted home (eventsFor src log)) {other : OrgId}
    (hne : org ≠ other) (hapart : ∀ e ∈ eventsFor src log org, e ∉ eventsFor src log other) :
    (∀ c ∈ Call.path (v.calls src) v.world.tables,
      c.db.firesFor home other = v.world.tables.db.firesFor home other) ∧
      (v.after src).tables.db.firesFor home other = v.world.tables.db.firesFor home other := by
  have hcalls := calls_of_org hk hv horg hfiled fun db hdb => (hparted db hdb).homes
  have hstep (w : Connection.Write) (c : Connection)
      (hw : w.Of (fun f => home f.contact = org ∧ f.event ∈ eventsFor src log org)
        (· ∈ eventsFor src log org))
      (hc : c.db.Parted home (eventsFor src log) ∧
        c.db.firesFor home other = v.world.tables.db.firesFor home other) :
      (c.write w).2.db.Parted home (eventsFor src log) ∧
        (c.write w).2.db.firesFor home other = v.world.tables.db.firesFor home other := by
    have hnext := hc.1.write (fun f hf => hf) hw
    exact ⟨hnext, (hc.1.write_firesFor hne hapart (fun f hf => hf.1) (fun e he => he) hw
      hnext).trans hc.2⟩
  obtain ⟨hpath, hlast, -⟩ := hcalls.keeps (p := fun db => db.Parted home (eventsFor src log) ∧
    db.firesFor home other = v.world.tables.db.firesFor home other) hstep
    ⟨hparted _ List.mem_cons_self, rfl⟩
  rw [after_tables hk]
  exact ⟨fun c hc => (hpath c hc).2, hlast.2⟩

end Visit

theorem eventsFor_append (src : Sources δ) (log log' : List (Visit δ)) (org : OrgId) :
    eventsFor src log org ⊆ eventsFor src (log ++ log') org := by
  simp [eventsFor]

section Runs

variable {src : Sources δ} {home : ContactId → OrgId} {start w : World δ} {log : List (Visit δ)}

/-- Throughout a run each fire is of an event of its contact's org, as far as events were looked up
until then; snapshots are kept under their orgs. -/
theorem Visits.parted (hk : src.KeepTables) (hf : src.KeepFiled) (h : Visits src home start log w)
    (hfiled : start.Filed) (hhomes : start.tables.db.Homes home)
    (hfires : start.tables.db.fires = []) (hsaved : start.tables.saved = []) :
    (w.Filed ∧ ∀ db ∈ w.tables.copies, db.Parted home (eventsFor src log)) ∧
      ∀ v ∈ log, v.world.Filed ∧
        ∀ db ∈ v.world.tables.copies, db.Parted home (eventsFor src log) := by
  induction h with
  | here =>
    refine ⟨⟨hfiled, ?_⟩, by simp⟩
    rw [Connection.copies_of_saved_eq_nil hsaved]
    refine List.forall_mem_singleton.2 ⟨hhomes, ?_⟩
    simp [hfires]
  | @visit log w _ batch change hchange ih =>
    obtain ⟨⟨hnow, hparted⟩, hbefore⟩ := ih
    let v : Visit δ := ⟨w, batch, change⟩
    have hmore {db : Database} (hdb : db.Parted home (eventsFor src log)) :
        db.Parted home (eventsFor src (log ++ [v])) :=
      hdb.mono (eventsFor_append src log [v])
    obtain ⟨⟨org, m⟩, horg⟩ := Option.ne_none_iff_exists'.1 hchange
    have hv : v ∈ log ++ [v] := List.mem_append_right _ (List.mem_singleton.2 rfl)
    have hthen := fun db hdb => hmore (hparted db hdb)
    refine ⟨⟨World.reconcile_filed hf hnow batch change, ?_⟩, ?_⟩
    · exact Visit.parted_after hk hv (congrArg (Option.map Prod.fst) horg) hnow hthen
    · refine List.forall_mem_append.2 ⟨fun u hu => ?_, List.forall_mem_singleton.2 ⟨hnow, hthen⟩⟩
      obtain ⟨hu, hcopies⟩ := hbefore u hu
      exact ⟨hu, fun db hdb => hmore (hcopies db hdb)⟩
  | @transaction log w _ k hend ih =>
    obtain ⟨⟨hnow, hparted⟩, hbefore⟩ := ih
    refine ⟨⟨hnow, Connection.forall_copies_run k _ (fun w hw => ?_) hparted⟩, hbefore⟩
    rcases hend with rfl | rfl | rfl <;> cases hw
  | elsewhere _ hfiled hhomes hfires hsaved ih =>
    obtain ⟨⟨-, hparted⟩, hbefore⟩ := ih
    refine ⟨⟨hfiled, ?_⟩, hbefore⟩
    exact Connection.forall_copies_of_saved (fun hdb => hdb.sublist hhomes hfires) hsaved hparted

/-- From a table without fires on, while contacts stay in their orgs and the scheduler is told of
nothing but changes for orgs: if no event of a snapshot of one org is one of a snapshot of another,
then whatever the scheduler is told for the one, with any contacts, it does not add, change or
delete a fire of a contact of the other, at any moment of its work. -/
theorem Visits.others_untouched (hk : src.KeepTables) (hf : src.KeepFiled)
    (h : Visits src home start log w) (hfiled : start.Filed) (hhomes : start.tables.db.Homes home)
    (hfires : start.tables.db.fires = []) (hsaved : start.tables.saved = []) {org other : OrgId}
    (hne : org ≠ other) (hapart : ∀ e ∈ eventsFor src log org, e ∉ eventsFor src log other) :
    ∀ v ∈ log, v.org? = some org →
      (∀ c ∈ Call.path (v.calls src) v.world.tables,
        c.db.firesFor home other = v.world.tables.db.firesFor home other) ∧
        (v.after src).tables.db.firesFor home other = v.world.tables.db.firesFor home other := by
  intro v hv horg
  obtain ⟨hnow, hparted⟩ := (h.parted hk hf hfiled hhomes hfires hsaved).2 v hv
  exact Visit.firesFor_calls hk hv horg hnow hparted hne hapart

end Runs

section

open Sample

/-- A campaign of another org for the group. -/
def Sample.neighbourCampaign : Campaign := ⟨2, .ofNat 2, "Others", 5, [{ reminder with id := 20 }]⟩

def Sample.apart : Sources Unit :=
  .fixed fun org => OrgData.set {} .campaigns [if org = 1 then campaign else neighbourCampaign]

/-- Both orgs have a contact in the group. -/
def Sample.neighbours : World Unit :=
  .ofTables { db := { contacts := [contact, another 2 2 true], members := [⟨5, 1⟩, ⟨5, 2⟩] } }

/-- Both contacts join for both orgs, then both leave for the first: only the fire of the first
contact is deleted. -/
theorem Visits.neighbour_untouched :
    let second : Visit Unit := ⟨neighbours, 100, .joined 2 5 [1, 2] midnight⟩
    let first : Visit Unit := ⟨second.after apart, 100, .joined 1 5 [1, 2] midnight⟩
    let left : Visit Unit := ⟨first.after apart, 100, .left 1 5 [1, 2]⟩
    left.world.tables.db.fires = [⟨1, 20, 2, "2024-01-01T01:00:00.000Z", none, none⟩,
        ⟨2, 10, 1, "2024-01-01T01:00:00.000Z", none, none⟩] ∧
      (left.after apart).tables.db.firesFor id 2 =
        [⟨1, 20, 2, "2024-01-01T01:00:00.000Z", none, none⟩] ∧
      (left.after apart).tables.db.firesFor id 1 = [] := by
  intro second first left
  have hk : apart.KeepTables := fun _ _ _ => rfl
  have hf : apart.KeepFiled := ⟨fun _ _ _ hw => hw, fun _ _ _ hw => hw⟩
  have hrun : Visits apart id neighbours [second, first, left] (left.after apart) :=
    .visit (.visit (.visit .here 100 (.joined 2 5 [1, 2] midnight) (by decide)) 100
      (.joined 1 5 [1, 2] midnight) (by decide)) 100 (.left 1 5 [1, 2]) (by decide)
  have hfiled : neighbours.Filed := fun org s hs => by cases hs
  have hhomes : neighbours.tables.db.Homes id := by
    unfold Database.Homes
    decide
  have hapart : ∀ e ∈ eventsFor apart [second, first, left] 1,
      e ∉ eventsFor apart [second, first, left] 2 := by
    decide +kernel
  obtain ⟨-, hsame⟩ := hrun.others_untouched hk hf hfiled hhomes rfl rfl (by decide) hapart left
    (by simp) rfl
  refine ⟨by decide +kernel, ?_, by decide +kernel⟩
  rw [hsame]
  decide +kernel

end

end Outreach
