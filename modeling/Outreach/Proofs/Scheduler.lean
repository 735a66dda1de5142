import Outreach.Proofs.Asset.View
import Outreach.Proofs.Cache
import Outreach.Proofs.Reconcile.Effect
import Outreach.Scheduler

/-!
# Outreach.Proofs.Scheduler

What the scheduler does about a change: the work it does on the tables, with the zone and the
events it finds.

* `Renewal` — the changes after which fires are computed anew for contacts.
* `World.recompute_of_renewal`, `World.left_of_ok`, `World.contactsGone_of_ok`,
  `World.eventEdited_of_ok` — the work of each change.
* `World.reconcile_frame` — whatever comes of it, nothing but fires is touched.
-/

namespace Outreach

/-- The org whose assets are looked up for a change. -/
def Change.org? : Change → Option OrgId
  | .joined org _ _ _ => some org
  | .left org _ _ => some org
  | .valueSet org _ _ _ => some org
  | .eventEdited org _ _ => some org
  | .eventDropped _ => none
  | .contactsGone _ => none

/-! ## Renewals -/

/-- The changes after which fires are computed anew for contacts. -/
inductive Renewal where
  | joined (group : GroupId)
  | valueSet (key : String)

namespace Renewal

/-- The change, for some contacts of the org, at a time. -/
def change (org : OrgId) (contacts : List ContactId) (now : Instant) : Renewal → Change
  | joined group => .joined org group contacts now
  | valueSet key => .valueSet org key contacts now

/-- The events that it concerns. -/
def events (v : View) : Renewal → List Event
  | joined group => v.eventsOf group
  | valueSet key => v.eventsRelativeTo key

/-- The event is at home in the group, or relative to the key. -/
def concerns : Renewal → Event → Bool
  | joined group, ev => ev.home.any fun home => home.group == group
  | valueSet key, ev => ev.spec.relativeTo.key == key

/-- The pairs of an event that it concerns, out of `evs`, with one of the contacts. -/
def pairs (r : Renewal) (evs : List Event) (contacts : List ContactId) :
    EventId → ContactId → Bool :=
  Database.pairsWith ((evs.filter r.concerns).map Event.id).contains contacts

theorem events_ofCampaigns (r : Renewal) (cs : List Campaign) :
    r.events (View.ofCampaigns cs) = (allEvents cs).filter r.concerns := by
  cases r with
  | joined group =>
    rw [events, View.eventsOf_ofCampaigns]
    induction cs with
    | nil => rfl
    | cons c cs ih =>
      have hone : c.events.filter (concerns (.joined group)) =
          if c.group == group then c.events else [] := by
        have hhome : ∀ ev ∈ c.events, concerns (.joined group) ev = (c.group == group) := by
          intro ev hev
          obtain ⟨s, -, rfl⟩ := List.mem_map.1 hev
          rfl
        rw [List.filter_congr hhome]
        cases c.group == group <;> simp
      simp only [allEvents, List.flatMap_cons, List.filter_append, List.filter_cons, hone] at ih ⊢
      rw [← ih]
      split <;> simp
  | valueSet key => exact View.eventsRelativeTo_ofCampaigns cs key

theorem nodup_ids {evs : List Event} (hids : (evs.map Event.id).Nodup) (r : Renewal) :
    ((evs.filter r.concerns).map Event.id).Nodup :=
  hids.sublist (List.filter_sublist.map Event.id)

end Renewal

namespace World

variable {δ : Type} {src : Sources δ} {org : OrgId} {z : Zone} {cs : List Campaign}
  {w w' : World δ} {batch : Nat} {tally : Tally} {now : Instant}

/-! ## Work with a snapshot -/

theorem onTables_of_ok {work : Connection → Worked Tally} (h : w.onTables work = (.ok tally, w')) :
    work w.tables = (.ok tally, w'.tables) := by
  unfold onTables at h
  split at h
  · rename_i hwork
    cases h
    exact hwork
  · cases h

theorem onTables_serves (work : Connection → Worked Tally) (hw : w.Serves org z cs) :
    (w.onTables work).2.Serves org z cs := by
  unfold onTables
  split <;> exact hw

theorem withSnapshot_of_error {found : Except AssetError Snapshot × World δ} {s : Snapshot}
    {w₁ : World δ} {work : Snapshot → Connection → Worked Tally} {f : Fault ReconcileError}
    {c : Connection} (hfound : found = (.ok s, w₁)) (h : work s w₁.tables = (.error f, c)) :
    withSnapshot found work = (.error (SchedulerError.ofReconcile f), { w₁ with tables := c }) := by
  simp only [withSnapshot, hfound, onTables, h]

theorem withSnapshot_serves {found : Except AssetError Snapshot × World δ}
    (hf : Steadied org z cs w found) (work : Snapshot → Connection → Worked Tally) :
    (withSnapshot found work).2.Serves org z cs := by
  obtain ⟨-, hserves, -⟩ := hf
  unfold withSnapshot
  split
  · exact hserves
  · exact onTables_serves _ hserves

/-- Work that needs a snapshot finds the zone and the campaigns. -/
theorem withSnapshot_of_ok {found : Except AssetError Snapshot × World δ}
    (hf : Finds org z cs w found) {work : Snapshot → Connection → Worked Tally}
    (h : withSnapshot found work = (.ok tally, w')) :
    ∃ s : Snapshot, s.org = org ∧ s.zone = z ∧ s.view = View.ofCampaigns cs ∧
      work s w.tables = (.ok tally, w'.tables) := by
  obtain ⟨htables, hsnap⟩ := hf
  unfold withSnapshot at h
  split at h
  · cases h
  · rename_i s w₁
    obtain ⟨horg, hz, hcs⟩ := hsnap s rfl
    refine ⟨s, horg, hz, congrArg View.ofCampaigns hcs, ?_⟩
    rw [← show w₁.tables = w.tables from htables]
    exact onTables_of_ok h

theorem onTables_frame {work : Connection → Worked Tally}
    (hwork : ∀ c : Connection, c.Frame (work c).2) (w : World δ) :
    w.tables.Frame (w.onTables work).2.tables := by
  unfold onTables
  split <;> (rename_i h; exact (hwork w.tables).of_eq h)

theorem withSnapshot_frame {found : Except AssetError Snapshot × World δ}
    (hf : found.2.tables = w.tables) {work : Snapshot → Connection → Worked Tally}
    (hwork : ∀ s (c : Connection), c.Frame (work s c).2) :
    w.tables.Frame (withSnapshot found work).2.tables := by
  rw [← hf]
  unfold withSnapshot
  split
  · exact .refl _
  · rename_i s w₁
    exact onTables_frame (hwork s) w₁

/-- Whatever comes of it, telling the scheduler of a change touches nothing but fires. -/
theorem reconcile_frame (hk : src.KeepTables) (batch : Nat) (change : Change) (w : World δ) :
    w.tables.Frame (w.reconcile src batch change).2.tables := by
  cases change with
  | joined org group contacts now =>
    exact withSnapshot_frame (get_tables hk org w) fun s c =>
      Connection.frame_recompute batch _ contacts c
  | left org group contacts =>
    exact withSnapshot_frame (get_tables hk org w) fun s c =>
      Connection.frame_withdraw batch _ contacts c
  | valueSet org key contacts now =>
    exact withSnapshot_frame (get_tables hk org w) fun s c =>
      Connection.frame_recompute batch _ contacts c
  | eventEdited org event now =>
    refine withSnapshot_frame (refresh_tables hk org _ w) fun s c => ?_
    unfold scheduleIn
    split
    · exact Connection.frame_scheduleEvent _ _ c
    · exact .refl c
  | eventDropped event => exact onTables_frame (Connection.frame_dropEvent event) w
  | contactsGone contacts =>
    exact onTables_frame (Connection.frame_withdrawAll batch contacts) w

/-! ## Change by change -/

theorem recompute_of_renewal (hf : Finds org z cs w (w.get src org)) {r : Renewal}
    {contacts : List ContactId}
    (h : w.reconcile src batch (r.change org contacts now) = (.ok tally, w')) :
    w.tables.recompute batch org z (r.events (View.ofCampaigns cs)) contacts now =
      (.ok tally, w'.tables) := by
  cases r with
  | joined group =>
    obtain ⟨s, -, rfl, hview, hwork⟩ := withSnapshot_of_ok hf h
    rw [← hview]
    exact hwork
  | valueSet key =>
    obtain ⟨s, -, rfl, hview, hwork⟩ := withSnapshot_of_ok hf h
    rw [← hview]
    exact hwork

theorem renewal_of_ok (hs : src.Steady org z cs) (hw : w.Serves org z cs) {r : Renewal}
    {contacts : List ContactId}
    (h : w.reconcile src batch (r.change org contacts now) = (.ok tally, w')) :
    w.tables.recompute batch org z (r.events (View.ofCampaigns cs)) contacts now =
      (.ok tally, w'.tables) :=
  recompute_of_renewal (get_steady hs hw).finds h

theorem frame_renewal (hf : Finds org z cs w (w.get src org)) {r : Renewal}
    {contacts : List ContactId}
    (h : w.reconcile src batch (r.change org contacts now) = (.ok tally, w')) :
    w.tables.Frame w'.tables :=
  .of_eq (Connection.frame_recompute batch _ contacts w.tables) (recompute_of_renewal hf h)

/-- A renewal that succeeds replaces the fires of its pairs. -/
theorem renews_renewal (hk : w.tables.db.Keyed) (hf : Finds org z cs w (w.get src org))
    {r : Renewal} {contacts : List ContactId}
    (h : w.reconcile src batch (r.change org contacts now) = (.ok tally, w')) :
    Database.Renews org z now ((allEvents cs).filter r.concerns)
      (((allEvents cs).filter r.concerns).map Event.id).contains contacts tally w.tables.db
      w'.tables.db := by
  have hrun := recompute_of_renewal hf h
  rw [r.events_ofCampaigns cs] at hrun
  exact Connection.renews_recompute hk hrun

/-- A renewal leaves the events that it concerns the fires that they have by what is stored. -/
theorem pendingAt_renewal (hids : ((allEvents cs).map Event.id).Nodup)
    (hk : w.tables.db.Keyed) (hf : Finds org z cs w (w.get src org)) {r : Renewal}
    {contacts : List ContactId}
    (h : w.reconcile src batch (r.change org contacts now) = (.ok tally, w')) {ev : Event}
    (hev : ev ∈ allEvents cs) (hconcerns : r.concerns ev = true) {x : ContactId}
    (hx : x ∈ contacts) (text : String) :
    w'.tables.db.PendingAt ev.id x text ↔
      ∃ t, w.tables.db.FiresAt org z now ev x t ∧ t.toStored = text := by
  have hev' : ev ∈ (allEvents cs).filter r.concerns := List.mem_filter.2 ⟨hev, hconcerns⟩
  have hpair : Database.pairsWith (((allEvents cs).filter r.concerns).map Event.id).contains
      contacts ev.id x = true :=
    Database.pairsWith_iff.2 ⟨List.contains_iff_mem.2 (List.mem_map_of_mem hev'), hx⟩
  rw [(renews_renewal hk hf h).replaced.inside ev.id x text hpair]
  simp only [Database.picks_iff_firesAt (Renewal.nodup_ids hids r) hev']

theorem left_of_ok (hf : Finds org z cs w (w.get src org)) {group : GroupId}
    {contacts : List ContactId}
    (h : w.reconcile src batch (.left org group contacts) = (.ok tally, w')) :
    w.tables.withdraw batch (((View.ofCampaigns cs).eventsOf group).map Event.id) contacts =
      (.ok tally, w'.tables) := by
  obtain ⟨s, -, rfl, hview, hwork⟩ := withSnapshot_of_ok hf h
  rw [← hview]
  exact hwork

theorem contactsGone_of_ok {contacts : List ContactId}
    (h : w.reconcile src batch (.contactsGone contacts) = (.ok tally, w')) :
    w.tables.withdrawAll batch contacts = (.ok tally, w'.tables) :=
  onTables_of_ok h

/-- An event can be edited only if it is there. -/
theorem eventEdited_of_ok {e : EventId}
    (hf : Finds org z cs w (w.refresh src org (.of (.part .campaigns))))
    (h : w.reconcile src batch (.eventEdited org e now) = (.ok tally, w')) :
    ∃ spec home, ⟨spec, some home⟩ ∈ allEvents cs ∧ spec.id = e ∧
      w.tables.scheduleEvent org z spec home.group now = (.ok tally, w'.tables) := by
  obtain ⟨s, rfl, rfl, hview, hwork⟩ := withSnapshot_of_ok hf h
  unfold scheduleIn at hwork
  split at hwork
  · rename_i spec home hevent
    rw [hview] at hevent
    obtain ⟨hmem, hid⟩ := View.mem_of_event? hevent
    exact ⟨spec, home, hmem, hid, hwork⟩
  · cases hwork

theorem reconcile_serves (hs : src.Steady org z cs) (hw : w.Serves org z cs) (batch : Nat)
    (change : Change) (hc : ∀ o ∈ change.org?, o = org) :
    (w.reconcile src batch change).2.Serves org z cs := by
  cases change with
  | joined o group contacts now =>
    obtain rfl : o = org := hc o rfl
    exact withSnapshot_serves (get_steady hs hw) _
  | left o group contacts =>
    obtain rfl : o = org := hc o rfl
    exact withSnapshot_serves (get_steady hs hw) _
  | valueSet o key contacts now =>
    obtain rfl : o = org := hc o rfl
    exact withSnapshot_serves (get_steady hs hw) _
  | eventEdited o event now =>
    obtain rfl : o = org := hc o rfl
    exact withSnapshot_serves (refresh_steady hs _ hw) _
  | eventDropped event => exact onTables_serves _ hw
  | contactsGone contacts => exact onTables_serves _ hw

end World

/-! ## One event and one contact -/

namespace Sample

/-- An hour after a contact is created. -/
def reminder : EventSpec :=
  ⟨10, .ofNat 10, 1, .hours, none, .createdOn, .interrupt, 1⟩

def campaign : Campaign := ⟨1, .ofNat 1, "Reminders", 5, [reminder]⟩

/-- Every org has the campaign and nothing else. -/
def sources : Sources Unit := .fixed fun _ => OrgData.set {} .campaigns [campaign]

/-- Midnight of the first day of 2024. -/
def midnight : Instant := ⟨1704067200, 0⟩

def minutesLater (n : Nat) : Instant := ⟨midnight.seconds + n * 60, 0⟩

def contact : ContactRow :=
  ⟨1, 1, (Uuid.ofNat 1).toString, "2024-01-01T00:00:00Z", none, true⟩

/-- Another contact that is created at midnight. -/
def another (x : ContactId) (org : OrgId) (active : Bool) : ContactRow :=
  { contact with id := x, org, uuid := (Uuid.ofNat x.toNat).toString, active }

/-- The contact is in the group of the campaign, and nothing is scheduled yet. -/
def world : World Unit := .ofTables { db := { contacts := [contact], members := [⟨5, 1⟩] } }

/-- In the group and created at midnight, the contact is reminded at one o'clock. -/
theorem reminder_due {db : Database} (hcontact : contact ∈ db.contacts)
    (hmember : ⟨5, 1⟩ ∈ db.members) :
    db.Due 1 Zone.utc ⟨reminder, some ⟨1, 5⟩⟩ 1 (minutesLater 60) := by
  refine ⟨⟨1, 5⟩, rfl, hmember, midnight, ⟨contact, hcontact, rfl, rfl, ?_⟩, ?_⟩
  · show Instant.ofStored? (some contact.createdOn) = .ok (some midnight)
    decide +kernel
  · decide +kernel

theorem stored_sixty : (minutesLater 60).toStored = "2024-01-01T01:00:00.000Z" := by
  decide +kernel

theorem sources_steady : sources.Steady 1 Zone.utc [campaign] :=
  Sources.steady_fixed _ 1

/-- Whatever the tables hold, the campaign is found. -/
theorem finds_campaign (c : Connection) :
    World.Finds 1 Zone.utc [campaign] (.ofTables c) ((World.ofTables c).get sources 1) :=
  (World.get_steady sources_steady (World.serves_ofTables _ _ _ _)).finds

end Sample

end Outreach
