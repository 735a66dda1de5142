import Outreach.Proofs.Scheduler

/-!
# Outreach.Proofs.Reconcile.Agreement

Two ways to compute the fires of an event come to the same: for all members of its group at once,
from one list of dates, and contact by contact, from all that is known of each.

`World.scheduled_iff_recomputed`: with the event's pending fires dropped first, recomputing the
events of the group for any contacts that include the members leaves the event the pending fires
that scheduling it leaves: those at the times at which it fires by what is stored.
-/

namespace Outreach

namespace Database

/-- Only an active contact of the org that is in the group of the event's campaign has a fire. -/
theorem FiresAt.exists_member {db : Database} {org : OrgId} {z : Zone} {now : Instant}
    {spec : EventSpec} {home : Home} {x : ContactId} {t : Instant}
    (h : db.FiresAt org z now ⟨spec, some home⟩ x t) :
    ∃ r ∈ db.membersOf org home.group, r.id = x := by
  obtain ⟨home', hhome, hmember, start, ⟨r, hr, rfl, hactive, -⟩, -⟩ := h
  cases hhome
  exact ⟨r, mem_membersOf.2 ⟨hr, hactive, hmember⟩, rfl⟩

end Database

namespace World

variable {δ : Type} {src : Sources δ} {org : OrgId} {z : Zone} {cs : List Campaign}
  {w w' : World δ} {batch : Nat} {tally : Tally} {now : Instant} {spec : EventSpec} {home : Home}

/-- Scheduling an event leaves it the fires that it has by what is stored. -/
theorem pendingAt_eventEdited (hids : ((allEvents cs).map Event.id).Nodup)
    (hev : ⟨spec, some home⟩ ∈ allEvents cs) (hk : w.tables.db.Keyed)
    (hw : w.Current src org z cs)
    (h : w.reconcile src batch (.eventEdited org spec.id now) = (.ok tally, w'))
    (x : ContactId) (text : String) :
    w'.tables.db.PendingAt spec.id x text ↔
      ∃ t, w.tables.db.FiresAt org z now ⟨spec, some home⟩ x t ∧ t.toStored = text := by
  obtain ⟨spec', home', hev', hid, hrun⟩ := eventEdited_of_ok hw.finds_refresh h
  have hsame : (⟨spec', some home'⟩ : Event) = ⟨spec, some home⟩ :=
    List.inj_on_of_nodup_map hids hev' hev hid
  cases hsame
  rw [(Connection.redone_scheduleEvent hk hrun).inside spec.id x text rfl]
  exact exists_congr fun t => and_congr_left fun _ =>
    Database.picks_iff_firesAt (by simp) (List.mem_singleton_self (⟨spec, some home⟩ : Event))

/-- Recomputing the events of a group for its members, and perhaps others, leaves an event the
fires that it has by what is stored, provided it had none before. -/
theorem pendingAt_joined (hids : ((allEvents cs).map Event.id).Nodup)
    (hev : ⟨spec, some home⟩ ∈ allEvents cs) (hk : w.tables.db.Keyed)
    (hw : w.Current src org z cs) {contacts : List ContactId}
    (hmembers : ∀ r ∈ w.tables.db.membersOf org home.group, r.id ∈ contacts)
    (hnone : ∀ x text, ¬ w.tables.db.PendingAt spec.id x text)
    (h : w.reconcile src batch (.joined org home.group contacts now) = (.ok tally, w'))
    (x : ContactId) (text : String) :
    w'.tables.db.PendingAt spec.id x text ↔
      ∃ t, w.tables.db.FiresAt org z now ⟨spec, some home⟩ x t ∧ t.toStored = text := by
  have hconcerns : (Renewal.joined home.group).concerns ⟨spec, some home⟩ = true := by
    simp [Renewal.concerns]
  by_cases hx : x ∈ contacts
  · exact pendingAt_renewal (r := .joined home.group) hids hk hw.finds_get h hev hconcerns hx text
  · -- who is not listed is no member, so there is no fire for him either way
    have hkept := (renews_renewal (r := .joined home.group) hk hw.finds_get h).replaced.redone
    rw [hkept.outside spec.id x text fun h => hx (Database.pairsWith_iff.1 h).2]
    refine ⟨fun hp => absurd hp (hnone x text), ?_⟩
    rintro ⟨t, ht, -⟩
    obtain ⟨r, hr, rfl⟩ := ht.exists_member
    exact absurd (hmembers r hr) hx

/-- The second way starts where the event's pending fires have been dropped, perhaps later and
elsewhere, with the same assets. -/
theorem scheduled_iff_recomputed (hids : ((allEvents cs).map Event.id).Nodup)
    (hev : ⟨spec, some home⟩ ∈ allEvents cs) {u u' : World δ} {batch' n : Nat} {tally' : Tally}
    {contacts : List ContactId} (hk : w.tables.db.Keyed)
    (hw : w.Current src org z cs) (hu : u.Current src org z cs)
    (hone : w.reconcile src batch (.eventEdited org spec.id now) = (.ok tally, w'))
    (hdelete : w.tables.write (.deleteOfEvent spec.id) = (.ok n, u.tables))
    (hmembers : ∀ r ∈ w.tables.db.membersOf org home.group, r.id ∈ contacts)
    (hall : u.reconcile src batch' (.joined org home.group contacts now) = (.ok tally', u'))
    (x : ContactId) (text : String) :
    (w'.tables.db.PendingAt spec.id x text ↔ u'.tables.db.PendingAt spec.id x text) ∧
      (u'.tables.db.PendingAt spec.id x text ↔
        ∃ t, w.tables.db.FiresAt org z now ⟨spec, some home⟩ x t ∧ t.toStored = text) := by
  obtain ⟨-, hdb⟩ := Database.deletePendingOfEvent_of_ok (Connection.alter_of_ok hdelete)
  have honly : w.tables.db.OnlyFires u.tables.db := hdb ▸ Database.onlyFires_withoutPending _ _
  have hmembers' : ∀ r ∈ u.tables.db.membersOf org home.group, r.id ∈ contacts := by
    rw [honly]
    exact hmembers
  have hnone : ∀ x text, ¬ u.tables.db.PendingAt spec.id x text := by
    intro x text hp
    rw [hdb, Database.pendingAt_withoutPending] at hp
    simp at hp
  have hfirst := pendingAt_eventEdited hids hev hk hw hone x text
  have hsecond := pendingAt_joined hids hev (honly.keyed hk) hu hmembers' hnone hall x text
  simp only [honly.firesAt_iff] at hsecond
  exact ⟨hfirst.trans hsecond.symm, hsecond⟩

end World

section

namespace Sample

/-- An hour after the date in the field. -/
def followUp : EventSpec :=
  ⟨12, .ofNat 12, 1, .hours, none, .field "visit", .interrupt, 1⟩

def clinic : List Campaign :=
  [⟨1, .ofNat 1, "Visits", 5, [followUp]⟩, ⟨2, .ofNat 2, "Reminders", 6, [reminder]⟩]

def clinicSources : Sources Unit := .fixed fun _ => OrgData.set {} .campaigns clinic

/-- Of the members of the group the first is active in the org, the second inactive and the third
of another org. The fourth contact is not a member. -/
def patients : Database :=
  { contacts := [contact, another 2 1 false, another 3 2 true, another 4 1 true]
    members := [⟨5, 1⟩, ⟨5, 2⟩, ⟨5, 3⟩]
    values := [1, 2, 3, 4].map fun x => ⟨x, "visit", "January", some "2024-01-31T23:30:00Z"⟩
    fires := [⟨1, 12, 2, "2024-01-01T01:00:00.000Z", none, none⟩] }

theorem current_clinic (c : Connection) :
    (World.ofTables c).Current clinicSources 1 Zone.utc clinic :=
  World.current_of_steady (Sources.steady_fixed _ 1) (World.serves_ofTables _ _ _ _)

end Sample

open Sample

/-- By either way the first patient gets a fire and the second loses his. -/
theorem World.scheduled_iff_recomputed_of_visit :
    let w := World.ofTables { db := patients }
    let w' := (w.reconcile clinicSources 0 (.eventEdited 1 12 midnight)).2
    let u := World.ofTables (w.tables.write (.deleteOfEvent 12)).2
    let u' := (u.reconcile clinicSources 1 (.joined 1 5 [4, 2, 1, 1] midnight)).2
    (w'.tables.db.PendingAt 12 1 "2024-02-01T00:30:00.000Z" ∧
      u'.tables.db.PendingAt 12 1 "2024-02-01T00:30:00.000Z") ∧
      ∀ text, ¬ w'.tables.db.PendingAt 12 2 text ∧ ¬ u'.tables.db.PendingAt 12 2 text := by
  intro w w' u u'
  have hone : w.reconcile clinicSources 0 (.eventEdited 1 12 midnight) = (.ok ⟨1, 1⟩, w') :=
    Prod.ext (by decide +kernel) rfl
  have hdelete : w.tables.write (.deleteOfEvent 12) = (.ok 1, u.tables) :=
    Prod.ext (by decide +kernel) rfl
  have hall : u.reconcile clinicSources 1 (.joined 1 5 [4, 2, 1, 1] midnight) =
      (.ok ⟨1, 2⟩, u') :=
    Prod.ext (by decide +kernel) rfl
  have hevent : (⟨followUp, some ⟨1, 5⟩⟩ : Event) ∈ allEvents clinic := by decide
  have hagree (x : ContactId) (text : String) := World.scheduled_iff_recomputed (by decide)
    hevent ⟨by decide, by decide⟩ (current_clinic _) (current_clinic _) hone hdelete
    (by decide +kernel) hall x text
  refine ⟨?_, fun text => ?_⟩
  · have hvisit : patients.FiresAt 1 Zone.utc midnight ⟨followUp, some ⟨1, 5⟩⟩ 1
        (minutesLater 44670) := by
      refine ⟨⟨1, 5⟩, rfl, by decide, minutesLater 44610, ?_, by decide +kernel⟩
      exact ⟨contact, by decide, rfl, rfl, by decide +kernel⟩
    obtain ⟨hsame, hfires⟩ := hagree 1 "2024-02-01T00:30:00.000Z"
    have hlast := hfires.2 ⟨_, hvisit, by decide +kernel⟩
    exact ⟨hsame.2 hlast, hlast⟩
  · obtain ⟨hsame, hfires⟩ := hagree 2 text
    have hlast : ¬ u'.tables.db.PendingAt 12 2 text := by
      intro hp
      obtain ⟨t, ⟨-, -, -, start, ⟨r, hr, hid, hactive, -⟩, -⟩, -⟩ := hfires.1 hp
      revert r
      decide +kernel
    exact ⟨fun h => hlast (hsame.1 h), hlast⟩

end

end Outreach
