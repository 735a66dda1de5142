import Outreach.Proofs.Reconcile.Effect
import Outreach.Proofs.Scheduler
import Outreach.Proofs.Time.Stored

/-!
# Outreach.Proofs.Reconcile.Repeat

Computing fires anew a second time, later, with nothing changed in between. What has come due in
the meantime is deleted as all pending fires are, and not computed again.

* `World.repeat_keeps_iff` — a fire outlasts the repeat just if it is still due later than now.
* `repeat_drops_a_due_fire` — one that has come due is lost, handled or not.
-/

namespace Outreach

namespace Database

variable {db : Database} {org : OrgId} {z : Zone}

theorem Picks.nanos {now : Instant} {e : EventId} {x : ContactId} {evs : List Event} {t : Instant}
    (h : db.Picks org z now e x evs t) : t.nanos = 0 := by
  obtain ⟨ev, -, -, hdue, -⟩ := h.exists_due
  exact hdue.nanos

/-- What is picked is still picked later on, as long as it is not over. -/
theorem Picks.later {now later : Instant} (hle : now ≤ later) {e : EventId} {x : ContactId}
    {evs : List Event} {t : Instant} (h : db.Picks org z now e x evs t) (ht : later < t) :
    db.Picks org z later e x evs t := by
  induction h with
  | here hid hdue _ => exact .here hid hdue ht
  | there hnot _ ih =>
    exact .there (fun hid u hu hlt => hnot hid u hu (Moment.lt_of_le_of_lt hle hlt)) (ih ht)

end Database

namespace World

variable {δ : Type} {src : Sources δ} {org : OrgId} {z : Zone} {cs : List Campaign}

/-- A renewal, whatever came of it, is repeated later with success, and nothing has changed but
the time. A pair has a pending fire after the repeat at the time that was computed for it the first
time, just if that is still later than now: one that has come due meanwhile is gone. -/
theorem repeat_keeps_iff (hs : src.Steady org z cs) {w u w' : World δ} {batch : Nat}
    {r : Renewal} {contacts : List ContactId} {now₁ now₂ : Instant} {tally : Tally}
    (hk : w.tables.db.Keyed) (hu : u.Serves org z cs)
    (hfirst : u.tables = (w.reconcile src batch (r.change org contacts now₁)).2.tables)
    (hle : now₁ ≤ now₂)
    (hagain : u.reconcile src batch (r.change org contacts now₂) = (.ok tally, w'))
    {e : EventId} {x : ContactId} {t : Instant} (hx : x ∈ contacts)
    (ht : w.tables.db.Picks org z now₁ e x (r.events (View.ofCampaigns cs)) t) :
    w'.tables.db.PendingAt e x t.toStored ↔ now₂ < t := by
  have honly : w.tables.db.OnlyFires u.tables.db := by
    rw [hfirst]
    exact (reconcile_frame hs.keepTables batch _ w).db
  have hpicks (now t) : u.tables.db.Picks org z now e x (r.events (View.ofCampaigns cs)) t ↔
      w.tables.db.Picks org z now e x (r.events (View.ofCampaigns cs)) t :=
    Database.picks_congr (fun ev _ => honly.due_iff ev x) t
  have hdone := Connection.redone_recompute (honly.keyed hk) (renewal_of_ok hs hu hagain)
  have hpair : e ∈ (r.events (View.ofCampaigns cs)).map Event.id ∧ x ∈ contacts := by
    obtain ⟨ev, hev, hid, -⟩ := ht.exists_due
    exact ⟨List.mem_map.2 ⟨ev, hev, hid⟩, hx⟩
  rw [hdone.inside e x _ hpair]
  constructor
  · rintro ⟨t', ht', htext⟩
    obtain rfl : t' = t := Instant.toStored_inj ht'.nanos ht.nanos htext
    obtain ⟨-, -, -, -, hlater⟩ := ht'.exists_due
    exact hlater
  · intro hlater
    exact ⟨t, (hpicks now₂ t).2 (ht.later hle hlater), rfl⟩

end World

section

open Sample

/-- The reminder is due after an hour, and outlasts a repeat before that. -/
theorem World.repeat_keeps_the_reminder :
    let u := (world.reconcile sources 100 (.joined 1 5 [1] (minutesLater 30))).2
    let w' := (u.reconcile sources 100 (.joined 1 5 [1] (minutesLater 45))).2
    w'.tables.db.PendingAt 10 1 "2024-01-01T01:00:00.000Z" := by
  intro u w'
  have hu : u.Serves 1 Zone.utc [campaign] :=
    reconcile_serves sources_steady (serves_ofTables _ _ _ _) _ _ (by rintro o ⟨⟩; rfl)
  have hagain : u.reconcile sources 100 (.joined 1 5 [1] (minutesLater 45)) = (.ok ⟨1, 1⟩, w') :=
    Prod.ext (by decide +kernel) rfl
  have hkeyed : world.tables.db.Keyed := ⟨by decide, by decide⟩
  have hevents : (View.ofCampaigns [campaign]).eventsOf 5 = [⟨reminder, some ⟨1, 5⟩⟩] := by
    decide +kernel
  have hpicks : world.tables.db.Picks 1 Zone.utc (minutesLater 30) 10 1
      ((Renewal.joined 5).events (View.ofCampaigns [campaign])) (minutesLater 60) := by
    rw [show (Renewal.joined 5).events _ = _ from hevents]
    refine .here rfl ⟨⟨1, 5⟩, rfl, by decide, midnight, ⟨contact, by decide, rfl, rfl, ?_⟩, ?_⟩
      (by decide)
    · decide +kernel
    · decide +kernel
  have hiff := repeat_keeps_iff (r := .joined 5) sources_steady hkeyed hu rfl (by decide) hagain
    (List.mem_singleton.2 rfl) hpicks
  have htext : (minutesLater 60).toStored = "2024-01-01T01:00:00.000Z" := by decide +kernel
  rw [← htext]
  exact hiff.2 (by decide)

/-- At the full hour the reminder has come due, and the repeat deletes it. -/
theorem repeat_drops_a_due_fire :
    let first := world.reconcile sources 100 (.joined 1 5 [1] (minutesLater 30))
    let again := first.2.reconcile sources 100 (.joined 1 5 [1] (minutesLater 60))
    first.1 = .ok ⟨0, 1⟩ ∧
      first.2.tables.db.fires = [⟨1, 10, 1, "2024-01-01T01:00:00.000Z", none, none⟩] ∧
      again.1 = .ok ⟨1, 0⟩ ∧ again.2.tables.db.fires = [] := by
  intro first again
  exact ⟨by decide +kernel, by decide +kernel, by decide +kernel, by decide +kernel⟩

end

end Outreach
