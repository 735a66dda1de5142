import Outreach.Proofs.Scheduler

/-!
# Outreach.Proofs.Reconcile.Exact

What a renewal that succeeds leaves in the tables, row by row.

`World.renewal_exact`: each pair of an event that is concerned with a contact that is listed has
one pending fire, at the time at which the event fires for the contact by what is stored, or none
if it does not fire. All other rows, handled fires among them, are those that were there before.
-/

namespace Outreach
namespace World

variable {δ : Type} {src : Sources δ} {org : OrgId} {z : Zone} {cs : List Campaign}

/-- The events of the org have different numbers; `contacts` may list contacts twice, and such as
are unknown, inactive or of another org. -/
theorem renewal_exact (hids : ((allEvents cs).map Event.id).Nodup) {w w' : World δ}
    (hk : w.tables.db.Keyed) (hc : w.tables.db.Coherent)
    (hf : Finds org z cs w (w.get src org)) {batch : Nat} {r : Renewal}
    {contacts : List ContactId} {now : Instant} {tally : Tally}
    (h : w.reconcile src batch (r.change org contacts now) = (.ok tally, w')) :
    (∀ ev ∈ allEvents cs, r.concerns ev = true → ∀ x ∈ contacts,
      (∀ t, w.tables.db.FiresAt org z now ev x t →
        (w'.tables.db.pendingOf ev.id x).map FireRow.scheduled = [t.toStored]) ∧
      ((∀ t, ¬ w.tables.db.FiresAt org z now ev x t) → w'.tables.db.pendingOf ev.id x = [])) ∧
    w'.tables.db.withoutPending (r.pairs (allEvents cs) contacts) =
      w.tables.db.withoutPending (r.pairs (allEvents cs) contacts) := by
  have hc' := (frame_renewal hf h).coherent hc
  refine ⟨fun ev hev hconcerns x hx => ?_, (renews_renewal hk hf h).replaced.kept⟩
  have hiff := pendingAt_renewal hids hk hf h hev hconcerns hx
  constructor
  · exact fun t ht => hc'.scheduled_pendingOf ((hiff _).2 ⟨t, ht, rfl⟩)
  · intro hnone
    refine Database.pendingOf_eq_nil_of_not_pendingAt fun text hp => ?_
    obtain ⟨t, ht, -⟩ := (hiff text).1 hp
    exact hnone t ht

end World

section

namespace Sample

def handled : FireRow :=
  ⟨1, 10, 1, "2023-12-31T01:00:00.000Z", some "2023-12-31T01:00:05.000Z", some "F"⟩

/-- A fire of the second contact, who is in no group. -/
def undue : FireRow := ⟨2, 10, 2, "2024-01-01T01:00:00.000Z", none, none⟩

/-- A fire of an event that is no longer there. -/
def stray : FireRow := ⟨3, 11, 1, "2024-01-01T02:00:00.000Z", none, none⟩

def mixed : Database :=
  { contacts := [contact, another 2 1 true], members := [⟨5, 1⟩], fires := [handled, undue, stray] }

theorem mixed_keyed : mixed.Keyed := ⟨by decide, by decide⟩

theorem mixed_coherent : mixed.Coherent :=
  Database.coherent_of_nodup (by decide) (by decide) (by decide)

end Sample

open Sample

/-- One contact at a time, the first of them listed twice: it gets its fire once, the second
loses his, and the two other rows stay. -/
theorem World.renewal_exact_of_listed_twice :
    let w := World.ofTables { db := mixed }
    let db' := (w.reconcile sources 1 (.joined 1 5 [1, 2, 1] (minutesLater 30))).2.tables.db
    (db'.pendingOf 10 1).map FireRow.scheduled = ["2024-01-01T01:00:00.000Z"] ∧
      db'.pendingOf 10 2 = [] ∧
      (db'.withoutPending fun e x => e == 10 && [1, 2, 1].contains x).fires = [handled, stray] := by
  intro w db'
  have hrun : w.reconcile sources 1 ((Renewal.joined 5).change 1 [1, 2, 1] (minutesLater 30)) =
      (.ok ⟨2, 2⟩, (w.reconcile sources 1 (.joined 1 5 [1, 2, 1] (minutesLater 30))).2) :=
    Prod.ext (by decide +kernel) rfl
  have hids : ((allEvents [campaign]).map Event.id).Nodup := by decide
  obtain ⟨hpairs, hrest⟩ :=
    World.renewal_exact hids mixed_keyed mixed_coherent (finds_campaign _) hrun
  have hreminder := hpairs ⟨reminder, some ⟨1, 5⟩⟩ (by decide) rfl
  refine ⟨?_, ?_, ?_⟩
  · have hdue : mixed.Due 1 Zone.utc ⟨reminder, some ⟨1, 5⟩⟩ 1 (minutesLater 60) :=
      reminder_due (by decide) (by decide)
    rw [← stored_sixty]
    exact (hreminder 1 (by decide)).1 _ (Database.firesAt_iff.2 ⟨hdue, by decide⟩)
  · refine (hreminder 2 (by decide)).2 fun t ht => ?_
    obtain ⟨-, ⟨⟩, hmember, -⟩ := ht
    exact absurd hmember (by decide)
  · have hpair : (Renewal.joined 5).pairs (allEvents [campaign]) [1, 2, 1] =
        fun e x => e == 10 && [1, 2, 1].contains x := by
      have hevents : (allEvents [campaign]).filter (Renewal.joined 5).concerns =
          [⟨reminder, some ⟨1, 5⟩⟩] := by decide
      funext e x
      rw [Renewal.pairs, hevents]
      simp only [Database.pairsWith, List.map_cons, List.map_nil, List.contains_cons,
        List.contains_nil, Bool.or_false]
      rfl
    rw [← hpair, hrest]
    decide +kernel

end

end Outreach
