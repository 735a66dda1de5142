import Outreach.Proofs.Scheduler

/-!
# Outreach.Proofs.Reconcile.Batches

How contacts are dealt out over calls and batches does not matter.

* `Notice` — the changes that are told of contacts.
* `World.Calls` — calls for one notice, one after the other.
* `World.Calls.same_rows` — calls that all succeed leave the same rows, up to their numbers, for
  the same contacts, in whatever order, however often and in batches of whatever size; and if each
  contact is listed once, they answer the same counts.
-/

namespace Outreach

/-- A change that is told of contacts. -/
inductive Notice where
  | renewed (r : Renewal) (now : Instant)
  | left (group : GroupId)
  | gone

/-- The change, for some contacts of the org. -/
def Notice.change (org : OrgId) (contacts : List ContactId) : Notice → Change
  | renewed r now => r.change org contacts now
  | left group => .left org group contacts
  | gone => .contactsGone contacts

namespace World

variable {δ : Type} {src : Sources δ} {org : OrgId} {z : Zone} {cs : List Campaign}

/-- Calls for one notice, each with its batches and contacts. All succeed and find the same zone
and campaigns, where they look for any. Together they are for `contacts` and answer `tally`. -/
inductive Calls (src : Sources δ) (org : OrgId) (z : Zone) (cs : List Campaign) (n : Notice) :
    World δ → List ContactId → Tally → World δ → Prop where
  | nil (w : World δ) : Calls src org z cs n w [] {} w
  | cons {w w₁ w' : World δ} {batch : Nat} {contacts more : List ContactId} {tally rest : Tally}
      (hf : (n.change org contacts).org? = some org → Finds org z cs w (w.get src org))
      (h : w.reconcile src batch (n.change org contacts) = (.ok tally, w₁))
      (hrest : Calls src org z cs n w₁ more rest w') :
      Calls src org z cs n w (contacts ++ more) (tally.add rest) w'

/-- One call is a list of calls. -/
theorem Calls.single {n : Notice} {w w' : World δ} {batch : Nat} {contacts : List ContactId}
    {tally : Tally}
    (hf : (n.change org contacts).org? = some org → Finds org z cs w (w.get src org))
    (h : w.reconcile src batch (n.change org contacts) = (.ok tally, w')) :
    Calls src org z cs n w contacts tally w' := by
  have hcalls := Calls.cons hf h (.nil w')
  rwa [List.append_nil, show tally.add {} = tally from rfl] at hcalls

/-- A notice is for some events, the same ones in every call: the pending fires of the contacts
with these are replaced, and no other row is touched. -/
theorem renews_notice (n : Notice) : ∃ now evs p, ∀ {w w' : World δ} {batch : Nat}
    {contacts : List ContactId} {tally : Tally}, w.tables.db.Keyed →
    ((n.change org contacts).org? = some org → Finds org z cs w (w.get src org)) →
    w.reconcile src batch (n.change org contacts) = (.ok tally, w') →
    w.tables.Frame w'.tables ∧
      Database.Renews org z now evs p contacts tally w.tables.db w'.tables.db := by
  cases n with
  | renewed r now =>
    refine ⟨now, (allEvents cs).filter r.concerns,
      (((allEvents cs).filter r.concerns).map Event.id).contains, ?_⟩
    intro w w' batch contacts tally hk hf h
    have hfinds : Finds org z cs w (w.get src org) := by
      cases r <;> exact hf rfl
    exact ⟨frame_renewal hfinds h, renews_renewal hk hfinds h⟩
  | left group =>
    -- no event is computed, so the time does not matter
    refine ⟨⟨0, 0⟩, [], (((View.ofCampaigns cs).eventsOf group).map Event.id).contains, ?_⟩
    intro w w' batch contacts tally hk hf h
    have hrun := left_of_ok (hf rfl) h
    exact ⟨.of_eq (Connection.frame_withdraw batch _ contacts w.tables) hrun,
      Connection.renews_withdraw hk hrun⟩
  | gone =>
    refine ⟨⟨0, 0⟩, [], fun _ => true, ?_⟩
    intro w w' batch contacts tally hk hf h
    have hrun := contactsGone_of_ok h
    exact ⟨.of_eq (Connection.frame_withdrawAll batch contacts w.tables) hrun,
      Connection.renews_withdrawAll hk hrun⟩

/-- So do calls together, by induction on them: each starts where the one before it ends. -/
theorem renews_calls (n : Notice) : ∃ now evs p, ∀ {w w' : World δ} {contacts : List ContactId}
    {tally : Tally}, w.tables.db.Keyed → Calls src org z cs n w contacts tally w' →
    w.tables.Frame w'.tables ∧
      Database.Renews org z now evs p contacts tally w.tables.db w'.tables.db := by
  obtain ⟨now, evs, p, hone⟩ := @renews_notice δ src org z cs n
  refine ⟨now, evs, p, ?_⟩
  intro w w' contacts tally hk h
  induction h with
  | nil w => exact ⟨.refl _, .nil _⟩
  | cons hf h hrest ih =>
    obtain ⟨hframe, hrenews⟩ := hone hk hf h
    obtain ⟨hframe', hrenews'⟩ := ih (hframe.db.keyed hk)
    exact ⟨hframe.trans hframe', hrenews.append hrenews'⟩

/-- From the same tables, calls for the same contacts come to the same. -/
theorem Calls.same_rows {n : Notice} {w a b : World δ} {l l' : List ContactId} {t t' : Tally}
    (hk : w.tables.db.Keyed) (hc : w.tables.db.Coherent) (ha : Calls src org z cs n w l t a)
    (hb : Calls src org z cs n w l' t' b) (hl : ∀ x, x ∈ l ↔ x ∈ l') :
    a.tables.db.SameRows b.tables.db ∧ (l.Nodup → l'.Nodup → t = t') := by
  obtain ⟨now, evs, p, hcalls⟩ := @renews_calls δ src org z cs n
  obtain ⟨hframe, hrenews⟩ := hcalls hk ha
  obtain ⟨hframe', hrenews'⟩ := hcalls hk hb
  exact hrenews.sameRows hrenews' (hframe.coherent hc) (hframe'.coherent hc) hl

end World

section

namespace Sample

/-- The second contact is inactive by now, and still has a pending fire. -/
def retired : Database :=
  { contacts := [contact, another 2 1 false]
    members := [⟨5, 1⟩, ⟨5, 2⟩]
    fires := [⟨1, 10, 2, "2024-01-01T01:00:00.000Z", none, none⟩] }

end Sample

open Sample

/-- One call with both contacts in one batch leaves what two calls leave that list them more often,
and answers what one call answers that lists them the other way round. -/
theorem World.Calls.same_rows_of_split :
    let w := World.ofTables { db := retired }
    let a := w.reconcile sources 5 (.joined 1 5 [1, 2] (minutesLater 30))
    let b := w.reconcile sources 0 (.joined 1 5 [2, 2] (minutesLater 30))
    let b' := b.2.reconcile sources 1 (.joined 1 5 [1, 2, 1] (minutesLater 30))
    let c := w.reconcile sources 1 (.joined 1 5 [2, 1] (minutesLater 30))
    a.2.tables.db.SameRows b'.2.tables.db ∧ a.1 = c.1 := by
  intro w a b b' c
  let joined := Notice.renewed (.joined 5) (minutesLater 30)
  have hw : w.Serves 1 Zone.utc [campaign] := World.serves_ofTables _ _ _ _
  have hb : b.2.Serves 1 Zone.utc [campaign] :=
    World.reconcile_serves sources_steady hw _ _ (by rintro o ⟨⟩; rfl)
  have hfinds {u : World Unit} (hu : u.Serves 1 Zone.utc [campaign]) :=
    (World.get_steady sources_steady hu).finds
  obtain ⟨t, ha⟩ : ∃ t, a = (.ok t, a.2) := ⟨⟨1, 1⟩, Prod.ext (by decide +kernel) rfl⟩
  have hb₁ : b = (.ok ⟨1, 0⟩, b.2) := Prod.ext (by decide +kernel) rfl
  have hb₂ : b' = (.ok ⟨1, 2⟩, b'.2) := Prod.ext (by decide +kernel) rfl
  obtain ⟨t', hc⟩ : ∃ t, c = (.ok t, c.2) := ⟨⟨1, 1⟩, Prod.ext (by decide +kernel) rfl⟩
  have hkeyed : w.tables.db.Keyed := ⟨by decide, by decide⟩
  have hcoherent : w.tables.db.Coherent :=
    Database.coherent_of_nodup (by decide) (by decide) (by decide)
  have hone : World.Calls sources 1 Zone.utc [campaign] joined w [1, 2] t a.2 :=
    .single (fun _ => hfinds hw) ha
  have htwo : World.Calls sources 1 Zone.utc [campaign] joined w ([2, 2] ++ [1, 2, 1]) _ b'.2 :=
    .cons (fun _ => hfinds hw) hb₁ (.single (fun _ => hfinds hb) hb₂)
  have hother : World.Calls sources 1 Zone.utc [campaign] joined w [2, 1] t' c.2 :=
    .single (fun _ => hfinds hw) hc
  refine ⟨(World.Calls.same_rows hkeyed hcoherent hone htwo (by grind)).1, ?_⟩
  have htally := (World.Calls.same_rows hkeyed hcoherent hone hother (by grind)).2
    (by decide) (by decide)
  rw [ha, hc, htally]

end

end Outreach
