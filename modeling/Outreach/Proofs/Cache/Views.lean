import Outreach.Cache.Flow
import Outreach.Proofs.Asset.Set
import Outreach.Proofs.Asset.View
import Outreach.Proofs.Cache
import Outreach.Proofs.Fire.Dropped

/-!
# Outreach.Proofs.Cache.Views

What the view of a snapshot finds, on whatever way the snapshot was made.

* `View.Scans` — each lookup of the view, as a search through a list of campaigns.
* `Reached` — snapshots made one from the other by full builds, refreshes and simulations, with the
  campaigns that were listed when they were last read.
* `Reached.shows` — the campaigns of such a snapshot are those of this list.
* `Reached.view_scans` — and its view finds them, their events and nothing else.
-/

namespace Outreach

/-! ## Views -/

/-- The view finds what a search through the campaigns finds: those on a group and the events that
are relative to a date, in their order, and the last event with a number. -/
structure View.Scans (v : View) (cs : List Campaign) : Prop where
  group : ∀ g, v.campaignsOf g = cs.filter fun c => c.group == g
  key : ∀ k, v.eventsRelativeTo k = (allEvents cs).filter fun e => e.spec.relativeTo.key == k
  event : ∀ i e, v.event? i = some e ↔ e.id = i ∧
    ∃ before after, allEvents cs = before ++ e :: after ∧ ∀ d ∈ after, d.id ≠ i
  none : ∀ i, v.event? i = none ↔ ∀ e ∈ allEvents cs, e.id ≠ i

theorem View.scans_ofCampaigns (cs : List Campaign) : (View.ofCampaigns cs).Scans cs := by
  constructor
  case group =>
    intro g
    rw [ofCampaigns, campaignsOf_addCampaigns]
    rfl
  case key => exact eventsRelativeTo_ofCampaigns cs
  case event =>
    intro i e
    rw [event?_ofCampaigns, find?_reverse_eq_some_iff]
    simp only [beq_iff_eq, beq_eq_false_iff_ne]
  case none =>
    intro i
    simp [event?_ofCampaigns]

/-! ## Chains of snapshots -/

variable {δ : Type} {src : Sources δ}

namespace World

theorem Loads.mem {org : OrgId} {ps : List Part} {w u : World δ} {p : Part}
    (h : Loads src org ps w p u) : p ∈ ps := by
  induction h with
  | here => exact List.mem_cons_self
  | there _ _ ih => exact List.mem_cons_of_mem _ ih

/-- A category that is named once is loaded from one world only. -/
theorem Loads.unique {org : OrgId} {ps : List Part} {w u v : World δ} {p : Part} (hps : ps.Nodup)
    (hu : Loads src org ps w p u) (hv : Loads src org ps w p v) : u = v := by
  induction hu with
  | here =>
    cases hv with
    | here => rfl
    | there _ hv => exact absurd hv.mem (List.nodup_cons.1 hps).1
  | there hload hu ih =>
    cases hv with
    | here => exact absurd hu.mem (List.nodup_cons.1 hps).1
    | there hload' hv =>
      rw [hload] at hload'
      cases hload'
      exact ih (List.nodup_cons.1 hps).2 hv

theorem nodup_partsToRead (prev : Option Snapshot) (m : Mask) : (partsToRead prev m).Nodup := by
  have hall : Part.all.Nodup := by decide
  cases prev with
  | none => exact hall
  | some _ =>
    show (Part.all.filter fun p => m.reloads (.part p)).Nodup
    exact hall.filter _

/-- In the course of a build the campaigns are loaded, and these are listed. -/
def ListsCampaigns (src : Sources δ) (org : OrgId) (prev : Option Snapshot) (m : Mask)
    (w : World δ) (listed : List Campaign) : Prop :=
  ∃ u u', Loads src org (partsToRead prev m) w .campaigns u ∧
    src.load .campaigns org u = (.ok listed, u')

end World

/-- The snapshot is made by full builds, refreshes and simulations, one after the other and each in
any world, and these campaigns were listed when they were last read. -/
inductive Reached (src : Sources δ) : Snapshot → List Campaign → Prop
  | full {org : OrgId} {m : Mask} {w w' : World δ} {s : Snapshot} {listed : List Campaign}
      (h : World.build src org none m w = (.ok s, w'))
      (hl : w.ListsCampaigns src org none m listed) : Reached src s listed
  | reread {org : OrgId} {m : Mask} {w w' : World δ} {prev s : Snapshot}
      {old listed : List Campaign} (hprev : Reached src prev old)
      (h : World.build src org (some prev) m w = (.ok s, w'))
      (hl : w.ListsCampaigns src org (some prev) m listed) : Reached src s listed
  | shared {org : OrgId} {m : Mask} {w w' : World δ} {prev s : Snapshot} {listed : List Campaign}
      (hprev : Reached src prev listed) (h : World.build src org (some prev) m w = (.ok s, w'))
      (hm : m.reloads (.part .campaigns) = false) : Reached src s listed
  | simulated {w w' : World δ} {prev s : Snapshot} {listed : List Campaign}
      {replacements : List (Uuid × JsonValue)} {extra : List Channel}
      (hprev : Reached src prev listed)
      (h : w.simulate src prev replacements extra = (.ok s, w')) : Reached src s listed

namespace Reached

variable {org : OrgId} {m : Mask} {w w' : World δ} {prev s : Snapshot}
  {old listed : List Campaign}

theorem content_of_lists {prev : Option Snapshot}
    (h : World.build src org prev m w = (.ok s, w'))
    (hl : w.ListsCampaigns src org prev m listed) :
    s.content .campaigns = AssetSet.ofList listed := by
  obtain ⟨u, u', hloads, hload⟩ := hl
  obtain ⟨v, v', listed', hloads', hload', -, hcontent⟩ :=
    (World.build_parts h .campaigns).1 hloads.mem
  obtain rfl := hloads.unique (World.nodup_partsToRead prev m) hloads'
  rw [hload] at hload'
  cases hload'
  exact hcontent

/-- By induction on the way: campaigns that are not read are those of the snapshot before. -/
theorem content_eq (h : Reached src s listed) :
    s.content .campaigns = AssetSet.ofList listed := by
  induction h with
  | full h hl => exact content_of_lists h hl
  | reread _ h hl _ => exact content_of_lists h hl
  | @shared org m w w' prev s listed _ h hm ih =>
    have hp : Part.campaigns ∉ World.partsToRead (some prev) m := fun hmem => by
      have := (List.mem_filter.1 hmem).2
      rw [hm] at this
      cases this
    obtain ⟨t, ⟨⟩, hparts⟩ := (World.build_parts h .campaigns).2 hp
    exact (congrArg Edition.content hparts).trans ih
  | simulated _ h ih =>
    unfold World.simulate at h
    split at h
    · cases h
    · cases h
      exact ih

theorem shows (h : Reached src s listed) :
    AssetSet.Shows (s.content .campaigns) listed :=
  h.content_eq ▸ AssetSet.shows_ofList listed

/-! ### Every way is covered -/

theorem exists_of_build {prev : Option Snapshot} (hprev : ∀ t ∈ prev, ∃ old, Reached src t old)
    (h : World.build src org prev m w = (.ok s, w')) : ∃ listed, Reached src s listed := by
  obtain ⟨hin, -⟩ := World.build_parts h .campaigns
  cases prev with
  | none =>
    obtain ⟨u, u', listed, hloads, hload, -⟩ := hin (Part.mem_all _)
    exact ⟨listed, .full h ⟨u, u', hloads, hload⟩⟩
  | some prev =>
    obtain ⟨old, hold⟩ := hprev prev rfl
    cases hm : m.reloads (.part .campaigns) with
    | false => exact ⟨old, .shared hold h hm⟩
    | true =>
      obtain ⟨u, u', listed, hloads, hload, -⟩ :=
        hin (List.mem_filter.2 ⟨Part.mem_all _, hm⟩)
      exact ⟨listed, .reread hold h ⟨u, u', hloads, hload⟩⟩

/-- What is got or refreshed is reached if the snapshot is that is served. -/
theorem exists_of_refresh (hserved : ∀ t ∈ w.fresh? org, ∃ old, Reached src t old)
    (h : w.refresh src org m = (.ok s, w')) : ∃ listed, Reached src s listed := by
  unfold World.refresh at h
  split at h
  · unfold World.buildFull at h
    split at h
    · cases h
    · split at h
      · cases h
      · rename_i hb
        cases h
        exact exists_of_build (by simp) hb
  · rename_i prev hprev
    split at h
    · cases h
      exact hserved _ hprev
    · split at h
      · cases h
      · rename_i hb
        cases h
        refine exists_of_build ?_ hb
        rintro t ⟨⟩
        exact hserved _ hprev

/-! ### What the view finds -/

/-- The campaigns of the snapshot are the last ones listed of each number, where the first of the
number stood. The view finds what a search through them finds, so whatever it finds was listed when
campaigns were last read, and not replaced. -/
theorem view_scans (h : Reached src s listed) :
    s.campaigns.map Campaign.id = numbersOf listed ∧
      (∀ c ∈ s.campaigns, latest? listed c.id = some c) ∧ s.view.Scans s.campaigns ∧
      (∀ g, ∀ c ∈ s.view.campaignsOf g, latest? listed c.id = some c) ∧
      ∀ e, ((∃ k, e ∈ s.view.eventsRelativeTo k) ∨ ∃ i, s.view.event? i = some e) →
        ∃ c ∈ s.campaigns, latest? listed c.id = some c ∧ e ∈ c.events := by
  have hshows := h.shows
  have hscans : s.view.Scans s.campaigns := View.scans_ofCampaigns s.campaigns
  have hlatest : ∀ c ∈ s.campaigns, latest? listed c.id = some c := hshows.latest
  refine ⟨hshows.numbers, hlatest, hscans, fun g c hc => ?_, fun e he => ?_⟩
  · rw [hscans.group] at hc
    exact hlatest c (List.mem_filter.1 hc).1
  · have hall : e ∈ allEvents s.campaigns := by
      rcases he with ⟨k, hk⟩ | ⟨i, hi⟩
      · rw [hscans.key] at hk
        exact (List.mem_filter.1 hk).1
      · obtain ⟨-, before, after, heq, -⟩ := (hscans.event i e).1 hi
        rw [heq]
        exact List.mem_append_right _ List.mem_cons_self
    obtain ⟨c, hc, hec⟩ := List.mem_flatMap.1 hall
    exact ⟨c, hc, hlatest c hc, hec⟩

end Reached

section

namespace Sample

/-- The campaign is listed twice, the second time with another event, and one on another group in
between. -/
def listedTwice : List Campaign :=
  [campaign, ⟨2, .ofNat 2, "Surveys", 6, [{ reminder with id := 11 }]⟩,
    { campaign with specs := [{ reminder with id := 12 }] }]

theorem lists_editable {org : OrgId} {prev : Option Snapshot} {m : Mask}
    {w w' : World (List Campaign)} {s : Snapshot}
    (h : World.build editable org prev m w = (.ok s, w'))
    (hm : .campaigns ∈ World.partsToRead prev m) :
    w.ListsCampaigns editable org prev m w.rest := by
  obtain ⟨u, u', listed, hloads, hload, -⟩ := (World.build_parts h .campaigns).1 hm
  obtain rfl := loads_editable hloads
  refine ⟨u, u, hloads, ?_⟩
  simp [editable, OrgData.source_set_self]

end Sample

open Sample

/-- A snapshot is built, its campaigns are read anew, and it is copied. The copy has the event of the
second listing, not that of the first. -/
theorem Reached.view_scans_of_listedTwice : ∃ s, Reached editable s listedTwice ∧
    (s.view.campaignsOf 5).map Campaign.id = [1] ∧ s.view.event? 10 = none ∧
      (s.view.eventsRelativeTo "created_on").map Event.id = [12, 11] := by
  obtain ⟨s, w, hs⟩ : ∃ s w, World.build editable 1 none .full members = (.ok s, w) :=
    ⟨_, _, rfl⟩
  have hfirst := Reached.full hs (lists_editable hs (Part.mem_all _))
  obtain ⟨t, w', ht⟩ : ∃ t w', World.build editable 1 (some s) (.of (.part .campaigns))
      { members with rest := listedTwice } = (.ok t, w') := ⟨_, _, rfl⟩
  have hread : .campaigns ∈ World.partsToRead (some s) (.of (.part .campaigns)) :=
    List.mem_filter.2 ⟨Part.mem_all _, by decide⟩
  have hsecond := Reached.reread hfirst ht (lists_editable ht hread)
  obtain ⟨r, w'', hr⟩ : ∃ r w'', w'.simulate editable t [] [] = (.ok r, w'') := ⟨_, _, rfl⟩
  have hcopy := Reached.simulated hsecond hr
  obtain ⟨-, -, hscans, -⟩ := hcopy.view_scans
  have hcampaigns : r.campaigns = (AssetSet.ofList listedTwice).items :=
    congrArg AssetSet.items hcopy.content_eq
  rw [hcampaigns] at hscans
  refine ⟨r, hcopy, ?_, (hscans.none 10).2 (by decide), ?_⟩
  · rw [hscans.group]
    decide
  · rw [hscans.key]
    decide

end

end Outreach
