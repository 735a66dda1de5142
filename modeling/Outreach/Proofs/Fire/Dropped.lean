import Outreach.Proofs.Asset.Set
import Outreach.Proofs.Cache.Staleness
import Outreach.Proofs.Fire.Plan

/-!
# Outreach.Proofs.Fire.Dropped

What becomes of an event that is taken out of the campaigns and dropped. Its pending fires are
deleted, and from then on it can only be scheduled for contacts that join a group or whose values
change, from a snapshot that is older than that and still served.

* `World.refresh_parts` — where the categories of a snapshot come from that is got or refreshed.
* `World.Asks`, `Used.reconcile` — telling the scheduler of a change as an operation on the cache.
* `Meets.dropped_event_only_from_old_snapshot` — when a dropped event is scheduled again.
-/

namespace Outreach

/-! ## Where a snapshot comes from -/

variable {δ : Type} {src : Sources δ}

namespace World

variable {org : OrgId} {m : Mask} {w w' : World δ} {s : Snapshot}

/-- Each category of a snapshot that is got or refreshed is that of the snapshot that is served, if
it is not to be read anew, or was loaded in the course of it. -/
theorem refresh_parts (h : w.refresh src org m = (.ok s, w')) (p : Part) :
    (∃ prev, w.fresh? org = some prev ∧ s.parts p = prev.parts p ∧ m.reloads (.part p) = false) ∨
      ∃ u u' listed, w.Loading src org m p u ∧ src.load p org u = (.ok listed, u') ∧
        s.content p = p.index listed := by
  unfold refresh at h
  split at h
  · rename_i hnone
    unfold buildFull at h
    split at h
    · cases h
    · rename_i hbuilding
      split at h
      · cases h
      · rename_i hb
        cases h
        have hp : p ∈ partsToRead none .full := Part.mem_all p
        obtain ⟨u, u', listed, hloads, hload, -, hcontent⟩ := (build_parts hb p).1 hp
        exact .inr ⟨u, u', listed, .anew hnone (by simpa using hbuilding) hloads, hload, hcontent⟩
  · rename_i prev hprev
    split at h
    · rename_i hm
      cases h
      exact .inl ⟨s, hprev, rfl, by simp [hm, Mask.empty, Mask.reloads]⟩
    · rename_i hm
      split at h
      · cases h
      · rename_i hb
        cases h
        obtain ⟨hin, hout⟩ := build_parts hb p
        by_cases hp : m.reloads (.part p) = true
        · have hmem : p ∈ partsToRead (some prev) m :=
            List.mem_filter.2 ⟨Part.mem_all p, hp⟩
          obtain ⟨u, u', listed, hloads, hload, -, hcontent⟩ := hin hmem
          exact .inr ⟨u, u', listed, .again hprev hm hloads, hload, hcontent⟩
        · obtain ⟨t, ⟨⟩, hparts⟩ := hout fun hmem => hp (List.mem_filter.1 hmem).2
          exact .inl ⟨prev, hprev, hparts, by simpa using hp⟩

end World

namespace World

theorem lookup_eq (src : Sources δ) (change : Change) (w : World δ) :
    w.lookup src change = change.refresh?.map fun r => w.refresh src r.1 r.2 := by
  cases change <;> simp only [lookup, Change.refresh?, get_eq_refresh, Option.map_some,
    Option.map_none]

/-- A category of an org is loaded from `u` when the scheduler is told of the change. -/
def Asks (src : Sources δ) (change : Change) (w : World δ) (org : OrgId) (p : Part)
    (u : World δ) : Prop :=
  ∃ m, change.refresh? = some (org, m) ∧ w.Loading src org m p u

end World

variable {may : Load → OrgId → World δ → Prop} {start w : World δ}

theorem Used.onTables (work : Connection → Worked Tally) (w : World δ) :
    Used src may w (w.onTables work).2 := by
  unfold World.onTables
  split <;> exact .elsewhere rfl (Moment.le_refl _)

theorem Used.withSnapshot {found : Except AssetError Snapshot × World δ}
    (h : Used src may w found.2) (work : Snapshot → Connection → Worked Tally) :
    Used src may w (World.withSnapshot found work).2 := by
  unfold World.withSnapshot
  split
  · exact h
  · exact h.trans (.onTables _ _)

/-- To tell the scheduler of a change is to use the cache. -/
theorem Used.reconcile (batch : Nat) {change : Change}
    (hmay : ∀ org p u, w.Asks src change org p u → may (.part p) org u)
    (hloads : ∀ org p u, w.Asks src change org p u → Used src may u (src.load p org u).2) :
    Used src may w (w.reconcile src batch change).2 := by
  have hfound {org : OrgId} {m : Mask} (h : change.refresh? = some (org, m)) :
      Used src may w (w.refresh src org m).2 :=
    .refresh org m w (fun p u hp => hmay org p u ⟨m, h, hp⟩) fun p u hp =>
      hloads org p u ⟨m, h, hp⟩
  cases change with
  | joined org group contacts now =>
    exact .withSnapshot (World.get_eq_refresh src org w ▸ hfound rfl) _
  | left org group contacts =>
    exact .withSnapshot (World.get_eq_refresh src org w ▸ hfound rfl) _
  | valueSet org key contacts now =>
    exact .withSnapshot (World.get_eq_refresh src org w ▸ hfound rfl) _
  | eventEdited org event now => exact .withSnapshot (hfound rfl) _
  | eventDropped event => exact .onTables _ w
  | contactsGone contacts => exact .onTables _ w

/-! ## A dropped event -/

/-- The event is one of the campaigns. -/
def Lists (e : EventId) (cs : List Campaign) : Prop := ∃ ev ∈ allEvents cs, ev.id = e

theorem lists_of_items {e : EventId} {cs : List Campaign}
    (h : Lists e (AssetSet.ofList cs).items) : Lists e cs := by
  obtain ⟨ev, hev, hid⟩ := h
  obtain ⟨c, hc, hev⟩ := List.mem_flatMap.1 hev
  exact ⟨ev, List.mem_flatMap.2 ⟨c, AssetSet.mem_of_mem_items hc, hev⟩, hid⟩

/-- Loads of campaigns that list the event begin at `last` or before. -/
def ListedUntil (src : Sources δ) (e : EventId) (last : Instant) : Load → OrgId → World δ → Prop
  | .part .campaigns, org, u =>
    ∀ listed u', src.load .campaigns org u = (.ok listed, u') → Lists e listed → u.clock ≤ last
  | _, _, _ => True

/-- The event is not listed to the scheduler when it is told of the change. -/
def World.Omits (src : Sources δ) (change : Change) (e : EventId) (w : World δ) : Prop :=
  ∀ org u, w.Asks src change org .campaigns u →
    ∀ listed u', src.load .campaigns org u = (.ok listed, u') → ¬ Lists e listed

/-- The event is found in a snapshot that is served as it is, for a change after which fires are
computed anew. -/
theorem World.Plans.served {change : Change} {f : NewFire} (h : w.Plans src change f)
    (homits : w.Omits src change f.event) :
    ∃ (k : Renewal) (org : OrgId) (contacts : List ContactId) (now : Instant) (s : Snapshot),
      change = k.change org contacts now ∧ w.fresh? org = some s ∧ Lists f.event s.campaigns := by
  obtain ⟨now, hnow, s, u, hfound, ev, hev, hid, -⟩ := h
  rw [World.lookup_eq, Option.map_eq_some_iff] at hfound
  obtain ⟨⟨org, m⟩, hrefresh, hfound⟩ := hfound
  rcases World.refresh_parts hfound .campaigns with
    ⟨prev, hprev, hparts, hkept⟩ | ⟨v, v', listed, hloading, hload, hcontent⟩
  · have hsame : s.campaigns = prev.campaigns := by
      rw [Snapshot.campaigns, Snapshot.content, hparts]
      rfl
    have hlists : Lists f.event prev.campaigns := ⟨ev, hsame ▸ hev, hid⟩
    cases change with
    | joined org' group contacts now' =>
      cases hrefresh
      exact ⟨.joined group, _, contacts, now', prev, rfl, hprev, hlists⟩
    | valueSet org' key contacts now' =>
      cases hrefresh
      exact ⟨.valueSet key, _, contacts, now', prev, rfl, hprev, hlists⟩
    | eventEdited org' event now' =>
      cases hrefresh
      rw [(Mask.reloads_of _ _).2 rfl] at hkept
      cases hkept
    | left org' group contacts => cases hnow
    | eventDropped event => cases hrefresh
    | contactsGone contacts => cases hrefresh
  · refine absurd ?_ (homits org v ⟨m, hrefresh, hloading⟩ listed v' hload)
    refine lists_of_items ⟨ev, ?_, hid⟩
    rwa [Snapshot.campaigns, hcontent] at hev

theorem World.settled_of_eventDropped {batch : Nat} {e : EventId} {tally : Tally} {w' : World δ}
    (h : w.reconcile src batch (.eventDropped e) = (.ok tally, w')) :
    ∀ r ∈ w'.tables.db.fires, r.event = e → r.fired ≠ none := by
  intro r hr he
  have hwork := onTables_of_ok h
  unfold Connection.dropEvent at hwork
  split at hwork
  · cases hwork
  · rename_i n c hdelete
    cases hwork
    obtain ⟨-, hdb⟩ := Database.deletePendingOfEvent_of_ok
      (Connection.alter_of_ok (Connection.perform_of_ok hdelete))
    rw [hdb] at hr
    have hkept := (List.mem_filter.1 hr).2
    rw [← Option.isSome_iff_ne_none]
    simpa [he, FireRow.pending] using hkept

/-- The change is one after which fires are computed anew, and they are computed from a snapshot
that is younger than the time to live, of `last` or before, and still lists the event. -/
def World.FromOld (change : Change) (e : EventId) (last : Instant) (w : World δ) : Prop :=
  ∃ (k : Renewal) (org : OrgId) (contacts : List ContactId) (now : Instant) (s : Snapshot),
    change = k.change org contacts now ∧ w.fresh? org = some s ∧ Lists e s.campaigns ∧
      s.builtAt ≤ last ∧ w.clock.since s.builtAt < w.cache.ttl ∧
      (w.clock.CountsLeaps s.builtAt → w.clock.plus (-w.cache.ttl) < last)

theorem World.Plans.fromOld {change : Change} {f : NewFire} (h : w.Plans src change f)
    {last : Instant} (hw : w.InOrder src (ListedUntil src f.event last))
    (homits : w.Omits src change f.event) : w.FromOld change f.event last := by
  obtain ⟨k, org, contacts, now, s, hchange, hs, hlists⟩ := h.served homits
  obtain ⟨hentry, hage⟩ := World.fresh?_eq_some_iff.1 hs
  obtain ⟨horg, hholds⟩ := hw.entries org s hentry
  -- the load that its campaigns come from listed the event
  obtain ⟨u, u', listed, huntil, hload, hcontent, -, hbuilt⟩ := hholds.parts .campaigns
  have hlisted : Lists f.event listed := by
    rw [Snapshot.campaigns, hcontent] at hlists
    exact lists_of_items hlists
  have hlast : u.clock ≤ last := huntil listed u' hload hlisted
  obtain ⟨hle, hlater⟩ := World.withinTtl_of_fresh? hs hbuilt
  exact ⟨k, org, contacts, now, s, hchange, hs, hlists, Moment.le_trans hle hlast, hage,
    fun hleaps => Moment.lt_of_lt_of_le (hlater hleaps) hlast⟩

/-- From a new cache on, if no load of campaigns that begins after `last` lists the event: dropping
the event leaves it no pending fires, and a change that the scheduler is told of without the event
being listed to it adds a fire of it, and brings a row of it, only from an old snapshot. -/
theorem Meets.dropped_event_only_from_old_snapshot (hk : src.KeepTables) {ttl : Span}
    (hstart : start.cache = { ttl }) {e : EventId} {last : Instant}
    (h : Meets src (ListedUntil src e last) start w) (batch : Nat) :
    w.cache.ttl = ttl ∧
    (∀ tally w', w.reconcile src batch (.eventDropped e) = (.ok tally, w') →
      ∀ r ∈ w'.tables.db.fires, r.event = e → r.fired ≠ none) ∧
    ∀ change, w.Omits src change e →
      (∀ fs, Call.write (.add fs) ∈ w.calls src batch change → ∀ f ∈ fs, f.event = e →
        w.FromOld change e last) ∧
      ∀ r ∈ (w.reconcile src batch change).2.tables.db.fires, r.event = e →
        r ∈ w.tables.db.fires ∨ w.FromOld change e last := by
  have horder := h.inOrder hstart
  refine ⟨?_, fun tally w' => World.settled_of_eventDropped, ?_⟩
  · rw [h.onward.ttl, hstart]
  · intro change homits
    constructor
    · intro fs hfs f hf he
      subst he
      have hplan : w.Plans src change f := (w.calls_work src batch change).within _ hfs f hf
      exact hplan.fromOld horder homits
    · intro r hr he
      rcases World.rows_of_reconcile hk batch change w r hr with hold | ⟨f, hplan, id, rfl⟩
      · exact .inl hold
      · obtain rfl : f.event = e := he
        exact .inr (hplan.fromOld horder homits)

section

open Sample

/-- Sources in which campaigns can be taken out: all orgs have those noted in the world. -/
def Sample.editable : Sources (List Campaign) where
  load p _ w := (.ok ((OrgData.set {} .campaigns w.rest).source p), w)
  loadFlow _ _ w := (.ok none, w)

/-- Two contacts are in the group of the campaign; snapshots are served for five seconds. -/
def Sample.members : World (List Campaign) :=
  { clock := midnight
    cache := { ttl := Span.ofSeconds 5 }
    tables := { db := { contacts := [contact, another 2 1 true], members := [⟨5, 1⟩, ⟨5, 2⟩] } }
    rest := [campaign] }

/-- The event is scheduled for the first contact and then taken out. -/
def Sample.takenOut : World (List Campaign) :=
  { (members.reconcile editable 100 (.joined 1 5 [1] midnight)).2 with rest := [] }

theorem Sample.loads_editable {w u : World (List Campaign)} {org : OrgId} {ps : List Part}
    {p : Part} (h : World.Loads editable org ps w p u) : u = w := by
  induction h with
  | here => rfl
  | there hload _ ih =>
    cases hload
    exact ih

theorem Sample.loading_editable {w u : World (List Campaign)} {org : OrgId} {m : Mask} {p : Part}
    (h : w.Loading editable org m p u) : u.clock = w.clock ∧ u.rest = w.rest := by
  cases h with
  | anew hnone hfree h =>
    rw [loads_editable h]
    exact ⟨rfl, rfl⟩
  | again hprev hm h =>
    rw [loads_editable h]
    exact ⟨rfl, rfl⟩

theorem Sample.meets_takenOut :
    Meets editable (ListedUntil editable 10 midnight) members takenOut := by
  have hjoined : Used editable (ListedUntil editable 10 midnight) members
      (members.reconcile editable 100 (.joined 1 5 [1] midnight)).2 := by
    refine .reconcile 100 (fun org p u hu => ?_) fun org p u _ => .refl u
    obtain ⟨m, -, hu⟩ := hu
    cases p with
    | campaigns =>
      intro listed u' _ _
      rw [(loading_editable hu).1]
      exact Moment.le_refl _
    | _ => trivial
  exact (Meets.here.after hjoined).after (.elsewhere rfl (Moment.le_refl _))

/-- Within five seconds the event comes back, for the other contact and from the old snapshot. -/
theorem Meets.dropped_reminder_from_old_snapshot :
    let dropped := (takenOut.reconcile editable 100 (.eventDropped 10)).2
    let again := (dropped.reconcile editable 100 (.joined 1 5 [2] midnight)).2
    (∀ r ∈ dropped.tables.db.fires, r.event = 10 → r.fired ≠ none) ∧
      ⟨1, 10, 2, "2024-01-01T01:00:00.000Z", none, none⟩ ∈ again.tables.db.fires ∧
      ∃ s, dropped.fresh? 1 = some s ∧ Lists 10 s.campaigns ∧ s.builtAt ≤ midnight := by
  intro dropped again
  have hk : editable.KeepTables := fun _ _ _ => rfl
  have hdrop : takenOut.reconcile editable 100 (.eventDropped 10) = (.ok ⟨1, 0⟩, dropped) :=
    Prod.ext (by decide +kernel) rfl
  have hrow : ⟨1, 10, 2, "2024-01-01T01:00:00.000Z", none, none⟩ ∈ again.tables.db.fires := by
    decide +kernel
  have hempty : dropped.tables.db.fires = [] := by decide +kernel
  have hdropped : Meets editable (ListedUntil editable 10 midnight) members dropped :=
    meets_takenOut.after (.onTables _ _)
  have homits : dropped.Omits editable (.joined 1 5 [2] midnight) 10 := by
    rintro org u ⟨m, -, hu⟩ listed u' hload ⟨ev, hev, -⟩
    have hrest : u.rest = [] := (loading_editable hu).2.trans (by decide +kernel)
    have hnothing : listed = [] ∧ u' = u := by
      simpa [editable, hrest, OrgData.source_set_self] using hload.symm
    simp [hnothing.1, allEvents] at hev
  obtain ⟨-, hsettled, -⟩ := dropped_event_only_from_old_snapshot hk rfl meets_takenOut 100
  obtain ⟨-, -, hfrom⟩ := dropped_event_only_from_old_snapshot hk rfl hdropped 100
  obtain ⟨-, hrows⟩ := hfrom _ homits
  obtain ⟨k, org, contacts, now, s, hchange, hs, hlists, hold, -⟩ :=
    (hrows _ hrow rfl).resolve_left (by simp [hempty])
  have horg : org = 1 := by
    cases k <;> cases hchange
    rfl
  exact ⟨hsettled _ _ hdrop, hrow, s, horg ▸ hs, hlists, hold⟩

/-- A dropped event that is no longer listed is scheduled for a contact who joins the group. -/
theorem dropped_event_scheduled_again :
    let dropped := takenOut.reconcile editable 100 (.eventDropped 10)
    let joined := dropped.2.reconcile editable 100 (.joined 1 5 [2] midnight)
    dropped.1 = .ok ⟨1, 0⟩ ∧ dropped.2.tables.db.fires = [] ∧
      (∀ org, (editable.load .campaigns org dropped.2).1 = .ok []) ∧
      joined.1 = .ok ⟨0, 1⟩ ∧
      joined.2.tables.db.fires = [⟨1, 10, 2, "2024-01-01T01:00:00.000Z", none, none⟩] := by
  intro dropped joined
  have hrest : dropped.2.rest = [] := by decide +kernel
  refine ⟨by decide +kernel, by decide +kernel, fun org => ?_, by decide +kernel,
    by decide +kernel⟩
  simp [editable, hrest, OrgData.source_set_self]

end

end Outreach
