import Outreach.Cache

/-!
# Outreach.Proofs.Cache

Getting a snapshot leaves the tables alone, if loading does, and finds the same zone and
campaigns as long as they do not change.

* `World.Loads` — the loads of categories that are read in turn; `World.readParts_kept` says that
  what each of them keeps is kept.
* `World.get_tables`, `World.refresh_tables` — the tables stay as they are.
* `World.build_parts`, `World.build_content` — what the categories of a snapshot hold, and from
  where.
* `World.get_steady`, `World.refresh_steady` — the snapshot of an org whose assets do not change.
* `World.Current.finds_get`, `World.Current.finds_refresh` — and of one whose snapshot is up to
  date.
* `Sources.fixed` — sources whose assets never change.
-/

namespace Outreach

/-- Loading assets leaves the tables alone. -/
def Sources.KeepTables {δ : Type} (src : Sources δ) : Prop :=
  ∀ p org w, (src.load p org w).2.tables = w.tables

namespace World

variable {δ : Type} {src : Sources δ}

/-! ## Loads one after the other -/

/-- The category is loaded from `u`, as one of those that are read in turn from `w` on. -/
inductive Loads (src : Sources δ) (org : OrgId) : List Part → World δ → Part → World δ → Prop where
  | here {p : Part} {ps : List Part} {w : World δ} : Loads src org (p :: ps) w p w
  | there {q p : Part} {ps : List Part} {w w' u : World δ} {listed : q.Source}
      (hload : src.load q org w = (.ok listed, w')) (h : Loads src org ps w' p u) :
    Loads src org (q :: ps) w p u

section

variable {org : OrgId} {ps : List Part} {w : World δ} {R : World δ → World δ → Prop}

/-- What holds of each load holds of reading categories up to a load, if it goes on from one to the
next. -/
theorem Loads.kept (hrefl : ∀ w, R w w) (htrans : ∀ {u v w}, R u v → R v w → R u w) {p : Part}
    {u : World δ} (h : Loads src org ps w p u)
    (hl : ∀ q v, Loads src org ps w q v → R v (src.load q org v).2) : R w u := by
  induction h with
  | here => exact hrefl _
  | there hload _ ih =>
    have hfirst := hl _ _ .here
    rw [hload] at hfirst
    exact htrans hfirst (ih fun q v hv => hl q v (.there hload hv))

/-- And of reading all of them. -/
theorem readParts_kept (hrefl : ∀ w, R w w) (htrans : ∀ {u v w}, R u v → R v w → R u w)
    (hl : ∀ p u, Loads src org ps w p u → R u (src.load p org u).2) :
    R w (readParts src org ps w).2 := by
  induction ps generalizing w with
  | nil => exact hrefl w
  | cons p ps ih =>
    have hfirst := hl p w .here
    simp only [readParts, readPart]
    cases hload : src.load p org w with
    | mk r w₁ =>
      rw [hload] at hfirst
      cases r with
      | error e => exact hfirst
      | ok listed =>
        have hrest := ih fun q v hv => hl q v (.there hload hv)
        simp only
        cases hread : readParts src org ps w₁ with
        | mk r' w₂ =>
          rw [hread] at hrest
          cases r' <;> exact htrans hfirst hrest

/-- A build besides uses up a number. -/
theorem build_kept (hrefl : ∀ w, R w w) (htrans : ∀ {u v w}, R u v → R v w → R u w)
    (hnumber : ∀ (u : World δ) prev b now rs,
      R u { u with cache := (u.cache.assemble org prev b now rs).2 })
    {prev : Option Snapshot} {m : Mask}
    (hl : ∀ p u, Loads src org (partsToRead prev m) w p u → R u (src.load p org u).2) :
    R w (build src org prev m w).2 := by
  have hread := readParts_kept hrefl htrans hl
  unfold build
  split
  · rename_i h
    rw [h] at hread
    exact hread
  · rename_i h
    rw [h] at hread
    exact htrans hread (hnumber _ _ _ _ _)

end

/-! ## The tables -/

theorem build_tables (hk : src.KeepTables) (org : OrgId) (prev : Option Snapshot) (m : Mask)
    (w : World δ) : (build src org prev m w).2.tables = w.tables :=
  build_kept (R := fun u v => v.tables = u.tables) (fun _ => rfl) (fun h h' => h'.trans h)
    (fun _ _ _ _ _ => rfl) fun p u _ => hk p org u

theorem keep_tables (w : World δ) (s : Snapshot) : (w.keep s).tables = w.tables := by
  unfold keep
  split <;> rfl

theorem buildFull_tables (hk : src.KeepTables) (org : OrgId) (w : World δ) :
    (buildFull src org w).2.tables = w.tables := by
  have h := build_tables hk org none .full (w.setBuilding (org :: w.cache.building))
  unfold buildFull
  split
  · rfl
  · split
    · rename_i h'
      rw [h'] at h
      exact h
    · rename_i s w' h'
      rw [h'] at h
      exact (keep_tables w' s).trans h

theorem get_tables (hk : src.KeepTables) (org : OrgId) (w : World δ) :
    (w.get src org).2.tables = w.tables := by
  unfold get
  split
  · rfl
  · exact buildFull_tables hk org w

theorem refresh_tables (hk : src.KeepTables) (org : OrgId) (m : Mask) (w : World δ) :
    (w.refresh src org m).2.tables = w.tables := by
  unfold refresh
  split
  · exact buildFull_tables hk org w
  · rename_i prev _
    split
    · rfl
    · have h := build_tables hk org (some prev) m w
      split <;> (rename_i h'; rw [h'] at h; exact h)

/-! ## An org whose assets do not change -/

/-- The snapshot that is kept of the org, if any, has this zone and these campaigns. -/
def Serves (w : World δ) (org : OrgId) (z : Zone) (cs : List Campaign) : Prop :=
  ∀ s, w.cache.entries.find? org = some s → s.org = org ∧ s.zone = z ∧ s.campaigns = cs

end World

/-- Whenever they are loaded, the zone and the campaigns of the org are the same; loading leaves
the tables and what is kept of the org alone. -/
structure Sources.Steady {δ : Type} (src : Sources δ) (org : OrgId) (z : Zone)
    (cs : List Campaign) : Prop where
  keepTables : src.KeepTables
  keepSnapshot : ∀ p o w, w.Serves org z cs → (src.load p o w).2.Serves org z cs
  zone : ∀ w w' e, src.load .environment org w = (.ok e, w') → e.timezone = z
  campaigns : ∀ w w' l, src.load .campaigns org w = (.ok l, w') → (AssetSet.ofList l).items = cs

namespace World

variable {δ : Type} {src : Sources δ} {org : OrgId} {z : Zone} {cs : List Campaign} {w : World δ}

/-- A category that was to be read was loaded; no other was read. -/
theorem readParts_of? {ps : List Part} {w w' : World δ} {rs : List Reading}
    (h : readParts src org ps w = (.ok rs, w')) (p : Part) :
    (p ∈ ps → ∃ u u' listed, Loads src org ps w p u ∧ src.load p org u = (.ok listed, u') ∧
      Reading.of? p rs = some (u.clock, p.index listed)) ∧
    (p ∉ ps → Reading.of? p rs = none) := by
  induction ps generalizing w rs with
  | nil =>
    cases h
    exact ⟨by simp, fun _ => rfl⟩
  | cons q ps ih =>
    unfold readParts at h
    split at h
    · cases h
    · rename_i r w₁ hr
      split at h
      · cases h
      · rename_i rs' w₂ hrs
        cases h
        obtain ⟨hin, hout⟩ := ih hrs
        unfold readPart at hr
        split at hr
        · cases hr
        · rename_i listed w₃ hload
          cases hr
          by_cases hq : q = p
          · subst hq
            exact ⟨fun _ => ⟨w, _, listed, .here, hload, by simp [Reading.of?]⟩, by simp⟩
          · have hskip (t : Instant) (c : q.Content) :
                Reading.of? p (⟨q, t, c⟩ :: rs') = Reading.of? p rs' := by
              simp [Reading.of?, hq]
            rw [hskip]
            refine ⟨fun hp => ?_, fun hp => hout fun hp' => hp (List.mem_cons_of_mem _ hp')⟩
            have hp' : p ∈ ps := (List.mem_cons.1 hp).resolve_left (Ne.symm hq)
            obtain ⟨u, u', listed', hloads, h⟩ := hin hp'
            exact ⟨u, u', listed', .there hload hloads, h⟩

/-- Each category of a snapshot that is built was loaded or is that of the snapshot that the build
starts from. -/
theorem build_parts {prev : Option Snapshot} {m : Mask} {w w' : World δ} {s : Snapshot}
    (h : build src org prev m w = (.ok s, w')) (p : Part) :
    (p ∈ partsToRead prev m → ∃ u u' listed, Loads src org (partsToRead prev m) w p u ∧
      src.load p org u = (.ok listed, u') ∧ (s.parts p).readAt = u.clock ∧
      s.content p = p.index listed) ∧
    (p ∉ partsToRead prev m → ∃ t ∈ prev, s.parts p = t.parts p) := by
  unfold build at h
  split at h
  · cases h
  · rename_i rs w₁ hrs
    cases h
    obtain ⟨hin, hout⟩ := readParts_of? hrs p
    simp only [Snapshot.content]
    refine ⟨fun hp => ?_, fun hp => ?_⟩
    · obtain ⟨u, u', listed, hloads, hload, hof⟩ := hin hp
      rw [hof]
      exact ⟨u, u', listed, hloads, hload, rfl, rfl⟩
    · rw [hout hp]
      cases prev with
      | none => exact absurd (Part.mem_all p) hp
      | some t => exact ⟨t, rfl, rfl⟩

/-- Each category of a snapshot that is built holds what loading listed or what it held before. -/
theorem build_content {prev : Option Snapshot} {m : Mask} {w w' : World δ} {s : Snapshot}
    (h : build src org prev m w = (.ok s, w')) (p : Part) {P : p.Content → Prop}
    (hread : p ∈ partsToRead prev m → ∀ u u' listed, src.load p org u = (.ok listed, u') →
      P (p.index listed))
    (hshared : ∀ t ∈ prev, p ∉ partsToRead prev m → P (t.content p)) :
    P (s.content p) := by
  obtain ⟨hin, hout⟩ := build_parts h p
  by_cases hp : p ∈ partsToRead prev m
  · obtain ⟨u, u', listed, -, hload, -, hcontent⟩ := hin hp
    rw [hcontent]
    exact hread hp _ _ _ hload
  · obtain ⟨t, ht, hparts⟩ := hout hp
    have hcontent : s.content p = t.content p := congrArg Edition.content hparts
    rw [hcontent]
    exact hshared t ht hp

theorem build_zone {prev : Option Snapshot} {m : Mask} {w w' : World δ} {s : Snapshot}
    (h : build src org prev m w = (.ok s, w'))
    (hread : .environment ∈ partsToRead prev m → ∀ u u' e,
      src.load .environment org u = (.ok e, u') → e.timezone = z)
    (hshared : ∀ t ∈ prev, .environment ∉ partsToRead prev m → t.zone = z) : s.zone = z :=
  build_content h .environment (P := fun e => e.timezone = z) hread hshared

theorem build_campaigns {prev : Option Snapshot} {m : Mask} {w w' : World δ} {s : Snapshot}
    (h : build src org prev m w = (.ok s, w'))
    (hread : .campaigns ∈ partsToRead prev m → ∀ u u' l,
      src.load .campaigns org u = (.ok l, u') → (AssetSet.ofList l).items = cs)
    (hshared : ∀ t ∈ prev, .campaigns ∉ partsToRead prev m → t.campaigns = cs) :
    s.campaigns = cs :=
  build_content h .campaigns (P := fun c => AssetSet.items c = cs) hread hshared

theorem build_org {prev : Option Snapshot} {m : Mask} {w w' : World δ} {s : Snapshot}
    (h : build src org prev m w = (.ok s, w')) : s.org = org := by
  unfold build at h
  split at h
  · cases h
  · cases h
    rfl

/-- A snapshot built from nothing or from one with this zone and these campaigns has them too. -/
theorem build_steady (hs : src.Steady org z cs) (prev : Option Snapshot) (m : Mask)
    {w : World δ} (hw : w.Serves org z cs)
    (hprev : ∀ s ∈ prev, s.zone = z ∧ s.campaigns = cs) :
    (build src org prev m w).2.Serves org z cs ∧
      ∀ s w', build src org prev m w = (.ok s, w') →
        s.org = org ∧ s.zone = z ∧ s.campaigns = cs := by
  refine ⟨?_, fun s w' hb => ⟨build_org hb, ?_, ?_⟩⟩
  · exact build_kept (R := fun u v => u.Serves org z cs → v.Serves org z cs) (fun _ h => h)
      (fun h h' hu => h' (h hu)) (fun _ _ _ _ _ h => h) (fun p u _ => hs.keepSnapshot p org u) hw
  · exact build_zone hb (fun _ => hs.zone) fun t ht _ => (hprev t ht).1
  · exact build_campaigns hb (fun _ => hs.campaigns) fun t ht _ => (hprev t ht).2

theorem serves_publish {w : World δ} {s : Snapshot}
    (hs : s.org = org ∧ s.zone = z ∧ s.campaigns = cs) :
    Serves { w with cache := w.cache.publish s } org z cs := by
  intro t ht
  have hfind : (w.cache.entries.insert s.org s).find? org = some t := ht
  rw [Index.find?_insert, if_pos hs.1] at hfind
  exact Option.some.inj hfind ▸ hs

/-- What is known of a snapshot of the org, and of the world once it was got. -/
def Steadied (org : OrgId) (z : Zone) (cs : List Campaign) (w : World δ)
    (found : Except AssetError Snapshot × World δ) : Prop :=
  found.2.tables = w.tables ∧ found.2.Serves org z cs ∧
    ∀ s, found.1 = .ok s → s.org = org ∧ s.zone = z ∧ s.campaigns = cs

theorem buildFull_steady (hs : src.Steady org z cs) {w : World δ} (hw : w.Serves org z cs) :
    Steadied org z cs w (buildFull src org w) := by
  refine ⟨buildFull_tables hs.keepTables org w, ?_⟩
  obtain ⟨hserves, hfound⟩ := build_steady hs none .full
    (w := w.setBuilding (org :: w.cache.building)) hw (by simp)
  unfold buildFull
  split
  · exact ⟨hw, fun s h => by cases h⟩
  · split
    · rename_i h
      rw [h] at hserves
      exact ⟨hserves, fun s h => by cases h⟩
    · rename_i s w' h
      rw [h] at hserves
      have hsnap := hfound s w' h
      refine ⟨?_, fun t ht => by cases ht; exact hsnap⟩
      show (w'.keep s).Serves org z cs
      unfold keep
      split
      · exact serves_publish hsnap
      · exact hserves

theorem fresh?_serves {w : World δ} (hw : w.Serves org z cs) {s : Snapshot}
    (h : w.fresh? org = some s) : s.org = org ∧ s.zone = z ∧ s.campaigns = cs := by
  unfold fresh? at h
  split at h
  · cases h
  · rename_i t ht
    split at h
    · cases h
      exact hw _ ht
    · cases h

theorem get_steady (hs : src.Steady org z cs) {w : World δ} (hw : w.Serves org z cs) :
    Steadied org z cs w (w.get src org) := by
  unfold get
  split
  · rename_i s h
    exact ⟨rfl, hw, fun t ht => by cases ht; exact fresh?_serves hw h⟩
  · exact buildFull_steady hs hw

theorem refresh_steady (hs : src.Steady org z cs) (m : Mask) {w : World δ}
    (hw : w.Serves org z cs) : Steadied org z cs w (w.refresh src org m) := by
  refine ⟨refresh_tables hs.keepTables org m w, ?_⟩
  unfold refresh
  split
  · exact (buildFull_steady hs hw).2
  · rename_i prev hprev
    have hknown := fresh?_serves hw hprev
    split
    · exact ⟨hw, fun t ht => by cases ht; exact hknown⟩
    · obtain ⟨hserves, hfound⟩ := build_steady hs (some prev) m hw
        (by rintro s ⟨⟩; exact hknown.2)
      split
      · rename_i h
        rw [h] at hserves
        exact ⟨hserves, fun s h => by cases h⟩
      · rename_i s w' h
        rw [h] at hserves
        exact ⟨serves_publish (hfound s w' h), fun t ht => by cases ht; exact hfound s w' h⟩

/-! ## An org whose snapshot is up to date -/

/-- The snapshot that is found, if any, is one of the org with this zone and these campaigns, and
looking it up leaves the tables alone. -/
structure Finds (org : OrgId) (z : Zone) (cs : List Campaign) (w : World δ)
    (found : Except AssetError Snapshot × World δ) : Prop where
  tables : found.2.tables = w.tables
  snapshot : ∀ s, found.1 = .ok s → s.org = org ∧ s.zone = z ∧ s.campaigns = cs

theorem Steadied.finds {found : Except AssetError Snapshot × World δ}
    (h : Steadied org z cs w found) : Finds org z cs w found :=
  ⟨h.1, h.2.2⟩

/-- The snapshot that is served of the org, if any, has the campaigns that loading lists, and its
zone counts; otherwise the zone that loading lists. -/
structure Current (src : Sources δ) (org : OrgId) (z : Zone) (cs : List Campaign) (w : World δ) :
    Prop where
  keepTables : src.KeepTables
  served : ∀ s, w.fresh? org = some s → s.org = org ∧ s.zone = z ∧ s.campaigns = cs
  campaigns : ∀ u u' l, src.load .campaigns org u = (.ok l, u') → (AssetSet.ofList l).items = cs
  zone : w.fresh? org = none →
    ∀ u u' e, src.load .environment org u = (.ok e, u') → e.timezone = z

theorem Current.finds_buildFull (hw : w.Current src org z cs) (hnone : w.fresh? org = none) :
    Finds org z cs w (buildFull src org w) := by
  refine ⟨buildFull_tables hw.keepTables org w, fun s hs => ?_⟩
  unfold buildFull at hs
  split at hs
  · cases hs
  · split at hs
    · cases hs
    · rename_i hb
      cases hs
      exact ⟨build_org hb, build_zone hb (fun _ => hw.zone hnone) (by simp),
        build_campaigns hb (fun _ => hw.campaigns) (by simp)⟩

theorem Current.finds_get (hw : w.Current src org z cs) :
    Finds org z cs w (w.get src org) := by
  unfold get
  split
  · rename_i s hs
    exact ⟨rfl, fun t ht => by cases ht; exact hw.served s hs⟩
  · rename_i hnone
    exact hw.finds_buildFull hnone

/-- Campaigns that are read anew are those that are served; the zone is not read anew. -/
theorem Current.finds_refresh (hw : w.Current src org z cs) :
    Finds org z cs w (w.refresh src org (.of (.part .campaigns))) := by
  refine ⟨refresh_tables hw.keepTables org _ w, fun s hs => ?_⟩
  unfold refresh at hs
  split at hs
  · rename_i hnone
    exact (hw.finds_buildFull hnone).snapshot s hs
  · rename_i prev hprev
    obtain ⟨horg, hz, hcs⟩ := hw.served prev hprev
    have hzone : Part.environment ∉ partsToRead (some prev) (.of (.part .campaigns)) := by
      simp [partsToRead, Mask.reloads_of]
    split at hs
    · cases hs
      exact ⟨horg, hz, hcs⟩
    · split at hs
      · cases hs
      · rename_i hb
        cases hs
        exact ⟨build_org hb,
          build_zone hb (fun h => absurd h hzone) (by rintro t ⟨⟩ -; exact hz),
          build_campaigns hb (fun _ => hw.campaigns) (by rintro t ⟨⟩ -; exact hcs)⟩

end World

/-! ## Sources that never change -/

/-- Sources that list the same data of an org at every load. -/
def Sources.fixed (data : OrgId → OrgData) : Sources Unit where
  load p org w := (.ok ((data org).source p), w)
  loadFlow org ref w := (.ok ((data org).flows.find? ref.names), w)

theorem Sources.steady_fixed (data : OrgId → OrgData) (org : OrgId) :
    (Sources.fixed data).Steady org ((data org).source .environment).timezone
      (AssetSet.ofList ((data org).source .campaigns)).items where
  keepTables _ _ _ := rfl
  keepSnapshot _ _ _ hw := hw
  zone _ _ _ h := by cases h; rfl
  campaigns _ _ _ h := by cases h; rfl

theorem World.current_of_steady {src : Sources Unit} {org : OrgId} {z : Zone}
    {cs : List Campaign} (hs : src.Steady org z cs) {w : World Unit} (hw : w.Serves org z cs) :
    w.Current src org z cs :=
  ⟨hs.keepTables, fun _ => fresh?_serves hw, hs.campaigns, fun _ => hs.zone⟩

/-- A world with the given tables, of which nothing is kept yet. -/
def World.ofTables (c : Connection) : World Unit :=
  { clock := ⟨0, 0⟩, cache := { ttl := 0 }, tables := c, rest := () }

theorem World.serves_ofTables (c : Connection) (org : OrgId) (z : Zone) (cs : List Campaign) :
    (World.ofTables c).Serves org z cs := by
  intro s h
  cases h

end Outreach
