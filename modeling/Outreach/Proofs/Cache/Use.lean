import Outreach.Cache.Flow
import Outreach.Proofs.Asset.Flow
import Outreach.Proofs.Cache
import Outreach.Proofs.Time.Stored

/-!
# Outreach.Proofs.Cache.Use

Runs of operations on the cache along a clock that goes forward, and what holds throughout: nothing
in a snapshot, neither a category nor a flow, was loaded before the time that the snapshot is of.

* `Used` — runs of operations. Whatever is loaded, what happens meanwhile is such a run again.
* `Meets` — the worlds that a run comes through, those in the middle of loading among them.
* `World.Holds` — what is known of a snapshot that the cache has made; `World.build_holds` says
  that a build makes such a one.
* `Onward` — what one operation keeps; `Used.onward` says that a run keeps it.
-/

namespace Outreach

open World

variable {δ : Type}

/-! ## Runs -/

/-- A category of an org is loaded from `u`, in the course of a refresh that begins in `w`. -/
inductive World.Loading (src : Sources δ) (org : OrgId) (m : Mask) (w : World δ) (p : Part)
    (u : World δ) : Prop where
  | anew (hnone : w.fresh? org = none) (hfree : w.cache.building.contains org = false)
      (h : Loads src org Part.all (w.setBuilding (org :: w.cache.building)) p u)
  | again {prev : Snapshot} (hprev : w.fresh? org = some prev) (hm : m ≠ .empty)
      (h : Loads src org (partsToRead (some prev) m) w p u)

/-- What is loaded: a category, or one flow. -/
inductive Load where
  | part (p : Part)
  | flow (ref : FlowRef)

/-- Runs of operations on the cache, with any changes elsewhere in between. Each load
satisfies `may`, and what happens while it lasts is a run again. Flows are looked up in snapshots
that the cache has made; a snapshot is got by a refresh of nothing (`World.get_eq_refresh`). -/
inductive Used (src : Sources δ) (may : Load → OrgId → World δ → Prop) :
    World δ → World δ → Prop where
  | refl (w : World δ) : Used src may w w
  | trans {u v w : World δ} (h : Used src may u v) (h' : Used src may v w) : Used src may u w
  | elsewhere {w w' : World δ} (hcache : w'.cache = w.cache) (hclock : w.clock ≤ w'.clock) :
    Used src may w w'
  | refresh (org : OrgId) (m : Mask) (w : World δ)
      (hmay : ∀ p u, w.Loading src org m p u → may (.part p) org u)
      (hloads : ∀ p u, w.Loading src org m p u → Used src may u (src.load p org u).2) :
    Used src may w (w.refresh src org m).2
  | flush (w : World δ) : Used src may w w.flush
  | flow (s : Snapshot) (ref : FlowRef) (w : World δ) (hs : s.shelf < w.cache.nextSerial s.org)
      (hmay : (w.shelfOf s).find? ref = none → may (.flow ref) s.org w)
      (hload : (w.shelfOf s).find? ref = none → Used src may w (src.loadFlow s.org ref w).2) :
    Used src may w (w.flow src s ref).2

/-- The worlds that a run comes through, also in the middle of loading. -/
inductive Meets (src : Sources δ) (may : Load → OrgId → World δ → Prop) (start : World δ) :
    World δ → Prop where
  | here : Meets src may start start
  | after {w w' : World δ} (h : Meets src may start w) (hu : Used src may w w') :
    Meets src may start w'
  | inside {w u : World δ} (h : Meets src may start w) {org : OrgId} {m : Mask}
      (hmay : ∀ q v, w.Loading src org m q v → may (.part q) org v)
      (hloads : ∀ q v, w.Loading src org m q v → Used src may v (src.load q org v).2)
      {p : Part} (hp : w.Loading src org m p u) :
    Meets src may start u

theorem World.get_eq_refresh (src : Sources δ) (org : OrgId) (w : World δ) :
    w.get src org = w.refresh src org .empty := by
  unfold get refresh
  cases w.fresh? org with
  | none => rfl
  | some s => rfl

/-! ## What is in a snapshot -/

variable {src : Sources δ} {may : Load → OrgId → World δ → Prop}

/-- Each category holds what was loaded at the time noted with it, which is not before the time that
the snapshot is of. -/
def Snapshot.PartsRead (src : Sources δ) (may : Load → OrgId → World δ → Prop) (s : Snapshot) :
    Prop :=
  ∀ p, ∃ u u' listed, may (.part p) s.org u ∧ src.load p s.org u = (.ok listed, u') ∧
    s.content p = p.index listed ∧ (s.parts p).readAt = u.clock ∧ s.builtAt ≤ u.clock

/-- Each flow on the shelf was loaded at the time noted with it, which is not before `t`. -/
def Shelf.Since (src : Sources δ) (may : Load → OrgId → World δ → Prop) (org : OrgId) (t : Instant)
    (shelf : Shelf) : Prop :=
  ∀ ref copy, shelf.find? ref = some copy →
    ∃ ref' u u', may (.flow ref') org u ∧ src.loadFlow org ref' u = (.ok (some copy.flow), u') ∧
      copy.loadedAt = u.clock ∧ t ≤ u.clock

namespace Shelf

variable {org : OrgId} {t : Instant} {shelf : Shelf}

theorem find?_empty (ref : FlowRef) : ({} : Shelf).find? ref = none := by
  cases ref <;> rfl

theorem find?_put {f : Flow} {ref : FlowRef} : (shelf.put t f).find? ref =
    if ref.names f then some ⟨shelf.supply, t, f⟩ else shelf.find? ref := by
  cases ref with
  | uuid u => simp only [find?, put, Index.find?_insert, FlowRef.names_uuid]
  | id n => simp only [find?, put, Index.find?_insert, FlowRef.names_id]

theorem since_empty (org : OrgId) (t : Instant) : Since src may org t {} := by
  intro ref copy h
  rw [find?_empty] at h
  cases h

theorem Since.put (h : shelf.Since src may org t) {ref : FlowRef} {u u' : World δ} {f : Flow}
    (hmay : may (.flow ref) org u) (hload : src.loadFlow org ref u = (.ok (some f), u'))
    (ht : t ≤ u.clock) :
    (shelf.put u.clock f).Since src may org t := by
  intro ref' copy hfind
  rw [find?_put] at hfind
  split at hfind
  · cases hfind
    exact ⟨ref, u, u', hmay, hload, rfl, ht⟩
  · exact h ref' copy hfind

end Shelf

namespace World

/-- The cache has made the snapshot, and nothing in it was loaded before the time that it is of. -/
structure Holds (src : Sources δ) (may : Load → OrgId → World δ → Prop) (w : World δ)
    (s : Snapshot) : Prop where
  built : s.builtAt ≤ w.clock
  shelf : s.shelf < w.cache.nextSerial s.org
  parts : s.PartsRead src may
  flows : (w.shelfOf s).Since src may s.org s.builtAt

theorem Holds.publish {w : World δ} {t : Snapshot} (ht : w.Holds src may t) (s : Snapshot) :
    Holds src may { w with cache := w.cache.publish s } t :=
  ⟨ht.built, ht.shelf, ht.parts, ht.flows⟩

/-- All entries are of snapshots that the cache has made, and shelves not yet given out are empty. -/
structure InOrder (src : Sources δ) (may : Load → OrgId → World δ → Prop) (w : World δ) : Prop where
  entries : ∀ org s, w.cache.entries.find? org = some s → s.org = org ∧ w.Holds src may s
  unmade : ∀ org n, w.cache.nextSerial org ≤ n → w.cache.shelf org n = {}

/-- Entries whose shelves are among the first, as `most` counts them, are of times up to `t`. -/
def Aged (t : Instant) (most : OrgId → Nat) (w : World δ) : Prop :=
  ∀ org s, w.cache.entries.find? org = some s → s.shelf < most org → s.builtAt ≤ t

theorem inOrder_of_new {w : World δ} {ttl : Span} (h : w.cache = { ttl }) :
    w.InOrder src may := by
  constructor
  case entries =>
    intro org s hs
    rw [h] at hs
    cases hs
  case unmade =>
    intro org n _
    rw [h]
    rfl

/-- At any time the entries are of times up to now. -/
theorem InOrder.aged {w : World δ} (hw : w.InOrder src may) :
    w.Aged w.clock w.cache.nextSerial :=
  fun org s hs _ => (hw.entries org s hs).2.built

/-- A snapshot that is served is an entry that is young enough. -/
theorem fresh?_eq_some_iff {w : World δ} {org : OrgId} {s : Snapshot} :
    w.fresh? org = some s ↔
      w.cache.entries.find? org = some s ∧ w.clock.since s.builtAt < w.cache.ttl := by
  unfold fresh?
  cases hfind : w.cache.entries.find? org with
  | none => simp
  | some t =>
    constructor
    · intro h
      by_cases hage : w.clock.since t.builtAt < w.cache.ttl
      · simp only [if_pos hage, Option.some.injEq] at h
        exact ⟨congrArg some h, h ▸ hage⟩
      · simp [if_neg hage] at h
    · rintro ⟨⟨⟩, hage⟩
      exact if_pos hage

end World

/-! ## What an operation keeps -/

/-- Time does not go back, the time to live stays, no number is given out twice, and the cache stays
in order. Snapshots that get a shelf that was there before are of times before that, too
(`aged`). -/
structure Onward (src : Sources δ) (may : Load → OrgId → World δ → Prop) (w w' : World δ) :
    Prop where
  clock : w.clock ≤ w'.clock
  ttl : w'.cache.ttl = w.cache.ttl
  serials : ∀ org, w.cache.nextSerial org ≤ w'.cache.nextSerial org
  holds : ∀ s, w.Holds src may s → w'.Holds src may s
  inOrder : w.InOrder src may → w'.InOrder src may
  aged : ∀ t most, (∀ org, most org ≤ w.cache.nextSerial org) → w.Aged t most → w'.Aged t most

namespace Onward

variable {u v w w' : World δ} {org : OrgId} {m : Mask} {s : Snapshot}

theorem trans (h : Onward src may u v) (h' : Onward src may v w) : Onward src may u w where
  clock := Moment.le_trans h.clock h'.clock
  ttl := h'.ttl.trans h.ttl
  serials org := Nat.le_trans (h.serials org) (h'.serials org)
  holds s hs := h'.holds s (h.holds s hs)
  inOrder hu := h'.inOrder (h.inOrder hu)
  aged t most hmost hu :=
    h'.aged t most (fun org => Nat.le_trans (hmost org) (h.serials org)) (h.aged t most hmost hu)

/-- The shelves stay as they are and no entry is new. -/
theorem of_entries (hclock : w.clock ≤ w'.clock) (httl : w'.cache.ttl = w.cache.ttl)
    (hserials : ∀ org, w.cache.nextSerial org ≤ w'.cache.nextSerial org)
    (hshelves : w'.cache.shelves = w.cache.shelves)
    (hentries : ∀ org s, w'.cache.entries.find? org = some s → w.cache.entries.find? org = some s) :
    Onward src may w w' := by
  have hshelf (org : OrgId) (n : Nat) : w'.cache.shelf org n = w.cache.shelf org n := by
    rw [Cache.shelf, Cache.shelf, hshelves]
  have hholds (s : Snapshot) (hs : w.Holds src may s) : w'.Holds src may s := by
    refine ⟨Moment.le_trans hs.built hclock, Nat.lt_of_lt_of_le hs.shelf (hserials _), hs.parts, ?_⟩
    rw [shelfOf, hshelf]
    exact hs.flows
  constructor
  case clock => exact hclock
  case ttl => exact httl
  case serials => exact hserials
  case holds => exact hholds
  case inOrder =>
    intro hw
    constructor
    case entries =>
      intro org s hs
      obtain ⟨horg, hs⟩ := hw.entries org s (hentries org s hs)
      exact ⟨horg, hholds s hs⟩
    case unmade =>
      intro org n hn
      rw [hshelf]
      exact hw.unmade org n (Nat.le_trans (hserials org) hn)
  case aged =>
    intro t most _ hw org s hs
    exact hw org s (hentries org s hs)

theorem refl (w : World δ) : Onward src may w w :=
  of_entries (Moment.le_refl _) rfl (fun _ => Nat.le_refl _) rfl fun _ _ hs => hs

theorem of_cache (hcache : w'.cache = w.cache) (hclock : w.clock ≤ w'.clock) :
    Onward src may w w' :=
  of_entries hclock (by rw [hcache]) (fun _ => Nat.le_of_eq (by rw [hcache])) (by rw [hcache])
    (fun _ _ hs => by rwa [hcache] at hs)

theorem setBuilding (w : World δ) (orgs : List OrgId) : Onward src may w (w.setBuilding orgs) :=
  of_entries (Moment.le_refl _) rfl (fun _ => Nat.le_refl _) rfl fun _ _ hs => hs

theorem flush (w : World δ) : Onward src may w w.flush :=
  of_entries (Moment.le_refl _) rfl (fun _ => Nat.le_refl _) rfl fun _ _ hs => by cases hs

/-- A snapshot that is published keeps the order if it has a new shelf or is as old as another with
its shelf. -/
theorem publish (h : Onward src may w w') (hs : w.InOrder src may → w'.Holds src may s)
    (haged : ∀ t most, (∀ org, most org ≤ w.cache.nextSerial org) → w.Aged t most →
      s.shelf < most s.org → s.builtAt ≤ t) :
    Onward src may w { w' with cache := w'.cache.publish s } := by
  have hentry {org : OrgId} {t : Snapshot}
      (ht : (w'.cache.publish s).entries.find? org = some t) :
      (s.org = org ∧ s = t) ∨ w'.cache.entries.find? org = some t := by
    simp only [Cache.publish, Index.find?_insert] at ht
    split at ht
    · cases ht
      exact .inl ⟨by assumption, rfl⟩
    · exact .inr ht
  constructor
  case clock => exact h.clock
  case ttl => exact h.ttl
  case serials => exact h.serials
  case holds =>
    intro t ht
    exact (h.holds t ht).publish s
  case inOrder =>
    intro hw
    constructor
    case entries =>
      intro org t ht
      rcases hentry ht with ⟨horg, rfl⟩ | ht
      · exact ⟨horg, (hs hw).publish s⟩
      · obtain ⟨horg, ht⟩ := (h.inOrder hw).entries org t ht
        exact ⟨horg, ht.publish s⟩
    case unmade => exact (h.inOrder hw).unmade
  case aged =>
    intro t most hmost hw org r hr hshelf
    rcases hentry hr with ⟨rfl, rfl⟩ | hr
    · exact haged t most hmost hw hshelf
    · exact h.aged t most hmost hw org r hr hshelf

end Onward

/-! ## Operations -/

namespace World

variable {org : OrgId} {m : Mask} {w w' : World δ}

/-- Each of these loads satisfies `may`, and what happens while it lasts keeps the order. -/
def LoadsWell (src : Sources δ) (may : Load → OrgId → World δ → Prop) (org : OrgId)
    (loads : Part → World δ → Prop) : Prop :=
  ∀ p u, loads p u → may (.part p) org u ∧ Onward src may u (src.load p org u).2

theorem LoadsWell.mono {loads loads' : Part → World δ → Prop} (h : LoadsWell src may org loads)
    (hsub : ∀ p u, loads' p u → loads p u) : LoadsWell src may org loads' :=
  fun p u hu => h p u (hsub p u hu)

theorem Loads.onward {ps : List Part} {p : Part} {u : World δ} (h : Loads src org ps w p u)
    (hl : LoadsWell src may org (Loads src org ps w)) : Onward src may w u :=
  h.kept .refl .trans fun q v hv => (hl q v hv).2

theorem readParts_onward {ps : List Part} {w : World δ}
    (hl : LoadsWell src may org (Loads src org ps w)) :
    Onward src may w (readParts src org ps w).2 :=
  readParts_kept .refl .trans fun p u hu => (hl p u hu).2

/-- A number for a snapshot is used up. -/
theorem onward_assemble (w : World δ) (prev : Option Snapshot) (b : Bool) (now : Instant)
    (rs : List Reading) :
    Onward src may w { w with cache := (w.cache.assemble org prev b now rs).2 } := by
  refine .of_entries (Moment.le_refl _) rfl (fun o => ?_) rfl fun _ _ hs => hs
  simp only [Cache.assemble, Cache.nextSerial, Index.find?_insert]
  split
  · rename_i ho
    subst ho
    exact Nat.le_succ _
  · exact Nat.le_refl _

theorem build_onward (prev : Option Snapshot)
    (hl : LoadsWell src may org (Loads src org (partsToRead prev m) w)) :
    Onward src may w (build src org prev m w).2 :=
  build_kept .refl .trans onward_assemble fun p u hu => (hl p u hu).2

/-- A built snapshot is of the time of the snapshot that the build starts from, or of now. -/
theorem build_builtAt {prev : Option Snapshot} {s : Snapshot}
    (h : build src org prev m w = (.ok s, w')) :
    (prev = none → s.builtAt = w.clock) ∧ ∀ t ∈ prev, s.builtAt = t.builtAt := by
  unfold build at h
  split at h
  · cases h
  · cases h
    cases prev with
    | none => exact ⟨fun _ => rfl, by simp⟩
    | some t => exact ⟨by simp, by rintro t' ⟨⟩; rfl⟩

theorem nextSerial_assemble (c : Cache) (prev : Option Snapshot) (b : Bool) (now : Instant)
    (rs : List Reading) :
    (c.assemble org prev b now rs).2.nextSerial org = c.nextSerial org + 1 := by
  simp [Cache.assemble, Cache.nextSerial, Index.find?_insert]

/-- A build that reads the flows anew, or starts from nothing, makes a shelf that was not given out
before. -/
theorem build_newShelf {prev : Option Snapshot} {s : Snapshot}
    (hl : LoadsWell src may org (Loads src org (partsToRead prev m) w))
    (h : build src org prev m w = (.ok s, w')) (hnew : prev = none ∨ m.reloads .flows = true) :
    w.cache.nextSerial org ≤ s.shelf ∧ s.shelf < w'.cache.nextSerial org ∧
      (w.InOrder src may → w'.cache.shelf org s.shelf = {}) := by
  have hread := readParts_onward hl
  unfold build at h
  split at h
  · cases h
  · rename_i rs w₁ hrs
    rw [hrs] at hread
    have hshelf : s.shelf = w₁.cache.nextSerial org := by
      cases h
      cases prev with
      | none => rfl
      | some t =>
        rcases hnew with hnone | hflows
        · cases hnone
        · exact if_pos hflows
    have hserial : w'.cache.nextSerial org = w₁.cache.nextSerial org + 1 := by
      cases h
      exact nextSerial_assemble w₁.cache prev (m.reloads .flows) w.clock rs
    have hkept (n : Nat) : w'.cache.shelf org n = w₁.cache.shelf org n := by
      cases h
      rfl
    rw [hshelf, hserial, hkept]
    refine ⟨hread.serials org, Nat.lt_succ_self _, fun hw => ?_⟩
    exact (hread.inOrder hw).unmade org _ (Nat.le_refl _)

/-- Any other build shares the shelf of the snapshot that it starts from. -/
theorem build_sameShelf {prev : Option Snapshot} {s : Snapshot}
    (h : build src org prev m w = (.ok s, w')) (hflows : m.reloads .flows = false) :
    ∀ t ∈ prev, s.shelf = t.shelf := by
  rintro t ⟨⟩
  unfold build at h
  split at h
  · cases h
  · cases h
    simp [hflows]

theorem build_shelf {prev : Option Snapshot} {s : Snapshot}
    (hl : LoadsWell src may org (Loads src org (partsToRead prev m) w))
    (h : build src org prev m w = (.ok s, w')) :
    (∃ t ∈ prev, s.shelf = t.shelf) ∨ (w.cache.nextSerial org ≤ s.shelf ∧
      s.shelf < w'.cache.nextSerial org ∧ (w.InOrder src may → w'.cache.shelf org s.shelf = {})) := by
  cases prev with
  | none => exact .inr (build_newShelf hl h (.inl rfl))
  | some t =>
    cases hflows : m.reloads .flows with
    | true => exact .inr (build_newShelf hl h (.inr hflows))
    | false => exact .inl ⟨t, rfl, build_sameShelf h hflows t rfl⟩

/-- A build starts from nothing or from a snapshot of the org that the cache has made. -/
def StartsFrom (src : Sources δ) (may : Load → OrgId → World δ → Prop) (org : OrgId)
    (prev : Option Snapshot) (w : World δ) : Prop :=
  ∀ t ∈ prev, t.org = org ∧ w.Holds src may t

theorem build_builtAt_le {prev : Option Snapshot} {s : Snapshot}
    (h : build src org prev m w = (.ok s, w')) (hprev : w.StartsFrom src may org prev) :
    s.builtAt ≤ w.clock := by
  obtain ⟨hnow, hsame⟩ := build_builtAt h
  cases prev with
  | none =>
    rw [hnow rfl]
    exact Moment.le_refl _
  | some t =>
    rw [hsame t rfl]
    exact (hprev t rfl).2.built

theorem build_partsRead {prev : Option Snapshot} {s : Snapshot}
    (hl : LoadsWell src may org (Loads src org (partsToRead prev m) w))
    (h : build src org prev m w = (.ok s, w')) (hprev : w.StartsFrom src may org prev) :
    s.PartsRead src may := by
  intro p
  obtain ⟨hin, hout⟩ := build_parts h p
  rw [build_org h]
  by_cases hp : p ∈ partsToRead prev m
  · obtain ⟨u, u', listed, hlist, hload, hread, hcontent⟩ := hin hp
    exact ⟨u, u', listed, (hl p u hlist).1, hload, hcontent, hread,
      Moment.le_trans (build_builtAt_le h hprev) (hlist.onward hl).clock⟩
  · obtain ⟨t, ht, hparts⟩ := hout hp
    obtain ⟨horg, hholds⟩ := hprev t ht
    have hread := hholds.parts p
    rw [horg, ← (build_builtAt h).2 t ht] at hread
    rwa [Snapshot.content, hparts]

/-- A snapshot is built in order, from nothing or from one that the cache has made. -/
theorem build_holds {prev : Option Snapshot} {s : Snapshot}
    (hl : LoadsWell src may org (Loads src org (partsToRead prev m) w))
    (h : build src org prev m w = (.ok s, w')) (hw : w.InOrder src may)
    (hprev : w.StartsFrom src may org prev) : w'.Holds src may s := by
  have hon : Onward src may w w' := by
    have := build_onward prev hl
    rwa [h] at this
  have horg := build_org h
  have hbuilt := Moment.le_trans (build_builtAt_le h hprev) hon.clock
  have hparts := build_partsRead hl h hprev
  rcases build_shelf hl h with ⟨t, ht, hshelf⟩ | ⟨-, hlt, hempty⟩
  · obtain ⟨htorg, htholds⟩ := hprev t ht
    obtain ⟨-, hlt, -, hflows⟩ := hon.holds t htholds
    rw [shelfOf, htorg, ← hshelf, ← (build_builtAt h).2 t ht] at hflows
    rw [htorg, ← hshelf] at hlt
    refine ⟨hbuilt, ?_, hparts, ?_⟩
    · rwa [horg]
    · rwa [shelfOf, horg]
  · refine ⟨hbuilt, ?_, hparts, ?_⟩
    · rwa [horg]
    · rw [shelfOf, horg, hempty hw]
      exact Shelf.since_empty org _

theorem buildFull_onward {w : World δ}
    (hl : LoadsWell src may org
      (Loads src org Part.all (w.setBuilding (org :: w.cache.building)))) :
    Onward src may w (buildFull src org w).2 := by
  have hbegin : Onward src may w (w.setBuilding (org :: w.cache.building)) := .setBuilding w _
  have hbuild := build_onward (m := .full) none hl
  unfold buildFull
  split
  · exact .refl w
  · split
    · rename_i e w₁ h
      rw [h] at hbuild
      exact (hbegin.trans hbuild).trans (.setBuilding _ _)
    · rename_i s w₁ h
      rw [h] at hbuild
      refine Onward.trans ?_ (.setBuilding _ _)
      unfold keep
      split
      · apply (hbegin.trans hbuild).publish
        · intro hw
          exact build_holds hl h (hbegin.inOrder hw) (by simp [StartsFrom])
        · intro t most hmost _ hlt
          rw [build_org h] at hlt
          rcases build_shelf hl h with ⟨t, ht, -⟩ | ⟨hnew, -⟩
          · cases ht
          · exact absurd hlt (Nat.not_lt.2 (Nat.le_trans (hmost org) hnew))
      · exact hbegin.trans hbuild

theorem refresh_onward {w : World δ} (hl : LoadsWell src may org (w.Loading src org m)) :
    Onward src may w (w.refresh src org m).2 := by
  unfold refresh
  split
  · rename_i hnone
    by_cases hfree : w.cache.building.contains org = false
    · exact buildFull_onward (hl.mono fun _ _ => .anew hnone hfree)
    · rw [buildFull, if_pos (by simpa using hfree)]
      exact .refl w
  · rename_i prev hprev
    split
    · exact .refl w
    · rename_i hm
      have hl' : LoadsWell src may org (Loads src org (partsToRead (some prev) m) w) :=
        hl.mono fun _ _ => .again hprev hm
      have hbuild := build_onward (some prev) hl'
      split
      · rename_i h
        rw [h] at hbuild
        exact hbuild
      · rename_i s w₁ h
        rw [h] at hbuild
        apply hbuild.publish
        · intro hw
          refine build_holds hl' h hw ?_
          rintro t ⟨⟩
          exact hw.entries org prev (fresh?_eq_some_iff.1 hprev).1
        · intro t most hmost haged hlt
          rw [build_org h] at hlt
          rw [(build_builtAt h).2 prev rfl]
          rcases build_shelf hl' h with ⟨_, ⟨⟩, hshelf⟩ | ⟨hnew, -⟩
          · rw [hshelf] at hlt
            exact haged org prev (fresh?_eq_some_iff.1 hprev).1 hlt
          · exact absurd hlt (Nat.not_lt.2 (Nat.le_trans (hmost org) hnew))

theorem demand_cases (src : Sources δ) (org : OrgId) (ref : FlowRef) (w : World δ) :
    (∃ e, demand src org ref w = (.error e, (src.loadFlow org ref w).2)) ∨
      ∃ f, (src.loadFlow org ref w).1 = .ok (some f) ∧
        demand src org ref w = (.ok f, (src.loadFlow org ref w).2) := by
  unfold demand
  cases src.loadFlow org ref w with
  | mk loaded w' =>
    cases loaded with
    | error e => exact .inl ⟨_, rfl⟩
    | ok found =>
      cases found with
      | none => exact .inl ⟨_, rfl⟩
      | some f => exact .inr ⟨f, rfl, rfl⟩

/-- A flow is put on the shelf of a snapshot. -/
def shelve (w : World δ) (s : Snapshot) (loadedAt : Instant) (f : Flow) : World δ :=
  { w with cache := w.cache.setShelf s.org s.shelf ((w.shelfOf s).put loadedAt f) }

theorem flow_of_hit {s : Snapshot} {ref : FlowRef} {copy : Shelved}
    (hfound : (w.shelfOf s).find? ref = some copy) : w.flow src s ref = (.ok copy.flow, w) := by
  simp only [flow, hfound]

/-- A flow that is not there is loaded, and put there if it is found. -/
theorem flow_of_miss (src : Sources δ) {s : Snapshot} {ref : FlowRef}
    (hnone : (w.shelfOf s).find? ref = none) :
    (∃ e, w.flow src s ref = (.error e, (src.loadFlow s.org ref w).2)) ∨
      ∃ f, (src.loadFlow s.org ref w).1 = .ok (some f) ∧
        w.flow src s ref = (.ok f, (src.loadFlow s.org ref w).2.shelve s w.clock f) := by
  rcases demand_cases src s.org ref w with ⟨e, hload⟩ | ⟨f, hfound, hload⟩
  · exact .inl ⟨e, by simp only [flow, hnone, hload]⟩
  · exact .inr ⟨f, hfound, by simp only [flow, hnone, hload, shelve]⟩

theorem shelf_shelve (w : World δ) (s : Snapshot) (loadedAt : Instant) (f : Flow) (org : OrgId)
    (n : Nat) : (w.shelve s loadedAt f).cache.shelf org n =
      if s.org = org ∧ s.shelf = n then (w.shelfOf s).put loadedAt f else w.cache.shelf org n := by
  simp only [shelve, Cache.setShelf, Cache.shelf, Index.find?_insert, Prod.mk.injEq]
  split <;> rfl

/-- Flows that are loaded after the time of every snapshot on the shelf keep all snapshots in
order. -/
theorem Holds.shelve {s t : Snapshot} (ht : w'.Holds src may t) {ref : FlowRef} {f : Flow}
    {u' : World δ} (hmay : may (.flow ref) s.org w)
    (hload : src.loadFlow s.org ref w = (.ok (some f), u'))
    (hbuilt : s.org = t.org → s.shelf = t.shelf → t.builtAt ≤ w.clock) :
    (w'.shelve s w.clock f).Holds src may t := by
  refine ⟨ht.built, ht.shelf, ht.parts, ?_⟩
  rw [shelfOf, shelf_shelve]
  split
  · rename_i hsame
    obtain ⟨horg, hshelf⟩ := hsame
    have hflows := ht.flows
    rw [shelfOf, ← horg, ← hshelf] at hflows
    rw [← horg]
    exact hflows.put hmay hload (hbuilt horg hshelf)
  · exact ht.flows

theorem onward_shelve {s : Snapshot} {ref : FlowRef} {f : Flow} (hmay : may (.flow ref) s.org w)
    (hload : src.loadFlow s.org ref w = (.ok (some f), w')) (h : Onward src may w w')
    (hs : s.shelf < w.cache.nextSerial s.org) : Onward src may w (w'.shelve s w.clock f) := by
  constructor
  case clock => exact h.clock
  case ttl => exact h.ttl
  case serials => exact h.serials
  case aged => exact h.aged
  case holds =>
    intro t ht
    exact (h.holds t ht).shelve hmay hload fun _ _ => ht.built
  case inOrder =>
    intro hw
    obtain ⟨hentries, hunmade⟩ := h.inOrder hw
    -- the shelf was there before the flow was loaded, so its snapshots are of times before that
    have haged := h.aged w.clock _ (fun _ => Nat.le_refl _) hw.aged
    constructor
    case entries =>
      intro org t ht
      obtain ⟨rfl, hholds⟩ := hentries org t ht
      refine ⟨rfl, hholds.shelve hmay hload ?_⟩
      intro horg hshelf
      rw [horg, hshelf] at hs
      exact haged t.org t ht hs
    case unmade =>
      intro org n hn
      rw [shelf_shelve, if_neg]
      · exact hunmade org n hn
      · rintro ⟨rfl, rfl⟩
        exact absurd hs (Nat.not_lt.2 (Nat.le_trans (h.serials _) hn))

theorem flow_onward {s : Snapshot} {ref : FlowRef} (hs : s.shelf < w.cache.nextSerial s.org)
    (hmay : (w.shelfOf s).find? ref = none → may (.flow ref) s.org w)
    (hload : (w.shelfOf s).find? ref = none → Onward src may w (src.loadFlow s.org ref w).2) :
    Onward src may w (w.flow src s ref).2 := by
  cases hfind : (w.shelfOf s).find? ref with
  | some copy =>
    rw [flow_of_hit hfind]
    exact .refl w
  | none =>
    rcases flow_of_miss src hfind with ⟨e, hflow⟩ | ⟨f, hloaded, hflow⟩
    · rw [hflow]
      exact hload hfind
    · rw [hflow]
      exact onward_shelve (hmay hfind) (Prod.ext hloaded rfl) (hload hfind) hs

end World

/-! ## Runs of operations -/

variable {start w w' : World δ}

theorem Used.onward (h : Used src may w w') : Onward src may w w' := by
  induction h with
  | refl w => exact .refl w
  | trans _ _ ih ih' => exact ih.trans ih'
  | elsewhere hcache hclock => exact .of_cache hcache hclock
  | refresh org m w hmay _ ih => exact refresh_onward fun p u hu => ⟨hmay p u hu, ih p u hu⟩
  | flush w => exact .flush w
  | flow s ref w hs hmay _ ih => exact flow_onward hs hmay ih

theorem World.Loading.onward {org : OrgId} {m : Mask} {p : Part} {u : World δ}
    (h : w.Loading src org m p u) (hl : LoadsWell src may org (w.Loading src org m)) :
    Onward src may w u := by
  cases h with
  | anew hnone hfree h =>
    exact (Onward.setBuilding w _).trans (h.onward (hl.mono fun _ _ => .anew hnone hfree))
  | again hprev hm h => exact h.onward (hl.mono fun _ _ => .again hprev hm)

theorem Meets.onward (h : Meets src may start w) : Onward src may start w := by
  induction h with
  | here => exact .refl start
  | after _ hu ih => exact ih.trans hu.onward
  | inside _ hmay hloads hp ih =>
    exact ih.trans (hp.onward fun q v hv => ⟨hmay q v hv, (hloads q v hv).onward⟩)

/-- From a new cache on, the cache is in order. -/
theorem Meets.inOrder (h : Meets src may start w) {ttl : Span} (hstart : start.cache = { ttl }) :
    w.InOrder src may :=
  h.onward.inOrder (inOrder_of_new hstart)

end Outreach
