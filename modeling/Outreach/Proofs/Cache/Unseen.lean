import Outreach.Proofs.Cache.Edits

/-!
# Outreach.Proofs.Cache.Unseen

Differences between two worlds that whoever asks for certain orgs cannot see.

* `World.Unseen` — a relation between worlds that agree on all that is looked up for these orgs,
  and stay related when the same is loaded or edited in both.
* `World.Unseen.refresh`, `World.Unseen.flow`, `World.Unseen.simulate` — then the answers are the
  same and the worlds stay related, with one lemma for each function.
-/

namespace Outreach

variable {δ : Type}

/-- The results are the same, and the worlds related. -/
structure Both {α : Type} (R : World δ → World δ → Prop) (x y : α × World δ) : Prop where
  result : x.1 = y.1
  world : R x.2 y.2

/-- Both fail for the same reason, or both succeed with the same result. -/
theorem Both.error_or_ok {α ε : Type} {R : World δ → World δ → Prop} {x y : Except ε α × World δ}
    (h : Both R x y) :
    (∃ e v v', x = (.error e, v) ∧ y = (.error e, v') ∧ R v v') ∨
      ∃ a v v', x = (.ok a, v) ∧ y = (.ok a, v') ∧ R v v' := by
  obtain ⟨r, v⟩ := x
  obtain ⟨r', v'⟩ := y
  obtain ⟨rfl, hv⟩ := h
  cases r with
  | error e => exact .inl ⟨e, v, v', rfl, rfl, hv⟩
  | ok a => exact .inr ⟨a, v, v', rfl, rfl, hv⟩

namespace World

/-- Related worlds agree on what is looked up for these orgs, and what is loaded for them is the
same. Loads and edits keep the worlds related. -/
structure Unseen (src : Sources δ) (mine : OrgId → Prop) (R : World δ → World δ → Prop) : Prop where
  clock : ∀ {w w'}, R w w' → w.clock = w'.clock
  ttl : ∀ {w w'}, R w w' → w.cache.ttl = w'.cache.ttl
  entry : ∀ {w w' org}, R w w' → mine org →
    w.cache.entries.find? org = w'.cache.entries.find? org
  serial : ∀ {w w' org}, R w w' → mine org → w.cache.nextSerial org = w'.cache.nextSerial org
  shelf : ∀ {w w' org} n, R w w' → mine org → w.cache.shelf org n = w'.cache.shelf org n
  building : ∀ {w w' org}, R w w' → mine org →
    w.cache.building.contains org = w'.cache.building.contains org
  edit : ∀ {w w'} e, R w w' → R (w.edit e) (w'.edit e)
  load : ∀ {w w' org} p, R w w' → mine org → Both R (src.load p org w) (src.load p org w')
  loadFlow : ∀ {w w' org} ref, R w w' → mine org →
    Both R (src.loadFlow org ref w) (src.loadFlow org ref w')

namespace Unseen

variable {src : Sources δ} {mine : OrgId → Prop} {R : World δ → World δ → Prop}
  {w w' : World δ} {org : OrgId}

/-! ## Snapshots -/

theorem fresh? (hR : Unseen src mine R) (h : R w w') (ho : mine org) :
    w.fresh? org = w'.fresh? org := by
  unfold World.fresh?
  rw [hR.entry h ho, hR.clock h, hR.ttl h]

theorem keep (hR : Unseen src mine R) (h : R w w') (s : Snapshot) : R (w.keep s) (w'.keep s) := by
  have hage : (w.clock.since s.builtAt < w.cache.ttl) =
      (w'.clock.since s.builtAt < w'.cache.ttl) := by
    rw [hR.clock h, hR.ttl h]
  simp only [World.keep, hage]
  split
  · exact hR.edit (.publish s) h
  · exact h

theorem readPart (hR : Unseen src mine R) (h : R w w') (ho : mine org) (p : Part) :
    Both R (World.readPart src org p w) (World.readPart src org p w') := by
  unfold World.readPart
  obtain ⟨e, v, v', hx, hy, hv⟩ | ⟨listed, v, v', hx, hy, hv⟩ := (hR.load p h ho).error_or_ok
  · rw [hx, hy]
    exact ⟨rfl, hv⟩
  · rw [hx, hy]
    exact ⟨by simp only [hR.clock h], hv⟩

theorem readParts (hR : Unseen src mine R) (ps : List Part) (h : R w w') (ho : mine org) :
    Both R (World.readParts src org ps w) (World.readParts src org ps w') := by
  induction ps generalizing w w' with
  | nil => exact ⟨rfl, h⟩
  | cons p ps ih =>
    unfold World.readParts
    obtain ⟨e, v, v', hx, hy, hv⟩ | ⟨r, v, v', hx, hy, hv⟩ := (hR.readPart h ho p).error_or_ok
    · rw [hx, hy]
      exact ⟨rfl, hv⟩
    · simp only [hx, hy]
      obtain ⟨e, u, u', hx, hy, hu⟩ | ⟨rs, u, u', hx, hy, hu⟩ := (ih hv).error_or_ok
      · rw [hx, hy]
        exact ⟨rfl, hu⟩
      · rw [hx, hy]
        exact ⟨rfl, hu⟩

/-- What is put together is the same, and the number after it is given out. -/
theorem assemble (hR : Unseen src mine R) (h : R w w') (ho : mine org) (prev : Option Snapshot)
    (b : Bool) (now : Instant) (rs : List Reading) :
    (w.cache.assemble org prev b now rs).1 = (w'.cache.assemble org prev b now rs).1 ∧
      R { w with cache := (w.cache.assemble org prev b now rs).2 }
        { w' with cache := (w'.cache.assemble org prev b now rs).2 } := by
  have hcount := hR.edit (.count org (w.cache.nextSerial org + 1)) h
  have hserial := hR.serial h ho
  constructor
  · simp only [Cache.assemble, hserial]
  · simp only [World.edit, Cache.edit] at hcount
    simp only [Cache.assemble]
    rw [← hserial]
    exact hcount

theorem build (hR : Unseen src mine R) (prev : Option Snapshot) (m : Mask) (h : R w w')
    (ho : mine org) : Both R (World.build src org prev m w) (World.build src org prev m w') := by
  unfold World.build
  obtain ⟨e, v, v', hx, hy, hv⟩ | ⟨rs, v, v', hx, hy, hv⟩ :=
    (hR.readParts (partsToRead prev m) h ho).error_or_ok
  · rw [hx, hy]
    exact ⟨rfl, hv⟩
  · obtain ⟨hsnap, hworld⟩ := hR.assemble hv ho prev (m.reloads .flows) w.clock rs
    simp only [hx, hy, ← hR.clock h]
    exact ⟨congrArg Except.ok hsnap, hworld⟩

theorem buildFull (hR : Unseen src mine R) (h : R w w') (ho : mine org) :
    Both R (World.buildFull src org w) (World.buildFull src org w') := by
  have hmark : R (w.setBuilding (org :: w.cache.building))
      (w'.setBuilding (org :: w'.cache.building)) := hR.edit (.mark org) h
  unfold World.buildFull
  rw [hR.building h ho]
  split
  · exact ⟨rfl, h⟩
  · obtain ⟨e, v, v', hx, hy, hv⟩ | ⟨s, v, v', hx, hy, hv⟩ :=
      (hR.build none .full hmark ho).error_or_ok
    · rw [hx, hy]
      exact ⟨rfl, hR.edit (.unmark org) hv⟩
    · have hbuilding (u : World δ) : (u.keep s).cache.building = u.cache.building := by
        unfold World.keep
        split <;> rfl
      rw [hx, hy]
      simp only [← hbuilding v, ← hbuilding v']
      exact ⟨rfl, hR.edit (.unmark org) (hR.keep hv s)⟩

theorem get (hR : Unseen src mine R) (h : R w w') (ho : mine org) :
    Both R (w.get src org) (w'.get src org) := by
  unfold World.get
  rw [hR.fresh? h ho]
  split
  · exact ⟨rfl, h⟩
  · exact hR.buildFull h ho

theorem refresh (hR : Unseen src mine R) (m : Mask) (h : R w w') (ho : mine org) :
    Both R (w.refresh src org m) (w'.refresh src org m) := by
  unfold World.refresh
  rw [hR.fresh? h ho]
  split
  · exact hR.buildFull h ho
  · rename_i prev _
    split
    · exact ⟨rfl, h⟩
    · obtain ⟨e, v, v', hx, hy, hv⟩ | ⟨s, v, v', hx, hy, hv⟩ :=
        (hR.build (some prev) m h ho).error_or_ok
      · rw [hx, hy]
        exact ⟨rfl, hv⟩
      · rw [hx, hy]
        exact ⟨rfl, hR.edit (.publish s) hv⟩

/-! ## Flows -/

theorem demand (hR : Unseen src mine R) (ref : FlowRef) (h : R w w') (ho : mine org) :
    Both R (World.demand src org ref w) (World.demand src org ref w') := by
  unfold World.demand
  obtain ⟨e, v, v', hx, hy, hv⟩ | ⟨f, v, v', hx, hy, hv⟩ := (hR.loadFlow ref h ho).error_or_ok
  · rw [hx, hy]
    exact ⟨rfl, hv⟩
  · rw [hx, hy]
    cases f <;> exact ⟨rfl, hv⟩

theorem flow (hR : Unseen src mine R) {s : Snapshot} (ref : FlowRef) (h : R w w')
    (ho : mine s.org) : Both R (w.flow src s ref) (w'.flow src s ref) := by
  unfold World.flow shelfOf
  rw [hR.shelf s.shelf h ho]
  split
  · exact ⟨rfl, h⟩
  · obtain ⟨e, v, v', hx, hy, hv⟩ | ⟨f, v, v', hx, hy, hv⟩ := (hR.demand ref h ho).error_or_ok
    · rw [hx, hy]
      exact ⟨rfl, hv⟩
    · simp only [hx, hy, hR.clock h, hR.shelf s.shelf hv ho]
      exact ⟨rfl, hR.edit (.shelve s.org s.shelf _) hv⟩

theorem flowOn (hR : Unseen src mine R) (shelf : Shelf) (ref : FlowRef) (h : R w w')
    (ho : mine org) :
    Both R (World.flowOn src org shelf ref w) (World.flowOn src org shelf ref w') := by
  unfold World.flowOn
  split
  · exact ⟨rfl, h⟩
  · obtain ⟨e, v, v', hx, hy, hv⟩ | ⟨f, v, v', hx, hy, hv⟩ := (hR.demand ref h ho).error_or_ok
    · rw [hx, hy]
      exact ⟨rfl, hv⟩
    · rw [hx, hy]
      exact ⟨by simp only [hR.clock h], hv⟩

theorem replaceFlows (hR : Unseen src mine R) (l : List (Uuid × JsonValue)) (shelf : Shelf)
    (h : R w w') (ho : mine org) :
    Both R (World.replaceFlows src org l shelf w) (World.replaceFlows src org l shelf w') := by
  induction l generalizing shelf w w' with
  | nil => exact ⟨rfl, h⟩
  | cons r l ih =>
    unfold World.replaceFlows
    obtain ⟨e, v, v', hx, hy, hv⟩ | ⟨copy, v, v', hx, hy, hv⟩ :=
      (hR.flowOn shelf (.uuid r.1) h ho).error_or_ok
    · rw [hx, hy]
      cases e <;> exact ⟨rfl, hv⟩
    · rw [hx, hy]
      exact ih _ hv

theorem simulate (hR : Unseen src mine R) {s : Snapshot} (l : List (Uuid × JsonValue))
    (extra : List Channel) (h : R w w') (ho : mine s.org) :
    Both R (w.simulate src s l extra) (w'.simulate src s l extra) := by
  unfold World.simulate
  obtain ⟨e, v, v', hx, hy, hv⟩ | ⟨shelf, v, v', hx, hy, hv⟩ :=
    (hR.replaceFlows l {} h ho).error_or_ok
  · rw [hx, hy]
    exact ⟨rfl, hv⟩
  · have hcount := hR.edit (.count s.org (v'.cache.nextSerial s.org + 1)) hv
    simp only [hx, hy, hR.serial hv ho]
    exact ⟨rfl, hR.edit (.shelve s.org (v'.cache.nextSerial s.org) shelf) hcount⟩

end Unseen
end World
end Outreach
