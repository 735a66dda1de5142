import Outreach.Proofs.Cache.Use

/-!
# Outreach.Proofs.Cache.Edits

All that the operations for an org can do: load its assets, and edit its part of the cache.

* `Cache.Edit` — the ways to change a cache, each on the part of one org.
* `World.Within` — what changes by loads and edits for one org. Whatever is asked for the org is of
  this kind, with one lemma for each function, up to `World.refresh_within` and
  `World.simulate_within`. `World.refresh_kept` says what a refresh keeps.
* `World.Filed` — each entry is a snapshot of the org that it is kept for.
-/

namespace Outreach

/-! ## Edits -/

/-- How a cache is changed. -/
inductive Cache.Edit where
  | publish (s : Snapshot)
  /-- So many numbers are given out. -/
  | count (org : OrgId) (n : Nat)
  | shelve (org : OrgId) (n : Nat) (shelf : Shelf)
  /-- A full build begins. -/
  | mark (org : OrgId)
  | unmark (org : OrgId)

namespace Cache

def Edit.org : Edit → OrgId
  | .publish s => s.org
  | .count org _ | .shelve org _ _ | .mark org | .unmark org => org

/-- No shelf is changed. -/
def Edit.KeepsShelves : Edit → Prop
  | .shelve _ _ _ => False
  | _ => True

def edit (c : Cache) : Edit → Cache
  | .publish s => c.publish s
  | .count org n => { c with supply := c.supply.insert org n }
  | .shelve org n shelf => c.setShelf org n shelf
  | .mark org => { c with building := org :: c.building }
  | .unmark org => { c with building := c.building.erase org }

variable (c : Cache) (e : Edit) (org : OrgId)

@[simp] theorem edit_ttl : (c.edit e).ttl = c.ttl := by
  cases e <;> rfl

/-- The entry of another org stays, as do its numbers, its shelves and its builds. -/
theorem find?_edit {e : Edit} (h : e.org ≠ org) :
    (c.edit e).entries.find? org = c.entries.find? org := by
  cases e with
  | publish s => exact (Index.find?_insert c.entries s.org org s).trans (if_neg h)
  | count => rfl
  | shelve => rfl
  | mark => rfl
  | unmark => rfl

theorem nextSerial_edit {e : Edit} (h : e.org ≠ org) :
    (c.edit e).nextSerial org = c.nextSerial org := by
  cases e with
  | publish => rfl
  | count o n =>
    have ho : ¬ o = org := h
    simp only [edit, nextSerial, Index.find?_insert, if_neg ho]
  | shelve => rfl
  | mark => rfl
  | unmark => rfl

theorem shelf_edit {e : Edit} (h : e.org ≠ org) (n : Nat) :
    (c.edit e).shelf org n = c.shelf org n := by
  cases e with
  | publish => rfl
  | count => rfl
  | shelve o m shelf =>
    have hne : ¬ (o, m) = (org, n) := fun heq => h (Prod.mk.inj heq).1
    simp only [edit, setShelf, Cache.shelf, Index.find?_insert, if_neg hne]
  | mark => rfl
  | unmark => rfl

theorem shelves_edit {e : Edit} (h : e.KeepsShelves) : (c.edit e).shelves = c.shelves := by
  cases e with
  | publish => rfl
  | count => rfl
  | shelve => exact h.elim
  | mark => rfl
  | unmark => rfl

theorem count_building_edit {e : Edit} (h : e.org ≠ org) :
    (c.edit e).building.count org = c.building.count org := by
  cases e with
  | publish => rfl
  | count => rfl
  | shelve => rfl
  | mark o => exact List.count_cons_of_ne h
  | unmark o => exact List.count_erase_of_ne h.symm

end Cache

namespace World

variable {δ : Type}

def edit (w : World δ) (e : Cache.Edit) : World δ := { w with cache := w.cache.edit e }

/-- An entry is published only for the org that it is of. -/
def Filed (w : World δ) : Prop :=
  ∀ org s, w.cache.entries.find? org = some s → s.org = org

theorem Filed.edit {w : World δ} (h : w.Filed) (e : Cache.Edit) : (w.edit e).Filed := by
  cases e with
  | publish s =>
    intro org t ht
    have hfind := (Index.find?_insert w.cache.entries s.org org s).symm.trans ht
    split at hfind
    · cases hfind
      assumption
    · exact h org t hfind
  | count => exact h
  | shelve => exact h
  | mark => exact h
  | unmark => exact h

end World

/-- Loading files no snapshot under another org. -/
structure Sources.KeepFiled {δ : Type} (src : Sources δ) : Prop where
  load : ∀ p org w, w.Filed → (src.load p org w).2.Filed
  loadFlow : ∀ org ref w, w.Filed → (src.loadFlow org ref w).2.Filed

/-! ## What is done for an org -/

namespace World

variable {δ : Type}

/-- What happens for one org: its assets are loaded, and its part of the cache is edited. -/
inductive Within (src : Sources δ) (org : OrgId) : World δ → World δ → Prop where
  | refl (w : World δ) : Within src org w w
  | trans {u v w : World δ} (h : Within src org u v) (h' : Within src org v w) : Within src org u w
  | load (p : Part) (w : World δ) : Within src org w (src.load p org w).2
  | loadFlow (ref : FlowRef) (w : World δ) : Within src org w (src.loadFlow org ref w).2
  | edit {e : Cache.Edit} (h : e.org = org) (w : World δ) : Within src org w (w.edit e)

variable {src : Sources δ} {org : OrgId}

theorem Within.filed (hsrc : src.KeepFiled) {w w' : World δ} (h : Within src org w w')
    (hw : w.Filed) : w'.Filed := by
  induction h with
  | refl w => exact hw
  | trans _ _ ih ih' => exact ih' (ih hw)
  | load p w => exact hsrc.load p org w hw
  | loadFlow ref w => exact hsrc.loadFlow org ref w hw
  | edit _ w => exact hw.edit _

/-! ### Snapshots -/

section

variable {K : World δ → World δ → Prop} (hrefl : ∀ w, K w w)
  (htrans : ∀ {u v w}, K u v → K v w → K u w)
  (hedit : ∀ {e : Cache.Edit} w, e.org = org → e.KeepsShelves → K w (w.edit e))

include hrefl hedit

theorem keep_kept (w : World δ) {s : Snapshot} (hs : s.org = org) : K w (w.keep s) := by
  unfold keep
  split
  · exact hedit (e := .publish s) w hs trivial
  · exact hrefl w

include htrans

theorem buildFull_kept {w : World δ}
    (hl : ∀ p u, Loads src org Part.all (w.setBuilding (org :: w.cache.building)) p u →
      K u (src.load p org u).2) : K w (buildFull src org w).2 := by
  have hmark : K w (w.setBuilding (org :: w.cache.building)) := hedit (e := .mark org) w rfl trivial
  have hbuild : K (w.setBuilding (org :: w.cache.building))
      (build src org none .full (w.setBuilding (org :: w.cache.building))).2 :=
    build_kept hrefl htrans
      (fun u _ _ _ _ => hedit (e := .count org (u.cache.nextSerial org + 1)) u rfl trivial) hl
  unfold buildFull
  split
  · exact hrefl w
  · split
    · rename_i e w₁ h
      rw [h] at hbuild
      exact htrans hmark (htrans hbuild (hedit (e := .unmark org) w₁ rfl trivial))
    · rename_i s w₁ h
      rw [h] at hbuild
      have hkeep : K w₁ (w₁.keep s) := keep_kept hrefl hedit w₁ (build_org h)
      have hbuilding : (w₁.keep s).cache.building = w₁.cache.building := by
        unfold keep
        split <;> rfl
      have hunmark : K (w₁.keep s) ((w₁.keep s).setBuilding (w₁.cache.building.erase org)) := by
        rw [← hbuilding]
        exact hedit (e := .unmark org) _ rfl trivial
      exact htrans hmark (htrans hbuild (htrans hkeep hunmark))

/-- What loads and edits keep that leave the shelves alone, a refresh keeps. -/
theorem refresh_kept {m : Mask} {w : World δ}
    (hl : ∀ p u, w.Loading src org m p u → K u (src.load p org u).2) :
    K w (w.refresh src org m).2 := by
  unfold refresh
  split
  · rename_i hnone
    by_cases hfree : w.cache.building.contains org = false
    · exact buildFull_kept hrefl htrans hedit fun p u hu => hl p u (.anew hnone hfree hu)
    · rw [buildFull, if_pos (eq_true_of_ne_false hfree)]
      exact hrefl w
  · rename_i prev hprev
    split
    · exact hrefl w
    · rename_i hm
      have hbuild : K w (build src org (some prev) m w).2 :=
        build_kept hrefl htrans
          (fun u _ _ _ _ => hedit (e := .count org (u.cache.nextSerial org + 1)) u rfl trivial)
          fun p u hu => hl p u (.again hprev hm hu)
      split
      · rename_i h
        rw [h] at hbuild
        exact hbuild
      · rename_i s w₁ h
        rw [h] at hbuild
        exact htrans hbuild (hedit (e := .publish s) w₁ (build_org h) trivial)

end

theorem refresh_within (m : Mask) (w : World δ) : Within src org w (w.refresh src org m).2 :=
  refresh_kept .refl .trans (fun w he _ => .edit he w) fun p u _ => .load p u

theorem get_within (w : World δ) : Within src org w (w.get src org).2 := by
  rw [get_eq_refresh]
  exact refresh_within .empty w

/-! ### Flows -/

theorem demand_within (ref : FlowRef) (w : World δ) :
    Within src org w (demand src org ref w).2 := by
  have hload : Within src org w (src.loadFlow org ref w).2 := .loadFlow ref w
  unfold demand
  split <;> (rename_i h; rw [h] at hload; exact hload)

theorem flow_within (s : Snapshot) (ref : FlowRef) (w : World δ) :
    Within src s.org w (w.flow src s ref).2 := by
  have hdemand : Within src s.org w (demand src s.org ref w).2 := demand_within ref w
  unfold flow
  split
  · exact .refl w
  · split
    · rename_i h
      rw [h] at hdemand
      exact hdemand
    · rename_i f w₁ h
      rw [h] at hdemand
      exact hdemand.trans (.edit (e := .shelve s.org s.shelf ((w₁.shelfOf s).put w.clock f)) rfl w₁)

theorem flowOn_within (shelf : Shelf) (ref : FlowRef) (w : World δ) :
    Within src org w (flowOn src org shelf ref w).2 := by
  have hdemand : Within src org w (demand src org ref w).2 := demand_within ref w
  unfold flowOn
  split
  · exact .refl w
  · split <;> (rename_i h; rw [h] at hdemand; exact hdemand)

theorem replaceFlows_within (l : List (Uuid × JsonValue)) (shelf : Shelf) (w : World δ) :
    Within src org w (replaceFlows src org l shelf w).2 := by
  induction l generalizing shelf w with
  | nil => exact .refl w
  | cons r l ih =>
    have hone : Within src org w (flowOn src org shelf (.uuid r.1) w).2 := flowOn_within shelf _ w
    unfold replaceFlows
    split
    · rename_i h
      rw [h] at hone
      exact hone
    · rename_i h
      rw [h] at hone
      exact hone
    · rename_i h
      rw [h] at hone
      exact hone.trans (ih _ _)

theorem simulate_within (s : Snapshot) (l : List (Uuid × JsonValue)) (extra : List Channel)
    (w : World δ) : Within src s.org w (w.simulate src s l extra).2 := by
  have hreplace : Within src s.org w (replaceFlows src s.org l {} w).2 := replaceFlows_within l {} w
  unfold simulate
  split
  · rename_i h
    rw [h] at hreplace
    exact hreplace
  · rename_i shelf w₁ h
    rw [h] at hreplace
    have hcount : Within src s.org w₁ _ :=
      .edit (e := .count s.org (w₁.cache.nextSerial s.org + 1)) rfl w₁
    exact hreplace.trans (hcount.trans
      (.edit (e := .shelve s.org (w₁.cache.nextSerial s.org) shelf) rfl _))

/-! ## Whose snapshots are handed out -/

theorem fresh?_org {w : World δ} {s : Snapshot} (hw : w.Filed) (h : w.fresh? org = some s) :
    s.org = org :=
  hw org s (fresh?_eq_some_iff.1 h).1

theorem buildFull_org {w w' : World δ} {s : Snapshot} (h : buildFull src org w = (.ok s, w')) :
    s.org = org := by
  unfold buildFull at h
  split at h
  · cases h
  · split at h
    · cases h
    · rename_i hb
      cases h
      exact build_org hb

/-- A snapshot that is got or refreshed is of the org that asked. -/
theorem refresh_org {w w' : World δ} {m : Mask} {s : Snapshot} (hw : w.Filed)
    (h : w.refresh src org m = (.ok s, w')) : s.org = org := by
  unfold refresh at h
  split at h
  · exact buildFull_org h
  · rename_i prev hprev
    split at h
    · cases h
      exact fresh?_org hw hprev
    · split at h
      · cases h
      · rename_i hb
        cases h
        exact build_org hb

theorem get_org {w w' : World δ} {s : Snapshot} (hw : w.Filed)
    (h : w.get src org = (.ok s, w')) : s.org = org :=
  refresh_org hw ((get_eq_refresh src org w).symm.trans h)

theorem simulate_org {w w' : World δ} {s t : Snapshot} {l : List (Uuid × JsonValue)}
    {extra : List Channel} (h : w.simulate src s l extra = (.ok t, w')) : t.org = s.org := by
  unfold simulate at h
  split at h
  · cases h
  · cases h
    rfl

end World
end Outreach
