import Mathlib.Logic.Relator
import Outreach.Proofs.Asset.Flow
import Outreach.Proofs.Cache.Edits
import Outreach.Proofs.Cache.Staleness

/-!
# Outreach.Proofs.Cache.Lineage

The shelf that snapshots share which were refreshed from one another, and the flows on it.

* `Shelf.InStep` — both ways to find a flow find the same copies.
* `Shelf.Holds` — the copies on a shelf, in the order in which they were put there; `Holds.put`.
* `World.NewShelf` — how a shelf begins: empty, or with the flows of a simulation.
* `Lineage` — runs in which flows are put on a shelf only by looking them up.
* `Lineage.holds` — copies stay, and none is replaced.
* `Lineage.found_for_good` — the main result.
-/

namespace Outreach

/-! ## Shelves -/

namespace Index

variable {κ α : Type} [DecidableEq κ]

/-- Items that are found by a key of their own. -/
theorem find?_keyed (key : α → κ) (as : List α) (k : κ) :
    find? ⟨as.map fun a => (key a, a)⟩ k = as.find? fun a => decide (key a = k) := by
  simp only [find?]
  induction as with
  | nil => rfl
  | cons a as ih =>
    simp only [List.map_cons, findIn, List.find?_cons, ih]
    by_cases h : key a = k <;> simp [h]

/-- The item takes the place of the one that has its key, or comes last. -/
def setKeyed (key : α → κ) (a : α) : List α → List α
  | [] => [a]
  | b :: bs => if key b = key a then a :: bs else b :: setKeyed key a bs

variable {key : α → κ} {a : α} {as : List α}

theorem insert_keyed (key : α → κ) (a : α) (as : List α) :
    insert ⟨as.map fun b => (key b, b)⟩ (key a) a =
      ⟨(setKeyed key a as).map fun b => (key b, b)⟩ := by
  simp only [insert, mk.injEq]
  induction as with
  | nil => rfl
  | cons b bs ih =>
    rw [List.map_cons, setIn, setKeyed, ih]
    split <;> rfl

theorem setKeyed_of_new (h : ∀ b ∈ as, key b ≠ key a) : setKeyed key a as = as ++ [a] := by
  induction as with
  | nil => rfl
  | cons b bs ih =>
    obtain ⟨hb, hbs⟩ := List.forall_mem_cons.1 h
    rw [setKeyed, if_neg hb, ih hbs, List.cons_append]

theorem setKeyed_congr {κ' : Type} [DecidableEq κ'] {key' : α → κ'}
    (h : ∀ b ∈ as, key b = key a ↔ key' b = key' a) : setKeyed key a as = setKeyed key' a as := by
  induction as with
  | nil => rfl
  | cons b bs ih =>
    obtain ⟨hb, hbs⟩ := List.forall_mem_cons.1 h
    simp only [setKeyed, hb, ih hbs]

theorem mem_setKeyed {b : α} (h : b ∈ setKeyed key a as) : b = a ∨ b ∈ as := by
  induction as with
  | nil => exact .inl (List.mem_singleton.1 h)
  | cons c cs ih =>
    unfold setKeyed at h
    split at h
    · exact (List.mem_cons.1 h).imp_right (List.mem_cons_of_mem c)
    · rcases List.mem_cons.1 h with rfl | h
      · exact .inr List.mem_cons_self
      · exact (ih h).imp_right (List.mem_cons_of_mem c)

/-- What tells the items apart does so still, if it tells the new one from all that stay. -/
theorem nodup_setKeyed {β : Type} {f : α → β} (hkeys : (as.map key).Nodup) (h : (as.map f).Nodup)
    (hnew : ∀ b ∈ as, key b ≠ key a → f b ≠ f a) : ((setKeyed key a as).map f).Nodup := by
  induction as with
  | nil => exact List.nodup_singleton _
  | cons b bs ih =>
    rw [List.map_cons, List.nodup_cons] at hkeys h
    obtain ⟨hb, hbs⟩ := List.forall_mem_cons.1 hnew
    unfold setKeyed
    split
    · rename_i hsame
      rw [List.map_cons, List.nodup_cons]
      refine ⟨fun hmem => ?_, h.2⟩
      obtain ⟨c, hc, heq⟩ := List.mem_map.1 hmem
      refine hbs c hc (fun hkey => ?_) heq
      exact hkeys.1 (List.mem_map.2 ⟨c, hc, hkey.trans hsame.symm⟩)
    · rename_i hother
      rw [List.map_cons, List.nodup_cons]
      refine ⟨fun hmem => ?_, ih hkeys.2 h.2 hbs⟩
      obtain ⟨c, hc, heq⟩ := List.mem_map.1 hmem
      rcases mem_setKeyed hc with rfl | hc
      · exact hb hother heq.symm
      · exact h.1 (List.mem_map.2 ⟨c, hc, heq⟩)

end Index

namespace Shelf

/-- Both ways to find a flow find the same copies. Each is found by its identifier and by its
number, and by no other; they are told apart, and all are counted. -/
structure InStep (shelf : Shelf) : Prop where
  values : shelf.byUuid.values = shelf.byId.values
  found : ∀ copy ∈ shelf.byId.values,
    shelf.find? (.uuid copy.flow.uuid) = some copy ∧ shelf.find? (.id copy.flow.id) = some copy
  named : ∀ ref copy, shelf.find? ref = some copy →
    copy ∈ shelf.byId.values ∧ ref.names copy.flow
  distinct : (shelf.byId.values.map Shelved.serial).Nodup
  size : shelf.size = shelf.byId.values.length

/-- The copies on a shelf, in the order in which they were put there. Their identifiers and numbers
are related. -/
structure Holds (R : FlowId → Uuid → Prop) (shelf : Shelf) (copies : List Shelved) : Prop where
  byUuid : shelf.byUuid = ⟨copies.map fun c => (c.flow.uuid, c)⟩
  byId : shelf.byId = ⟨copies.map fun c => (c.flow.id, c)⟩
  related : ∀ c ∈ copies, R c.flow.id c.flow.uuid
  ids : (copies.map fun c => c.flow.id).Nodup
  serials : (copies.map Shelved.serial).Nodup
  supplied : ∀ c ∈ copies, c.serial < shelf.supply

variable {R : FlowId → Uuid → Prop} {shelf : Shelf} {copies : List Shelved}

theorem holds_empty (R : FlowId → Uuid → Prop) : Holds R {} [] :=
  ⟨rfl, rfl, by simp, .nil, .nil, by simp⟩

namespace Holds

/-- What is found is a copy of a flow that the reference names. -/
theorem of_find? (h : shelf.Holds R copies) {ref : FlowRef} {c : Shelved}
    (hfind : shelf.find? ref = some c) : c ∈ copies ∧ ref.names c.flow := by
  cases ref with
  | uuid u =>
    rw [find?, h.byUuid, Index.find?_keyed] at hfind
    have hname := List.find?_some hfind
    exact ⟨List.mem_of_find?_eq_some hfind, FlowRef.names_uuid.2 (of_decide_eq_true hname)⟩
  | id n =>
    rw [find?, h.byId, Index.find?_keyed] at hfind
    have hname := List.find?_some hfind
    exact ⟨List.mem_of_find?_eq_some hfind, FlowRef.names_id.2 (of_decide_eq_true hname)⟩

/-- A number stands for one copy. -/
theorem eq_of_id (h : shelf.Holds R copies) {c d : Shelved} (hc : c ∈ copies) (hd : d ∈ copies)
    (hid : c.flow.id = d.flow.id) : c = d :=
  List.inj_on_of_nodup_map h.ids hc hd hid

theorem eq_of_names (hR : Relator.BiUnique R) (h : shelf.Holds R copies) {c d : Shelved}
    (hc : c ∈ copies) (hd : d ∈ copies) {ref : FlowRef} (hcn : ref.names c.flow)
    (hdn : ref.names d.flow) : c = d := by
  cases ref with
  | uuid u =>
    have huuid := (FlowRef.names_uuid.1 hcn).trans (FlowRef.names_uuid.1 hdn).symm
    exact h.eq_of_id hc hd (hR.1 (h.related c hc) (huuid ▸ h.related d hd))
  | id n => exact h.eq_of_id hc hd ((FlowRef.names_id.1 hcn).trans (FlowRef.names_id.1 hdn).symm)

theorem find?_of_names (hR : Relator.BiUnique R) (h : shelf.Holds R copies) {ref : FlowRef}
    {c : Shelved} (hc : c ∈ copies) (hname : ref.names c.flow) : shelf.find? ref = some c := by
  have hsome : ∃ d, shelf.find? ref = some d := by
    cases ref with
    | uuid u =>
      rw [find?, h.byUuid, Index.find?_keyed, ← Option.isSome_iff_exists, List.find?_isSome]
      exact ⟨c, hc, decide_eq_true (FlowRef.names_uuid.1 hname)⟩
    | id n =>
      rw [find?, h.byId, Index.find?_keyed, ← Option.isSome_iff_exists, List.find?_isSome]
      exact ⟨c, hc, decide_eq_true (FlowRef.names_id.1 hname)⟩
  obtain ⟨d, hd⟩ := hsome
  obtain ⟨hmem, hdn⟩ := h.of_find? hd
  rw [hd, h.eq_of_names hR hmem hc hdn hname]

theorem inStep (hR : Relator.BiUnique R) (h : shelf.Holds R copies) : shelf.InStep := by
  have hvalues : shelf.byUuid.values = copies ∧ shelf.byId.values = copies := by
    simp only [h.byUuid, h.byId, Index.values, List.map_map]
    exact ⟨List.map_id' copies, List.map_id' copies⟩
  constructor
  case values => rw [hvalues.1, hvalues.2]
  case found =>
    rw [hvalues.2]
    exact fun c hc => ⟨h.find?_of_names hR hc (FlowRef.names_uuid.2 rfl),
      h.find?_of_names hR hc (FlowRef.names_id.2 rfl)⟩
  case named =>
    rw [hvalues.2]
    exact fun ref c hfind => h.of_find? hfind
  case distinct =>
    rw [hvalues.2]
    exact h.serials
  case size =>
    simp only [size, Index.size, Index.values, List.length_map]

/-- A flow that is put there takes the place of the copy with its number, or comes last. -/
theorem put (hR : Relator.BiUnique R) (h : shelf.Holds R copies) {f : Flow} (hf : R f.id f.uuid)
    (t : Instant) : (shelf.put t f).Holds R
      (Index.setKeyed (fun c => c.flow.id) ⟨shelf.supply, t, f⟩ copies) := by
  have hmem {c : Shelved}
      (hc : c ∈ Index.setKeyed (fun c => c.flow.id) ⟨shelf.supply, t, f⟩ copies) :
      c = ⟨shelf.supply, t, f⟩ ∨ c ∈ copies := Index.mem_setKeyed hc
  have hfresh : ∀ c ∈ copies, c.serial ≠ shelf.supply := fun c hc => Nat.ne_of_lt (h.supplied c hc)
  constructor
  case byUuid =>
    -- the copy with its number is the one with its identifier
    have hsame : Index.setKeyed (fun c => c.flow.id) ⟨shelf.supply, t, f⟩ copies =
        Index.setKeyed (fun c => c.flow.uuid) ⟨shelf.supply, t, f⟩ copies :=
      Index.setKeyed_congr fun c hc =>
        ⟨fun hid => hR.2 (h.related c hc) (hid ▸ hf),
          fun huuid => hR.1 (h.related c hc) (huuid ▸ hf)⟩
    simp only [Shelf.put, h.byUuid]
    rw [hsame]
    exact Index.insert_keyed (fun c => c.flow.uuid) ⟨shelf.supply, t, f⟩ copies
  case byId =>
    simp only [Shelf.put, h.byId]
    exact Index.insert_keyed (fun c => c.flow.id) ⟨shelf.supply, t, f⟩ copies
  case related =>
    intro c hc
    rcases hmem hc with rfl | hc
    · exact hf
    · exact h.related c hc
  case ids => exact Index.nodup_setKeyed h.ids h.ids fun c _ hid => hid
  case serials => exact Index.nodup_setKeyed h.ids h.serials fun c hc _ => hfresh c hc
  case supplied =>
    intro c hc
    rcases hmem hc with rfl | hc
    · exact Nat.lt_succ_self _
    · exact Nat.lt_succ_of_lt (h.supplied c hc)

/-- A flow that is not there comes behind the others. -/
theorem put_of_miss (hR : Relator.BiUnique R) (h : shelf.Holds R copies) {ref : FlowRef} {f : Flow}
    (hnone : shelf.find? ref = none) (hname : ref.names f) (hf : R f.id f.uuid) (t : Instant) :
    (shelf.put t f).Holds R (copies ++ [⟨shelf.supply, t, f⟩]) := by
  have hnew : ∀ c ∈ copies, c.flow.id ≠ f.id := by
    intro c hc hid
    have huuid : c.flow.uuid = f.uuid := hR.2 (h.related c hc) (hid ▸ hf)
    have hcn : ref.names c.flow := FlowRef.names_congr hid huuid ref ▸ hname
    rw [h.find?_of_names hR hc hcn] at hnone
    cases hnone
  have hput := h.put hR hf t
  rwa [Index.setKeyed_of_new hnew] at hput

end Holds
end Shelf

/-! ## Runs -/

open World

variable {δ : Type}

/-- A snapshot of the org with the shelf is asked for a flow. When it is loaded, the shelf stays as
it is; what is loaded is what was asked for, its number and its identifier related. -/
structure World.Looks (src : Sources δ) (org : OrgId) (n : Nat) (R : FlowId → Uuid → Prop)
    (s : Snapshot) (ref : FlowRef) (w : World δ) : Prop where
  sameOrg : s.org = org
  sameShelf : s.shelf = n
  kept : (w.cache.shelf org n).find? ref = none →
    (src.loadFlow org ref w).2.cache.shelf org n = w.cache.shelf org n
  honours : (w.cache.shelf org n).find? ref = none →
    ∀ f, (src.loadFlow org ref w).1 = .ok (some f) → ref.names f ∧ R f.id f.uuid

/-- Runs in which flows come to a shelf only by being looked up, in any snapshot with that shelf. -/
inductive Lineage (src : Sources δ) (org : OrgId) (n : Nat) (R : FlowId → Uuid → Prop) :
    World δ → World δ → Prop where
  | refl (w : World δ) : Lineage src org n R w w
  | trans {u v w : World δ} (h : Lineage src org n R u v) (h' : Lineage src org n R v w) :
    Lineage src org n R u w
  | elsewhere {w w' : World δ} (h : w'.cache.shelf org n = w.cache.shelf org n) :
    Lineage src org n R w w'
  | lookup {s : Snapshot} {ref : FlowRef} {w : World δ} (h : w.Looks src org n R s ref) :
    Lineage src org n R w (w.flow src s ref).2

variable {src : Sources δ} {org : OrgId} {n : Nat} {R : FlowId → Uuid → Prop} {s : Snapshot}
  {ref : FlowRef} {start u v w w' : World δ} {m : Mask}

/-- The shelf is new: empty, or filled by a simulation just made, for which only flows with related
numbers and identifiers could be loaded. -/
inductive World.NewShelf (src : Sources δ) (org : OrgId) (n : Nat) (R : FlowId → Uuid → Prop)
    (w : World δ) : Prop where
  | empty (h : w.cache.shelf org n = {})
  | simulated {v : World δ} {s t : Snapshot} {l : List (Uuid × JsonValue)} {extra : List Channel}
      (hload : ∀ ref u f, Within src org v u → (src.loadFlow org ref u).1 = .ok (some f) →
        R f.id f.uuid)
      (horg : s.org = org) (hshelf : t.shelf = n) (h : v.simulate src s l extra = (.ok t, w))

theorem World.replaceFlows_holds (hR : Relator.BiUnique R) (l : List (Uuid × JsonValue))
    {shelf shelf' : Shelf} {copies : List Shelved}
    (hload : ∀ ref u f, Within src org w u → (src.loadFlow org ref u).1 = .ok (some f) →
      R f.id f.uuid) (h : shelf.Holds R copies)
    (hdone : replaceFlows src org l shelf w = (.ok shelf', w')) :
    ∃ copies', shelf'.Holds R copies' := by
  induction l generalizing shelf copies w with
  | nil =>
    cases hdone
    exact ⟨copies, h⟩
  | cons r l ih =>
    unfold replaceFlows at hdone
    split at hdone
    · cases hdone
    · cases hdone
    · rename_i copy w₁ hcopy
      have hwithin : Within src org w w₁ := by
        have hone : Within src org w (flowOn src org shelf (.uuid r.1) w).2 := flowOn_within _ _ w
        rwa [hcopy] at hone
      have hrelated : R copy.flow.id copy.flow.uuid := by
        unfold flowOn at hcopy
        split at hcopy
        · rename_i hfind
          cases hcopy
          exact h.related copy (h.of_find? hfind).1
        · rcases demand_cases src org (.uuid r.1) w with ⟨e, hmiss⟩ | ⟨f, hfound, hmiss⟩
          · rw [hmiss] at hcopy
            cases hcopy
          · rw [hmiss] at hcopy
            cases hcopy
            exact hload _ w f (.refl w) hfound
      have hput := h.put (f := { copy.flow with definition := r.2 }) hR hrelated copy.loadedAt
      exact ih (fun ref u f hu => hload ref u f (hwithin.trans hu)) hput hdone

theorem World.NewShelf.holds (hR : Relator.BiUnique R) (h : start.NewShelf src org n R) :
    ∃ copies, (start.cache.shelf org n).Holds R copies := by
  cases h with
  | empty h => exact ⟨[], h ▸ Shelf.holds_empty R⟩
  | simulated hload horg hshelf h =>
    subst horg hshelf
    unfold simulate at h
    split at h
    · cases h
    · rename_i hdone
      cases h
      simp only [Cache.shelf, Cache.setShelf, Index.find?_insert, if_true, Option.getD_some]
      exact replaceFlows_holds hR _ hload (Shelf.holds_empty R) hdone

/-- A refresh is such a run if its loads are. -/
theorem Lineage.refresh {o : OrgId}
    (hl : ∀ p u, w.Loading src o m p u → Lineage src org n R u (src.load p o u).2) :
    Lineage src org n R w (w.refresh src o m).2 :=
  refresh_kept .refl .trans
    (fun v _ hkeeps => .elsewhere (congrArg (fun shelves => (shelves.find? (org, n)).getD {})
      (Cache.shelves_edit v.cache hkeeps))) hl

/-- A snapshot that is refreshed without its flows shares its shelf with the new one. -/
theorem World.refresh_shelf {prev : Snapshot} (hprev : w.fresh? org = some prev)
    (horg : prev.org = org) (hm : m.reloads .flows = false)
    (h : w.refresh src org m = (.ok s, w')) : s.org = org ∧ s.shelf = prev.shelf := by
  simp only [World.refresh, hprev] at h
  split at h
  · cases h
    exact ⟨horg, rfl⟩
  · split at h
    · cases h
    · rename_i hb
      cases h
      refine ⟨build_org hb, ?_⟩
      unfold build at hb
      split at hb
      · cases hb
      · cases hb
        simp only [hm, Bool.false_eq_true, if_false]

namespace World.Looks

theorem shelfOf_eq (h : w.Looks src org n R s ref) : w.shelfOf s = w.cache.shelf org n := by
  rw [World.shelfOf, h.sameOrg, h.sameShelf]

/-- A lookup of a flow that is not there fails, or puts on the shelf what was asked for. -/
theorem flow_of_miss (h : w.Looks src org n R s ref)
    (hnone : (w.cache.shelf org n).find? ref = none) :
    (∃ e, w.flow src s ref = (.error e, (src.loadFlow org ref w).2) ∧
      (src.loadFlow org ref w).2.cache.shelf org n = w.cache.shelf org n) ∨
    ∃ f u, w.flow src s ref = (.ok f, u) ∧ ref.names f ∧ R f.id f.uuid ∧
      u.cache.shelf org n = (w.cache.shelf org n).put w.clock f := by
  obtain ⟨rfl, rfl, hkept, hhonours⟩ := h
  specialize hkept hnone
  specialize hhonours hnone
  rcases World.flow_of_miss src hnone with ⟨e, hflow⟩ | ⟨f, hfound, hflow⟩
  · exact .inl ⟨e, hflow, hkept⟩
  · obtain ⟨hname, hf⟩ := hhonours f hfound
    refine .inr ⟨f, _, hflow, hname, hf, ?_⟩
    rw [shelf_shelve, if_pos ⟨rfl, rfl⟩, World.shelfOf, hkept]

/-- What is found stands on the shelf from then on. -/
theorem find?_of_ok (hR : Relator.BiUnique R) {copies : List Shelved}
    (h : w.Looks src org n R s ref) (hw : (w.cache.shelf org n).Holds R copies) {f : Flow}
    (hflow : w.flow src s ref = (.ok f, u)) :
    ref.names f ∧ ∃ copy, copy.flow = f ∧ (u.cache.shelf org n).find? ref = some copy := by
  cases hfind : (w.cache.shelf org n).find? ref with
  | some copy =>
    rw [flow_of_hit (h.shelfOf_eq ▸ hfind)] at hflow
    cases hflow
    exact ⟨(hw.of_find? hfind).2, copy, rfl, hfind⟩
  | none =>
    rcases h.flow_of_miss hfind with ⟨e, hmiss, -⟩ | ⟨g, u', hmiss, hname, hg, hput⟩
    · rw [hmiss] at hflow
      cases hflow
    · rw [hmiss] at hflow
      cases hflow
      refine ⟨hname, ⟨(w.cache.shelf org n).supply, w.clock, f⟩, rfl, ?_⟩
      rw [hput]
      exact (hw.put_of_miss hR hfind hname hg w.clock).find?_of_names hR
        (List.mem_append_right copies (List.mem_singleton.2 rfl)) hname

end World.Looks

namespace Lineage

/-- Copies stay where they are, and new ones come behind them. -/
theorem holds (hR : Relator.BiUnique R) (h : Lineage src org n R u v) {copies : List Shelved}
    (hu : (u.cache.shelf org n).Holds R copies) :
    ∃ copies', copies <+: copies' ∧ (v.cache.shelf org n).Holds R copies' := by
  induction h generalizing copies with
  | refl w => exact ⟨copies, List.prefix_rfl, hu⟩
  | trans _ _ ih ih' =>
    obtain ⟨copies₁, hle, hv⟩ := ih hu
    obtain ⟨copies₂, hle', hw⟩ := ih' hv
    exact ⟨copies₂, hle.trans hle', hw⟩
  | elsewhere hsame => exact ⟨copies, List.prefix_rfl, hsame ▸ hu⟩
  | @lookup s ref w hlooks =>
    cases hfind : (w.cache.shelf org n).find? ref with
    | some copy =>
      rw [flow_of_hit (hlooks.shelfOf_eq ▸ hfind)]
      exact ⟨copies, List.prefix_rfl, hu⟩
    | none =>
      rcases hlooks.flow_of_miss hfind with ⟨e, hflow, hsame⟩ | ⟨f, u, hflow, hname, hf, hput⟩
      · rw [hflow]
        exact ⟨copies, List.prefix_rfl, hsame ▸ hu⟩
      · rw [hflow, hput]
        exact ⟨_, List.prefix_append copies _, hu.put_of_miss hR hfind hname hf w.clock⟩

theorem exists_holds (hR : Relator.BiUnique R) (hstart : start.NewShelf src org n R)
    (h : Lineage src org n R start w) : ∃ copies, (w.cache.shelf org n).Holds R copies := by
  obtain ⟨copies, hnew⟩ := hstart.holds hR
  obtain ⟨copies', -, hw⟩ := h.holds hR hnew
  exact ⟨copies', hw⟩

/-- A copy that is on the shelf is found ever after. -/
theorem find?_of_find? (hR : Relator.BiUnique R) (h : Lineage src org n R u v)
    {copies : List Shelved} (hu : (u.cache.shelf org n).Holds R copies) {copy : Shelved}
    (hfind : (u.cache.shelf org n).find? ref = some copy) {ref' : FlowRef}
    (hname : ref'.names copy.flow) : (v.cache.shelf org n).find? ref' = some copy := by
  obtain ⟨copies', hle, hv⟩ := h.holds hR hu
  exact hv.find?_of_names hR (hle.subset (hu.of_find? hfind).1) hname

/-- Flow lookups in the snapshots that share a shelf, along a run from when the shelf was new, the
number and the identifier of a flow determining each other. The two ways to find a flow are in
step. Once a flow was found, that very copy is found by either reference, whatever there is to load
from. A lookup that fails changes nothing. Snapshots refreshed without their flows share the
shelf. -/
theorem found_for_good (hR : Relator.BiUnique R) (hstart : start.NewShelf src org n R)
    (h : Lineage src org n R start w) :
    (w.cache.shelf org n).InStep ∧
    (∀ s ref f u, w.Looks src org n R s ref → w.flow src s ref = (.ok f, u) →
      ref.names f ∧ ∃ copy, copy.flow = f ∧
        ∀ v, Lineage src org n R u v → ∀ s' ref', s'.org = org → s'.shelf = n → ref'.names f →
          (v.shelfOf s').find? ref' = some copy ∧ ∀ src', v.flow src' s' ref' = (.ok f, v)) ∧
    (∀ s ref e u, w.Looks src org n R s ref → w.flow src s ref = (.error e, u) →
      u = (src.loadFlow org ref w).2 ∧ u.cache.shelf org n = w.cache.shelf org n) ∧
    (∀ m, (∀ p u, w.Loading src org m p u → Lineage src org n R u (src.load p org u).2) →
      Lineage src org n R w (w.refresh src org m).2 ∧
      ∀ prev s u, w.fresh? org = some prev → prev.org = org → prev.shelf = n →
        m.reloads .flows = false → w.refresh src org m = (.ok s, u) →
        s.org = org ∧ s.shelf = n) := by
  obtain ⟨copies, hw⟩ := h.exists_holds hR hstart
  refine ⟨hw.inStep hR, ?found, ?failed, ?refreshed⟩
  case found =>
    intro s ref f u hlooks hflow
    obtain ⟨hname, copy, hcopy, hfind⟩ := hlooks.find?_of_ok hR hw hflow
    refine ⟨hname, copy, hcopy, fun v hv s' ref' horg hshelf hname' => ?_⟩
    have hu : Lineage src org n R start u := by
      have hlookup := h.trans (.lookup hlooks)
      rwa [hflow] at hlookup
    obtain ⟨copies', hu⟩ := hu.exists_holds hR hstart
    have hlater : (v.shelfOf s').find? ref' = some copy := by
      rw [World.shelfOf, horg, hshelf]
      exact hv.find?_of_find? hR hu hfind (hcopy ▸ hname')
    exact ⟨hlater, fun src' => hcopy ▸ flow_of_hit hlater⟩
  case failed =>
    intro s ref e u hlooks hflow
    cases hfind : (w.cache.shelf org n).find? ref with
    | some copy =>
      rw [flow_of_hit (hlooks.shelfOf_eq ▸ hfind)] at hflow
      cases hflow
    | none =>
      rcases hlooks.flow_of_miss hfind with ⟨e', hmiss, hsame⟩ | ⟨f, u', hmiss, -⟩
      · rw [hmiss] at hflow
        cases hflow
        exact ⟨rfl, hsame⟩
      · rw [hmiss] at hflow
        cases hflow
  case refreshed =>
    intro m hl
    refine ⟨.refresh hl, fun prev s u hprev horg hshelf hm hs => ?_⟩
    rw [← hshelf]
    exact refresh_shelf hprev horg hm hs

end Lineage

open Sample

theorem Sample.visited_fresh :
    ∃ s, visited.fresh? 1 = some s ∧ s.org = 1 ∧ s.shelf = 0 ∧ s.builtAt = midnight := by
  have h : (visited.fresh? 1).map (fun s => (s.org, s.shelf, s.builtAt)) =
      some (1, 0, midnight) := by decide +kernel
  obtain ⟨s, hs, heq⟩ := Option.map_eq_some_iff.1 h
  exact ⟨s, hs, by simpa using heq⟩

theorem Sample.shelf_visited : visited.cache.shelf 1 0 = {} := by
  have h : visited.cache.shelves = .empty := rfl
  rw [Cache.shelf, h]
  rfl

/-- The number and the identifier of the survey. -/
def Sample.AreSurvey (n : FlowId) (u : Uuid) : Prop := n = 7 ∧ u = .ofNat 7

theorem Sample.biUnique_survey : Relator.BiUnique AreSurvey :=
  ⟨fun _ _ _ h h' => h.1.trans h'.1.symm, fun _ _ _ h h' => h.2.trans h'.2.symm⟩

theorem Sample.looks_survey {s : Snapshot} (horg : s.org = 1) (hshelf : s.shelf = 0) :
    visited.Looks slowSources 1 0 AreSurvey s (.id 7) := by
  refine ⟨horg, hshelf, fun _ => rfl, fun _ f hf => ?_⟩
  cases hf
  exact ⟨rfl, rfl, rfl⟩

theorem Sample.lineage_slow (p : Part) (u : World Unit) :
    Lineage slowSources 1 0 AreSurvey u (slowSources.load p 1 u).2 := by
  refine .elsewhere ?_
  by_cases hp : p = .users
  · subst hp
    rfl
  · simp only [slowSources, if_neg hp]

/-- A snapshot is still served after the survey has been looked up in it. -/
theorem Sample.survey_found {s : Snapshot} (hs : visited.fresh? 1 = some s) (horg : s.org = 1)
    (hshelf : s.shelf = 0) (hbuilt : s.builtAt = midnight) :
    ∃ u, visited.flow slowSources s (.id 7) = (.ok survey, u) ∧ u.fresh? 1 = some s := by
  have hmiss : (visited.shelfOf s).find? (.id 7) = none := by
    rw [World.shelfOf, horg, hshelf, shelf_visited]
    rfl
  obtain ⟨hentry, -⟩ := fresh?_eq_some_iff.1 hs
  refine ⟨{ (visited.shelve s visited.clock survey) with clock := visited.clock.shift 1 }, ?_,
    fresh?_eq_some_iff.2 ⟨hentry, ?_⟩⟩
  · rw [World.flow, hmiss]
    rfl
  · rw [hbuilt]
    show Moment.since (visited.clock.shift 1) midnight < Span.ofMinutes 1
    decide +kernel

/-- The survey has been looked up by its number when the fields are refreshed; the new snapshot has
it by its identifier, and nothing is loaded. -/
theorem Lineage.survey_found_for_good :
    ∃ s t u v, visited.fresh? 1 = some s ∧ visited.flow slowSources s (.id 7) = (.ok survey, u) ∧
      u.refresh slowSources 1 (.of (.part .fields)) = (.ok t, v) ∧ (v.shelfOf t).InStep ∧
      ∀ src, v.flow src t (.uuid (.ofNat 7)) = (.ok survey, v) := by
  obtain ⟨s, hs, horg, hshelf, hbuilt⟩ := visited_fresh
  obtain ⟨u, hu, hserved⟩ := survey_found hs horg hshelf hbuilt
  obtain ⟨t, v, hv⟩ : ∃ t v, u.refresh slowSources 1 (.of (.part .fields)) = (.ok t, v) := by
    simp only [World.refresh, hserved]
    exact ⟨_, _, rfl⟩
  have hlooks := looks_survey horg hshelf
  have hlooked : Lineage slowSources 1 0 AreSurvey visited u := by
    have hlookup := Lineage.lookup hlooks
    rwa [hu] at hlookup
  have hrun : Lineage slowSources 1 0 AreSurvey u v := by
    have hrefresh := Lineage.refresh (w := u) (m := .of (.part .fields))
      fun p u' _ => lineage_slow p u'
    rwa [hv] at hrefresh
  have hnew : visited.NewShelf slowSources 1 0 AreSurvey := .empty shelf_visited
  obtain ⟨-, hfound, -, -⟩ := found_for_good biUnique_survey hnew (.refl visited)
  obtain ⟨-, -, -, hrefreshed⟩ := found_for_good biUnique_survey hnew hlooked
  obtain ⟨htorg, htshelf⟩ := (hrefreshed _ fun p u' _ => lineage_slow p u').2 s t v hserved horg
    hshelf (by decide) hv
  obtain ⟨-, copy, -, hlater⟩ := hfound s (.id 7) survey u hlooks hu
  refine ⟨s, t, u, v, hs, hu, hv, ?_, (hlater v hrun t (.uuid (.ofNat 7)) htorg htshelf rfl).2⟩
  rw [World.shelfOf, htorg, htshelf]
  exact (found_for_good biUnique_survey hnew (hlooked.trans hrun)).1

end Outreach
