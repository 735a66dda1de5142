import Mathlib.Data.List.Nodup
import Outreach.Asset.Flow
import Outreach.Database.Edit

/-!
# Outreach.Proofs.Asset.Flow

Flows looked up in the tables, by number and by identifier. Identifiers are compared as texts there,
so a flow is found by its identifier only if its row has it in the form in which it is printed.

* `Database.FlowKeys` — what the schema asks of the rows.
* `Database.FlowAt` — the row that a flow is read from; `Database.loadFlow_eq_some_iff`.
* `Database.loadFlow_uuid_iff` — when a flow is found by its identifier.
* `FindsAlike` — the two ways to refer to a flow agree.
-/

namespace Outreach

/-- Keys stay unique when an item with a new key is added. -/
theorem nodup_keys_append {α κ : Type} {key : α → κ} {l : List α} {a : α} (h : (l.map key).Nodup)
    (hnew : ∀ b ∈ l, key b ≠ key a) : ((l ++ [a]).map key).Nodup := by
  rw [List.map_append, List.nodup_append]
  refine ⟨h, List.nodup_singleton _, ?_⟩
  simp only [List.mem_map, List.map_cons, List.map_nil, List.mem_singleton]
  rintro _ ⟨b, hb, rfl⟩ _ rfl
  exact hnew b hb

namespace FlowRef

theorem names_uuid {u : Uuid} {f : Flow} : (uuid u).names f = true ↔ f.uuid = u := beq_iff_eq

theorem names_id {n : FlowId} {f : Flow} : (id n).names f = true ↔ f.id = n := beq_iff_eq

theorem names_congr {f g : Flow} (hid : g.id = f.id) (huuid : g.uuid = f.uuid) (ref : FlowRef) :
    ref.names g = ref.names f := by
  cases ref <;> simp only [names, hid, huuid]

theorem namesRow_uuid {u : Uuid} {r : FlowRow} :
    (uuid u).namesRow r = true ↔ r.uuid = u.toString := beq_iff_eq

theorem namesRow_id {n : FlowId} {r : FlowRow} : (id n).namesRow r = true ↔ r.id = n := beq_iff_eq

end FlowRef

theorem Flow.keys_of_ofRow {r : FlowRow} {f : Flow} (h : Flow.ofRow r = .ok f) :
    f.id = r.id ∧ Uuid.parse r.uuid = some f.uuid := by
  unfold Flow.ofRow at h
  split at h
  · cases h
  · rename_i huuid
    split at h
    · cases h
    · split at h
      · cases h
      · cases h
        exact ⟨rfl, huuid⟩

/-- A row that a reference names is read as a flow that it names. -/
theorem FlowRef.names_of_namesRow {ref : FlowRef} {r : FlowRow} {f : Flow}
    (hf : Flow.ofRow r = .ok f) (h : ref.namesRow r) : ref.names f := by
  obtain ⟨hid, huuid⟩ := Flow.keys_of_ofRow hf
  cases ref with
  | uuid u =>
    rw [namesRow_uuid.1 h, Uuid.parse_toString] at huuid
    exact names_uuid.2 (Option.some.inj huuid).symm
  | id n => exact names_id.2 (hid.trans (namesRow_id.1 h))

namespace Database

/-- Numbers are unique, and so are the texts of identifiers. -/
structure FlowKeys (db : Database) : Prop where
  ids : (db.flows.map FlowRow.id).Nodup
  uuids : (db.flows.map FlowRow.uuid).Nodup

/-- An active row of the org that the flow is read from. -/
structure FlowAt (db : Database) (org : OrgId) (row : FlowRow) (f : Flow) : Prop where
  present : db.lacking? [.flows] = none
  mem : row ∈ db.flows
  ofOrg : row.org = org
  active : row.active
  reads : Flow.ofRow row = .ok f

/-- Every flow of the org has its identifier stored in the form in which it is printed. -/
def Canonical (db : Database) (org : OrgId) : Prop :=
  ∀ row f, db.FlowAt org row f → row.uuid = f.uuid.toString

variable {db : Database} {org : OrgId} {ref : FlowRef} {f : Flow} {row : FlowRow}

/-- The schema refuses a row that would break them. -/
theorem FlowKeys.addFlow (h : db.FlowKeys) {n : Nat} {db' : Database}
    (hadd : db.addFlow row = .ok (n, db')) : db'.FlowKeys := by
  unfold Database.addFlow guarded at hadd
  split at hadd
  · cases hadd
  · split at hadd
    · cases hadd
    · split at hadd
      · cases hadd
      · rename_i hnew
        cases hadd
        have hfresh : ∀ r ∈ db.flows, r.id ≠ row.id ∧ r.uuid ≠ row.uuid := by
          intro r hr
          simpa using fun heq => hnew (List.any_eq_true.2 ⟨r, hr, heq⟩)
        exact ⟨nodup_keys_append h.ids fun r hr => (hfresh r hr).1,
          nodup_keys_append h.uuids fun r hr => (hfresh r hr).2⟩

/-- A reference names one row. -/
theorem FlowKeys.eq_of_namesRow (h : db.FlowKeys) {r s : FlowRow} (hr : r ∈ db.flows)
    (hs : s ∈ db.flows) (hrn : ref.namesRow r) (hsn : ref.namesRow s) : r = s := by
  cases ref with
  | uuid u =>
    have huuid := (FlowRef.namesRow_uuid.1 hrn).trans (FlowRef.namesRow_uuid.1 hsn).symm
    exact List.inj_on_of_nodup_map h.uuids hr hs huuid
  | id n =>
    have hid := (FlowRef.namesRow_id.1 hrn).trans (FlowRef.namesRow_id.1 hsn).symm
    exact List.inj_on_of_nodup_map h.ids hr hs hid

/-- A flow is found if the row that it is read from is the one referred to. -/
theorem loadFlow_eq_some_iff (h : db.FlowKeys) :
    db.loadFlow org ref = .ok (some f) ↔ ∃ row, db.FlowAt org row f ∧ ref.namesRow row := by
  constructor
  · intro hload
    unfold loadFlow at hload
    split at hload
    · cases hload
    · rename_i hpresent
      split at hload
      · cases hload
      · rename_i row hfind
        split at hload
        · cases hload
        · rename_i hreads
          cases hload
          have hrow := List.find?_some hfind
          simp only [Bool.and_eq_true, beq_iff_eq] at hrow
          obtain ⟨⟨horg, hactive⟩, hname⟩ := hrow
          exact ⟨row, ⟨hpresent, List.mem_of_find?_eq_some hfind, horg, hactive, hreads⟩, hname⟩
  · rintro ⟨row, ⟨hpresent, hmem, horg, hactive, hreads⟩, hname⟩
    have hrow : (row.org == org && row.active && ref.namesRow row) = true := by
      simp only [horg, hactive, hname, beq_self_eq_true, Bool.and_true]
    obtain ⟨found, hfind⟩ : ∃ found,
        db.flows.find? (fun r => r.org == org && r.active && ref.namesRow r) = some found := by
      rw [← Option.isSome_iff_exists, List.find?_isSome]
      exact ⟨row, hmem, hrow⟩
    have hfound := List.find?_some hfind
    have hfoundName : ref.namesRow found := (Bool.and_eq_true _ _ ▸ hfound).2
    have hsame : found = row :=
      h.eq_of_namesRow (List.mem_of_find?_eq_some hfind) hmem hfoundName hname
    simp only [loadFlow, hpresent, hfind, hsame, hreads]

/-- The row of a flow is the only one with its number. -/
theorem FlowAt.eq_of_id (h : db.FlowKeys) {row' : FlowRow} (hrow : db.FlowAt org row f)
    (hrow' : db.FlowAt org row' f) : row = row' := by
  have hid := (Flow.keys_of_ofRow hrow.reads).1
  have hid' := (Flow.keys_of_ofRow hrow'.reads).1
  exact List.inj_on_of_nodup_map h.ids hrow.mem hrow'.mem (hid.symm.trans hid')

theorem FlowAt.loadFlow_id (h : db.FlowKeys) (hrow : db.FlowAt org row f) :
    db.loadFlow org (.id f.id) = .ok (some f) :=
  (loadFlow_eq_some_iff h).2
    ⟨row, hrow, FlowRef.namesRow_id.2 (Flow.keys_of_ofRow hrow.reads).1.symm⟩

/-- A flow is found by its identifier only if it is stored in the form in which it is printed. -/
theorem FlowAt.loadFlow_uuid_iff (h : db.FlowKeys) (hrow : db.FlowAt org row f) :
    db.loadFlow org (.uuid f.uuid) = .ok (some f) ↔ row.uuid = f.uuid.toString := by
  rw [loadFlow_eq_some_iff h]
  constructor
  · rintro ⟨row', hrow', hname⟩
    rw [hrow.eq_of_id h hrow']
    exact FlowRef.namesRow_uuid.1 hname
  · exact fun hprinted => ⟨row, hrow, FlowRef.namesRow_uuid.2 hprinted⟩

end Database

/-- Whatever is found is named by what was looked for, and found by whatever else names it. -/
def FindsAlike (look : FlowRef → Except LoadFailure (Option Flow)) : Prop :=
  ∀ ref f, look ref = .ok (some f) →
    ref.names f ∧ ∀ ref', ref'.names f → look ref' = .ok (some f)

theorem Database.findsAlike_iff {db : Database} (h : db.FlowKeys) (org : OrgId) :
    FindsAlike (db.loadFlow org) ↔ db.Canonical org := by
  constructor
  · intro halike row f hrow
    refine (hrow.loadFlow_uuid_iff h).1 ?_
    exact (halike (.id f.id) f (hrow.loadFlow_id h)).2 (.uuid f.uuid) (FlowRef.names_uuid.2 rfl)
  · intro hcanonical ref f hload
    obtain ⟨row, hrow, hname⟩ := (loadFlow_eq_some_iff h).1 hload
    refine ⟨FlowRef.names_of_namesRow hrow.reads hname, fun ref' hname' => ?_⟩
    cases ref' with
    | uuid u =>
      rw [← FlowRef.names_uuid.1 hname']
      exact (hrow.loadFlow_uuid_iff h).2 (hcanonical row f hrow)
    | id n =>
      rw [← FlowRef.names_id.1 hname']
      exact hrow.loadFlow_id h

end Outreach
