import Outreach.Proofs.Cache.Failure
import Outreach.Proofs.Cache.Lookups

/-!
# Outreach.Proofs.Cache.Simulation

A copy of a snapshot for a simulation, and the snapshot that it was made from, while the store that
flows are loaded from stays as it is.

* `Sources.FlowStore` — flows are loaded from a store that does not change.
* `Shelf.Overlays` — the shelf shows the flows of the store, some of them with a new definition.
* `World.replaceFlows_overlays` — how the shelf of a simulation comes about.
* `World.Showing` — and that lookups leave it so; `Showing.lookUp`.
* `World.simulate_shows_replacements` — the main result.
-/

namespace Outreach

variable {δ : Type}

/-- The given definitions, and for the rest those of the list, a later one before an earlier one. -/
def redefine (defs : Uuid → Option JsonValue) : List (Uuid × JsonValue) → Uuid → Option JsonValue
  | [] => defs
  | r :: rs => redefine (fun u => if u = r.1 then some r.2 else defs u) rs

/-- The flow with its new definition, if there is one. -/
def Flow.redefined (defs : Uuid → Option JsonValue) (f : Flow) : Flow :=
  { f with definition := (defs f.uuid).getD f.definition }

section

variable {defs : Uuid → Option JsonValue} {u : Uuid} {d : JsonValue} {f : Flow}

theorem redefine_of_not_listed {l : List (Uuid × JsonValue)} (h : ∀ r ∈ l, r.1 ≠ u) :
    redefine defs l u = defs u := by
  induction l generalizing defs with
  | nil => rfl
  | cons r rs ih =>
    obtain ⟨hr, hrs⟩ := List.forall_mem_cons.1 h
    rw [redefine, ih hrs, if_neg (Ne.symm hr)]

/-- The definition listed last counts. -/
theorem redefine_of_last {before after : List (Uuid × JsonValue)} (h : ∀ r ∈ after, r.1 ≠ u) :
    redefine defs (before ++ (u, d) :: after) u = some d := by
  induction before generalizing defs with
  | nil => rw [List.nil_append, redefine, redefine_of_not_listed h, if_pos rfl]
  | cons r rs ih => exact ih

theorem redefined_of_none (h : defs f.uuid = none) : f.redefined defs = f := by
  rw [Flow.redefined, h]
  rfl

end

/-! ## The store -/

/-- Numbers are not given out twice, and the shelves with numbers given out stay as they are. -/
structure World.Untouched (org : OrgId) (w w' : World δ) : Prop where
  serials : w.cache.nextSerial org ≤ w'.cache.nextSerial org
  shelves : ∀ n < w.cache.nextSerial org, w'.cache.shelf org n = w.cache.shelf org n

namespace World.Untouched

variable {org : OrgId} {u v w : World δ}

theorem refl (w : World δ) : Untouched org w w := ⟨Nat.le_refl _, fun _ _ => rfl⟩

theorem trans (h : Untouched org u v) (h' : Untouched org v w) : Untouched org u w where
  serials := Nat.le_trans h.serials h'.serials
  shelves n hn := (h'.shelves n (Nat.lt_of_lt_of_le hn h.serials)).trans (h.shelves n hn)

end World.Untouched

/-- In worlds with the same store, flows of the org are loaded as it answers. Loading them leaves
the store as it is, and so the shelves, and whatever is done to the cache leaves the store. -/
structure Sources.FlowStore (src : Sources δ) (org : OrgId) (same : World δ → Prop)
    (look : FlowRef → Except LoadFailure (Option Flow)) : Prop where
  answers : ∀ {w}, same w → ∀ ref, (src.loadFlow org ref w).1 = look ref
  stays : ∀ {w}, same w → ∀ ref, same (src.loadFlow org ref w).2
  untouched : ∀ {w}, same w → ∀ ref, World.Untouched org w (src.loadFlow org ref w).2
  edit : ∀ {w}, same w → ∀ e, same (w.edit e)

/-- What is found is the flow that was asked for; numbers and identifiers are unique. -/
structure Distinct (look : FlowRef → Except LoadFailure (Option Flow)) : Prop where
  names : ∀ {ref f}, look ref = .ok (some f) → ref.names f
  unique : ∀ {ref ref' f g}, look ref = .ok (some f) → look ref' = .ok (some g) →
    f.id = g.id ∨ f.uuid = g.uuid → f = g

/-- The flow is in the store. -/
def Stored (look : FlowRef → Except LoadFailure (Option Flow)) (f : Flow) : Prop :=
  ∃ ref, look ref = .ok (some f)

section

variable {look : FlowRef → Except LoadFailure (Option Flow)} {f g : Flow} {ref : FlowRef}

theorem Distinct.eq_of_names (h : Distinct look) (hf : Stored look f) (hg : Stored look g)
    (hfn : ref.names f) (hgn : ref.names g) : f = g := by
  obtain ⟨r, hf⟩ := hf
  obtain ⟨r', hg⟩ := hg
  cases ref with
  | uuid u =>
    exact h.unique hf hg (.inr ((FlowRef.names_uuid.1 hfn).trans (FlowRef.names_uuid.1 hgn).symm))
  | id n =>
    exact h.unique hf hg (.inl ((FlowRef.names_id.1 hfn).trans (FlowRef.names_id.1 hgn).symm))

end

/-! ## The shelf -/

namespace Shelf

variable {look : FlowRef → Except LoadFailure (Option Flow)} {P Q : Flow → Prop}
  {defs : Uuid → Option JsonValue} {shelf : Shelf} {f : Flow} {ref : FlowRef} {t : Instant}
  {org : OrgId}

/-- What is on the shelf are flows with the property `P`, with their new definitions, and all flows
that have one are there. -/
structure Overlays (look : FlowRef → Except LoadFailure (Option Flow)) (P : Flow → Prop)
    (defs : Uuid → Option JsonValue) (shelf : Shelf) : Prop where
  found : ∀ ref copy, shelf.find? ref = some copy →
    ∃ f, P f ∧ ref.names f ∧ copy.flow = f.redefined defs
  replaced : ∀ u d, defs u = some d → ∃ f, look (.uuid u) = .ok (some f) ∧
    ∀ ref, ref.names f → ∃ copy, shelf.find? ref = some copy

theorem overlays_empty (look : FlowRef → Except LoadFailure (Option Flow)) (P : Flow → Prop) :
    Overlays look P (fun _ => none) {} := by
  constructor
  · intro ref copy h
    rw [find?_empty] at h
    cases h
  · intro u d h
    cases h

theorem exists_find?_put {copy : Shelved} (h : shelf.find? ref = some copy) :
    ∃ copy, (shelf.put t f).find? ref = some copy := by
  rw [find?_put]
  split
  · exact ⟨_, rfl⟩
  · exact ⟨copy, h⟩

namespace Overlays

theorem mono (h : shelf.Overlays look P defs) (hPQ : ∀ f, P f → Q f) :
    shelf.Overlays look Q defs where
  found ref copy hfind := by
    obtain ⟨f, hf, hrest⟩ := h.found ref copy hfind
    exact ⟨f, hPQ f hf, hrest⟩
  replaced := h.replaced

/-- A flow that is not on the shelf has no new definition. -/
theorem redefined_of_miss (hl : Distinct look) (h : shelf.Overlays look P defs)
    (hnone : shelf.find? ref = none) (hf : Stored look f) (hname : ref.names f) :
    f.redefined defs = f := by
  apply redefined_of_none
  cases hd : defs f.uuid with
  | none => rfl
  | some d =>
    obtain ⟨g, hload, hall⟩ := h.replaced f.uuid d hd
    have heq : f = g :=
      hl.eq_of_names hf ⟨_, hload⟩ (FlowRef.names_uuid.2 rfl) (hl.names hload)
    obtain ⟨copy, hcopy⟩ := hall ref (heq ▸ hname)
    rw [hnone] at hcopy
    cases hcopy

/-- An identifier that the store does not know finds nothing on the shelf. -/
theorem miss (hP : ∀ f, P f → look (.uuid f.uuid) = .ok (some f)) (h : shelf.Overlays look P defs)
    {u : Uuid} (hunknown : ∀ f, look (.uuid u) ≠ .ok (some f)) : shelf.find? (.uuid u) = none := by
  cases hfind : shelf.find? (.uuid u) with
  | none => rfl
  | some copy =>
    obtain ⟨f, hf, hname, -⟩ := h.found _ _ hfind
    exact absurd (FlowRef.names_uuid.1 hname ▸ hP f hf) (hunknown f)

/-- A copy that a stored flow is found by is of that flow. -/
theorem flow_of_find? (hl : Distinct look) (hP : ∀ f, P f → Stored look f)
    (h : shelf.Overlays look P defs) {copy : Shelved} (hfind : shelf.find? ref = some copy)
    (hf : Stored look f) (hname : ref.names f) : copy.flow = f.redefined defs := by
  obtain ⟨g, hg, hgname, hcopy⟩ := h.found ref copy hfind
  rw [hcopy, hl.eq_of_names (hP g hg) hf hgname hname]

/-- The shelf and the store together answer with the stored flow in its new definition. -/
theorem answer_eq (hl : Distinct look) (hP : ∀ f, P f → Stored look f)
    (h : shelf.Overlays look P defs) (hload : look ref = .ok (some f)) :
    shelf.answer look org ref = .ok (f.redefined defs) := by
  unfold answer
  cases hfind : shelf.find? ref with
  | some copy =>
    exact congrArg Except.ok (h.flow_of_find? hl hP hfind ⟨ref, hload⟩ (hl.names hload))
  | none =>
    simp only [hload, h.redefined_of_miss hl hfind ⟨ref, hload⟩ (hl.names hload)]

/-- A flow is put on the shelf with a new definition. -/
theorem put_new (hl : Distinct look) (hP : ∀ f, P f → Stored look f)
    (h : shelf.Overlays look P defs) {u : Uuid} {d : JsonValue}
    (hload : look (.uuid u) = .ok (some f)) (hf : P f) :
    (shelf.put t { f with definition := d }).Overlays look P
      fun v => if v = u then some d else defs v := by
  have huuid : f.uuid = u := FlowRef.names_uuid.1 (hl.names hload)
  have hnames := FlowRef.names_congr (f := f) (g := { f with definition := d }) rfl rfl
  constructor
  case found =>
    intro ref copy hfind
    rw [find?_put, hnames] at hfind
    split at hfind
    · rename_i hname
      cases hfind
      refine ⟨f, hf, hname, ?_⟩
      rw [Flow.redefined, if_pos huuid]
      rfl
    · rename_i hother
      obtain ⟨g, hg, hname, hcopy⟩ := h.found ref copy hfind
      have hne : g.uuid ≠ u := by
        intro heq
        have hsame : g = f := hl.eq_of_names (hP g hg) ⟨_, hload⟩
          (FlowRef.names_uuid.2 heq) (FlowRef.names_uuid.2 huuid)
        exact hother (hsame ▸ hname)
      refine ⟨g, hg, hname, ?_⟩
      rw [hcopy, Flow.redefined, Flow.redefined, if_neg hne]
  case replaced =>
    intro v e hv
    by_cases heq : v = u
    · subst heq
      refine ⟨f, hload, fun ref hname => ?_⟩
      rw [find?_put, hnames, if_pos hname]
      exact ⟨_, rfl⟩
    · rw [if_neg heq] at hv
      obtain ⟨g, hg, hall⟩ := h.replaced v e hv
      refine ⟨g, hg, fun ref hname => ?_⟩
      obtain ⟨copy, hfind⟩ := hall ref hname
      exact exists_find?_put hfind

/-- A flow that was not there is put on the shelf as it is stored. -/
theorem put_stored (hl : Distinct look) (h : shelf.Overlays look (Stored look) defs)
    (hnone : shelf.find? ref = none) (hload : look ref = .ok (some f)) :
    (shelf.put t f).Overlays look (Stored look) defs := by
  constructor
  case found =>
    intro ref' copy hfind
    rw [find?_put] at hfind
    split at hfind
    · rename_i hname
      cases hfind
      exact ⟨f, ⟨ref, hload⟩, hname,
        (h.redefined_of_miss hl hnone ⟨ref, hload⟩ (hl.names hload)).symm⟩
    · exact h.found ref' copy hfind
  case replaced =>
    intro u d hd
    obtain ⟨g, hg, hall⟩ := h.replaced u d hd
    refine ⟨g, hg, fun ref' hname => ?_⟩
    obtain ⟨copy, hfind⟩ := hall ref' hname
    exact exists_find?_put hfind

end Overlays
end Shelf

namespace World

variable {src : Sources δ} {org : OrgId} {same : World δ → Prop}
  {look : FlowRef → Except LoadFailure (Option Flow)} {P : Flow → Prop}
  {defs : Uuid → Option JsonValue} {shelf : Shelf} {w : World δ} {n : Nat} {ref : FlowRef}
  {u : Uuid} {d : JsonValue} {f : Flow}

/-! ## Replacing flows -/

theorem demand_world (src : Sources δ) (org : OrgId) (ref : FlowRef) (w : World δ) :
    (demand src org ref w).2 = (src.loadFlow org ref w).2 := by
  rcases demand_cases src org ref w with ⟨e, h⟩ | ⟨f, -, h⟩
  · rw [h]
  · rw [h]

theorem flowOn_kept (hsrc : src.FlowStore org same look) (hw : same w) (shelf : Shelf)
    (ref : FlowRef) :
    same (flowOn src org shelf ref w).2 ∧ Untouched org w (flowOn src org shelf ref w).2 := by
  have hworld := demand_world src org ref w
  unfold flowOn
  split
  · exact ⟨hw, .refl w⟩
  · split
    · rename_i h
      rw [h] at hworld
      exact hworld ▸ ⟨hsrc.stays hw ref, hsrc.untouched hw ref⟩
    · rename_i h
      rw [h] at hworld
      exact hworld ▸ ⟨hsrc.stays hw ref, hsrc.untouched hw ref⟩

theorem replaceFlows_kept (hsrc : src.FlowStore org same look) (hw : same w)
    (l : List (Uuid × JsonValue)) (shelf : Shelf) :
    same (replaceFlows src org l shelf w).2 ∧
      Untouched org w (replaceFlows src org l shelf w).2 := by
  induction l generalizing shelf w with
  | nil => exact ⟨hw, .refl w⟩
  | cons r l ih =>
    have hone := flowOn_kept hsrc hw shelf (.uuid r.1)
    unfold replaceFlows
    split
    · rename_i h
      rw [h] at hone
      exact hone
    · rename_i h
      rw [h] at hone
      exact hone
    · rename_i h
      rw [h] at hone
      obtain ⟨hsame, hrest⟩ := ih hone.1 (shelf.put _ _)
      exact ⟨hsame, hone.2.trans hrest⟩

/-- What `flowOn` gives depends on the shelf and on what would be loaded. -/
theorem flowOn_answer (hsrc : src.FlowStore org same look) (hw : same w) (shelf : Shelf)
    (ref : FlowRef) :
    (flowOn src org shelf ref w).1.map Shelved.flow = shelf.answer look org ref := by
  have hload := hsrc.answers hw ref
  unfold flowOn Shelf.answer demand
  cases shelf.find? ref with
  | some copy => rfl
  | none =>
    cases hfound : src.loadFlow org ref w with
    | mk found w' =>
      rw [hfound] at hload
      simp only [← hload]
      cases found with
      | error e => rfl
      | ok found => cases found <;> rfl

theorem flowOn_error (hsrc : src.FlowStore org same look) (hw : same w) {e : AssetError}
    (h : shelf.answer look org ref = .error e) :
    ∃ w', flowOn src org shelf ref w = (.error e, w') := by
  have hanswer := flowOn_answer hsrc hw shelf ref
  rw [h] at hanswer
  cases hone : flowOn src org shelf ref w with
  | mk r w' =>
    rw [hone] at hanswer
    cases r with
    | error e' =>
      cases hanswer
      exact ⟨w', rfl⟩
    | ok copy => cases hanswer

/-- Flows in the store with the identifiers that are listed. -/
def Listed (look : FlowRef → Except LoadFailure (Option Flow)) (l : List (Uuid × JsonValue))
    (f : Flow) : Prop :=
  look (.uuid f.uuid) = .ok (some f) ∧ ∃ r ∈ l, r.1 = f.uuid

theorem Listed.stored {l : List (Uuid × JsonValue)} (h : Listed look l f) : Stored look f :=
  ⟨_, h.1⟩

/-- One replacement. -/
theorem replaceFlows_step (hsrc : src.FlowStore org same look) (hl : Distinct look)
    (hP : ∀ f, P f → Stored look f) (hw : same w) (h : shelf.Overlays look P defs)
    (hload : look (.uuid u) = .ok (some f)) (hf : P f) (l : List (Uuid × JsonValue)) :
    ∃ shelf' w', replaceFlows src org ((u, d) :: l) shelf w = replaceFlows src org l shelf' w' ∧
      same w' ∧ shelf'.Overlays look P fun v => if v = u then some d else defs v := by
  have hkept := flowOn_kept hsrc hw shelf (.uuid u)
  have hanswer := flowOn_answer hsrc hw shelf (.uuid u)
  rw [h.answer_eq hl hP hload] at hanswer
  cases hone : flowOn src org shelf (.uuid u) w with
  | mk r w₁ =>
    rw [hone] at hkept hanswer
    cases r with
    | error e => cases hanswer
    | ok copy =>
      have hcopy : copy.flow = f.redefined defs := Except.ok.inj hanswer
      refine ⟨shelf.put copy.loadedAt { f with definition := d }, w₁, ?_, hkept.1,
        h.put_new hl hP hload hf⟩
      simp only [replaceFlows, hone, hcopy, Flow.redefined]

/-- If all identifiers that are listed are in the store, their flows are replaced. -/
theorem replaceFlows_overlays (hsrc : src.FlowStore org same look) (hl : Distinct look)
    (hP : ∀ f, P f → Stored look f) (l : List (Uuid × JsonValue)) (hw : same w)
    (h : shelf.Overlays look P defs)
    (hknown : ∀ r ∈ l, ∃ f, look (.uuid r.1) = .ok (some f) ∧ P f) :
    ∃ shelf' w', replaceFlows src org l shelf w = (.ok shelf', w') ∧
      shelf'.Overlays look P (redefine defs l) := by
  induction l generalizing shelf w defs with
  | nil => exact ⟨shelf, w, rfl, h⟩
  | cons r l ih =>
    obtain ⟨⟨f, hload, hf⟩, hrest⟩ := List.forall_mem_cons.1 hknown
    obtain ⟨shelf₁, w₁, heq, hw₁, h₁⟩ := replaceFlows_step hsrc hl hP hw h hload hf l
    obtain ⟨shelf', w', hdone, h'⟩ := ih hw₁ h₁ hrest
    exact ⟨shelf', w', heq.trans hdone, h'⟩

/-- The first identifier that is not in the store, or not to be loaded, decides. -/
theorem replaceFlows_fails (hsrc : src.FlowStore org same look) (hl : Distinct look)
    (hP : ∀ f, P f → look (.uuid f.uuid) = .ok (some f)) (before after : List (Uuid × JsonValue))
    (hw : same w) (h : shelf.Overlays look P defs)
    (hknown : ∀ r ∈ before, ∃ f, look (.uuid r.1) = .ok (some f) ∧ P f) :
    (look (.uuid u) = .ok none →
      (replaceFlows src org (before ++ (u, d) :: after) shelf w).1 =
        .error (.unknownFlow u org)) ∧
    ∀ e, look (.uuid u) = .error e →
      (replaceFlows src org (before ++ (u, d) :: after) shelf w).1 =
        .error (.flowLoad (.uuid u) org e) := by
  induction before generalizing shelf w defs with
  | nil =>
    constructor
    · intro hnone
      have hanswer : shelf.answer look org (.uuid u) = .error (.flowNotFound (.uuid u) org) := by
        have hmiss := h.miss hP (u := u) (by simp [hnone])
        simp only [Shelf.answer, hmiss, hnone]
      obtain ⟨w₁, hone⟩ := flowOn_error hsrc hw hanswer
      simp only [List.nil_append, replaceFlows, hone]
    · intro e he
      have hanswer : shelf.answer look org (.uuid u) = .error (.flowLoad (.uuid u) org e) := by
        have hmiss := h.miss hP (u := u) (by simp [he])
        simp only [Shelf.answer, hmiss, he]
      obtain ⟨w₁, hone⟩ := flowOn_error hsrc hw hanswer
      simp only [List.nil_append, replaceFlows, hone]
  | cons r before ih =>
    obtain ⟨⟨f, hload, hf⟩, hrest⟩ := List.forall_mem_cons.1 hknown
    obtain ⟨shelf₁, w₁, heq, hw₁, h₁⟩ := replaceFlows_step hsrc hl (fun f hf => ⟨_, hP f hf⟩) hw h
      hload hf (before ++ (u, d) :: after)
    rw [List.cons_append, heq]
    exact ih hw₁ h₁ hrest

/-! ## Lookups afterwards -/

/-- Nothing happens, or a flow is loaded, or it is put on the shelf as well. -/
theorem flow_world (src : Sources δ) (k : Snapshot) (ref : FlowRef) (w : World δ) :
    (w.flow src k ref).2 = w ∨ (w.flow src k ref).2 = (src.loadFlow k.org ref w).2 ∨
      ∃ shelf, (w.flow src k ref).2 =
        (src.loadFlow k.org ref w).2.edit (.shelve k.org k.shelf shelf) := by
  cases hfind : (w.shelfOf k).find? ref with
  | some copy =>
    rw [flow_of_hit hfind]
    exact .inl rfl
  | none =>
    rcases flow_of_miss src hfind with ⟨e, hflow⟩ | ⟨f, -, hflow⟩
    · rw [hflow]
      exact .inr (.inl rfl)
    · rw [hflow]
      exact .inr (.inr ⟨_, rfl⟩)

/-- A lookup leaves the store as it is, and shelves other than the snapshot's. -/
theorem flow_kept (hsrc : src.FlowStore org same look) (hw : same w) {k : Snapshot}
    (hk : k.org = org) (ref : FlowRef) :
    same (w.flow src k ref).2 ∧ w.cache.nextSerial org ≤ (w.flow src k ref).2.cache.nextSerial org ∧
      ∀ n < w.cache.nextSerial org, k.shelf ≠ n →
        (w.flow src k ref).2.cache.shelf org n = w.cache.shelf org n := by
  subst hk
  have hstays := hsrc.stays hw ref
  have hloaded := hsrc.untouched hw ref
  refine ⟨?same, ?serials, ?shelves⟩
  case same =>
    rcases flow_world src k ref w with h | h | ⟨shelf, h⟩
    · rwa [h]
    · rwa [h]
    · rw [h]
      exact hsrc.edit hstays _
  case serials =>
    rcases flow_world src k ref w with h | h | ⟨shelf, h⟩
    · exact Nat.le_of_eq (by rw [h])
    · rw [h]
      exact hloaded.serials
    · rw [h]
      exact hloaded.serials
  case shelves =>
    intro n hn hne
    rcases shelf_flow_of_kept k ref (hloaded.shelves n hn) with hkept | ⟨-, -, ⟨-, hsame⟩, -⟩
    · exact hkept
    · exact absurd hsame hne

/-- The shelf shows the flows of the store with these new definitions. -/
structure Showing (same : World δ → Prop) (look : FlowRef → Except LoadFailure (Option Flow))
    (org : OrgId) (n : Nat) (defs : Uuid → Option JsonValue) (w : World δ) : Prop where
  same : same w
  made : n < w.cache.nextSerial org
  overlays : (w.cache.shelf org n).Overlays look (Stored look) defs

namespace Showing

theorem flow (hsrc : src.FlowStore org same look) (hl : Distinct look)
    (h : w.Showing same look org n defs) {k : Snapshot} (hk : k.org = org) (ref : FlowRef) :
    (w.flow src k ref).2.Showing same look org n defs := by
  obtain ⟨hsame, hserials, -⟩ := flow_kept hsrc h.same hk ref
  refine ⟨hsame, Nat.lt_of_lt_of_le h.made hserials, ?_⟩
  subst hk
  have hloaded := (hsrc.untouched h.same ref).shelves n h.made
  rcases shelf_flow_of_kept k ref hloaded with hkept | ⟨f, hfound, -, hnone, hput⟩
  · rw [hkept]
    exact h.overlays
  · rw [hsrc.answers h.same] at hfound
    rw [hput]
    exact h.overlays.put_stored hl hnone hfound

theorem lookUp (hsrc : src.FlowStore org same look) (hl : Distinct look)
    (h : w.Showing same look org n defs) (looks : List (Snapshot × FlowRef))
    (hlooks : ∀ k ∈ looks, k.1.org = org) :
    (w.lookUp src looks).Showing same look org n defs := by
  induction looks generalizing w with
  | nil => exact h
  | cons k looks ih =>
    obtain ⟨hk, hlooks⟩ := List.forall_mem_cons.1 hlooks
    exact ih (h.flow hsrc hl hk k.2) hlooks

variable {t : Snapshot}

theorem flow_stored (hsrc : src.FlowStore t.org same look) (hl : Distinct look)
    (h : w.Showing same look t.org t.shelf defs) (hload : look ref = .ok (some f)) :
    (w.flow src t ref).1 = .ok (f.redefined defs) := by
  rw [flow_answer_of (hsrc.answers h.same ref)]
  exact h.overlays.answer_eq hl (fun _ hf => hf) hload

/-- For a flow with a new definition the store is not asked. -/
theorem flow_replaced (hl : Distinct look) (h : w.Showing same look t.org t.shelf defs)
    (hload : look (.uuid u) = .ok (some f)) (hd : defs u = some d) (hname : ref.names f)
    (any : Sources δ) : w.flow any t ref = (.ok { f with definition := d }, w) := by
  obtain ⟨g, hg, hall⟩ := h.overlays.replaced u d hd
  rw [hload] at hg
  cases hg
  obtain ⟨copy, hfind⟩ := hall ref hname
  obtain rfl : f.uuid = u := FlowRef.names_uuid.1 (hl.names hload)
  have hcopy := h.overlays.flow_of_find? hl (fun _ hf => hf) hfind ⟨_, hload⟩ hname
  rw [Flow.redefined, hd] at hcopy
  rw [flow_of_hit hfind, hcopy]
  rfl

end Showing

/-- Lookups in one snapshot do not show in another with a shelf of its own. -/
theorem flow_after_others (hsrc : src.FlowStore org same look) (hw : same w) {s k : Snapshot}
    (hs : s.org = org) (hk : k.org = org) (hmade : s.shelf < w.cache.nextSerial org)
    (hne : k.shelf ≠ s.shelf) (refs : List FlowRef) (ref : FlowRef) :
    ((w.lookUp src (refs.map fun r => (k, r))).flow src s ref).1 = (w.flow src s ref).1 := by
  induction refs generalizing w with
  | nil => rfl
  | cons r refs ih =>
    obtain ⟨hsame, hserials, hother⟩ := flow_kept hsrc hw hk r
    have hrest := ih hsame (Nat.lt_of_lt_of_le hmade hserials)
    subst hs
    rw [List.map_cons, lookUp, hrest, flow_answer_of (hsrc.answers hsame ref),
      flow_answer_of (hsrc.answers hw ref), shelfOf, shelfOf, hother s.shelf hmade hne]

/-! ## The simulation and its source -/

/-- A simulation succeeds if the flows can be replaced. It has the next number, and so has its
shelf. -/
theorem simulate_of_ok {s : Snapshot} {l : List (Uuid × JsonValue)} (extra : List Channel)
    {w₁ : World δ} (hdone : replaceFlows src s.org l {} w = (.ok shelf, w₁)) :
    ∃ t w', w.simulate src s l extra = (.ok t, w') ∧ t.org = s.org ∧ t.builtAt = s.builtAt ∧
      t.parts = s.withChannels (w₁.cache.nextSerial s.org) extra ∧
      t.shelf = w₁.cache.nextSerial s.org ∧
      w' = (w₁.edit (.count s.org (w₁.cache.nextSerial s.org + 1))).edit
        (.shelve s.org (w₁.cache.nextSerial s.org) shelf) := by
  simp only [simulate, hdone]
  exact ⟨_, _, rfl, rfl, rfl, rfl, rfl, rfl⟩

theorem simulate_of_error {s : Snapshot} {l : List (Uuid × JsonValue)} {extra : List Channel}
    {e : AssetError} (h : (replaceFlows src s.org l {} w).1 = .error e) :
    (w.simulate src s l extra).1 = .error e := by
  cases hdone : replaceFlows src s.org l {} w with
  | mk r w₁ =>
    rw [hdone] at h
    cases h
    simp only [simulate, hdone]

theorem nextSerial_counted (w : World δ) (org : OrgId) (n : Nat) (shelf : Shelf) :
    ((w.edit (.count org (n + 1))).edit (.shelve org n shelf)).cache.nextSerial org = n + 1 := by
  simp only [edit, Cache.edit, Cache.setShelf, Cache.nextSerial, Index.find?_insert, if_pos,
    Option.getD_some]

theorem shelf_shelved (w : World δ) (org : OrgId) (n m : Nat) (shelf : Shelf) :
    ((w.edit (.count org (n + 1))).edit (.shelve org n shelf)).cache.shelf org m =
      if n = m then shelf else w.cache.shelf org m := by
  simp only [edit, Cache.edit, Cache.setShelf, Cache.shelf, Index.find?_insert, Prod.mk.injEq,
    true_and]
  split <;> rfl

/-- Whether or not it succeeds, a simulation leaves the store and all shelves as they are. -/
theorem simulate_kept {s : Snapshot} (hsrc : src.FlowStore s.org same look) (hw : same w)
    (l : List (Uuid × JsonValue)) (extra : List Channel) :
    same (w.simulate src s l extra).2 ∧ Untouched s.org w (w.simulate src s l extra).2 := by
  have hkept := replaceFlows_kept hsrc hw l {}
  cases hdone : replaceFlows src s.org l {} w with
  | mk r w₁ =>
    rw [hdone] at hkept
    obtain ⟨hsame, huntouched⟩ := hkept
    have hserial : w.cache.nextSerial s.org ≤ w₁.cache.nextSerial s.org := huntouched.serials
    cases r with
    | error e =>
      simp only [simulate, hdone]
      exact ⟨hsame, huntouched⟩
    | ok shelf =>
      obtain ⟨t, w', hsim, -, -, -, -, rfl⟩ := simulate_of_ok extra hdone
      rw [hsim]
      refine ⟨hsrc.edit (hsrc.edit hsame _) _, ?_, fun n hn => ?_⟩
      · rw [nextSerial_counted]
        omega
      · rw [shelf_shelved, if_neg (by omega)]
        exact huntouched.shelves n hn

/-- `t` is a copy of `s` for a simulation with the flows of the list replaced and with more
channels, made in the world `w'`. -/
structure Simulates (src : Sources δ) (same : World δ → Prop)
    (look : FlowRef → Except LoadFailure (Option Flow)) (s : Snapshot)
    (l : List (Uuid × JsonValue)) (extra : List Channel) (t : Snapshot) (w' : World δ) : Prop where
  org_eq : t.org = s.org
  builtAt : t.builtAt = s.builtAt
  shared : ∀ p, p ≠ .channels ∨ extra = [] → t.parts p = s.parts p
  channels : extra ≠ [] →
    t.content .channels = AssetSet.withExtra (s.content .channels) extra
  /-- A flow that is listed has the definition that is listed last, by whatever it is referred to.
  It is never loaded again. -/
  replaced : ∀ u f before d after, look (.uuid u) = .ok (some f) → l = before ++ (u, d) :: after →
    (∀ r ∈ after, r.1 ≠ u) → ∀ looks : List (Snapshot × FlowRef), (∀ k ∈ looks, k.1.org = s.org) →
    ∀ ref, ref.names f → ∀ any : Sources δ, (w'.lookUp src looks).flow any t ref =
      (.ok { f with definition := d }, w'.lookUp src looks)
  /-- Any other flow is not there at first. -/
  lacking : ∀ ref f, look ref = .ok (some f) → (∀ r ∈ l, r.1 ≠ f.uuid) →
    (w'.shelfOf t).find? ref = none
  stored : ∀ ref f, look ref = .ok (some f) → (∀ r ∈ l, r.1 ≠ f.uuid) →
    ∀ looks : List (Snapshot × FlowRef), (∀ k ∈ looks, k.1.org = s.org) →
    ((w'.lookUp src looks).flow src t ref).1 = .ok f
  made : same w' ∧ s.shelf < w'.cache.nextSerial s.org ∧ t.shelf < w'.cache.nextSerial s.org
  /-- From then on, what is looked up in one of the two does not show in the other. -/
  apart : ∀ v, same v → s.shelf < v.cache.nextSerial s.org → t.shelf < v.cache.nextSerial s.org →
    ∀ (refs : List FlowRef) (ref : FlowRef),
      ((v.lookUp src (refs.map fun r => (t, r))).flow src s ref).1 = (v.flow src s ref).1 ∧
      ((v.lookUp src (refs.map fun r => (s, r))).flow src t ref).1 = (v.flow src t ref).1

theorem parts_withChannels (s : Snapshot) (n : Nat) {extra : List Channel} {p : Part}
    (h : p ≠ .channels ∨ extra = []) : s.withChannels n extra p = s.parts p := by
  rcases h with hp | rfl
  · cases p with
    | channels => exact absurd rfl hp
    | _ => rfl
  · cases p <;> rfl

theorem simulates_of_overlays {s : Snapshot} {l : List (Uuid × JsonValue)} {extra : List Channel}
    {w₁ : World δ} (hsrc : src.FlowStore s.org same look) (hl : Distinct look) (hw : same w)
    (hmade : s.shelf < w.cache.nextSerial s.org)
    (hdone : replaceFlows src s.org l {} w = (.ok shelf, w₁))
    (h : shelf.Overlays look (Listed look l) (redefine (fun _ => none) l)) :
    ∃ t w', w.simulate src s l extra = (.ok t, w') ∧
      Simulates src same look s l extra t w' := by
  obtain ⟨t, w', hsim, horg, hbuilt, hparts, hshelf, hw'⟩ := simulate_of_ok extra hdone
  have hkept := simulate_kept hsrc hw l extra
  rw [hsim] at hkept
  obtain ⟨hsame, huntouched⟩ := hkept
  have hcalled := (replaceFlows_kept hsrc hw l {}).2
  rw [hdone] at hcalled
  have hserial : s.shelf < t.shelf := by
    rw [hshelf]
    exact Nat.lt_of_lt_of_le hmade hcalled.serials
  have hnext : t.shelf < w'.cache.nextSerial s.org := by
    rw [hw', hshelf, nextSerial_counted]
    exact Nat.lt_succ_self _
  have hthere : w'.cache.shelf s.org t.shelf = shelf := by
    rw [hw', hshelf, shelf_shelved, if_pos rfl]
  have hshow : w'.Showing same look s.org t.shelf (redefine (fun _ => none) l) :=
    ⟨hsame, hnext, hthere ▸ h.mono fun _ hf => hf.stored⟩
  refine ⟨t, w', hsim, ?_⟩
  constructor
  case org_eq => exact horg
  case builtAt => exact hbuilt
  case shared =>
    intro p hp
    rw [hparts]
    exact parts_withChannels s _ hp
  case channels =>
    intro hextra
    rw [Snapshot.content, hparts]
    simp [Snapshot.withChannels, hextra]
  case replaced =>
    intro u f before d after hload hlist hafter looks hlooks ref hname any
    have hd : redefine (fun _ => none) l u = some d := by
      rw [hlist]
      exact redefine_of_last hafter
    have hlooked := hshow.lookUp hsrc hl looks hlooks
    rw [← horg] at hlooked
    exact hlooked.flow_replaced hl hload hd hname any
  case lacking =>
    intro ref f hload hunlisted
    rw [shelfOf, horg, hthere]
    cases hfind : shelf.find? ref with
    | none => rfl
    | some copy =>
      obtain ⟨g, hg, hname, -⟩ := h.found ref copy hfind
      have heq : g = f := hl.eq_of_names hg.stored ⟨ref, hload⟩ hname (hl.names hload)
      obtain ⟨r, hr, huuid⟩ := hg.2
      exact absurd (huuid.trans (congrArg Flow.uuid heq)) (hunlisted r hr)
  case stored =>
    intro ref f hload hunlisted looks hlooks
    have hlooked := hshow.lookUp hsrc hl looks hlooks
    rw [← horg] at hlooked hsrc
    rw [hlooked.flow_stored hsrc hl hload, redefined_of_none]
    exact redefine_of_not_listed hunlisted
  case made => exact ⟨hsame, Nat.lt_trans hserial hnext, hnext⟩
  case apart =>
    intro v hv hs ht refs ref
    exact ⟨flow_after_others hsrc hv rfl horg hs (Nat.ne_of_gt hserial) refs ref,
      flow_after_others hsrc hv horg rfl ht (Nat.ne_of_lt hserial) refs ref⟩

/-- A simulation shows its replacements and the snapshot that it is made from does not. If all
identifiers that are listed are in the store, the copy is made; if not, the first that is not there
decides, or the first that cannot be loaded. In any case the shelves that were there stay as they
are, that of the snapshot among them. -/
theorem simulate_shows_replacements {s : Snapshot} (hsrc : src.FlowStore s.org same look)
    (hl : Distinct look) (hw : same w) (hmade : s.shelf < w.cache.nextSerial s.org)
    (l : List (Uuid × JsonValue)) (extra : List Channel) :
    (∀ n < w.cache.nextSerial s.org,
      (w.simulate src s l extra).2.cache.shelf s.org n = w.cache.shelf s.org n) ∧
    ((∀ r ∈ l, ∃ f, look (.uuid r.1) = .ok (some f)) →
      ∃ t w', w.simulate src s l extra = (.ok t, w') ∧
        Simulates src same look s l extra t w') ∧
    ∀ before u d after, l = before ++ (u, d) :: after →
      (∀ r ∈ before, ∃ f, look (.uuid r.1) = .ok (some f)) →
      (look (.uuid u) = .ok none →
        (w.simulate src s l extra).1 = .error (.unknownFlow u s.org)) ∧
      ∀ e, look (.uuid u) = .error e →
        (w.simulate src s l extra).1 = .error (.flowLoad (.uuid u) s.org e) := by
  have hlisted {k : List (Uuid × JsonValue)} (hsub : ∀ r ∈ k, r ∈ l)
      (hknown : ∀ r ∈ k, ∃ f, look (.uuid r.1) = .ok (some f)) :
      ∀ r ∈ k, ∃ f, look (.uuid r.1) = .ok (some f) ∧ Listed look l f := by
    intro r hr
    obtain ⟨f, hf⟩ := hknown r hr
    have huuid : f.uuid = r.1 := FlowRef.names_uuid.1 (hl.names hf)
    exact ⟨f, hf, huuid ▸ hf, r, hsub r hr, huuid.symm⟩
  have hempty := Shelf.overlays_empty look (Listed look l)
  refine ⟨(simulate_kept hsrc hw l extra).2.shelves, fun hknown => ?_, ?_⟩
  · obtain ⟨shelf, w₁, hdone, hoverlays⟩ := replaceFlows_overlays hsrc hl
      (fun _ hf => hf.stored) l hw hempty (hlisted (fun _ hr => hr) hknown)
    exact simulates_of_overlays hsrc hl hw hmade hdone hoverlays
  · rintro before u d after rfl hknown
    obtain ⟨hunknown, hload⟩ := replaceFlows_fails hsrc hl (fun _ hf => hf.1) before after hw hempty
      (hlisted (fun r hr => List.mem_append_left _ hr) hknown)
    exact ⟨fun hnone => simulate_of_error (hunknown hnone),
      fun e he => simulate_of_error (hload e he)⟩

end World

/-! ## A store in memory -/

namespace AssetStore

/-- Whatever else a store in memory has loaded, it answers as it does now. -/
theorem flowStore (store : AssetStore) (org : OrgId) :
    Sources.ofStore.FlowStore org (fun w => w.rest ≈ store)
      fun ref => (store.loadFlow org ref).1 where
  answers h ref := loadFlow_result org ref h
  stays h ref := Setoid.trans (Setoid.symm (loadFlow_alike org ref _)) h
  untouched _ _ := ⟨Nat.le_refl _, fun _ _ => rfl⟩
  edit h _ := h

theorem distinct {store : AssetStore} {org : OrgId}
    (h : ∀ data, store.find .flows org = .ok data →
      (data.flows.map Flow.id).Nodup ∧ (data.flows.map Flow.uuid).Nodup) :
    Distinct fun ref => (store.loadFlow org ref).1 := by
  have hfound {ref : FlowRef} {f : Flow} (hload : (store.loadFlow org ref).1 = .ok (some f)) :
      ∃ data, store.find .flows org = .ok data ∧ data.flows.find? ref.names = some f := by
    unfold loadFlow at hload
    split at hload
    · cases hload
    · rename_i data hdata
      exact ⟨data, hdata, Except.ok.inj hload⟩
  constructor
  case names =>
    intro ref f hload
    obtain ⟨data, -, hfind⟩ := hfound hload
    exact List.find?_some hfind
  case unique =>
    intro ref ref' f g hload hload' hsame
    obtain ⟨data, hdata, hfind⟩ := hfound hload
    obtain ⟨data', hdata', hfind'⟩ := hfound hload'
    rw [hdata] at hdata'
    cases hdata'
    obtain ⟨hids, huuids⟩ := h data hdata
    have hf := List.mem_of_find?_eq_some hfind
    have hg := List.mem_of_find?_eq_some hfind'
    rcases hsame with hid | huuid
    · exact List.inj_on_of_nodup_map hids hf hg hid
    · exact List.inj_on_of_nodup_map huuids hf hg huuid

end AssetStore

namespace Sample

/-- A second flow beside the survey. -/
def welcome : Flow := ⟨8, .ofNat 8, "Welcome", .messaging, .null⟩

def flowStore : AssetStore := ({} : AssetStore).insertOrg 1 { flows := [survey, welcome] }

/-- The store has not been asked for anything yet. -/
def stocked : World AssetStore :=
  { clock := midnight, cache := { ttl := Span.ofMinutes 1 }, rest := flowStore }

/-- The survey is listed twice. -/
def surveyTwice : List (Uuid × JsonValue) :=
  [(survey.uuid, .string "first"), (survey.uuid, .string "second")]

/-- The second definition counts, whatever was looked up before. The first snapshot and the other
flow keep theirs. -/
theorem survey_replaced_twice : ∃ s w t w',
    stocked.get Sources.ofStore 1 = (.ok s, w) ∧
    w.simulate Sources.ofStore s surveyTwice [] = (.ok t, w') ∧
    (∀ refs : List FlowRef, ((w'.lookUp Sources.ofStore (refs.map fun r => (s, r))).flow
      Sources.ofStore t (.id survey.id)).1 = .ok { survey with definition := .string "second" }) ∧
    (w'.flow Sources.ofStore t (.uuid welcome.uuid)).1 = .ok welcome ∧
    ((w'.lookUp Sources.ofStore [(t, .id survey.id)]).flow Sources.ofStore s (.id survey.id)).1 =
      .ok survey := by
  obtain ⟨s, w, hgot, horg, hsame, hmade, hempty⟩ : ∃ s w,
      stocked.get Sources.ofStore 1 = (.ok s, w) ∧ s.org = 1 ∧ w.rest ≈ flowStore ∧
        s.shelf < w.cache.nextSerial 1 ∧ w.shelfOf s = {} :=
    ⟨_, _, rfl, rfl, ⟨rfl, rfl⟩, by decide, rfl⟩
  have hl : Distinct fun ref => (flowStore.loadFlow 1 ref).1 := AssetStore.distinct fun data h => by
    cases h
    exact ⟨by decide, by decide⟩
  have hsurvey (ref : FlowRef) (hname : ref.names survey) :
      (flowStore.loadFlow 1 ref).1 = .ok (some survey) := by
    cases ref with
    | uuid u => rw [← FlowRef.names_uuid.1 hname]; rfl
    | id n => rw [← FlowRef.names_id.1 hname]; rfl
  rw [← horg] at hl hmade
  simp only [← horg] at hsurvey
  obtain ⟨hkept, hcopied, -⟩ := World.simulate_shows_replacements (flowStore.flowStore s.org) hl
    hsame hmade surveyTwice []
  have hknown : ∀ r ∈ surveyTwice, ∃ f, (flowStore.loadFlow s.org (.uuid r.1)).1 = .ok (some f) := by
    intro r hr
    refine ⟨survey, hsurvey _ (FlowRef.names_uuid.2 ?_)⟩
    simp only [surveyTwice, List.mem_cons, List.not_mem_nil, or_false] at hr
    rcases hr with rfl | rfl <;> rfl
  obtain ⟨t, w', hsim, h⟩ := hcopied hknown
  refine ⟨s, w, t, w', hgot, hsim, fun refs => ?_, ?_, ?_⟩
  · rw [h.replaced survey.uuid survey [(survey.uuid, .string "first")] (.string "second") []
      (hsurvey _ rfl) rfl (by simp) _ (by simp) (.id survey.id) rfl]
  · exact h.stored (.uuid welcome.uuid) welcome (by rw [horg]; rfl) (by decide) [] (by simp)
  · obtain ⟨hsame', hs, ht⟩ := h.made
    have hapart := (h.apart w' hsame' hs ht [.id survey.id] (.id survey.id)).1
    have hshelf : w'.shelfOf s = {} := by
      rw [hsim] at hkept
      exact (hkept s.shelf hmade).trans hempty
    have hload : (Sources.ofStore.loadFlow s.org (.id survey.id) w').1 = .ok (some survey) :=
      ((flowStore.flowStore s.org).answers hsame' _).trans (hsurvey _ rfl)
    rw [List.map_cons, List.map_nil] at hapart
    have hanswer : (w'.flow Sources.ofStore s (.id survey.id)).1 =
        (w'.shelfOf s).answer (fun _ => .ok (some survey)) s.org (.id survey.id) :=
      World.flow_answer_of hload
    rw [hapart, hanswer, hshelf, Shelf.answer, Shelf.find?_empty]

end Sample
end Outreach
