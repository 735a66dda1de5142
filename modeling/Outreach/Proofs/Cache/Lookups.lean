import Outreach.Proofs.Asset.Flow
import Outreach.Proofs.Cache.Edits
import Outreach.Proofs.Cache.Staleness

/-!
# Outreach.Proofs.Cache.Lookups

Flows looked up in snapshots while the table that they are loaded from stays as it is.

* `Shelf.answer` — what a shelf and a table answer together; `World.flow_answer` says that this is
  what a lookup gives.
* `Shelf.Mirrors` — the shelf holds only flows of the table, each by both of its references.
* `Mirrors.answer_put` — then putting on it what was loaded changes no answer.
* `Database.flows_looked_up_alike` — the main result.
-/

namespace Outreach

/-! ## A shelf in front of a table -/

namespace Shelf

variable {look : FlowRef → Except LoadFailure (Option Flow)} {shelf : Shelf} {ref : FlowRef}
  {f g : Flow} {org : OrgId} {t : Instant}

/-- The flow on the shelf, or else what is found by `look`. -/
def answer (look : FlowRef → Except LoadFailure (Option Flow)) (org : OrgId) (shelf : Shelf)
    (ref : FlowRef) : Except AssetError Flow :=
  match shelf.find? ref with
  | some copy => .ok copy.flow
  | none =>
    match look ref with
    | .error e => .error (.flowLoad ref org e)
    | .ok none => .error (.flowNotFound ref org)
    | .ok (some f) => .ok f

theorem found_of_answer (hnone : shelf.find? ref = none)
    (h : shelf.answer look org ref = .ok f) : look ref = .ok (some f) := by
  simp only [answer, hnone] at h
  split at h
  · cases h
  · cases h
  · rename_i hlook
    cases h
    exact hlook

/-- Each copy has the number and the identifier of a flow that is found as well, and two references
to a flow that is found give the same on the shelf. -/
structure Mirrors (look : FlowRef → Except LoadFailure (Option Flow)) (shelf : Shelf) : Prop where
  found : ∀ ref copy, shelf.find? ref = some copy →
    ∃ f, look ref = .ok (some f) ∧ copy.flow.id = f.id ∧ copy.flow.uuid = f.uuid
  alike : ∀ ref f, look ref = .ok (some f) → ∀ ref', ref'.names f →
    shelf.find? ref' = shelf.find? ref

theorem mirrors_empty (look : FlowRef → Except LoadFailure (Option Flow)) : Mirrors look {} := by
  refine ⟨fun ref copy h => ?_, fun ref f _ ref' _ => ?_⟩
  · rw [find?_empty] at h
    cases h
  · rw [find?_empty, find?_empty]

namespace Mirrors

/-- A flow that is found may be put there, also with another definition. -/
theorem put (hl : FindsAlike look) (h : shelf.Mirrors look) (hload : look ref = .ok (some f))
    (hid : g.id = f.id) (huuid : g.uuid = f.uuid) : (shelf.put t g).Mirrors look := by
  have hnames := FlowRef.names_congr hid huuid
  constructor
  case found =>
    intro ref' copy hfind
    rw [find?_put] at hfind
    split at hfind
    · rename_i hname
      cases hfind
      exact ⟨f, (hl ref f hload).2 ref' (hnames ref' ▸ hname), hid, huuid⟩
    · exact h.found ref' copy hfind
  case alike =>
    intro ref₁ f₁ hload₁ ref₂ hname₂
    obtain ⟨hname₁, hall₁⟩ := hl ref₁ f₁ hload₁
    -- both references are to the flow that was put, or neither is
    have hsame (ref₁ ref₂ : FlowRef) (h₁ : look ref₁ = .ok (some f₁))
        (h₂ : look ref₂ = .ok (some f₁)) (hname : ref₁.names f) : ref₂.names f := by
      have hf : f₁ = f := by
        rw [(hl ref f hload).2 ref₁ hname] at h₁
        cases h₁
        rfl
      exact hf ▸ (hl ref₂ f₁ h₂).1
    have hload₂ := hall₁ ref₂ hname₂
    have hiff : ref₂.names g = true ↔ ref₁.names g = true := by
      rw [hnames, hnames]
      exact ⟨hsame ref₂ ref₁ hload₂ hload₁, hsame ref₁ ref₂ hload₁ hload₂⟩
    simp only [find?_put, hiff, h.alike ref₁ f₁ hload₁ ref₂ hname₂]

/-- What was loaded because it was not there is answered all the same once it is there. -/
theorem answer_put (hl : FindsAlike look) (h : shelf.Mirrors look) (hnone : shelf.find? ref = none)
    (hload : look ref = .ok (some f)) (ref' : FlowRef) :
    (shelf.put t f).answer look org ref' = shelf.answer look org ref' := by
  unfold answer
  rw [find?_put]
  by_cases hname : ref'.names f
  · rw [if_pos hname, h.alike ref f hload ref' hname, hnone, (hl ref f hload).2 ref' hname]
  · rw [if_neg hname]

end Mirrors
end Shelf

/-! ## Lookups -/

section

variable {δ : Type} {src : Sources δ} {db : Database}

/-- Flows are loaded from the table, and nothing else happens. -/
def Sources.ReadFlows (src : Sources δ) (db : Database) : Prop :=
  ∀ org ref w, src.loadFlow org ref w = (db.loadFlow org ref, w)

namespace World

/-- Flows are looked up in snapshots, one after the other. -/
def lookUp (src : Sources δ) : List (Snapshot × FlowRef) → World δ → World δ
  | [], w => w
  | l :: ls, w => lookUp src ls (w.flow src l.1 l.2).2

variable {w w' : World δ} {s t : Snapshot} {ref : FlowRef} {org : OrgId} {n : Nat}

theorem demand_of_reads (hsrc : src.ReadFlows db) (org : OrgId) (ref : FlowRef) (w : World δ) :
    (∃ e, demand src org ref w = (.error e, w)) ∨
      ∃ f, db.loadFlow org ref = .ok (some f) ∧ demand src org ref w = (.ok f, w) := by
  have hcases := demand_cases src org ref w
  rwa [hsrc org ref w] at hcases

/-- What a lookup gives depends on the shelf and on what would be loaded. -/
theorem flow_answer_of {look : FlowRef → Except LoadFailure (Option Flow)}
    (hload : (src.loadFlow s.org ref w).1 = look ref) :
    (w.flow src s ref).1 = (w.shelfOf s).answer look s.org ref := by
  unfold flow Shelf.answer demand
  cases (w.shelfOf s).find? ref with
  | some copy => rfl
  | none =>
    cases hfound : src.loadFlow s.org ref w with
    | mk found w' =>
      rw [hfound] at hload
      simp only [← hload]
      cases found with
      | error e => rfl
      | ok found => cases found <;> rfl

theorem flow_answer (hsrc : src.ReadFlows db) (s : Snapshot) (ref : FlowRef) (w : World δ) :
    (w.flow src s ref).1 = (w.shelfOf s).answer (db.loadFlow s.org) s.org ref :=
  flow_answer_of (by rw [hsrc])

theorem shelfOf_flow {f : Flow} (hsrc : src.ReadFlows db) (hnone : (w.shelfOf s).find? ref = none)
    (hload : db.loadFlow s.org ref = .ok (some f)) :
    (w.flow src s ref).2.shelfOf s = (w.shelfOf s).put w.clock f := by
  have hput := shelf_shelve w s w.clock f s.org s.shelf
  rw [if_pos ⟨rfl, rfl⟩] at hput
  simp only [flow, hnone, demand, hsrc s.org ref w, hload]
  exact hput

/-- A lookup leaves a shelf as the load does, or puts on it a flow that was not there and has been
loaded. -/
theorem shelf_flow_of_kept (s : Snapshot) (ref : FlowRef)
    (hkept : (src.loadFlow s.org ref w).2.cache.shelf org n = w.cache.shelf org n) :
    (w.flow src s ref).2.cache.shelf org n = w.cache.shelf org n ∨
      ∃ f, (src.loadFlow s.org ref w).1 = .ok (some f) ∧ (s.org = org ∧ s.shelf = n) ∧
        (w.cache.shelf org n).find? ref = none ∧
        (w.flow src s ref).2.cache.shelf org n = (w.cache.shelf org n).put w.clock f := by
  cases hfind : (w.shelfOf s).find? ref with
  | some copy =>
    rw [flow_of_hit hfind]
    exact .inl rfl
  | none =>
    rcases flow_of_miss src hfind with ⟨e, hflow⟩ | ⟨f, hfound, hflow⟩
    · rw [hflow]
      exact .inl hkept
    · rw [hflow, shelf_shelve]
      split
      · rename_i hsame
        obtain ⟨rfl, rfl⟩ := hsame
        exact .inr ⟨f, hfound, ⟨rfl, rfl⟩, hfind, by rw [shelfOf, hkept]⟩
      · exact .inl hkept

theorem shelf_flow (hsrc : src.ReadFlows db) (s : Snapshot) (ref : FlowRef) (w : World δ)
    (org : OrgId) (n : Nat) :
    (w.flow src s ref).2.cache.shelf org n = w.cache.shelf org n ∨
      ∃ f, db.loadFlow org ref = .ok (some f) ∧ (w.cache.shelf org n).find? ref = none ∧
        (w.flow src s ref).2.cache.shelf org n = (w.cache.shelf org n).put w.clock f := by
  have hkept : (src.loadFlow s.org ref w).2.cache.shelf org n = w.cache.shelf org n := by rw [hsrc]
  rcases shelf_flow_of_kept s ref hkept with hsame | ⟨f, hfound, ⟨rfl, -⟩, hnone, hput⟩
  · exact .inl hsame
  · rw [hsrc] at hfound
    exact .inr ⟨f, hfound, hnone, hput⟩

/-- Lookups change no answer. -/
theorem answer_lookUp (hsrc : src.ReadFlows db) (hl : FindsAlike (db.loadFlow org))
    (looks : List (Snapshot × FlowRef)) (hw : (w.cache.shelf org n).Mirrors (db.loadFlow org))
    (ref : FlowRef) :
    ((w.lookUp src looks).cache.shelf org n).answer (db.loadFlow org) org ref =
      (w.cache.shelf org n).answer (db.loadFlow org) org ref := by
  induction looks generalizing w with
  | nil => rfl
  | cons l ls ih =>
    rw [lookUp]
    rcases shelf_flow hsrc l.1 l.2 w org n with hsame | ⟨f, hload, hnone, hput⟩
    · rw [← hsame] at hw ⊢
      exact ih hw
    · rw [ih (hput ▸ hw.put hl hload rfl rfl), hput, hw.answer_put hl hnone hload]

/-! ### Simulations -/

theorem replaceFlows_mirrors (hsrc : src.ReadFlows db) (hl : FindsAlike (db.loadFlow org))
    (l : List (Uuid × JsonValue)) {shelf shelf' : Shelf} (h : shelf.Mirrors (db.loadFlow org))
    (hdone : replaceFlows src org l shelf w = (.ok shelf', w')) :
    shelf'.Mirrors (db.loadFlow org) := by
  induction l generalizing shelf w with
  | nil =>
    cases hdone
    exact h
  | cons r l ih =>
    unfold replaceFlows at hdone
    split at hdone
    · cases hdone
    · cases hdone
    · rename_i copy w₁ hcopy
      obtain ⟨f, hload, hid, huuid⟩ : ∃ f, db.loadFlow org (.uuid r.1) = .ok (some f) ∧
          copy.flow.id = f.id ∧ copy.flow.uuid = f.uuid := by
        unfold flowOn at hcopy
        split at hcopy
        · rename_i hfind
          cases hcopy
          exact h.found (.uuid r.1) copy hfind
        · rcases demand_of_reads hsrc org (.uuid r.1) w with ⟨e, hload⟩ | ⟨f, hfound, hload⟩
          · rw [hload] at hcopy
            cases hcopy
          · rw [hload] at hcopy
            cases hcopy
            exact ⟨f, hfound, rfl, rfl⟩
      exact ih (h.put (g := { copy.flow with definition := r.2 }) hl hload hid huuid) hdone

/-- The shelf of a simulation holds flows of the table, some of them with another definition. -/
theorem simulate_mirrors (hsrc : src.ReadFlows db) (hl : FindsAlike (db.loadFlow s.org))
    {l : List (Uuid × JsonValue)} {extra : List Channel}
    (hsim : w.simulate src s l extra = (.ok t, w')) :
    (w'.shelfOf t).Mirrors (db.loadFlow s.org) := by
  unfold simulate at hsim
  split at hsim
  · cases hsim
  · rename_i shelf w₁ hdone
    cases hsim
    simp only [shelfOf, Cache.shelf, Cache.setShelf, Index.find?_insert, if_true, Option.getD_some]
    exact replaceFlows_mirrors hsrc hl l (Shelf.mirrors_empty _) hdone

end World

end

open World

/-- Flows looked up in a table as the schema admits it. A flow that is found by its number is found
by its identifier if and only if that is stored in the form in which it is printed; what is found by
an identifier is found by its number. If all flows of the org are stored so, lookups in a new
snapshot or a simulation give the same whatever was looked up before; in a new snapshot only
then. -/
theorem Database.flows_looked_up_alike {db : Database} (hkeys : db.FlowKeys) (org : OrgId) :
    (∀ i f, db.loadFlow org (.id i) = .ok (some f) → f.id = i ∧ ∃ row, db.FlowAt org row f ∧
      (db.loadFlow org (.uuid f.uuid) = .ok (some f) ↔ row.uuid = f.uuid.toString)) ∧
    (∀ u f, db.loadFlow org (.uuid u) = .ok (some f) →
      f.uuid = u ∧ db.loadFlow org (.id f.id) = .ok (some f)) ∧
    ∀ (δ : Type) (src : Sources δ) (s : Snapshot) (w : World δ), src.ReadFlows db → s.org = org →
      (db.Canonical org →
        (w.shelfOf s = {} ∨ ∃ t v l extra, World.simulate src t l extra v = (.ok s, w)) →
        ∀ looks ref, ((w.lookUp src looks).flow src s ref).1 = (w.flow src s ref).1) ∧
      (w.shelfOf s = {} →
        (∀ looks ref, ((w.lookUp src looks).flow src s ref).1 = (w.flow src s ref).1) →
        db.Canonical org) := by
  refine ⟨?byNumber, ?byIdentifier, ?anyOrder⟩
  case byNumber =>
    intro i f hload
    obtain ⟨row, hrow, hname⟩ := (loadFlow_eq_some_iff hkeys).1 hload
    exact ⟨FlowRef.names_id.1 (FlowRef.names_of_namesRow hrow.reads hname), row, hrow,
      hrow.loadFlow_uuid_iff hkeys⟩
  case byIdentifier =>
    intro u f hload
    obtain ⟨row, hrow, hname⟩ := (loadFlow_eq_some_iff hkeys).1 hload
    exact ⟨FlowRef.names_uuid.1 (FlowRef.names_of_namesRow hrow.reads hname),
      hrow.loadFlow_id hkeys⟩
  case anyOrder =>
    rintro δ src s w hsrc rfl
    refine ⟨fun hcanonical hshelf looks ref => ?_, fun hempty hsame => ?_⟩
    · have hl := (findsAlike_iff hkeys s.org).2 hcanonical
      have hmirrors : (w.shelfOf s).Mirrors (db.loadFlow s.org) := by
        rcases hshelf with hempty | ⟨t, v, l, extra, hsim⟩
        · rw [hempty]
          exact Shelf.mirrors_empty _
        · have horg : s.org = t.org := simulate_org hsim
          rw [horg] at hl ⊢
          exact simulate_mirrors hsrc hl hsim
      rw [flow_answer hsrc, flow_answer hsrc]
      exact answer_lookUp hsrc hl looks hmirrors ref
    · intro row f hrow
      -- once the flow has been looked up by its number, it is there by its identifier
      have hlooked : ((w.lookUp src [(s, .id f.id)]).flow src s (.uuid f.uuid)).1 = .ok f := by
        have hnone : (w.shelfOf s).find? (.id f.id) = none := by rw [hempty, Shelf.find?_empty]
        have hput := shelfOf_flow hsrc hnone (hrow.loadFlow_id hkeys)
        rw [flow_answer hsrc, lookUp, lookUp, hput, Shelf.answer, Shelf.find?_put,
          if_pos (FlowRef.names_uuid.2 rfl)]
      rw [hsame, flow_answer hsrc, hempty] at hlooked
      exact (hrow.loadFlow_uuid_iff hkeys).1 (Shelf.found_of_answer (Shelf.find?_empty _) hlooked)

open Sample

def Sample.register : Flow :=
  ⟨1, .ofNat 0xa1b2c3d400004000800000000000abcd, "Register", .messaging, .object []⟩

def Sample.inSmallLetters : FlowRow :=
  ⟨1, 1, "a1b2c3d4-0000-4000-8000-00000000abcd", "Register", "M", "\x7b\x7d", true⟩

def Sample.inCapitals : FlowRow :=
  { inSmallLetters with uuid := "A1B2C3D4-0000-4000-8000-00000000ABCD" }

/-- Flows are loaded from the table, and there is nothing else. -/
def Sample.flowSources (db : Database) : Sources Unit where
  load p _ w := (.ok p.nothing, w)
  loadFlow org ref w := (db.loadFlow org ref, w)

/-- A flow with its identifier in small letters is found by it, whatever was looked up before. -/
theorem Database.register_looked_up_alike :
    let db : Database := { flows := [inSmallLetters] }
    let src := flowSources db
    db.loadFlow 1 (.uuid register.uuid) = .ok (some register) ∧
      ∃ s w, morning.get src 1 = (.ok s, w) ∧
        ∀ looks, ((w.lookUp src looks).flow src s (.uuid register.uuid)).1 = .ok register := by
  intro db src
  have hkeys : db.FlowKeys := ⟨List.nodup_singleton _, List.nodup_singleton _⟩
  have hprinted : inSmallLetters.uuid = register.uuid.toString := by decide +kernel
  have hcanonical : db.Canonical 1 := by
    rintro row f ⟨-, hmem, -, -, hreads⟩
    cases List.mem_singleton.1 hmem
    cases hreads
    exact hprinted
  obtain ⟨hbyNumber, -, hanyOrder⟩ := flows_looked_up_alike hkeys 1
  obtain ⟨-, row, hrow, hiff⟩ := hbyNumber 1 register rfl
  cases List.mem_singleton.1 hrow.mem
  obtain ⟨s, w, hgot, horg, hempty⟩ : ∃ s w, morning.get src 1 = (.ok s, w) ∧
      s.org = 1 ∧ w.shelfOf s = {} := ⟨_, _, rfl, rfl, rfl⟩
  have hlooks := (hanyOrder Unit src s w (fun _ _ _ => rfl) horg).1 hcanonical (.inl hempty)
  refine ⟨hiff.2 hprinted, s, w, hgot, fun looks => ?_⟩
  rw [hlooks looks, flow_answer (fun _ _ _ => rfl), hempty, horg, Shelf.answer, Shelf.find?_empty]
  simp only [hiff.2 hprinted]

/-- A flow with its identifier in capitals is found by its number, and by its identifier only after
that. -/
theorem Database.register_in_capitals :
    let db : Database := { flows := [inCapitals] }
    let src := flowSources db
    db.FlowKeys ∧ db.loadFlow 1 (.id 1) = .ok (some register) ∧
      db.loadFlow 1 (.uuid register.uuid) = .ok none ∧
      ∃ s w, morning.get src 1 = (.ok s, w) ∧
        (w.flow src s (.uuid register.uuid)).1 =
          .error (.flowNotFound (.uuid register.uuid) 1) ∧
        ((w.flow src s (.id 1)).2.flow src s (.uuid register.uuid)).1 = .ok register :=
  ⟨⟨List.nodup_singleton _, List.nodup_singleton _⟩, rfl, rfl, _, _, rfl, rfl, rfl⟩

end Outreach
