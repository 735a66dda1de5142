import Mathlib.Data.List.Forall2
import Outreach.Proofs.Cache.Edits

/-!
# Outreach.Proofs.Cache.Reload

What a build asks the sources for, and what it makes of the answers. Sources that note down each
load of a category answer as they did before; what they note are the queries of the build.

* `Sources.noting` — sources that note down what they are asked.
* `World.Asked` — the queries by which categories are read in turn, up to the first that fails;
  `World.Asked.noting` says that they are what is noted.
* `World.Reloaded`, `World.Stopped` — a build that succeeds with its queries, and one that fails.
* `World.build_reloads` — every build is the one or the other.
-/

namespace Outreach

variable {δ : Type}

/-! ## Noting queries -/

/-- A category is asked for. -/
structure Query (δ : Type) where
  part : Part
  org : OrgId
  world : World δ

namespace Query

def answer (src : Sources δ) (q : Query δ) : Except LoadFailure q.part.Source :=
  (src.load q.part q.org q.world).1

/-- The world that the answer leaves. -/
def left (src : Sources δ) (q : Query δ) : World δ :=
  (src.load q.part q.org q.world).2

/-- The world that queries leave which are made one after the other. -/
def leftBy (src : Sources δ) (w : World δ) (qs : List (Query δ)) : World δ :=
  qs.foldl (fun _ q => q.left src) w

/-- The reading that is made of a query. -/
def Gives (src : Sources δ) (q : Query δ) (r : Reading) : Prop :=
  ∃ listed, q.answer src = .ok listed ∧ r = ⟨q.part, q.world.clock, q.part.index listed⟩

end Query

namespace World

/-- The world with a list of queries in it. -/
def noted (w : World δ) (log : List (Query δ)) : World (δ × List (Query δ)) :=
  { clock := w.clock, cache := w.cache, tables := w.tables, rest := (w.rest, log) }

/-- The world without the list. -/
def bare (w : World (δ × List (Query δ))) : World δ :=
  { clock := w.clock, cache := w.cache, tables := w.tables, rest := w.rest.1 }

@[simp] theorem bare_noted (w : World δ) (log : List (Query δ)) : (w.noted log).bare = w := rfl

end World

/-- The sources, which note down each load of a category. -/
def Sources.noting (src : Sources δ) : Sources (δ × List (Query δ)) where
  load p org w :=
    ((src.load p org w.bare).1,
      (src.load p org w.bare).2.noted (w.rest.2 ++ [⟨p, org, w.bare⟩]))
  loadFlow org ref w :=
    ((src.loadFlow org ref w.bare).1, (src.loadFlow org ref w.bare).2.noted w.rest.2)

namespace World

variable {src : Sources δ} {org : OrgId} {ps : List Part} {w w₁ w' : World δ} {qs : List (Query δ)}
  {r : Except AssetError (List Reading)} {rs : List Reading} {e : AssetError}

/-! ## Queries in turn -/

/-- By the queries `qs` categories are read one after the other, up to the first that fails. -/
inductive Asked (src : Sources δ) (org : OrgId) : List Part → World δ → List (Query δ) →
    Except AssetError (List Reading) → World δ → Prop where
  | nil {w : World δ} : Asked src org [] w [] (.ok []) w
  | fails {p : Part} {ps : List Part} {w w' : World δ} {cause : LoadFailure}
      (hload : src.load p org w = (.error cause, w')) :
      Asked src org (p :: ps) w [⟨p, org, w⟩] (.error (.load p org cause)) w'
  | reads {p : Part} {ps : List Part} {w w₁ w' : World δ} {qs : List (Query δ)} {listed : p.Source}
      {rs : List Reading} (hload : src.load p org w = (.ok listed, w₁))
      (h : Asked src org ps w₁ qs (.ok rs) w') :
      Asked src org (p :: ps) w (⟨p, org, w⟩ :: qs) (.ok (⟨p, w.clock, p.index listed⟩ :: rs)) w'
  | passes {p : Part} {ps : List Part} {w w₁ w' : World δ} {qs : List (Query δ)}
      {listed : p.Source} {e : AssetError} (hload : src.load p org w = (.ok listed, w₁))
      (h : Asked src org ps w₁ qs (.error e) w') :
      Asked src org (p :: ps) w (⟨p, org, w⟩ :: qs) (.error e) w'

/-- Reading categories is such a sequence of queries. -/
theorem exists_asked (src : Sources δ) (org : OrgId) (ps : List Part) (w : World δ) :
    ∃ qs, Asked src org ps w qs (readParts src org ps w).1 (readParts src org ps w).2 := by
  induction ps generalizing w with
  | nil => exact ⟨[], .nil⟩
  | cons p ps ih =>
    simp only [readParts, readPart]
    cases hload : src.load p org w with
    | mk answer w₁ =>
      cases answer with
      | error cause => exact ⟨_, .fails hload⟩
      | ok listed =>
        obtain ⟨qs, h⟩ := ih w₁
        simp only
        cases hrest : readParts src org ps w₁ with
        | mk r w₂ =>
          rw [hrest] at h
          cases r with
          | error e => exact ⟨_, .passes hload h⟩
          | ok rs => exact ⟨_, .reads hload h⟩

/-- These queries are what is noted down, and noting them changes nothing else. -/
theorem Asked.noting (h : Asked src org ps w qs r w') (log : List (Query δ)) :
    readParts src.noting org ps (w.noted log) = (r, w'.noted (log ++ qs)) := by
  have hnoting {p : Part} {w w₁ : World δ} {answer : Except LoadFailure p.Source}
      {log : List (Query δ)} (hload : src.load p org w = (answer, w₁)) :
      src.noting.load p org (w.noted log) = (answer, w₁.noted (log ++ [⟨p, org, w⟩])) := by
    simp only [Sources.noting, bare_noted, hload]
    rfl
  induction h generalizing log with
  | nil => rw [List.append_nil]; rfl
  | fails hload => simp only [readParts, readPart, hnoting hload]
  | reads hload _ ih =>
    simp only [readParts, readPart, hnoting hload, ih, List.append_assoc, List.singleton_append]
    rfl
  | passes hload _ ih =>
    simp only [readParts, readPart, hnoting hload, ih, List.append_assoc, List.singleton_append]

theorem Asked.org_eq (h : Asked src org ps w qs r w') : ∀ q ∈ qs, q.org = org := by
  induction h with
  | nil => simp
  | fails _ => simp
  | reads _ _ ih => exact List.forall_mem_cons.2 ⟨rfl, ih⟩
  | passes _ _ ih => exact List.forall_mem_cons.2 ⟨rfl, ih⟩

theorem Asked.left (h : Asked src org ps w qs r w') : w' = Query.leftBy src w qs := by
  have hleft {p : Part} {w w₁ : World δ} {answer : Except LoadFailure p.Source}
      (hload : src.load p org w = (answer, w₁)) : (⟨p, org, w⟩ : Query δ).left src = w₁ :=
    congrArg Prod.snd hload
  induction h with
  | nil => rfl
  | fails hload => exact (hleft hload).symm
  | reads hload _ ih => rw [ih, Query.leftBy, Query.leftBy, List.foldl_cons, hleft hload]
  | passes hload _ ih => rw [ih, Query.leftBy, Query.leftBy, List.foldl_cons, hleft hload]

theorem Asked.of_ok (h : Asked src org ps w qs (.ok rs) w') :
    qs.map Query.part = ps ∧ List.Forall₂ (Query.Gives src) qs rs := by
  generalize hr : (Except.ok rs : Except AssetError (List Reading)) = r at h
  induction h generalizing rs with
  | nil =>
    cases hr
    exact ⟨rfl, .nil⟩
  | fails _ => cases hr
  | reads hload _ ih =>
    cases hr
    obtain ⟨hparts, hgives⟩ := ih rfl
    refine ⟨congrArg _ hparts, .cons ⟨_, ?_, rfl⟩ hgives⟩
    rw [Query.answer, hload]
  | passes _ _ _ => cases hr

theorem Asked.of_error (h : Asked src org ps w qs (.error e) w') :
    ∃ before failed cause, qs = before ++ [failed] ∧ qs.map Query.part <+: ps ∧
      (∀ q ∈ before, ∃ listed, q.answer src = .ok listed) ∧ failed.answer src = .error cause ∧
      e = .load failed.part org cause ∧ w' = failed.left src := by
  generalize hr : (Except.error e : Except AssetError (List Reading)) = r at h
  induction h with
  | nil => cases hr
  | @fails p ps w w' cause hload =>
    cases hr
    refine ⟨[], ⟨p, org, w⟩, cause, rfl, ⟨ps, rfl⟩, by simp, ?_, rfl, ?_⟩
    · rw [Query.answer, hload]
    · rw [Query.left, hload]
  | reads _ _ _ => cases hr
  | @passes p ps w w₁ w' qs listed e hload _ ih =>
    obtain ⟨before, failed, cause, rfl, hprefix, hbefore, hfailed, he, hw⟩ := ih hr
    refine ⟨⟨p, org, w⟩ :: before, failed, cause, rfl, ?_, ?_, hfailed, he, hw⟩
    · exact (List.prefix_cons_inj p).2 hprefix
    · refine List.forall_mem_cons.2 ⟨⟨listed, ?_⟩, hbefore⟩
      rw [Query.answer, hload]

/-- What was read of a category is what its own query gave. -/
theorem of?_of_gives (h : List.Forall₂ (Query.Gives src) qs rs) (hnodup : (qs.map Query.part).Nodup)
    {q : Query δ} (hq : q ∈ qs) : ∃ listed, q.answer src = .ok listed ∧
      Reading.of? q.part rs = some (q.world.clock, q.part.index listed) := by
  induction h with
  | nil => cases hq
  | @cons q' r qs rs hgives _ ih =>
    obtain ⟨listed, hanswer, rfl⟩ := hgives
    obtain ⟨hnew, hnodup⟩ := List.nodup_cons.1 hnodup
    rcases List.mem_cons.1 hq with rfl | hq
    · exact ⟨listed, hanswer, by simp [Reading.of?]⟩
    · have hne : ¬ q'.part = q.part := fun heq =>
        hnew (heq ▸ List.mem_map_of_mem hq)
      obtain ⟨listed', hanswer', hof⟩ := ih hnodup hq
      refine ⟨listed', hanswer', ?_⟩
      rw [Reading.of?, dif_neg hne]
      exact hof

/-! ## Builds -/

/-- A snapshot is built by the queries `qs`. -/
structure Reloaded (src : Sources δ) (org : OrgId) (prev : Option Snapshot) (m : Mask) (w : World δ)
    (qs : List (Query δ)) (s : Snapshot) (w' : World δ) : Prop where
  asked : qs.map Query.part = Part.all.filter fun p => prev.isNone || m.reloads (.part p)
  answered : ∀ q ∈ qs, q.org = org ∧ ∃ listed, q.answer src = .ok listed ∧
    s.content q.part = q.part.index listed
  /-- The build itself uses up a number and does nothing else. -/
  left : ∃ n, w' = (Query.leftBy src w qs).edit (.count org n)
  inherited : ∀ p, p ∉ qs.map Query.part → ∃ t ∈ prev, s.parts p = t.parts p
  org_eq : s.org = org
  builtAt : s.builtAt = match prev with | some t => t.builtAt | none => w.clock
  /-- Shelves are numbered for each org. -/
  sameShelf : ∀ t ∈ prev, m.reloads .flows = false → s.shelf = t.shelf
  /-- No snapshot of the org that was there before has this shelf, and it is empty, if all that the
  loads do to the cache keeps it in order. -/
  newShelf : (prev = none ∨ m.reloads .flows = true) → ∀ may,
    LoadsWell src may org (Loads src org (partsToRead prev m) w) →
    w.cache.nextSerial org ≤ s.shelf ∧ s.shelf < w'.cache.nextSerial org ∧
      (w.InOrder src may → w'.cache.shelf org s.shelf = {})

/-- A build fails at the last of the queries `qs`, and leaves the world as this one did. -/
structure Stopped (src : Sources δ) (org : OrgId) (prev : Option Snapshot) (m : Mask)
    (qs : List (Query δ)) (e : AssetError) (w' : World δ) : Prop where
  asked : qs.map Query.part <+: Part.all.filter fun p => prev.isNone || m.reloads (.part p)
  org_eq : ∀ q ∈ qs, q.org = org
  failed : ∃ before failed cause, qs = before ++ [failed] ∧
    (∀ q ∈ before, ∃ listed, q.answer src = .ok listed) ∧ failed.answer src = .error cause ∧
    e = .load failed.part org cause ∧ w' = failed.left src

variable {prev : Option Snapshot} {m : Mask} {s : Snapshot}

theorem partsToRead_eq (prev : Option Snapshot) (m : Mask) :
    partsToRead prev m = Part.all.filter fun p => prev.isNone || m.reloads (.part p) := by
  cases prev with
  | none => exact (List.filter_eq_self.2 fun p _ => rfl).symm
  | some t => rfl

theorem reloaded_of_asked (h : Asked src org (partsToRead prev m) w qs (.ok rs) w₁)
    (hread : readParts src org (partsToRead prev m) w = (.ok rs, w₁))
    (hbuild : build src org prev m w = (.ok s, w')) : Reloaded src org prev m w qs s w' := by
  obtain ⟨hparts, hgives⟩ := h.of_ok
  obtain ⟨hnow, hsame⟩ := build_builtAt hbuild
  have hnodup : (qs.map Query.part).Nodup := by
    rw [hparts, partsToRead_eq]
    exact Part.nodup_all.filter _
  have hmade : (s, w') = ((w₁.cache.assemble org prev (m.reloads .flows) w.clock rs).1,
      w₁.edit (.count org (w₁.cache.nextSerial org + 1))) := by
    simp only [build, hread, Prod.mk.injEq, Except.ok.injEq] at hbuild
    rw [← hbuild.1, ← hbuild.2]
    rfl
  obtain ⟨hs, hw⟩ := Prod.mk.inj hmade
  constructor
  case asked => rw [hparts, partsToRead_eq]
  case answered =>
    intro q hq
    obtain ⟨listed, hanswer, hof⟩ := of?_of_gives hgives hnodup hq
    refine ⟨h.org_eq q hq, listed, hanswer, ?_⟩
    simp only [hs, Cache.assemble, Snapshot.content, hof]
  case left => exact ⟨_, h.left ▸ hw⟩
  case inherited =>
    intro p hp
    rw [hparts] at hp
    exact (build_parts hbuild p).2 hp
  case org_eq => exact build_org hbuild
  case builtAt =>
    cases prev with
    | none => exact hnow rfl
    | some t => exact hsame t rfl
  case sameShelf =>
    intro t ht hflows
    exact build_sameShelf hbuild hflows t ht
  case newShelf =>
    intro hnew may hl
    exact build_newShelf hl hbuild hnew

theorem stopped_of_asked (h : Asked src org (partsToRead prev m) w qs (.error e) w') :
    Stopped src org prev m qs e w' := by
  obtain ⟨before, failed, cause, hqs, hprefix, hbefore, hfailed, he, hw⟩ := h.of_error
  constructor
  case asked => rwa [← partsToRead_eq]
  case org_eq => exact h.org_eq
  case failed => exact ⟨before, failed, cause, hqs, hbefore, hfailed, he, hw⟩

/-- A build asks for the categories of the mask, or for all if there is nothing to start from, each
once and in order, up to the first that fails, and for nothing else. It takes each category from
its own answer or from the snapshot that it starts from, and so the shelf of flows and the time. -/
theorem build_reloads (src : Sources δ) (org : OrgId) (prev : Option Snapshot) (m : Mask)
    (w : World δ) (log : List (Query δ)) :
    ∃ qs, build src.noting org prev m (w.noted log) =
        ((build src org prev m w).1, (build src org prev m w).2.noted (log ++ qs)) ∧
      match build src org prev m w with
      | (.ok s, w') => Reloaded src org prev m w qs s w'
      | (.error e, w') => Stopped src org prev m qs e w' := by
  obtain ⟨qs, h⟩ := exists_asked src org (partsToRead prev m) w
  have hnoting := h.noting log
  refine ⟨qs, ?_⟩
  cases hread : readParts src org (partsToRead prev m) w with
  | mk r w₁ =>
    rw [hread] at h hnoting
    simp only [build, hread, hnoting]
    cases r with
    | error e => exact ⟨rfl, stopped_of_asked h⟩
    | ok rs =>
      refine ⟨rfl, reloaded_of_asked h hread ?_⟩
      simp only [build, hread]

end World

namespace Sample

/-- A snapshot without anything in it. -/
def blank : Snapshot := ⟨1, 0, ⟨0, 0⟩, fun p => ⟨0, ⟨0, 0⟩, p.index p.nothing⟩, 0⟩

/-- A minute later. One number is given out. -/
def minuteLater : World Unit :=
  { clock := ⟨60, 0⟩, cache := { ttl := 0, supply := Index.empty.insert 1 1 }, rest := () }

/-- To read channels and flows anew only the channels are asked for, and the shelf is a new one. -/
theorem channels_asked_for : ∃ qs s w',
    World.build (Sources.fixed fun _ => {}) 1 (some blank) (.of (.part .channels) ||| .of .flows)
      minuteLater = (.ok s, w') ∧ qs.map Query.part = [.channels] ∧
    World.Reloaded (Sources.fixed fun _ => {}) 1 (some blank)
      (.of (.part .channels) ||| .of .flows) minuteLater qs s w' ∧
    s.builtAt = ⟨0, 0⟩ ∧ s.shelf ≠ blank.shelf ∧ w'.cache.shelf 1 s.shelf = {} := by
  obtain ⟨qs, -, h⟩ := World.build_reloads (Sources.fixed fun _ => {}) 1 (some blank)
    (.of (.part .channels) ||| .of .flows) minuteLater []
  refine ⟨qs, _, _, rfl, h.asked.trans (by decide), h, h.builtAt, ?_⟩
  have hl : World.LoadsWell (Sources.fixed fun _ => {}) (fun _ _ _ => True) 1
      (World.Loads (Sources.fixed fun _ => {}) 1 (World.partsToRead (some blank)
        (.of (.part .channels) ||| .of .flows)) minuteLater) :=
    fun p u _ => ⟨trivial, .refl u⟩
  obtain ⟨hnew, -, hempty⟩ := h.newShelf (.inr (by decide)) _ hl
  refine ⟨Nat.ne_of_gt hnew, hempty ⟨?_, fun _ _ _ => rfl⟩⟩
  intro org s hs
  cases hs

end Sample
end Outreach
