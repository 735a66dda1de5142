import Outreach.Proofs.Cache.Registrations

/-!
# Outreach.Proofs.Cache.Alone

A caller that takes turns while nobody else does ends with the snapshot of a refresh, in the world
that the refresh leaves, and leaves no registration behind.

* `Crowd.Solo` — some turns of one caller.
* `Crowd.Alone` — how far a caller has come alone; `Alone.goes` is one turn of it.
* `Crowd.solo_refresh` — the main result.
-/

namespace Outreach
namespace Crowd

variable {δ : Type} {src : Sources δ} {c d d' : Crowd δ} {i n : Nat} {r : Request} {ph ph' : Phase}
  {w w' : World δ}

/-- The caller at `i` takes some turns. -/
def Solo (src : Sources δ) (i : Nat) (c d : Crowd δ) : Prop :=
  ∃ k, c.run src (List.replicate k i) = d

theorem Solo.refl (c : Crowd δ) : Solo src i c c := ⟨0, rfl⟩

theorem Solo.first (h : Solo src i (c.step src i) d) : Solo src i c d := by
  obtain ⟨k, hk⟩ := h
  exact ⟨k + 1, hk⟩

theorem Solo.trans (h : Solo src i c d) (h' : Solo src i d d') : Solo src i c d' := by
  obtain ⟨k, rfl⟩ := h
  obtain ⟨l, rfl⟩ := h'
  refine ⟨k + l, ?_⟩
  rw [← List.replicate_append_replicate, run_append]

/-- The caller at `i` has come to a phase, and nobody else has moved since `c`. -/
structure Alone (c : Crowd δ) (i : Nat) (r : Request) (ph : Phase) (w : World δ) (d : Crowd δ) :
    Prop where
  caller : d.At i ⟨r, ph⟩
  world : d.world = w
  others : ∀ j, j ≠ i → d.callers[j]? = c.callers[j]?
  cell : ∀ n, ph.cell? = some n → n = c.nextCell
  free : ∀ n, ph = .joined n → d.cells.find? n = some .free
  loading : ∀ o, d.loading.find? o =
    if r.org = o ∧ ph.cell? = some c.nextCell then some c.nextCell else c.loading.find? o

theorem step_at (hat : d.At i ⟨r, ph⟩) :
    d.step src i = (advance src r ph d).2.place i ⟨r, (advance src r ph d).1⟩ := by
  simp only [step, hat]
  rfl

namespace Alone

/-- A turn that changes the callers, the world and the cells only. -/
theorem goes (h : Alone c i r ph w d)
    (hadvance : (advance src r ph d).1 = ph') (hworld : (advance src r ph d).2.world = w')
    (hcallers : (advance src r ph d).2.callers = d.callers)
    (hloading : (advance src r ph d).2.loading = d.loading) (hcell : ph'.cell? = ph.cell?)
    (hjoined : ∀ n, ph' ≠ .joined n) : Alone c i r ph' w' (d.step src i) := by
  have hd : (d.step src i).callers = d.callers.set i ⟨r, ph'⟩ := by
    rw [step_at h.caller, place, hcallers, hadvance]
  constructor
  case caller => exact place_self h.caller hd
  case world =>
    rw [step_at h.caller]
    exact hworld
  case others =>
    intro j hj
    rw [hd, List.getElem?_set_ne fun h => hj h.symm]
    exact h.others j hj
  case cell => exact fun n hn => h.cell n (hcell.symm.trans hn)
  case free => exact fun n hn => absurd hn (hjoined n)
  case loading =>
    intro o
    rw [step_at h.caller, hcell]
    exact (congrArg (Index.find? · o) hloading).trans (h.loading o)

/-- A turn that changes the caller and the world only. -/
theorem goesTo (h : Alone c i r ph w d) (hadvance : advance src r ph d = (ph', d.setWorld w'))
    (hcell : ph'.cell? = ph.cell?) (hjoined : ∀ n, ph' ≠ .joined n) :
    Alone c i r ph' w' (d.step src i) :=
  h.goes (congrArg Prod.fst hadvance) (by rw [hadvance]; rfl) (by rw [hadvance]; rfl)
    (by rw [hadvance]; rfl) hcell hjoined

end Alone

/-- Some turns later the caller has come to the phase. -/
def Comes (src : Sources δ) (c : Crowd δ) (i : Nat) (r : Request) (ph : Phase) (w : World δ)
    (d : Crowd δ) : Prop :=
  ∃ d', Solo src i d d' ∧ Alone c i r ph w d'

theorem Alone.here (h : Alone c i r ph w d) : Comes src c i r ph w d := ⟨d, .refl d, h⟩

theorem Comes.first (h : Comes src c i r ph w (d.step src i)) : Comes src c i r ph w d := by
  obtain ⟨d', hsolo, halone⟩ := h
  exact ⟨d', hsolo.first, halone⟩

theorem Comes.trans (h : Comes src c i r ph w d)
    (h' : ∀ d, Alone c i r ph w d → Comes src c i r ph' w' d) : Comes src c i r ph' w' d := by
  obtain ⟨d', hsolo, halone⟩ := h
  obtain ⟨d'', hsolo', halone'⟩ := h' d' halone
  exact ⟨d'', hsolo.trans hsolo', halone'⟩

namespace Alone

variable {res : Outcome} {t : Instant} {ps : List Part} {done : List Reading} {prev : Snapshot}

/-- The caller leaves its cell and takes away its registration. -/
theorem leaves (h : Alone c i r (.leaving n res) w d) (hnone : c.loading.find? r.org = none) :
    Comes src c i r (.finished res) w d := by
  refine .first (Alone.here ?_)
  obtain ⟨hcallers, -, -, hworld⟩ := unregister_frame d r.org n
  have hn : n = c.nextCell := h.cell n rfl
  have hd : (d.step src i).callers = d.callers.set i ⟨r, .finished res⟩ := by
    rw [step_at h.caller, place]
    exact congrArg (List.set · i _) hcallers
  constructor
  case caller => exact place_self h.caller hd
  case world =>
    rw [step_at h.caller]
    exact hworld.trans h.world
  case others =>
    intro j hj
    rw [hd, List.getElem?_set_ne fun h => hj h.symm]
    exact h.others j hj
  case cell => rintro n ⟨⟩
  case free => rintro n ⟨⟩
  case loading =>
    intro o
    have hreg : d.loading.find? r.org = some n := by
      rw [h.loading, if_pos ⟨rfl, congrArg some hn⟩, hn]
    have hafter : (d.step src i).loading.find? o =
        if r.org = o ∧ d.loading.find? r.org = some n then none else d.loading.find? o := by
      rw [step_at h.caller]
      exact find?_unregister d r.org n o
    have hright : (if r.org = o ∧ (Phase.finished res).cell? = some c.nextCell
        then some c.nextCell else c.loading.find? o) = c.loading.find? o :=
      if_neg fun hcell => by cases hcell.2
    rw [hafter, hright]
    by_cases ho : r.org = o
    · rw [if_pos ⟨ho, hreg⟩, ← ho, hnone]
    · rw [if_neg fun h => ho h.1, h.loading, if_neg fun h => ho h.1]

theorem settles (h : Alone c i r (.settling n res) w d) (hnone : c.loading.find? r.org = none) :
    Comes src c i r (.finished res) w d := by
  have hleaving : Alone c i r (.leaving n res) w (d.step src i) :=
    h.goes rfl h.world rfl rfl rfl (by rintro n ⟨⟩)
  exact .first (hleaving.leaves hnone)

/-- Reading categories one in a turn is reading them one after the other. -/
theorem reads (src : Sources δ) (reading : List Part → List Reading → Phase)
    (failed : AssetError → Phase) (after : World δ → World δ)
    (hadvance : ∀ p ps done (d : Crowd δ), advance src r (reading (p :: ps) done) d =
      match World.readPart src r.org p d.world with
      | (.error e, w) => (failed e, d.setWorld (after w))
      | (.ok q, w) => (reading ps (done ++ [q]), d.setWorld w))
    {cell : Option Nat} (hreading : ∀ ps done, (reading ps done).cell? = cell ∧
      ∀ n, reading ps done ≠ .joined n)
    (hfailed : ∀ e, (failed e).cell? = cell ∧ ∀ n, failed e ≠ .joined n)
    (h : Alone c i r (reading ps done) w d) :
    match World.readParts src r.org ps w with
    | (.error e, w') => Comes src c i r (failed e) (after w') d
    | (.ok rs, w') => Comes src c i r (reading [] (done ++ rs)) w' d := by
  induction ps generalizing w d done with
  | nil =>
    show Comes src c i r (reading [] (done ++ [])) w d
    rw [List.append_nil]
    exact h.here
  | cons p ps ih =>
    have hstep := hadvance p ps done d
    rw [h.world] at hstep
    unfold World.readParts
    cases hread : World.readPart src r.org p w with
    | mk q w₁ =>
      rw [hread] at hstep
      cases q with
      | error e =>
        have hnext : Alone c i r (failed e) (after w₁) (d.step src i) :=
          h.goesTo hstep ((hfailed e).1.trans (hreading _ _).1.symm) (hfailed e).2
        exact .first hnext.here
      | ok q =>
        have hnext : Alone c i r (reading ps (done ++ [q])) w₁ (d.step src i) :=
          h.goesTo hstep ((hreading _ _).1.trans (hreading _ _).1.symm) (hreading _ _).2
        have hrest := ih hnext
        simp only
        cases hrs : World.readParts src r.org ps w₁ with
        | mk rs w₂ =>
          rw [hrs] at hrest
          cases rs with
          | error e => exact .first hrest
          | ok rs =>
            have hcomes : Comes src c i r (reading [] (done ++ [q] ++ rs)) w₂ (d.step src i) :=
              hrest
            rw [List.append_assoc] at hcomes
            exact .first hcomes

/-- The caller that has read all categories puts them together and publishes the snapshot. -/
theorem publishes (h : Alone c i r (.building n t [] done) w d)
    (hnone : c.loading.find? r.org = none) :
    let made := w.cache.assemble r.org none true t done
    Comes src c i r (.finished (.ok made.1))
      ((({ w with cache := made.2 } : World δ).keep made.1).setBuilding
        (made.2.building.erase r.org)) d := by
  intro made
  have hassemble : advance src r (.building n t [] done) d =
      (.publishing n made.1, d.setWorld { w with cache := made.2 }) := by
    simp only [advance, readNext, h.world, made]
  have hassembled : Alone c i r (.publishing n made.1) { w with cache := made.2 } (d.step src i) :=
    h.goesTo hassemble rfl (by rintro n ⟨⟩)
  have hpublish : advance src r (.publishing n made.1) (d.step src i) =
      (.settling n (.ok made.1), (d.step src i).setWorld
        ((({ w with cache := made.2 } : World δ).keep made.1).setBuilding
          (made.2.building.erase r.org))) := by
    simp only [advance, hassembled.world, keep_building]
  have hpublished := hassembled.goesTo hpublish rfl (by rintro n ⟨⟩)
  exact .first (.first (hpublished.settles hnone))

/-- The caller that writes a cell builds in full, or is refused. -/
theorem builds (h : Alone c i r (.checking n) w d) (hnone : c.loading.find? r.org = none)
    (hstale : w.fresh? r.org = none) :
    Comes src c i r (.finished (w.buildFull src r.org).1) (w.buildFull src r.org).2 d := by
  unfold World.buildFull
  by_cases hbusy : w.cache.building.contains r.org
  · have hstep : advance src r (.checking n) d =
        (.settling n (.error (.buildInProgress r.org)), d) := by
      simp only [advance, check, h.world, hstale, if_pos hbusy]
    have hnext : Alone c i r (.settling n (.error (.buildInProgress r.org))) w (d.step src i) :=
      h.goes (congrArg Prod.fst hstep) (by rw [hstep]; exact h.world) (by rw [hstep])
        (by rw [hstep]) rfl (by rintro n ⟨⟩)
    rw [if_pos hbusy]
    exact .first (hnext.settles hnone)
  · have hstep : advance src r (.checking n) d =
        (.building n w.clock Part.all [],
          d.setWorld (w.setBuilding (r.org :: w.cache.building))) := by
      simp only [advance, check, h.world, hstale, if_neg hbusy]
    have hnext : Alone c i r (.building n w.clock Part.all [])
        (w.setBuilding (r.org :: w.cache.building)) (d.step src i) :=
      h.goesTo hstep rfl (by rintro n ⟨⟩)
    rw [if_neg hbusy]
    refine .first ?_
    have hreads := hnext.reads src (.building n w.clock) (fun e => .settling n (.error e))
      (fun w => w.setBuilding (w.cache.building.erase r.org)) (fun p ps done d => rfl)
      (fun ps done => ⟨rfl, by rintro n ⟨⟩⟩) fun e => ⟨rfl, by rintro n ⟨⟩⟩
    cases hrs : World.readParts src r.org Part.all
        (w.setBuilding (r.org :: w.cache.building)) with
    | mk rs w₁ =>
      rw [hrs] at hreads
      cases rs with
      | error e =>
        simp only [World.build, World.partsToRead, hrs]
        exact hreads.trans fun d hd => hd.settles hnone
      | ok rs =>
        simp only [World.build, World.partsToRead, hrs]
        exact hreads.trans fun d hd => hd.publishes hnone

theorem refreshes (src : Sources δ)
    (h : Alone c i r (.refreshing prev (World.partsToRead (some prev) r.mask) []) w d) :
    Comes src c i r
      (.finished (match World.build src r.org (some prev) r.mask w with
        | (.error e, _) => .error e
        | (.ok s, _) => .ok s))
      (match World.build src r.org (some prev) r.mask w with
        | (.error _, w) => w
        | (.ok s, w) => { w with cache := w.cache.publish s }) d := by
  have hreads := h.reads src (.refreshing prev) (fun e => .finished (.error e)) id
    (fun p ps done d => rfl) (fun ps done => ⟨rfl, by rintro n ⟨⟩⟩) fun e => ⟨rfl, by rintro n ⟨⟩⟩
  cases hrs : World.readParts src r.org (World.partsToRead (some prev) r.mask) w with
  | mk rs w₁ =>
    rw [hrs] at hreads
    cases rs with
    | error e =>
      simp only [World.build, hrs]
      exact hreads
    | ok rs =>
      simp only [World.build, hrs]
      refine hreads.trans fun d hd => .first (Alone.here (hd.goesTo ?_ rfl (by rintro n ⟨⟩)))
      simp only [advance, refreshNext, hd.world, List.nil_append]
      -- the time of now does not count for a snapshot that is made from another
      rfl

/-- A caller comes to a cell that it has made, and writes it. -/
theorem enters (h : Alone c i r (.joined n) w d) : Comes src c i r (.checking n) w d := by
  have hentered : advance src r (.joined n) d = (.checking n, d.setCell n .busy) := by
    simp only [advance, enter, h.free n rfl]
  have hchecking : Alone c i r (.checking n) w (d.step src i) :=
    h.goes (congrArg Prod.fst hentered) (by rw [hentered]; exact h.world) (by rw [hentered]; rfl)
      (by rw [hentered]; rfl) rfl (by rintro n ⟨⟩)
  exact .first hchecking.here

/-- A caller that finds no entry makes a registration and comes to write its cell. -/
theorem registers (src : Sources δ) (hat : c.At i ⟨r, .looking⟩)
    (hnone : c.loading.find? r.org = none) (hstale : c.world.fresh? r.org = none) :
    Comes src c i r (.checking c.nextCell) c.world c := by
  have hlooked : c.step src i = c.place i ⟨r, .joining⟩ := by
    rw [step_at hat, advance, look, hstale]
  have hat' : (c.place i ⟨r, .joining⟩).At i ⟨r, .joining⟩ := place_self hat rfl
  have hreg : (c.place i ⟨r, .joining⟩).register r.org =
      (c.nextCell, (c.place i ⟨r, .joining⟩).opened r.org) := by
    have hnone' : (c.place i ⟨r, .joining⟩).loading.find? r.org = none := hnone
    rw [register, hnone']
    rfl
  have hstep : (c.step src i).step src i =
      ((c.place i ⟨r, .joining⟩).opened r.org).place i ⟨r, .joined c.nextCell⟩ := by
    rw [hlooked, step_at hat', advance, hreg]
  have hcallers : ((c.step src i).step src i).callers =
      (c.callers.set i ⟨r, .joining⟩).set i ⟨r, .joined c.nextCell⟩ := by
    rw [hstep]
    rfl
  have hjoined : Alone c i r (.joined c.nextCell) c.world ((c.step src i).step src i) := by
    constructor
    case caller => exact place_self hat' hcallers
    case world => rw [hstep]; rfl
    case others =>
      intro j hj
      rw [hcallers, List.getElem?_set_ne fun h => hj h.symm,
        List.getElem?_set_ne fun h => hj h.symm]
    case cell =>
      rintro n ⟨⟩
      rfl
    case free =>
      rintro n ⟨⟩
      rw [hstep]
      exact (Index.find?_insert _ _ _ _).trans (if_pos rfl)
    case loading =>
      intro o
      have hinsert : ((c.step src i).step src i).loading.find? o =
          if r.org = o then some c.nextCell else c.loading.find? o := by
        rw [hstep]
        exact Index.find?_insert _ _ _ _
      rw [hinsert]
      simp only [Phase.cell?, and_true]
  exact .first (.first hjoined.enters)

end Alone

/-- A caller alone ends with the snapshot of a refresh, and leaves no registration. -/
theorem solo_refresh (src : Sources δ) (hat : c.At i ⟨r, .looking⟩)
    (hnone : c.loading.find? r.org = none) :
    ∃ d, Solo src i c d ∧
      d.At i ⟨r, .finished (c.world.refresh src r.org r.mask).1⟩ ∧
      d.world = (c.world.refresh src r.org r.mask).2 ∧
      (∀ o, d.loading.find? o = c.loading.find? o) ∧
      ∀ j, j ≠ i → d.callers[j]? = c.callers[j]? := by
  have hstart : Alone c i r .looking c.world c :=
    ⟨hat, rfl, fun _ _ => rfl, by rintro n ⟨⟩, by rintro n ⟨⟩,
      fun o => (if_neg fun h => by cases h.2).symm⟩
  have hcomes : Comes src c i r (.finished (c.world.refresh src r.org r.mask).1)
      (c.world.refresh src r.org r.mask).2 c := by
    unfold World.refresh
    cases hfresh : c.world.fresh? r.org with
    | none =>
      exact (Alone.registers src hat hnone hfresh).trans fun d hd => hd.builds hnone hfresh
    | some prev =>
      by_cases hm : r.mask = .empty
      · have hlooked : Alone c i r (.finished (.ok prev)) c.world (c.step src i) := by
          refine hstart.goes ?_ ?_ ?_ ?_ rfl (by rintro n ⟨⟩) <;>
            simp only [advance, look, hfresh, if_pos hm]
        simp only [if_pos hm]
        exact .first hlooked.here
      · have hlooked : Alone c i r
            (.refreshing prev (World.partsToRead (some prev) r.mask) []) c.world
            (c.step src i) := by
          refine hstart.goes ?_ ?_ ?_ ?_ rfl (by rintro n ⟨⟩) <;>
            simp only [advance, look, hfresh, if_neg hm]
        simp only [if_neg hm]
        have hrest := hlooked.refreshes src
        cases hb : World.build src r.org (some prev) r.mask c.world with
        | mk res w₁ =>
          rw [hb] at hrest
          cases res <;> exact .first hrest
  obtain ⟨d, hsolo, hd⟩ := hcomes
  refine ⟨d, hsolo, hd.caller, hd.world, fun o => ?_, hd.others⟩
  rw [hd.loading, if_neg fun h => by cases h.2]

end Crowd
end Outreach
