import Outreach.Proofs.Cache.Registrations

/-!
# Outreach.Proofs.Cache.Builds

What is loaded for a cell, and which full builds are under way, while callers take turns.

* `Ends` — how the callers of a cell end, and what was loaded for it.
* `Tallied` — what has been loaded for each cell so far.
* `Underway` — which full builds are under way.
* `Sound` — all that holds of a crowd along every run; `Sound.turn` says that a turn keeps it, with
  one lemma for each kind of turn.
-/

namespace Outreach
namespace Crowd

variable {δ : Type} {src : Sources δ} {c d : Crowd δ} {log ds : List Deed}
  {i j n m : Nat} {x y : Caller} {r : Request} {ph ph' : Phase} {org : OrgId}

/-! ## What is loaded for a cell -/

/-- How the callers end whose cell was written for the org, and what was loaded for it. -/
inductive Ends (org : OrgId) (n : Nat) (log : List Deed) : Outcome → Prop where
  | found {s : Snapshot} (hfound : .found n s ∈ log) (hloads : loadsFor n log = []) :
    Ends org n log (.ok s)
  | built {s : Snapshot} (hloads : loadsFor n log = Part.all) : Ends org n log (.ok s)
  | failed {p : Part} {e : LoadFailure} {ps rest : List Part} (hall : Part.all = ps ++ p :: rest)
      (hloads : loadsFor n log = ps ++ [p]) : Ends org n log (.error (.load p org e))

theorem Ends.append {res : Outcome} (h : Ends org n log res) (hds : loadsFor n ds = []) :
    Ends org n (log ++ ds) res := by
  have hsame : loadsFor n (log ++ ds) = loadsFor n log := by
    rw [loadsFor_append, hds, List.append_nil]
  cases h with
  | found hfound hloads => exact .found (List.mem_append_left _ hfound) (hsame.trans hloads)
  | built hloads => exact .built (hsame.trans hloads)
  | failed hall hloads => exact .failed hall (hsame.trans hloads)

theorem Ends.inOrder {res : Outcome} (h : Ends org n log res) : loadsFor n log <+: Part.all := by
  cases h with
  | found hfound hloads =>
    rw [hloads]
    exact List.nil_prefix
  | built hloads => exact ⟨[], (List.append_nil _).trans hloads⟩
  | @failed p e ps rest hall hloads =>
    rw [hloads, hall]
    exact ⟨rest, by simp⟩

/-- What was loaded for the cell that a caller of the org writes, by the phase of the caller. -/
def Tally (org : OrgId) (log : List Deed) : Phase → Prop
  | .checking n => loadsFor n log = []
  | .building n _ todo _ => loadsFor n log ++ todo = Part.all
  | .publishing n _ => loadsFor n log = Part.all
  | .settling n res => Ends org n log res
  | _ => True

theorem Tally.append (h : Tally org log ph) (hds : ∀ n, ph.writes? = some n → loadsFor n ds = []) :
    Tally org (log ++ ds) ph := by
  cases ph with
  | checking n => rw [Tally, loadsFor_append, hds n rfl, List.append_nil, h]
  | building n t todo done => rw [Tally, loadsFor_append, hds n rfl, List.append_nil, h]
  | publishing n s => rw [Tally, loadsFor_append, hds n rfl, List.append_nil, h]
  | settling n res => exact Ends.append h (hds n rfl)
  | _ => trivial

theorem Tally.inOrder (h : Tally org log ph) (hn : ph.writes? = some n) :
    loadsFor n log <+: Part.all := by
  cases ph with
  | checking =>
    cases hn
    rw [show loadsFor n log = [] from h]
    exact List.nil_prefix
  | building =>
    cases hn
    exact ⟨_, h⟩
  | publishing =>
    cases hn
    exact ⟨[], (List.append_nil _).trans h⟩
  | settling =>
    cases hn
    exact Ends.inOrder h
  | _ => cases hn

theorem tally_of_not_writing (h : ph.writes? = none) : Tally org log ph := by
  cases ph <;> trivial

namespace Work

variable {w w' : World δ}

/-- Whoever writes a cell loads for no other one and joins none. -/
theorem frame (h : Work src i org ph w ds ph' w') :
    ∃ n, ph.writes? = some n ∧ ph'.writes? = some n ∧ (∀ j m, .joined j m ∉ ds) ∧
      (∀ j m p, .loaded j m p ∈ ds → j = i ∧ m = n) ∧ ∀ m, m ≠ n → loadsFor m ds = [] := by
  have hnone (n : Nat) (p : Part) (m : Nat) (hm : m ≠ n) : loadsFor m [.loaded i n p] = [] := by
    simp [loadsFor, hm.symm]
  have hown (n : Nat) (p : Part) (j m : Nat) (q : Part)
      (hq : Deed.loaded j m q ∈ [.loaded i n p]) : j = i ∧ m = n := by
    cases List.mem_singleton.1 hq
    exact ⟨rfl, rfl⟩
  cases h with
  | found hs => exact ⟨_, rfl, rfl, by simp, by simp, fun m _ => rfl⟩
  | refused hbusy => exact ⟨_, rfl, rfl, by simp, by simp, fun m _ => rfl⟩
  | begun hfree => exact ⟨_, rfl, rfl, by simp, by simp, fun m _ => rfl⟩
  | loaded hw => exact ⟨_, rfl, rfl, by simp, hown _ _, hnone _ _⟩
  | failed hw => exact ⟨_, rfl, rfl, by simp, hown _ _, hnone _ _⟩
  | assembled hw => exact ⟨_, rfl, rfl, by simp, by simp, fun m _ => rfl⟩
  | published hw => exact ⟨_, rfl, rfl, by simp, by simp, fun m _ => rfl⟩

/-- Whoever writes a cell goes on in the order of the categories, if it is not refused. -/
theorem tally (h : Work src i org ph w ds ph' w') (htally : Tally org log ph)
    (hfree : ∀ n, ph = .checking n → org ∉ w.cache.building) : Tally org (log ++ ds) ph' := by
  have hone (n : Nat) (p : Part) : loadsFor n [.loaded i n p] = [p] := by simp [loadsFor]
  cases h with
  | @found n s w hs =>
    have hloads : loadsFor n (log ++ [.found n s]) = [] := by
      rw [loadsFor_append, htally]
      rfl
    exact .found (List.mem_append_right _ List.mem_cons_self) hloads
  | refused hbusy => exact absurd hbusy (hfree _ rfl)
  | begun _ =>
    rw [List.append_nil, Tally, htally]
    rfl
  | @loaded n t p ps =>
    rw [Tally, loadsFor_append, hone, List.append_assoc]
    exact htally
  | @failed n t p ps =>
    refine .failed htally.symm ?_
    rw [loadsFor_append, hone]
  | assembled _ =>
    rw [List.append_nil]
    exact (List.append_nil _).symm.trans htally
  | published _ =>
    rw [List.append_nil]
    exact .built htally

end Work

/-- What was loaded for a cell fits the phase of the caller that writes it, and once it is
settled, its result. All callers of a cell ask for the same org. -/
structure Tallied (log : List Deed) (c : Crowd δ) : Prop where
  orgs : ∀ {i j x y n}, .joined i n ∈ log → .joined j n ∈ log → c.At i x → c.At j y →
    x.request.org = y.request.org
  inOrder : ∀ n, loadsFor n log <+: Part.all
  free : ∀ {n}, c.cells.find? n = some .free → loadsFor n log = []
  writing : ∀ {i x}, c.At i x → Tally x.request.org log x.phase
  settled : ∀ {i x n res}, c.cells.find? n = some (.settled res) → .joined i n ∈ log → c.At i x →
    Ends x.request.org n log res

namespace Tallied

/-- A caller asks for the same org throughout. -/
theorem org_of_place (hat : c.At i ⟨r, ph⟩) (hd : d.callers = c.callers.set i ⟨r, ph'⟩)
    (hx : d.At j x) : ∃ x', c.At j x' ∧ x'.request = x.request := by
  obtain ⟨rfl, rfl⟩ | ⟨-, hx⟩ := place_cases hat hd hx
  · exact ⟨_, hat, rfl⟩
  · exact ⟨x, hx, rfl⟩

theorem orgs_of_place {k l : Nat} (h : Tallied log c) (hat : c.At i ⟨r, ph⟩)
    (hd : d.callers = c.callers.set i ⟨r, ph'⟩) (hk : .joined k n ∈ log) (hl : .joined l n ∈ log)
    (hx : d.At k x) (hy : d.At l y) : x.request.org = y.request.org := by
  obtain ⟨x', hx', hrx⟩ := org_of_place hat hd hx
  obtain ⟨y', hy', hry⟩ := org_of_place hat hd hy
  rw [← hrx, ← hry]
  exact h.orgs hk hl hx' hy'

/-- The cells stay as they are. -/
theorem move (h : Tallied log c) (hat : c.At i ⟨r, ph⟩)
    (hd : d.callers = c.callers.set i ⟨r, ph'⟩) (hcells : d.cells = c.cells)
    (htally : Tally r.org log ph') : Tallied log d where
  orgs := h.orgs_of_place hat hd
  inOrder := h.inOrder
  free hn := h.free (hcells ▸ hn)
  writing hx := by
    obtain ⟨rfl, rfl⟩ | ⟨-, hx⟩ := place_cases hat hd hx
    · exact htally
    · exact h.writing hx
  settled hn hi hx := by
    obtain ⟨x', hx', hrx⟩ := org_of_place hat hd hx
    rw [← hrx]
    exact h.settled (hcells ▸ hn) hi hx'

/-- The caller at `i` joins a cell of its org. -/
theorem join (h : Tallied log c) (hat : c.At i ⟨r, .joining⟩)
    (hd : d.callers = c.callers.set i ⟨r, .joined n⟩)
    (hother : ∀ m, m ≠ n → d.cells.find? m = c.cells.find? m)
    (hfree : d.cells.find? n = some .free → loadsFor n log = [])
    (horg : ∀ j y, .joined j n ∈ log → c.At j y → y.request.org = r.org)
    (hsettled : ∀ res, d.cells.find? n = some (.settled res) →
      c.cells.find? n = some (.settled res) ∧ Ends r.org n log res) :
    Tallied (log ++ [.joined i n]) d := by
  have hloads (m : Nat) : loadsFor m (log ++ [.joined i n]) = loadsFor m log := by
    rw [loadsFor_append]
    exact List.append_nil _
  constructor
  case orgs =>
    intro k l x y m hk hl hx hy
    obtain ⟨x', hx', hrx⟩ := org_of_place hat hd hx
    obtain ⟨y', hy', hry⟩ := org_of_place hat hd hy
    rw [← hrx, ← hry]
    rcases joined_or_last hk with hk' | ⟨rfl, rfl⟩
    · rcases joined_or_last hl with hl' | ⟨rfl, rfl⟩
      · exact h.orgs hk' hl' hx' hy'
      · cases hat.symm.trans hy'
        exact horg k x' hk' hx'
    · cases hat.symm.trans hx'
      rcases joined_or_last hl with hl' | ⟨rfl, -⟩
      · exact (horg l y' hl' hy').symm
      · cases hat.symm.trans hy'
        rfl
  case inOrder =>
    intro m
    rw [hloads]
    exact h.inOrder m
  case free =>
    intro m hm
    rw [hloads]
    by_cases hmn : m = n
    · exact hmn ▸ hfree (hmn ▸ hm)
    · exact h.free (hother m hmn ▸ hm)
  case writing =>
    intro k x hx
    obtain ⟨rfl, rfl⟩ | ⟨-, hx⟩ := place_cases hat hd hx
    · trivial
    · exact (h.writing hx).append fun _ _ => rfl
  case settled =>
    intro k x m res hm hk hx
    obtain ⟨x', hx', hrx⟩ := org_of_place hat hd hx
    rw [← hrx]
    refine Ends.append ?_ rfl
    rcases joined_or_last hk with hk' | ⟨rfl, rfl⟩
    · by_cases hmn : m = n
      · subst hmn
        exact h.settled (hsettled res hm).1 hk' hx'
      · exact h.settled (hother m hmn ▸ hm) hk' hx'
    · cases hat.symm.trans hx'
      exact (hsettled res hm).2

/-- The caller at `i` begins to write its cell or has written it. -/
theorem write {cell : Cell} (h : Tallied log c) (hat : c.At i ⟨r, ph⟩)
    (hjoined : .joined i n ∈ log) (htally : Tally r.org log ph')
    (hcell : cell = .busy ∨ ∃ res, cell = .settled res ∧ Ends r.org n log res) :
    Tallied log ((c.setCell n cell).place i ⟨r, ph'⟩) := by
  have hcells (m : Nat) : ((c.setCell n cell).place i ⟨r, ph'⟩).cells.find? m =
      if n = m then some cell else c.cells.find? m := Index.find?_insert _ _ _ _
  constructor
  case orgs => exact h.orgs_of_place hat rfl
  case inOrder => exact h.inOrder
  case free =>
    intro m hm
    rw [hcells] at hm
    split at hm
    · cases hm
      obtain hcell | ⟨_, hcell, -⟩ := hcell <;> cases hcell
    · exact h.free hm
  case writing =>
    intro k x hx
    obtain ⟨rfl, rfl⟩ | ⟨-, hx⟩ := place_cases hat rfl hx
    · exact htally
    · exact h.writing hx
  case settled =>
    intro k x m res hm hk hx
    obtain ⟨x', hx', hrx⟩ := org_of_place hat rfl hx
    rw [← hrx]
    rw [hcells] at hm
    split at hm
    · rename_i hnm
      subst hnm
      cases hm
      obtain hcell | ⟨res', hcell, hends⟩ := hcell
      · cases hcell
      · cases hcell
        rw [h.orgs hk hjoined hx' hat]
        exact hends
    · exact h.settled hm hk hx'

/-- The caller at `i` does something about the cell that it alone writes. -/
theorem work (h : Tallied log c) (hc : Cells log c) (hat : c.At i ⟨r, ph⟩)
    (hd : d.callers = c.callers.set i ⟨r, ph'⟩) (hcells : d.cells = c.cells)
    (hn : ph.writes? = some n) (hn' : ph'.writes? = some n) (hjoined : ∀ j m, .joined j m ∉ ds)
    (hds : ∀ m, m ≠ n → loadsFor m ds = []) (htally : Tally r.org (log ++ ds) ph') :
    Tallied (log ++ ds) d := by
  have hback {k m : Nat} (hk : Deed.joined k m ∈ log ++ ds) : .joined k m ∈ log :=
    (List.mem_append.1 hk).resolve_right (hjoined k m)
  have hbusy : c.cells.find? n = some .busy := hc.busy hat hn
  constructor
  case orgs => exact fun hk hl hx hy => h.orgs_of_place hat hd (hback hk) (hback hl) hx hy
  case inOrder =>
    intro m
    by_cases hmn : m = n
    · exact hmn ▸ htally.inOrder hn'
    · rw [loadsFor_append, hds m hmn, List.append_nil]
      exact h.inOrder m
  case free =>
    intro m hm
    rw [hcells] at hm
    have hmn : m ≠ n := by
      rintro rfl
      rw [hbusy] at hm
      cases hm
    rw [loadsFor_append, h.free hm, hds m hmn]
    rfl
  case writing =>
    intro k x hx
    obtain ⟨rfl, rfl⟩ | ⟨hki, hx⟩ := place_cases hat hd hx
    · exact htally
    · refine (h.writing hx).append fun m hm => hds m ?_
      rintro rfl
      exact hki (hc.alone hx hat hm hn)
  case settled =>
    intro k x m res hm hk hx
    obtain ⟨x', hx', hrx⟩ := org_of_place hat hd hx
    rw [hcells] at hm
    rw [← hrx]
    refine (h.settled hm (hback hk) hx').append (hds m ?_)
    rintro rfl
    rw [hbusy] at hm
    cases hm

end Tallied

/-! ## Full builds under way -/

/-- A full build of an org that callers ask for is under way only if one of them builds it. -/
structure Underway (c : Crowd δ) : Prop where
  builder : ∀ {i x}, c.At i x → x.request.org ∈ c.world.cache.building →
    ∃ j y n, c.At j y ∧ y.request.org = x.request.org ∧ y.phase.builds? = some n
  once : ∀ {i x}, c.At i x → c.world.cache.building.count x.request.org ≤ 1

namespace Underway

/-- No full build begins or ends, and the caller at `i` goes on building if it did. -/
theorem move (h : Underway c) (hat : c.At i ⟨r, ph⟩) (hd : d.callers = c.callers.set i ⟨r, ph'⟩)
    (hbuilding : d.world.cache.building = c.world.cache.building)
    (hbuilds : ∀ n, ph.builds? = some n → ∃ m, ph'.builds? = some m) : Underway d where
  builder hx hmem := by
    obtain ⟨x', hx', hrx⟩ := Tallied.org_of_place hat hd hx
    rw [hbuilding, ← hrx] at hmem
    obtain ⟨j, y, n, hy, horg, hn⟩ := h.builder hx' hmem
    by_cases hji : j = i
    · subst hji
      cases hat.symm.trans hy
      obtain ⟨m, hm⟩ := hbuilds n hn
      exact ⟨j, _, m, place_self hat hd, hrx ▸ horg, hm⟩
    · exact ⟨j, y, n, (place_ne hd hji).2 hy, hrx ▸ horg, hn⟩
  once hx := by
    obtain ⟨x', hx', hrx⟩ := Tallied.org_of_place hat hd hx
    rw [hbuilding, ← hrx]
    exact h.once hx'

/-- The caller at `i` begins to build its org. -/
theorem begin (h : Underway c) (hat : c.At i ⟨r, ph⟩) (hd : d.callers = c.callers.set i ⟨r, ph'⟩)
    (hfree : r.org ∉ c.world.cache.building)
    (hbuilding : d.world.cache.building = r.org :: c.world.cache.building)
    (hbuilds : ph'.builds? = some n) (hbefore : ph.builds? = none) : Underway d where
  builder hx hmem := by
    obtain ⟨x', hx', hrx⟩ := Tallied.org_of_place hat hd hx
    rw [hbuilding, ← hrx] at hmem
    rcases List.mem_cons.1 hmem with hsame | hmem
    · exact ⟨i, _, n, place_self hat hd, hrx ▸ hsame.symm, hbuilds⟩
    · obtain ⟨j, y, m, hy, horg, hm⟩ := h.builder hx' hmem
      have hji : j ≠ i := by
        rintro rfl
        cases hat.symm.trans hy
        rw [hbefore] at hm
        cases hm
      exact ⟨j, y, m, (place_ne hd hji).2 hy, hrx ▸ horg, hm⟩
  once hx := by
    obtain ⟨x', hx', hrx⟩ := Tallied.org_of_place hat hd hx
    rw [hbuilding, ← hrx]
    by_cases horg : r.org = x'.request.org
    · refine Nat.le_of_eq ?_
      rw [← horg, List.count_cons_self, List.count_eq_zero.2 hfree]
    · rw [List.count_cons_of_ne horg]
      exact h.once hx'

/-- The caller at `i` has built its org. -/
theorem done (h : Underway c) (hat : c.At i ⟨r, ph⟩) (hd : d.callers = c.callers.set i ⟨r, ph'⟩)
    (hbuilding : d.world.cache.building = c.world.cache.building.erase r.org) : Underway d where
  builder hx hmem := by
    obtain ⟨x', hx', hrx⟩ := Tallied.org_of_place hat hd hx
    rw [hbuilding, ← hrx] at hmem
    by_cases horg : x'.request.org = r.org
    · have hcount := h.once hat
      have hpos := List.count_pos_iff.2 (horg ▸ hmem)
      rw [List.count_erase_self] at hpos
      simp only at hcount
      omega
    · obtain ⟨j, y, n, hy, hyorg, hn⟩ := h.builder hx' (List.mem_of_mem_erase hmem)
      have hji : j ≠ i := by
        rintro rfl
        cases hat.symm.trans hy
        exact horg hyorg.symm
      exact ⟨j, y, n, (place_ne hd hji).2 hy, hrx ▸ hyorg, hn⟩
  once hx := by
    obtain ⟨x', hx', hrx⟩ := Tallied.org_of_place hat hd hx
    rw [hbuilding, ← hrx]
    exact Nat.le_trans (List.erase_sublist.count_le _) (h.once hx')

theorem work {w : World δ} (h : Underway c) (hat : c.At i ⟨r, ph⟩)
    (hw : Work src i r.org ph c.world ds ph' w) :
    Underway ((c.setWorld w).place i ⟨r, ph'⟩) := by
  cases hw with
  | found hs => exact h.move hat rfl rfl (by rintro n ⟨⟩)
  | refused hbusy => exact h.move hat rfl rfl (by rintro n ⟨⟩)
  | begun hfree => exact h.begin hat rfl hfree rfl rfl rfl
  | loaded hw => exact h.move hat rfl hw fun n hn => ⟨n, hn⟩
  | failed hw => exact h.done hat rfl hw
  | assembled hw => exact h.move hat rfl hw fun n hn => ⟨n, hn⟩
  | published hw => exact h.done hat rfl hw

end Underway

/-! ## Every run -/

/-- What holds of a crowd whatever turns were taken. -/
structure Sound (log : List Deed) (c : Crowd δ) : Prop where
  joins : Joins log c
  cells : Cells log c
  written : Written c
  tallied : Tallied log c
  underway : Underway c

namespace Sound

/-- No full build of the org is under way when a caller of it looks for an entry once more. -/
theorem not_underway (h : Sound log c) (hat : c.At i ⟨r, .checking n⟩) :
    r.org ∉ c.world.cache.building := by
  intro hmem
  obtain ⟨j, y, m, hy, horg, hm⟩ := h.underway.builder hat hmem
  cases h.cells.writers_eq hat hy horg.symm rfl (Phase.writes?_of_builds? hm)
  cases hat.symm.trans hy
  cases hm

/-- Nothing has been loaded for a cell that is not made yet. -/
theorem loadsFor_unmade (h : Sound log c) (hn : c.nextCell ≤ n) : loadsFor n log = [] := by
  refine List.filterMap_eq_nil_iff.2 fun deed hdeed => ?_
  cases deed with
  | joined => rfl
  | found => rfl
  | loaded k m p =>
    have hm := h.joins.made (h.joins.loaded hdeed)
    exact if_neg (by omega)

/-- A caller that has joined no cell goes on. -/
theorem apart {w : World δ} (h : Sound log c) (hat : c.At i ⟨r, ph⟩) (hph : ph.Apart)
    (hph' : ph'.Apart ∨ ∃ res, ph' = .finished res)
    (hw : w.cache.building = c.world.cache.building) :
    Sound log ((c.setWorld w).place i ⟨r, ph'⟩) := by
  have hcell' : ph'.cell? = none := by
    rcases hph' with hph' | ⟨res, rfl⟩
    · exact hph'.cell?
    · rfl
  have hholds (n : Nat) : ph'.cell? ≠ some n := fun hn => by
    rw [hcell'] at hn
    cases hn
  have hwrote (n : Nat) : ph.writes? ≠ some n := fun hn => by
    have hcell := Phase.cell?_of_writes? hn
    rw [hph.cell?] at hcell
    cases hcell
  have hwrites (n : Nat) : ph'.writes? ≠ some n :=
    fun hn => hholds n (Phase.cell?_of_writes? hn)
  constructor
  case joins => exact h.joins.move hat rfl rfl (fun _ => hph) fun n hn => absurd hn (hholds n)
  case cells =>
    refine h.cells.move h.joins hat rfl rfl rfl (hcell'.trans hph.cell?.symm)
      (fun n hn => absurd hn (hwrites n)) (fun n res hleaving => ?_) fun _ _ => hph
    exact absurd (congrArg Phase.cell? hleaving) (hholds n)
  case written =>
    exact h.written.move hat rfl rfl (fun n hn => absurd hn (hholds n))
      fun n hn => absurd hn (hwrote n)
  case tallied =>
    exact h.tallied.move hat rfl rfl
      (tally_of_not_writing (Option.eq_none_iff_forall_ne_some.2 hwrites))
  case underway =>
    exact h.underway.move hat rfl hw fun n hn => absurd (Phase.writes?_of_builds? hn) (hwrote n)

/-- A caller joins the registration of its org. -/
theorem join (h : Sound log c) (hat : c.At i ⟨r, .joining⟩)
    (hfound : c.loading.find? r.org = some n) :
    Sound (log ++ [.joined i n]) (c.place i ⟨r, .joined n⟩) := by
  obtain ⟨k, x, hx, horg, hheld⟩ := h.cells.registered hfound
  have hk : .joined k n ∈ log := h.joins.held hx hheld
  constructor
  case joins => exact h.joins.join hat rfl (Nat.le_refl _) (h.joins.made hk)
  case cells => exact h.cells.join hat hfound
  case written =>
    refine h.written.move hat rfl rfl (fun m hm => ?_) (by rintro m ⟨⟩)
    cases hm
    exact h.written.known hx hheld
  case tallied =>
    exact h.tallied.join hat rfl (fun _ _ => rfl) h.tallied.free
      (fun j y hj hy => (h.tallied.orgs hj hk hy hx).trans horg)
      fun res hres => ⟨hres, horg ▸ h.tallied.settled hres hk hx⟩
  case underway => exact h.underway.move hat rfl rfl (by rintro m ⟨⟩)

/-- A caller makes a registration for its org. -/
theorem register (h : Sound log c) (hat : c.At i ⟨r, .joining⟩)
    (hnone : c.loading.find? r.org = none) :
    Sound (log ++ [.joined i c.nextCell]) ((c.opened r.org).place i ⟨r, .joined c.nextCell⟩) := by
  have hcells (m : Nat) : ((c.opened r.org).place i ⟨r, .joined c.nextCell⟩).cells.find? m =
      if c.nextCell = m then some .free else c.cells.find? m := Index.find?_insert _ _ _ _
  constructor
  case joins => exact h.joins.join hat rfl (Nat.le_succ _) (Nat.lt_succ_self _)
  case cells => exact h.cells.register h.joins hat hnone
  case written =>
    exact h.written.write hat rfl hcells rfl (by rintro ⟨⟩) (by rintro m ⟨⟩)
  case tallied =>
    refine h.tallied.join hat rfl (fun m hm => (hcells m).trans (if_neg hm.symm))
      (fun _ => h.loadsFor_unmade (Nat.le_refl _))
      (fun j y hj _ => absurd (h.joins.made hj) (Nat.lt_irrefl _)) fun res hres => ?_
    rw [hcells, if_pos rfl] at hres
    cases hres
  case underway => exact h.underway.move hat rfl rfl (by rintro m ⟨⟩)

/-- A caller takes the result from its cell. -/
theorem take {res : Outcome} (h : Sound log c) (hat : c.At i ⟨r, .joined n⟩)
    (hcell : c.cells.find? n = some (.settled res)) :
    Sound log (c.place i ⟨r, .leaving n res⟩) where
  joins := h.joins.move hat rfl rfl False.elim fun _ hm => hm
  cells := h.cells.move h.joins hat rfl rfl rfl rfl (by rintro m ⟨⟩)
    (by rintro m res ⟨⟩; exact hcell) (by rintro res ⟨⟩)
  written := h.written.move hat rfl rfl (fun m hm => h.written.known hat hm) (by rintro m ⟨⟩)
  tallied := h.tallied.move hat rfl rfl trivial
  underway := h.underway.move hat rfl rfl (by rintro m ⟨⟩)

/-- A caller begins to write its cell. -/
theorem enter (h : Sound log c) (hat : c.At i ⟨r, .joined n⟩)
    (hcell : c.cells.find? n = some .free) :
    Sound log ((c.setCell n .busy).place i ⟨r, .checking n⟩) := by
  constructor
  case joins => exact h.joins.move hat rfl rfl False.elim fun _ hm => hm
  case cells =>
    refine h.cells.write hat rfl rfl (fun res hres => ?_) (fun j y hy hn => ?_) (.inl ⟨rfl, rfl⟩)
    · rw [hcell] at hres
      cases hres
    · have hbusy := h.cells.busy hy hn
      rw [hcell] at hbusy
      cases hbusy
  case written =>
    exact h.written.write hat rfl (fun m => Index.find?_insert _ _ _ _) rfl (fun _ => rfl)
      (by rintro m ⟨⟩)
  case tallied =>
    have htally : Tally r.org log (.checking n) := h.tallied.free hcell
    exact h.tallied.write hat (h.joins.held hat rfl) htally (.inl rfl)
  case underway => exact h.underway.move hat rfl rfl (by rintro m ⟨⟩)

/-- The caller that writes a cell goes on. -/
theorem work {w : World δ} (h : Sound log c) (hat : c.At i ⟨r, ph⟩)
    (hw : Work src i r.org ph c.world ds ph' w) :
    Sound (log ++ ds) ((c.setWorld w).place i ⟨r, ph'⟩) := by
  have htally : Tally r.org (log ++ ds) ph' :=
    hw.tally (h.tallied.writing hat) fun n hph => h.not_underway (hph ▸ hat)
  obtain ⟨n, hn, hn', hjoined, hloaded, hother⟩ := hw.frame
  have hcell : ph.cell? = some n := Phase.cell?_of_writes? hn
  have hcell' : ph'.cell? = some n := Phase.cell?_of_writes? hn'
  have hjoins : Joins (log ++ ds) c := h.joins.append hjoined fun j m p hp => by
    obtain ⟨rfl, rfl⟩ := hloaded j m p hp
    exact h.joins.held hat hcell
  constructor
  case joins =>
    refine hjoins.move hat rfl rfl (fun hph' => ?_) fun m hm => ?_
    · rw [hph'.cell?] at hcell'
      cases hcell'
    · exact hcell.trans (hcell'.symm.trans hm)
  case cells =>
    refine (h.cells.append hjoined).move hjoins hat rfl rfl rfl (hcell'.trans hcell.symm)
      (fun m hm => hn.trans (hn'.symm.trans hm)) (fun m res hph' => ?_) fun res hph' => ?_
    · rw [hph'] at hn'
      cases hn'
    · rw [hph'] at hn'
      cases hn'
  case written =>
    exact h.written.move hat rfl rfl
      (fun m hm => h.written.known hat (hcell.trans (hcell'.symm.trans hm)))
      fun m hm => hn'.trans (hn.symm.trans hm)
  case tallied => exact h.tallied.work h.cells hat rfl rfl hn hn' hjoined hother htally
  case underway => exact h.underway.work hat hw

/-- A caller settles its cell. -/
theorem settle {res : Outcome} (h : Sound log c) (hat : c.At i ⟨r, .settling n res⟩) :
    Sound log ((c.setCell n (.settled res)).place i ⟨r, .leaving n res⟩) := by
  constructor
  case joins => exact h.joins.move hat rfl rfl False.elim fun _ hm => hm
  case cells =>
    refine h.cells.write hat rfl rfl (fun res' hres => ?_)
      (fun j y hy hn => h.cells.alone hy hat hn rfl) (.inr ⟨res, rfl, rfl⟩)
    rw [h.cells.busy hat rfl] at hres
    cases hres
  case written =>
    exact h.written.write hat rfl (fun m => Index.find?_insert _ _ _ _) rfl (by rintro ⟨⟩)
      (by rintro m ⟨⟩; rfl)
  case tallied =>
    exact h.tallied.write hat (h.joins.held hat rfl) trivial
      (.inr ⟨res, rfl, h.tallied.writing hat⟩)
  case underway => exact h.underway.move hat rfl rfl (by rintro m ⟨⟩)

/-- A caller leaves its cell. -/
theorem leave {res : Outcome} (h : Sound log c) (hat : c.At i ⟨r, .leaving n res⟩) :
    Sound log ((c.unregister r.org n).place i ⟨r, .finished res⟩) := by
  obtain ⟨hcallers, hcells, hnext, hworld⟩ := unregister_frame c r.org n
  have hd : ((c.unregister r.org n).place i ⟨r, .finished res⟩).callers =
      c.callers.set i ⟨r, .finished res⟩ := by
    rw [place, hcallers]
  constructor
  case joins => exact h.joins.move hat hd hnext False.elim (by rintro m ⟨⟩)
  case cells => exact h.cells.leave h.joins hat
  case written => exact h.written.move hat hd hcells (by rintro m ⟨⟩) (by rintro m ⟨⟩)
  case tallied => exact h.tallied.move hat hd hcells trivial
  case underway =>
    refine h.underway.move hat hd ?_ (by rintro m ⟨⟩)
    show (c.unregister r.org n).world.cache.building = _
    rw [hworld]

/-- What a turn keeps. -/
theorem turn (h : Sound log c) (ht : Turn src c i ds d) : Sound (log ++ ds) d := by
  cases ht with
  | idle =>
    rw [List.append_nil]
    exact h
  | apart hat hph hph' _ hw =>
    rw [List.append_nil]
    exact h.apart hat hph hph' hw
  | join hat hfound => exact h.join hat hfound
  | register hat hnone => exact h.register hat hnone
  | take hat hcell =>
    rw [List.append_nil]
    exact h.take hat hcell
  | enter hat hcell =>
    rw [List.append_nil]
    exact h.enter hat hcell
  | work hat hw => exact h.work hat hw
  | settle hat =>
    rw [List.append_nil]
    exact h.settle hat
  | leave hat =>
    rw [List.append_nil]
    exact h.leave hat

/-- What changes elsewhere does not concern the cells. -/
theorem setWorld {w : World δ} (h : Sound log c)
    (hw : w.cache.building = c.world.cache.building) : Sound log (c.setWorld w) where
  joins := ⟨h.joins.apart, h.joins.held, h.joins.once, h.joins.caller, h.joins.made,
    h.joins.loaded⟩
  cells := ⟨h.cells.held, h.cells.leaving, h.cells.finished, h.cells.busy, h.cells.alone,
    h.cells.registered⟩
  written := ⟨h.written.known, h.written.writer⟩
  tallied := ⟨h.tallied.orgs, h.tallied.inOrder, h.tallied.free, h.tallied.writing,
    h.tallied.settled⟩
  underway := by
    constructor
    case builder =>
      intro i x hx hmem
      exact h.underway.builder hx (hw ▸ hmem)
    case once =>
      intro i x hx
      show w.cache.building.count _ ≤ 1
      rw [hw]
      exact h.underway.once hx

/-- Callers that have not begun hold nothing. -/
theorem ofRequests {w : World δ} {requests : List Request}
    (hidle : ∀ q ∈ requests, q.org ∉ w.cache.building) :
    Sound [] (Crowd.ofRequests w requests) := by
  have hlooking {i : Nat} {x : Caller} (hx : (Crowd.ofRequests w requests).At i x) :
      x.phase = .looking ∧ x.request ∈ requests := by
    obtain ⟨q, hq, rfl⟩ := List.mem_map.1 (List.mem_of_getElem? hx)
    exact ⟨rfl, hq⟩
  have hholds {i : Nat} {x : Caller} {n : Nat} (hx : (Crowd.ofRequests w requests).At i x) :
      x.phase.cell? ≠ some n := by
    rw [(hlooking hx).1]
    rintro ⟨⟩
  have hwrites {i : Nat} {x : Caller} {n : Nat} (hx : (Crowd.ofRequests w requests).At i x) :
      x.phase.writes? ≠ some n := fun hn => hholds hx (Phase.cell?_of_writes? hn)
  constructor
  case joins =>
    exact ⟨by simp, fun hx hn => absurd hn (hholds hx), by simp, by simp, by simp, by simp⟩
  case cells =>
    refine ⟨fun hx hn => absurd hn (hholds hx), fun hx hph => ?_, by simp,
      fun hx hn => absurd hn (hwrites hx), fun hx _ hn => absurd hn (hwrites hx), by
        rintro o m ⟨⟩⟩
    exact absurd (congrArg Phase.cell? hph) (hholds hx)
  case written => exact ⟨fun hx hn => absurd hn (hholds hx), by rintro m ⟨⟩⟩
  case tallied =>
    refine ⟨by simp, fun n => List.nil_prefix, fun _ => rfl, fun hx => ?_, by simp⟩
    rw [(hlooking hx).1]
    trivial
  case underway =>
    refine ⟨fun hx hmem => absurd hmem (hidle _ (hlooking hx).2), fun hx => ?_⟩
    have hnone : w.cache.building.count _ = 0 := List.count_eq_zero.2 (hidle _ (hlooking hx).2)
    exact Nat.le_trans (Nat.le_of_eq hnone) (Nat.zero_le 1)

theorem run (hkeep : src.KeepBuilding) (h : Sound log c) (turns : List Nat) :
    Sound (log ++ c.log src turns) (c.run src turns) := by
  induction turns generalizing log c with
  | nil =>
    rw [Crowd.log, List.append_nil]
    exact h
  | cons i turns ih =>
    rw [Crowd.log, ← List.append_assoc]
    exact ih (h.turn (c.turn hkeep i))

end Sound

end Crowd
end Outreach
