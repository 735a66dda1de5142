import Outreach.Proofs.Cache.Turns

/-!
# Outreach.Proofs.Cache.Registrations

Who holds which cell while callers take turns, one lemma for each kind of turn.

* `Joins` — who joined which cell.
* `Cells` — what the registrations and the cells say of the callers; `Cells.writers_eq` says that
  no two callers write cells for one org.
* `Written` — a cell that is being written is written by some caller.
-/

namespace Outreach
namespace Crowd

variable {δ : Type} {src : Sources δ} {c d : Crowd δ} {log ds : List Deed}
  {i j n m : Nat} {x y : Caller} {r : Request} {ph ph' : Phase} {org : OrgId}

/-! ## The callers after a turn -/

theorem place_cases (hat : c.At i x) (hd : d.callers = c.callers.set i y)
    {z : Caller} (hj : d.At j z) :
    (j = i ∧ z = y) ∨ (j ≠ i ∧ c.At j z) := by
  obtain ⟨hlt, -⟩ := List.getElem?_eq_some_iff.1 hat
  rw [At, hd, List.getElem?_set] at hj
  by_cases hij : i = j
  · rw [if_pos hij, if_pos hlt] at hj
    exact .inl ⟨hij.symm, (Option.some.inj hj).symm⟩
  · rw [if_neg hij] at hj
    exact .inr ⟨fun h => hij h.symm, hj⟩

theorem place_self (hat : c.At i x) (hd : d.callers = c.callers.set i y) :
    d.At i y := by
  obtain ⟨hlt, -⟩ := List.getElem?_eq_some_iff.1 hat
  rw [At, hd, List.getElem?_set_self hlt]

theorem place_ne (hd : d.callers = c.callers.set i y) (hij : j ≠ i) {z : Caller} :
    d.At j z ↔ c.At j z := by
  rw [At, At, hd, List.getElem?_set_ne fun h => hij h.symm]

theorem find?_unregister (c : Crowd δ) (org : OrgId) (n : Nat) (o : OrgId) :
    (c.unregister org n).loading.find? o =
      if org = o ∧ c.loading.find? org = some n then none else c.loading.find? o := by
  unfold unregister
  by_cases hreg : c.loading.find? org = some n
  · rw [if_pos hreg, Index.find?_erase]
    simp only [hreg, and_true]
  · rw [if_neg hreg, if_neg fun h => hreg h.2]

theorem unregister_frame (c : Crowd δ) (org : OrgId) (n : Nat) :
    (c.unregister org n).callers = c.callers ∧ (c.unregister org n).cells = c.cells ∧
      (c.unregister org n).nextCell = c.nextCell ∧ (c.unregister org n).world = c.world := by
  unfold unregister
  split <;> exact ⟨rfl, rfl, rfl, rfl⟩

/-! ## Who joined what -/

theorem joined_or_last {k : Nat} (h : Deed.joined k m ∈ log ++ [.joined i n]) :
    .joined k m ∈ log ∨ (k = i ∧ m = n) := by
  rcases List.mem_append.1 h with h | h
  · exact .inl h
  · cases List.mem_singleton.1 h
    exact .inr ⟨rfl, rfl⟩

/-- A caller that holds a cell has joined it; it joins no other one. -/
structure Joins (log : List Deed) (c : Crowd δ) : Prop where
  apart : ∀ {i x n}, c.At i x → x.phase.Apart → .joined i n ∉ log
  held : ∀ {i x n}, c.At i x → x.phase.cell? = some n → .joined i n ∈ log
  once : ∀ {i n m}, .joined i n ∈ log → .joined i m ∈ log → n = m
  caller : ∀ {i n}, .joined i n ∈ log → ∃ x, c.At i x
  made : ∀ {i n}, .joined i n ∈ log → n < c.nextCell
  loaded : ∀ {i n p}, .loaded i n p ∈ log → .joined i n ∈ log

/-- The caller at `i` keeps its cell or leaves it. -/
theorem Joins.move (h : Joins log c) (hat : c.At i ⟨r, ph⟩)
    (hd : d.callers = c.callers.set i ⟨r, ph'⟩) (hnext : d.nextCell = c.nextCell)
    (hapart : ph'.Apart → ph.Apart) (hcell : ∀ n, ph'.cell? = some n → ph.cell? = some n) :
    Joins log d where
  apart hx hph := by
    obtain ⟨rfl, rfl⟩ | ⟨-, hx⟩ := place_cases hat hd hx
    · exact h.apart hat (hapart hph)
    · exact h.apart hx hph
  held hx hph := by
    obtain ⟨rfl, rfl⟩ | ⟨-, hx⟩ := place_cases hat hd hx
    · exact h.held hat (hcell _ hph)
    · exact h.held hx hph
  once := h.once
  caller {k} {n} hk := by
    by_cases hki : k = i
    · exact ⟨_, hki ▸ place_self hat hd⟩
    · obtain ⟨x, hx⟩ := h.caller hk
      exact ⟨x, (place_ne hd hki).2 hx⟩
  made hk := hnext ▸ h.made hk
  loaded := h.loaded

/-- Deeds by which nobody joins a cell. -/
theorem Joins.append (h : Joins log c) (hjoined : ∀ i n, .joined i n ∉ ds)
    (hloaded : ∀ i n p, .loaded i n p ∈ ds → .joined i n ∈ log) : Joins (log ++ ds) c := by
  have hback {i n : Nat} (hk : Deed.joined i n ∈ log ++ ds) : .joined i n ∈ log :=
    (List.mem_append.1 hk).resolve_right (hjoined i n)
  constructor
  case apart => exact fun hx hph hk => h.apart hx hph (hback hk)
  case held => exact fun hx hph => List.mem_append_left _ (h.held hx hph)
  case once => exact fun hn hm => h.once (hback hn) (hback hm)
  case caller => exact fun hk => h.caller (hback hk)
  case made => exact fun hk => h.made (hback hk)
  case loaded =>
    intro i n p hk
    rcases List.mem_append.1 hk with hk | hk
    · exact List.mem_append_left _ (h.loaded hk)
    · exact List.mem_append_left _ (hloaded i n p hk)

/-- The caller at `i`, which had none, joins a cell. -/
theorem Joins.join (h : Joins log c) (hat : c.At i ⟨r, .joining⟩)
    (hd : d.callers = c.callers.set i ⟨r, .joined n⟩) (hnext : c.nextCell ≤ d.nextCell)
    (hn : n < d.nextCell) : Joins (log ++ [.joined i n]) d := by
  have hfirst (m : Nat) : .joined i m ∉ log := h.apart hat trivial
  constructor
  case apart =>
    intro k x m hx hph hk
    obtain ⟨rfl, rfl⟩ | ⟨hki, hx⟩ := place_cases hat hd hx
    · exact hph
    · rcases joined_or_last hk with hk | ⟨hk, -⟩
      · exact h.apart hx hph hk
      · exact hki hk
  case held =>
    intro k x m hx hph
    obtain ⟨rfl, rfl⟩ | ⟨-, hx⟩ := place_cases hat hd hx
    · cases hph
      exact List.mem_append_right _ List.mem_cons_self
    · exact List.mem_append_left _ (h.held hx hph)
  case once =>
    intro k m m' hm hm'
    rcases joined_or_last hm with hold | ⟨rfl, rfl⟩
    · rcases joined_or_last hm' with hold' | ⟨rfl, rfl⟩
      · exact h.once hold hold'
      · exact absurd hold (hfirst m)
    · rcases joined_or_last hm' with hold' | ⟨-, rfl⟩
      · exact absurd hold' (hfirst m')
      · rfl
  case caller =>
    intro k m hk
    by_cases hki : k = i
    · exact ⟨_, hki ▸ place_self hat hd⟩
    · obtain ⟨x, hx⟩ := h.caller ((joined_or_last hk).resolve_right fun h => hki h.1)
      exact ⟨x, (place_ne hd hki).2 hx⟩
  case made =>
    intro k m hk
    rcases joined_or_last hk with hk | ⟨-, rfl⟩
    · exact Nat.lt_of_lt_of_le (h.made hk) hnext
    · exact hn
  case loaded =>
    intro k m p hk
    rcases List.mem_append.1 hk with hk | hk
    · exact List.mem_append_left _ (h.loaded hk)
    · cases List.mem_singleton.1 hk

/-! ## Cells and registrations -/

/-- A cell is registered until it is settled, and one caller writes it. A registration is of a
cell that some caller holds. -/
structure Cells (log : List Deed) (c : Crowd δ) : Prop where
  held : ∀ {i x n}, c.At i x → x.phase.cell? = some n →
    (∃ res, c.cells.find? n = some (.settled res)) ∨ c.loading.find? x.request.org = some n
  leaving : ∀ {i x n res}, c.At i x → x.phase = .leaving n res →
    c.cells.find? n = some (.settled res)
  finished : ∀ {i x n res}, c.At i x → x.phase = .finished res → .joined i n ∈ log →
    c.cells.find? n = some (.settled res)
  busy : ∀ {i x n}, c.At i x → x.phase.writes? = some n →
    c.cells.find? n = some .busy
  alone : ∀ {i j x y n}, c.At i x → c.At j y →
    x.phase.writes? = some n → y.phase.writes? = some n → i = j
  registered : ∀ {org n}, c.loading.find? org = some n →
    ∃ i x, c.At i x ∧ x.request.org = org ∧ x.phase.cell? = some n

namespace Cells

/-- Callers that write a cell for the same org are one and the same. -/
theorem writers_eq (h : Cells log c) (hx : c.At i x) (hy : c.At j y)
    (horg : x.request.org = y.request.org) (hn : x.phase.writes? = some n)
    (hm : y.phase.writes? = some m) : i = j := by
  have hregistered {k l : Nat} {z : Caller} (hz : c.At k z)
      (hl : z.phase.writes? = some l) : c.loading.find? z.request.org = some l := by
    refine (h.held hz (Phase.cell?_of_writes? hl)).resolve_left ?_
    rintro ⟨res, hres⟩
    rw [h.busy hz hl] at hres
    cases hres
  have hsame : n = m := by
    have hn' := hregistered hx hn
    rw [horg, hregistered hy hm] at hn'
    exact (Option.some.inj hn').symm
  exact h.alone hx hy hn (hsame ▸ hm)

theorem append (h : Cells log c) (hjoined : ∀ i n, .joined i n ∉ ds) : Cells (log ++ ds) c where
  held := h.held
  leaving := h.leaving
  finished hx hph hk :=
    h.finished hx hph ((List.mem_append.1 hk).resolve_right (hjoined _ _))
  busy := h.busy
  alone := h.alone
  registered := h.registered

/-- The registrations and the cells stay as they are, and the caller at `i` holds and writes what it
held and wrote. -/
theorem move (h : Cells log c) (hj : Joins log c) (hat : c.At i ⟨r, ph⟩)
    (hd : d.callers = c.callers.set i ⟨r, ph'⟩) (hloading : d.loading = c.loading)
    (hcells : d.cells = c.cells) (hcell : ph'.cell? = ph.cell?)
    (hwrites : ∀ n, ph'.writes? = some n → ph.writes? = some n)
    (hleaving : ∀ n res, ph' = .leaving n res → c.cells.find? n = some (.settled res))
    (hfinished : ∀ res, ph' = .finished res → ph.Apart) : Cells log d where
  held hx hph := by
    rw [hloading, hcells]
    obtain ⟨rfl, rfl⟩ | ⟨-, hx⟩ := place_cases hat hd hx
    · have hold := h.held hat (hcell.symm.trans hph)
      exact hold
    · exact h.held hx hph
  leaving hx hph := by
    rw [hcells]
    obtain ⟨rfl, rfl⟩ | ⟨-, hx⟩ := place_cases hat hd hx
    · exact hleaving _ _ hph
    · exact h.leaving hx hph
  finished hx hph hk := by
    rw [hcells]
    obtain ⟨rfl, rfl⟩ | ⟨-, hx⟩ := place_cases hat hd hx
    · exact absurd hk (hj.apart hat (hfinished _ hph))
    · exact h.finished hx hph hk
  busy hx hph := by
    rw [hcells]
    obtain ⟨rfl, rfl⟩ | ⟨-, hx⟩ := place_cases hat hd hx
    · exact h.busy hat (hwrites _ hph)
    · exact h.busy hx hph
  alone hx hy hn hm := by
    obtain ⟨rfl, rfl⟩ | ⟨-, hx⟩ := place_cases hat hd hx
    · obtain ⟨rfl, rfl⟩ | ⟨-, hy⟩ := place_cases hat hd hy
      · rfl
      · exact h.alone hat hy (hwrites _ hn) hm
    · obtain ⟨rfl, rfl⟩ | ⟨-, hy⟩ := place_cases hat hd hy
      · exact h.alone hx hat hn (hwrites _ hm)
      · exact h.alone hx hy hn hm
  registered {o} {n} ho := by
    rw [hloading] at ho
    obtain ⟨k, x, hx, horg, hph⟩ := h.registered ho
    by_cases hki : k = i
    · subst hki
      cases hat.symm.trans hx
      exact ⟨k, _, place_self hat hd, horg, hcell.trans hph⟩
    · exact ⟨k, x, (place_ne hd hki).2 hx, horg, hph⟩

/-- The caller at `i` joins the cell that is registered. -/
theorem join (h : Cells log c) (hat : c.At i ⟨r, .joining⟩)
    (hfound : c.loading.find? r.org = some n) :
    Cells (log ++ [.joined i n]) (c.place i ⟨r, .joined n⟩) where
  held hx hph := by
    obtain ⟨rfl, rfl⟩ | ⟨-, hx⟩ := place_cases hat rfl hx
    · cases hph
      exact .inr hfound
    · exact h.held hx hph
  leaving hx hph := by
    obtain ⟨rfl, rfl⟩ | ⟨-, hx⟩ := place_cases hat rfl hx
    · cases hph
    · exact h.leaving hx hph
  finished hx hph hk := by
    obtain ⟨rfl, rfl⟩ | ⟨hki, hx⟩ := place_cases hat rfl hx
    · cases hph
    · exact h.finished hx hph ((joined_or_last hk).resolve_right fun h => hki h.1)
  busy hx hph := by
    obtain ⟨rfl, rfl⟩ | ⟨-, hx⟩ := place_cases hat rfl hx
    · cases hph
    · exact h.busy hx hph
  alone hx hy hn hm := by
    obtain ⟨rfl, rfl⟩ | ⟨-, hx⟩ := place_cases hat rfl hx
    · cases hn
    · obtain ⟨rfl, rfl⟩ | ⟨-, hy⟩ := place_cases hat rfl hy
      · cases hm
      · exact h.alone hx hy hn hm
  registered ho := by
    obtain ⟨k, x, hx, horg, hph⟩ := h.registered ho
    by_cases hki : k = i
    · subst hki
      cases hat.symm.trans hx
      cases hph
    · exact ⟨k, x, (place_ne rfl hki).2 hx, horg, hph⟩

/-- The caller at `i` makes a registration and joins its cell, which nobody held before. -/
theorem register (h : Cells log c) (hj : Joins log c) (hat : c.At i ⟨r, .joining⟩)
    (hnone : c.loading.find? r.org = none) :
    Cells (log ++ [.joined i c.nextCell])
      ((c.opened r.org).place i ⟨r, .joined c.nextCell⟩) := by
  have hloading (o : OrgId) : ((c.opened r.org).place i ⟨r, .joined c.nextCell⟩).loading.find? o =
      if r.org = o then some c.nextCell else c.loading.find? o := Index.find?_insert _ _ _ _
  have hold {n : Nat} (hn : n < c.nextCell) :
      ((c.opened r.org).place i ⟨r, .joined c.nextCell⟩).cells.find? n = c.cells.find? n :=
    (Index.find?_insert _ _ _ _).trans (if_neg (Nat.ne_of_gt hn))
  constructor
  case held =>
    intro k x n hx hph
    rw [hloading]
    obtain ⟨rfl, rfl⟩ | ⟨-, hx⟩ := place_cases hat rfl hx
    · cases hph
      exact .inr (if_pos rfl)
    · rw [hold (hj.made (hj.held hx hph))]
      rcases h.held hx hph with hres | hreg
      · exact .inl hres
      · right
        rw [if_neg, hreg]
        intro ho
        rw [← ho, hnone] at hreg
        cases hreg
  case leaving =>
    intro k x n res hx hph
    obtain ⟨rfl, rfl⟩ | ⟨-, hx⟩ := place_cases hat rfl hx
    · cases hph
    · rw [hold (hj.made (hj.held hx (by rw [hph]; rfl)))]
      exact h.leaving hx hph
  case finished =>
    intro k x n res hx hph hk
    obtain ⟨rfl, rfl⟩ | ⟨hki, hx⟩ := place_cases hat rfl hx
    · cases hph
    · have hk := (joined_or_last hk).resolve_right fun h => hki h.1
      rw [hold (hj.made hk)]
      exact h.finished hx hph hk
  case busy =>
    intro k x n hx hph
    obtain ⟨rfl, rfl⟩ | ⟨-, hx⟩ := place_cases hat rfl hx
    · cases hph
    · rw [hold (hj.made (hj.held hx (Phase.cell?_of_writes? hph)))]
      exact h.busy hx hph
  case alone =>
    intro k l x y n hx hy hn hm
    obtain ⟨rfl, rfl⟩ | ⟨-, hx⟩ := place_cases hat rfl hx
    · cases hn
    · obtain ⟨rfl, rfl⟩ | ⟨-, hy⟩ := place_cases hat rfl hy
      · cases hm
      · exact h.alone hx hy hn hm
  case registered =>
    intro o n ho
    rw [hloading] at ho
    by_cases horg : r.org = o
    · rw [if_pos horg] at ho
      cases ho
      exact ⟨i, _, place_self hat rfl, horg, rfl⟩
    · rw [if_neg horg] at ho
      obtain ⟨k, x, hx, horg, hph⟩ := h.registered ho
      by_cases hki : k = i
      · subst hki
        cases hat.symm.trans hx
        cases hph
      · exact ⟨k, x, (place_ne rfl hki).2 hx, horg, hph⟩

/-- The caller at `i` begins to write its cell, which nobody else does, or has written it. -/
theorem write {cell : Cell} (h : Cells log c) (hat : c.At i ⟨r, ph⟩)
    (hn : ph.cell? = some n) (hcell : ph'.cell? = some n)
    (hfree : ∀ res, c.cells.find? n ≠ some (.settled res))
    (halone : ∀ j y, c.At j y → y.phase.writes? = some n → j = i)
    (hbusy : (cell = .busy ∧ ph'.writes? = some n) ∨
      ∃ res, cell = .settled res ∧ ph' = .leaving n res) :
    Cells log ((c.setCell n cell).place i ⟨r, ph'⟩) := by
  have hcells (m : Nat) : ((c.setCell n cell).place i ⟨r, ph'⟩).cells.find? m =
      if n = m then some cell else c.cells.find? m := Index.find?_insert _ _ _ _
  have hwrites {m : Nat} (hm : ph'.writes? = some m) : m = n :=
    Option.some.inj ((Phase.cell?_of_writes? hm).symm.trans hcell)
  constructor
  case held =>
    intro k x m hx hph
    rw [hcells]
    obtain ⟨rfl, rfl⟩ | ⟨-, hx⟩ := place_cases hat rfl hx
    · cases hcell.symm.trans hph
      exact .inr ((h.held hat hn).resolve_left fun ⟨res, hres⟩ => hfree res hres)
    · rcases h.held hx hph with ⟨res, hres⟩ | hreg
      · refine .inl ⟨res, ?_⟩
        rw [if_neg, hres]
        rintro rfl
        exact hfree res hres
      · exact .inr hreg
  case leaving =>
    intro k x m res hx hph
    rw [hcells]
    obtain ⟨rfl, rfl⟩ | ⟨-, hx⟩ := place_cases hat rfl hx
    · rcases hbusy with ⟨-, hw⟩ | ⟨res', rfl, hph'⟩
      · simp only at hph
        rw [hph] at hw
        cases hw
      · cases hph'.symm.trans hph
        exact if_pos rfl
    · have hres := h.leaving hx hph
      rw [if_neg, hres]
      rintro rfl
      exact hfree res hres
  case finished =>
    intro k x m res hx hph hk
    rw [hcells]
    obtain ⟨rfl, rfl⟩ | ⟨-, hx⟩ := place_cases hat rfl hx
    · simp only at hph
      rw [hph] at hcell
      cases hcell
    · have hres := h.finished hx hph hk
      rw [if_neg, hres]
      rintro rfl
      exact hfree res hres
  case busy =>
    intro k x m hx hph
    rw [hcells]
    obtain ⟨rfl, rfl⟩ | ⟨hki, hx⟩ := place_cases hat rfl hx
    · rcases hbusy with ⟨rfl, -⟩ | ⟨res, -, hph'⟩
      · exact if_pos (hwrites hph).symm
      · simp only at hph
        rw [hph'] at hph
        cases hph
    · rw [if_neg]
      · exact h.busy hx hph
      · rintro rfl
        exact hki (halone _ _ hx hph)
  case alone =>
    intro k l x y m hx hy hkm hlm
    obtain ⟨rfl, rfl⟩ | ⟨-, hx'⟩ := place_cases hat rfl hx
    · obtain ⟨rfl, rfl⟩ | ⟨-, hy'⟩ := place_cases hat rfl hy
      · rfl
      · cases hwrites hkm
        exact (halone _ _ hy' hlm).symm
    · obtain ⟨rfl, rfl⟩ | ⟨-, hy'⟩ := place_cases hat rfl hy
      · cases hwrites hlm
        exact halone _ _ hx' hkm
      · exact h.alone hx' hy' hkm hlm
  case registered =>
    intro o m ho
    obtain ⟨k, x, hx, horg, hph⟩ := h.registered ho
    by_cases hki : k = i
    · subst hki
      cases hat.symm.trans hx
      exact ⟨k, _, place_self hat rfl, horg, hcell.trans (hn.symm.trans hph)⟩
    · exact ⟨k, x, (place_ne rfl hki).2 hx, horg, hph⟩

/-- The caller at `i` leaves its cell, which is settled, and takes away its registration. -/
theorem leave {res : Outcome} (h : Cells log c) (hj : Joins log c)
    (hat : c.At i ⟨r, .leaving n res⟩) :
    Cells log ((c.unregister r.org n).place i ⟨r, .finished res⟩) := by
  obtain ⟨hcallers, hcells, -, -⟩ := unregister_frame c r.org n
  have hd : ((c.unregister r.org n).place i ⟨r, .finished res⟩).callers =
      c.callers.set i ⟨r, .finished res⟩ := by
    rw [place, hcallers]
  have hsettled : c.cells.find? n = some (.settled res) := h.leaving hat rfl
  have hcells' : ((c.unregister r.org n).place i ⟨r, .finished res⟩).cells = c.cells := hcells
  have hloading (o : OrgId) :
      ((c.unregister r.org n).place i ⟨r, .finished res⟩).loading.find? o =
        if r.org = o ∧ c.loading.find? r.org = some n then none else c.loading.find? o :=
    find?_unregister c r.org n o
  constructor
  case held =>
    intro k x m hx hph
    rw [hcells', hloading]
    obtain ⟨rfl, rfl⟩ | ⟨-, hx⟩ := place_cases hat hd hx
    · cases hph
    · rcases h.held hx hph with hres | hreg
      · exact .inl hres
      · by_cases hthis : r.org = x.request.org ∧ c.loading.find? r.org = some n
        · rw [← hthis.1, hthis.2] at hreg
          cases hreg
          exact .inl ⟨res, hsettled⟩
        · rw [if_neg hthis]
          exact .inr hreg
  case leaving =>
    intro k x m res' hx hph
    rw [hcells']
    obtain ⟨rfl, rfl⟩ | ⟨-, hx⟩ := place_cases hat hd hx
    · cases hph
    · exact h.leaving hx hph
  case finished =>
    intro k x m res' hx hph hk
    rw [hcells']
    obtain ⟨rfl, rfl⟩ | ⟨-, hx⟩ := place_cases hat hd hx
    · cases hph
      cases hj.once hk (hj.held hat rfl)
      exact hsettled
    · exact h.finished hx hph hk
  case busy =>
    intro k x m hx hph
    rw [hcells']
    obtain ⟨rfl, rfl⟩ | ⟨-, hx⟩ := place_cases hat hd hx
    · cases hph
    · exact h.busy hx hph
  case alone =>
    intro k l x y m hx hy hkm hlm
    obtain ⟨rfl, rfl⟩ | ⟨-, hx⟩ := place_cases hat hd hx
    · cases hkm
    · obtain ⟨rfl, rfl⟩ | ⟨-, hy⟩ := place_cases hat hd hy
      · cases hlm
      · exact h.alone hx hy hkm hlm
  case registered =>
    intro o m ho
    rw [hloading] at ho
    split at ho
    · cases ho
    · rename_i hother
      obtain ⟨k, x, hx, horg, hph⟩ := h.registered ho
      by_cases hki : k = i
      · subst hki
        cases hat.symm.trans hx
        cases hph
        exact absurd ⟨horg, horg ▸ ho⟩ hother
      · exact ⟨k, x, (place_ne hd hki).2 hx, horg, hph⟩

end Cells

/-! ## Who is waited for -/

/-- Cells that are held are there, and some caller writes a cell that others wait for. -/
structure Written (c : Crowd δ) : Prop where
  known : ∀ {i x n}, c.At i x → x.phase.cell? = some n → c.cells.find? n ≠ none
  writer : ∀ {n}, c.cells.find? n = some .busy → ∃ i x, c.At i x ∧ x.phase.writes? = some n

namespace Written

theorem move (h : Written c) (hat : c.At i ⟨r, ph⟩) (hd : d.callers = c.callers.set i ⟨r, ph'⟩)
    (hcells : d.cells = c.cells)
    (hcell : ∀ n, ph'.cell? = some n → c.cells.find? n ≠ none)
    (hwrites : ∀ n, ph.writes? = some n → ph'.writes? = some n) : Written d where
  known hx hph := by
    rw [hcells]
    obtain ⟨rfl, rfl⟩ | ⟨-, hx⟩ := place_cases hat hd hx
    · exact hcell _ hph
    · exact h.known hx hph
  writer {n} hn := by
    rw [hcells] at hn
    obtain ⟨j, y, hy, hph⟩ := h.writer hn
    by_cases hji : j = i
    · subst hji
      cases hat.symm.trans hy
      exact ⟨j, _, place_self hat hd, hwrites n hph⟩
    · exact ⟨j, y, (place_ne hd hji).2 hy, hph⟩

/-- The caller at `i` writes something into the cell that it holds, perhaps a new one. -/
theorem write {cell : Cell} (h : Written c) (hat : c.At i ⟨r, ph⟩)
    (hd : d.callers = c.callers.set i ⟨r, ph'⟩)
    (hcells : ∀ m, d.cells.find? m = if n = m then some cell else c.cells.find? m)
    (hcell : ph'.cell? = some n) (hbusy : cell = .busy → ph'.writes? = some n)
    (hwrites : ∀ m, ph.writes? = some m → m = n) : Written d where
  known hx hph := by
    rw [hcells]
    split
    · exact Option.some_ne_none cell
    · rename_i hnm
      obtain ⟨rfl, rfl⟩ | ⟨-, hx⟩ := place_cases hat hd hx
      · exact absurd (Option.some.inj (hcell.symm.trans hph)) hnm
      · exact h.known hx hph
  writer hm := by
    rw [hcells] at hm
    split at hm
    · rename_i hnm
      subst hnm
      exact ⟨i, _, place_self hat hd, hbusy (Option.some.inj hm)⟩
    · rename_i hnm
      obtain ⟨j, y, hy, hph⟩ := h.writer hm
      by_cases hji : j = i
      · subst hji
        cases hat.symm.trans hy
        exact absurd (hwrites _ hph).symm hnm
      · exact ⟨j, y, (place_ne hd hji).2 hy, hph⟩

end Written
end Crowd
end Outreach
