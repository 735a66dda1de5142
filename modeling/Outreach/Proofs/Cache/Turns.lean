import Outreach.Cache.SingleFlight

/-!
# Outreach.Proofs.Cache.Turns

What one turn of a caller can do, said once for all that is proved of crowds of callers.

* `Deed` — what a turn does that others can tell: a registration is joined, an entry is found, a
  category is loaded.
* `Goes` — a crowd that takes turns in any order, while the world changes in between.
* `Turn` — what a turn does to the callers, the registrations and the cells; `Work` is what the
  caller does who writes a cell. `Crowd.turn` says that there is nothing else.
-/

namespace Outreach

/-- Loads leave the full builds that are under way alone. -/
def Sources.KeepBuilding {δ : Type} (src : Sources δ) : Prop :=
  ∀ p org w, (src.load p org w).2.cache.building = w.cache.building

/-! ## Phases -/

namespace Phase

/-- The cell that the caller has joined and not yet left. -/
def cell? : Phase → Option Nat
  | .joined n | .checking n | .building n _ _ _ | .publishing n _ | .settling n _
  | .leaving n _ => some n
  | _ => none

/-- The cell that the caller writes. -/
def writes? : Phase → Option Nat
  | .checking n | .building n _ _ _ | .publishing n _ | .settling n _ => some n
  | _ => none

/-- The cell for which the caller builds a snapshot in full. -/
def builds? : Phase → Option Nat
  | .building n _ _ _ | .publishing n _ => some n
  | _ => none

/-- More turns than a caller has still to take that does not wait. -/
def work : Phase → Nat
  | .looking => Part.all.length + 8
  | .joining => Part.all.length + 7
  | .joined _ => Part.all.length + 6
  | .checking _ => Part.all.length + 5
  | .building _ _ todo _ => todo.length + 4
  | .publishing _ _ => 3
  | .settling _ _ => 2
  | .leaving _ _ => 1
  | .refreshing _ todo _ => todo.length + 1
  | .finished _ => 0

/-- The caller has joined no cell so far. -/
def Apart : Phase → Prop
  | .looking | .joining | .refreshing _ _ _ => True
  | _ => False

theorem cell?_of_writes? {ph : Phase} {n : Nat} (h : ph.writes? = some n) : ph.cell? = some n := by
  cases ph <;> first | exact h | cases h

theorem writes?_of_builds? {ph : Phase} {n : Nat} (h : ph.builds? = some n) :
    ph.writes? = some n := by
  cases ph <;> first | exact h | cases h

theorem Apart.cell? {ph : Phase} (h : ph.Apart) : ph.cell? = none := by
  cases ph <;> first | rfl | exact h.elim

end Phase

/-! ## Runs -/

/-- What a turn does that others can tell. -/
inductive Deed where
  | joined (caller cell : Nat)
  /-- The caller that writes the cell finds an entry. -/
  | found (cell : Nat) (s : Snapshot)
  /-- The caller that builds for the cell loads a category, which may fail. -/
  | loaded (caller cell : Nat) (p : Part)

/-- The categories that were loaded for a cell. -/
def loadsFor (n : Nat) (log : List Deed) : List Part :=
  log.filterMap fun
    | .loaded _ m p => if m = n then some p else none
    | _ => none

namespace Crowd

variable {δ : Type}

/-- The caller at a position. -/
abbrev At (c : Crowd δ) (i : Nat) (x : Caller) : Prop := c.callers[i]? = some x

/-- What the next turn of a caller of the org does in a phase. -/
def deedsIn (i : Nat) (org : OrgId) (c : Crowd δ) : Phase → List Deed
  | .joining => [.joined i (c.register org).1]
  | .checking n =>
    match c.world.fresh? org with
    | some s => [.found n s]
    | none => []
  | .building n _ (p :: _) _ => [.loaded i n p]
  | _ => []

/-- What the next turn of a caller does. -/
def deeds (i : Nat) (c : Crowd δ) : List Deed :=
  match c.callers[i]? with
  | none => []
  | some caller => c.deedsIn i caller.request.org caller.phase

/-- What turns of the callers at the given positions do. -/
def log (src : Sources δ) : List Nat → Crowd δ → List Deed
  | [], _ => []
  | i :: turns, c => c.deeds i ++ log src turns (c.step src i)

/-- Callers that have not begun. -/
def ofRequests (w : World δ) (requests : List Request) : Crowd δ :=
  { world := w, callers := requests.map fun r => ⟨r, .looking⟩ }

/-- The caller at a position goes on to another phase. -/
def place (c : Crowd δ) (i : Nat) (caller : Caller) : Crowd δ :=
  { c with callers := c.callers.set i caller }

/-- A new cell is registered for an org. -/
def opened (c : Crowd δ) (org : OrgId) : Crowd δ :=
  { c with
    loading := c.loading.insert org c.nextCell
    cells := c.cells.insert c.nextCell .free
    nextCell := c.nextCell + 1 }

end Crowd

variable {δ : Type}

/-- Callers take turns in any order. In between the world may change in any way, except that no
full build begins or ends elsewhere. -/
inductive Goes (src : Sources δ) (start : Crowd δ) : List Deed → Crowd δ → Prop where
  | here : Goes src start [] start
  | turn {log : List Deed} {c : Crowd δ} (h : Goes src start log c) (i : Nat) :
    Goes src start (log ++ c.deeds i) (c.step src i)
  | elsewhere {log : List Deed} {c : Crowd δ} {w : World δ} (h : Goes src start log c)
      (hbuilding : w.cache.building = c.world.cache.building) : Goes src start log (c.setWorld w)

theorem Crowd.run_append (src : Sources δ) (c : Crowd δ) (turns turns' : List Nat) :
    c.run src (turns ++ turns') = (c.run src turns).run src turns' :=
  List.foldl_append

theorem Goes.run {src : Sources δ} {start c : Crowd δ} {log : List Deed} (h : Goes src start log c)
    (turns : List Nat) : Goes src start (log ++ c.log src turns) (c.run src turns) := by
  induction turns generalizing log c with
  | nil => simpa [Crowd.log, Crowd.run] using h
  | cons i turns ih =>
    rw [Crowd.log, ← List.append_assoc]
    exact ih (h.turn i)

theorem loadsFor_append (n : Nat) (log log' : List Deed) :
    loadsFor n (log ++ log') = loadsFor n log ++ loadsFor n log' :=
  List.filterMap_append

theorem mem_loadsFor {n : Nat} {p : Part} {log : List Deed} :
    p ∈ loadsFor n log ↔ ∃ i, .loaded i n p ∈ log := by
  rw [loadsFor, List.mem_filterMap]
  constructor
  · rintro ⟨deed, hdeed, hp⟩
    cases deed with
    | joined => cases hp
    | found => cases hp
    | loaded i m q =>
      simp only [Option.ite_none_right_eq_some] at hp
      obtain ⟨rfl, hq⟩ := hp
      cases hq
      exact ⟨i, hdeed⟩
  · rintro ⟨i, hi⟩
    exact ⟨_, hi, if_pos rfl⟩

namespace Crowd

variable {c : Crowd δ} {i j : Nat} {x y : Caller}

/-! ## What a turn does -/

/-- What the caller does who writes a cell. -/
inductive Work (src : Sources δ) (i : Nat) (org : OrgId) :
    Phase → World δ → List Deed → Phase → World δ → Prop where
  | found {n : Nat} {s : Snapshot} {w : World δ} (h : w.fresh? org = some s) :
    Work src i org (.checking n) w [.found n s] (.settling n (.ok s)) w
  | refused {n : Nat} {w : World δ} (h : org ∈ w.cache.building) :
    Work src i org (.checking n) w [] (.settling n (.error (.buildInProgress org))) w
  | begun {n : Nat} {w : World δ} (h : org ∉ w.cache.building) :
    Work src i org (.checking n) w [] (.building n w.clock Part.all [])
      (w.setBuilding (org :: w.cache.building))
  | loaded {n : Nat} {t : Instant} {p : Part} {ps : List Part} {done done' : List Reading}
      {w w' : World δ} (h : w'.cache.building = w.cache.building) :
    Work src i org (.building n t (p :: ps) done) w [.loaded i n p] (.building n t ps done') w'
  | failed {n : Nat} {t : Instant} {p : Part} {ps : List Part} {done : List Reading}
      {w w' : World δ} {e : LoadFailure} (h : w'.cache.building = w.cache.building.erase org) :
    Work src i org (.building n t (p :: ps) done) w [.loaded i n p]
      (.settling n (.error (.load p org e))) w'
  | assembled {n : Nat} {t : Instant} {done : List Reading} {s : Snapshot} {w w' : World δ}
      (h : w'.cache.building = w.cache.building) :
    Work src i org (.building n t [] done) w [] (.publishing n s) w'
  | published {n : Nat} {s : Snapshot} {w w' : World δ}
      (h : w'.cache.building = w.cache.building.erase org) :
    Work src i org (.publishing n s) w [] (.settling n (.ok s)) w'

/-- The caller at `i` has finished, or waits for its cell. -/
def Waits (c : Crowd δ) (i : Nat) : Prop :=
  ∀ x, c.At i x → (∃ res, x.phase = .finished res) ∨ ∃ n, x.phase = .joined n ∧
    c.cells.find? n ≠ some .free ∧ ∀ res, c.cells.find? n ≠ some (.settled res)

/-- What a turn of the caller at `i` does to the crowd. -/
inductive Turn (src : Sources δ) (c : Crowd δ) (i : Nat) : List Deed → Crowd δ → Prop where
  | idle (h : c.Waits i) : Turn src c i [] c
  /-- The caller looks for an entry or refreshes one. -/
  | apart {r : Request} {ph ph' : Phase} {w : World δ} (hat : c.At i ⟨r, ph⟩)
      (hph : ph.Apart) (hph' : ph'.Apart ∨ ∃ res, ph' = .finished res) (hwork : ph'.work < ph.work)
      (hw : w.cache.building = c.world.cache.building) :
    Turn src c i [] ((c.setWorld w).place i ⟨r, ph'⟩)
  | join {r : Request} {n : Nat} (hat : c.At i ⟨r, .joining⟩)
      (hfound : c.loading.find? r.org = some n) :
    Turn src c i [.joined i n] (c.place i ⟨r, .joined n⟩)
  | register {r : Request} (hat : c.At i ⟨r, .joining⟩)
      (hnone : c.loading.find? r.org = none) :
    Turn src c i [.joined i c.nextCell] ((c.opened r.org).place i ⟨r, .joined c.nextCell⟩)
  | take {r : Request} {n : Nat} {res : Outcome} (hat : c.At i ⟨r, .joined n⟩)
      (hcell : c.cells.find? n = some (.settled res)) :
    Turn src c i [] (c.place i ⟨r, .leaving n res⟩)
  | enter {r : Request} {n : Nat} (hat : c.At i ⟨r, .joined n⟩)
      (hcell : c.cells.find? n = some .free) :
    Turn src c i [] ((c.setCell n .busy).place i ⟨r, .checking n⟩)
  | work {r : Request} {ph ph' : Phase} {d : List Deed} {w : World δ}
      (hat : c.At i ⟨r, ph⟩) (h : Work src i r.org ph c.world d ph' w) :
    Turn src c i d ((c.setWorld w).place i ⟨r, ph'⟩)
  | settle {r : Request} {n : Nat} {res : Outcome} (hat : c.At i ⟨r, .settling n res⟩) :
    Turn src c i [] ((c.setCell n (.settled res)).place i ⟨r, .leaving n res⟩)
  | leave {r : Request} {n : Nat} {res : Outcome} (hat : c.At i ⟨r, .leaving n res⟩) :
    Turn src c i [] ((c.unregister r.org n).place i ⟨r, .finished res⟩)

variable {src : Sources δ}

theorem readPart_building (hkeep : src.KeepBuilding) (org : OrgId) (p : Part) (w : World δ) :
    (World.readPart src org p w).2.cache.building = w.cache.building := by
  have hload := hkeep p org w
  unfold World.readPart
  split <;> (rename_i h; rw [h] at hload; exact hload)

theorem keep_building (w : World δ) (s : Snapshot) :
    (w.keep s).cache.building = w.cache.building := by
  unfold World.keep
  split <;> rfl

/-- A step that reads a category. -/
theorem readPart_cases (hkeep : src.KeepBuilding) (org : OrgId) (p : Part) (w : World δ) :
    (∃ e w', World.readPart src org p w = (.error (.load p org e), w') ∧
      w'.cache.building = w.cache.building) ∨
    ∃ d w', World.readPart src org p w = (.ok d, w') ∧ w'.cache.building = w.cache.building := by
  have hkept := readPart_building hkeep org p w
  unfold World.readPart at hkept ⊢
  split
  · rename_i e w' h
    rw [h] at hkept
    exact .inl ⟨e, w', rfl, hkept⟩
  · rename_i listed w' h
    rw [h] at hkept
    exact .inr ⟨_, w', rfl, hkept⟩

/-- The step of the caller that writes a cell, when it looks for an entry once more. -/
theorem check_work (src : Sources δ) (c : Crowd δ) (i : Nat) (org : OrgId) (n : Nat) :
    ∃ w, (c.check org n).2 = c.setWorld w ∧
      Work src i org (.checking n) c.world (c.deedsIn i org (.checking n)) (c.check org n).1 w := by
  cases hfresh : c.world.fresh? org with
  | some s =>
    simp only [check, deedsIn, hfresh]
    exact ⟨c.world, rfl, .found hfresh⟩
  | none =>
    simp only [check, deedsIn, hfresh]
    split
    · rename_i hbusy
      exact ⟨c.world, rfl, .refused (by simpa using hbusy)⟩
    · rename_i hfree
      exact ⟨_, rfl, .begun (by simpa using hfree)⟩

theorem readNext_work (hkeep : src.KeepBuilding) (c : Crowd δ) (i : Nat) (org : OrgId) (n : Nat)
    (t : Instant) (todo : List Part) (done : List Reading) :
    ∃ w, (c.readNext src org n t done todo).2 = c.setWorld w ∧
      Work src i org (.building n t todo done) c.world
        (c.deedsIn i org (.building n t todo done)) (c.readNext src org n t done todo).1 w := by
  cases todo with
  | nil => exact ⟨_, rfl, .assembled rfl⟩
  | cons p ps =>
    simp only [readNext]
    rcases readPart_cases hkeep org p c.world with ⟨e, w', h, hkept⟩ | ⟨d, w', h, hkept⟩
    · rw [h]
      exact ⟨_, rfl, .failed (by simp only [World.setBuilding, hkept])⟩
    · rw [h]
      exact ⟨_, rfl, .loaded hkept⟩

theorem look_apart (c : Crowd δ) (r : Request) :
    (c.look r).2 = c.setWorld c.world ∧ (c.look r).1.work < Phase.looking.work ∧
      ((c.look r).1.Apart ∨ ∃ res, (c.look r).1 = .finished res) := by
  unfold look
  split
  · exact ⟨rfl, Nat.lt_succ_self _, .inl trivial⟩
  · rename_i s _
    split
    · exact ⟨rfl, Nat.succ_pos _, .inr ⟨_, rfl⟩⟩
    · have hle : (World.partsToRead (some s) r.mask).length ≤ Part.all.length :=
        List.length_filter_le _ _
      exact ⟨rfl, Nat.add_lt_add_of_le_of_lt hle (by decide), .inl trivial⟩

theorem refreshNext_apart (hkeep : src.KeepBuilding) (c : Crowd δ) (r : Request) (prev : Snapshot)
    (todo : List Part) (done : List Reading) :
    ∃ w, (c.refreshNext src r prev done todo).2 = c.setWorld w ∧
      w.cache.building = c.world.cache.building ∧
      (c.refreshNext src r prev done todo).1.work < (Phase.refreshing prev todo done).work ∧
      ((c.refreshNext src r prev done todo).1.Apart ∨
        ∃ res, (c.refreshNext src r prev done todo).1 = .finished res) := by
  cases todo with
  | nil => exact ⟨_, rfl, rfl, Nat.succ_pos _, .inr ⟨_, rfl⟩⟩
  | cons p ps =>
    simp only [refreshNext]
    rcases readPart_cases hkeep r.org p c.world with ⟨e, w', h, hkept⟩ | ⟨d, w', h, hkept⟩
    · rw [h]
      exact ⟨_, rfl, hkept, Nat.succ_pos _, .inr ⟨_, rfl⟩⟩
    · rw [h]
      exact ⟨_, rfl, hkept, Nat.lt_succ_self _, .inl trivial⟩

/-- A caller that stays as it is. -/
theorem turn_idle {r : Request} {ph : Phase} (hat : c.At i ⟨r, ph⟩)
    (h : (∃ res, ph = .finished res) ∨ ∃ n, ph = .joined n ∧ c.cells.find? n ≠ some .free ∧
      ∀ res, c.cells.find? n ≠ some (.settled res)) :
    Turn src c i [] (c.place i ⟨r, ph⟩) := by
  have hsame : c.place i ⟨r, ph⟩ = c := by
    obtain ⟨hlt, hget⟩ := List.getElem?_eq_some_iff.1 hat
    rw [place, ← hget, List.set_getElem_self]
  rw [hsame]
  refine .idle fun x hx => ?_
  cases hat.symm.trans hx
  exact h

theorem turn_at (hkeep : src.KeepBuilding) {r : Request} {ph : Phase}
    (hat : c.At i ⟨r, ph⟩) :
    Turn src c i (c.deedsIn i r.org ph)
      ((advance src r ph c).2.place i ⟨r, (advance src r ph c).1⟩) := by
  cases ph with
  | looking =>
    obtain ⟨hc, hwork, hph⟩ := look_apart c r
    simp only [advance, hc]
    exact .apart hat trivial hph hwork rfl
  | joining =>
    cases hfound : c.loading.find? r.org with
    | some n =>
      simp only [deedsIn, advance, Crowd.register, hfound]
      exact .join hat hfound
    | none =>
      simp only [deedsIn, advance, Crowd.register, hfound]
      exact .register hat hfound
  | joined n =>
    simp only [advance, enter]
    split
    · rename_i res hcell
      exact .take hat hcell
    · rename_i hcell
      exact .enter hat hcell
    · rename_i hsettled hfree
      exact turn_idle hat (.inr ⟨n, rfl, hfree, hsettled⟩)
  | checking n =>
    obtain ⟨w, hc, hwork⟩ := check_work src c i r.org n
    simp only [advance, hc]
    exact .work hat hwork
  | building n t todo done =>
    obtain ⟨w, hc, hwork⟩ := readNext_work hkeep c i r.org n t todo done
    simp only [advance, hc]
    exact .work hat hwork
  | publishing n s =>
    refine .work hat (.published ?_)
    simp only [World.setBuilding, keep_building]
  | settling n res => exact .settle hat
  | leaving n res => exact .leave hat
  | refreshing prev todo done =>
    obtain ⟨w, hc, hw, hwork, hph⟩ := refreshNext_apart hkeep c r prev todo done
    simp only [advance, hc]
    exact .apart hat trivial hph hwork hw
  | finished res => exact turn_idle hat (.inl ⟨res, rfl⟩)

/-- There is nothing else that a turn does. -/
theorem turn (hkeep : src.KeepBuilding) (c : Crowd δ) (i : Nat) :
    Turn src c i (c.deeds i) (c.step src i) := by
  cases hat : c.callers[i]? with
  | none =>
    simp only [deeds, step, hat]
    refine .idle fun x hx => ?_
    rw [At, hat] at hx
    cases hx
  | some caller =>
    simp only [deeds, step, hat]
    exact turn_at hkeep hat

end Crowd
end Outreach
