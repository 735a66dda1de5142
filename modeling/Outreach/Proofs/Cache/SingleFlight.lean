import Outreach.Proofs.Cache.Builds
import Outreach.Proofs.Scheduler

/-!
# Outreach.Proofs.Cache.SingleFlight

Of the callers that miss at the same time one builds and the others wait for what it gets.

* `Crowd.work` — what the callers have still to do. A turn of a caller that does not wait makes it
  less; `Sound.finished_of_waits` says that not all wait for each other.
* `SingleFlight` — what callers may rely on; `Goes.singleFlight` says that they may.
-/

namespace Outreach
namespace Crowd

variable {δ : Type} {src : Sources δ} {c d : Crowd δ} {log ds : List Deed}
  {i j n m : Nat} {x y : Caller} {r : Request} {ph ph' : Phase} {org : OrgId}

/-! ## Everyone finishes -/

/-- More turns than these callers have still to take. -/
def workOf : List Caller → Nat
  | [] => 0
  | x :: xs => x.phase.work + workOf xs

def work (c : Crowd δ) : Nat := workOf c.callers

theorem workOf_set {xs : List Caller} (h : xs[i]? = some x) :
    workOf (xs.set i y) + x.phase.work = workOf xs + y.phase.work := by
  induction xs generalizing i with
  | nil => simp at h
  | cons z xs ih =>
    cases i with
    | zero =>
      simp only [List.getElem?_cons_zero, Option.some.injEq] at h
      subst h
      simp only [List.set_cons_zero, workOf]
      omega
    | succ i =>
      have hrest := ih h
      simp only [List.set_cons_succ, workOf]
      omega

theorem workOf_eq_zero_iff {xs : List Caller} :
    workOf xs = 0 ↔ ∀ x ∈ xs, ∃ res, x.phase = .finished res := by
  have hone (x : Caller) : x.phase.work = 0 ↔ ∃ res, x.phase = .finished res := by
    cases x.phase <;> simp [Phase.work]
  induction xs with
  | nil => simp [workOf]
  | cons x xs ih => simp only [workOf, Nat.add_eq_zero_iff, hone, ih, List.forall_mem_cons]

theorem work_place (hat : c.At i ⟨r, ph⟩) (hd : d.callers = c.callers.set i ⟨r, ph'⟩)
    (hless : ph'.work < ph.work) : d.work < c.work := by
  have hset := workOf_set (y := ⟨r, ph'⟩) hat
  rw [← hd] at hset
  simp only at hset
  rw [work, work]
  omega

theorem Work.work_lt {w w' : World δ} (h : Work src i org ph w ds ph' w') : ph'.work < ph.work := by
  cases h <;> simp [Phase.work]

/-- A turn brings the crowd nearer to the end, unless the caller waits. -/
theorem Turn.work_lt (h : Turn src c i ds d) : (c.Waits i ∧ d = c) ∨ d.work < c.work := by
  cases h with
  | idle hwaits => exact .inl ⟨hwaits, rfl⟩
  | apart hat _ _ hwork _ => exact .inr (work_place hat rfl hwork)
  | join hat _ => exact .inr (work_place hat rfl (by simp [Phase.work]))
  | register hat _ => exact .inr (work_place hat rfl (by simp [Phase.work]))
  | take hat _ => exact .inr (work_place hat rfl (by simp [Phase.work]))
  | enter hat _ => exact .inr (work_place hat rfl (by simp [Phase.work]))
  | work hat hw => exact .inr (work_place hat rfl hw.work_lt)
  | settle hat => exact .inr (work_place hat rfl (by simp [Phase.work]))
  | @leave r n res hat =>
    obtain ⟨hcallers, -⟩ := unregister_frame c r.org n
    exact .inr (work_place hat (by rw [place, hcallers]) (by simp [Phase.work]))

theorem Turn.length_callers (h : Turn src c i ds d) : d.callers.length = c.callers.length := by
  cases h with
  | idle => rfl
  | @leave r n res hat =>
    obtain ⟨hcallers, -⟩ := unregister_frame c r.org n
    rw [place, hcallers, List.length_set]
  | _ => exact List.length_set

/-- Not all callers wait: who waits for a cell waits for another caller. -/
theorem Sound.finished_of_waits (h : Sound log c) (hwaits : ∀ i, c.Waits i) (hx : c.At i x) :
    ∃ res, x.phase = .finished res := by
  refine (hwaits i x hx).resolve_right ?_
  rintro ⟨n, hph, hfree, hsettled⟩
  have hbusy : c.cells.find? n = some .busy := by
    have hknown := h.written.known hx (by rw [hph]; rfl)
    cases hcell : c.cells.find? n with
    | none => exact absurd hcell hknown
    | some cell =>
      cases cell with
      | free => exact absurd hcell hfree
      | busy => rfl
      | settled res => exact absurd hcell (hsettled res)
  obtain ⟨j, y, hy, hwrites⟩ := h.written.writer hbusy
  obtain ⟨res, hdone⟩ | ⟨m, hjoined, -⟩ := hwaits j y hy
  · rw [hdone] at hwrites
    cases hwrites
  · rw [hjoined] at hwrites
    cases hwrites

/-- Turns bring the crowd nearer to the end, unless whoever takes one waits. -/
theorem run_work_lt (hkeep : src.KeepBuilding) (c : Crowd δ) (turns : List Nat) :
    ((∀ i ∈ turns, c.Waits i) ∧ c.run src turns = c) ∨ (c.run src turns).work < c.work := by
  induction turns generalizing c with
  | nil => exact .inl ⟨by simp, rfl⟩
  | cons i turns ih =>
    obtain ⟨hwaits, hsame⟩ | hless := (c.turn hkeep i).work_lt
    · obtain ⟨hrest, hrun⟩ | hless := ih c
      · refine .inl ⟨fun j hj => ?_, ?_⟩
        · rcases List.mem_cons.1 hj with rfl | hj
          · exact hwaits
          · exact hrest j hj
        · rw [run, List.foldl_cons, hsame]
          exact hrun
      · refine .inr ?_
        rw [run, List.foldl_cons, hsame]
        exact hless
    · refine .inr ?_
      obtain ⟨-, hrun⟩ | hless' := ih (c.step src i)
      · rw [run, List.foldl_cons]
        rw [run] at hrun
        rw [hrun]
        exact hless
      · exact Nat.lt_trans hless' hless

theorem length_callers_run (hkeep : src.KeepBuilding) (c : Crowd δ) (turns : List Nat) :
    (c.run src turns).callers.length = c.callers.length := by
  induction turns generalizing c with
  | nil => rfl
  | cons i turns ih => exact (ih _).trans (c.turn hkeep i).length_callers

/-- In as many rounds as there is work left, all callers finish, if each round gives each of them
a turn. -/
theorem Sound.finishes (hkeep : src.KeepBuilding) (h : Sound log c) {rounds : List (List Nat)}
    (hrounds : c.work ≤ rounds.length)
    (hall : ∀ turns ∈ rounds, ∀ i < c.callers.length, i ∈ turns) :
    (c.run src rounds.flatten).work = 0 := by
  induction rounds generalizing log c with
  | nil => exact Nat.le_zero.1 hrounds
  | cons turns rounds ih =>
    have hle : (c.run src turns).work ≤ rounds.length := by
      obtain ⟨hwaits, hsame⟩ | hless := run_work_lt hkeep c turns
      · -- all wait, so that all have finished
        have hzero : c.work = 0 := by
          refine workOf_eq_zero_iff.2 fun x hx => ?_
          obtain ⟨i, hi, rfl⟩ := List.getElem_of_mem hx
          have hwaits' (j : Nat) : c.Waits j := by
            by_cases hj : j < c.callers.length
            · exact hwaits j (hall turns List.mem_cons_self j hj)
            · intro y hy
              rw [At, List.getElem?_eq_none (Nat.le_of_not_lt hj)] at hy
              cases hy
          exact h.finished_of_waits hwaits' (List.getElem?_eq_getElem hi)
        rw [hsame, hzero]
        exact Nat.zero_le _
      · simp only [List.length_cons] at hrounds
        omega
    rw [List.flatten_cons, run_append]
    refine ih (h.run hkeep turns) hle fun turns' hturns i hi => ?_
    rw [length_callers_run hkeep] at hi
    exact hall turns' (List.mem_cons_of_mem _ hturns) i hi

end Crowd

open Crowd

/-! ## Single flight -/

/-- What callers may rely on, whatever turns were taken so far. -/
structure SingleFlight {δ : Type} (src : Sources δ) (log : List Deed) (c : Crowd δ) : Prop where
  /-- At most one caller builds an org in full. -/
  oneBuild : ∀ {i j x y n m}, c.At i x → c.At j y → x.request.org = y.request.org →
    x.phase.builds? = some n → y.phase.builds? = some m → i = j
  /-- Callers that have joined the same cell end with the same result. -/
  oneResult : ∀ {i j x y n res res'}, .joined i n ∈ log → .joined j n ∈ log → c.At i x → c.At j y →
    x.phase = .finished res → y.phase = .finished res' → res = res'
  /-- For each cell one of its callers loads the categories in their order, each one once. -/
  oneLoad : ∀ n, loadsFor n log <+: Part.all
  byCaller : ∀ {i n p}, .loaded i n p ∈ log → .joined i n ∈ log
  /-- It goes on to the last or to the first that fails, unless it finds an entry. -/
  ends : ∀ {i x n res}, .joined i n ∈ log → c.At i x → x.phase = .finished res →
    Ends x.request.org n log res
  /-- There is no registration for an org once no caller of it holds a cell. -/
  unregistered : ∀ {org}, (∀ i x, c.At i x → x.request.org = org → x.phase.cell? = none) →
    c.loading.find? org = none
  /-- Who finds no registration for the org joins a cell that nobody has joined before. -/
  afresh : ∀ {i r}, c.At i ⟨r, .joining⟩ → c.loading.find? r.org = none →
    c.deeds i = [.joined i c.nextCell] ∧ (∀ j, .joined j c.nextCell ∉ log) ∧
      loadsFor c.nextCell log = []
  /-- All callers finish, if they go on taking turns. -/
  finishes : ∀ {rounds : List (List Nat)}, c.work ≤ rounds.length →
    (∀ turns ∈ rounds, ∀ i < c.callers.length, i ∈ turns) →
    ∀ {i x}, (c.run src rounds.flatten).At i x → ∃ res, x.phase = .finished res

theorem Crowd.Sound.reliable {δ : Type} {src : Sources δ} {log : List Deed} {c : Crowd δ}
    (hkeep : src.KeepBuilding) (h : Sound log c) : SingleFlight src log c := by
  constructor
  case oneBuild =>
    intro i j x y n m hx hy horg hn hm
    exact h.cells.writers_eq hx hy horg (Phase.writes?_of_builds? hn) (Phase.writes?_of_builds? hm)
  case oneResult =>
    intro i j x y n res res' hi hj hx hy hres hres'
    have hsame := (h.cells.finished hx hres hi).symm.trans (h.cells.finished hy hres' hj)
    cases hsame
    rfl
  case oneLoad => exact h.tallied.inOrder
  case byCaller => exact h.joins.loaded
  case ends =>
    intro i x n res hi hx hres
    exact h.tallied.settled (h.cells.finished hx hres hi) hi hx
  case unregistered =>
    intro org hnone
    cases hreg : c.loading.find? org with
    | none => rfl
    | some n =>
      obtain ⟨i, x, hx, horg, hn⟩ := h.cells.registered hreg
      rw [hnone i x hx horg] at hn
      cases hn
  case afresh =>
    intro i r hat hnone
    refine ⟨?_, fun j hj => Nat.lt_irrefl _ (h.joins.made hj), h.loadsFor_unmade (Nat.le_refl _)⟩
    have hreg : c.register r.org = (c.nextCell, c.opened r.org) := by
      rw [Crowd.register, hnone]
      rfl
    rw [At] at hat
    simp only [deeds, hat, deedsIn, hreg]
  case finishes =>
    intro rounds hrounds hall i x hx
    exact workOf_eq_zero_iff.1 (h.finishes hkeep hrounds hall) x (List.mem_of_getElem? hx)

/-- Who joins a cell after a category was loaded for it gets what was loaded then, even if it asks
to have the category read anew: nobody loads it for the cell again. -/
theorem SingleFlight.not_loaded_again {δ : Type} {src : Sources δ} {before after : List Deed}
    {c : Crowd δ} {i j k n : Nat} {p : Part}
    (h : SingleFlight src (before ++ .joined j n :: after) c) (hbefore : .loaded i n p ∈ before) :
    .loaded k n p ∉ after := by
  intro hafter
  have hnodup := (h.oneLoad n).sublist.nodup Part.nodup_all
  rw [loadsFor_append] at hnodup
  exact (List.nodup_append.1 hnodup).2.2 p (mem_loadsFor.2 ⟨i, hbefore⟩) p
    (mem_loadsFor.2 ⟨k, List.mem_cons_of_mem _ hafter⟩) rfl

/-- Single flight, for any number of callers that take turns in any order. -/
theorem Goes.singleFlight {δ : Type} {src : Sources δ} (hkeep : src.KeepBuilding) {w : World δ}
    {requests : List Request} (hidle : ∀ q ∈ requests, q.org ∉ w.cache.building)
    {log : List Deed} {c : Crowd δ} (h : Goes src (Crowd.ofRequests w requests) log c) :
    SingleFlight src log c := by
  refine Sound.reliable hkeep ?_
  induction h with
  | here => exact .ofRequests hidle
  | turn _ i ih => exact ih.turn (Crowd.turn hkeep _ i)
  | elsewhere _ hbuilding ih => exact ih.setWorld hbuilding

section

open Sample

/-- The fields of an org cannot be loaded. -/
def Sample.fieldless : Sources Unit where
  load p _ w := (if p = .fields then .error (.forced "boom") else .ok p.nothing, w)
  loadFlow _ _ w := (.ok none, w)

/-- Two callers of the first org, which has no entry. -/
def Sample.two : Crowd Unit :=
  Crowd.ofRequests { clock := midnight, cache := { ttl := Span.ofSeconds 5 }, rest := () }
    [⟨1, .empty⟩, ⟨1, .of (.part .labels)⟩]

/-- Two callers that take turns share one failure, for which three categories are loaded. -/
theorem Goes.two_share_a_failure :
    let turns := (List.replicate 12 [0, 1]).flatten
    let c := two.run fieldless turns
    let log := two.log fieldless turns
    SingleFlight fieldless log c ∧
      c.callers.map (fun x => x.phase) =
        List.replicate 2 (.finished (.error (.load .fields 1 (.forced "boom")))) ∧
      log = [.joined 0 0, .joined 1 0, .loaded 0 0 .environment, .loaded 0 0 .channels,
        .loaded 0 0 .fields] ∧
      c.loading.find? 1 = none := by
  intro turns c log
  have hgoes : Goes fieldless two ([] ++ log) c := .run .here turns
  have hs : SingleFlight fieldless log c :=
    hgoes.singleFlight (fun p org w => rfl) fun q _ => by simp
  exact ⟨hs, rfl, rfl, rfl⟩

end

end Outreach
