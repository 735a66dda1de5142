import Outreach.Asset.Store
import Outreach.Proofs.Cache.Alike
import Outreach.Proofs.Cache.Alone
import Outreach.Proofs.Cache.Rebuilds

/-!
# Outreach.Proofs.Cache.Failure

A snapshot that cannot be built leaves the cache as it was. What loading counts may differ
afterwards, but whatever is asked from then on is answered the same.

* `Operation` — what is asked of the cache; `Operation.answers_eq` says that worlds that are alike
  give the same answers.
* `World.failed_refresh_leaves_no_trace` — the main result.
* `AssetStore.blind` — a store in memory loads the same whatever it has counted.
-/

namespace Outreach

variable {δ : Type} [Setoid δ]

/-! ## Whatever is asked next -/

/-- What is asked of the cache and of the scheduler, or done elsewhere. -/
inductive Operation (δ : Type) where
  | get (org : OrgId)
  | refresh (org : OrgId) (m : Mask)
  /-- Callers that ask for the snapshot of one org at once. -/
  | together (org : OrgId) (callers : Nat)
  | flush
  | flow (s : Snapshot) (ref : FlowRef)
  | simulate (s : Snapshot) (replacements : List (Uuid × JsonValue)) (extra : List Channel)
  | reconcile (batch : Nat) (change : Change)
  | elsewhere (change : World δ → World δ)

inductive Answer where
  | done
  | snapshot (r : Outcome)
  | snapshots (rs : List Outcome)
  | flow (r : Except AssetError Flow)
  | tally (r : Except (Fault SchedulerError) Tally)

namespace Operation

variable {δ : Type}

def perform (src : Sources δ) : Operation δ → World δ → Answer × World δ
  | get org, w => let (r, w) := w.get src org; (.snapshot r, w)
  | refresh org m, w => let (r, w) := w.refresh src org m; (.snapshot r, w)
  | together org n, w => let (rs, w) := w.getTogether src org n; (.snapshots rs, w)
  | flush, w => (.done, w.flush)
  | flow s ref, w => let (r, w) := w.flow src s ref; (.flow r, w)
  | simulate s l extra, w => let (r, w) := w.simulate src s l extra; (.snapshot r, w)
  | reconcile batch change, w => let (r, w) := w.reconcile src batch change; (.tally r, w)
  | elsewhere change, w => (.done, change w)

/-- What is answered to operations one after the other. -/
def answers (src : Sources δ) : List (Operation δ) → World δ → List Answer
  | [], _ => []
  | op :: ops, w =>
    let (a, w) := op.perform src w
    a :: answers src ops w

end Operation

/-- Changes elsewhere are the same to worlds that are alike. -/
def Operation.Blind (op : Operation δ) : Prop :=
  ∀ change, op = .elsewhere change → ∀ w w', w.Alike w' → (change w).Alike (change w')

namespace Operation

variable {src : Sources δ} {w w' : World δ}

theorem perform_agree (hsrc : src.Blind) {op : Operation δ} (hop : op.Blind) (h : w.Alike w') :
    Agree (op.perform src w) (op.perform src w') := by
  cases op with
  | get org =>
    obtain ⟨hr, hw⟩ := World.get_agree hsrc org h
    exact ⟨congrArg Answer.snapshot hr, hw⟩
  | refresh org m =>
    obtain ⟨hr, hw⟩ := World.refresh_agree hsrc org m h
    exact ⟨congrArg Answer.snapshot hr, hw⟩
  | together org n =>
    obtain ⟨hr, hw⟩ := World.getTogether_agree hsrc org n h
    exact ⟨congrArg Answer.snapshots hr, hw⟩
  | flush => exact ⟨rfl, h.withCache (by rw [h.cache])⟩
  | flow s ref =>
    obtain ⟨hr, hw⟩ := World.flow_agree hsrc s ref h
    exact ⟨congrArg Answer.flow hr, hw⟩
  | simulate s l extra =>
    obtain ⟨hr, hw⟩ := World.simulate_agree hsrc s l extra h
    exact ⟨congrArg Answer.snapshot hr, hw⟩
  | reconcile batch change =>
    obtain ⟨hr, hw⟩ := World.reconcile_agree hsrc batch change h
    exact ⟨congrArg Answer.tally hr, hw⟩
  | elsewhere change => exact ⟨rfl, hop change rfl w w' h⟩

theorem answers_eq (hsrc : src.Blind) {ops : List (Operation δ)} (hops : ∀ op ∈ ops, op.Blind)
    (h : w.Alike w') : answers src ops w = answers src ops w' := by
  induction ops generalizing w w' with
  | nil => rfl
  | cons op ops ih =>
    obtain ⟨ha, hw⟩ := perform_agree hsrc (hops op List.mem_cons_self) h
    have hrest := ih (fun op' hop => hops op' (List.mem_cons_of_mem _ hop)) hw
    simp only [answers, ha, hrest]

end Operation

/-! ## A failure -/

namespace World

variable {src : Sources δ} {org : OrgId} {m : Mask} {w w' : World δ} {e : AssetError}

/-- What fails is a load; until then there were only loads. -/
theorem build_alike_of_error {prev : Option Snapshot}
    (hquiet : ∀ p u, Loads src org (partsToRead prev m) w p u → u.Alike (src.load p org u).2)
    (h : build src org prev m w = (.error e, w')) : w.Alike w' := by
  have hread := readParts_kept Alike.refl Alike.trans hquiet
  unfold build at h
  split at h
  · rename_i hr
    cases h
    rw [hr] at hread
    exact hread
  · cases h

theorem buildFull_alike_of_error
    (hquiet : ∀ p u, Loads src org Part.all (w.setBuilding (org :: w.cache.building)) p u →
      u.Alike (src.load p org u).2)
    (h : buildFull src org w = (.error e, w')) : w.Alike w' := by
  unfold buildFull at h
  split at h
  · cases h
    exact .refl w
  · split at h
    · rename_i hb
      cases h
      have hbuild := build_alike_of_error hquiet hb
      have hcache := hbuild.cache.symm
      refine ⟨hbuild.clock, ?_, hbuild.tables, hbuild.rest⟩
      -- the mark that the build made is the first one of the org
      simp only [setBuilding] at hcache ⊢
      rw [hcache]
      simp only [List.erase_cons_head]
    · cases h

theorem refresh_alike_of_error
    (hquiet : ∀ p u, w.Loading src org m p u → u.Alike (src.load p org u).2)
    (h : w.refresh src org m = (.error e, w')) : w.Alike w' := by
  unfold refresh at h
  split at h
  · rename_i hnone
    by_cases hfree : w.cache.building.contains org = false
    · exact buildFull_alike_of_error (fun p u hu => hquiet p u (.anew hnone hfree hu)) h
    · rw [buildFull, if_pos (eq_true_of_ne_false hfree)] at h
      cases h
      exact .refl w
  · rename_i prev hprev
    split at h
    · cases h
    · rename_i hm
      split at h
      · rename_i hb
        cases h
        exact build_alike_of_error (fun p u hu => hquiet p u (.again hprev hm hu)) hb
      · cases h

/-- A refresh that fails leaves the cache as it was: the entries, the shelves of flows, the builds
under way and the numbers given out. A caller that makes it leaves no registration behind. If
loading changed nothing else but what sources do not look at, then whatever is asked next is
answered as if the refresh had not been made. A snapshot is got by a refresh of nothing
(`World.get_eq_refresh`). -/
theorem failed_refresh_leaves_no_trace (hsrc : src.Blind)
    (hquiet : ∀ p u, w.Loading src org m p u → u.Alike (src.load p org u).2)
    (h : w.refresh src org m = (.error e, w')) :
    w'.cache = w.cache ∧
      (∀ (c : Crowd δ) (i : Nat), c.world = w → c.At i ⟨⟨org, m⟩, .looking⟩ →
        c.loading.find? org = none →
        ∃ d, Crowd.Solo src i c d ∧ d.At i ⟨⟨org, m⟩, .finished (.error e)⟩ ∧ d.world = w' ∧
          ∀ o, d.loading.find? o = c.loading.find? o) ∧
      ∀ ops : List (Operation δ), (∀ op ∈ ops, op.Blind) →
        Operation.answers src ops w' = Operation.answers src ops w := by
  have halike := refresh_alike_of_error hquiet h
  refine ⟨halike.cache.symm, ?_, fun ops hops => Operation.answers_eq hsrc hops halike.symm⟩
  rintro c i rfl hat hnone
  obtain ⟨d, hsolo, hd, hworld, hloading, -⟩ := Crowd.solo_refresh src hat hnone
  simp only [h] at hd hworld
  exact ⟨d, hsolo, hd, hworld, hloading⟩

end World

/-! ## A store in memory -/

/-- Stores that differ at most in how often categories were loaded. -/
instance AssetStore.setoid : Setoid AssetStore where
  r s t := s.orgs = t.orgs ∧ s.forced = t.forced
  iseqv := ⟨fun _ => ⟨rfl, rfl⟩, fun h => ⟨h.1.symm, h.2.symm⟩,
    fun h h' => ⟨h.1.trans h'.1, h.2.trans h'.2⟩⟩

/-- Everything is loaded from a store in memory. -/
def Sources.ofStore : Sources AssetStore where
  load p org w :=
    let (r, store) := w.rest.load p org
    (r, { w with rest := store })
  loadFlow org ref w :=
    let (r, store) := w.rest.loadFlow org ref
    (r, { w with rest := store })

namespace AssetStore

variable {s t : AssetStore}

theorem find_eq (h : s ≈ t) (c : Category) (org : OrgId) : s.find c org = t.find c org := by
  obtain ⟨horgs, hforced⟩ := h
  unfold find
  rw [horgs, hforced]

/-- Loading a category only counts. -/
theorem load_alike (p : Part) (org : OrgId) (s : AssetStore) : s ≈ (s.load p org).2 := by
  unfold load
  split <;> exact ⟨rfl, rfl⟩

theorem loadFlow_alike (org : OrgId) (ref : FlowRef) (s : AssetStore) :
    s ≈ (s.loadFlow org ref).2 := by
  unfold loadFlow
  split <;> exact ⟨rfl, rfl⟩

theorem load_result (p : Part) (org : OrgId) (h : s ≈ t) :
    (s.load p org).1 = (t.load p org).1 := by
  unfold load
  rw [find_eq h]
  split <;> rfl

theorem loadFlow_result (org : OrgId) (ref : FlowRef) (h : s ≈ t) :
    (s.loadFlow org ref).1 = (t.loadFlow org ref).1 := by
  unfold loadFlow
  rw [find_eq h]
  split <;> rfl

/-- What a store has loaded before does not show in what it loads. -/
theorem blind : Sources.ofStore.Blind where
  load p org w w' h :=
    ⟨load_result p org h.rest, h.clock, h.cache, h.tables,
      Setoid.trans (Setoid.symm (load_alike p org w.rest))
        (Setoid.trans h.rest (load_alike p org w'.rest))⟩
  loadFlow org ref w w' h :=
    ⟨loadFlow_result org ref h.rest, h.clock, h.cache, h.tables,
      Setoid.trans (Setoid.symm (loadFlow_alike org ref w.rest))
        (Setoid.trans h.rest (loadFlow_alike org ref w'.rest))⟩

end AssetStore

section

open Sample

/-- The snapshot of the first org has been got from a store where its fields can no longer be
loaded. -/
def Sample.broken : World AssetStore :=
  let stocked : World AssetStore :=
    { clock := midnight
      cache := { ttl := Span.ofSeconds 5 }
      rest := ({} : AssetStore).insertOrg 1 {} }
  let served := (stocked.get Sources.ofStore 1).2
  { served with rest := served.rest.fail (.part .fields) "boom" }

/-- After a refresh of the fields that fails, the snapshot is served as before, and a refresh
succeeds once the fields can be loaded again. -/
theorem World.failed_refresh_of_fields :
    let failed := broken.refresh Sources.ofStore 1 (.of (.part .fields))
    let mend (w : World AssetStore) : World AssetStore :=
      { w with rest := w.rest.clear (.part .fields) }
    let next : List (Operation AssetStore) :=
      [.get 1, .elsewhere mend, .refresh 1 (.of (.part .fields)), .together 2 3]
    failed.1 = .error (.load .fields 1 (.forced "boom")) ∧ failed.2.cache = broken.cache ∧
      Operation.answers Sources.ofStore next failed.2 =
        Operation.answers Sources.ofStore next broken := by
  intro failed mend next
  have herror : failed.1 = .error (.load .fields 1 (.forced "boom")) := by rfl
  have hquiet (p : Part) (u : World AssetStore) : u.Alike (Sources.ofStore.load p 1 u).2 :=
    ⟨rfl, rfl, rfl, AssetStore.load_alike p 1 u.rest⟩
  have hmend (w w' : World AssetStore) (h : w.Alike w') : (mend w).Alike (mend w') :=
    ⟨h.clock, h.cache, h.tables, h.rest.1, by simp only [mend, AssetStore.clear, h.rest.2]⟩
  have hfailed : broken.refresh Sources.ofStore 1 (.of (.part .fields)) =
      (.error (.load .fields 1 (.forced "boom")), failed.2) := Prod.ext herror rfl
  obtain ⟨hcache, -, hnext⟩ := World.failed_refresh_leaves_no_trace AssetStore.blind
    (fun p u _ => hquiet p u) hfailed
  refine ⟨herror, hcache, hnext next fun op hop => ?_⟩
  rintro change rfl
  simp only [next, List.mem_cons, Operation.elsewhere.injEq, reduceCtorEq, List.not_mem_nil,
    or_false, false_or] at hop
  exact hop ▸ hmend

end

end Outreach
