import Outreach.Proofs.Cache.Use
import Outreach.Proofs.Scheduler

/-!
# Outreach.Proofs.Cache.Rebuilds

When an org is built in full again. A run leaves a log of what becomes of the entries; from the log
alone it can be told how old the entry is when a full build begins.

* `Logged` — runs of operations on the cache with their logs.
* `Happening.after`, `keptAfter` — of which time the entry of an org is.
* `Passes` — what a run and its log say of an org; `Logged.passes` says that all do.
* `Logged.rebuilt_only_after_ttl` — no full build begins within the time to live of one before,
  unless a refresh that started from an older snapshot has ended in between.
* `rebuilt_within_ttl` — what happens when one has.
-/

namespace Outreach

/-! ## Logs -/

/-- What becomes of the entries. -/
inductive Happening where
  /-- A full build of the org begins. -/
  | begun (org : OrgId) (t : Instant)
  /-- The full build that began at `t` is published. -/
  | published (org : OrgId) (t : Instant)
  /-- A refresh that started from a snapshot of `t` is published. -/
  | renewed (org : OrgId) (t : Instant)
  | flushed
deriving DecidableEq

/-- The time of the entry of an org, if there is one, after something has happened. -/
def Happening.after (org : OrgId) (kept : Option Instant) : Happening → Option Instant
  | .begun _ _ => kept
  | .published o t => if o = org then some t else kept
  | .renewed o t => if o = org then some t else kept
  | .flushed => none

def keptAfter (org : OrgId) (log : List Happening) (kept : Option Instant) : Option Instant :=
  log.foldl (Happening.after org) kept

namespace World

variable {δ : Type}

/-- What happens while categories are read; `during` tells what happens while one is loaded. -/
def readLog (src : Sources δ) (org : OrgId) (during : Part → List Happening) :
    List Part → World δ → List Happening
  | [], _ => []
  | p :: ps, w =>
    during p ++
      match readPart src org p w with
      | (.error _, _) => []
      | (.ok _, w) => readLog src org during ps w

/-- What happens in the course of a full build. -/
def buildFullLog (src : Sources δ) (org : OrgId) (during : Part → List Happening) (w : World δ) :
    List Happening :=
  if w.cache.building.contains org then []
  else
    let begun := w.setBuilding (org :: w.cache.building)
    .begun org w.clock :: (readLog src org during Part.all begun ++
      match build src org none .full begun with
      | (.error _, _) => []
      | (.ok s, w) =>
        if w.clock.since s.builtAt < w.cache.ttl then [.published org s.builtAt] else [])

/-- What happens in the course of a refresh. -/
def refreshLog (src : Sources δ) (org : OrgId) (m : Mask) (during : Part → List Happening)
    (w : World δ) : List Happening :=
  match w.fresh? org with
  | none => buildFullLog src org during w
  | some prev =>
    if m = .empty then []
    else
      readLog src org during (partsToRead (some prev) m) w ++
        match build src org (some prev) m w with
        | (.error _, _) => []
        | (.ok s, _) => [.renewed org s.builtAt]

end World

variable {δ : Type}

/-- Runs of operations on the cache with their logs. What happens during a load is such a run
again. A snapshot is got by a refresh of nothing (`World.get_eq_refresh`). -/
inductive Logged (src : Sources δ) : World δ → List Happening → World δ → Prop where
  | refl (w : World δ) : Logged src w [] w
  | trans {u v w : World δ} {log log' : List Happening} (h : Logged src u log v)
      (h' : Logged src v log' w) : Logged src u (log ++ log') w
  | elsewhere {w w' : World δ} (hcache : w'.cache = w.cache) (hclock : w.clock ≤ w'.clock) :
    Logged src w [] w'
  | refresh (org : OrgId) (m : Mask) (w : World δ) (during : Part → List Happening)
      (hloads : ∀ p u, w.Loading src org m p u →
        Logged src u (during p) (src.load p org u).2) :
    Logged src w (w.refreshLog src org m during) (w.refresh src org m).2
  | flush (w : World δ) : Logged src w [.flushed] w.flush
  | hit (s : Snapshot) (ref : FlowRef) (w : World δ) {copy : Shelved}
      (hfound : (w.shelfOf s).find? ref = some copy) : Logged src w [] (w.flow src s ref).2
  | miss (s : Snapshot) (ref : FlowRef) (w : World δ) {log : List Happening}
      (hnone : (w.shelfOf s).find? ref = none)
      (hload : Logged src w log (src.loadFlow s.org ref w).2) :
    Logged src w log (w.flow src s ref).2

/-! ## What a log says of an org -/

/-- Whenever a full build of the org begins, the entry, if there is one, has reached the age. -/
def Timely (ttl : Span) (org : OrgId) : Option Instant → List Happening → Prop
  | _, [] => True
  | kept, h :: log =>
    (∀ now, h = .begun org now → ∀ t ∈ kept, ttl ≤ now.since t) ∧ Timely ttl org (h.after org kept) log

/-- Full builds of the org that are published one after the other began in that order. -/
def InTurn (org : OrgId) (h h' : Happening) : Prop :=
  ∀ t t', h = .published org t → h' = .published org t' → t ≤ t'

variable {org : OrgId} {log log' : List Happening} {ttl : Span}

theorem keptAfter_append (org : OrgId) (log log' : List Happening) (kept : Option Instant) :
    keptAfter org (log ++ log') kept = keptAfter org log' (keptAfter org log kept) :=
  List.foldl_append

theorem timely_append {kept : Option Instant} :
    Timely ttl org kept (log ++ log') ↔
      Timely ttl org kept log ∧ Timely ttl org (keptAfter org log kept) log' := by
  induction log generalizing kept with
  | nil => simp [Timely, keptAfter]
  | cons h log ih =>
    rw [List.cons_append, Timely, Timely, ih, and_assoc]
    rfl

/-- The time of an entry comes from something published, unless it was there before. -/
theorem keptAfter_eq_some {t : Instant} {kept : Option Instant}
    (h : keptAfter org log kept = some t) :
    kept = some t ∨ .published org t ∈ log ∨ .renewed org t ∈ log := by
  induction log generalizing kept with
  | nil => exact .inl h
  | cons e log ih =>
    rcases ih h with he | he | he
    · cases e with
      | begun o T => exact .inl he
      | flushed => cases he
      | published o T =>
        simp only [Happening.after] at he
        split at he
        · rename_i ho
          cases he
          exact .inr (.inl (ho ▸ List.mem_cons_self))
        · exact .inl he
      | renewed o T =>
        simp only [Happening.after] at he
        split at he
        · rename_i ho
          cases he
          exact .inr (.inr (ho ▸ List.mem_cons_self))
        · exact .inl he
    · exact .inr (.inl (List.mem_cons_of_mem _ he))
    · exact .inr (.inr (List.mem_cons_of_mem _ he))

/-- Once there is an entry there is one until all are dropped. -/
theorem keptAfter_isSome {kept : Option Instant} (h : kept.isSome) (hflush : .flushed ∉ log) :
    (keptAfter org log kept).isSome := by
  induction log generalizing kept with
  | nil => exact h
  | cons e log ih =>
    refine ih ?_ fun hlog => hflush (List.mem_cons_of_mem _ hlog)
    cases e with
    | begun o t => exact h
    | flushed => exact absurd List.mem_cons_self hflush
    | published o t =>
      simp only [Happening.after]
      split
      · rfl
      · exact h
    | renewed o t =>
      simp only [Happening.after]
      split
      · rfl
      · exact h

/-- The time of the entry of an org. -/
def World.keptTime (w : World δ) (org : OrgId) : Option Instant :=
  (w.cache.entries.find? org).map Snapshot.builtAt

/-- The log accounts for the entry of the org: full builds of it begin when the entry has reached
the time to live, and those that are published began in the course of the log. -/
structure Passes (org : OrgId) (w : World δ) (log : List Happening) (w' : World δ) : Prop where
  clock : w.clock ≤ w'.clock
  ttl : w'.cache.ttl = w.cache.ttl
  kept : w'.keptTime org = keptAfter org log (w.keptTime org)
  timely : Timely w.cache.ttl org (w.keptTime org) log
  within : ∀ t, .published org t ∈ log → w.clock ≤ t ∧ t ≤ w'.clock
  inTurn : log.Pairwise (InTurn org)

namespace Passes

variable {u v w w' : World δ}

/-- The entries stay as they are, and nothing happens to them. -/
theorem of_entries (hclock : w.clock ≤ w'.clock) (httl : w'.cache.ttl = w.cache.ttl)
    (hentries : w'.cache.entries = w.cache.entries) : Passes org w [] w' where
  clock := hclock
  ttl := httl
  kept := by rw [World.keptTime, hentries]; rfl
  timely := trivial
  within t h := by cases h
  inTurn := .nil

/-- The last part of a run leaves no trace. -/
theorem close {orgs : List OrgId} (h : Passes org w log w') :
    Passes org w log (w'.setBuilding orgs) :=
  ⟨h.clock, h.ttl, h.kept, h.timely, h.within, h.inTurn⟩

theorem trans (h : Passes org u log v) (h' : Passes org v log' w) :
    Passes org u (log ++ log') w where
  clock := Moment.le_trans h.clock h'.clock
  ttl := h'.ttl.trans h.ttl
  kept := by rw [keptAfter_append, ← h.kept, h'.kept]
  timely := by
    rw [timely_append, ← h.kept, ← h.ttl]
    exact ⟨h.ttl ▸ h.timely, h'.timely⟩
  within t ht := by
    rcases List.mem_append.1 ht with ht | ht
    · exact ⟨(h.within t ht).1, Moment.le_trans (h.within t ht).2 h'.clock⟩
    · exact ⟨Moment.le_trans h.clock (h'.within t ht).1, (h'.within t ht).2⟩
  inTurn := by
    refine List.pairwise_append.2 ⟨h.inTurn, h'.inTurn, ?_⟩
    rintro e he e' he' t t' rfl rfl
    exact Moment.le_trans (h.within t he).2 (h'.within t' he').1

/-- A full build begins; an entry of its org has reached the time to live. -/
theorem begin {o : OrgId} {log : List Happening} {v : World δ}
    (h : Passes org (w.setBuilding (o :: w.cache.building)) log v)
    (hold : o = org → ∀ t ∈ w.keptTime org, w.cache.ttl ≤ w.clock.since t) :
    Passes org w (.begun o w.clock :: log) v where
  clock := h.clock
  ttl := h.ttl
  kept := h.kept
  timely := by
    refine ⟨?_, h.timely⟩
    rintro now ⟨⟩
    exact hold rfl
  within t ht := h.within t ((List.mem_cons.1 ht).resolve_left (by simp))
  inTurn := List.pairwise_cons.2 ⟨by rintro e - t t' ⟨⟩, h.inTurn⟩

/-- What is published of the org is a full build that began in the course of the log and after
which no other one was published, or a refresh. -/
theorem publish {s : Snapshot} {e : Happening} (h : Passes org w log w')
    (hafter : ∀ kept, e.after org kept = if s.org = org then some s.builtAt else kept)
    (hbegun : ∀ now, e ≠ .begun org now)
    (hbuilt : ∀ t, e = .published org t →
      w.clock ≤ t ∧ t ≤ w'.clock ∧ ∀ t', .published org t' ∉ log) :
    Passes org w (log ++ [e]) { w' with cache := w'.cache.publish s } where
  clock := h.clock
  ttl := h.ttl
  kept := by
    rw [keptAfter_append, ← h.kept]
    show _ = e.after org _
    rw [hafter]
    show (Option.map _ ((w'.cache.entries.insert s.org s).find? org)) = _
    rw [Index.find?_insert]
    split <;> rfl
  timely := by
    rw [timely_append]
    exact ⟨h.timely, fun now he => absurd he (hbegun now), trivial⟩
  within t ht := by
    rcases List.mem_append.1 ht with ht | ht
    · exact h.within t ht
    · obtain ⟨hle, hle', -⟩ := hbuilt t (List.mem_singleton.1 ht).symm
      exact ⟨hle, hle'⟩
  inTurn := by
    refine List.pairwise_append.2 ⟨h.inTurn, List.pairwise_singleton _ _, ?_⟩
    rintro e' he' e'' he'' t t' rfl rfl
    obtain ⟨-, -, hnone⟩ := hbuilt t' (List.mem_singleton.1 he'').symm
    exact absurd he' (hnone t)

end Passes

/-! ## What an operation adds to the log -/

namespace World

variable {src : Sources δ} {o : OrgId} {m : Mask} {ps : List Part} {w w' : World δ}
  {during : Part → List Happening}

theorem readParts_passes
    (hl : ∀ p u, Loads src o ps w p u → Passes org u (during p) (src.load p o u).2) :
    Passes org w (readLog src o during ps w) (readParts src o ps w).2 := by
  induction ps generalizing w with
  | nil => exact .of_entries (Moment.le_refl _) rfl rfl
  | cons p ps ih =>
    have hfirst := hl p w .here
    simp only [readParts, readLog, readPart]
    cases hload : src.load p o w with
    | mk r w₁ =>
      rw [hload] at hfirst
      cases r with
      | error e =>
        simp only [List.append_nil]
        exact hfirst
      | ok listed =>
        have hrest := ih fun q v hv => hl q v (.there hload hv)
        simp only
        cases hread : readParts src o ps w₁ with
        | mk r' w₂ =>
          rw [hread] at hrest
          cases r' <;> exact hfirst.trans hrest

/-- What happens while categories are read happens while one is loaded. -/
theorem mem_readLog {e : Happening} (h : e ∈ readLog src o during ps w) :
    ∃ p u, Loads src o ps w p u ∧ e ∈ during p := by
  induction ps generalizing w with
  | nil => cases h
  | cons p ps ih =>
    simp only [readLog, readPart] at h
    cases hload : src.load p o w with
    | mk r w₁ =>
      rw [hload] at h
      rcases List.mem_append.1 h with h | h
      · exact ⟨p, w, .here, h⟩
      · cases r with
        | error e => cases h
        | ok listed =>
          obtain ⟨q, u, hu, he⟩ := ih h
          exact ⟨q, u, .there hload hu, he⟩

theorem build_passes (prev : Option Snapshot)
    (hl : ∀ p u, Loads src o (partsToRead prev m) w p u →
      Passes org u (during p) (src.load p o u).2) :
    Passes org w (readLog src o during (partsToRead prev m) w) (build src o prev m w).2 := by
  have hread := readParts_passes hl
  unfold build
  split
  · rename_i h
    rw [h] at hread
    exact hread
  · rename_i h
    rw [h] at hread
    rw [← List.append_nil (readLog _ _ _ _ _)]
    exact hread.trans (.of_entries (Moment.le_refl _) rfl rfl)

/-- The full builds under way are the same. -/
def Settles (w w' : World δ) : Prop := w'.cache.building = w.cache.building

theorem Settles.refl (w : World δ) : Settles w w := rfl

theorem Settles.trans {u v w : World δ} (h : Settles u v) (h' : Settles v w) : Settles u w :=
  Eq.trans h' h

theorem build_settles (prev : Option Snapshot)
    (hl : ∀ p u, Loads src o (partsToRead prev m) w p u → Settles u (src.load p o u).2) :
    Settles w (build src o prev m w).2 :=
  build_kept .refl .trans (fun _ _ _ _ _ => rfl) hl

theorem buildFull_settles
    (hl : ∀ p u, Loads src o Part.all (w.setBuilding (o :: w.cache.building)) p u →
      Settles u (src.load p o u).2) :
    Settles w (buildFull src o w).2 := by
  have hbuild := build_settles none (m := .full) hl
  have hleave {w' : World δ} (h : Settles (w.setBuilding (o :: w.cache.building)) w') :
      w'.cache.building.erase o = w.cache.building := by
    rw [h]
    exact List.erase_cons_head o w.cache.building
  unfold buildFull
  split
  · exact .refl w
  · split
    · rename_i h
      rw [h] at hbuild
      exact hleave hbuild
    · rename_i s w₁ h
      rw [h] at hbuild
      exact hleave hbuild

theorem refresh_settles
    (hl : ∀ p u, w.Loading src o m p u → Settles u (src.load p o u).2) :
    Settles w (w.refresh src o m).2 := by
  unfold refresh
  split
  · rename_i hnone
    by_cases hfree : w.cache.building.contains o = false
    · exact buildFull_settles fun p u hu => hl p u (.anew hnone hfree hu)
    · rw [buildFull, if_pos (by simpa using hfree)]
      exact .refl w
  · rename_i prev hprev
    split
    · exact .refl w
    · rename_i hm
      have hbuild := build_settles (some prev) fun p u hu => hl p u (.again hprev hm hu)
      split <;> (rename_i h; rw [h] at hbuild; exact hbuild)

/-- An entry that is not served has reached the time to live. -/
theorem ttl_le_of_stale (h : w.fresh? org = none) :
    ∀ t ∈ w.keptTime org, w.cache.ttl ≤ w.clock.since t := by
  intro t ht
  obtain ⟨s, hs, rfl⟩ := Option.map_eq_some_iff.1 ht
  refine Int.not_lt.1 fun hage => ?_
  rw [fresh?_eq_some_iff.2 ⟨hs, hage⟩] at h
  cases h

theorem buildFull_passes (hstale : w.fresh? o = none)
    (hl : ∀ p u, Loads src o Part.all (w.setBuilding (o :: w.cache.building)) p u →
      Passes org u (during p) (src.load p o u).2 ∧ (o = org → ∀ t, .published org t ∉ during p)) :
    Passes org w (buildFullLog src o during w) (buildFull src o w).2 := by
  have hread : Passes org (w.setBuilding (o :: w.cache.building))
      (readLog src o during Part.all (w.setBuilding (o :: w.cache.building)))
      (build src o none .full (w.setBuilding (o :: w.cache.building))).2 :=
    build_passes none fun p u hu => (hl p u hu).1
  have hbegun := hread.begin fun ho => ho ▸ ttl_le_of_stale hstale
  unfold buildFull buildFullLog
  split
  · exact .of_entries (Moment.le_refl _) rfl rfl
  · simp only
    cases hb : build src o none .full (w.setBuilding (o :: w.cache.building)) with
    | mk r w₁ =>
      rw [hb] at hbegun
      cases r with
      | error e =>
        simp only [List.append_nil]
        exact hbegun.close
      | ok s =>
        simp only [← List.cons_append]
        refine Passes.close ?_
        by_cases hage : w₁.clock.since s.builtAt < w₁.cache.ttl
        · -- the build that is published is the only one of its org in the log
          have hbuilt : s.builtAt = w.clock := (build_builtAt hb).1 rfl
          rw [keep, if_pos hage, if_pos hage]
          refine hbegun.publish (fun _ => ?_) (fun _ => by simp) fun t ht => ?_
          · rw [build_org hb]
            rfl
          · cases ht
            refine ⟨hbuilt ▸ Moment.le_refl _, hbuilt ▸ hbegun.clock, fun t' ht' => ?_⟩
            rcases List.mem_cons.1 ht' with ht' | ht'
            · cases ht'
            · obtain ⟨p, u, hu, ht'⟩ := mem_readLog ht'
              exact (hl p u hu).2 rfl t' ht'
        · rw [keep, if_neg hage, if_neg hage, List.append_nil]
          exact hbegun

theorem refresh_passes
    (hl : ∀ p u, w.Loading src o m p u → Passes org u (during p) (src.load p o u).2 ∧
      (u.cache.building.contains org → ∀ t, .published org t ∉ during p) ∧
      Settles u (src.load p o u).2) :
    Passes org w (w.refreshLog src o m during) (w.refresh src o m).2 := by
  unfold refresh refreshLog
  cases hfresh : w.fresh? o with
  | none =>
    by_cases hfree : w.cache.building.contains o = false
    · refine buildFull_passes hfresh fun p u hu => ?_
      obtain ⟨hpasses, hbusy, -⟩ := hl p u (.anew hfresh hfree hu)
      refine ⟨hpasses, fun ho => hbusy ?_⟩
      rw [hu.kept .refl .trans fun q v hv => (hl q v (.anew hfresh hfree hv)).2.2, ho]
      simp [setBuilding]
    · simp only [buildFull, buildFullLog, if_pos (eq_true_of_ne_false hfree)]
      exact .of_entries (Moment.le_refl _) rfl rfl
  | some prev =>
    by_cases hm : m = .empty
    · simp only [if_pos hm]
      exact .of_entries (Moment.le_refl _) rfl rfl
    · simp only [if_neg hm]
      have hbuild := build_passes (some prev) fun p u hu => (hl p u (.again hfresh hm hu)).1
      cases hb : build src o (some prev) m w with
      | mk r w₁ =>
        rw [hb] at hbuild
        cases r with
        | error e =>
          simp only [List.append_nil]
          exact hbuild
        | ok s =>
          refine hbuild.publish (fun _ => ?_) (fun _ => by simp) fun t ht => ?_
          · rw [build_org hb]
            rfl
          · cases ht

/-- What is published in the course of a refresh is published during a load, unless no full build of
its org is under way. -/
theorem published_of_refreshLog {t : Instant} (h : .published org t ∈ w.refreshLog src o m during) :
    (∃ p u, w.Loading src o m p u ∧ .published org t ∈ during p) ∨
      (o = org ∧ w.cache.building.contains org = false) := by
  unfold refreshLog at h
  split at h
  · rename_i hnone
    unfold buildFullLog at h
    split at h
    · cases h
    · rename_i hfree
      have hfree : w.cache.building.contains o = false := by simpa using hfree
      simp only [List.mem_cons, reduceCtorEq, false_or, List.mem_append] at h
      rcases h with h | h
      · obtain ⟨p, u, hu, he⟩ := mem_readLog h
        exact .inl ⟨p, u, .anew hnone hfree hu, he⟩
      · split at h
        · cases h
        · split at h
          · cases List.mem_singleton.1 h
            exact .inr ⟨rfl, hfree⟩
          · cases h
  · rename_i prev hprev
    split at h
    · cases h
    · rename_i hm
      rcases List.mem_append.1 h with h | h
      · obtain ⟨p, u, hu, he⟩ := mem_readLog h
        exact .inl ⟨p, u, .again hprev hm hu, he⟩
      · split at h
        · cases h
        · cases List.mem_singleton.1 h

/-- A full build that is under way is so while categories are loaded. -/
theorem Loading.busy {p : Part} {u : World δ} (h : w.Loading src o m p u)
    (hl : ∀ q v, w.Loading src o m q v → Settles v (src.load q o v).2)
    (hbusy : w.cache.building.contains org) : u.cache.building.contains org := by
  cases h with
  | anew hnone hfree h =>
    have hu := h.kept .refl .trans fun q v hv => hl q v (.anew hnone hfree hv)
    rw [hu, setBuilding, List.contains_cons, hbusy, Bool.or_true]
  | again hprev hm h =>
    have hu := h.kept .refl .trans fun q v hv => hl q v (.again hprev hm hv)
    rw [hu, hbusy]

theorem flow_cache (src : Sources δ) {s : Snapshot} {ref : FlowRef}
    (hnone : (w.shelfOf s).find? ref = none) :
    ∃ shelves, (w.flow src s ref).2 = { (src.loadFlow s.org ref w).2 with
      cache := { (src.loadFlow s.org ref w).2.cache with shelves } } := by
  rcases flow_of_miss src hnone with ⟨e, hflow⟩ | ⟨f, -, hflow⟩
  · rw [hflow]
    exact ⟨_, rfl⟩
  · rw [hflow]
    exact ⟨_, rfl⟩

end World

variable {src : Sources δ} {w w' : World δ}

open World

theorem Logged.settles (h : Logged src w log w') : Settles w w' := by
  induction h with
  | refl w => exact .refl w
  | trans _ _ ih ih' => exact ih.trans ih'
  | elsewhere hcache _ => exact congrArg Cache.building hcache
  | refresh org m w during _ ih => exact refresh_settles ih
  | flush w => exact .refl w
  | hit s ref w hfound =>
    rw [flow_of_hit hfound]
    exact .refl w
  | miss s ref w hnone _ ih =>
    obtain ⟨shelves, hflow⟩ := flow_cache src hnone
    rw [hflow]
    exact ih

/-- While a full build of the org is under way, none of it is published in the course of another
operation. -/
theorem Logged.not_published (h : Logged src w log w') (hbusy : w.cache.building.contains org) :
    ∀ t, .published org t ∉ log := by
  induction h with
  | refl w => simp
  | trans h _ ih ih' =>
    intro t ht
    rcases List.mem_append.1 ht with ht | ht
    · exact ih hbusy t ht
    · exact ih' (by rw [h.settles]; exact hbusy) t ht
  | elsewhere _ _ => simp
  | refresh o m w during hloads ih =>
    intro t ht
    rcases published_of_refreshLog ht with ⟨p, u, hu, ht⟩ | ⟨-, hfree⟩
    · exact ih p u hu (hu.busy (fun q v hv => (hloads q v hv).settles) hbusy) t ht
    · rw [hfree] at hbusy
      cases hbusy
  | flush w => simp
  | hit => simp
  | miss s ref w hnone _ ih => exact ih hbusy

theorem Logged.passes (h : Logged src w log w') (org : OrgId) : Passes org w log w' := by
  induction h with
  | refl w => exact .of_entries (Moment.le_refl _) rfl rfl
  | trans _ _ ih ih' => exact ih.trans ih'
  | elsewhere hcache hclock => exact .of_entries hclock (by rw [hcache]) (by rw [hcache])
  | refresh o m w during hloads ih =>
    exact refresh_passes fun p u hu =>
      ⟨ih p u hu, (hloads p u hu).not_published, (hloads p u hu).settles⟩
  | flush w =>
    exact ⟨Moment.le_refl _, rfl, rfl, ⟨by simp, trivial⟩, by simp, List.pairwise_singleton _ _⟩
  | hit s ref w hfound =>
    rw [flow_of_hit hfound]
    exact .of_entries (Moment.le_refl _) rfl rfl
  | @miss s ref w log hnone _ ih =>
    obtain ⟨shelves, hflow⟩ := flow_cache src hnone
    rw [hflow, ← List.append_nil log]
    exact ih.trans (.of_entries (Moment.le_refl _) rfl rfl)

/-! ## Full builds one after the other -/

/-- Outside leap seconds, an age that has reached a span means that the span is over. -/
theorem Moment.plus_le_of_le_since {b t now : Moment} {d : Span} (hb : b.nanos < 1000000000)
    (ht : t.nanos < 1000000000) (hnow : now.nanos < 1000000000) (hle : b ≤ t)
    (hage : d ≤ now.since t) : b.plus d ≤ now := by
  have hn : now.seconds = now.day * 86400 + now.secondOfDay := by
    unfold day secondOfDay
    omega
  have hs : t.seconds = t.day * 86400 + t.secondOfDay := by
    unfold day secondOfDay
    omega
  rw [plus_of_not_leap hb, le_def]
  rw [le_def] at hle
  simp only [since, Span.ofSeconds] at hage
  unfold Span at *
  simp only [ofNanos, toNanos]
  split at hage
  · omega
  · split at hage <;> omega

/-- After a full build of an org that began at `b` has been published, another one begins only when
a snapshot of `b` or later has reached the time to live, if no entries are dropped in between and no
refresh that started from an older snapshot ends in between. Outside leap seconds, that is not
before the time to live is over. -/
theorem Logged.rebuilt_only_after_ttl {start w : World δ} {ttl : Span} {log : List Happening}
    (h : Logged src start log w) (hstart : start.cache = { ttl }) {org : OrgId} {b now : Instant}
    {before between rest : List Happening}
    (hlog : log = before ++ .published org b :: (between ++ .begun org now :: rest))
    (hflush : .flushed ∉ between) (hrenewed : ∀ t, .renewed org t ∈ between → b ≤ t) :
    ∃ t, keptAfter org between (some b) = some t ∧ b ≤ t ∧ ttl ≤ now.since t ∧
      (b.nanos < 1000000000 → t.nanos < 1000000000 → now.nanos < 1000000000 →
        b.plus ttl ≤ now) := by
  obtain ⟨-, -, -, htimely, -, hinTurn⟩ := h.passes org
  subst hlog
  have hkept : (keptAfter org between (some b)).isSome := keptAfter_isSome rfl hflush
  obtain ⟨t, ht⟩ := Option.isSome_iff_exists.1 hkept
  have hle : b ≤ t := by
    rcases keptAfter_eq_some ht with hb | hmem | hmem
    · cases hb
      exact Moment.le_refl _
    · have hlater := (List.pairwise_cons.1 (List.pairwise_append.1 hinTurn).2.1).1
      exact hlater _ (List.mem_append_left _ hmem) b t rfl rfl
    · exact hrenewed t hmem
  have hage : ttl ≤ now.since t := by
    rw [timely_append, Timely, timely_append, Timely] at htimely
    obtain ⟨-, -, -, hbegun, -⟩ := htimely
    have httl : start.cache.ttl = ttl := by rw [hstart]
    refine httl ▸ hbegun now rfl t ?_
    simp only [Happening.after, if_pos]
    exact ht
  exact ⟨t, ht, hle, hage, fun hb ht hnow => Moment.plus_le_of_le_since hb ht hnow hle hage⟩

section

open Sample

/-- Orgs have no assets, and loading does nothing. -/
def Sample.quiet : Sources Bool where
  load p _ w := (.ok p.nothing, w)
  loadFlow _ _ w := (.ok none, w)

/-- While the channels are loaded, six seconds pass and the snapshot is got, if the world says so. -/
def Sample.interrupted : Sources Bool where
  load p org w :=
    (.ok p.nothing,
      if p = .channels ∧ w.rest = true then
        (World.get quiet org { w with clock := w.clock.shift 6, rest := false }).2
      else w)
  loadFlow _ _ w := (.ok none, w)

theorem Sample.interrupted_load {w : World Bool} (h : w.rest = false) (p : Part) (org : OrgId) :
    interrupted.load p org w = (.ok p.nothing, w) := by
  simp [interrupted, h]

/-- Sources that do nothing read the same. -/
theorem Sample.refresh_interrupted {w : World Bool} (h : w.rest = false) (org : OrgId) (m : Mask) :
    w.refresh interrupted org m = w.refresh quiet org m := by
  have hread (ps : List Part) {w : World Bool} (h : w.rest = false) :
      World.readParts interrupted org ps w = World.readParts quiet org ps w := by
    induction ps with
    | nil => rfl
    | cons p ps ih =>
      simp only [World.readParts, World.readPart, interrupted_load h, quiet] at ih ⊢
      rw [ih]
  have hbuild (prev : Option Snapshot) (m : Mask) {w : World Bool} (h : w.rest = false) :
      World.build interrupted org prev m w = World.build quiet org prev m w := by
    simp only [World.build, hread _ h]
  have hfull : World.buildFull interrupted org w = World.buildFull quiet org w := by
    simp only [World.buildFull]
    rw [hbuild none .full (w := w.setBuilding (org :: w.cache.building)) h]
  simp only [World.refresh, hfull, hbuild _ m h]

theorem Sample.loads_interrupted {w u : World Bool} {org : OrgId} {ps : List Part} {p : Part}
    (hu : World.Loads interrupted org ps w p u) (h : w.rest = false) : u = w := by
  induction hu with
  | here => rfl
  | there hload _ ih =>
    rw [interrupted_load h] at hload
    cases hload
    exact ih h

theorem Sample.loading_interrupted {w u : World Bool} {org : OrgId} {m : Mask} {p : Part}
    (hu : w.Loading interrupted org m p u) (h : w.rest = false) : u.rest = false := by
  cases hu with
  | anew hnone hfree hu =>
    rw [loads_interrupted hu h]
    exact h
  | again hprev hm hu =>
    rw [loads_interrupted hu h]
    exact h

/-- Nothing happens during the loads of a refresh. -/
theorem Sample.logged_quietly {w : World Bool} (h : w.rest = false) (org : OrgId) (m : Mask) :
    Logged interrupted w (w.refreshLog interrupted org m fun _ => [])
      (w.refresh interrupted org m).2 := by
  refine .refresh org m w _ fun p u hu => ?_
  rw [interrupted_load (loading_interrupted hu h)]
  exact .refl u

theorem Sample.interrupted_load_channels {w : World Bool} (h : w.rest = true) (org : OrgId) :
    (interrupted.load .channels org w).2 =
      (World.refresh interrupted org .empty
        { w with clock := w.clock.shift 6, rest := false }).2 := by
  rw [refresh_interrupted rfl, ← World.get_eq_refresh]
  simp only [interrupted, h, and_self, if_true]

/-- A refresh of the channels of a snapshot that is served loads nothing else. -/
theorem Sample.loading_channels {src : Sources δ} {w u : World δ} {org : OrgId} {p : Part}
    (hserved : (w.fresh? org).isSome) (h : w.Loading src org (.of (.part .channels)) p u) :
    p = .channels ∧ u = w := by
  cases h with
  | anew hnone => simp [hnone] at hserved
  | @again prev _ _ h =>
    have honly : World.partsToRead (some prev) (.of (.part .channels)) = [.channels] := by
      simp [World.partsToRead, Part.all, Mask.reloads_of]
    rw [honly] at h
    cases h with
    | here => exact ⟨rfl, rfl⟩
    | there _ h => cases h

/-- Snapshots are served for five seconds, and none has been built. -/
def Sample.early : World Bool :=
  { clock := midnight, cache := { ttl := Span.ofSeconds 5 }, rest := false }

/-- The snapshot of the first org has been got at midnight. -/
def Sample.served : World Bool := (early.refresh interrupted 1 .empty).2

theorem Sample.logged_served :
    Logged interrupted early [.begun 1 midnight, .published 1 midnight] served := by
  have hlog : early.refreshLog interrupted 1 .empty (fun _ => []) =
      [.begun 1 midnight, .published 1 midnight] := by
    decide +kernel
  exact hlog ▸ logged_quietly rfl 1 .empty

/-- Two seconds later the channels have been read anew. -/
def Sample.refreshed : World Bool :=
  (World.refresh interrupted 1 (.of (.part .channels))
    { served with clock := midnight.shift 2 }).2

/-- The refresh leaves the age alone: five seconds after it was first built, the snapshot is built
again. -/
theorem Logged.rebuilt_after_five_seconds :
    let late : World Bool := { refreshed with clock := midnight.shift 5 }
    Logged interrupted early
      ([.begun 1 midnight] ++ .published 1 midnight ::
        ([.renewed 1 midnight] ++ .begun 1 (midnight.shift 5) :: [.published 1 (midnight.shift 5)]))
      (late.refresh interrupted 1 .empty).2 ∧
    midnight.plus (Span.ofSeconds 5) ≤ midnight.shift 5 := by
  intro late
  let waiting : World Bool := { served with clock := midnight.shift 2 }
  have hwait : Logged interrupted served [] waiting := .elsewhere rfl (by decide +kernel)
  have hrefresh : Logged interrupted waiting [.renewed 1 midnight] refreshed := by
    have hlog : waiting.refreshLog interrupted 1 (.of (.part .channels)) (fun _ => []) =
        [.renewed 1 midnight] := by
      decide +kernel
    exact hlog ▸ logged_quietly (by decide +kernel) 1 _
  have hlate : Logged interrupted refreshed [] late := .elsewhere rfl (by decide +kernel)
  have hrebuild : Logged interrupted late
      [.begun 1 (midnight.shift 5), .published 1 (midnight.shift 5)]
      (late.refresh interrupted 1 .empty).2 := by
    have hlog : late.refreshLog interrupted 1 .empty (fun _ => []) =
        [.begun 1 (midnight.shift 5), .published 1 (midnight.shift 5)] := by
      decide +kernel
    exact hlog ▸ logged_quietly (by decide +kernel) 1 .empty
  have hrun := logged_served.trans (hwait.trans (hrefresh.trans (hlate.trans hrebuild)))
  refine ⟨hrun, ?_⟩
  obtain ⟨t, ht, -, -, hplus⟩ := hrun.rebuilt_only_after_ttl rfl
    (show _ = [Happening.begun 1 midnight] ++ .published 1 midnight ::
      ([.renewed 1 midnight] ++ .begun 1 (midnight.shift 5) :: [.published 1 (midnight.shift 5)])
      from rfl)
    (by decide) (by simp [Moment.le_refl])
  have hsame : t = midnight := (Option.some.inj ht).symm
  exact hplus (by decide) (by rw [hsame]; decide) (by decide)

/-- A refresh during which the snapshot expires and is built again publishes the older one over it,
so that the next one who asks builds a third one at once. -/
theorem rebuilt_within_ttl :
    let busy : World Bool := { served with rest := true }
    let renewed := (busy.refresh interrupted 1 (.of (.part .channels))).2
    let later := midnight.shift 6
    Logged interrupted early
      ([.begun 1 midnight, .published 1 midnight, .begun 1 later] ++ .published 1 later ::
        ([.renewed 1 midnight] ++ .begun 1 later :: [.published 1 later]))
      (renewed.refresh interrupted 1 .empty).2 ∧
    later < later.plus early.cache.ttl := by
  intro busy renewed later
  have hbusy : Logged interrupted served [] busy := .elsewhere rfl (Moment.le_refl _)
  have hrefresh : Logged interrupted busy
      [.begun 1 later, .published 1 later, .renewed 1 midnight] renewed := by
    let during (p : Part) : List Happening :=
      if p = .channels then [.begun 1 later, .published 1 later] else []
    have hlog : busy.refreshLog interrupted 1 (.of (.part .channels)) during =
        [.begun 1 later, .published 1 later, .renewed 1 midnight] := by
      decide +kernel
    refine hlog ▸ .refresh 1 _ busy during fun p u hu => ?_
    obtain ⟨rfl, rfl⟩ := loading_channels (by decide +kernel) hu
    let expired : World Bool := { busy with clock := busy.clock.shift 6, rest := false }
    have hinner : expired.refreshLog interrupted 1 .empty (fun _ => []) =
        [.begun 1 later, .published 1 later] := by
      decide +kernel
    have hbuild : Logged interrupted expired [.begun 1 later, .published 1 later]
        (expired.refresh interrupted 1 .empty).2 := hinner ▸ logged_quietly rfl 1 .empty
    have hpass : Logged interrupted busy [] expired := .elsewhere rfl (by decide +kernel)
    rw [interrupted_load_channels rfl]
    exact hpass.trans hbuild
  have hagain : Logged interrupted renewed [.begun 1 later, .published 1 later]
      (renewed.refresh interrupted 1 .empty).2 := by
    have hlog : renewed.refreshLog interrupted 1 .empty (fun _ => []) =
        [.begun 1 later, .published 1 later] := by
      decide +kernel
    exact hlog ▸ logged_quietly (by decide +kernel) 1 .empty
  exact ⟨logged_served.trans (hbusy.trans (hrefresh.trans hagain)), by decide +kernel⟩

end

end Outreach
