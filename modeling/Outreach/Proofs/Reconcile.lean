import Outreach.Proofs.Campaign.FireTime
import Outreach.Proofs.Contacts
import Outreach.Proofs.Fire.Store
import Outreach.Reconcile

/-!
# Outreach.Proofs.Reconcile

What computing fires anew comes to, in terms of what is stored.

* `Database.Due` — an event is due for a contact, past or not; `Database.FiresAt` — and that is
  later than now.
* `Database.Picks` — of the events of one number, the first that is due later than now.
-/

namespace Outreach
namespace Database

variable {db : Database} {org : OrgId} {z : Zone} {now : Instant}

/-- By what is stored the event is due for the contact at `t`, whether or not that is over. -/
def Due (db : Database) (org : OrgId) (z : Zone) (ev : Event) (x : ContactId) (t : Instant) :
    Prop :=
  ∃ home, ev.home = some home ∧ ⟨home.group, x⟩ ∈ db.members ∧
    ∃ start, db.Starts org ev.spec.relativeTo x start ∧ ev.spec.dueTime z start = .ok t

/-- By what is stored the event fires for the contact at `t`: an active contact of the org is in
the group of the event's campaign and has the date that the event counts from, which leads to a
fire at `t`. -/
def FiresAt (db : Database) (org : OrgId) (z : Zone) (now : Instant) (ev : Event) (x : ContactId)
    (t : Instant) : Prop :=
  ∃ home, ev.home = some home ∧ ⟨home.group, x⟩ ∈ db.members ∧
    ∃ start, db.Starts org ev.spec.relativeTo x start ∧
      ev.spec.fireTime z now start = .ok (some t)

theorem firesAt_iff {ev : Event} {x : ContactId} {t : Instant} :
    db.FiresAt org z now ev x t ↔ db.Due org z ev x t ∧ now < t := by
  unfold FiresAt Due
  simp only [EventSpec.fireTime_eq_some_iff]
  constructor
  · rintro ⟨home, hhome, hmember, start, hstart, hdue, hnow⟩
    exact ⟨⟨home, hhome, hmember, start, hstart, hdue⟩, hnow⟩
  · rintro ⟨⟨home, hhome, hmember, start, hstart, hdue⟩, hnow⟩
    exact ⟨home, hhome, hmember, start, hstart, hdue, hnow⟩

/-- Of the events with number `e`, the first that is due for the contact later than now is due
at `t`. -/
inductive Picks (db : Database) (org : OrgId) (z : Zone) (now : Instant) (e : EventId)
    (x : ContactId) : List Event → Instant → Prop where
  | here {ev : Event} {evs : List Event} {t : Instant} (hid : ev.id = e)
      (hdue : db.Due org z ev x t) (hnow : now < t) : Picks db org z now e x (ev :: evs) t
  | there {ev : Event} {evs : List Event} {t : Instant}
      (hnot : ev.id = e → ∀ u, db.Due org z ev x u → ¬ now < u)
      (h : Picks db org z now e x evs t) : Picks db org z now e x (ev :: evs) t

theorem Keyed.due_unique (hk : db.Keyed) {ev : Event} {x : ContactId} {s t : Instant}
    (hs : db.Due org z ev x s) (ht : db.Due org z ev x t) : s = t := by
  obtain ⟨-, -, -, start, hstart, hs⟩ := hs
  obtain ⟨-, -, -, start', hstart', ht⟩ := ht
  obtain rfl := hk.starts_unique hstart hstart'
  exact Except.ok.inj (hs.symm.trans ht)

theorem Keyed.picks_unique (hk : db.Keyed) {e : EventId} {x : ContactId} {evs : List Event}
    {s t : Instant} (hs : db.Picks org z now e x evs s) (ht : db.Picks org z now e x evs t) :
    s = t := by
  induction hs with
  | here hid hdue hnow =>
    cases ht with
    | here _ hdue' _ => exact hk.due_unique hdue hdue'
    | there hnot _ => exact absurd hnow (hnot hid _ hdue)
  | there hnot _ ih =>
    cases ht with
    | here hid hdue hnow => exact absurd hnow (hnot hid _ hdue)
    | there _ ht => exact ih ht

/-- What is picked is an event of the list that is due. -/
theorem Picks.exists_due {e : EventId} {x : ContactId} {evs : List Event} {t : Instant}
    (h : db.Picks org z now e x evs t) :
    ∃ ev ∈ evs, ev.id = e ∧ db.Due org z ev x t ∧ now < t := by
  induction h with
  | here hid hdue hnow => exact ⟨_, List.mem_cons_self, hid, hdue, hnow⟩
  | there _ _ ih =>
    obtain ⟨ev, hev, h⟩ := ih
    exact ⟨ev, List.mem_cons_of_mem _ hev, h⟩

/-- Among events of different numbers, the one that is due is picked. -/
theorem picks_iff {evs : List Event} (hids : (evs.map Event.id).Nodup) {e : EventId}
    {x : ContactId} {t : Instant} :
    db.Picks org z now e x evs t ↔
      ∃ ev ∈ evs, ev.id = e ∧ db.Due org z ev x t ∧ now < t := by
  refine ⟨Picks.exists_due, ?_⟩
  rintro ⟨ev, hev, hid, hdue, hnow⟩
  induction evs with
  | nil => cases hev
  | cons ev' evs ih =>
    simp only [List.map_cons, List.nodup_cons] at hids
    rcases List.mem_cons.1 hev with rfl | hev
    · exact .here hid hdue hnow
    · refine .there (fun hid' => ?_) (ih hids.2 hev)
      exact absurd (List.mem_map.2 ⟨ev, hev, hid.trans hid'.symm⟩) hids.1

theorem picks_iff_firesAt {evs : List Event} (hids : (evs.map Event.id).Nodup) {ev : Event}
    (hev : ev ∈ evs) {x : ContactId} {t : Instant} :
    db.Picks org z now ev.id x evs t ↔ db.FiresAt org z now ev x t := by
  rw [picks_iff hids, firesAt_iff]
  constructor
  · rintro ⟨ev', hev', hid, h⟩
    obtain rfl := List.inj_on_of_nodup_map hids hev' hev hid
    exact h
  · exact fun h => ⟨ev, hev, rfl, h⟩

/-- Events are due at whole seconds. -/
theorem Due.nanos {ev : Event} {x : ContactId} {t : Instant} (h : db.Due org z ev x t) :
    t.nanos = 0 := by
  obtain ⟨-, -, -, start, -, hdue⟩ := h
  exact EventSpec.nanos_dueTime hdue

theorem Due.exists_contact {ev : Event} {x : ContactId} {t : Instant}
    (h : db.Due org z ev x t) : ∃ r ∈ db.contacts, isActive org r = true ∧ r.id = x := by
  obtain ⟨-, -, -, -, ⟨r, hr, hid, hactive, -⟩, -⟩ := h
  exact ⟨r, hr, hactive, hid⟩

/-! ## Fires of contacts -/

theorem fireFor_eq_some_iff (hk : db.Keyed) {c : Contact} (hc : db.Shows org c) (ev : Event)
    (t : Instant) :
    ev.fireFor z now c = .ok (some t) ↔ db.Due org z ev c.id t ∧ now < t := by
  have hstarts := hc.starts_iff hk ev.spec.relativeTo
  obtain ⟨-, -, -, -, hgroup, -⟩ := hc
  unfold Event.fireFor Due
  cases ev.home with
  | none => simp
  | some home =>
    simp only [Option.some.injEq, exists_eq_left', hstarts, ← hgroup]
    cases c.inGroup home.group with
    | false => simp
    | true =>
      cases c.reference? ev.spec.relativeTo with
      | none => simp
      | some start => simp [EventSpec.fireTime_eq_some_iff]

theorem firesOf_cons {c : Contact} {ev : Event} {evs : List Event} {fs : List NewFire}
    (h : firesOf z now c (ev :: evs) = .ok fs) :
    ∃ fire rest, ev.fireFor z now c = .ok fire ∧ firesOf z now c evs = .ok rest ∧
      fs = fire.toList.map (NewFire.mk ev.id c.id) ++ rest := by
  unfold firesOf at h
  split at h
  · cases h
  · rename_i fire hfire
    split at h
    · cases h
    · rename_i rest hrest
      refine ⟨fire, rest, hfire, hrest, ?_⟩
      cases fire <;> (cases h; rfl)

theorem firesOf_pairs {c : Contact} {evs : List Event} {fs : List NewFire}
    (h : firesOf z now c evs = .ok fs) :
    ∀ f ∈ fs, f.contact = c.id ∧ f.event ∈ evs.map Event.id := by
  induction evs generalizing fs with
  | nil => cases h; simp
  | cons ev evs ih =>
    obtain ⟨fire, rest, -, hrest, rfl⟩ := firesOf_cons h
    intro f hf
    rcases List.mem_append.1 hf with hf | hf
    · obtain ⟨t, -, rfl⟩ := List.mem_map.1 hf
      exact ⟨rfl, List.mem_cons_self⟩
    · obtain ⟨hx, he⟩ := ih hrest f hf
      exact ⟨hx, List.mem_cons_of_mem _ he⟩

/-- Of the fires of a pair the first counts, be it the one put in front. -/
theorem find?_fire_append (fire : Option Instant) (fs : List NewFire) (i e : EventId)
    (c x : ContactId) (t : Instant) :
    (∃ f, (fire.toList.map (NewFire.mk i c) ++ fs).find? (ofPair e x) = some f ∧
        f.scheduled = t) ↔
      if (i = e ∧ c = x) ∧ fire ≠ none then fire = some t
      else ∃ f, fs.find? (ofPair e x) = some f ∧ f.scheduled = t := by
  cases fire with
  | none => simp
  | some u =>
    by_cases hpair : ofPair e x ⟨i, c, u⟩ = true
    · obtain ⟨rfl, rfl⟩ := ofPair_iff.1 hpair
      simp [ofPair]
    · have hic : ¬ (i = e ∧ c = x) := fun h => hpair (ofPair_iff.2 h)
      simp [hpair, hic]

/-- What is picked is the fire of the first event, if it has this number and a fire at all. -/
theorem Keyed.picks_cons (hk : db.Keyed) {ev : Event} {x : ContactId} {fire : Option Instant}
    (hfire : ∀ u, fire = some u ↔ db.Due org z ev x u ∧ now < u) (evs : List Event) (e : EventId)
    (t : Instant) :
    db.Picks org z now e x (ev :: evs) t ↔
      if ev.id = e ∧ fire ≠ none then fire = some t else db.Picks org z now e x evs t := by
  split
  · rename_i h
    obtain ⟨hid, hsome⟩ := h
    obtain ⟨u, rfl⟩ := Option.ne_none_iff_exists'.1 hsome
    obtain ⟨hdue, hnow⟩ := (hfire u).1 rfl
    constructor
    · exact fun hp => congrArg some (hk.picks_unique (.here hid hdue hnow) hp)
    · rintro ⟨⟩
      exact .here hid hdue hnow
  · rename_i h
    have hnot : ev.id = e → ∀ u, db.Due org z ev x u → ¬ now < u := by
      intro hid u hdue hnow
      refine h ⟨hid, ?_⟩
      rw [(hfire u).2 ⟨hdue, hnow⟩]
      exact Option.some_ne_none u
    constructor
    · intro hp
      cases hp with
      | here hid hdue hnow => exact absurd hnow (hnot hid _ hdue)
      | there _ hp => exact hp
    · exact .there hnot

theorem find?_firesOf (hk : db.Keyed) {c : Contact} (hc : db.Shows org c) {evs : List Event}
    {fs : List NewFire} (h : firesOf z now c evs = .ok fs) (e : EventId) (t : Instant) :
    (∃ f, fs.find? (ofPair e c.id) = some f ∧ f.scheduled = t) ↔
      db.Picks org z now e c.id evs t := by
  induction evs generalizing fs with
  | nil =>
    cases h
    simp only [List.find?_nil, reduceCtorEq, false_and, exists_false, false_iff]
    exact fun h => by cases h
  | cons ev evs ih =>
    obtain ⟨fire, rest, hfire, hrest, rfl⟩ := firesOf_cons h
    have hdue (u : Instant) : fire = some u ↔ db.Due org z ev c.id u ∧ now < u := by
      rw [← fireFor_eq_some_iff hk hc, hfire, Except.ok.injEq]
    rw [find?_fire_append, hk.picks_cons hdue, ih hrest]
    simp only [and_true]

theorem firesOfAll_pairs {evs : List Event} {cs : List Contact} {fs : List NewFire}
    (h : firesOfAll z now evs cs = .ok fs) :
    ∀ f ∈ fs, (∃ c ∈ cs, f.contact = c.id) ∧ f.event ∈ evs.map Event.id := by
  induction cs generalizing fs with
  | nil => cases h; simp
  | cons c cs ih =>
    unfold firesOfAll at h
    split at h
    · cases h
    · rename_i fires hfires
      split at h
      · cases h
      · rename_i more hmore
        cases h
        intro f hf
        rcases List.mem_append.1 hf with hf | hf
        · obtain ⟨hx, he⟩ := firesOf_pairs hfires f hf
          exact ⟨⟨c, List.mem_cons_self, hx⟩, he⟩
        · obtain ⟨⟨c', hc', hx⟩, he⟩ := ih hmore f hf
          exact ⟨⟨c', List.mem_cons_of_mem _ hc', hx⟩, he⟩

theorem find?_firesOfAll (hk : db.Keyed) {evs : List Event} {cs : List Contact}
    (hcs : ∀ c ∈ cs, db.Shows org c) {fs : List NewFire}
    (h : firesOfAll z now evs cs = .ok fs) (e : EventId) (x : ContactId) (t : Instant) :
    (∃ f, fs.find? (ofPair e x) = some f ∧ f.scheduled = t) ↔
      (∃ c ∈ cs, c.id = x) ∧ db.Picks org z now e x evs t := by
  induction cs generalizing fs with
  | nil => cases h; simp
  | cons c cs ih =>
    unfold firesOfAll at h
    split at h
    · cases h
    · rename_i fires hfires
      split at h
      · cases h
      · rename_i more hmore
        cases h
        have hrest := ih (fun c hc => hcs c (List.mem_cons_of_mem _ hc)) hmore
        have hfirst := find?_firesOf hk (hcs c List.mem_cons_self) hfires e
        rw [List.find?_append]
        cases hf : fires.find? (ofPair e x) with
        | some f =>
          obtain rfl : c.id = x := by
            rw [← (firesOf_pairs hfires f (List.mem_of_find?_eq_some hf)).1]
            exact (ofPair_iff.1 (List.find?_some hf)).2
          have hpicks := (hfirst f.scheduled).1 ⟨f, hf, rfl⟩
          simp only [Option.some_or, Option.some.injEq, exists_eq_left']
          constructor
          · rintro rfl
            exact ⟨⟨c, List.mem_cons_self, rfl⟩, hpicks⟩
          · exact fun h => hk.picks_unique hpicks h.2
        | none =>
          rw [Option.none_or, hrest]
          refine and_congr_left fun hp => ?_
          constructor
          · rintro ⟨c', hc', hx⟩
            exact ⟨c', List.mem_cons_of_mem _ hc', hx⟩
          · rintro ⟨c', hc', rfl⟩
            rcases List.mem_cons.1 hc' with rfl | hc'
            · obtain ⟨f, hf', -⟩ := (hfirst t).2 hp
              rw [hf] at hf'
              cases hf'
            · exact ⟨c', hc', rfl⟩

/-! ## Fires of members -/

theorem firesOfMembers_cons {s : EventSpec} {c : ContactId} {start : Instant}
    {ms : List (ContactId × Option Instant)} {fs : List NewFire}
    (h : firesOfMembers z now s ((c, some start) :: ms) = .ok fs) :
    ∃ fire rest, s.fireTime z now start = .ok fire ∧ firesOfMembers z now s ms = .ok rest ∧
      fs = fire.toList.map (NewFire.mk s.id c) ++ rest := by
  unfold firesOfMembers at h
  split at h
  · cases h
  · rename_i fire hfire
    split at h
    · cases h
    · rename_i rest hrest
      refine ⟨fire, rest, hfire, hrest, ?_⟩
      cases fire <;> (cases h; rfl)

theorem firesOfMembers_pairs {s : EventSpec} {ms : List (ContactId × Option Instant)}
    {fs : List NewFire} (h : firesOfMembers z now s ms = .ok fs) :
    ∀ f ∈ fs, f.event = s.id := by
  induction ms generalizing fs with
  | nil => cases h; simp
  | cons m ms ih =>
    obtain ⟨c, start⟩ := m
    cases start with
    | none => exact ih h
    | some start =>
      obtain ⟨fire, rest, -, hrest, rfl⟩ := firesOfMembers_cons h
      intro f hf
      rcases List.mem_append.1 hf with hf | hf
      · obtain ⟨t, -, rfl⟩ := List.mem_map.1 hf
        rfl
      · exact ih hrest f hf

theorem exists_member_of_firesOfMembers {s : EventSpec} {ms : List (ContactId × Option Instant)}
    {fs : List NewFire} (h : firesOfMembers z now s ms = .ok fs) :
    ∀ f ∈ fs, ∃ m ∈ ms, f.contact = m.1 := by
  induction ms generalizing fs with
  | nil => cases h; simp
  | cons m ms ih =>
    obtain ⟨c, start⟩ := m
    intro f hf
    cases start with
    | none =>
      obtain ⟨m, hm, hfm⟩ := ih h f hf
      exact ⟨m, List.mem_cons_of_mem _ hm, hfm⟩
    | some start =>
      obtain ⟨fire, rest, -, hrest, rfl⟩ := firesOfMembers_cons h
      rcases List.mem_append.1 hf with hf | hf
      · obtain ⟨t, -, rfl⟩ := List.mem_map.1 hf
        exact ⟨_, List.mem_cons_self, rfl⟩
      · obtain ⟨m, hm, hfm⟩ := ih hrest f hf
        exact ⟨m, List.mem_cons_of_mem _ hm, hfm⟩

theorem picks_of_fireTime (hk : db.Keyed) {s : EventSpec} {home : Home} {x : ContactId}
    {start : Instant} (hmember : ⟨home.group, x⟩ ∈ db.members)
    (hstart : db.Starts org s.relativeTo x start) {fire : Option Instant}
    (hfire : s.fireTime z now start = .ok fire) (e : EventId) (t : Instant) :
    db.Picks org z now e x [⟨s, some home⟩] t ↔ s.id = e ∧ fire = some t := by
  have htime := s.fireTime_eq_some_iff z now start t
  rw [hfire, Except.ok.injEq] at htime
  rw [picks_iff (by simp), htime]
  constructor
  · rintro ⟨ev, hev, hid, ⟨-, -, -, start', hstart', hdue⟩, hnow⟩
    obtain rfl := List.mem_singleton.1 hev
    obtain rfl := hk.starts_unique hstart hstart'
    exact ⟨hid, hdue, hnow⟩
  · rintro ⟨hid, hdue, hnow⟩
    exact ⟨_, List.mem_singleton.2 rfl, hid, ⟨home, rfl, hmember, start, hstart, hdue⟩, hnow⟩

theorem find?_firesOfMembers (hk : db.Keyed) {s : EventSpec} {home : Home}
    {ms : List (ContactId × Option Instant)}
    (hms : ∀ x start, (x, some start) ∈ ms → ⟨home.group, x⟩ ∈ db.members ∧
      db.Starts org s.relativeTo x start)
    {fs : List NewFire} (h : firesOfMembers z now s ms = .ok fs) (e : EventId) (x : ContactId)
    (t : Instant) :
    (∃ f, fs.find? (ofPair e x) = some f ∧ f.scheduled = t) ↔
      (∃ start, (x, some start) ∈ ms) ∧ db.Picks org z now e x [⟨s, some home⟩] t := by
  induction ms generalizing fs with
  | nil => cases h; simp
  | cons m ms ih =>
    obtain ⟨c, start⟩ := m
    have hms' : ∀ x start, (x, some start) ∈ ms → ⟨home.group, x⟩ ∈ db.members ∧
        db.Starts org s.relativeTo x start :=
      fun x start hx => hms x start (List.mem_cons_of_mem _ hx)
    cases start with
    | none =>
      rw [ih hms' h]
      simp
    | some start =>
      obtain ⟨fire, rest, hfire, hrest, rfl⟩ := firesOfMembers_cons h
      obtain ⟨hmember, hstart⟩ := hms c start List.mem_cons_self
      have hpicks := picks_of_fireTime hk hmember hstart hfire e t
      rw [find?_fire_append, ih hms' hrest]
      by_cases hx : c = x
      · subst hx
        have hfirst : ∃ u, (c, some u) ∈ (c, some start) :: ms := ⟨start, List.mem_cons_self⟩
        rw [hpicks]
        split
        · rename_i h
          simp only [hfirst, h.1.1, true_and]
        · rename_i h
          have hnot : ¬ (s.id = e ∧ fire = some t) := by
            rintro ⟨hid, rfl⟩
            exact h ⟨⟨hid, rfl⟩, Option.some_ne_none t⟩
          simp only [hnot, and_false]
      · rw [if_neg fun h => hx h.1.2]
        simp [Ne.symm hx]

end Database
end Outreach
