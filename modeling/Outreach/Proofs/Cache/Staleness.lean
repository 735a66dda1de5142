import Outreach.Proofs.Cache.Use
import Outreach.Proofs.Scheduler

/-!
# Outreach.Proofs.Cache.Staleness

How old the data of a snapshot can be when it is served. All of it was loaded since the time that
the snapshot is of, and that is less than the time to live ago.

* `Moment.plus_neg_lt_of_since_lt` — an age below a span is a time within that span before now, as
  long as the age counts leap seconds.
* `Meets.served_within_ttl` — nothing in a snapshot that is served is older than the time to live.
* `leap_second_outlasts_ttl` — a leap second at midnight that is not counted.
-/

namespace Outreach

namespace Moment

/-- The span from `s` to `t` counts the leap seconds at its ends: one at `t` unless `t` is at an
earlier time of the day, one at `s` only if `t` is at a later time of the day. -/
structure CountsLeaps (t s : Moment) : Prop where
  last : 1000000000 ≤ t.nanos → s.secondOfDay ≤ t.secondOfDay
  first : 1000000000 ≤ s.nanos → s.secondOfDay < t.secondOfDay ∧ s.nanos < 2000000000

theorem countsLeaps_of_none {t s : Moment} (ht : t.nanos < 1000000000)
    (hs : s.nanos < 1000000000) : t.CountsLeaps s :=
  ⟨fun h => absurd ht (Nat.not_lt.2 h), fun h => absurd hs (Nat.not_lt.2 h)⟩

theorem le_shift (t : Moment) {n : Int} (h : 0 ≤ n) : t ≤ t.shift n := by
  rw [le_def]
  simp only [shift]
  omega

theorem ofNanos_lt {n : Int} {s : Moment}
    (h : n < s.seconds * 1000000000 + min s.nanos 1000000000) : ofNanos n < s := by
  rw [lt_def]
  simp only [ofNanos]
  omega

theorem plus_neg_lt_of_since_lt {t s : Moment} {d : Span} (hleap : t.CountsLeaps s)
    (h : t.since s < d) : t.plus (-d) < s := by
  obtain ⟨hlast, hfirst⟩ := hleap
  have ht : t.seconds = t.day * 86400 + t.secondOfDay := by
    unfold day secondOfDay
    omega
  have hs : s.seconds = s.day * 86400 + s.secondOfDay := by
    unfold day secondOfDay
    omega
  have hbt := t.secondOfDay_bounds
  have hbs := s.secondOfDay_bounds
  simp only [since, Span.ofSeconds] at h
  unfold Span at *
  unfold plus toNanos
  split
  · apply ofNanos_lt
    split at h <;> omega
  · split
    · apply ofNanos_lt
      split at h <;> omega
    · split
      · apply ofNanos_lt
        split at h <;> omega
      · rename_i hback
        have hd : d < 1000000000 := Int.neg_lt_neg_iff.1 (Int.not_le.1 hback)
        rw [lt_def]
        split at h <;> simp only <;> omega

end Moment

section

variable {δ : Type} {src : Sources δ} {may : Load → OrgId → World δ → Prop} {start w : World δ}

/-- A time since that of the snapshot, and later than now less the time to live. -/
def World.WithinTtl (w : World δ) (s : Snapshot) (t : Instant) : Prop :=
  s.builtAt ≤ t ∧ (w.clock.CountsLeaps s.builtAt → w.clock.plus (-w.cache.ttl) < t)

theorem World.withinTtl_of_fresh? {org : OrgId} {s : Snapshot} (hs : w.fresh? org = some s)
    {t : Instant} (ht : s.builtAt ≤ t) : w.WithinTtl s t := by
  obtain ⟨-, hage⟩ := fresh?_eq_some_iff.1 hs
  refine ⟨ht, fun hleap => ?_⟩
  exact Moment.lt_of_lt_of_le (Moment.plus_neg_lt_of_since_lt hleap hage) ht

/-- At any moment of a run that begins with a new cache: a snapshot that is served as it is has an
age below the time to live, each of its categories was read from what was loaded then, and each of
its flows was loaded, at a time later than now less the time to live. -/
theorem Meets.served_within_ttl {ttl : Span} (hstart : start.cache = { ttl })
    (h : Meets src may start w) {org : OrgId} {s : Snapshot} (hs : w.fresh? org = some s) :
    w.get src org = (.ok s, w) ∧ w.refresh src org .empty = (.ok s, w) ∧
      w.cache.ttl = ttl ∧ w.clock.since s.builtAt < ttl ∧
      (∀ p, ∃ u u' listed, may (.part p) org u ∧ src.load p org u = (.ok listed, u') ∧
        s.content p = p.index listed ∧ (s.parts p).readAt = u.clock ∧ w.WithinTtl s u.clock) ∧
      ∀ ref copy, (w.shelfOf s).find? ref = some copy →
        ∃ ref' u u', may (.flow ref') org u ∧ src.loadFlow org ref' u = (.ok (some copy.flow), u') ∧
          copy.loadedAt = u.clock ∧ w.WithinTtl s u.clock := by
  obtain ⟨hentry, hage⟩ := World.fresh?_eq_some_iff.1 hs
  obtain ⟨horg, hholds⟩ := (h.inOrder hstart).entries org s hentry
  have hget : w.get src org = (.ok s, w) := by
    simp only [World.get, hs]
  have httl : w.cache.ttl = ttl := by
    rw [h.onward.ttl, hstart]
  refine ⟨hget, World.get_eq_refresh src org w ▸ hget, httl, httl ▸ hage, ?_, ?_⟩
  · intro p
    obtain ⟨u, u', listed, hmay, hload, hcontent, hread, hle⟩ := hholds.parts p
    rw [horg] at hmay hload
    exact ⟨u, u', listed, hmay, hload, hcontent, hread, World.withinTtl_of_fresh? hs hle⟩
  · intro ref copy hcopy
    obtain ⟨ref', u, u', hmay, hload, hloaded, hle⟩ := hholds.flows ref copy hcopy
    rw [horg] at hmay hload
    exact ⟨ref', u, u', hmay, hload, hloaded, World.withinTtl_of_fresh? hs hle⟩

end

open Sample

def Sample.survey : Flow := ⟨7, .ofNat 7, "Survey", .survey, .null⟩

/-- Loading the users or a flow takes a second; whoever loads the users drops all entries. -/
def Sample.slowSources : Sources Unit where
  load p _ w :=
    (.ok p.nothing, if p = .users then { w.flush with clock := w.clock.shift 1 } else w)
  loadFlow _ _ w := (.ok (some survey), { w with clock := w.clock.shift 1 })

theorem Sample.slowSources_used {may : Load → OrgId → World Unit → Prop} (p : Part) (org : OrgId) (w : World Unit) :
    Used slowSources may w (slowSources.load p org w).2 := by
  have hclock : w.clock ≤ w.clock.shift 1 := Moment.le_shift _ (by decide)
  by_cases hp : p = .users
  · subst hp
    exact (Used.flush w).trans (.elsewhere rfl hclock)
  · simp only [slowSources, if_neg hp]
    exact .refl w

/-- Nothing is kept yet; the time to live is a minute. -/
def Sample.morning : World Unit :=
  { clock := midnight, cache := { ttl := Span.ofMinutes 1 }, rest := () }

/-- A snapshot has been got. -/
def Sample.visited : World Unit := (morning.get slowSources 1).2

theorem Sample.meets_visited : Meets slowSources (fun _ _ _ => True) morning visited := by
  have hgot : Used slowSources (fun _ _ _ => True) morning visited := by
    rw [visited, World.get_eq_refresh]
    exact .refresh 1 .empty morning (fun _ _ _ => trivial) fun p u _ => slowSources_used p 1 u
  exact .after .here hgot

theorem Sample.flow_slow {w : World Unit} {s : Snapshot} {ref : FlowRef}
    (hmiss : (w.shelfOf s).find? ref = none) :
    (w.flow slowSources s ref).2 =
      { (w.shelve s w.clock survey) with clock := w.clock.shift 1 } := by
  rw [World.flow, hmiss]
  rfl

/-- Half a minute after a snapshot was got, and a flow of it, both are younger than a minute. -/
theorem Meets.served_within_ttl_of_slow :
    ∃ s, visited.fresh? 1 = some s ∧
      let w : World Unit :=
        { (visited.flow slowSources s (.id 7)).2 with clock := midnight.shift 32 }
      w.get slowSources 1 = (.ok s, w) ∧
      (∀ p, w.clock.plus (-Span.ofMinutes 1) < (s.parts p).readAt) ∧
      ∃ copy, (w.shelfOf s).find? (.id 7) = some copy ∧
        w.clock.plus (-Span.ofMinutes 1) < copy.loadedAt := by
  obtain ⟨s, hs⟩ : ∃ s, visited.fresh? 1 = some s := Option.isSome_iff_exists.1 (by decide +kernel)
  have hbuilt : s.builtAt = midnight := by
    have h : (visited.fresh? 1).map Snapshot.builtAt = some midnight := by decide +kernel
    rw [hs] at h
    exact Option.some.inj h
  have hclock : visited.clock = midnight.shift 1 := by decide +kernel
  have hmiss : (visited.shelfOf s).find? (.id 7) = none := by
    have h : visited.cache.shelves = .empty := rfl
    rw [World.shelfOf, Cache.shelf, h]
    rfl
  obtain ⟨hentry, -⟩ := World.fresh?_eq_some_iff.1 hs
  obtain ⟨-, hholds⟩ := (meets_visited.inOrder rfl).entries 1 s hentry
  have hlooked : Used slowSources (fun _ _ _ => True) visited
      (visited.flow slowSources s (.id 7)).2 :=
    .flow s (.id 7) visited hholds.shelf (fun _ => trivial)
      fun _ => .elsewhere rfl (Moment.le_shift _ (by decide))
  refine ⟨s, hs, ?_⟩
  intro w
  have hcache : w.cache = (visited.shelve s visited.clock survey).cache := by
    show (visited.flow slowSources s (.id 7)).2.cache = _
    rw [flow_slow hmiss]
  have hlate : (visited.flow slowSources s (.id 7)).2.clock ≤ w.clock := by
    rw [flow_slow hmiss, hclock]
    show (midnight.shift 1).shift 1 ≤ midnight.shift 32
    decide
  have hserved : w.fresh? 1 = some s := by
    refine World.fresh?_eq_some_iff.2 ⟨?_, ?_⟩
    · rw [hcache]
      exact hentry
    · rw [hbuilt, hcache]
      show Moment.since (midnight.shift 32) midnight < Span.ofMinutes 1
      decide
  have hleaps : w.clock.CountsLeaps s.builtAt := by
    rw [hbuilt]
    exact Moment.countsLeaps_of_none (t := midnight.shift 32) (by decide) (by decide)
  have hcopy : (w.shelfOf s).find? (.id 7) =
      some ⟨(visited.shelfOf s).supply, visited.clock, survey⟩ := by
    rw [World.shelfOf, hcache, World.shelf_shelve, if_pos ⟨rfl, rfl⟩]
    exact (Index.find?_insert _ _ _ _).trans (if_pos rfl)
  have hw : Meets slowSources (fun _ _ _ => True) morning w :=
    (meets_visited.after hlooked).after (.elsewhere rfl hlate)
  obtain ⟨hget, -, httl, -, hparts, hflows⟩ := served_within_ttl rfl hw hserved
  refine ⟨hget, fun p => ?_, _, hcopy, ?_⟩
  · obtain ⟨u, -, -, -, -, -, hread, -, hlater⟩ := hparts p
    rw [hread, ← httl]
    exact hlater hleaps
  · obtain ⟨ref, u, -, -, -, hloaded, -, hlater⟩ := hflows _ _ hcopy
    rw [hloaded, ← httl]
    exact hlater hleaps

/-- A leap second before midnight is missing in ages across midnight: with a time to live of five
seconds, a snapshot is served five seconds after midnight whose data was loaded half a second before
it. -/
theorem leap_second_outlasts_ttl :
    let sources := Sources.fixed fun _ => {}
    let leap : Instant := ⟨1483228799, 1500000000⟩
    let start : World Unit := { clock := leap, cache := { ttl := Span.ofSeconds 5 }, rest := () }
    let w : World Unit := { (start.get sources 1).2 with clock := ⟨1483228805, 0⟩ }
    Meets sources (fun _ _ _ => True) start w ∧
      ∃ s, w.get sources 1 = (.ok s, w) ∧
        ∀ p, (s.parts p).readAt = leap ∧ leap < w.clock.plus (-w.cache.ttl) := by
  intro sources leap start w
  have hgot : Used sources (fun _ _ _ => True) start (start.get sources 1).2 := by
    rw [World.get_eq_refresh]
    exact .refresh 1 .empty start (fun _ _ _ => trivial) fun p u _ => .refl u
  have hclock : (start.get sources 1).2.clock ≤ w.clock := by decide +kernel
  obtain ⟨s, hs⟩ : ∃ s, w.fresh? 1 = some s := Option.isSome_iff_exists.1 (by decide +kernel)
  refine ⟨(Meets.here.after hgot).after (.elsewhere rfl hclock), s, ?_, fun p => ?_⟩
  · simp only [World.get, hs]
  · have hread : ∀ p ∈ Part.all, (w.fresh? 1).map (fun s => (s.parts p).readAt) = some leap := by
      decide +kernel
    have hp := hread p (Part.mem_all p)
    rw [hs, Option.map_some] at hp
    exact ⟨Option.some.inj hp, by decide +kernel⟩

end Outreach
