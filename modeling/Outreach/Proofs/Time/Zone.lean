import Mathlib.Data.List.Pairwise
import Mathlib.Data.Nat.Find
import Outreach.Proofs.Time.Stored
import Outreach.Time.ZoneRule

/-!
# Outreach.Proofs.Time.Zone

On which instant a wall time falls, also one that is skipped or occurs twice.

* `Zone.FallsOn` — the rule: the earliest instant with the wall time, or with the first wall time
  after it, minute by minute, that occurs.
* `Zone.SkipsAtMost`, `Zone.Apart` — how long the skipped stretches are, and how far the changes of
  the offset lie apart.
* `Zone.exists_fallsOn` — every wall time falls on an instant at most so many minutes late as are
  skipped at once.
* `Zone.localize_of_fallsOn` — that instant is the one which `localize` gives.
* `Zone.JumpsAtMost.skipsAtMost`, `Zone.staysInRange` — what is to be checked of a zone.
-/

namespace Outreach

/-! ## Minutes -/

namespace Moment

def WholeMinute (t : Moment) : Prop := t.seconds % 60 = 0 ∧ t.nanos = 0

instance (t : Moment) : Decidable t.WholeMinute := by
  unfold WholeMinute; infer_instance

theorem le_antisymm {a b : Moment} (h : a ≤ b) (h' : b ≤ a) : a = b := by
  obtain ⟨as, an⟩ := a
  obtain ⟨bs, bn⟩ := b
  rw [le_def] at h h'
  simp only at h h'
  rw [mk.injEq]
  omega

theorem day_mono {t u : Moment} (h : t ≤ u) : t.day ≤ u.day := by
  rw [le_def] at h
  unfold day
  omega

theorem nanos_ofDay_lt (n s : Int) : (ofDay n s).nanos < 1000000000 :=
  (by decide : 0 < 1000000000)

theorem day_ofDay {s : Int} (h0 : 0 ≤ s) (h24 : s < 86400) (n : Int) : (ofDay n s).day = n := by
  simp only [ofDay, day]
  omega

@[simp] theorem shift_zero (t : Moment) : t.shift 0 = t := by
  simp only [shift, Int.add_zero]

@[simp] theorem shift_shift (t : Moment) (m n : Int) : (t.shift m).shift n = t.shift (m + n) := by
  simp only [shift, Int.add_assoc]

theorem plus_ofSeconds {t : Moment} (h : t.nanos < 1000000000) (n : Int) :
    t.plus (Span.ofSeconds n) = t.shift n := by
  rw [plus_of_not_leap h]
  simp only [ofNanos, toNanos, Span.ofSeconds, shift, mk.injEq]
  omega

/-- The moment `k` minutes later. -/
def minutesOn (t : Moment) (k : Nat) : Moment := t.plus (Span.ofMinutes k)

theorem minutesOn_eq_shift {t : Moment} (h : t.nanos < 1000000000) (k : Nat) :
    t.minutesOn k = t.shift (k * 60) :=
  plus_ofSeconds h _

theorem le_minutesOn {w : Moment} (hw : w.nanos < 1000000000) {j k : Nat} (h : j ≤ k) :
    w.minutesOn j ≤ w.minutesOn k := by
  rw [minutesOn_eq_shift hw, minutesOn_eq_shift hw, le_def]
  simp only [shift]
  omega

@[simp] theorem minutesOn_zero (t : Moment) : t.minutesOn 0 = t := by
  by_cases h : t.nanos < 1000000000
  · rw [minutesOn_eq_shift h]
    exact shift_zero t
  · simp [minutesOn, plus, if_neg h, Span.ofMinutes, Span.ofSeconds]

theorem minutesOn_one_minutesOn (t : Moment) (k : Nat) :
    (t.minutesOn 1).minutesOn k = t.minutesOn (k + 1) := by
  by_cases h : t.nanos < 1000000000
  · rw [minutesOn_eq_shift h, minutesOn_eq_shift h, minutesOn_eq_shift (t := t.shift _) h,
      shift_shift]
    congr 1
    omega
  · -- the first minute leads out of the leap second
    have hfirst (n : Nat) : t.minutesOn (n + 1) =
        ofNanos (t.toNanos - 1000000000 + Span.ofMinutes (n + 1 : Nat)) := by
      have hlong : (1000000000 : Int) ≤ (n + 1 : Nat) * 60 * 1000000000 := by omega
      unfold minutesOn plus
      rw [if_neg h, if_pos (.inl hlong)]
    rw [hfirst 0, hfirst k]
    have hnanos : (ofNanos (t.toNanos - 1000000000 + Span.ofMinutes (0 + 1 : Nat))).nanos <
        1000000000 := by
      simp only [ofNanos]
      omega
    rw [minutesOn_eq_shift hnanos]
    simp only [ofNanos, shift, Span.ofMinutes, Span.ofSeconds, mk.injEq]
    omega

/-- Minutes are counted alike from within a leap second. -/
theorem seconds_minutesOn {t : Moment} (h : t.nanos < 2000000000) (k : Nat) :
    (t.minutesOn k).seconds = t.seconds + k * 60 := by
  by_cases hleap : t.nanos < 1000000000
  · rw [minutesOn_eq_shift hleap]
    rfl
  · cases k with
    | zero =>
      rw [minutesOn_zero]
      omega
    | succ k =>
      have hlong : (1000000000 : Int) ≤ Span.ofMinutes (k + 1 : Nat) := by
        unfold Span.ofMinutes Span.ofSeconds
        omega
      rw [minutesOn, plus, if_neg hleap, if_pos (.inl hlong)]
      simp only [ofNanos, toNanos, Span.ofMinutes, Span.ofSeconds]
      omega

end Moment

namespace Zone

variable {z : Zone} {w : WallTime} {t u : Instant} {k l n : Nat}

/-! ## Instants of a wall time -/

/-- Some instant has the wall time. -/
def Occurs (z : Zone) (w : WallTime) : Prop := ∃ t, z.Shows t w

theorem occurs_iff : z.Occurs w ↔ ∃ s, s + z.offsetAt s = w.seconds := by
  obtain ⟨ws, wn⟩ := w
  constructor
  · rintro ⟨t, ht⟩
    exact ⟨t.seconds, congrArg Moment.seconds ht⟩
  · rintro ⟨s, rfl⟩
    exact ⟨⟨s, wn⟩, rfl⟩

theorem pairwise_secondsFrom {b : Option Int} {f v : Int} {cs : List OffsetChange}
    (ho : cs.Pairwise fun a b => a.start < b.start) (hs : ∀ s ∈ b, ∀ c ∈ cs, s < c.start) :
    (secondsFrom b f cs v).Pairwise (· < ·) := by
  induction cs generalizing b f with
  | nil =>
    unfold secondsFrom
    split
    · exact List.pairwise_singleton _ _
    · exact .nil
  | cons c cs ih =>
    obtain ⟨hc, ho'⟩ := List.pairwise_cons.1 ho
    have hs' : ∀ s ∈ some c.start, ∀ d ∈ cs, s < d.start := by
      rintro s ⟨⟩
      exact hc
    have hrest := ih (f := c.offset) ho' hs'
    unfold secondsFrom
    split
    · rename_i hfirst
      refine List.pairwise_cons.2 ⟨fun s hmem => ?_, hrest⟩
      have hlate := ((mem_secondsFrom ho' hs').1 hmem).1 c.start rfl
      omega
    · exact hrest

/-- The first instant listed for a wall time is the earliest one that has it. -/
theorem exists_instantsAt (ho : z.Ordered) (h : z.Occurs w) :
    ∃ t ts, z.instantsAt w = t :: ts ∧ z.Shows t w ∧ ∀ u, z.Shows u w → t ≤ u := by
  obtain ⟨u, hu⟩ := h
  have hsorted : (z.instantsAt w).Pairwise (· ≤ ·) := by
    refine List.pairwise_map.2 ((pairwise_secondsFrom ho (by simp)).imp fun hlt => ?_)
    rw [Moment.le_def]
    exact .inl hlt
  cases hlist : z.instantsAt w with
  | nil =>
    have hmem := (mem_instantsAt ho).2 hu
    rw [hlist] at hmem
    cases hmem
  | cons t ts =>
    rw [hlist] at hsorted
    have hmem (v : Instant) : v ∈ t :: ts ↔ z.Shows v w := hlist ▸ mem_instantsAt ho
    refine ⟨t, ts, rfl, (hmem t).1 List.mem_cons_self, fun v hv => ?_⟩
    rcases List.mem_cons.1 ((hmem v).2 hv) with rfl | hv
    · exact Moment.le_refl v
    · exact (List.pairwise_cons.1 hsorted).1 v hv

theorem earliest?_of_not_occurs (ho : z.Ordered) (h : ¬ z.Occurs w) : z.earliest? w = none := by
  have hnil : z.instantsAt w = [] :=
    List.eq_nil_iff_forall_not_mem.2 fun t ht => h ⟨t, (mem_instantsAt ho).1 ht⟩
  simp only [earliest?, hnil]

theorem earliest?_of_shows (ho : z.Ordered) (ht : z.Shows t w) (hle : ∀ u, z.Shows u w → t ≤ u)
    (hrange : ∀ u, z.Shows u w → u.InRange) : z.earliest? w = some t := by
  obtain ⟨v, vs, hlist, hv, hvle⟩ := exists_instantsAt ho ⟨t, ht⟩
  have hall : ∀ u ∈ v :: vs, u.InRange := fun u hu => hrange u ((mem_instantsAt ho).1 (hlist ▸ hu))
  simp only [earliest?, hlist]
  rw [if_pos hall, Moment.le_antisymm (hle v hv) (hvle t ht)]

/-! ## The rule -/

/-- `t` is the earliest instant with the wall time that is `k` minutes after `w`, and this is the
first one from `w` on, minute by minute, that occurs. -/
structure FallsOn (z : Zone) (w : WallTime) (k : Nat) (t : Instant) : Prop where
  skipped : ∀ j < k, ¬ z.Occurs (w.minutesOn j)
  shows : z.Shows t (w.minutesOn k)
  earliest : ∀ u, z.Shows u (w.minutesOn k) → t ≤ u

theorem FallsOn.unique (h : z.FallsOn w k t) (h' : z.FallsOn w l u) : k = l ∧ t = u := by
  have hk : ¬ k < l := fun hlt => h'.skipped k hlt ⟨t, h.shows⟩
  have hl : ¬ l < k := fun hlt => h.skipped l hlt ⟨u, h'.shows⟩
  obtain rfl : k = l := by omega
  exact ⟨rfl, Moment.le_antisymm (h.earliest u h'.shows) (h'.earliest t h.shows)⟩

theorem exists_fallsOn_of_occurs (ho : z.Ordered) (h : z.Occurs (w.minutesOn k)) :
    ∃ l ≤ k, ∃ t, z.FallsOn w l t := by
  classical
  have hex : ∃ l, z.Occurs (w.minutesOn l) := ⟨k, h⟩
  obtain ⟨t, -, -, ht, hle⟩ := exists_instantsAt ho (Nat.find_spec hex)
  exact ⟨Nat.find hex, Nat.find_min' hex h, t, fun j hj => Nat.find_min hex hj, ht, hle⟩

/-- Neither a wall time that is tried for `w` nor an instant that has it lies outside the range of
moments. -/
def StaysInRange (z : Zone) (w : WallTime) : Prop :=
  ∀ k, (∀ j < k, ¬ z.Occurs (w.minutesOn j)) →
    (w.minutesOn k).InRange ∧ ∀ t, z.Shows t (w.minutesOn k) → t.InRange

theorem localizeWithin_of_fallsOn (ho : z.Ordered) (hrange : z.StaysInRange w)
    (h : z.FallsOn w k t) (hk : k < n) : z.localizeWithin n w = .ok t := by
  induction k generalizing w n with
  | zero =>
    obtain ⟨n, rfl⟩ := Nat.exists_eq_add_one_of_ne_zero (Nat.ne_of_gt hk)
    have hshows := h.shows
    have hearliest := h.earliest
    have hin := (hrange 0 (by simp)).2
    rw [Moment.minutesOn_zero] at hshows hearliest hin
    simp only [localizeWithin, earliest?_of_shows ho hshows hearliest hin]
  | succ k ih =>
    obtain ⟨n, rfl⟩ := Nat.exists_eq_add_one_of_ne_zero (Nat.ne_of_gt (Nat.zero_lt_of_lt hk))
    have hskipped : ¬ z.Occurs w := by
      have h0 := h.skipped 0 (Nat.succ_pos k)
      rwa [Moment.minutesOn_zero] at h0
    have hnext : w.plus? (Span.ofMinutes 1) = some (w.minutesOn 1) := by
      refine Moment.plus?_eq_some_iff.2 ⟨rfl, (hrange 1 fun j hj => ?_).1⟩
      obtain rfl : j = 0 := by omega
      rwa [Moment.minutesOn_zero]
    -- what is tried from the next minute on is what is tried from here on, but for the first
    have hfalls : z.FallsOn (w.minutesOn 1) k t := by
      constructor
      case skipped =>
        intro j hj
        rw [Moment.minutesOn_one_minutesOn]
        exact h.skipped (j + 1) (by omega)
      case shows => rw [Moment.minutesOn_one_minutesOn]; exact h.shows
      case earliest => rw [Moment.minutesOn_one_minutesOn]; exact h.earliest
    have hrange' : z.StaysInRange (w.minutesOn 1) := by
      intro l hl
      rw [Moment.minutesOn_one_minutesOn]
      refine hrange (l + 1) fun j hj => ?_
      cases j with
      | zero => rwa [Moment.minutesOn_zero]
      | succ j =>
        rw [← Moment.minutesOn_one_minutesOn]
        exact hl j (by omega)
    simp only [localizeWithin, earliest?_of_not_occurs ho hskipped, hnext]
    exact ih hrange' hfalls (by omega)

theorem localize_of_fallsOn (ho : z.Ordered) (hrange : z.StaysInRange w) (h : z.FallsOn w k t)
    (hk : k ≤ longestGap) : z.localize w = .ok t :=
  localizeWithin_of_fallsOn ho hrange h (by omega)

/-! ## Skipped stretches -/

/-- Changes of the offset lie more than `n` seconds apart. -/
def Apart (z : Zone) (n : Nat) : Prop :=
  z.changes.Pairwise fun a b => a.start + (n : Int) < b.start

instance (z : Zone) (n : Nat) : Decidable (z.Apart n) := by
  unfold Apart; infer_instance

/-- A stretch of wall time that is skipped lasts `n` minutes at most. -/
def SkipsAtMost (z : Zone) (n : Nat) : Prop :=
  ∀ a b : Int, (∀ w : WallTime, a ≤ w.seconds → w.seconds < b → ¬ z.Occurs w) → b - a ≤ n * 60

theorem Apart.mono (h : z.Apart n) (hk : k ≤ n) : z.Apart k :=
  h.imp fun hab => by omega

theorem Apart.ordered (h : z.Apart n) : z.Ordered :=
  h.imp fun hab => by omega

theorem Apart.far (h : z.Apart n) {c e : OffsetChange} (hc : c ∈ z.changes) (he : e ∈ z.changes)
    (hne : c ≠ e) : c.start + n < e.start ∨ e.start + n < c.start := by
  have hsymm : Std.Symm fun a b : OffsetChange =>
      a.start + (n : Int) < b.start ∨ b.start + (n : Int) < a.start := ⟨fun _ _ => Or.symm⟩
  have hpairs : z.changes.Pairwise fun a b =>
      a.start + (n : Int) < b.start ∨ b.start + (n : Int) < a.start := h.imp Or.inl
  exact hpairs.forall hc he hne

theorem offsetFrom_cons_of_lt {f s : Int} {c : OffsetChange} (h : s < c.start)
    (cs : List OffsetChange) : offsetFrom f (c :: cs) s = f := by
  simp only [offsetFrom, if_pos h]

theorem offsetFrom_cons_of_le {f s : Int} {c : OffsetChange} (h : c.start ≤ s)
    (cs : List OffsetChange) : offsetFrom f (c :: cs) s = offsetFrom c.offset cs s := by
  simp only [offsetFrom, if_neg (Int.not_lt.2 h)]

theorem offsetFrom_congr {f s v : Int} {cs : List OffsetChange}
    (h : ∀ c ∈ cs, s < c.start ↔ v < c.start) : offsetFrom f cs s = offsetFrom f cs v := by
  induction cs generalizing f with
  | nil => rfl
  | cons c cs ih =>
    obtain ⟨hc, hcs⟩ := List.forall_mem_cons.1 h
    simp only [offsetFrom, hc, ih hcs]

/-- A wall time that ends a skipped stretch is shown when the offset changes, and so are those of
the minute that it begins. -/
theorem occurs_of_ends (hap : z.Apart 59) (hskipped : ¬ z.Occurs (w.shift (-1)))
    (hoccurs : z.Occurs w) {d : Int} (h0 : 0 ≤ d) (hd : d < 60) : z.Occurs (w.shift d) := by
  obtain ⟨s, hs⟩ := occurs_iff.1 hoccurs
  have hchange : ∃ c ∈ z.changes, c.start = s := by
    by_contra hnone
    apply hskipped
    rw [occurs_iff]
    refine ⟨s - 1, ?_⟩
    have hsame : z.offsetAt (s - 1) = z.offsetAt s := offsetFrom_congr fun c hc => by
      have hne : c.start ≠ s := fun heq => hnone ⟨c, hc, heq⟩
      omega
    simp only [Moment.shift, hsame]
    omega
  obtain ⟨c, hc, rfl⟩ := hchange
  rw [occurs_iff]
  refine ⟨c.start + d, ?_⟩
  have hsame : z.offsetAt (c.start + d) = z.offsetAt c.start := offsetFrom_congr fun e he => by
    by_cases hce : c = e
    · subst hce
      omega
    · have hfar := hap.far hc he hce
      omega
  simp only [Moment.shift, hsame]
  omega

/-- A stretch of wall time that is skipped, and `w` in it, lasts `n` minutes at most. -/
def SkipsAtMostAt (z : Zone) (n : Nat) (w : WallTime) : Prop :=
  ∀ a b : Int, a ≤ w.seconds → w.seconds < b →
    (∀ v : WallTime, a ≤ v.seconds → v.seconds < b → ¬ z.Occurs v) → b - a ≤ n * 60

theorem SkipsAtMost.skipsAtMostAt (h : z.SkipsAtMost n) (w : WallTime) : z.SkipsAtMostAt n w :=
  fun a b _ _ => h a b

theorem occurs_congr {v : WallTime} (h : v.seconds = w.seconds) : z.Occurs v ↔ z.Occurs w := by
  rw [occurs_iff, occurs_iff, h]

/-- A wall time falls on an instant if the stretch in which it is skipped is no longer than what is
tried. -/
theorem exists_fallsOn_of_skipsAtMostAt (hap : z.Apart 59) (hskip : z.SkipsAtMostAt n w)
    (hw : w.nanos < 2000000000) : ∃ k ≤ n, ∃ t, z.FallsOn w k t := by
  classical
  have hex : ∃ m : Nat, m ≤ n * 60 ∧ z.Occurs (w.shift m) := by
    by_contra hnone
    have hlong := hskip w.seconds (w.seconds + n * 60 + 1) (Int.le_refl _) (by omega)
      fun v hle hlt hv => hnone ⟨(v.seconds - w.seconds).toNat, by omega,
        (occurs_congr (by simp only [Moment.shift]; omega)).1 hv⟩
    omega
  -- the first second from `w` on that occurs
  obtain ⟨hm, hoccurs⟩ := Nat.find_spec hex
  have hmin (j : Nat) (hj : j < Nat.find hex) : ¬ z.Occurs (w.shift j) := fun h =>
    Nat.find_min hex hj ⟨by omega, h⟩
  generalize Nat.find hex = m at hm hoccurs hmin
  suffices hlate : z.Occurs (w.shift ((m + 59) / 60 * 60 : Nat)) by
    have hminute : z.Occurs (w.minutesOn ((m + 59) / 60)) := by
      refine (occurs_congr ?_).1 hlate
      rw [Moment.seconds_minutesOn hw]
      simp only [Moment.shift]
      omega
    obtain ⟨k, hk, t, ht⟩ := exists_fallsOn_of_occurs hap.ordered hminute
    exact ⟨k, by omega, t, ht⟩
  cases m with
  | zero => exact hoccurs
  | succ m =>
    have hends : ¬ z.Occurs ((w.shift (m + 1 : Nat)).shift (-1)) := by
      have hlast := hmin m (Nat.lt_succ_self m)
      rwa [Moment.shift_shift, show ((m + 1 : Nat) : Int) + -1 = m by omega]
    have hlate := occurs_of_ends hap hends hoccurs
      (d := ((m + 1 + 59) / 60 * 60 : Nat) - (m + 1 : Nat)) (by omega) (by omega)
    rwa [Moment.shift_shift, Int.add_comm, Int.sub_add_cancel] at hlate

/-- Every wall time falls on an instant. -/
theorem exists_fallsOn (hap : z.Apart 59) (hskip : z.SkipsAtMost n) (hw : w.nanos < 1000000000) :
    ∃ k ≤ n, ∃ t, z.FallsOn w k t :=
  exists_fallsOn_of_skipsAtMostAt hap (hskip.skipsAtMostAt w) (by omega)

/-! ## Zones as tables -/

/-- No change moves the clocks forward by more than `n` minutes. -/
def JumpsAtMost (z : Zone) (n : Nat) : Prop :=
  (z.first :: z.changes.map OffsetChange.offset).IsChain fun a b => b ≤ a + (n : Int) * 60

instance (z : Zone) (n : Nat) : Decidable (z.JumpsAtMost n) := by
  unfold JumpsAtMost; infer_instance

/-- Rules that are in the order of time are listed as they are. -/
theorem ofRules_of_sorted {name : String} {first : Int} {rules : List ZoneRule}
    (h : (rules.flatMap ZoneRule.expand).Pairwise fun a b => a.start ≤ b.start) :
    ofRules name first rules = ⟨name, first, rules.flatMap ZoneRule.expand⟩ := by
  have hsorted : (rules.flatMap ZoneRule.expand).Pairwise fun a b =>
      decide (a.start ≤ b.start) = true := by
    simpa using h
  rw [ofRules, List.mergeSort_of_pairwise hsorted]

theorem exists_shown {f : Int} {cs : List OffsetChange}
    (ho : cs.Pairwise fun a b => a.start < b.start)
    (hjump : (f :: cs.map OffsetChange.offset).IsChain fun a b => b ≤ a + (n : Int) * 60) (v : Int) :
    ∃ s, v ≤ s + offsetFrom f cs s ∧ s + offsetFrom f cs s ≤ v + n * 60 := by
  induction cs generalizing f with
  | nil => exact ⟨v - f, by simp only [offsetFrom]; omega, by simp only [offsetFrom]; omega⟩
  | cons c cs ih =>
    obtain ⟨hc, ho'⟩ := List.pairwise_cons.1 ho
    rw [List.map_cons, List.isChain_cons_cons] at hjump
    by_cases hv : v - f < c.start
    · refine ⟨v - f, ?_⟩
      rw [offsetFrom_cons_of_lt hv]
      omega
    · obtain ⟨s, hle, hge⟩ := ih ho' hjump.2
      by_cases hs : c.start ≤ s
      · exact ⟨s, by rwa [offsetFrom_cons_of_le hs], by rwa [offsetFrom_cons_of_le hs]⟩
      · -- the wall time is skipped by this very change
        have hfirst {r : Int} (hr : r ≤ c.start) : offsetFrom c.offset cs r = c.offset :=
          offsetFrom_of_lt fun d hd => Int.lt_of_le_of_lt hr (hc d hd)
        rw [hfirst (by omega)] at hle hge
        refine ⟨c.start, ?_⟩
        rw [offsetFrom_cons_of_le (Int.le_refl _), hfirst (Int.le_refl _)]
        omega

theorem JumpsAtMost.skipsAtMost (ho : z.Ordered) (h : z.JumpsAtMost n) : z.SkipsAtMost n := by
  intro a b hskipped
  obtain ⟨s, hle, hge⟩ := exists_shown ho h a
  by_contra hlong
  refine hskipped ⟨s + z.offsetAt s, 0⟩ hle ?_ (occurs_iff.2 ⟨s, rfl⟩)
  have hlt : s + z.offsetAt s ≤ a + n * 60 := hge
  show s + z.offsetAt s < b
  omega

theorem forall_offsetAt {P : Int → Prop} (hfirst : P z.first) (hall : ∀ c ∈ z.changes, P c.offset)
    (s : Int) : P (z.offsetAt s) := by
  have hfrom (cs : List OffsetChange) (f : Int) (hf : P f) (hcs : ∀ c ∈ cs, P c.offset) :
      P (offsetFrom f cs s) := by
    induction cs generalizing f with
    | nil => exact hf
    | cons c cs ih =>
      obtain ⟨hc, hcs⟩ := List.forall_mem_cons.1 hcs
      unfold offsetFrom
      split
      · exact hf
      · exact ih c.offset hc hcs
  exact hfrom z.changes z.first hfirst hall

/-- All offsets are whole minutes. -/
def OnMinutes (z : Zone) : Prop :=
  z.first % 60 = 0 ∧ ∀ c ∈ z.changes, c.offset % 60 = 0

instance (z : Zone) : Decidable z.OnMinutes := by
  unfold OnMinutes; infer_instance

theorem OnMinutes.offsetAt (h : z.OnMinutes) (s : Int) : z.offsetAt s % 60 = 0 :=
  forall_offsetAt (P := fun o => o % 60 = 0) h.1 h.2 s

/-- All offsets are less than a day. -/
def WithinDay (z : Zone) : Prop :=
  z.first.natAbs < 86400 ∧ ∀ c ∈ z.changes, c.offset.natAbs < 86400

instance (z : Zone) : Decidable z.WithinDay := by
  unfold WithinDay; infer_instance

theorem WithinDay.offsetAt (h : z.WithinDay) (s : Int) : (z.offsetAt s).natAbs < 86400 :=
  forall_offsetAt (P := fun o => o.natAbs < 86400) h.1 h.2 s

/-- Two days from the ends of the range, nothing that is tried for a wall time lies outside. -/
theorem staysInRange (hz : z.WithinDay) (hap : z.Apart 59) (hskip : z.SkipsAtMost 120)
    (hw : w.nanos < 1000000000) (hlow : Moment.firstDay + 2 ≤ w.day)
    (hhigh : w.day + 2 ≤ Moment.lastDay) : z.StaysInRange w := by
  intro k hk
  obtain ⟨l, hl, t, ht⟩ := exists_fallsOn hap hskip hw
  have hle : k ≤ 120 := by
    by_contra hlong
    exact hk l (by omega) ⟨t, ht.shows⟩
  have hseconds : (w.minutesOn k).seconds = w.seconds + k * 60 := by
    rw [Moment.minutesOn_eq_shift hw]
    rfl
  unfold Moment.day at hlow hhigh
  constructor
  · unfold Moment.InRange Moment.IsDay Moment.day
    omega
  · intro u hu
    have hoffset := hz.offsetAt u.seconds
    have hshown : u.seconds + z.offsetAt u.seconds = (w.minutesOn k).seconds :=
      congrArg Moment.seconds hu
    unfold Moment.InRange Moment.IsDay Moment.day
    omega

end Zone
end Outreach
