import Outreach.Proofs.Time.SetBack

/-!
# Outreach.Proofs.Time.Resolve

What `localize` does with the wall times that are not at the ends of the range of moments: it gives
an instant if one of the minutes that are tried occurs, and keeps the order of whole minutes.

* `Moment.Inside` — the moment is two days or more from both ends of the range.
* `Zone.localize_eq_ok_iff`, `Zone.localize_eq_error_iff` — the two answers that there are.
* `Zone.localize_mono` — of two whole minutes the later does not fall on an earlier instant.
-/

namespace Outreach

namespace Moment

variable {w : Moment}

/-- The moment is two days or more from both ends of the range. -/
def Inside (w : Moment) : Prop := firstDay + 2 ≤ w.day ∧ w.day + 2 ≤ lastDay

instance (w : Moment) : Decidable w.Inside := by
  unfold Inside; infer_instance

theorem minutesOn_minutesOn (m l : Nat) : (w.minutesOn m).minutesOn l = w.minutesOn (m + l) := by
  induction m generalizing w with
  | zero => rw [minutesOn_zero, Nat.zero_add]
  | succ m ih =>
    rw [← minutesOn_one_minutesOn, ih, minutesOn_one_minutesOn, Nat.add_right_comm]

theorem Inside.inRange_minutesOn (hin : w.Inside) (hw : w.nanos < 2000000000) {k : Nat}
    (hk : k ≤ Zone.longestGap + 1) : (w.minutesOn k).InRange := by
  have hk' : k ≤ 121 := hk
  have hseconds := seconds_minutesOn hw k
  unfold Inside day at hin
  unfold InRange IsDay day
  omega

theorem WholeMinute.exists_minutesOn {v : Moment} (hv : v.WholeMinute) (hw : w.WholeMinute)
    (hle : v ≤ w) : ∃ m : Nat, v.minutesOn m = w := by
  obtain ⟨hvs, hvn⟩ := hv
  obtain ⟨hws, hwn⟩ := hw
  rw [le_def] at hle
  refine ⟨((w.seconds - v.seconds) / 60).toNat, ?_⟩
  rw [minutesOn_eq_shift (by omega)]
  obtain ⟨ws, wn⟩ := w
  simp only [shift, mk.injEq] at *
  omega

end Moment

namespace Zone

variable {z : Zone} {v w : WallTime} {t u : Instant} {k n : Nat}

/-! ## One wall time -/

/-- Two days from the ends of the range, what occurs is placed. -/
theorem placed_minutesOn_iff (hz : z.WithinDay) (hin : w.Inside) (hw : w.nanos < 2000000000)
    (hk : k ≤ longestGap) : z.Placed (w.minutesOn k) ↔ z.Occurs (w.minutesOn k) := by
  refine ⟨fun h => h.1, fun h => ⟨h, fun t ht => ?_⟩⟩
  have hk' : k ≤ 120 := hk
  have hseconds := Moment.seconds_minutesOn hw k
  have hoffset := hz.offsetAt t.seconds
  have hshown : t.seconds + z.offsetAt t.seconds = (w.minutesOn k).seconds :=
    congrArg Moment.seconds ht
  unfold Moment.Inside Moment.day at hin
  unfold Moment.InRange Moment.IsDay Moment.day
  omega

/-- If the search ends without an instant, it has passed all minutes that it tries. -/
theorem not_placed_of_localizeWithin (ho : z.Ordered)
    (h : z.localizeWithin n w = .error (.cause ())) : ∀ k < n, ¬ z.Placed (w.minutesOn k) := by
  induction n generalizing w with
  | zero => exact fun k hk => absurd hk (Nat.not_lt_zero k)
  | succ n ih =>
    unfold localizeWithin at h
    split at h
    · cases h
    · rename_i hnone
      split at h
      · cases h
      · rename_i w' hw'
        obtain ⟨rfl, -⟩ := Moment.plus?_eq_some_iff.1 hw'
        intro k hk
        cases k with
        | zero =>
          rw [Moment.minutesOn_zero]
          exact (earliest?_eq_none_iff ho).1 hnone
        | succ k =>
          rw [← Moment.minutesOn_one_minutesOn]
          exact ih h k (Nat.lt_of_succ_lt_succ hk)

section Inside

variable (hz : z.WithinDay) (ho : z.Ordered) (hin : w.Inside) (hw : w.nanos < 2000000000)

include ho hin hw

/-- The search does not run into the end of the range. -/
theorem localize_ne_overflow : z.localize w ≠ .error .overflow := by
  have hrange : w.InRange := by
    have h0 := hin.inRange_minutesOn hw (Nat.zero_le _)
    rwa [Moment.minutesOn_zero] at h0
  rw [Ne, localize_overflow_iff ho hrange]
  rintro ⟨k, hk, -, hend⟩
  exact hend (hin.inRange_minutesOn hw (Nat.succ_le_succ hk))

include hz

theorem fallsOn_of_localize (h : z.localize w = .ok t) : ∃ k ≤ longestGap, z.FallsOn w k t := by
  obtain ⟨k, hk, hpassed, ht⟩ := exists_minute_of_localize h
  obtain ⟨-, hshows, hearliest⟩ := (earliest?_eq_some_iff ho).1 ht
  refine ⟨k, hk, fun j hj hoccurs => ?_, hshows, hearliest⟩
  refine (earliest?_eq_none_iff ho).1 (hpassed j hj).1 ?_
  exact (placed_minutesOn_iff hz hin hw (Nat.le_trans (Nat.le_of_lt hj) hk)).2 hoccurs

/-- There is no instant just if none of the minutes that are tried occurs. -/
theorem localize_eq_error_iff :
    z.localize w = .error (.cause ()) ↔ ∀ k ≤ longestGap, ¬ z.Occurs (w.minutesOn k) := by
  constructor
  · intro h k hk hoccurs
    have hplaced := (placed_minutesOn_iff hz hin hw hk).2 hoccurs
    exact not_placed_of_localizeWithin ho h k (Nat.lt_succ_of_le hk) hplaced
  · intro h
    cases hl : z.localize w with
    | ok t =>
      obtain ⟨k, hk, hfalls⟩ := fallsOn_of_localize hz ho hin hw hl
      exact absurd ⟨t, hfalls.shows⟩ (h k hk)
    | error f =>
      cases f with
      | cause _ => rfl
      | overflow => exact absurd hl (localize_ne_overflow ho hin hw)

/-- An instant that is given is the one on which the wall time falls, and it is given if that is so
within the minutes that are tried. -/
theorem localize_eq_ok_iff : z.localize w = .ok t ↔ ∃ k ≤ longestGap, z.FallsOn w k t := by
  refine ⟨fallsOn_of_localize hz ho hin hw, fun ⟨k, hk, hfalls⟩ => ?_⟩
  cases hl : z.localize w with
  | ok u =>
    obtain ⟨l, -, hfalls'⟩ := fallsOn_of_localize hz ho hin hw hl
    rw [(hfalls.unique hfalls').2]
  | error f =>
    cases f with
    | cause _ =>
      exact absurd ⟨t, hfalls.shows⟩ ((localize_eq_error_iff hz ho hin hw).1 hl k hk)
    | overflow => exact absurd hl (localize_ne_overflow ho hin hw)

theorem exists_localize_iff :
    (∃ t, z.localize w = .ok t) ↔ ∃ k ≤ longestGap, z.Occurs (w.minutesOn k) := by
  simp only [localize_eq_ok_iff hz ho hin hw]
  constructor
  · rintro ⟨t, k, hk, hfalls⟩
    exact ⟨k, hk, t, hfalls.shows⟩
  · rintro ⟨k, hk, hoccurs⟩
    obtain ⟨l, hl, t, hfalls⟩ := exists_fallsOn_of_occurs ho hoccurs
    exact ⟨t, l, Nat.le_trans hl hk, hfalls⟩

end Inside

theorem exists_localize_of_skipsAtMostAt (hz : z.WithinDay) (hap : z.Apart 59) (hin : w.Inside)
    (hw : w.nanos < 2000000000) (hskip : z.SkipsAtMostAt longestGap w) :
    ∃ t, z.localize w = .ok t := by
  obtain ⟨k, hk, t, hfalls⟩ := exists_fallsOn_of_skipsAtMostAt hap hskip hw
  exact ⟨t, (localize_eq_ok_iff hz hap.ordered hin hw).2 ⟨k, hk, hfalls⟩⟩

/-! ## Two wall times -/

/-- A wall time that comes a number of minutes before another falls on no later instant: the minutes
that are tried for the other are tried for it too. -/
theorem FallsOn.le_of_minutesOn {l m : Nat} (hap : z.Apart (n * 60)) (hback : z.SetsBackAtMost n)
    (hv : v.nanos < 1000000000) (ht : z.FallsOn v k t) (hu : z.FallsOn (v.minutesOn m) l u) :
    t ≤ u := by
  have hshows : z.wallTime u = v.minutesOn (m + l) :=
    hu.shows.trans (Moment.minutesOn_minutesOn m l)
  have hkl : k ≤ m + l := by
    by_contra hlt
    exact ht.skipped (m + l) (Nat.not_le.1 hlt) ⟨u, hshows⟩
  have hpast : v.minutesOn k ≤ z.wallTime u := by
    rw [hshows]
    exact Moment.le_minutesOn hv hkl
  obtain ⟨q, hqu, hq⟩ := exists_earlier hap hback ⟨t, ht.shows⟩ hpast
  exact Moment.le_trans (ht.earliest q hq) hqu

theorem localize_mono (hz : z.WithinDay) (hap : z.Apart (n * 60)) (hback : z.SetsBackAtMost n)
    (hv : v.Inside) (hw : w.Inside) (hvm : v.WholeMinute) (hwm : w.WholeMinute) (hle : v ≤ w)
    (ht : z.localize v = .ok t) (hu : z.localize w = .ok u) : t ≤ u := by
  have hvn : v.nanos < 1000000000 := by rw [hvm.2]; decide
  have hwn : w.nanos < 1000000000 := by rw [hwm.2]; decide
  obtain ⟨k, -, hfalls⟩ := fallsOn_of_localize hz hap.ordered hv (by omega) ht
  obtain ⟨l, -, hfalls'⟩ := fallsOn_of_localize hz hap.ordered hw (by omega) hu
  obtain ⟨m, rfl⟩ := hvm.exists_minutesOn hwm hle
  exact hfalls.le_of_minutesOn hap hback hvn hfalls'

/-- For a zone whose changes are more than two days apart and set the clocks back by a day at most.
There is an instant just if the wall time occurs or one of the 120 minutes after it does; it is the
earliest instant of the first of them that occurs. That is so if the stretch in which the wall time
is skipped lasts 120 minutes at most. If no change skips more than that, whole minutes keep their
order. -/
theorem localize_first_minute_in_order (hz : z.WithinDay) (hap : z.Apart 172800)
    (hback : z.SetsBackAtMost 1440) :
    (∀ w : WallTime, w.Inside → w.nanos < 2000000000 →
      ((∃ t, z.localize w = .ok t) ↔ ∃ k ≤ 120, z.Occurs (w.minutesOn k)) ∧
      (∀ t, z.localize w = .ok t ↔ ∃ k ≤ 120, z.FallsOn w k t) ∧
      (z.localize w = .error (.cause ()) ↔ ∀ k ≤ 120, ¬ z.Occurs (w.minutesOn k)) ∧
      (z.SkipsAtMostAt 120 w → ∃ t, z.localize w = .ok t)) ∧
    (z.JumpsAtMost 120 → ∀ v w : WallTime, v.Inside → w.Inside → v.WholeMinute → w.WholeMinute →
      v ≤ w → ∃ t u, z.localize v = .ok t ∧ z.localize w = .ok u ∧ t ≤ u) := by
  have ho := hap.ordered
  refine ⟨fun w hin hw => ⟨exists_localize_iff hz ho hin hw,
    fun t => localize_eq_ok_iff hz ho hin hw, localize_eq_error_iff hz ho hin hw,
    exists_localize_of_skipsAtMostAt hz (hap.mono (by decide)) hin hw⟩, ?_⟩
  intro hjumps v w hv hw hvm hwm hle
  have hskip := hjumps.skipsAtMost ho
  have hfound {x : WallTime} (hx : x.Inside) (hxm : x.WholeMinute) :
      ∃ t, z.localize x = .ok t :=
    exists_localize_of_skipsAtMostAt hz (hap.mono (by decide)) hx (by rw [hxm.2]; decide)
      (hskip.skipsAtMostAt x)
  obtain ⟨t, ht⟩ := hfound hv hvm
  obtain ⟨u, hu⟩ := hfound hw hwm
  have hday : z.Apart (1440 * 60) := hap.mono (by decide)
  exact ⟨t, u, ht, hu, localize_mono hz hday hback hv hw hvm hwm hle ht hu⟩

end Zone

namespace Sample

/-- Clocks go forward by two hours in spring, on 31 March 2024 at one o'clock, and back in
autumn. -/
def polarZone : Zone := ⟨"Polar", 0, [⟨1711846800, 7200⟩, ⟨1729990800, 0⟩]⟩

end Sample

open Sample

/-- One o'clock is skipped, and 120 minutes later the clocks show three; that is the instant after
the one of a minute to one. -/
theorem Zone.localize_two_skipped_hours :
    polarZone.WithinDay ∧ polarZone.Apart 172800 ∧ polarZone.SetsBackAtMost 1440 ∧
      polarZone.JumpsAtMost 120 ∧
      (∃ k ≤ 120, polarZone.FallsOn ⟨1711846800, 0⟩ k ⟨1711846800, 0⟩) ∧
      ∃ t u, polarZone.localize ⟨1711846740, 0⟩ = .ok t ∧
        polarZone.localize ⟨1711846800, 0⟩ = .ok u ∧ t ≤ u := by
  have hz : polarZone.WithinDay := by decide
  have hap : polarZone.Apart 172800 := by decide
  have hback : polarZone.SetsBackAtMost 1440 := by decide
  have hjumps : polarZone.JumpsAtMost 120 := by decide
  have hgiven : polarZone.localize ⟨1711846800, 0⟩ = .ok ⟨1711846800, 0⟩ := by decide +kernel
  obtain ⟨hone, htwo⟩ := Zone.localize_first_minute_in_order hz hap hback
  obtain ⟨-, hfalls, -⟩ := hone ⟨1711846800, 0⟩ (by decide) (by decide)
  exact ⟨hz, hap, hback, hjumps, (hfalls _).1 hgiven,
    htwo hjumps _ _ (by decide) (by decide) (by decide) (by decide) (by decide)⟩

end Outreach
