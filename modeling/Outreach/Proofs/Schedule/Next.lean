import Outreach.Proofs.Campaign.Offset
import Outreach.Proofs.Schedule
import Outreach.Proofs.Time.SetBack

/-!
# Outreach.Proofs.Schedule.Next

The next fire is the next one. Only some days from today on are tried, and a day that is tried may
have its fire on another instant than the clock time says; still no day that the schedule selects,
past or future, has a fire between now and the one that is found.
-/

namespace Outreach
namespace Schedule

variable {s : Schedule} {z : Zone} {now f t u : Instant} {time d e : Int} {n : Nat}

/-- The fires of two days are in the order of the days. -/
theorem fire_le_fire (hap : z.Apart (n * 60)) (hback : z.SetsBackAtMost n)
    (hd : z.localize (Moment.ofDay d time) = .ok t) (he : z.localize (Moment.ofDay e time) = .ok u)
    (hde : d < e) : t ≤ u := by
  refine Zone.localize_le_localize hap hback (Moment.nanos_ofDay_lt d time) hd he
    (Moment.nanos_ofDay_lt e time) ?_
  rw [Moment.minutesOn_eq_shift (Moment.nanos_ofDay_lt d time), Moment.le_def]
  simp only [Moment.shift, Moment.ofDay, Zone.longestGap]
  omega

/-- A day that is over has its fire behind it, also if the time of day is skipped. -/
theorem fire_le_of_day_lt (htime : s.timeOfDay = .ok time) (hz : z.WithinDay)
    (hminutes : z.OnMinutes) (hchanges : z.ChangesOnMinutes) (hap : z.Apart (n * 60))
    (hback : z.SetsBackAtMost n) (hlow : Moment.firstDay + 2 ≤ now.day)
    (hhigh : now.day + 2 ≤ Moment.lastDay)
    (hd : z.localize (Moment.ofDay d time) = .ok t) (hlt : d < (z.wallTime now).day) :
    t ≤ now := by
  obtain ⟨h0, h24, hwhole⟩ := timeOfDay_bounds htime
  refine Zone.localize_le hz hminutes hchanges hap hback hlow hhigh rfl ?_ ?_ hd
  · simp only [Moment.ofDay]
    omega
  · unfold Moment.day at hlt
    rw [Moment.le_def]
    simp only [Moment.ofDay]
    omega

/-- The fire that is found is after now, it is the fire of a day that the schedule selects, and no
such day has a fire in between. -/
theorem nextFire_skips_nothing (hz : z.WithinDay) (hminutes : z.OnMinutes)
    (hchanges : z.ChangesOnMinutes) (hap : z.Apart (n * 60)) (hback : z.SetsBackAtMost n)
    (hlow : Moment.firstDay + 2 ≤ now.day) (hhigh : now.day + 2 ≤ Moment.lastDay)
    (h : s.nextFire z now = .ok (some f)) :
    now < f ∧ (∃ d, s.Selects d ∧ s.FiresOn z d f) ∧
      ∀ e t, s.Selects e → s.FiresOn z e t → ¬ (now < t ∧ t < f) := by
  obtain ⟨time, ds, hs, hin, hds, hfirst⟩ := nextFire_some h
  obtain ⟨d, hd, hf, hlt, hbefore⟩ := firstAfter_some (sorted_candidates hs hds) hfirst
  obtain ⟨hselects, hwindow⟩ := (mem_candidates hs hds).1 hd
  refine ⟨hlt, ⟨d, hselects, (firesOn_iff hs.time).2 hf⟩, ?_⟩
  rintro e t he ht ⟨hnow, hbetween⟩
  rw [firesOn_iff hs.time] at ht
  by_cases hover : e < (z.wallTime now).day
  · -- a day that is not tried, since it is over
    have hpast := fire_le_of_day_lt hs.time hz hminutes hchanges hap hback hlow hhigh ht hover
    exact Moment.not_lt.2 hpast hnow
  · rcases Int.lt_trichotomy e d with hlt | rfl | hlt
    · -- a day that is tried before
      have hmem : e ∈ ds :=
        (mem_candidates hs hds).2 ⟨he, hwindow.before hin (Int.not_lt.1 hover) (by omega)⟩
      obtain ⟨u, hu, hpast⟩ := hbefore e hmem hlt
      obtain rfl : u = t := Except.ok.inj (hu.symm.trans ht)
      exact Moment.not_lt.2 hpast hnow
    · obtain rfl : f = t := Except.ok.inj (hf.symm.trans ht)
      exact Moment.not_lt.2 (Moment.le_refl f) hbetween
    · -- a later day
      exact Moment.not_lt.2 (fire_le_fire hap hback hf ht hlt) hbetween

end Schedule

namespace Sample

/-- Half past two on Sundays. -/
def sundays : Schedule := .weekly "U" 2 30

/-- On the Sunday on which the clocks go forward, half past two is skipped. -/
theorem nextFire_sundays : sundays.nextFire summerZone ⟨1709969400, 0⟩ =
      .ok (some ⟨1710054000, 0⟩) ∧
    ∀ e t, sundays.Selects e → sundays.FiresOn summerZone e t →
      ¬ ((⟨1709969400, 0⟩ : Instant) < t ∧ t < ⟨1710054000, 0⟩) := by
  have hnext : sundays.nextFire summerZone ⟨1709969400, 0⟩ = .ok (some ⟨1710054000, 0⟩) := by
    decide +kernel
  have hap : summerZone.Apart (1440 * 60) := apart_summerZone.mono (by decide)
  obtain ⟨-, -, hbetween⟩ := Schedule.nextFire_skips_nothing (by decide) (by decide) (by decide)
    hap (by decide) (by decide) (by decide) hnext
  exact ⟨hnext, hbetween⟩

end Sample
end Outreach
