import Outreach.Proofs.Schedule.Next

/-!
# Outreach.Proofs.Schedule.Missing

Whether a schedule that repeats has a next fire. One period is tried, from today on. A clock that is
set back over midnight shows a day again that was over, and the day after it, which is the last that
a daily schedule tries, may have its fire in the past.

* `Schedule.exists_far_day` — a monthly schedule always tries a day that is far enough ahead.
* `Schedule.after_of_day` — the fires of days that are far enough ahead are after now.
* `Schedule.nextFire_none_iff` — just when there is no next fire.
-/

namespace Outreach

namespace Weekday

theorem ofDays_eq_iff {m n : Int} : ofDays m = ofDays n ↔ (m - n) % 7 = 0 := by
  constructor
  · intro h
    have hm := index_ofDays m
    have hn := index_ofDays n
    rw [h] at hm
    omega
  · intro h
    have hsame : (m + 3) % 7 = (n + 3) % 7 := by omega
    simp only [ofDays, hsame]

end Weekday

namespace Schedule

variable {s : Schedule} {z : Zone} {now t : Instant} {time d e n : Int}

/-! ## The days that are tried -/

/-- The range ends with December of the year 262142. -/
theorem lastDay_eq : Date.monthStart (262143 * 12) = Moment.lastDay + 1 := by decide

/-- None of them is at the ends of the range. -/
theorem InWindow.inside (h : s.InWindow n d) (hlow : Moment.firstDay + 33 ≤ n)
    (hhigh : n + 9 ≤ Moment.lastDay) : Moment.firstDay + 2 ≤ d ∧ d + 2 ≤ Moment.lastDay := by
  unfold InWindow at h
  split at h
  · exact h.elim
  · omega
  · omega
  · obtain ⟨hfirst, -, hend⟩ := h
    have hn := Date.monthOf_bounds n
    have hd := Date.monthOf_bounds d
    rw [Date.monthStart_succ] at hn
    have hlength := Date.monthLength_bounds (Date.monthOf n)
    have hstart : Date.monthStart (Date.monthOf n) ≤ Date.monthStart (Date.monthOf d) :=
      Date.monthStart_mono hfirst
    have hlast : Date.monthOf d + 1 < 262143 * 12 := by
      rw [← Date.monthStart_lt_iff, lastDay_eq]
      unfold Moment.IsDay at hend
      omega
    have hnext : Date.monthStart (Date.monthOf d + 1 + 1) ≤ Moment.lastDay + 1 := by
      rw [← lastDay_eq]
      exact Date.monthStart_mono (by omega)
    have hlength' := Date.monthLength_bounds (Date.monthOf d + 1)
    rw [Date.monthStart_succ (Date.monthOf d + 1)] at hnext
    omega

/-- The day of the month after next will do, or that of the next month in the last October of the
range. -/
theorem exists_far_day (hs : s.Repeating time) (hmonthly : s.repeats = .monthly)
    (hlow : Moment.firstDay ≤ n) (hhigh : n + 89 ≤ Moment.lastDay) :
    ∃ d, s.Selects d ∧ s.InWindow n d ∧ n + 3 ≤ d := by
  obtain ⟨day, hday, hone⟩ := hs.monthly hmonthly
  have htried (j : Int) (hij : Date.monthOf n ≤ j) (hj : j ≤ Date.monthOf n + 2)
      (hend : Moment.IsDay (Date.monthStart (j + 1))) (hfar : n + 3 ≤ Date.monthStart j) :
      ∃ d, s.Selects d ∧ s.InWindow n d ∧ n + 3 ≤ d := by
    refine ⟨Date.dayIn j day, ?_, ?_, Int.le_trans hfar (Date.monthStart_le_dayIn hone)⟩
    · rw [selects_monthly_iff hmonthly hday, Date.monthOf_dayIn hone]
    · simp only [InWindow, hmonthly, Date.monthOf_dayIn hone]
      exact ⟨hij, hj, hend⟩
  have hn := Date.monthOf_bounds n
  generalize Date.monthOf n = i at *
  have hfirst := Date.monthStart_succ i
  have hsecond := Date.monthStart_succ (i + 1)
  have hthird := Date.monthStart_succ (i + 1 + 1)
  have hlength := Date.monthLength_bounds i
  have hlength' := Date.monthLength_bounds (i + 1)
  have hlength'' := Date.monthLength_bounds (i + 1 + 1)
  by_cases hend : Date.monthStart (i + 1 + 1 + 1) ≤ Moment.lastDay
  · exact htried (i + 1 + 1) (by omega) (by omega) ⟨by omega, hend⟩ (by omega)
  · have hbefore : i + 1 + 1 < 262143 * 12 := by
      rw [← Date.monthStart_lt_iff, lastDay_eq]
      omega
    have hin := Date.monthStart_lt_iff.2 hbefore
    rw [lastDay_eq] at hin
    exact htried (i + 1) (by omega) (by omega) ⟨by omega, by omega⟩ (by omega)

/-! ## Their fires -/

theorem exists_fire (hs : s.Repeating time) (hz : z.WithinDay) (hap : z.Apart 59)
    (hskip : z.SkipsAtMost 120) (hlow : Moment.firstDay + 2 ≤ d)
    (hhigh : d + 2 ≤ Moment.lastDay) : ∃ t, z.localize (Moment.ofDay d time) = .ok t := by
  obtain ⟨h0, h24, -⟩ := timeOfDay_bounds hs.time
  have hnanos := Moment.nanos_ofDay_lt d time
  have hday := Moment.day_ofDay h0 h24 d
  obtain ⟨k, hk, t, ht⟩ := Zone.exists_fallsOn hap hskip hnanos
  have hrange := Zone.staysInRange hz hap hskip hnanos (by omega) (by omega)
  exact ⟨t, Zone.localize_of_fallsOn hap.ordered hrange ht hk⟩

theorem day_le_of_fire (hs : s.Repeating time) (ho : z.Ordered)
    (h : z.localize (Moment.ofDay d time) = .ok t) : d ≤ (z.wallTime t).day := by
  obtain ⟨h0, h24, -⟩ := timeOfDay_bounds hs.time
  have hle := Moment.day_mono (Zone.le_wallTime_of_localize ho (Moment.nanos_ofDay_lt d time) h)
  rwa [Moment.day_ofDay h0 h24] at hle

/-- Offsets differ by less than two days. -/
theorem after_of_day (hz : z.WithinDay) (h : (z.wallTime now).day + 3 ≤ (z.wallTime t).day) :
    now < t := by
  have hnow := hz.offsetAt now.seconds
  have ht := hz.offsetAt t.seconds
  unfold Moment.day at h
  simp only [Zone.wallTime, Moment.shift] at h
  rw [Moment.lt_def]
  omega

/-- A clock is not set back by two days. -/
theorem after_of_day_of_setBack (hap : z.Apart 86400) (hback : z.SetsBackAtMost 1440)
    (h : (z.wallTime now).day + 2 ≤ (z.wallTime t).day) : now < t := by
  by_contra hpast
  have hle := Zone.wallTime_le_later (n := 1440) hap hback (Moment.not_lt.1 hpast)
  unfold Moment.day at h
  omega

theorem selects_of_weekday (hweekly : s.repeats = .weekly)
    (h : Weekday.ofDays d = Weekday.ofDays e) (hd : s.Selects d) : s.Selects e := by
  simp only [Selects, hweekly] at hd ⊢
  rwa [← h]

theorem exists_selected_weekday (hs : s.Repeating time) (hweekly : s.repeats = .weekly) :
    ∃ d, s.Selects d := by
  obtain ⟨ws, hws, hne⟩ := hs.weekly hweekly
  obtain ⟨w, hw⟩ := List.exists_mem_of_ne_nil ws hne
  refine ⟨w.onOrAfter 0, ?_⟩
  simp only [Selects, hweekly]
  rw [(Weekday.ofDays_onOrAfter w 0).1]
  exact (mem_weekdays hws).1 hw

/-! ## Tomorrow -/

/-- A day after today is tried. -/
theorem exists_later_day (hs : s.Repeating time) (hlow : Moment.firstDay ≤ n)
    (hhigh : n + 89 ≤ Moment.lastDay) : ∃ d, s.Selects d ∧ s.InWindow n d ∧ n < d := by
  cases hrepeats : s.repeats with
  | never => exact absurd hrepeats hs.repeats
  | daily =>
    simp only [Selects, InWindow, hrepeats]
    exact ⟨n + 1, trivial, by omega, by omega⟩
  | weekly =>
    obtain ⟨e, he⟩ := exists_selected_weekday hs hrepeats
    obtain ⟨hweekday, hfirst, hlast⟩ := Weekday.ofDays_onOrAfter (Weekday.ofDays e) (n + 1)
    refine ⟨_, selects_of_weekday hrepeats hweekday.symm he, ?_, by omega⟩
    simp only [InWindow, hrepeats]
    omega
  | monthly =>
    obtain ⟨d, hd, hwindow, hfar⟩ := exists_far_day hs hrepeats hlow hhigh
    exact ⟨d, hd, hwindow, by omega⟩

/-- Every day that is tried has had its fire. -/
def AllPast (s : Schedule) (z : Zone) (now : Instant) : Prop :=
  ∀ d, s.Selects d → s.InWindow (z.wallTime now).day d → ∃ t, s.FiresOn z d t ∧ t ≤ now

theorem AllPast.not_monthly (h : s.AllPast z now) (hs : s.Repeating time) (hz : z.WithinDay)
    (ho : z.Ordered) (hlow : Moment.firstDay ≤ (z.wallTime now).day)
    (hhigh : (z.wallTime now).day + 89 ≤ Moment.lastDay) : s.repeats ≠ .monthly := by
  intro hmonthly
  obtain ⟨d, hd, hwindow, hfar⟩ := exists_far_day hs hmonthly hlow hhigh
  obtain ⟨t, ht, hpast⟩ := h d hd hwindow
  have hday := day_le_of_fire hs ho ((firesOn_iff hs.time).1 ht)
  exact Moment.not_lt.2 hpast (after_of_day hz (by omega))

theorem AllPast.shown (h : s.AllPast z now) (hs : s.Repeating time) (ho : z.Ordered)
    (hlow : Moment.firstDay ≤ (z.wallTime now).day)
    (hhigh : (z.wallTime now).day + 89 ≤ Moment.lastDay) :
    ∃ t ≤ now, (z.wallTime now).day < (z.wallTime t).day := by
  obtain ⟨d, hd, hwindow, hlater⟩ := exists_later_day hs hlow hhigh
  obtain ⟨t, ht, hpast⟩ := h d hd hwindow
  have hday := day_le_of_fire hs ho ((firesOn_iff hs.time).1 ht)
  exact ⟨t, hpast, by omega⟩

/-- Of the days that are tried only tomorrow can be a later one with its fire in the past. -/
theorem AllPast.only_tomorrow (h : s.AllPast z now) (hs : s.Repeating time)
    (hap : z.Apart 86400) (hback : z.SetsBackAtMost 1440) (hweekly : s.repeats = .weekly)
    (hd : s.Selects d) : Weekday.ofDays d = Weekday.ofDays ((z.wallTime now).day + 1) := by
  obtain ⟨hweekday, hfirst, hlast⟩ :=
    Weekday.ofDays_onOrAfter (Weekday.ofDays d) ((z.wallTime now).day + 2)
  generalize (Weekday.ofDays d).onOrAfter ((z.wallTime now).day + 2) = e at *
  by_contra hother
  rw [← hweekday, Weekday.ofDays_eq_iff] at hother
  have hwindow : s.InWindow (z.wallTime now).day e := by
    simp only [InWindow, hweekly]
    omega
  obtain ⟨t, ht, hpast⟩ := h e (selects_of_weekday hweekly hweekday.symm hd) hwindow
  have hday := day_le_of_fire hs hap.ordered ((firesOn_iff hs.time).1 ht)
  exact Moment.not_lt.2 hpast (after_of_day_of_setBack hap hback (by omega))

theorem tomorrow_tried (hs : s.Repeating time) (hnot : s.repeats ≠ .monthly)
    (honly : s.repeats = .weekly → ∀ d, s.Selects d → Weekday.ofDays d = Weekday.ofDays (n + 1)) :
    s.Selects (n + 1) ∧ s.InWindow n (n + 1) := by
  cases hrepeats : s.repeats with
  | never => exact absurd hrepeats hs.repeats
  | daily =>
    simp only [Selects, InWindow, hrepeats]
    exact ⟨trivial, by omega, by omega⟩
  | weekly =>
    obtain ⟨d, hd⟩ := exists_selected_weekday hs hrepeats
    refine ⟨selects_of_weekday hrepeats (honly hrepeats d hd) hd, ?_⟩
    simp only [InWindow, hrepeats]
    omega
  | monthly => exact absurd hrepeats hnot

theorem today_or_tomorrow (hs : s.Repeating time) (hnot : s.repeats ≠ .monthly)
    (honly : s.repeats = .weekly → ∀ d, s.Selects d → Weekday.ofDays d = Weekday.ofDays (n + 1))
    (hd : s.Selects d) (hwindow : s.InWindow n d) : d = n ∨ d = n + 1 := by
  cases hrepeats : s.repeats with
  | never => exact absurd hrepeats hs.repeats
  | daily =>
    simp only [InWindow, hrepeats] at hwindow
    omega
  | weekly =>
    have hweekday := Weekday.ofDays_eq_iff.1 (honly hrepeats d hd)
    simp only [InWindow, hrepeats] at hwindow
    omega
  | monthly => exact absurd hrepeats hnot

/-- All is past just if tomorrow's fire is and no other day of the week is selected. -/
theorem allPast_iff (hs : s.Repeating time) (hz : z.WithinDay) (hskip : z.SkipsAtMost 120)
    (hap : z.Apart 86400) (hback : z.SetsBackAtMost 1440)
    (hlow : Moment.firstDay + 2 ≤ (z.wallTime now).day)
    (hhigh : (z.wallTime now).day + 89 ≤ Moment.lastDay) :
    s.AllPast z now ↔ s.repeats ≠ .monthly ∧
      (s.repeats = .weekly → ∀ d, s.Selects d →
        Weekday.ofDays d = Weekday.ofDays ((z.wallTime now).day + 1)) ∧
      ∃ t, s.FiresOn z ((z.wallTime now).day + 1) t ∧ t ≤ now := by
  constructor
  · intro h
    have hnot := h.not_monthly hs hz hap.ordered (by omega) hhigh
    have honly (hweekly : s.repeats = .weekly) (d : Int) (hd : s.Selects d) :=
      h.only_tomorrow hs hap hback hweekly hd
    obtain ⟨hselected, htried⟩ := tomorrow_tried hs hnot honly
    exact ⟨hnot, honly, h _ hselected htried⟩
  · rintro ⟨hnot, honly, t, ht, hpast⟩ d hd hwindow
    rcases today_or_tomorrow hs hnot honly hd hwindow with rfl | rfl
    · obtain ⟨u, hu⟩ := exists_fire hs hz (hap.mono (by decide)) hskip hlow (by omega)
      have hut := fire_le_fire (n := 1440) hap hback hu ((firesOn_iff hs.time).1 ht) (by omega)
      exact ⟨u, (firesOn_iff hs.time).2 hu, Moment.le_trans hut hpast⟩
    · exact ⟨t, ht, hpast⟩

/-! ## The next fire -/

theorem today_bounds (hz : z.WithinDay) (now : Instant) :
    now.day - 1 ≤ (z.wallTime now).day ∧ (z.wallTime now).day ≤ now.day + 1 := by
  have hoffset := hz.offsetAt now.seconds
  unfold Moment.day
  simp only [Zone.wallTime, Moment.shift]
  omega

/-- Three months from the ends of the range the search for the next fire comes to its end, and what
it does not find is past. -/
theorem nextFire_searched (hvalid : s.validate = .ok ()) (hs : s.Repeating time)
    (hz : z.WithinDay) (hap : z.Apart 59) (hskip : z.SkipsAtMost 120)
    (hlow : Moment.firstDay + 90 ≤ now.day) (hhigh : now.day + 90 ≤ Moment.lastDay) :
    (∃ next, s.nextFire z now = .ok next) ∧
      (s.nextFire z now = .ok none ↔ s.AllPast z now) := by
  have htoday := today_bounds hz now
  have hin : (z.wallTime now).InRange := by
    unfold Moment.InRange Moment.IsDay
    omega
  obtain ⟨ds, hds⟩ := exists_candidates hs hin (by omega)
  have hmem (d : Int) := mem_candidates (d := d) hs hds
  rw [nextFire_eq hvalid hs hin hds]
  constructor
  · refine exists_firstAfter fun d hd => ?_
    obtain ⟨hlow', hhigh'⟩ := ((hmem d).1 hd).2.inside (by omega) (by omega)
    exact exists_fire hs hz hap hskip hlow' hhigh'
  · simp only [firstAfter_none_iff, hmem, AllPast, firesOn_iff hs.time, and_imp]

/-- A schedule that repeats has a next fire unless all days that are tried have had theirs. This does
not happen to a monthly schedule, nor before the clocks have been set back over midnight; then it
happens just if tomorrow has had its fire, which leaves a daily schedule none to come, and a weekly
one with no other day of the week. -/
theorem nextFire_none_iff (hz : z.WithinDay) (hap : z.Apart 59) (hskip : z.SkipsAtMost 120)
    (hvalid : s.validate = .ok ()) (hrepeats : s.repeats ≠ .never)
    (hlow : Moment.firstDay + 90 ≤ now.day) (hhigh : now.day + 90 ≤ Moment.lastDay) :
    (∃ next, s.nextFire z now = .ok next) ∧
    (s.nextFire z now = .ok none ↔ s.repeats ≠ .monthly ∧
      ∀ d, s.Selects d → s.InWindow (z.wallTime now).day d → ∃ t, s.FiresOn z d t ∧ t ≤ now) ∧
    (s.nextFire z now = .ok none → ∃ t ≤ now, (z.wallTime now).day < (z.wallTime t).day) ∧
    (z.Apart 86400 → z.SetsBackAtMost 1440 → (s.nextFire z now = .ok none ↔
      s.repeats ≠ .monthly ∧
      (s.repeats = .weekly → ∀ d, s.Selects d →
        Weekday.ofDays d = Weekday.ofDays ((z.wallTime now).day + 1)) ∧
      ∃ t, s.FiresOn z ((z.wallTime now).day + 1) t ∧ t ≤ now)) := by
  obtain ⟨time, hs⟩ := exists_repeating hvalid hrepeats
  obtain ⟨hfound, hnone⟩ := nextFire_searched hvalid hs hz hap hskip hlow hhigh
  have htoday := today_bounds hz now
  rw [hnone]
  refine ⟨hfound, ⟨fun h => ⟨?_, h⟩, And.right⟩, fun h => ?_, fun hap' hback => ?_⟩
  · exact h.not_monthly hs hz hap.ordered (by omega) (by omega)
  · exact h.shown hs hap.ordered (by omega) (by omega)
  · exact allPast_iff hs hz hskip hap' hback (by omega) (by omega)

end Schedule

namespace Sample

/-- The clocks of St. John's in 1990. In October they are set back from one minute past midnight to
one minute past eleven in the evening before. -/
def stJohns1990 : Zone := ⟨"America/St_Johns", -12600, [⟨638940660, -9000⟩, ⟨657081060, -12600⟩]⟩

/-- Half past eleven in the evening of 27 October, for the second time. -/
def secondEvening : Instant := ⟨657082800, 0⟩

def midnights : Schedule := .daily 0 0

theorem apart_stJohns1990 : stJohns1990.Apart 86400 := by decide

theorem skipsAtMost_stJohns1990 : stJohns1990.SkipsAtMost 120 :=
  Zone.JumpsAtMost.skipsAtMost apart_stJohns1990.ordered (by decide)

/-- The midnight that the clocks are about to show has had its fire. -/
theorem midnight_is_past : ∃ t,
    midnights.FiresOn stJohns1990 ((stJohns1990.wallTime secondEvening).day + 1) t ∧
      t ≤ secondEvening := by
  have hlow : Moment.firstDay + 90 ≤ secondEvening.day := by decide
  obtain ⟨-, -, -, hiff⟩ := Schedule.nextFire_none_iff (s := midnights) (z := stJohns1990)
    (by decide) (apart_stJohns1990.mono (by decide)) skipsAtMost_stJohns1990 (by decide)
    (by decide) hlow (by decide)
  have hnone : midnights.nextFire stJohns1990 secondEvening = .ok none := by decide +kernel
  exact ((hiff apart_stJohns1990 (by decide)).1 hnone).2.2

/-- A daily schedule ends there. -/
theorem daily_schedule_ends :
    stJohns1990.SkipsAtMost 120 ∧ midnights.repeats = .daily ∧ midnights.validate = .ok () ∧
      Moment.firstDay + 90 ≤ secondEvening.day ∧ secondEvening.day + 90 ≤ Moment.lastDay ∧
      midnights.nextFire stJohns1990 secondEvening = .ok none :=
  ⟨skipsAtMost_stJohns1990, rfl, by decide, by decide, by decide, by decide +kernel⟩

end Sample
end Outreach
