import Outreach.Proofs.Time.Month
import Outreach.Schedule

/-!
# Outreach.Proofs.Schedule

Which days a schedule selects, which of them are tried for the next fire, and in what order.

* `Schedule.Selects`, `Schedule.FiresOn` — the days of a schedule and the fire of a day.
* `Schedule.Repeating` — what `validate` has checked of a schedule that repeats.
* `Schedule.mem_candidates` — the days that are tried are the selected ones of `InWindow`.
* `Schedule.firstAfter_some`, `Schedule.firstAfter_none_iff` — what it means that one of them is
  found, or none.
-/

namespace Outreach

theorem Weekday.mem_all (w : Weekday) : w ∈ Weekday.all := by
  cases w <;> decide

namespace Schedule

variable {s : Schedule} {z : Zone} {now t : Instant} {time d n : Int} {ds : List Int}

/-! ## What a schedule says -/

/-- Every day, the days of the week listed, or one day in each month, which is the last day of a
shorter month. -/
def Selects (s : Schedule) (d : Int) : Prop :=
  match s.repeats with
  | .never => False
  | .daily => True
  | .weekly => ∃ c ∈ (s.days.getD "").toList, Weekday.ofLetter? c = some (Weekday.ofDays d)
  | .monthly => ∃ day, s.day = some day ∧
      (Date.ofDays d).day = min day (daysInMonth (Date.ofDays d).year (Date.ofDays d).month)

/-- The hour and minute of the schedule on day `d` fall on `t`. -/
def FiresOn (s : Schedule) (z : Zone) (d : Int) (t : Instant) : Prop :=
  ∃ hour minute, s.hour = some hour ∧ s.minute = some minute ∧
    z.localize (Moment.ofDay d (hour * 3600 + minute * 60 : Nat)) = .ok t

theorem timeOfDay_eq (h : s.timeOfDay = .ok time) :
    ∃ hour minute, s.hour = some hour ∧ s.minute = some minute ∧ hour < 24 ∧ minute < 60 ∧
      time = (hour * 3600 + minute * 60 : Nat) := by
  unfold timeOfDay at h
  split at h
  · rename_i hour minute hhour hminute
    split at h
    · rename_i hlt
      cases h
      exact ⟨hour, minute, hhour, hminute, hlt.1, hlt.2, rfl⟩
    · cases h
  · cases h

theorem timeOfDay_bounds (h : s.timeOfDay = .ok time) :
    0 ≤ time ∧ time < 86400 ∧ time % 60 = 0 := by
  obtain ⟨hour, minute, -, -, hhour, hminute, rfl⟩ := timeOfDay_eq h
  omega

theorem firesOn_iff (h : s.timeOfDay = .ok time) :
    s.FiresOn z d t ↔ z.localize (Moment.ofDay d time) = .ok t := by
  obtain ⟨hour, minute, hhour, hminute, -, -, rfl⟩ := timeOfDay_eq h
  simp only [FiresOn, hhour, hminute, Option.some.injEq, exists_and_left, exists_eq_left']

theorem mem_weekdaysOf {cs : List Char} {ws : List Weekday} {w : Weekday}
    (h : weekdaysOf cs = .ok ws) : w ∈ ws ↔ ∃ c ∈ cs, Weekday.ofLetter? c = some w := by
  induction cs generalizing ws with
  | nil =>
    cases h
    simp
  | cons c cs ih =>
    unfold weekdaysOf at h
    split at h
    · cases h
    · rename_i v hv
      split at h
      · cases h
      · rename_i vs hvs
        cases h
        simp [ih hvs, hv, eq_comm]

theorem mem_weekdays {ws : List Weekday} {w : Weekday} (h : s.weekdays = .ok ws) :
    w ∈ ws ↔ ∃ c ∈ (s.days.getD "").toList, Weekday.ofLetter? c = some w := by
  unfold weekdays at h
  split at h
  · cases h
  · rename_i vs hvs
    cases h
    simp only [List.mem_filter, Weekday.mem_all, true_and, List.contains_eq_mem, decide_eq_true_eq]
    exact mem_weekdaysOf hvs

/-- A schedule that repeats and has been checked. -/
structure Repeating (s : Schedule) (time : Int) : Prop where
  repeats : s.repeats ≠ .never
  time : s.timeOfDay = .ok time
  weekly : s.repeats = .weekly → ∃ ws, s.weekdays = .ok ws ∧ ws ≠ []
  monthly : s.repeats = .monthly → ∃ day, s.day = some day ∧ 1 ≤ day

theorem exists_repeating (h : s.validate = .ok ()) (hr : s.repeats ≠ .never) :
    ∃ time, s.Repeating time := by
  unfold validate at h
  split at h
  case h_1 hnever => exact absurd hnever hr
  case h_2 hdaily =>
    split at h
    · cases h
    · rename_i time htime
      exact ⟨time, hr, htime, by simp [hdaily], by simp [hdaily]⟩
  case h_3 hweekly =>
    split at h
    · cases h
    · rename_i time htime
      split at h
      · cases h
      · cases h
      · rename_i w ws hws
        exact ⟨time, hr, htime, fun _ => ⟨w :: ws, hws, List.cons_ne_nil w ws⟩, by simp [hweekly]⟩
  case h_4 hmonthly =>
    split at h
    · cases h
    · rename_i time htime
      split at h
      · cases h
      · rename_i day hday
        split at h
        · rename_i hbounds
          exact ⟨time, hr, htime, by simp [hmonthly], fun _ => ⟨day, hday, hbounds.1⟩⟩
        · cases h

/-! ## The days that are tried -/

/-- The days among which the next fire is looked for, when day `n` is today. -/
def InWindow (s : Schedule) (n d : Int) : Prop :=
  match s.repeats with
  | .never => False
  | .daily => n ≤ d ∧ d ≤ n + 1
  | .weekly => n ≤ d ∧ d ≤ n + 7
  | .monthly => Date.monthOf n ≤ Date.monthOf d ∧ Date.monthOf d ≤ Date.monthOf n + 2 ∧
      Moment.IsDay (Date.monthStart (Date.monthOf d + 1))

/-- Of the days up to one that is tried, none is left out. -/
theorem InWindow.before {e : Int} (hn : Moment.IsDay n) (h : s.InWindow n d) (hne : n ≤ e)
    (hed : e ≤ d) : s.InWindow n e := by
  unfold InWindow at *
  split at h
  · exact h
  · omega
  · omega
  · obtain ⟨-, hlast, hend⟩ := h
    have hmonth := Date.monthOf_mono hne
    have hmonth' := Date.monthOf_mono hed
    have hstart : Date.monthStart (Date.monthOf e + 1) ≤ Date.monthStart (Date.monthOf d + 1) :=
      Date.monthStart_mono (by omega)
    have hbounds := Date.monthOf_bounds e
    refine ⟨hmonth, by omega, ?_⟩
    unfold Moment.IsDay at *
    omega

theorem mem_daysAhead {count : Nat} (h : daysAhead n count = some ds) :
    d ∈ ds ↔ n ≤ d ∧ d ≤ n + count := by
  simp only [daysAhead, Option.ite_none_right_eq_some, Option.some.injEq] at h
  obtain ⟨-, rfl⟩ := h
  simp only [List.mem_map, List.mem_range]
  constructor
  · rintro ⟨k, hk, rfl⟩
    omega
  · rintro ⟨hlow, hhigh⟩
    exact ⟨(d - n).toNat, by omega, by omega⟩

theorem sorted_daysAhead {count : Nat} (h : daysAhead n count = some ds) :
    ds.Pairwise (· < ·) := by
  simp only [daysAhead, Option.ite_none_right_eq_some, Option.some.injEq] at h
  obtain ⟨-, rfl⟩ := h
  refine List.pairwise_map.2 (List.pairwise_lt_range.imp fun hlt => ?_)
  omega

theorem exists_daysAhead (count : Nat) (hn : Moment.IsDay n)
    (hlast : n + count ≤ Moment.lastDay) : ∃ ds, daysAhead n count = some ds := by
  refine ⟨_, if_pos fun d hd => ?_⟩
  simp only [List.mem_map, List.mem_range] at hd
  obtain ⟨k, hk, rfl⟩ := hd
  unfold Moment.IsDay at *
  omega

theorem dayOfMonth?_eq (n : Int) (ahead day : Nat) :
    dayOfMonth? n ahead day = if Moment.IsDay (Date.monthStart (Date.monthOf n + ahead + 1)) then
      some (Date.dayIn (Date.monthOf n + ahead) day) else none := by
  have hindex : (Date.ofDays n).year * 12 + ((Date.ofDays n).month : Int) - 1 + ahead =
      Date.monthOf n + ahead := rfl
  unfold dayOfMonth?
  simp only [hindex]
  generalize Date.monthOf n + ahead = i
  have hnext : (if (i % 12).toNat + 1 = 12 then (⟨i / 12 + 1, 1, 1⟩ : Date)
      else ⟨i / 12, (i % 12).toNat + 1 + 1, 1⟩).toDays = Date.monthStart (i + 1) := by
    unfold Date.monthStart
    split
    · rw [show (i + 1) / 12 = i / 12 + 1 by omega, show ((i + 1) % 12).toNat + 1 = 1 by omega]
    · rw [show (i + 1) / 12 = i / 12 by omega,
        show ((i + 1) % 12).toNat = (i % 12).toNat + 1 by omega]
  have hdate : (⟨i / 12, (i % 12).toNat + 1,
      min day (daysInMonth (i / 12) ((i % 12).toNat + 1))⟩ : Date).toDays = Date.dayIn i day := by
    have hlength := Date.monthLength_bounds i
    unfold Date.dayIn Date.monthStart Date.monthLength at *
    simp only [Date.toDays]
    omega
  rw [hnext, hdate]

theorem selects_monthly_iff {day : Nat} (hmonthly : s.repeats = .monthly)
    (hday : s.day = some day) : s.Selects d ↔ d = Date.dayIn (Date.monthOf d) day := by
  simp only [Selects, hmonthly, hday, Option.some.injEq, exists_eq_left', Date.eq_dayIn_iff]

/-- What the days that are tried are. -/
theorem candidates_cases (hs : s.Repeating time) (h : s.candidates n = .ok ds) :
    (s.repeats = .daily ∧ daysAhead n 1 = some ds) ∨
    (s.repeats = .weekly ∧ ∃ ws days, s.weekdays = .ok ws ∧ daysAhead n 7 = some days ∧
      ds = days.filter fun d => ws.contains (Weekday.ofDays d)) ∨
    (s.repeats = .monthly ∧ ∃ day, s.day = some day ∧ 1 ≤ day ∧
      ds = (List.range 3).filterMap fun m => dayOfMonth? n m day) := by
  unfold candidates at h
  split at h
  case h_1 hnever => exact absurd hnever hs.repeats
  case h_2 hdaily =>
    split at h
    · cases h
    · rename_i hdays
      cases h
      exact .inl ⟨hdaily, hdays⟩
  case h_3 hweekly =>
    split at h
    · cases h
    · rename_i ws hws
      split at h
      · cases h
      · rename_i days hdays
        cases h
        exact .inr (.inl ⟨hweekly, ws, days, hws, hdays, rfl⟩)
  case h_4 hmonthly =>
    obtain ⟨day, hday, hone⟩ := hs.monthly hmonthly
    simp only [hday, Except.ok.injEq] at h
    exact .inr (.inr ⟨hmonthly, day, hday, hone, h.symm⟩)

theorem mem_candidates (hs : s.Repeating time) (h : s.candidates n = .ok ds) :
    d ∈ ds ↔ s.Selects d ∧ s.InWindow n d := by
  rcases candidates_cases hs h with ⟨hdaily, hdays⟩ | ⟨hweekly, ws, days, hws, hdays, rfl⟩ |
    ⟨hmonthly, day, hday, hone, rfl⟩
  · simpa [Selects, InWindow, hdaily] using mem_daysAhead hdays
  · have hmem := mem_daysAhead (d := d) hdays
    simp only [List.mem_filter, hmem, List.contains_eq_mem, decide_eq_true_eq,
      mem_weekdays hws, Selects, InWindow, hweekly]
    exact And.comm
  · rw [selects_monthly_iff hmonthly hday]
    simp only [InWindow, hmonthly, List.mem_filterMap, List.mem_range, dayOfMonth?_eq,
      Option.ite_none_right_eq_some, Option.some.injEq]
    constructor
    · rintro ⟨m, hm, hend, rfl⟩
      rw [Date.monthOf_dayIn hone]
      exact ⟨rfl, by omega, by omega, hend⟩
    · rintro ⟨hd, hlow, hhigh, hend⟩
      refine ⟨(Date.monthOf d - Date.monthOf n).toNat, by omega, ?_⟩
      rw [show Date.monthOf n + ((Date.monthOf d - Date.monthOf n).toNat : Int) = Date.monthOf d by
        omega]
      exact ⟨hend, hd.symm⟩

theorem sorted_candidates (hs : s.Repeating time) (h : s.candidates n = .ok ds) :
    ds.Pairwise (· < ·) := by
  rcases candidates_cases hs h with ⟨-, hdays⟩ | ⟨-, ws, days, -, hdays, rfl⟩ |
    ⟨-, day, -, hone, rfl⟩
  · exact sorted_daysAhead hdays
  · exact (sorted_daysAhead hdays).filter _
  · refine List.pairwise_filterMap.2 (List.pairwise_lt_range.imp fun hlt d hd e he => ?_)
    simp only [dayOfMonth?_eq, Option.ite_none_right_eq_some, Option.some.injEq] at hd he
    rw [← hd.2, ← he.2]
    exact Date.dayIn_lt hone (by omega)

theorem exists_candidates (hs : s.Repeating time) (hn : Moment.IsDay n)
    (hlast : n + 7 ≤ Moment.lastDay) : ∃ ds, s.candidates n = .ok ds := by
  unfold candidates
  split
  case h_1 => exact ⟨[], rfl⟩
  case h_2 =>
    obtain ⟨ds, hds⟩ := exists_daysAhead 1 hn (by omega)
    exact ⟨ds, by rw [hds]⟩
  case h_3 hweekly =>
    obtain ⟨ws, hws, -⟩ := hs.weekly hweekly
    obtain ⟨ds, hds⟩ := exists_daysAhead 7 hn hlast
    exact ⟨_, by rw [hws, hds]⟩
  case h_4 hmonthly =>
    obtain ⟨day, hday, -⟩ := hs.monthly hmonthly
    exact ⟨_, by rw [hday]⟩

/-! ## The first fire -/

/-- The fire that is found is the one of the first day whose fire is not past. -/
theorem firstAfter_some (hsorted : ds.Pairwise (· < ·))
    (h : firstAfter z now time ds = .ok (some t)) :
    ∃ d ∈ ds, z.localize (Moment.ofDay d time) = .ok t ∧ now < t ∧
      ∀ e ∈ ds, e < d → ∃ u, z.localize (Moment.ofDay e time) = .ok u ∧ u ≤ now := by
  induction ds with
  | nil => cases h
  | cons d ds ih =>
    obtain ⟨hd, hsorted'⟩ := List.pairwise_cons.1 hsorted
    simp only [firstAfter] at h
    split at h
    · cases h
    · cases h
    · rename_i fire hfire
      split at h
      · rename_i hlt
        cases h
        refine ⟨d, List.mem_cons_self, hfire, hlt, fun e he hed => ?_⟩
        rcases List.mem_cons.1 he with rfl | he
        · omega
        · have hde := hd e he
          omega
      · rename_i hpast
        obtain ⟨c, hc, hlocal, hlt, hbefore⟩ := ih hsorted' h
        refine ⟨c, List.mem_cons_of_mem d hc, hlocal, hlt, fun e he hec => ?_⟩
        rcases List.mem_cons.1 he with rfl | he
        · exact ⟨fire, hfire, Moment.not_lt.1 hpast⟩
        · exact hbefore e he hec

theorem firstAfter_none_iff : firstAfter z now time ds = .ok none ↔
    ∀ d ∈ ds, ∃ t, z.localize (Moment.ofDay d time) = .ok t ∧ t ≤ now := by
  induction ds with
  | nil => simp [firstAfter]
  | cons d ds ih =>
    simp only [firstAfter, List.forall_mem_cons]
    split
    · rename_i hfail
      simp [hfail]
    · rename_i hfail
      simp [hfail]
    · rename_i fire hfire
      split
      · rename_i hlt
        simp [hfire, ← Moment.not_lt, hlt]
      · rename_i hpast
        simp [hfire, ← Moment.not_lt, hpast, ih]

theorem exists_firstAfter (h : ∀ d ∈ ds, ∃ t, z.localize (Moment.ofDay d time) = .ok t) :
    ∃ r, firstAfter z now time ds = .ok r := by
  induction ds with
  | nil => exact ⟨none, rfl⟩
  | cons d ds ih =>
    obtain ⟨⟨fire, hfire⟩, hds⟩ := List.forall_mem_cons.1 h
    simp only [firstAfter, hfire]
    split
    · exact ⟨some fire, rfl⟩
    · exact ih hds

/-! ## The next fire -/

theorem nextFire_eq (hvalid : s.validate = .ok ()) (hs : s.Repeating time)
    (hwall : (z.wallTime now).InRange) (hds : s.candidates (z.wallTime now).day = .ok ds) :
    s.nextFire z now = firstAfter z now time ds := by
  have hwall' : z.wallTime? now = some (z.wallTime now) := if_pos hwall
  simp only [nextFire, hvalid, if_neg hs.repeats, hs.time, hwall', hds]

theorem nextFire_some (h : s.nextFire z now = .ok (some t)) :
    ∃ time ds, s.Repeating time ∧ (z.wallTime now).InRange ∧
      s.candidates (z.wallTime now).day = .ok ds ∧ firstAfter z now time ds = .ok (some t) := by
  unfold nextFire at h
  split at h
  · cases h
  · rename_i hvalid
    split at h
    · cases h
    · rename_i hrepeats
      obtain ⟨time, hs⟩ := exists_repeating hvalid hrepeats
      simp only [hs.time] at h
      split at h
      · cases h
      · rename_i wall hwall
        simp only [Zone.wallTime?, Option.ite_none_right_eq_some, Option.some.injEq] at hwall
        obtain ⟨hin, rfl⟩ := hwall
        split at h
        · cases h
        · rename_i ds hds
          exact ⟨time, ds, hs, hin, hds, h⟩

end Schedule
end Outreach
