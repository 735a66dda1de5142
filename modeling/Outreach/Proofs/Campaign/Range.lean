import Outreach.Proofs.Campaign.Offset
import Outreach.Proofs.Time.Localize
import Outreach.Time.ZoneTable

/-!
# Outreach.Proofs.Campaign.Range

Where the fire of an event leaves the range of moments. Minutes and hours do not lead that far from
a year of four digits, days and weeks do.

* `EventSpec.LeadsToWall` — an offset of days or weeks leads to a wall time.
* `EventSpec.fire_leaves_range_iff` — a wall time outside of the range is refused; one within it
  makes the computation overflow just if the wall times run out, there or at the delivery hour.
-/

namespace Outreach

namespace Moment

/-- The days of the years 0 to 9999. -/
theorem FourDigitYear.day_bounds {t : Moment} (h : t.FourDigitYear) :
    -719528 ≤ t.day ∧ t.day ≤ 2932896 := by
  obtain ⟨hlow, hhigh⟩ := h
  obtain ⟨hm, hm', hd, hd'⟩ := Date.valid_ofDays t.day
  have hle := Nat.le_trans hd' (daysInMonth_le _ _)
  have hfirst : Date.ofDays (-719528) = ⟨0, 1, 1⟩ := by decide
  have hlast : Date.ofDays 2932896 = ⟨9999, 12, 31⟩ := by decide
  unfold year at hlow hhigh
  constructor
  · by_contra hlt
    have hbefore := Date.ofDays_lt (Int.not_le.1 hlt)
    simp only [hfirst] at hbefore
    omega
  · by_contra hlt
    have hafter := Date.ofDays_lt (Int.not_le.1 hlt)
    simp only [hlast] at hafter
    omega

end Moment

namespace Zone

variable {z : Zone} {start t : Instant} {w : WallTime}

theorem exists_roundUp (hstart : start.FourDigitYear) : ∃ r, z.roundUp start = some r ∧
    start.seconds - 60 ≤ r.seconds ∧ r.seconds ≤ start.seconds + 60 := by
  have hday := hstart.day_bounds
  have hnanos : (z.wallTime start).nanos = start.nanos := rfl
  have hlow : 0 ≤ (z.wallTime start).secondOfDay % 60 := Int.emod_nonneg _ (by decide)
  have hhigh : (z.wallTime start).secondOfDay % 60 < 60 := Int.emod_lt_of_pos _ (by decide)
  simp only [roundUp, hnanos, Span.ofSeconds]
  generalize (z.wallTime start).secondOfDay % 60 = k at *
  unfold Moment.day at hday
  by_cases hwhole : k * 1000000000 + (start.nanos : Int) = 0
  · exact ⟨start, if_pos hwhole, by omega, by omega⟩
  · have hin {s : Int} (hs : start.seconds - 60 ≤ s) (hs' : s ≤ start.seconds + 60) :
        (⟨s, 0⟩ : Moment).InRange := by
      unfold Moment.InRange Moment.IsDay Moment.day Moment.firstDay Moment.lastDay
      simp only
      omega
    have hback : start.plus? (-(k * 1000000000 + (start.nanos : Int))) =
        some ⟨start.seconds - k, 0⟩ :=
      Moment.plus?_eq_some_iff.2 ⟨plus_neg_excess start hlow, hin (by omega) (by omega)⟩
    have hminute : (⟨start.seconds - k, 0⟩ : Moment).plus? (Span.ofMinutes 1) =
        some ⟨start.seconds - k + 60, 0⟩ :=
      Moment.plus?_eq_some_iff.2
        ⟨Moment.plus_ofSeconds (by decide : 0 < 1000000000) 60, hin (by omega) (by omega)⟩
    refine ⟨⟨start.seconds - k + 60, 0⟩, ?_, by simp only; omega, by simp only; omega⟩
    simp only [if_neg hwhole, hback, hminute]

theorem WithinDay.wallTime_inRange (hz : z.WithinDay) (hlow : Moment.firstDay < t.day)
    (hhigh : t.day < Moment.lastDay) : (z.wallTime t).InRange := by
  have hoffset := hz.offsetAt t.seconds
  unfold Moment.day at hlow hhigh
  unfold Moment.InRange Moment.IsDay Moment.day
  simp only [wallTime, Moment.shift]
  omega

end Zone

namespace EventSpec

variable {s : EventSpec} {z : Zone} {start now r t : Instant} {v w : WallTime} {n : Int}

/-- Days or weeks on the calendar lead from `start`, rounded up, to wall time `w`. -/
def LeadsToWall (s : EventSpec) (z : Zone) (start : Instant) (w : WallTime) : Prop :=
  ∃ r n, z.roundUp start = some r ∧ s.stride = .calendar n ∧
    w = (z.wallTime r).shift (n * 86400)

theorem LeadsToWall.nanos (h : s.LeadsToWall z start w) : w.nanos = 0 := by
  obtain ⟨r, n, hr, -, rfl⟩ := h
  exact (Zone.nanos_roundUp hr : r.nanos = 0)

theorem LeadsToWall.unique (hv : s.LeadsToWall z start v) (hw : s.LeadsToWall z start w) :
    v = w := by
  obtain ⟨r, n, hr, hn, rfl⟩ := hv
  obtain ⟨r', n', hr', hn', rfl⟩ := hw
  cases hr.symm.trans hr'
  cases hn.symm.trans hn'
  rfl

/-! ## Each step -/

theorem resolve_overflow_iff (ho : z.Ordered) (hin : w.InRange) :
    resolve z w = .error .overflow ↔ z.RunsOut w := by
  rw [← Zone.localize_overflow_iff ho hin]
  unfold resolve
  split <;> simp_all

theorem localize_of_resolve (h : resolve z w = .ok t) : z.localize w = .ok t := by
  unfold resolve at h
  split at h
  · rename_i u hu
    cases h
    exact hu
  · cases h
  · cases h

theorem resolve_ne_outOfRange {offset : Int} {unit : OffsetUnit} :
    resolve z w ≠ .error (.cause (.outOfRange offset unit)) := by
  unfold resolve
  split <;> simp

theorem delivered_overflow_iff (ho : z.Ordered) (hwall : (z.wallTime t).InRange) :
    s.delivered z t = .error .overflow ↔ ∃ hour, s.deliveryHour = some hour ∧ hour < 24 ∧
      z.RunsOut (Moment.ofDay (z.wallTime t).day (hour * 3600 : Nat)) := by
  have hwall' : z.wallTime? t = some (z.wallTime t) := if_pos hwall
  unfold delivered
  cases hhour : s.deliveryHour with
  | none => simp
  | some hour =>
    by_cases hlt : hour < 24
    · have hday : (Moment.ofDay (z.wallTime t).day (hour * 3600 : Nat)).InRange := by
        unfold Moment.InRange at hwall ⊢
        rwa [Moment.day_ofDay (by omega) (by omega)]
      simp only [hwall', Option.some.injEq, exists_eq_left', hlt, true_and, if_true]
      exact resolve_overflow_iff ho hday
    · simp [hwall', hlt]

theorem delivered_ne_outOfRange {offset : Int} {unit : OffsetUnit} :
    s.delivered z t ≠ .error (.cause (.outOfRange offset unit)) := by
  unfold delivered
  split
  · simp
  · split
    · simp
    · split
      · exact resolve_ne_outOfRange
      · simp

/-! ## The whole way -/

/-- From a year of four digits, minutes and hours do not lead near the ends of the range. -/
theorem dueTime_of_elapsed_stride (hoffset : s.offset.natAbs ≤ 2147483648)
    (hstart : start.FourDigitYear) (hn : s.stride = .elapsed n) :
    ∃ t, s.dueTime z start = s.delivered z t ∧ Moment.firstDay + 2 < t.day ∧
      t.day + 2 < Moment.lastDay := by
  obtain ⟨r, hr, hlow, hhigh⟩ := z.exists_roundUp hstart
  have hnanos : r.nanos < 1000000000 := by
    have hzero := Zone.nanos_roundUp hr
    omega
  have hday := hstart.day_bounds
  have hspan : n.natAbs ≤ 2147483648 * 3600 := by
    unfold stride at hn
    split at hn <;> cases hn <;> omega
  have hfar : Moment.firstDay + 2 < (r.shift n).day ∧ (r.shift n).day + 2 < Moment.lastDay := by
    unfold Moment.day Moment.firstDay Moment.lastDay at *
    simp only [Moment.shift]
    omega
  have hin : (r.shift n).InRange := by
    unfold Moment.InRange Moment.IsDay
    omega
  refine ⟨r.shift n, ?_, hfar⟩
  simp only [dueTime, hr, moved_eq hnanos, hn, if_pos hin]

theorem dueTime_of_calendar_stride (hz : z.WithinDay) (hstart : start.FourDigitYear)
    (hn : s.stride = .calendar n) :
    ∃ w, s.LeadsToWall z start w ∧ s.dueTime z start =
      if w.InRange then
        match resolve z w with
        | .error e => .error e
        | .ok t => s.delivered z t
      else .error (.cause (.outOfRange s.offset s.unit)) := by
  obtain ⟨r, hr, hlow, hhigh⟩ := z.exists_roundUp hstart
  have hnanos : r.nanos < 1000000000 := by
    have hzero := Zone.nanos_roundUp hr
    omega
  have hday := hstart.day_bounds
  have hfar : Moment.firstDay < r.day ∧ r.day < Moment.lastDay := by
    unfold Moment.day Moment.firstDay Moment.lastDay at *
    omega
  have hwall := hz.wallTime_inRange hfar.1 hfar.2
  refine ⟨(z.wallTime r).shift (n * 86400), ⟨r, n, hr, hn, rfl⟩, ?_⟩
  simp only [dueTime, hr, moved_eq hnanos, hn, calendar_eq hnanos hwall]
  by_cases hin : ((z.wallTime r).shift (n * 86400)).InRange
  · cases resolve z ((z.wallTime r).shift (n * 86400)) <;> simp only [if_pos hin]
  · simp only [if_neg hin]

theorem dueTime_outOfRange_iff (hoffset : s.offset.natAbs ≤ 2147483648) (hz : z.WithinDay)
    (hstart : start.FourDigitYear) :
    s.dueTime z start = .error (.cause (.outOfRange s.offset s.unit)) ↔
      ∃ w, s.LeadsToWall z start w ∧ ¬ w.InRange := by
  cases hn : s.stride with
  | elapsed n =>
    obtain ⟨t, ht, -⟩ := dueTime_of_elapsed_stride (z := z) hoffset hstart hn
    rw [ht]
    refine iff_of_false delivered_ne_outOfRange ?_
    rintro ⟨w, ⟨r, m, -, hm, -⟩, -⟩
    cases hn.symm.trans hm
  | calendar n =>
    obtain ⟨w, hw, hdue⟩ := dueTime_of_calendar_stride hz hstart hn
    rw [hdue]
    by_cases hin : w.InRange
    · refine iff_of_false ?_ ?_
      · rw [if_pos hin]
        split
        · rename_i e he
          rw [← he]
          exact resolve_ne_outOfRange
        · exact delivered_ne_outOfRange
      · rintro ⟨v, hv, hout⟩
        exact hout (hv.unique hw ▸ hin)
    · rw [if_neg hin]
      exact iff_of_true rfl ⟨w, hw, hin⟩

/-- The wall times run out where the offset leads, or at the delivery hour of that day. -/
def RunsOut (s : EventSpec) (z : Zone) (w : WallTime) : Prop :=
  z.RunsOut w ∨ ∃ t hour, z.localize w = .ok t ∧ s.deliveryHour = some hour ∧ hour < 24 ∧
    z.RunsOut (Moment.ofDay (z.wallTime t).day (hour * 3600 : Nat))

theorem dueTime_overflow_iff (hoffset : s.offset.natAbs ≤ 2147483648) (hz : z.WithinDay)
    (ho : z.Ordered) (hstart : start.FourDigitYear) :
    s.dueTime z start = .error .overflow ↔
      ∃ w, s.LeadsToWall z start w ∧ w.InRange ∧ s.RunsOut z w := by
  cases hn : s.stride with
  | elapsed n =>
    obtain ⟨t, ht, hlow, hhigh⟩ := dueTime_of_elapsed_stride (z := z) hoffset hstart hn
    have hwall := hz.wallTime_inRange (t := t) (by omega) (by omega)
    rw [ht, delivered_overflow_iff ho hwall]
    refine iff_of_false ?_ ?_
    · rintro ⟨hour, -, hlt, hout⟩
      have hend := hout.day (Moment.nanos_ofDay_lt _ _)
      have hoffset := hz.offsetAt t.seconds
      unfold Moment.day at *
      simp only [Moment.ofDay, Zone.wallTime, Moment.shift] at hend
      omega
    · rintro ⟨w, ⟨r, m, -, hm, -⟩, -⟩
      cases hn.symm.trans hm
  | calendar n =>
    obtain ⟨w, hw, hdue⟩ := dueTime_of_calendar_stride hz hstart hn
    have hiff : (∃ v, s.LeadsToWall z start v ∧ v.InRange ∧ s.RunsOut z v) ↔
        w.InRange ∧ s.RunsOut z w := by
      constructor
      · rintro ⟨v, hv, h⟩
        exact hv.unique hw ▸ h
      · intro h
        exact ⟨w, hw, h⟩
    rw [hdue, hiff]
    by_cases hin : w.InRange
    · rw [if_pos hin]
      simp only [hin, true_and, RunsOut, ← resolve_overflow_iff ho hin]
      cases hres : resolve z w with
      | error e =>
        have hnone (t : Instant) : z.localize w ≠ .ok t := fun ht => by
          simp only [resolve, ht] at hres
          cases hres
        simp [hnone]
      | ok t =>
        have ht := localize_of_resolve hres
        obtain ⟨-, -, -, hwall⟩ := Zone.wallTime_of_localize ho ht
        simp [ht, delivered_overflow_iff ho (hwall hin)]
    · simp [hin]

/-- The wall times run out on the last two days of the range only. -/
theorem RunsOut.day (ho : z.Ordered) (hw : w.nanos = 0) (h : s.RunsOut z w) :
    Moment.lastDay ≤ w.day + 1 := by
  have hnanos : w.nanos < 1000000000 := by omega
  rcases h with h | ⟨t, hour, ht, -, hlt, h⟩
  · have hday := h.day hnanos
    omega
  · have hday := h.day (Moment.nanos_ofDay_lt _ _)
    obtain ⟨k, hk, hshows, -⟩ := Zone.wallTime_of_localize ho ht
    have hk' : k ≤ 120 := hk
    rw [hshows, Moment.minutesOn_eq_shift hnanos] at hday
    unfold Moment.day at *
    simp only [Moment.ofDay, Moment.shift] at hday
    omega

/-- An offset that leads out of the range is refused just if it is one of days or weeks and the wall
time is out of the range. If only the instants of the wall time are, nothing is refused: the
computation overflows just if the wall times run out, on the last two days of the range. -/
theorem fire_leaves_range_iff (hoffset : s.offset.natAbs ≤ 2147483648) (hz : z.WithinDay)
    (ho : z.Ordered) (hstart : start.FourDigitYear) (now : Instant) :
    (s.fireTime z now start = .error (.cause (.outOfRange s.offset s.unit)) ↔
      ∃ w, s.LeadsToWall z start w ∧ ¬ w.InRange) ∧
    (s.fireTime z now start = .error .overflow ↔
      ∃ w, s.LeadsToWall z start w ∧ w.InRange ∧ s.RunsOut z w) ∧
    ((∀ w, s.LeadsToWall z start w → w.day + 1 < Moment.lastDay) →
      s.fireTime z now start ≠ .error .overflow) := by
  rw [fireTime_eq_error_iff, fireTime_eq_error_iff, dueTime_outOfRange_iff hoffset hz hstart,
    Ne, fireTime_eq_error_iff, dueTime_overflow_iff hoffset hz ho hstart]
  refine ⟨Iff.rfl, Iff.rfl, fun hbefore => ?_⟩
  rintro ⟨w, hw, -, hout⟩
  have hend := hout.day ho hw.nanos
  have hday := hbefore w hw
  omega

end EventSpec

namespace Sample

/-- So many days on that the calendar is at its end. -/
def atTheEnd : EventSpec := { nextDay with offset := 95006513 }

/-- 1 January 2024, eleven in the evening twelve hours west of Greenwich. -/
def newYearsNight : Instant := ⟨1704193200, 0⟩

theorem etcGMTPlus12_eq : ZoneTable.etcGMTPlus12 = ⟨"Etc/GMT+12", -43200, []⟩ :=
  Zone.ofRules_of_sorted (by decide)

theorem etcGMTPlus12_regular :
    ZoneTable.etcGMTPlus12.WithinDay ∧ ZoneTable.etcGMTPlus12.Ordered := by
  rw [etcGMTPlus12_eq]
  exact ⟨by decide, .nil⟩

/-- Eleven in the evening of the last day. -/
theorem leadsToWall_atTheEnd : atTheEnd.LeadsToWall ZoneTable.etcGMTPlus12 newYearsNight
    ⟨8210266873200, 0⟩ := by
  rw [etcGMTPlus12_eq]
  exact ⟨newYearsNight, 95006513, by decide, rfl, by decide⟩

/-- No wall time of the hour that is left has its instant in the range. -/
theorem wall_times_run_out : ∃ w, atTheEnd.LeadsToWall ZoneTable.etcGMTPlus12 newYearsNight w ∧
    w.InRange ∧ atTheEnd.RunsOut ZoneTable.etcGMTPlus12 w := by
  obtain ⟨hwithin, ho⟩ := etcGMTPlus12_regular
  obtain ⟨-, hoverflow, -⟩ := EventSpec.fire_leaves_range_iff (s := atTheEnd) (by decide) hwithin ho
    (by decide : newYearsNight.FourDigitYear) newYearsNight
  refine hoverflow.1 ?_
  rw [etcGMTPlus12_eq]
  decide +kernel

/-- The instant to which the offset leads is out of the range, and the event is not refused. -/
theorem overflows_at_the_end :
    atTheEnd.offset.natAbs ≤ 2147483648 ∧ newYearsNight.FourDigitYear ∧
      (∃ w, atTheEnd.LeadsToWall ZoneTable.etcGMTPlus12 newYearsNight w ∧
        ∀ t, ZoneTable.etcGMTPlus12.Shows t w → ¬ t.InRange) ∧
      atTheEnd.fireTime ZoneTable.etcGMTPlus12 newYearsNight newYearsNight = .error .overflow := by
  refine ⟨by decide, by decide, ⟨_, leadsToWall_atTheEnd, ?_⟩, ?_⟩
  · rw [etcGMTPlus12_eq]
    rintro ⟨second, nanos⟩ ht
    have hsecond : second + -43200 = 8210266873200 := congrArg Moment.seconds ht
    unfold Moment.InRange Moment.IsDay Moment.day Moment.lastDay
    simp only
    omega
  · rw [etcGMTPlus12_eq]
    decide +kernel

end Sample
end Outreach
