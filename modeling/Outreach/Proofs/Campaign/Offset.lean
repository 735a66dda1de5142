import Outreach.Proofs.Campaign.FireTime
import Outreach.Proofs.Time.Zone

/-!
# Outreach.Proofs.Campaign.Offset

Where the offset of an event leads.

* `Moment.RoundsUpTo` — the first whole minute at or after a moment.
* `Stride`, `Stride.Leads` — elapsed seconds move the instant, days of the calendar the date on the
  wall.
* `EventSpec.moved_of_leads` — `moved` goes where the offset leads.
* `EventSpec.fires_where_offset_leads` — without a delivery hour that is the fire.
-/

namespace Outreach

/-! ## Whole minutes -/

namespace Moment

/-- `r` is the first whole minute at or after `t`. -/
structure RoundsUpTo (t r : Moment) : Prop where
  whole : r.WholeMinute
  le : t ≤ r
  least : ∀ u : Moment, u.WholeMinute → t ≤ u → r ≤ u

def nextMinute (t : Moment) : Moment :=
  if t.WholeMinute then t else ⟨t.seconds - t.seconds % 60 + 60, 0⟩

theorem roundsUpTo_nextMinute (t : Moment) : t.RoundsUpTo t.nextMinute := by
  unfold nextMinute
  split
  · rename_i h
    exact ⟨h, le_refl t, fun _ _ hle => hle⟩
  · rename_i h
    refine ⟨⟨by simp only; omega, rfl⟩, ?_, ?_⟩
    · rw [le_def]
      simp only
      omega
    · rintro ⟨us, un⟩ ⟨hwhole, hzero⟩ hle
      unfold WholeMinute at h
      rw [le_def] at hle ⊢
      simp only at hwhole hzero hle ⊢
      omega

theorem RoundsUpTo.unique {t r u : Moment} (hr : t.RoundsUpTo r) (hu : t.RoundsUpTo u) : r = u :=
  le_antisymm (hr.least u hu.whole hu.le) (hu.least r hr.whole hr.le)

theorem RoundsUpTo.eq_nextMinute {t r : Moment} (h : t.RoundsUpTo r) : r = t.nextMinute :=
  h.unique (roundsUpTo_nextMinute t)

end Moment

namespace Zone

variable {z : Zone} {start r : Instant}

theorem secondOfDay_wallTime (hz : z.OnMinutes) (t : Instant) :
    (z.wallTime t).secondOfDay % 60 = t.seconds % 60 := by
  have hoffset := hz.offsetAt t.seconds
  simp only [wallTime, Moment.shift, Moment.secondOfDay]
  omega

/-- Back by `k` seconds and the fraction, also from a leap second. -/
theorem plus_neg_excess (t : Instant) {k : Int} (hk : 0 ≤ k) :
    t.plus (-(k * 1000000000 + (t.nanos : Int))) = ⟨t.seconds - k, 0⟩ := by
  have heq : Moment.ofNanos (t.toNanos + -(k * 1000000000 + (t.nanos : Int))) =
      ⟨t.seconds - k, 0⟩ := by
    simp only [Moment.ofNanos, Moment.toNanos, Moment.mk.injEq]
    omega
  by_cases hleap : t.nanos < 1000000000
  · rw [Moment.plus_of_not_leap hleap, heq]
  · rw [Moment.plus_of_leap (by omega) (by omega), heq]

theorem roundUp_eq (hz : z.OnMinutes) (hstart : start.InRange) (hr : start.RoundsUpTo r)
    (hin : r.InRange) : z.roundUp start = some r := by
  obtain rfl := hr.eq_nextMinute
  have hnanos : (z.wallTime start).nanos = start.nanos := rfl
  unfold roundUp
  simp only [secondOfDay_wallTime hz, hnanos, Span.ofSeconds]
  unfold Moment.nextMinute at hin ⊢
  by_cases hwhole : start.WholeMinute
  · have hzero : start.seconds % 60 * 1000000000 + (start.nanos : Int) = 0 := by
      rw [hwhole.1, hwhole.2]
      rfl
    rw [if_pos hzero, if_pos hwhole]
  · have hexcess : ¬ start.seconds % 60 * 1000000000 + (start.nanos : Int) = 0 := by
      unfold Moment.WholeMinute at hwhole
      omega
    have hback : start.plus? (-(start.seconds % 60 * 1000000000 + (start.nanos : Int))) =
        some ⟨start.seconds - start.seconds % 60, 0⟩ := by
      refine Moment.plus?_eq_some_iff.2 ⟨plus_neg_excess start (by omega), ?_⟩
      unfold Moment.InRange Moment.day at *
      rwa [show (start.seconds - start.seconds % 60) / 86400 = start.seconds / 86400 by omega]
    rw [if_neg hexcess, hback]
    rw [if_neg hwhole] at hin ⊢
    exact Moment.plus?_eq_some_iff.2 ⟨Moment.plus_ofSeconds (by decide : 0 < 1000000000) 60, hin⟩

end Zone

/-! ## Strides -/

/-- What an offset is: so many elapsed seconds, or so many days of the calendar. -/
inductive Stride where
  | elapsed (seconds : Int)
  | calendar (days : Int)

namespace Stride

/-- The stride leads from `r` to `t`. -/
inductive Leads (z : Zone) (r : Instant) : Stride → Instant → Prop where
  | elapsed (n : Int) : Leads z r (.elapsed n) (r.shift n)
  | calendar {n : Int} {k : Nat} {t : Instant}
      (h : z.FallsOn ((z.wallTime r).shift (n * 86400)) k t) : Leads z r (.calendar n) t

/-- Nothing on the way from `r` lies outside of the range of moments. -/
def StaysInRange (z : Zone) (r : Instant) : Stride → Prop
  | .elapsed n => (r.shift n).InRange
  | .calendar n =>
    (z.wallTime r).InRange ∧ z.StaysInRange ((z.wallTime r).shift (n * 86400))

variable {z : Zone} {r t u : Instant} {m : Stride}

theorem exists_leads (hap : z.Apart 59) (hskip : z.SkipsAtMost 120) (hr : r.nanos < 1000000000)
    (m : Stride) : ∃ t, m.Leads z r t := by
  cases m with
  | elapsed n => exact ⟨r.shift n, .elapsed n⟩
  | calendar n =>
    have hw : ((z.wallTime r).shift (n * 86400)).nanos < 1000000000 := hr
    obtain ⟨k, -, t, ht⟩ := Zone.exists_fallsOn hap hskip hw
    exact ⟨t, .calendar ht⟩

theorem Leads.unique (ht : m.Leads z r t) (hu : m.Leads z r u) : t = u := by
  cases ht with
  | elapsed n =>
    cases hu
    rfl
  | calendar ht =>
    cases hu with
    | calendar hu => exact (ht.unique hu).2

theorem Leads.wholeMinute (hz : z.OnMinutes) (hr : r.WholeMinute)
    (hm : ∀ n, m = .elapsed n → n % 60 = 0) (h : m.Leads z r t) : t.WholeMinute := by
  obtain ⟨hseconds, hnanos⟩ := hr
  cases h with
  | elapsed n =>
    have hn := hm n rfl
    refine ⟨?_, hnanos⟩
    simp only [Moment.shift]
    omega
  | @calendar n k t h =>
    have hw : ((z.wallTime r).shift (n * 86400)).nanos < 1000000000 := by
      show r.nanos < 1000000000
      omega
    have hshows : z.wallTime t = ((z.wallTime r).shift (n * 86400)).shift (k * 60) := by
      rw [← Moment.minutesOn_eq_shift hw]
      exact h.shows
    have hwall : t.seconds + z.offsetAt t.seconds =
        r.seconds + z.offsetAt r.seconds + n * 86400 + k * 60 := congrArg Moment.seconds hshows
    have hzero : (z.wallTime t).nanos = (z.wallTime r).nanos := by
      rw [hshows]
      rfl
    have ho := hz.offsetAt t.seconds
    have ho' := hz.offsetAt r.seconds
    exact ⟨by omega, hzero.trans hnanos⟩

end Stride

namespace EventSpec

def stride (s : EventSpec) : Stride :=
  match s.unit with
  | .minutes => .elapsed (s.offset * 60)
  | .hours => .elapsed (s.offset * 3600)
  | .days => .calendar s.offset
  | .weeks => .calendar (s.offset * 7)

variable {s : EventSpec} {z : Zone} {start r t : Instant} {n : Int}

theorem elapsed_whole_minutes (h : s.stride = .elapsed n) : n % 60 = 0 := by
  unfold stride at h
  split at h <;> cases h <;> omega

theorem moved_eq (hr : r.nanos < 1000000000) : s.moved z r =
    match s.stride with
    | .elapsed n => if (r.shift n).InRange then .ok (r.shift n)
      else .error (.cause (.outOfRange s.offset s.unit))
    | .calendar n => s.calendar z r n := by
  have helapsed (n : Int) : s.elapsed r (Span.ofSeconds n) =
      if (r.shift n).InRange then .ok (r.shift n)
      else .error (.cause (.outOfRange s.offset s.unit)) := by
    unfold elapsed Moment.plus?
    rw [Moment.plus_ofSeconds hr]
    by_cases hin : (r.shift n).InRange
    · rw [if_pos hin, if_pos hin]
    · rw [if_neg hin, if_neg hin]
  unfold moved stride
  cases hunit : s.unit with
  | minutes =>
    rw [hunit] at helapsed
    exact helapsed (s.offset * 60)
  | hours =>
    rw [hunit] at helapsed
    exact helapsed (s.offset * 3600)
  | days => rfl
  | weeks => rfl

theorem resolve_of_fallsOn {w : WallTime} {k : Nat} (ho : z.Ordered) (hrange : z.StaysInRange w)
    (h : z.FallsOn w k t) (hk : k ≤ 120) : resolve z w = .ok t := by
  simp only [resolve, Zone.localize_of_fallsOn ho hrange h hk]

theorem calendar_eq (hr : r.nanos < 1000000000) (hwall : (z.wallTime r).InRange) :
    s.calendar z r n = if ((z.wallTime r).shift (n * 86400)).InRange then
      resolve z ((z.wallTime r).shift (n * 86400))
      else .error (.cause (.outOfRange s.offset s.unit)) := by
  have hw : (z.wallTime r).nanos < 1000000000 := hr
  have hplus : (z.wallTime r).plus (Span.ofDays n) = (z.wallTime r).shift (n * 86400) :=
    Moment.plus_ofSeconds hw _
  simp only [calendar, Zone.wallTime?, if_pos hwall, Moment.plus?, hplus]
  by_cases hin : ((z.wallTime r).shift (n * 86400)).InRange
  · simp only [if_pos hin]
  · simp only [if_neg hin]

theorem calendar_of_fallsOn {k : Nat} (hr : r.nanos < 1000000000) (ho : z.Ordered)
    (hwall : (z.wallTime r).InRange)
    (hrange : z.StaysInRange ((z.wallTime r).shift (n * 86400)))
    (h : z.FallsOn ((z.wallTime r).shift (n * 86400)) k t) (hk : k ≤ 120) :
    s.calendar z r n = .ok t := by
  have hin : ((z.wallTime r).shift (n * 86400)).InRange := by
    have h0 := (hrange 0 (by simp)).1
    rwa [Moment.minutesOn_zero] at h0
  rw [calendar_eq hr hwall, if_pos hin]
  exact resolve_of_fallsOn ho hrange h hk

/-- A stride of days does not fail at a skipped wall time. -/
theorem moved_of_leads (hap : z.Apart 59) (hskip : z.SkipsAtMost 120) (hr : r.nanos < 1000000000)
    (hrange : s.stride.StaysInRange z r) (h : s.stride.Leads z r t) : s.moved z r = .ok t := by
  rw [moved_eq hr]
  cases hm : s.stride with
  | elapsed n =>
    rw [hm] at h hrange
    cases h
    exact if_pos hrange
  | calendar n =>
    rw [hm] at h hrange
    obtain ⟨hwall, hrange⟩ := hrange
    have hw : ((z.wallTime r).shift (n * 86400)).nanos < 1000000000 := hr
    obtain ⟨k, hk, u, hu⟩ := Zone.exists_fallsOn hap hskip hw
    obtain rfl : t = u := h.unique (.calendar hu)
    exact calendar_of_fallsOn hr hap.ordered hwall hrange hu hk

theorem fireTime_of_dueTime (h : s.dueTime z start = .ok t) (now : Instant) :
    s.fireTime z now start = .ok (if now < t then some t else none) := by
  rw [fireTime_eq, h]

theorem dueTime_eq_moved (hhour : s.deliveryHour = none) (hz : z.OnMinutes)
    (hstart : start.InRange) (hr : start.RoundsUpTo r) (hin : r.InRange) :
    s.dueTime z start = s.moved z r := by
  simp only [dueTime, Zone.roundUp_eq hz hstart hr hin]
  cases hm : s.moved z r with
  | error e => rfl
  | ok t => simp only [delivered, hhour]

/-- Minutes and hours lead to the same instant whatever the clocks of the zone show. -/
theorem dueTime_of_elapsed (hhour : s.deliveryHour = none) (hz : z.OnMinutes)
    (hstart : start.InRange) (hr : start.RoundsUpTo r) (hin : r.InRange)
    (hm : s.stride = .elapsed n) (hrange : (r.shift n).InRange) :
    s.dueTime z start = .ok (r.shift n) := by
  have hnanos : r.nanos < 1000000000 := by
    have hzero := hr.whole.2
    omega
  rw [dueTime_eq_moved hhour hz hstart hr hin, moved_eq hnanos, hm]
  exact if_pos hrange

/-- Without a delivery hour the fire is where the offset leads from the first whole minute at or
after the start: elapsed time is added to the instant, in every zone alike, or days to the date on
the wall, and a wall time that is skipped or occurs twice has its instant. -/
theorem fires_where_offset_leads (hhour : s.deliveryHour = none) (hz : z.OnMinutes)
    (hap : z.Apart 172800) (hskip : z.SkipsAtMost 120) (hstart : start.InRange)
    (hr : start.RoundsUpTo r) (hin : r.InRange) (hrange : s.stride.StaysInRange z r) :
    ∃ t, s.stride.Leads z r t ∧ t.WholeMinute ∧
      (∀ now, s.fireTime z now start = .ok (if now < t then some t else none)) ∧
      ∀ n, s.stride = .elapsed n → ∀ other : Zone, other.OnMinutes →
        ∀ now, s.fireTime other now start = s.fireTime z now start := by
  have hnanos : r.nanos < 1000000000 := by
    have hzero := hr.whole.2
    omega
  have hap59 : z.Apart 59 := hap.mono (by decide)
  obtain ⟨t, ht⟩ := s.stride.exists_leads hap59 hskip hnanos
  have hdue : s.dueTime z start = .ok t := by
    rw [dueTime_eq_moved hhour hz hstart hr hin]
    exact moved_of_leads hap59 hskip hnanos hrange ht
  refine ⟨t, ht, ?_, fireTime_of_dueTime hdue, ?_⟩
  · exact ht.wholeMinute hz hr.whole fun n hn => elapsed_whole_minutes hn
  · intro n hn other hother now
    rw [hn] at hrange
    have hthere := dueTime_of_elapsed hhour hother hstart hr hin hn hrange
    have hhere := dueTime_of_elapsed hhour hz hstart hr hin hn hrange
    rw [fireTime_eq, fireTime_eq, hthere, hhere]

end EventSpec

namespace Sample

/-- Clocks go forward at two in the morning of 10 March 2024, and back in November. -/
def summerZone : Zone := ⟨"Summer", -18000, [⟨1710054000, -14400⟩, ⟨1730613600, -18000⟩]⟩

/-- At the same time of the next day. -/
def nextDay : EventSpec :=
  ⟨13, .ofNat 13, 1, .days, none, .createdOn, .interrupt, 1⟩

theorem apart_summerZone : summerZone.Apart 172800 := by decide

theorem skipsAtMost_summerZone : summerZone.SkipsAtMost 120 :=
  Zone.JumpsAtMost.skipsAtMost apart_summerZone.ordered (by decide)

/-- Half past two of the next day is skipped, so the fire is at three. -/
theorem fires_after_skipped_hour :
    nextDay.stride.Leads summerZone ⟨1709969400, 0⟩ ⟨1710054000, 0⟩ ∧
      ∀ now, nextDay.fireTime summerZone now ⟨1709969389, 500000000⟩ =
        .ok (if now < ⟨1710054000, 0⟩ then some ⟨1710054000, 0⟩ else none) := by
  have hrange : nextDay.stride.StaysInRange summerZone ⟨1709969400, 0⟩ :=
    ⟨by decide, Zone.staysInRange (by decide) (apart_summerZone.mono (by decide))
      skipsAtMost_summerZone (by decide) (by decide) (by decide)⟩
  obtain ⟨t, ht, -, hfire, -⟩ := EventSpec.fires_where_offset_leads (s := nextDay) rfl
    (by decide) apart_summerZone skipsAtMost_summerZone (by decide)
    (Moment.roundsUpTo_nextMinute ⟨1709969389, 500000000⟩) (by decide) hrange
  have hearly : nextDay.fireTime summerZone ⟨0, 0⟩ ⟨1709969389, 500000000⟩ =
      .ok (some ⟨1710054000, 0⟩) := rfl
  rw [hfire, Except.ok.injEq, Option.ite_none_right_eq_some, Option.some.injEq] at hearly
  obtain rfl := hearly.2
  exact ⟨ht, hfire⟩

end Sample

end Outreach
