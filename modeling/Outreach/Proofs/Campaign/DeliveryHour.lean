import Outreach.Proofs.Campaign.Offset
import Outreach.Time.ZoneTable

/-!
# Outreach.Proofs.Campaign.DeliveryHour

On which day an event with a delivery hour fires. The day is that of the instant to which the
offset leads, and this instant is looked up before the hour is set.

* `Zone.KeepsDay` — the wall time or a minute after it on the same day occurs.
* `EventSpec.AimsAt` — the offset leads from a start to a wall time.
* `EventSpec.fires_on_day` — the fire is on the day of that wall time if it keeps its day, and else
  on the next one.
* `EventSpec.fire_depends_on_day_iff` — two starts of one day have one fire just if both wall times
  keep the day or neither does.
-/

namespace Outreach

namespace Moment

theorem day_shift_days (t : Moment) (n : Int) : (t.shift (n * 86400)).day = t.day + n := by
  simp only [shift, day]
  omega

end Moment

namespace Zone

variable {z : Zone} {w : WallTime} {k l : Nat} {t u : Instant} {d e : Int}

/-- Of the minutes from `w` on, one of the same day occurs. -/
def KeepsDay (z : Zone) (w : WallTime) : Prop :=
  ∃ k, z.Occurs (w.minutesOn k) ∧ (w.minutesOn k).day = w.day

theorem FallsOn.keepsDay_iff (hw : w.nanos < 1000000000) (h : z.FallsOn w k t) :
    z.KeepsDay w ↔ (w.minutesOn k).day = w.day := by
  constructor
  · rintro ⟨j, hj, hday⟩
    have hkj : k ≤ j := by
      by_contra hlt
      exact h.skipped j (by omega) hj
    have hlow := Moment.day_mono (Moment.le_minutesOn hw (Nat.zero_le k))
    have hhigh := Moment.day_mono (Moment.le_minutesOn hw hkj)
    rw [Moment.minutesOn_zero] at hlow
    omega
  · intro hday
    exact ⟨k, ⟨t, h.shows⟩, hday⟩

theorem day_minutesOn (hw : w.nanos < 1000000000) (hk : k ≤ 120) :
    (w.minutesOn k).day = w.day ∨ (w.minutesOn k).day = w.day + 1 := by
  rw [Moment.minutesOn_eq_shift hw]
  simp only [Moment.shift, Moment.day]
  omega

/-- One time of day on different days falls on different instants. -/
theorem FallsOn.day_inj {second : Int} (h : z.FallsOn (Moment.ofDay d second) k t)
    (h' : z.FallsOn (Moment.ofDay e second) l t) (hk : k ≤ 120) (hl : l ≤ 120) : d = e := by
  have heq : (Moment.ofDay d second).minutesOn k = (Moment.ofDay e second).minutesOn l :=
    h.shows.symm.trans h'.shows
  rw [Moment.minutesOn_eq_shift (Moment.nanos_ofDay_lt d second),
    Moment.minutesOn_eq_shift (Moment.nanos_ofDay_lt e second)] at heq
  have hseconds : d * 86400 + second + k * 60 = e * 86400 + second + l * 60 :=
    congrArg Moment.seconds heq
  omega

end Zone

namespace EventSpec

/-- From `start`, rounded up on day `d` of the zone's calendar, `n` days on the calendar lead to wall
time `w`. Neither there nor on the way to the delivery hour does anything lie outside of the range
of moments. -/
structure AimsAt (z : Zone) (n : Int) (hour : Nat) (start : Instant) (d : Int) (w : WallTime) :
    Prop where
  rounded : ∃ r, z.roundUp start = some r ∧ (z.wallTime r).InRange ∧ (z.wallTime r).day = d ∧
    w = (z.wallTime r).shift (n * 86400)
  stays : z.StaysInRange w
  delivers : ∀ k t, z.FallsOn w k t →
    z.StaysInRange (Moment.ofDay (w.minutesOn k).day (hour * 3600 : Nat))

variable {s : EventSpec} {z : Zone} {n d : Int} {hour k l : Nat} {start a b t u : Instant}
  {v w : WallTime}

theorem AimsAt.nanos (h : AimsAt z n hour start d w) : w.nanos < 1000000000 := by
  obtain ⟨r, hr, -, -, rfl⟩ := h.rounded
  have hzero : r.nanos = 0 := Zone.nanos_roundUp hr
  show r.nanos < 1000000000
  omega

theorem AimsAt.day (h : AimsAt z n hour start d w) : w.day = d + n := by
  obtain ⟨r, -, -, rfl, rfl⟩ := h.rounded
  exact Moment.day_shift_days _ _

/-- Some days from the ends of the range, every start aims at a wall time. -/
theorem aimsAt {r : Instant} (hz : z.WithinDay) (hap : z.Apart 59) (hskip : z.SkipsAtMost 120)
    (hlt : hour < 24) (hr : z.roundUp start = some r) (hin : (z.wallTime r).InRange)
    (hd : (z.wallTime r).day = d) (hlow : Moment.firstDay + 2 ≤ d + n)
    (hhigh : d + n + 3 ≤ Moment.lastDay) :
    AimsAt z n hour start d ((z.wallTime r).shift (n * 86400)) := by
  have hzero : r.nanos = 0 := Zone.nanos_roundUp hr
  have hnanos : ((z.wallTime r).shift (n * 86400)).nanos < 1000000000 := by
    show r.nanos < 1000000000
    omega
  have hday := Moment.day_shift_days (z.wallTime r) n
  constructor
  case rounded => exact ⟨r, hr, hin, hd, rfl⟩
  case stays => exact Zone.staysInRange hz hap hskip hnanos (by omega) (by omega)
  case delivers =>
    intro k t ht
    obtain ⟨l, hl, u, hu⟩ := Zone.exists_fallsOn hap hskip hnanos
    obtain ⟨rfl, -⟩ := ht.unique hu
    have hcases := Zone.day_minutesOn hnanos hl
    generalize (((z.wallTime r).shift (n * 86400)).minutesOn k).day = e at hcases
    have hofDay : (Moment.ofDay e (hour * 3600 : Nat)).day = e :=
      Moment.day_ofDay (by omega) (by omega) e
    exact Zone.staysInRange hz hap hskip (Moment.nanos_ofDay_lt _ _) (by omega) (by omega)

theorem dueTime_of_aimsAt (ho : z.Ordered) (hn : s.stride = .calendar n)
    (hhour : s.deliveryHour = some hour) (hlt : hour < 24) (h : AimsAt z n hour start d w)
    (hw : z.FallsOn w k u) (hk : k ≤ 120)
    (ht : z.FallsOn (Moment.ofDay (w.minutesOn k).day (hour * 3600 : Nat)) l t) (hl : l ≤ 120) :
    s.dueTime z start = .ok t := by
  have hstays := h.stays
  have hdelivers := h.delivers k u hw
  obtain ⟨r, hr, hin, -, rfl⟩ := h.rounded
  have hnanos : r.nanos < 1000000000 := h.nanos
  have hmoved : s.moved z r = .ok u := by
    rw [moved_eq hnanos, hn]
    exact calendar_of_fallsOn hnanos ho hin hstays hw hk
  have hwall : z.wallTime? u = some (z.wallTime u) := by
    refine if_pos ?_
    rw [hw.shows]
    exact (hstays k hw.skipped).1
  have hshows : z.wallTime u = ((z.wallTime r).shift (n * 86400)).minutesOn k := hw.shows
  simp only [dueTime, hr, hmoved, delivered, hhour, hwall, if_pos hlt, hshows]
  exact resolve_of_fallsOn ho hdelivers ht hl

/-- The fire is at the delivery hour, on the day to which the offset leads if the wall time keeps
its day, and on the next one if the clocks skip all the rest of the day. -/
theorem fires_on_day (hn : s.stride = .calendar n) (hhour : s.deliveryHour = some hour)
    (hlt : hour < 24) (hap : z.Apart 59) (hskip : z.SkipsAtMost 120)
    (h : AimsAt z n hour start d w) :
    ∃ e, (e = d + n ∨ e = d + n + 1) ∧ (e = d + n ↔ z.KeepsDay w) ∧
      ∃ k ≤ 120, ∃ t, z.FallsOn (Moment.ofDay e (hour * 3600 : Nat)) k t ∧
        ∀ now, s.fireTime z now start = .ok (if now < t then some t else none) := by
  obtain ⟨k, hk, u, hu⟩ := Zone.exists_fallsOn hap hskip h.nanos
  obtain ⟨l, hl, t, ht⟩ := Zone.exists_fallsOn hap hskip
    (w := Moment.ofDay (w.minutesOn k).day (hour * 3600 : Nat)) (by decide : 0 < 1000000000)
  have hdue := dueTime_of_aimsAt hap.ordered hn hhour hlt h hu hk ht hl
  refine ⟨(w.minutesOn k).day, ?_, ?_, l, hl, t, ht, fireTime_of_dueTime hdue⟩
  · rw [← h.day]
    exact Zone.day_minutesOn h.nanos hk
  · rw [hu.keepsDay_iff h.nanos, h.day]

/-- What fires at the same present, whenever that is, is due at the same time. -/
theorem eq_of_fires
    (h : ∀ now : Instant, (if now < t then some t else none) = if now < u then some u else none) :
    t = u := by
  have hearly := h ⟨min t.seconds u.seconds - 1, 0⟩
  rw [if_pos (Moment.lt_def.2 (.inl (by simp only; omega))),
    if_pos (Moment.lt_def.2 (.inl (by simp only; omega)))] at hearly
  exact Option.some.inj hearly

/-- With a delivery hour `h`, a start of day `d` fires at `h` on the day to which the offset leads,
or the first minute after it that occurs, just if its wall time keeps that day. So two starts of
one day fire alike just if both keep it or neither does. -/
theorem fire_depends_on_day_iff (hn : s.stride = .calendar n) (hhour : s.deliveryHour = some hour)
    (hlt : hour < 24) (hap : z.Apart 59) (hskip : z.SkipsAtMost 120)
    (ha : AimsAt z n hour a d v) (hb : AimsAt z n hour b d w) :
    (∃ k t, z.FallsOn (Moment.ofDay (d + n) (hour * 3600 : Nat)) k t ∧
      ((∀ now, s.fireTime z now a = .ok (if now < t then some t else none)) ↔ z.KeepsDay v)) ∧
    ((∀ now, s.fireTime z now a = s.fireTime z now b) ↔ (z.KeepsDay v ↔ z.KeepsDay w)) := by
  obtain ⟨e, hcases, hkeeps, k, hk, t, ht, hfire⟩ := fires_on_day hn hhour hlt hap hskip ha
  obtain ⟨f, hcases', hkeeps', l, hl, u, hu, hfire'⟩ := fires_on_day hn hhour hlt hap hskip hb
  constructor
  · obtain ⟨m, hm, x, hx⟩ := Zone.exists_fallsOn hap hskip
      (w := Moment.ofDay (d + n) (hour * 3600 : Nat)) (by decide : 0 < 1000000000)
    refine ⟨m, x, hx, ?_⟩
    rw [← hkeeps]
    constructor
    · intro h
      have htx : t = x := eq_of_fires fun now => Except.ok.inj ((hfire now).symm.trans (h now))
      subst htx
      exact ht.day_inj hx hk hm
    · rintro rfl
      obtain ⟨-, rfl⟩ := ht.unique hx
      exact hfire
  · rw [← hkeeps, ← hkeeps']
    constructor
    · intro h
      have htu : t = u := eq_of_fires fun now =>
        Except.ok.inj ((hfire now).symm.trans ((h now).trans (hfire' now)))
      subst htu
      rw [ht.day_inj hu hk hl]
    · intro hsame now
      obtain rfl : e = f := by omega
      obtain ⟨-, rfl⟩ := ht.unique hu
      rw [hfire, hfire']

end EventSpec

namespace Sample

/-- At nine on the next day. -/
def atNine : EventSpec := { nextDay with deliveryHour := some 9 }

/-- 20 March 1977, half past one in Tehran. -/
def afternoon : Instant := ⟨227700000, 0⟩

/-- Half past ten. -/
def evening : Instant := ⟨227732400, 0⟩

/-- Half past eleven. On the next day the clocks go from eleven to midnight. -/
def night : Instant := ⟨227736000, 0⟩

theorem asiaTehran_regular : ZoneTable.asiaTehran.WithinDay ∧ ZoneTable.asiaTehran.Apart 59 ∧
    ZoneTable.asiaTehran.JumpsAtMost 120 := by
  rw [show ZoneTable.asiaTehran = _ from Zone.ofRules_of_sorted (by decide +kernel)]
  decide +kernel

theorem skipsAtMost_asiaTehran : ZoneTable.asiaTehran.SkipsAtMost 120 :=
  asiaTehran_regular.2.2.skipsAtMost asiaTehran_regular.2.1.ordered

/-- The clocks from 1970 to March 1977. -/
theorem wallTime_asiaTehran {t : Instant} (hlow : 0 ≤ t.seconds) (hhigh : t.seconds < 227820600) :
    ZoneTable.asiaTehran.wallTime t = t.shift 12600 := by
  obtain ⟨hchanges, hzero⟩ : (∀ c ∈ ZoneTable.asiaTehran.changes,
      c.start ≤ 0 ∨ 227820600 ≤ c.start) ∧ ZoneTable.asiaTehran.offsetAt 0 = 12600 := by
    rw [show ZoneTable.asiaTehran = _ from Zone.ofRules_of_sorted (by decide +kernel)]
    decide +kernel
  have hsame : ZoneTable.asiaTehran.offsetAt t.seconds = ZoneTable.asiaTehran.offsetAt 0 := by
    refine Zone.offsetFrom_congr fun c hc => ?_
    have hcase := hchanges c hc
    omega
  rw [Zone.wallTime, hsame, hzero]

theorem aimsAt_asiaTehran {start : Instant} (hwhole : start.WholeMinute) (hlow : 0 ≤ start.seconds)
    (hhigh : start.seconds < 227820600) (hday : (start.shift 12600).day = 2635) :
    EventSpec.AimsAt ZoneTable.asiaTehran 1 9 start 2635 (start.shift 99000) := by
  obtain ⟨hwithin, hap, -⟩ := asiaTehran_regular
  have hwall := wallTime_asiaTehran hlow hhigh
  have hin : (start.shift 12600).InRange := by
    unfold Moment.InRange
    rw [hday]
    decide
  have hr : ZoneTable.asiaTehran.roundUp start = some start := by
    obtain ⟨hseconds, hnanos⟩ := hwhole
    have hzero : (start.seconds + 12600) % 86400 % 60 = 0 := by omega
    refine if_pos ?_
    simp only [hwall, Moment.shift, Moment.secondOfDay, hnanos, hzero]
    rfl
  have haims : EventSpec.AimsAt ZoneTable.asiaTehran 1 9 start 2635
      ((ZoneTable.asiaTehran.wallTime start).shift (1 * 86400)) :=
    EventSpec.aimsAt hwithin hap skipsAtMost_asiaTehran (by decide) hr (hwall ▸ hin)
      (hwall ▸ hday) (by decide) (by decide)
  rwa [hwall, Moment.shift_shift] at haims

/-- A wall time of the next day that the clocks show keeps its day. -/
theorem keepsDay_asiaTehran {start : Instant} (hlow : 0 ≤ start.seconds)
    (hhigh : start.seconds + 86400 < 227820600) :
    ZoneTable.asiaTehran.KeepsDay (start.shift 99000) := by
  refine ⟨0, ⟨start.shift 86400, ?_⟩, ?_⟩
  · rw [Moment.minutesOn_zero]
    have hlow' : 0 ≤ (start.shift 86400).seconds := by
      simp only [Moment.shift]
      omega
    refine (wallTime_asiaTehran hlow' hhigh).trans ?_
    rw [Moment.shift_shift]
    rfl
  · rw [Moment.minutesOn_zero]

/-- Afternoon and evening have one fire. -/
theorem fires_at_nine_next_day : ∃ v w,
    EventSpec.AimsAt ZoneTable.asiaTehran 1 9 afternoon 2635 v ∧
      EventSpec.AimsAt ZoneTable.asiaTehran 1 9 evening 2635 w ∧
      ∀ now, atNine.fireTime ZoneTable.asiaTehran now afternoon =
        atNine.fireTime ZoneTable.asiaTehran now evening := by
  have hafternoon : EventSpec.AimsAt ZoneTable.asiaTehran 1 9 afternoon 2635
      (afternoon.shift 99000) :=
    aimsAt_asiaTehran (by decide) (by decide) (by decide) (by decide)
  have hevening : EventSpec.AimsAt ZoneTable.asiaTehran 1 9 evening 2635 (evening.shift 99000) :=
    aimsAt_asiaTehran (by decide) (by decide) (by decide) (by decide)
  obtain ⟨-, hiff⟩ := EventSpec.fire_depends_on_day_iff (s := atNine) rfl rfl (by decide)
    asiaTehran_regular.2.1 skipsAtMost_asiaTehran hafternoon hevening
  refine ⟨_, _, hafternoon, hevening, hiff.2 (iff_of_true ?_ ?_)⟩
  · exact keepsDay_asiaTehran (by decide) (by decide)
  · exact keepsDay_asiaTehran (by decide) (by decide)

/-- An hour later the fire is a day late: half past eleven of the next day is skipped, as are all
minutes after it to midnight. -/
theorem fires_a_day_late :
    ZoneTable.asiaTehran.SkipsAtMost 120 ∧
      (∃ w, EventSpec.AimsAt ZoneTable.asiaTehran 1 9 evening 2635 w) ∧
      (∃ w, EventSpec.AimsAt ZoneTable.asiaTehran 1 9 night 2635 w) ∧
      atNine.fireTime ZoneTable.asiaTehran ⟨0, 0⟩ evening = .ok (some ⟨227770200, 0⟩) ∧
      atNine.fireTime ZoneTable.asiaTehran ⟨0, 0⟩ night = .ok (some ⟨227853000, 0⟩) := by
  refine ⟨skipsAtMost_asiaTehran,
    ⟨_, aimsAt_asiaTehran (by decide) (by decide) (by decide) (by decide)⟩,
    ⟨_, aimsAt_asiaTehran (by decide) (by decide) (by decide) (by decide)⟩, ?_, ?_⟩
  all_goals
    rw [show ZoneTable.asiaTehran = _ from Zone.ofRules_of_sorted (by decide +kernel)]
    decide +kernel

end Sample
end Outreach
