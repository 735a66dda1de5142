import Outreach.Campaign.FireTime

/-!
# Outreach.Proofs.Campaign.FireTime

The fire of an event without the cut-off at the present.

* `EventSpec.dueTime` — when the event is due, past or not.
* `EventSpec.fireTime_eq_some_iff` — a fire takes place if it is due later than now.
* `EventSpec.nanos_dueTime` — events are due at whole seconds.
-/

namespace Outreach

namespace EventSpec

/-- When an event that counts from `start` is due, whether or not that is over. -/
def dueTime (s : EventSpec) (z : Zone) (start : Instant) : Except (Fault CampaignError) Instant :=
  match z.roundUp start with
  | none => .error .overflow
  | some start =>
    match s.moved z start with
    | .error e => .error e
    | .ok t => s.delivered z t

theorem fireTime_eq (s : EventSpec) (z : Zone) (now start : Instant) :
    s.fireTime z now start =
      match s.dueTime z start with
      | .error e => .error e
      | .ok t => .ok (if now < t then some t else none) := by
  unfold fireTime dueTime
  cases z.roundUp start with
  | none => rfl
  | some begin =>
    dsimp only
    cases s.moved z begin with
    | error e => rfl
    | ok t => cases hd : s.delivered z t <;> simp only [hd]

theorem fireTime_eq_some_iff (s : EventSpec) (z : Zone) (now start t : Instant) :
    s.fireTime z now start = .ok (some t) ↔ s.dueTime z start = .ok t ∧ now < t := by
  rw [fireTime_eq]
  cases s.dueTime z start with
  | error e => simp
  | ok u =>
    simp only [Except.ok.injEq, Option.ite_none_right_eq_some, Option.some.injEq]
    constructor
    · rintro ⟨h, rfl⟩; exact ⟨rfl, h⟩
    · rintro ⟨rfl, h⟩; exact ⟨h, rfl⟩

theorem fireTime_eq_error_iff (s : EventSpec) (z : Zone) (now start : Instant)
    (e : Fault CampaignError) : s.fireTime z now start = .error e ↔ s.dueTime z start = .error e := by
  rw [fireTime_eq]
  cases s.dueTime z start <;> simp

/-- Whether there is an answer does not hang on the present. -/
theorem fireTime_ok_iff (s : EventSpec) (z : Zone) (now start : Instant) :
    (∃ r, s.fireTime z now start = .ok r) ↔ ∃ t, s.dueTime z start = .ok t := by
  rw [fireTime_eq]
  cases s.dueTime z start <;> simp

end EventSpec

/-! ## Whole seconds -/

namespace Moment

theorem nanos_plus {t : Moment} {d : Int} (ht : t.nanos = 0) (hd : d % 1000000000 = 0) :
    (t.plus d).nanos = 0 := by
  rw [plus_of_not_leap (by omega)]
  simp only [ofNanos, toNanos]
  omega

theorem plus_of_leap {t : Moment} {d : Int} (ht : 1000000000 ≤ t.nanos) (hd : d ≤ -1000000000) :
    t.plus d = ofNanos (t.toNanos + d) := by
  have hback : ¬ ((1000000000 : Int) ≤ d ∨ ((0 : Int) < d ∧ (2000000000 : Int) ≤ t.nanos + d)) := by
    omega
  unfold plus
  rw [if_neg (by omega), if_neg hback, if_pos hd]

theorem nanos_plus? {t u : Moment} {d : Int} (ht : t.nanos = 0) (hd : d % 1000000000 = 0)
    (h : t.plus? d = some u) : u.nanos = 0 := by
  obtain ⟨rfl, -⟩ := plus?_eq_some_iff.1 h
  exact nanos_plus ht hd

end Moment

namespace Zone

theorem nanos_roundUp {z : Zone} {start t : Instant} (h : z.roundUp start = some t) :
    t.nanos = 0 := by
  have hs : 0 ≤ (z.wallTime start).secondOfDay % 60 := Int.emod_nonneg _ (by decide)
  have hn : (z.wallTime start).nanos = start.nanos := rfl
  simp only [roundUp, Span.ofSeconds, hn] at h
  generalize (z.wallTime start).secondOfDay % 60 = k at *
  by_cases he : k * 1000000000 + (start.nanos : Int) = 0
  · rw [if_pos he] at h
    obtain rfl := Option.some.inj h
    omega
  · rw [if_neg he] at h
    split at h
    · cases h
    · rename_i u hu
      refine Moment.nanos_plus? ?_ (by decide) h
      obtain ⟨rfl, -⟩ := Moment.plus?_eq_some_iff.1 hu
      by_cases hleap : start.nanos < 1000000000
      · rw [Moment.plus_of_not_leap hleap]
        simp only [Moment.ofNanos, Moment.toNanos]
        omega
      · -- the way back is longer than the leap second
        rw [Moment.plus_of_leap (by omega) (by omega)]
        simp only [Moment.ofNanos, Moment.toNanos]
        omega

theorem nanos_instantsAt {z : Zone} {w : WallTime} {t : Instant} (h : t ∈ z.instantsAt w) :
    t.nanos = w.nanos := by
  simp only [instantsAt, List.mem_map] at h
  obtain ⟨s, -, rfl⟩ := h
  rfl

theorem nanos_earliest? {z : Zone} {w : WallTime} {t : Instant} (h : z.earliest? w = some t) :
    t.nanos = w.nanos := by
  unfold earliest? at h
  split at h
  · cases h
  · rename_i u us hw
    split at h
    · cases h
      exact nanos_instantsAt (by rw [hw]; exact List.mem_cons_self)
    · cases h

theorem nanos_localizeWithin {z : Zone} {n : Nat} {w : WallTime} {t : Instant}
    (hw : w.nanos = 0) (h : z.localizeWithin n w = .ok t) : t.nanos = 0 := by
  induction n generalizing w with
  | zero => cases h
  | succ n ih =>
    unfold localizeWithin at h
    split at h
    · rename_i u hu
      cases h
      rw [nanos_earliest? hu, hw]
    · split at h
      · cases h
      · rename_i w' hw'
        exact ih (Moment.nanos_plus? hw (by decide) hw') h

end Zone

namespace EventSpec

theorem nanos_resolve {z : Zone} {w : WallTime} {t : Instant} (hw : w.nanos = 0)
    (h : resolve z w = .ok t) : t.nanos = 0 := by
  unfold resolve at h
  split at h
  · rename_i u hu
    cases h
    exact Zone.nanos_localizeWithin hw hu
  · cases h
  · cases h

theorem nanos_moved {s : EventSpec} {z : Zone} {start t : Instant} (hs : start.nanos = 0)
    (h : s.moved z start = .ok t) : t.nanos = 0 := by
  have hspan (n : Int) : (Span.ofSeconds n : Int) % 1000000000 = 0 :=
    Int.mul_emod_left n 1000000000
  have helapsed {d : Int} (hd : d % 1000000000 = 0) (h : s.elapsed start d = .ok t) :
      t.nanos = 0 := by
    unfold elapsed at h
    split at h
    · cases h
    · cases h
      exact Moment.nanos_plus? hs hd ‹_›
  have hcalendar {days : Int} (h : s.calendar z start days = .ok t) : t.nanos = 0 := by
    unfold calendar at h
    split at h
    · cases h
    · rename_i wall hwall
      have hwn : wall.nanos = 0 := by
        unfold Zone.wallTime? at hwall
        split at hwall
        · cases hwall; exact hs
        · cases hwall
      split at h
      · cases h
      · exact nanos_resolve (Moment.nanos_plus? hwn (hspan _) ‹_›) h
  unfold moved at h
  split at h
  · exact helapsed (hspan _) h
  · exact helapsed (hspan _) h
  · exact hcalendar h
  · exact hcalendar h

theorem nanos_delivered {s : EventSpec} {z : Zone} {t u : Instant} (ht : t.nanos = 0)
    (h : s.delivered z t = .ok u) : u.nanos = 0 := by
  unfold delivered at h
  split at h
  · cases h; exact ht
  · split at h
    · cases h
    · split at h
      · exact nanos_resolve rfl h
      · cases h

theorem nanos_dueTime {s : EventSpec} {z : Zone} {start t : Instant}
    (h : s.dueTime z start = .ok t) : t.nanos = 0 := by
  unfold dueTime at h
  split at h
  · cases h
  · rename_i begin hbegin
    split at h
    · cases h
    · rename_i u hu
      exact nanos_delivered (nanos_moved (Zone.nanos_roundUp hbegin) hu) h

end EventSpec
end Outreach
