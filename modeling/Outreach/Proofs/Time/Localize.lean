import Outreach.Proofs.Time.Zone

/-!
# Outreach.Proofs.Time.Localize

What `localize` answers for any wall time, also near the ends of the range of moments, where a wall
time can be in the range and its instants outside of it.

* `Zone.Placed` — the wall time occurs, and all instants that have it are in the range.
* `Zone.exists_minute_of_localize` — the answer is the earliest instant of the first minute from the
  wall time on that is placed.
* `Zone.RunsOut`, `Zone.localize_overflow_iff` — there is no answer, nor an error, just if the range
  ends before the search does and no wall time that is left is placed.
-/

namespace Outreach
namespace Zone

variable {z : Zone} {w : WallTime} {t : Instant} {n : Nat}

/-! ## Placed wall times -/

/-- The wall time occurs, and not outside of the range. -/
def Placed (z : Zone) (w : WallTime) : Prop := z.Occurs w ∧ ∀ t, z.Shows t w → t.InRange

theorem earliest?_eq_some_iff (ho : z.Ordered) :
    z.earliest? w = some t ↔ z.Placed w ∧ z.Shows t w ∧ ∀ u, z.Shows u w → t ≤ u := by
  constructor
  · intro h
    have hoccurs : z.Occurs w := by
      by_contra hnot
      rw [earliest?_of_not_occurs ho hnot] at h
      cases h
    obtain ⟨v, vs, hlist, hv, hle⟩ := exists_instantsAt ho hoccurs
    simp only [earliest?, hlist, Option.ite_none_right_eq_some, Option.some.injEq] at h
    obtain ⟨hall, rfl⟩ := h
    refine ⟨⟨hoccurs, fun u hu => hall u ?_⟩, hv, hle⟩
    rw [← hlist]
    exact (mem_instantsAt ho).2 hu
  · rintro ⟨⟨-, hrange⟩, hshows, hle⟩
    exact earliest?_of_shows ho hshows hle hrange

theorem earliest?_eq_none_iff (ho : z.Ordered) : z.earliest? w = none ↔ ¬ z.Placed w := by
  constructor
  · rintro h ⟨hoccurs, hrange⟩
    obtain ⟨t, ts, -, ht, hle⟩ := exists_instantsAt ho hoccurs
    rw [earliest?_of_shows ho ht hle hrange] at h
    cases h
  · intro h
    cases hw : z.earliest? w with
    | none => rfl
    | some t => exact absurd ((earliest?_eq_some_iff ho).1 hw).1 h

/-! ## The search -/

theorem exists_minute_of_localizeWithin (h : z.localizeWithin n w = .ok t) :
    ∃ k < n, (∀ j < k, z.earliest? (w.minutesOn j) = none ∧ (w.minutesOn (j + 1)).InRange) ∧
      z.earliest? (w.minutesOn k) = some t := by
  induction n generalizing w with
  | zero => cases h
  | succ n ih =>
    unfold localizeWithin at h
    split at h
    · rename_i u hu
      cases h
      refine ⟨0, Nat.succ_pos n, by simp, ?_⟩
      rwa [Moment.minutesOn_zero]
    · rename_i hnone
      split at h
      · cases h
      · rename_i w' hw'
        obtain ⟨rfl, hin⟩ := Moment.plus?_eq_some_iff.1 hw'
        obtain ⟨k, hk, hpassed, ht⟩ := ih (w := w.minutesOn 1) h
        simp only [Moment.minutesOn_one_minutesOn] at hpassed ht
        refine ⟨k + 1, by omega, fun j hj => ?_, ht⟩
        cases j with
        | zero => exact ⟨by rwa [Moment.minutesOn_zero], hin⟩
        | succ j => exact hpassed j (by omega)

/-- An instant that `localize` gives is the earliest one of a minute from the wall time on, and no
minute before that is placed. -/
theorem exists_minute_of_localize (h : z.localize w = .ok t) :
    ∃ k ≤ longestGap,
      (∀ j < k, z.earliest? (w.minutesOn j) = none ∧ (w.minutesOn (j + 1)).InRange) ∧
      z.earliest? (w.minutesOn k) = some t := by
  obtain ⟨k, hk, hminute⟩ := exists_minute_of_localizeWithin h
  exact ⟨k, Nat.le_of_lt_succ hk, hminute⟩

/-- What the clocks show then is that minute. -/
theorem wallTime_of_localize (ho : z.Ordered) (h : z.localize w = .ok t) :
    ∃ k ≤ longestGap, z.wallTime t = w.minutesOn k ∧ (w.InRange → (z.wallTime t).InRange) := by
  obtain ⟨k, hk, hpassed, ht⟩ := exists_minute_of_localize h
  have hshows : z.wallTime t = w.minutesOn k := ((earliest?_eq_some_iff ho).1 ht).2.1
  refine ⟨k, hk, hshows, fun hin => ?_⟩
  rw [hshows]
  cases k with
  | zero => rwa [Moment.minutesOn_zero]
  | succ k => exact (hpassed k (Nat.lt_succ_self k)).2

theorem le_wallTime_of_localize (ho : z.Ordered) (hw : w.nanos < 1000000000)
    (h : z.localize w = .ok t) : w ≤ z.wallTime t := by
  obtain ⟨k, -, hshows, -⟩ := wallTime_of_localize ho h
  have hlate := Moment.le_minutesOn hw (Nat.zero_le k)
  rw [Moment.minutesOn_zero] at hlate
  rwa [hshows]

/-- The wall times from `w` on reach the end of the range, in fewer minutes than are searched, and
none of them is placed. -/
def RunsOut (z : Zone) (w : WallTime) : Prop :=
  ∃ k ≤ longestGap, (∀ j ≤ k, ¬ z.Placed (w.minutesOn j) ∧ (w.minutesOn j).InRange) ∧
    ¬ (w.minutesOn (k + 1)).InRange

theorem localizeWithin_overflow_iff (ho : z.Ordered) (hin : w.InRange) :
    z.localizeWithin n w = .error .overflow ↔
      ∃ k < n, (∀ j ≤ k, ¬ z.Placed (w.minutesOn j) ∧ (w.minutesOn j).InRange) ∧
        ¬ (w.minutesOn (k + 1)).InRange := by
  induction n generalizing w with
  | zero => simp [localizeWithin]
  | succ n ih =>
    unfold localizeWithin
    cases hw : z.earliest? w with
    | some t =>
      have hplaced := ((earliest?_eq_some_iff ho).1 hw).1
      simp only [reduceCtorEq, false_iff]
      rintro ⟨k, -, hpassed, -⟩
      have h0 := (hpassed 0 (Nat.zero_le k)).1
      rw [Moment.minutesOn_zero] at h0
      exact h0 hplaced
    | none =>
      have hnot := (earliest?_eq_none_iff ho).1 hw
      dsimp only
      by_cases hnext : (w.minutesOn 1).InRange
      · have hplus : w.plus? (Span.ofMinutes 1) = some (w.minutesOn 1) :=
          Moment.plus?_eq_some_iff.2 ⟨rfl, hnext⟩
        simp only [hplus, ih hnext, Moment.minutesOn_one_minutesOn]
        constructor
        · rintro ⟨k, hk, hpassed, hend⟩
          refine ⟨k + 1, by omega, fun j hj => ?_, hend⟩
          cases j with
          | zero => rw [Moment.minutesOn_zero]; exact ⟨hnot, hin⟩
          | succ j => exact hpassed j (by omega)
        · rintro ⟨k, hk, hpassed, hend⟩
          cases k with
          | zero => exact absurd hnext hend
          | succ k => exact ⟨k, by omega, fun j hj => hpassed (j + 1) (by omega), hend⟩
      · have hplus : w.plus? (Span.ofMinutes 1) = none := if_neg hnext
        simp only [hplus, true_iff]
        refine ⟨0, Nat.succ_pos n, fun j hj => ?_, hnext⟩
        obtain rfl : j = 0 := by omega
        rw [Moment.minutesOn_zero]
        exact ⟨hnot, hin⟩

theorem localize_overflow_iff (ho : z.Ordered) (hin : w.InRange) :
    z.localize w = .error .overflow ↔ z.RunsOut w := by
  simp only [localize, localizeWithin_overflow_iff ho hin, Nat.lt_succ_iff, RunsOut]

/-- Wall times run out in the last hours of the last day only. -/
theorem RunsOut.day (hw : w.nanos < 1000000000) (h : z.RunsOut w) : w.day = Moment.lastDay := by
  obtain ⟨k, hk, hpassed, hend⟩ := h
  have hin := (hpassed 0 (Nat.zero_le k)).2
  rw [Moment.minutesOn_zero] at hin
  rw [Moment.minutesOn_eq_shift hw] at hend
  have hk' : k ≤ 120 := hk
  unfold Moment.InRange Moment.IsDay Moment.day at *
  simp only [Moment.shift] at hend
  omega

end Zone
end Outreach
