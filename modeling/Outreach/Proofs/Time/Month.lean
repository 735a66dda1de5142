import Mathlib.Order.Monotone.Basic
import Outreach.Proofs.Time.Calendar

/-!
# Outreach.Proofs.Time.Month

Months follow one another without a gap. They are counted through from January of the year 0.

* `Date.monthStart_succ` — a month begins when the one before it has had all its days.
* `Date.monthOf_eq_iff` — a day is of the month between whose first day and the next one it lies.
* `Date.dayIn` — a day of a month, or the last one if the month is shorter.
-/

namespace Outreach
namespace Date

def monthIndex (d : Date) : Int := d.year * 12 + d.month - 1

/-- The first day of a month. -/
def monthStart (i : Int) : Int := toDays ⟨i / 12, (i % 12).toNat + 1, 1⟩

def monthLength (i : Int) : Nat := daysInMonth (i / 12) ((i % 12).toNat + 1)

/-- The month of a day. -/
def monthOf (n : Int) : Int := (ofDays n).monthIndex

variable {d : Date} {i j n : Int} {day : Nat}

theorem monthLength_bounds (i : Int) : 28 ≤ monthLength i ∧ monthLength i ≤ 31 := by
  unfold monthLength daysInMonth
  split
  · split <;> decide
  · split <;> decide

/-! ## One month after the other -/

/-- The year of `toDays` ends with February, so that the leap day is told by where it begins. -/
theorem toDays_march (y : Int) : toDays ⟨y, 3, 1⟩ = toDays ⟨y, 2, 1⟩ + daysInMonth y 2 := by
  simp only [toDays, daysInMonth, isLeapYear, Bool.and_eq_true, Bool.or_eq_true, beq_iff_eq,
    bne_iff_ne, Nat.reduceLeDiff, if_true, if_false, Nat.reduceAdd, Nat.reduceMod]
  split <;> omega

theorem toDays_nextMonth (y : Int) {m : Nat} (h1 : 1 ≤ m) (h : m ≤ 11) :
    toDays ⟨y, m + 1, 1⟩ = toDays ⟨y, m, 1⟩ + daysInMonth y m := by
  by_cases hfebruary : m = 2
  · subst hfebruary
    exact toDays_march y
  · have hcases : m = 1 ∨ m = 3 ∨ m = 4 ∨ m = 5 ∨ m = 6 ∨ m = 7 ∨ m = 8 ∨ m = 9 ∨ m = 10 ∨
        m = 11 := by
      omega
    rcases hcases with rfl | rfl | rfl | rfl | rfl | rfl | rfl | rfl | rfl | rfl <;>
      simp [toDays, daysInMonth] <;> omega

theorem toDays_nextYear (y : Int) : toDays ⟨y + 1, 1, 1⟩ = toDays ⟨y, 12, 1⟩ + 31 := by
  simp [toDays]
  omega

theorem monthStart_succ (i : Int) : monthStart (i + 1) = monthStart i + monthLength i := by
  obtain ⟨y, m, rfl, hm⟩ : ∃ (y : Int) (m : Nat), i = y * 12 + m ∧ m < 12 :=
    ⟨i / 12, (i % 12).toNat, by omega, by omega⟩
  have hy : (y * 12 + m) / 12 = y := by omega
  have hm' : ((y * 12 + m) % 12).toNat = m := by omega
  unfold monthStart monthLength
  rw [hy, hm']
  by_cases hlast : m = 11
  · rw [show (y * 12 + (m : Int) + 1) / 12 = y + 1 by omega,
      show ((y * 12 + (m : Int) + 1) % 12).toNat = 0 by omega, hlast]
    exact toDays_nextYear y
  · rw [show (y * 12 + (m : Int) + 1) / 12 = y by omega,
      show ((y * 12 + (m : Int) + 1) % 12).toNat = m + 1 by omega]
    exact toDays_nextMonth y (by omega) (by omega)

theorem monthStart_lt_iff : monthStart i < monthStart j ↔ i < j := by
  have hmono : StrictMono monthStart := strictMono_int_of_lt_succ fun i => by
    have hlength := monthLength_bounds i
    rw [monthStart_succ]
    omega
  exact hmono.lt_iff_lt

theorem monthStart_mono (h : i ≤ j) : monthStart i ≤ monthStart j := by
  rw [← Int.not_lt, monthStart_lt_iff]
  omega

/-! ## The month of a day -/

theorem toDays_eq (h : d.Valid) : d.toDays = monthStart d.monthIndex + d.day - 1 := by
  obtain ⟨y, m, k⟩ := d
  obtain ⟨h1, h12, -, -⟩ := h
  simp only at h1 h12
  unfold monthStart monthIndex
  rw [show (y * 12 + (m : Int) - 1) / 12 = y by omega,
    show ((y * 12 + (m : Int) - 1) % 12).toNat + 1 = m by omega]
  simp only [toDays]
  omega

theorem monthLength_monthIndex (h : d.Valid) :
    monthLength d.monthIndex = daysInMonth d.year d.month := by
  obtain ⟨h1, h12, -, -⟩ := h
  unfold monthLength monthIndex
  rw [show (d.year * 12 + (d.month : Int) - 1) / 12 = d.year by omega,
    show ((d.year * 12 + (d.month : Int) - 1) % 12).toNat + 1 = d.month by omega]

theorem toDays_bounds (h : d.Valid) :
    monthStart d.monthIndex ≤ d.toDays ∧ d.toDays < monthStart (d.monthIndex + 1) := by
  have hlength := monthLength_monthIndex h
  obtain ⟨-, -, h1, hlast⟩ := id h
  rw [toDays_eq h, monthStart_succ]
  omega

theorem eq_of_bounds (hi : monthStart i ≤ n ∧ n < monthStart (i + 1))
    (hj : monthStart j ≤ n ∧ n < monthStart (j + 1)) : i = j := by
  have hij : i < j + 1 := monthStart_lt_iff.1 (by omega)
  have hji : j < i + 1 := monthStart_lt_iff.1 (by omega)
  omega

theorem monthOf_bounds (n : Int) : monthStart (monthOf n) ≤ n ∧ n < monthStart (monthOf n + 1) := by
  have h := toDays_bounds (valid_ofDays n)
  rwa [toDays_ofDays] at h

theorem monthOf_eq_iff : monthOf n = i ↔ monthStart i ≤ n ∧ n < monthStart (i + 1) := by
  constructor
  · rintro rfl
    exact monthOf_bounds n
  · exact eq_of_bounds (monthOf_bounds n)

theorem monthOf_mono {m : Int} (h : m ≤ n) : monthOf m ≤ monthOf n := by
  have hm := monthOf_bounds m
  have hn := monthOf_bounds n
  have hlt : monthOf m < monthOf n + 1 := monthStart_lt_iff.1 (by omega)
  omega

/-! ## A day of each month -/

/-- Day `day` of month `i`, or its last day if the month is shorter. -/
def dayIn (i : Int) (day : Nat) : Int := monthStart i + min day (monthLength i) - 1

theorem monthOf_dayIn (h : 1 ≤ day) : monthOf (dayIn i day) = i := by
  have hlength := monthLength_bounds i
  rw [monthOf_eq_iff, monthStart_succ]
  unfold dayIn
  omega

theorem monthStart_le_dayIn (h : 1 ≤ day) : monthStart i ≤ dayIn i day := by
  have hlength := monthLength_bounds i
  unfold dayIn
  omega

theorem dayIn_lt (h : 1 ≤ day) (hij : i < j) : dayIn i day < dayIn j day := by
  have hmonth : monthStart (i + 1) ≤ monthStart j := monthStart_mono (by omega)
  have hlate : monthStart j ≤ dayIn j day := monthStart_le_dayIn h
  rw [monthStart_succ] at hmonth
  unfold dayIn at *
  omega

/-- The date of a day of a month. -/
theorem eq_dayIn_iff : n = dayIn (monthOf n) day ↔
    (ofDays n).day = min day (daysInMonth (ofDays n).year (ofDays n).month) := by
  have hvalid := valid_ofDays n
  have hday := toDays_eq hvalid
  rw [toDays_ofDays] at hday
  rw [← monthLength_monthIndex hvalid]
  unfold dayIn monthOf
  omega

end Date
end Outreach
