import Outreach.Time.Calendar

/-!
# Outreach.Proofs.Time.Calendar

Dates follow one another as their days do. A day is taken apart into an era of 400 years, a year
that begins in March, a month and a day of the month; each part grows with the one before it.

* `Date.ofDays_lt` — a later day has a later date.
* `Date.valid_ofDays`, `Date.toDays_ofDays` — the date of a day is one, and its day is that day.
-/

namespace Outreach
namespace Date

def era (n : Int) : Int := (n + 719468) / 146097

def dayOfEra (n : Int) : Int := (n + 719468) % 146097

def yearOfEra (d : Int) : Int := (d - d / 1460 + d / 36524 - d / 146096) / 365

/-- The first day of a year of the era. -/
def yearStart (y : Int) : Int := 365 * y + y / 4 - y / 100

def dayOfYear (d : Int) : Int := d - yearStart (yearOfEra d)

/-- Months since March. -/
def monthOfYear (k : Int) : Int := (5 * k + 2) / 153

def dayOfMonth (k : Int) : Int := k - (153 * monthOfYear k + 2) / 5 + 1

theorem ofDays_eq (n : Int) :
    ofDays n =
      let y := yearOfEra (dayOfEra n) + era n * 400
      let k := dayOfYear (dayOfEra n)
      if monthOfYear k < 10 then ⟨y, (monthOfYear k + 3).toNat, (dayOfMonth k).toNat⟩
      else ⟨y + 1, (monthOfYear k - 9).toNat, (dayOfMonth k).toNat⟩ := rfl

/-! ## The parts of a day -/

theorem dayOfEra_bounds (n : Int) : 0 ≤ dayOfEra n ∧ dayOfEra n < 146097 := by
  unfold dayOfEra; omega

theorem yearOfEra_bounds {d : Int} (h0 : 0 ≤ d) (h : d < 146097) :
    0 ≤ yearOfEra d ∧ yearOfEra d < 400 := by
  unfold yearOfEra; omega

theorem yearOfEra_mono {d e : Int} (h : d ≤ e) : yearOfEra d ≤ yearOfEra e := by
  have hyear : d - d / 1460 ≤ e - e / 1460 := by omega
  have hcentury : d / 36524 - d / 36524 / 4 ≤ e / 36524 - e / 36524 / 4 := by
    have : d / 36524 ≤ e / 36524 := Int.ediv_le_ediv (by decide) h
    omega
  have hd : d / 146096 = d / 36524 / 4 := by omega
  have he : e / 146096 = e / 36524 / 4 := by omega
  unfold yearOfEra
  apply Int.ediv_le_ediv (by decide)
  rw [hd, he]
  omega

theorem yearOfEra_yearStart : ∀ y : Fin 400, yearOfEra (yearStart (y.val : Int)) = y.val := by
  decide +kernel

/-- A year that has not begun is not the year of the day. -/
theorem lt_yearStart {d y : Int} (hy : y < 400) (h0 : 0 ≤ d) (h : yearOfEra d < y) :
    d < yearStart y := by
  have hpos : 0 ≤ yearOfEra d := by unfold yearOfEra; omega
  obtain ⟨k, rfl⟩ := Int.eq_ofNat_of_zero_le (show 0 ≤ y by omega)
  have hk := yearOfEra_yearStart ⟨k, by omega⟩
  apply Int.not_le.1
  intro hle
  have := yearOfEra_mono hle
  simp only [hk] at this
  omega

theorem yearStart_le {d : Int} (h0 : 0 ≤ d) (h : d < 146097) : yearStart (yearOfEra d) ≤ d := by
  have hf : d / 36524 = 0 ∨ d / 36524 = 1 ∨ d / 36524 = 2 ∨ d / 36524 = 3 ∨ d / 36524 = 4 := by
    omega
  have hc : yearOfEra d / 100 = 0 ∨ yearOfEra d / 100 = 1 ∨ yearOfEra d / 100 = 2 ∨
      yearOfEra d / 100 = 3 := by
    unfold yearOfEra; omega
  unfold yearStart
  unfold yearOfEra at *
  rcases hf with hf | hf | hf | hf | hf <;> rcases hc with hc | hc | hc | hc <;> omega

/-- Only a year with a leap day has 366 days. -/
theorem dayOfYear_bounds {d : Int} (h0 : 0 ≤ d) (h : d < 146097) :
    0 ≤ dayOfYear d ∧ dayOfYear d ≤ 365 ∧
      (dayOfYear d = 365 → isLeapYear (yearOfEra d + 1) = true) := by
  have hy := yearOfEra_bounds h0 h
  have hle := yearStart_le h0 h
  have hlt : yearOfEra d + 1 < 400 → d < yearStart (yearOfEra d + 1) := fun hy' =>
    lt_yearStart hy' h0 (by omega)
  simp only [dayOfYear, isLeapYear, Bool.and_eq_true, Bool.or_eq_true, beq_iff_eq, bne_iff_ne]
  generalize yearOfEra d = y at *
  simp only [yearStart] at *
  by_cases hl : y + 1 < 400
  · have := hlt hl
    have h4 : (y + 1) / 4 = y / 4 ∨ ((y + 1) / 4 = y / 4 + 1 ∧ (y + 1) % 4 = 0) := by omega
    have h100 : ((y + 1) / 100 = y / 100 ∧ (y + 1) % 100 ≠ 0) ∨
        (y + 1) / 100 = y / 100 + 1 := by
      omega
    refine ⟨by omega, by omega, fun he => ?_⟩
    rcases h4 with h4 | ⟨h4, hz⟩ <;> rcases h100 with ⟨h100, hnz⟩ | h100
    · omega
    · omega
    · exact ⟨hz, .inl hnz⟩
    · omega
  · obtain rfl : y = 399 := by omega
    refine ⟨by omega, by omega, fun _ => by decide⟩

theorem monthOfYear_bounds {k : Int} (h0 : 0 ≤ k) (h : k ≤ 365) :
    0 ≤ monthOfYear k ∧ monthOfYear k ≤ 11 := by
  unfold monthOfYear; omega

theorem dayOfMonth_bounds (k : Int) : 1 ≤ dayOfMonth k ∧ dayOfMonth k ≤ 31 := by
  unfold dayOfMonth monthOfYear; omega

/-! ## Later days -/

theorem ofDays_lt {m n : Int} (h : m < n) :
    (ofDays m).year < (ofDays n).year ∨ ((ofDays m).year = (ofDays n).year ∧
      ((ofDays m).month < (ofDays n).month ∨ ((ofDays m).month = (ofDays n).month ∧
        (ofDays m).day < (ofDays n).day))) := by
  have hm := dayOfEra_bounds m
  have hn := dayOfEra_bounds n
  have hera : era m < era n ∨ (era m = era n ∧ dayOfEra m < dayOfEra n) := by
    unfold era dayOfEra; omega
  have hmono : dayOfEra m ≤ dayOfEra n → yearOfEra (dayOfEra m) ≤ yearOfEra (dayOfEra n) :=
    yearOfEra_mono
  have hym := yearOfEra_bounds hm.1 hm.2
  have hyn := yearOfEra_bounds hn.1 hn.2
  have hkm := dayOfYear_bounds hm.1 hm.2
  have hkn := dayOfYear_bounds hn.1 hn.2
  have hyear : yearOfEra (dayOfEra m) = yearOfEra (dayOfEra n) → dayOfEra m < dayOfEra n →
      dayOfYear (dayOfEra m) < dayOfYear (dayOfEra n) := by
    intro he hd; unfold dayOfYear; rw [he]; omega
  simp only [ofDays_eq]
  generalize dayOfYear (dayOfEra m) = j at *
  generalize dayOfYear (dayOfEra n) = k at *
  generalize yearOfEra (dayOfEra m) = y at *
  generalize yearOfEra (dayOfEra n) = z at *
  have hbm := monthOfYear_bounds hkm.1 hkm.2.1
  have hbn := monthOfYear_bounds hkn.1 hkn.2.1
  have hmonth : j < k → monthOfYear j < monthOfYear k ∨
      (monthOfYear j = monthOfYear k ∧ dayOfMonth j < dayOfMonth k) := by
    intro hjk; unfold dayOfMonth monthOfYear; omega
  have hdm := dayOfMonth_bounds j
  have hdn := dayOfMonth_bounds k
  generalize monthOfYear j = a at *
  generalize monthOfYear k = b at *
  generalize dayOfMonth j = c at *
  generalize dayOfMonth k = d at *
  split <;> split <;> simp only <;> omega

/-! ## Dates and days -/

theorem valid_ofDays (n : Int) : (ofDays n).Valid := by
  have hd := dayOfEra_bounds n
  have hy := yearOfEra_bounds hd.1 hd.2
  obtain ⟨h0, h365, hleap⟩ := dayOfYear_bounds hd.1 hd.2
  have hm := monthOfYear_bounds h0 h365
  have hl : dayOfYear (dayOfEra n) = 365 →
      isLeapYear (yearOfEra (dayOfEra n) + era n * 400 + 1) = true := by
    intro h
    have := hleap h
    simp only [isLeapYear, Bool.and_eq_true, Bool.or_eq_true, beq_iff_eq, bne_iff_ne] at this ⊢
    omega
  simp only [ofDays_eq]
  generalize dayOfYear (dayOfEra n) = k at *
  generalize yearOfEra (dayOfEra n) + era n * 400 = y at *
  have hday : dayOfMonth k = k - (153 * monthOfYear k + 2) / 5 + 1 := rfl
  have hmonth : monthOfYear k = (5 * k + 2) / 153 := rfl
  have hdm := dayOfMonth_bounds k
  generalize dayOfMonth k = d at *
  generalize monthOfYear k = m at *
  obtain ⟨m, rfl⟩ := Int.eq_ofNat_of_zero_le hm.1
  obtain ⟨d, rfl⟩ := Int.eq_ofNat_of_zero_le (show 0 ≤ d by omega)
  have hm12 : m = 0 ∨ m = 1 ∨ m = 2 ∨ m = 3 ∨ m = 4 ∨ m = 5 ∨ m = 6 ∨ m = 7 ∨ m = 8 ∨ m = 9 ∨
      m = 10 ∨ m = 11 := by
    omega
  rcases hm12 with rfl | rfl | rfl | rfl | rfl | rfl | rfl | rfl | rfl | rfl | rfl | rfl <;>
    simp [Valid, daysInMonth] <;> (try split) <;> grind

theorem toDays_ofDays (n : Int) : (ofDays n).toDays = n := by
  have hd := dayOfEra_bounds n
  have hy := yearOfEra_bounds hd.1 hd.2
  obtain ⟨h0, h365, -⟩ := dayOfYear_bounds hd.1 hd.2
  have hm := monthOfYear_bounds h0 h365
  have hn : n = era n * 146097 + dayOfEra n - 719468 := by unfold era dayOfEra; omega
  have hk : dayOfEra n = yearStart (yearOfEra (dayOfEra n)) + dayOfYear (dayOfEra n) := by
    unfold dayOfYear; omega
  simp only [ofDays_eq]
  generalize dayOfYear (dayOfEra n) = k at *
  have hday : dayOfMonth k = k - (153 * monthOfYear k + 2) / 5 + 1 := rfl
  have hdm := dayOfMonth_bounds k
  unfold yearStart at hk
  generalize dayOfMonth k = d at *
  generalize monthOfYear k = m at *
  generalize yearOfEra (dayOfEra n) = y at *
  have hera : (y + era n * 400) / 400 = era n ∧ (y + era n * 400) % 400 = y := by omega
  have hdn : (d.toNat : Int) = d := by omega
  unfold toDays
  split
  · have hmn : (((m + 3).toNat + 9) % 12 : Nat) = m := by omega
    simp only [show ¬ (m + 3).toNat ≤ 2 by omega, if_false, hmn, hdn, hera.1, hera.2]
    omega
  · have hmn : (((m - 9).toNat + 9) % 12 : Nat) = m := by omega
    simp only [show (m - 9).toNat ≤ 2 by omega, if_true, hmn, hdn, Int.add_sub_cancel, hera.1,
      hera.2]
    omega

end Date
end Outreach
