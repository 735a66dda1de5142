import Outreach.Proofs.Time.Calendar
import Outreach.Database.Unreadable

/-!
# Outreach.Proofs.Time.Stored

Stored texts of instants and the instants they are of. Stored texts are compared as texts, so the
order of texts has to be that of instants.

* `Moment.wholeMillis` — what of a moment is stored.
* `Instant.toStored_lt_iff_wholeMillis_lt` — in years of four digits the order of texts is that of
  instants, to the millisecond; `Instant.toStored_lt_iff` for a whole second.
* `Instant.toStored_lt_of_signed` — the text of any other year comes first.
* `Timestamp.parse_toStored` — in years of four digits what is stored is read back.
* `Instant.ofStored_toStored`, `Instant.ofStored_of_signed` — a second is read back from its text
  just if its year has four digits.
-/

namespace Outreach

/-! ## Order of texts -/

namespace Numeral

@[simp] theorem length_digits (w n : Nat) : (digits w n).length = w := by
  induction w generalizing n with
  | zero => rfl
  | succ w ih => simp [digits, ih]

theorem digitChar_lt {m n : Nat} (h : m % 10 < n % 10) : digitChar m < digitChar n := by
  have hn : n % 10 < 10 := Nat.mod_lt _ (by decide)
  unfold digitChar
  generalize m % 10 = i at *
  generalize n % 10 = j at *
  have key : ∀ j : Fin 10, ∀ i : Fin j.val, Char.ofNat (48 + i.val) < Char.ofNat (48 + j.val) := by
    decide
  exact key ⟨j, hn⟩ ⟨i, h⟩

theorem isDigit_of_mem_digits {w n : Nat} {c : Char} (h : c ∈ digits w n) : isDigit c = true := by
  induction w generalizing n with
  | zero => cases h
  | succ w ih =>
    rcases List.mem_append.1 h with h | h
    · exact ih h
    · rw [List.mem_singleton.1 h, isDigit, digit?_digitChar]
      rfl

/-- Zeros at the end count on: three digits of milliseconds are nine of nanoseconds. -/
theorem digits_append_zeros (w n k : Nat) :
    digits w n ++ List.replicate k '0' = digits (w + k) (n * Nat.pow 10 k) := by
  induction k with
  | zero => simp
  | succ k ih =>
    have hp : n * Nat.pow 10 (k + 1) = n * Nat.pow 10 k * 10 := (Nat.mul_assoc ..).symm
    have hlast : digitChar (n * Nat.pow 10 (k + 1)) = '0' := by
      rw [hp, digitChar, Nat.mul_mod_left]
    rw [List.replicate_succ', ← List.append_assoc, ih, ← Nat.add_assoc, digits, hlast, hp,
      Nat.mul_div_cancel _ (by decide)]

end Numeral

open Numeral

theorem append_lt_append_of_length {a b c d : List Char} (hl : a.length = b.length)
    (h : a < b ∨ (a = b ∧ c < d)) : a ++ c < b ++ d := by
  induction a generalizing b with
  | nil =>
    obtain rfl : b = [] := List.length_eq_zero_iff.1 hl.symm
    rcases h with h | ⟨-, h⟩
    · exact absurd h (List.lt_irrefl _)
    · exact h
  | cons x a ih =>
    cases b with
    | nil => cases hl
    | cons y b =>
      have hl' : a.length = b.length := Nat.succ.inj hl
      simp only [List.cons_append, List.cons_lt_cons_iff, List.cons.injEq] at h ⊢
      rcases h with (h | ⟨rfl, h⟩) | ⟨⟨rfl, rfl⟩, h⟩
      · exact .inl h
      · exact .inr ⟨rfl, ih hl' (.inl h)⟩
      · exact .inr ⟨rfl, ih hl' (.inr ⟨rfl, h⟩)⟩

theorem digits_lt {w m n : Nat} (h : m < n) (hn : n < Nat.pow 10 w) : digits w m < digits w n := by
  induction w generalizing m n with
  | zero =>
    have : n < 1 := hn
    omega
  | succ w ih =>
    have hp : Nat.pow 10 (w + 1) = Nat.pow 10 w * 10 := rfl
    apply append_lt_append_of_length (by simp)
    by_cases hd : m / 10 < n / 10
    · exact .inl (ih hd (by omega))
    · have he : m / 10 = n / 10 := by omega
      refine .inr ⟨by rw [he], ?_⟩
      rw [List.cons_lt_cons_iff]
      exact .inl (digitChar_lt (by omega))

theorem daysInMonth_le (y : Int) (m : Nat) : daysInMonth y m ≤ 31 := by
  unfold daysInMonth
  split
  · split <;> decide
  · split <;> decide

namespace Moment

def year (t : Moment) : Int := (Date.ofDays t.day).year

/-- The characters of a zulu time after the year: numbers with their width, each after a
separator. -/
def row : List (Char × Nat × Nat) → List Char
  | [] => ['Z']
  | (c, w, n) :: fs => c :: (digits w n ++ row fs)

/-- The separators, widths and numbers of a stored text after its year. -/
def stamp (t : Moment) : List (Char × Nat × Nat) :=
  let s := t.secondOfDay.toNat
  [('-', 2, (Date.ofDays t.day).month), ('-', 2, (Date.ofDays t.day).day), ('T', 2, s / 3600),
    (':', 2, s / 60 % 60), (':', 2, s % 60 + (if 1000000000 ≤ t.nanos then 1 else 0)),
    ('.', 3, t.fraction / 1000000)]

theorem storedChars_eq (t : Moment) :
    Instant.storedChars t = yearText t.year ++ row t.stamp := by
  simp [Instant.storedChars, dateText, clockText, row, stamp, year]

theorem row_lt {c : Char} {w m n : Nat} {fs gs : List (Char × Nat × Nat)}
    (h : (m < n ∧ n < Nat.pow 10 w) ∨ (m = n ∧ row fs < row gs)) :
    row ((c, w, m) :: fs) < row ((c, w, n) :: gs) := by
  rw [row, row, List.cons_lt_cons_iff]
  refine .inr ⟨rfl, append_lt_append_of_length (by simp) ?_⟩
  rcases h with ⟨h, hn⟩ | ⟨rfl, h⟩
  · exact .inl (digits_lt h hn)
  · exact .inr ⟨rfl, h⟩

theorem lt_digitChar {c : Char} (hc : c < digitChar 0) (n : Nat) : c < digitChar n := by
  by_cases hn : n % 10 = 0
  · have hzero : digitChar n = digitChar 0 := by simp [digitChar, hn]
    rw [hzero]
    exact hc
  · exact Char.lt_trans hc (digitChar_lt (by omega))

/-- Years with a sign come before those without, since signs come before digits. -/
theorem yearText_lt_of_signed {y z : Int} {cs ds : List Char} (hy : ¬ (0 ≤ y ∧ y ≤ 9999))
    (hz : 0 ≤ z ∧ z ≤ 9999) : yearText y ++ cs < yearText z ++ ds := by
  have hsign : (if y < 0 then '-' else '+') < digitChar 0 := by
    split <;> decide
  simp only [yearText, if_neg hy, if_pos hz, digits, List.nil_append, List.cons_append,
    List.cons_lt_cons_iff]
  exact .inl (lt_digitChar hsign _)

theorem yearText_lt {y z : Int} {cs ds : List Char} (hz : 0 ≤ z) (hz' : z ≤ 9999)
    (h : y < z ∨ (y = z ∧ cs < ds)) : yearText y ++ cs < yearText z ++ ds := by
  by_cases hy : 0 ≤ y
  · have hey : yearText y = digits 4 y.toNat := if_pos ⟨hy, by omega⟩
    have hez : yearText z = digits 4 z.toNat := if_pos ⟨hz, hz'⟩
    rw [hey, hez]
    apply append_lt_append_of_length (by simp)
    rcases h with h | ⟨rfl, h⟩
    · exact .inl (digits_lt (by omega) (show z.toNat < 10000 by omega))
    · exact .inr ⟨rfl, h⟩
  · exact yearText_lt_of_signed (by omega) ⟨hz, hz'⟩

/-! ## Order of instants -/

/-- Only the last second of a minute has a leap second in it. A moment as such may have nanoseconds
from 10⁹ on in any second; no clock and no text that is read gives one that has them elsewhere, and
what is proved of stored instants leaves those out. -/
def WellFormed (t : Moment) : Prop :=
  t.nanos < 1000000000 ∨ (t.seconds % 60 = 59 ∧ t.nanos < 2000000000)

/-- The fires that a database can hold in good order are in these years. -/
def FourDigitYear (t : Moment) : Prop := 0 ≤ t.year ∧ t.year ≤ 9999

instance (t : Moment) : Decidable t.WellFormed := by
  unfold WellFormed; infer_instance

instance (t : Moment) : Decidable t.FourDigitYear := by
  unfold FourDigitYear; infer_instance

theorem lt_of_le_of_lt {a b c : Moment} (h : a ≤ b) (h' : b < c) : a < c := by
  rw [le_def] at h
  rw [lt_def] at h' ⊢
  omega

theorem lt_of_lt_of_le {a b c : Moment} (h : a < b) (h' : b ≤ c) : a < c := by
  rw [lt_def] at h ⊢
  rw [le_def] at h'
  omega

theorem lt_trans {a b c : Moment} (h : a < b) (h' : b < c) : a < c := by
  rw [lt_def] at *
  omega

theorem le_refl (a : Moment) : a ≤ a := by
  rw [le_def]
  omega

theorem le_trans {a b c : Moment} (h : a ≤ b) (h' : b ≤ c) : a ≤ c := by
  rw [le_def] at *
  omega

theorem lt_or_eq_or_gt (a b : Moment) : a < b ∨ a = b ∨ b < a := by
  obtain ⟨s, n⟩ := a
  obtain ⟨t, m⟩ := b
  simp only [lt_def, Moment.mk.injEq]
  omega

theorem secondOfDay_bounds (t : Moment) : 0 ≤ t.secondOfDay ∧ t.secondOfDay < 86400 := by
  unfold secondOfDay; omega

/-- The moment without what is finer than a millisecond. -/
def wholeMillis (t : Moment) : Moment := ⟨t.seconds, t.nanos / 1000000 * 1000000⟩

theorem wholeMillis_of_nanos {t : Moment} (h : t.nanos = 0) : t.wholeMillis = t := by
  simp only [wholeMillis, h, Nat.zero_div, Nat.zero_mul]
  rw [← h]

/-- A moment before a whole second is so without its finer part, too. -/
theorem wholeMillis_lt_iff {s t : Moment} (ht : t.nanos = 0) : s.wholeMillis < t ↔ s < t := by
  simp only [lt_def, wholeMillis]
  omega

/-- Within a day. -/
theorem row_stamp_lt {s t : Moment} (hs : s.WellFormed) (ht : t.WellFormed) (hd : s.day = t.day)
    (h : s.wholeMillis < t.wholeMillis) : row s.stamp < row t.stamp := by
  have hb := secondOfDay_bounds s
  have hb' := secondOfDay_bounds t
  have hp : Nat.pow 10 2 = 100 := rfl
  have hp' : Nat.pow 10 3 = 1000 := rfl
  have hlater : s.secondOfDay < t.secondOfDay ∨
      (s.secondOfDay = t.secondOfDay ∧ s.nanos / 1000000 < t.nanos / 1000000) := by
    simp only [lt_def, wholeMillis] at h
    unfold day at hd
    unfold secondOfDay
    omega
  have hleap : 1000000000 ≤ s.nanos → s.secondOfDay % 60 = 59 := by
    unfold WellFormed at hs
    unfold secondOfDay
    omega
  have hnanos : t.nanos < 2000000000 := by
    unfold WellFormed at ht
    omega
  obtain ⟨i, hi⟩ := Int.eq_ofNat_of_zero_le hb.1
  obtain ⟨j, hj⟩ := Int.eq_ofNat_of_zero_le hb'.1
  simp only [stamp, hd, hi, hj, Int.toNat_natCast, fraction]
  rw [hi, hj] at hlater
  rw [hi] at hleap
  refine row_lt (.inr ⟨rfl, row_lt (.inr ⟨rfl, ?_⟩)⟩)
  by_cases hhour : i / 3600 < j / 3600
  · exact row_lt (.inl ⟨hhour, by omega⟩)
  refine row_lt (.inr ⟨by omega, ?_⟩)
  by_cases hminute : i / 60 % 60 < j / 60 % 60
  · exact row_lt (.inl ⟨hminute, by omega⟩)
  refine row_lt (.inr ⟨by omega, ?_⟩)
  -- a leap second shows as second 60, so within a minute seconds count on past it
  by_cases hsecond : i % 60 + (if 1000000000 ≤ s.nanos then 1 else 0) <
      j % 60 + (if 1000000000 ≤ t.nanos then 1 else 0)
  · refine row_lt (.inl ⟨hsecond, ?_⟩)
    split <;> omega
  · refine row_lt (.inr ⟨?_, row_lt (.inl ⟨?_, ?_⟩)⟩)
    all_goals
      by_cases hls : 1000000000 ≤ s.nanos <;> by_cases hlt : 1000000000 ≤ t.nanos <;>
        simp only [hls, hlt, if_true, if_false] at hsecond ⊢ <;> omega

end Moment

namespace Instant

/-- Of two instants that differ by milliseconds the earlier one has the smaller text. -/
theorem toStored_lt_of_wholeMillis_lt {s t : Instant} (hs : s.WellFormed) (ht : t.WellFormed)
    (hy : t.FourDigitYear) (h : s.wholeMillis < t.wholeMillis) : s.toStored < t.toStored := by
  have hp : Nat.pow 10 2 = 100 := rfl
  rw [String.lt_iff, toStored, toStored, String.toList_ofList, String.toList_ofList,
    Moment.storedChars_eq, Moment.storedChars_eq]
  apply Moment.yearText_lt hy.1 hy.2
  by_cases hd : s.day < t.day
  · obtain ⟨-, hm, -, hday'⟩ := Date.valid_ofDays t.day
    have hle := Nat.le_trans hday' (daysInMonth_le _ _)
    rcases Date.ofDays_lt hd with hyear | ⟨hyear, hmonth | ⟨hmonth, hday⟩⟩
    · exact .inl hyear
    · exact .inr ⟨hyear, Moment.row_lt (.inl ⟨hmonth, by omega⟩)⟩
    · refine .inr ⟨hyear, Moment.row_lt (.inr ⟨hmonth, Moment.row_lt (.inl ⟨hday, by omega⟩)⟩)⟩
  · have he : s.day = t.day := by
      simp only [Moment.lt_def, Moment.wholeMillis] at h
      unfold Moment.day at *
      omega
    exact .inr ⟨by unfold Moment.year; rw [he], Moment.row_stamp_lt hs ht he h⟩

theorem storedChars_wholeMillis (t : Instant) : storedChars t.wholeMillis = storedChars t := by
  have hleap : 1000000000 ≤ t.nanos / 1000000 * 1000000 ↔ 1000000000 ≤ t.nanos := by omega
  have hfraction : t.wholeMillis.fraction / 1000000 = t.fraction / 1000000 := by
    simp only [Moment.fraction, Moment.wholeMillis, hleap]
    split <;> omega
  have hyear : t.wholeMillis.year = t.year := rfl
  rw [Moment.storedChars_eq, Moment.storedChars_eq, hyear]
  simp only [Moment.stamp, hfraction]
  simp only [Moment.wholeMillis, hleap, Moment.day, Moment.secondOfDay]

/-- In years of four digits the order of texts is that of instants, to the millisecond. -/
theorem toStored_lt_iff_wholeMillis_lt {s t : Instant} (hs : s.WellFormed) (hsy : s.FourDigitYear)
    (ht : t.WellFormed) (hty : t.FourDigitYear) :
    s.toStored < t.toStored ↔ s.wholeMillis < t.wholeMillis := by
  refine ⟨fun h => ?_, toStored_lt_of_wholeMillis_lt hs ht hty⟩
  rcases Moment.lt_or_eq_or_gt s.wholeMillis t.wholeMillis with hlt | heq | hgt
  · exact hlt
  · have htext : s.toStored = t.toStored := by
      rw [toStored, toStored, ← storedChars_wholeMillis s, ← storedChars_wholeMillis t, heq]
    exact absurd (htext ▸ h) (String.lt_irrefl _)
  · exact absurd (String.lt_trans h (toStored_lt_of_wholeMillis_lt ht hs hsy hgt))
      (String.lt_irrefl _)

theorem wellFormed_of_nanos {t : Instant} (h : t.nanos = 0) : t.WellFormed :=
  .inl (by omega)

theorem toStored_lt {now t : Instant} (hn : now.WellFormed) (ht : t.nanos = 0)
    (hy : t.FourDigitYear) (h : now < t) : now.toStored < t.toStored := by
  refine toStored_lt_of_wholeMillis_lt hn (wellFormed_of_nanos ht) hy ?_
  rwa [Moment.wholeMillis_of_nanos ht, Moment.wholeMillis_lt_iff ht]

/-- In years of four digits, the order of texts is that of instants. -/
theorem toStored_lt_iff {now t : Instant} (hn : now.WellFormed) (hny : now.FourDigitYear)
    (ht : t.nanos = 0) (hy : t.FourDigitYear) : now.toStored < t.toStored ↔ now < t := by
  rw [toStored_lt_iff_wholeMillis_lt hn hny (wellFormed_of_nanos ht) hy,
    Moment.wholeMillis_of_nanos ht, Moment.wholeMillis_lt_iff ht]

/-- Outside of these years the text comes before those of all instants within them. -/
theorem toStored_lt_of_signed {s t : Instant} (hs : ¬ s.FourDigitYear) (ht : t.FourDigitYear) :
    s.toStored < t.toStored := by
  rw [String.lt_iff, toStored, toStored, String.toList_ofList, String.toList_ofList,
    Moment.storedChars_eq, Moment.storedChars_eq]
  exact Moment.yearText_lt_of_signed hs ht

end Instant

/-! ## Reading back -/

namespace Timestamp

theorem monthDay?_date {d : Date} (hv : d.Valid) (rest : List Char) :
    monthDay? d.year ('-' :: (digits 2 d.month ++ '-' :: (digits 2 d.day ++ rest))) =
      some (d.toDays, rest) := by
  have hm : d.month % Nat.pow 10 2 = d.month :=
    Nat.mod_eq_of_lt (Nat.lt_of_le_of_lt hv.2.1 (by decide))
  have hd : d.day % Nat.pow 10 2 = d.day :=
    Nat.mod_eq_of_lt (Nat.lt_of_le_of_lt (Nat.le_trans hv.2.2.2 (daysInMonth_le _ _)) (by decide))
  simp [monthDay?, char?, read?_digits, hm, hd, hv]

theorem fraction?_millis {n : Nat} (h : n < 1000) (rest : List Char) :
    fraction? ('.' :: (digits 3 n ++ 'Z' :: rest)) = some (n * 1000000, 'Z' :: rest) := by
  have hdigits : ∀ c ∈ digits 3 n, isDigit c = true := fun c hc => isDigit_of_mem_digits hc
  have hnanos : nanosOf (digits 3 n) = n * 1000000 := by
    have hp : Nat.pow 10 6 = 1000000 := rfl
    have hp' : Nat.pow 10 9 = 1000000000 := rfl
    have hzeros := digits_append_zeros 3 n 6
    have hread := read?_digits 9 (n * 1000000) []
    simp only [hp, Nat.reduceAdd] at hzeros
    rw [List.append_nil, hp', Nat.mod_eq_of_lt (by omega)] at hread
    simp only [nanosOf, length_digits, Nat.reduceSub, hzeros, hread]
  have hne : (digits 3 n).isEmpty = false := by
    simp [digits]
  simp only [fraction?]
  rw [List.takeWhile_append_of_pos hdigits, List.dropWhile_append_of_pos hdigits,
    List.takeWhile_cons_of_neg (by decide), List.dropWhile_cons_of_neg (by decide),
    List.append_nil, hne, hnanos]
  rfl

/-- The clock of a stored text with `leap` full leap seconds, which follow second 59 only. -/
theorem clock?_millis {s leap millis : Nat} (hs : s < 86400)
    (hleap : leap = 0 ∨ (leap = 1 ∧ s % 60 = 59)) (hm : millis < 1000) (n : Int) :
    clock? n (digits 2 (s / 3600) ++ ':' :: (digits 2 (s / 60 % 60) ++
      ':' :: (digits 2 (s % 60 + leap) ++ '.' :: (digits 3 millis ++ ['Z'])))) =
      some (⟨n * 86400 + s, millis * 1000000 + leap * 1000000000⟩, ['Z']) := by
  have hp : Nat.pow 10 2 = 100 := rfl
  have hhour : s / 3600 % Nat.pow 10 2 = s / 3600 := by rw [hp]; omega
  have hminute : s / 60 % 60 % Nat.pow 10 2 = s / 60 % 60 := by rw [hp]; omega
  have hsecond : (s % 60 + leap) % Nat.pow 10 2 = s % 60 + leap := by rw [hp]; omega
  have hfraction := fraction?_millis hm []
  have hranges : ¬ (23 < s / 3600 ∨ 59 < s / 60 % 60 ∨ 60 < s % 60 + leap) := by omega
  simp only [clock?, read?_digits, hhour, hminute, hsecond, hfraction, hranges, char?,
    beq_self_eq_true, if_true, if_false, Option.bind_eq_bind, Option.bind_some]
  rcases hleap with rfl | ⟨rfl, hlast⟩
  · have hsum : s / 3600 * 3600 + s / 60 % 60 * 60 + (s % 60 + 0) = s := by omega
    rw [if_neg (by omega), hsum, Nat.zero_mul, Nat.add_zero]
  · have hsum : s / 3600 * 3600 + s / 60 % 60 * 60 + 59 = s := by omega
    rw [if_pos (by omega), hsum, Nat.one_mul]

/-- A stored text is read as the instant it is of, to the millisecond. -/
theorem parse_toStored {t : Instant} (ht : t.WellFormed) (hy : t.FourDigitYear) :
    parse t.toStored = some t.wholeMillis := by
  have hb := t.secondOfDay_bounds
  have hyear : t.year.toNat % Nat.pow 10 4 = t.year.toNat :=
    Nat.mod_eq_of_lt (Nat.lt_of_le_of_lt (Int.toNat_le.2 hy.2) (by decide))
  have hyear' : (t.year.toNat : Int) = t.year := Int.toNat_of_nonneg hy.1
  have htext : Moment.yearText t.year = digits 4 t.year.toNat := if_pos hy
  have hdate := monthDay?_date (Date.valid_ofDays t.day)
  rw [Date.toDays_ofDays] at hdate
  have hday : t.day * 86400 + t.secondOfDay = t.seconds := by
    unfold Moment.day Moment.secondOfDay; omega
  have hleap : (if 1000000000 ≤ t.nanos then 1 else 0) = 0 ∨
      ((if 1000000000 ≤ t.nanos then 1 else 0) = 1 ∧ t.secondOfDay.toNat % 60 = 59) := by
    split
    · refine .inr ⟨rfl, ?_⟩
      unfold Moment.WellFormed at ht
      unfold Moment.secondOfDay
      omega
    · exact .inl rfl
  have hmillis : t.fraction / 1000000 < 1000 := by
    unfold Moment.WellFormed at ht
    unfold Moment.fraction
    split <;> omega
  have hnanos : t.fraction / 1000000 * 1000000 +
      (if 1000000000 ≤ t.nanos then 1 else 0) * 1000000000 = t.nanos / 1000000 * 1000000 := by
    unfold Moment.fraction
    split <;> omega
  have hclock := clock?_millis (s := t.secondOfDay.toNat) (by omega) hleap hmillis t.day
  rw [hnanos, Int.toNat_of_nonneg hb.1, hday] at hclock
  rw [parse, Instant.toStored, String.toList_ofList, Moment.storedChars_eq, htext]
  simp only [parseChars, Moment.row, Moment.stamp, read?_digits, hyear, Option.bind_eq_bind,
    Option.bind_some, hyear']
  rw [show t.year = (Date.ofDays t.day).year from rfl, hdate]
  simp [char?, isDateTimeSeparator, hclock, offset?, Moment.shift, Moment.wholeMillis]

end Timestamp

theorem Instant.ofStored_toStored {t : Instant} (ht : t.nanos = 0) (hy : t.FourDigitYear) :
    ofStored t.toStored = .ok t := by
  rw [ofStored, Timestamp.parse_toStored (wellFormed_of_nanos ht) hy, Moment.wholeMillis_of_nanos ht]

/-- A year with a sign is not read. -/
theorem Instant.ofStored_of_signed {t : Instant} (hy : ¬ t.FourDigitYear) :
    ofStored t.toStored = .error (.timestamp t.toStored) := by
  have hsign : digit? (if t.year < 0 then '-' else '+') = none := by
    split <;> decide
  have htext : Moment.yearText t.year = (if t.year < 0 then '-' else '+') ::
      (if t.year.natAbs < 1000 then digits 4 t.year.natAbs
        else (toString t.year.natAbs).toList) := if_neg hy
  have hparse : Timestamp.parse t.toStored = none := by
    rw [Timestamp.parse, toStored, String.toList_ofList, Moment.storedChars_eq, htext]
    simp [Timestamp.parseChars, read?, readFrom?, hsign]
  rw [ofStored, hparse]

/-! ## One text, one second -/

theorem ofDigitChars_digits (w n : Nat) :
    Nat.ofDigitChars 10 (digits w n) 0 = n % Nat.pow 10 w := by
  induction w generalizing n with
  | zero => simp [digits, Nat.mod_one]
  | succ w ih =>
    have hdigit : (digitChar n).toNat - '0'.toNat = n % 10 := by
      have h := digit?_digitChar n
      unfold digit? at h
      split at h
      · exact Option.some.inj h
      · cases h
    have hp : Nat.pow 10 (w + 1) = 10 * Nat.pow 10 w := Nat.mul_comm _ _
    rw [digits, Nat.ofDigitChars_append, ih, Nat.ofDigitChars_cons, hdigit, Nat.ofDigitChars_nil,
      hp, Nat.mod_mul]
    omega

theorem digits_inj {w m n : Nat} (hm : m < Nat.pow 10 w) (hn : n < Nat.pow 10 w)
    (h : digits w m = digits w n) : m = n := by
  have hval := congrArg (fun cs => Nat.ofDigitChars 10 cs 0) h
  simpa only [ofDigitChars_digits, Nat.mod_eq_of_lt hm, Nat.mod_eq_of_lt hn] using hval

namespace Moment

theorem ofDigitChars_unsigned (n : Nat) :
    Nat.ofDigitChars 10 (if n < 1000 then digits 4 n else (toString n).toList) 0 = n := by
  split
  · rw [ofDigitChars_digits]
    exact Nat.mod_eq_of_lt (Nat.lt_trans ‹_› (by decide))
  · simp [Nat.toList_repr]

theorem digits_ne_sign {c : Char} (hc : digit? c = none) (w n : Nat) (cs : List Char) :
    digits (w + 1) n ≠ c :: cs := by
  induction w generalizing n cs with
  | zero =>
    intro h
    have := digit?_digitChar n
    rw [(List.cons.inj h).1, hc] at this
    cases this
  | succ w ih =>
    intro h
    rw [digits] at h
    cases hd : digits (w + 1) (n / 10) with
    | nil => simpa using congrArg List.length hd
    | cons d ds =>
      rw [hd] at h
      exact ih (n / 10) ds (by rw [hd, (List.cons.inj h).1])

theorem yearText_inj {y z : Int} (h : yearText y = yearText z) : y = z := by
  have hsign (y : Int) : digit? (if y < 0 then '-' else '+') = none := by
    split <;> decide
  have hsigned {y : Int} (hy : ¬ (0 ≤ y ∧ y ≤ 9999)) : yearText y =
      (if y < 0 then '-' else '+') ::
        (if y.natAbs < 1000 then digits 4 y.natAbs else (toString y.natAbs).toList) := if_neg hy
  by_cases hy : 0 ≤ y ∧ y ≤ 9999 <;> by_cases hz : 0 ≤ z ∧ z ≤ 9999
  · rw [yearText, if_pos hy, yearText, if_pos hz] at h
    have := digits_inj (show y.toNat < 10000 by omega) (show z.toNat < 10000 by omega) h
    omega
  · rw [yearText, if_pos hy, hsigned hz] at h
    exact absurd h (digits_ne_sign (hsign z) 3 _ _)
  · rw [hsigned hy, yearText, if_pos hz] at h
    exact absurd h.symm (digits_ne_sign (hsign y) 3 _ _)
  · rw [hsigned hy, hsigned hz, List.cons.injEq] at h
    have habs := congrArg (fun cs => Nat.ofDigitChars 10 cs 0) h.2
    simp only [ofDigitChars_unsigned] at habs
    have hneg : y < 0 ↔ z < 0 := by
      by_cases hy' : y < 0 <;> by_cases hz' : z < 0 <;> simp [hy', hz'] at h ⊢
    omega

theorem row_inj {c : Char} {w m n : Nat} {fs gs : List (Char × Nat × Nat)}
    (hm : m < Nat.pow 10 w) (hn : n < Nat.pow 10 w)
    (h : row ((c, w, m) :: fs) = row ((c, w, n) :: gs)) : m = n ∧ row fs = row gs := by
  rw [row, row, List.cons.injEq] at h
  obtain ⟨hd, hrow⟩ := List.append_inj h.2 (by simp)
  exact ⟨digits_inj hm hn hd, hrow⟩

end Moment

theorem Instant.toStored_inj {s t : Instant} (hs : s.nanos = 0) (ht : t.nanos = 0)
    (h : s.toStored = t.toStored) : s = t := by
  have hchars : storedChars s = storedChars t := by
    have := congrArg String.toList h
    simpa only [toStored, String.toList_ofList] using this
  rw [Moment.storedChars_eq, Moment.storedChars_eq] at hchars
  obtain ⟨hyear, hrow⟩ := List.append_inj' hchars (by simp [Moment.row, Moment.stamp])
  have hy := Moment.yearText_inj hyear
  have hp : Nat.pow 10 2 = 100 := rfl
  obtain ⟨-, hms, -, hds⟩ := Date.valid_ofDays s.day
  obtain ⟨-, hmt, -, hdt⟩ := Date.valid_ofDays t.day
  have hls := Nat.le_trans hds (daysInMonth_le _ _)
  have hlt := Nat.le_trans hdt (daysInMonth_le _ _)
  have hbs := s.secondOfDay_bounds
  have hbt := t.secondOfDay_bounds
  simp only [Moment.stamp, hs, ht, Nat.reduceLeDiff, if_false, Nat.add_zero] at hrow
  obtain ⟨hmonth, hrow⟩ := Moment.row_inj (by omega) (by omega) hrow
  obtain ⟨hday, hrow⟩ := Moment.row_inj (by omega) (by omega) hrow
  obtain ⟨hhour, hrow⟩ := Moment.row_inj (by omega) (by omega) hrow
  obtain ⟨hminute, hrow⟩ := Moment.row_inj (by omega) (by omega) hrow
  obtain ⟨hsecond, -⟩ := Moment.row_inj (by omega) (by omega) hrow
  have hext : ∀ d e : Date, d.year = e.year → d.month = e.month → d.day = e.day → d = e := by
    rintro ⟨_, _, _⟩ ⟨_, _, _⟩ rfl rfl rfl
    rfl
  have hd : s.day = t.day := by
    rw [← Date.toDays_ofDays s.day, ← Date.toDays_ofDays t.day, hext _ _ hy hmonth hday]
  have hseconds : s.seconds = t.seconds := by
    unfold Moment.day at hd
    unfold Moment.secondOfDay at hbs hbt hhour hminute hsecond
    omega
  show Moment.mk s.seconds s.nanos = t
  rw [hseconds, hs, ← ht]

end Outreach
