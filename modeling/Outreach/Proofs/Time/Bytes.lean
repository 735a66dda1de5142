import Outreach.Proofs.Time.Stored

/-!
# Outreach.Proofs.Time.Bytes

A database keeps the bytes of a text and compares texts byte by byte.

* `Instant.storedBytes` — the bytes of a stored instant.
* `bytes_lt` — texts of ASCII characters are in the order of their bytes.
* `Instant.stored_to_the_millisecond` — in years of four digits an instant is read back from its
  stored text, and the bytes of stored texts are in the order of the instants, both to the
  millisecond.
-/

namespace Outreach

open Numeral

/-! ## Bytes of ASCII texts -/

def IsAscii (cs : List Char) : Prop := ∀ c ∈ cs, c.val.toNat < 128

theorem bytes_of_isAscii {cs : List Char} (h : IsAscii cs) :
    (String.ofList cs).toByteArray.data.toList = cs.map fun c => c.val.toUInt8 := by
  rw [String.toByteArray_ofList, List.utf8Encode, List.data_toByteArray, List.toList_toArray]
  induction cs with
  | nil => rfl
  | cons c cs ih =>
    obtain ⟨hc, hcs⟩ := List.forall_mem_cons.1 h
    have hsize : c.utf8Size = 1 := by
      rw [Char.utf8Size_eq_one_iff, UInt32.le_iff_toNat_le]
      exact Nat.le_of_lt_succ hc
    rw [List.flatMap_cons, String.utf8EncodeChar_eq_singleton hsize, ih hcs]
    rfl

theorem bytes_lt {cs ds : List Char} (hc : IsAscii cs) (hd : IsAscii ds) (h : cs < ds) :
    (String.ofList cs).toByteArray.data.toList < (String.ofList ds).toByteArray.data.toList := by
  rw [bytes_of_isAscii hc, bytes_of_isAscii hd]
  induction cs generalizing ds with
  | nil =>
    cases ds with
    | nil => exact absurd h (List.lt_irrefl _)
    | cons d ds => exact List.nil_lt_cons _ _
  | cons c cs ih =>
    cases ds with
    | nil => exact absurd h (List.not_lt_nil _)
    | cons d ds =>
      obtain ⟨hc, hcs⟩ := List.forall_mem_cons.1 hc
      obtain ⟨hd, hds⟩ := List.forall_mem_cons.1 hd
      rw [List.cons_lt_cons_iff] at h
      rw [List.map_cons, List.map_cons, List.cons_lt_cons_iff]
      rcases h with h | ⟨rfl, h⟩
      · left
        rw [Char.lt_def, UInt32.lt_iff_toNat_lt] at h
        rw [UInt8.lt_iff_toNat_lt, UInt32.toNat_toUInt8, UInt32.toNat_toUInt8]
        omega
      · exact .inr ⟨rfl, ih hcs hds h⟩

theorem isAscii_digits (w n : Nat) : IsAscii (digits w n) := by
  intro c hc
  have hdigit := isDigit_of_mem_digits hc
  unfold isDigit digit? at hdigit
  split at hdigit
  · rename_i h
    exact Nat.lt_of_le_of_lt h.2 (by decide)
  · cases hdigit

theorem IsAscii.append {cs ds : List Char} (hc : IsAscii cs) (hd : IsAscii ds) :
    IsAscii (cs ++ ds) :=
  List.forall_mem_append.2 ⟨hc, hd⟩

namespace Moment

theorem isAscii_row {fs : List (Char × Nat × Nat)} (h : IsAscii (fs.map Prod.fst)) :
    IsAscii (row fs) := by
  induction fs with
  | nil => exact List.forall_mem_singleton.2 (by decide)
  | cons f fs ih =>
    obtain ⟨c, w, n⟩ := f
    obtain ⟨hc, hfs⟩ := List.forall_mem_cons.1 h
    exact List.forall_mem_cons.2 ⟨hc, (isAscii_digits w n).append (ih hfs)⟩

end Moment

/-! ## Stored instants -/

namespace Instant

/-- The bytes in which an instant is stored. -/
def storedBytes (t : Instant) : List UInt8 := t.toStored.toByteArray.data.toList

theorem isAscii_storedChars {t : Instant} (hy : t.FourDigitYear) : IsAscii (storedChars t) := by
  have htext : Moment.yearText t.year = digits 4 t.year.toNat := if_pos hy
  have hseparators : IsAscii (t.stamp.map Prod.fst) := by
    show ∀ c ∈ ['-', '-', 'T', ':', ':', '.'], c.val.toNat < 128
    simp
  rw [Moment.storedChars_eq, htext]
  exact (isAscii_digits 4 _).append (Moment.isAscii_row hseparators)

theorem storedBytes_lt {s t : Instant} (hsy : s.FourDigitYear) (hty : t.FourDigitYear)
    (h : s.toStored < t.toStored) : s.storedBytes < t.storedBytes := by
  rw [String.lt_iff, toStored, toStored, String.toList_ofList, String.toList_ofList] at h
  exact bytes_lt (isAscii_storedChars hsy) (isAscii_storedChars hty) h

theorem storedBytes_eq_iff {s t : Instant} :
    s.storedBytes = t.storedBytes ↔ s.toStored = t.toStored := by
  unfold storedBytes
  rw [Array.toList_inj, ← ByteArray.ext_iff, String.toByteArray_inj]

variable {s t : Instant}

theorem storedBytes_lt_iff (hs : s.WellFormed) (hsy : s.FourDigitYear) (ht : t.WellFormed)
    (hty : t.FourDigitYear) : s.storedBytes < t.storedBytes ↔ s.wholeMillis < t.wholeMillis := by
  rw [← toStored_lt_iff_wholeMillis_lt hs hsy ht hty]
  refine ⟨fun h => ?_, storedBytes_lt hsy hty⟩
  rcases Std.lt_trichotomy s.toStored t.toStored with hlt | heq | hgt
  · exact hlt
  · rw [storedBytes_eq_iff.2 heq] at h
    exact absurd h (List.lt_irrefl _)
  · exact absurd h (List.lt_asymm (storedBytes_lt hty hsy hgt))

/-- What is stored of an instant is read back, cut to the millisecond, and the bytes in which
instants are stored compare as the instants do, cut to the millisecond. -/
theorem stored_to_the_millisecond (hs : s.WellFormed) (hsy : s.FourDigitYear) (ht : t.WellFormed)
    (hty : t.FourDigitYear) :
    Timestamp.parse s.toStored = some s.wholeMillis ∧
      (s.storedBytes < t.storedBytes ↔ s.wholeMillis < t.wholeMillis) ∧
      (s.storedBytes = t.storedBytes ↔ s.wholeMillis = t.wholeMillis) ∧
      (t.storedBytes < s.storedBytes ↔ t.wholeMillis < s.wholeMillis) := by
  have hparse := Timestamp.parse_toStored hs hsy
  refine ⟨hparse, storedBytes_lt_iff hs hsy ht hty, ?_, storedBytes_lt_iff ht hty hs hsy⟩
  rw [storedBytes_eq_iff]
  constructor
  · intro htext
    rw [htext, Timestamp.parse_toStored ht hty, Option.some.injEq] at hparse
    exact hparse.symm
  · intro heq
    rw [toStored, toStored, ← storedChars_wholeMillis s, ← storedChars_wholeMillis t, heq]

/-- The leap second at the end of 2016 comes before the new year, also as a text. -/
theorem leap_second_to_the_millisecond :
    Timestamp.parse (toStored ⟨1483228799, 1500400000⟩) = some ⟨1483228799, 1500000000⟩ ∧
      storedBytes ⟨1483228799, 1500400000⟩ < storedBytes ⟨1483228800, 0⟩ := by
  obtain ⟨hparse, hlt, -, -⟩ := stored_to_the_millisecond (s := ⟨1483228799, 1500400000⟩)
    (t := ⟨1483228800, 0⟩) (by decide) (by decide) (by decide) (by decide)
  exact ⟨hparse, hlt.2 (by decide)⟩

end Instant
end Outreach
