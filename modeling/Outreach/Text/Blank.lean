/-!
# Outreach.Text.Blank

White space in the sense of the Unicode property `White_Space`, and trimming.

`trim_eq_nil_iff` says that a text is trimmed to nothing exactly if it is blank throughout.
-/

namespace Outreach

/-- Whether a character has the property `White_Space`. -/
def isBlank (c : Char) : Bool :=
  let n := c.toNat
  (0x09 ≤ n && n ≤ 0x0d) || n == 0x20 || n == 0x85 || n == 0xa0 || n == 0x1680 ||
    (0x2000 ≤ n && n ≤ 0x200a) || n == 0x2028 || n == 0x2029 || n == 0x202f || n == 0x205f ||
    n == 0x3000

def trimChars (cs : List Char) : List Char :=
  ((cs.dropWhile isBlank).reverse.dropWhile isBlank).reverse

/-- The text without the blanks at its two ends. -/
def trim (s : String) : String :=
  String.ofList (trimChars s.toList)

theorem dropBlank_eq_nil_iff (cs : List Char) :
    cs.dropWhile isBlank = [] ↔ ∀ c ∈ cs, isBlank c := by
  induction cs with
  | nil => simp
  | cons c cs ih =>
    by_cases h : isBlank c
    · simp [h, ih]
    · simp [h]

theorem trimChars_eq_nil_iff (cs : List Char) : trimChars cs = [] ↔ ∀ c ∈ cs, isBlank c := by
  rw [trimChars, List.reverse_eq_nil_iff, dropBlank_eq_nil_iff]
  constructor
  · intro h
    rw [← dropBlank_eq_nil_iff]
    induction cs with
    | nil => rfl
    | cons c cs ih =>
      by_cases hc : isBlank c
      · simp only [List.dropWhile_cons, hc, if_true] at h ⊢
        exact ih h
      · simp only [List.dropWhile_cons, hc] at h
        exact absurd (h c (by simp)) hc
  · intro h c hc
    rw [(dropBlank_eq_nil_iff cs).2 h] at hc
    cases hc

theorem trim_eq_nil_iff (s : String) : trim s = "" ↔ ∀ c ∈ s.toList, isBlank c := by
  rw [← trimChars_eq_nil_iff]
  simp [trim]

end Outreach
