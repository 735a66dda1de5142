/-!
# Outreach.Text.Numeral

Decimal numerals as lists of characters.

* `digits w n` — the last `w` decimal digits of `n`, the form in which dates and times are written.
* `read? w cs` — exactly `w` ASCII digits at the front of `cs`, the form in which they are read.
* `bounded` — a whole text as an integer between two bounds, with the cause of a refusal.

`read?_digits` says that what `digits` writes, `read?` reads back.
-/

namespace Outreach
namespace Numeral

/-- The character of a digit below ten. -/
def digitChar (n : Nat) : Char :=
  Char.ofNat (48 + n % 10)

/-- The value of an ASCII digit. -/
def digit? (c : Char) : Option Nat :=
  if 48 ≤ c.toNat ∧ c.toNat ≤ 57 then some (c.toNat - 48) else none

def isDigit (c : Char) : Bool :=
  (digit? c).isSome

/-- The last `w` decimal digits of `n`, most significant first. -/
def digits : Nat → Nat → List Char
  | 0, _ => []
  | w + 1, n => digits w (n / 10) ++ [digitChar n]

/-- Reads exactly `w` digits after a number `acc` already read. -/
def readFrom? : Nat → Nat → List Char → Option (Nat × List Char)
  | 0, acc, cs => some (acc, cs)
  | _ + 1, _, [] => none
  | w + 1, acc, c :: cs =>
    match digit? c with
    | none => none
    | some d => readFrom? w (10 * acc + d) cs

/-- Reads exactly `w` digits at the front of `cs`. -/
def read? (w : Nat) (cs : List Char) : Option (Nat × List Char) :=
  readFrom? w 0 cs

theorem digit?_digitChar (n : Nat) : digit? (digitChar n) = some (n % 10) := by
  have h : n % 10 < 10 := Nat.mod_lt _ (by decide)
  generalize hm : n % 10 = m at *
  have : digitChar n = Char.ofNat (48 + m) := by simp [digitChar, hm]
  rw [this]
  match m, h with
  | 0, _ | 1, _ | 2, _ | 3, _ | 4, _ | 5, _ | 6, _ | 7, _ | 8, _ | 9, _ => decide

theorem readFrom?_append (w a : Nat) (cs ds rest : List Char) (v : Nat)
    (h : readFrom? w a cs = some (v, ds)) (hn : ds = []) :
    ∀ u, readFrom? (w + u) a (cs ++ rest) = readFrom? u v rest := by
  induction w generalizing a cs with
  | zero =>
    intro u
    simp only [readFrom?, Option.some.injEq, Prod.mk.injEq] at h
    obtain ⟨rfl, rfl⟩ := h
    simp [hn]
  | succ w ih =>
    intro u
    cases cs with
    | nil => simp [readFrom?] at h
    | cons c cs =>
      rw [Nat.add_right_comm, List.cons_append]
      simp only [readFrom?] at h ⊢
      split at h
      · cases h
      · exact ih _ _ h u

theorem readFrom?_digits (w n a : Nat) :
    readFrom? w a (digits w n) = some (a * Nat.pow 10 w + n % Nat.pow 10 w, []) := by
  induction w generalizing n with
  | zero => simp [digits, readFrom?, Nat.mod_one]
  | succ w ih =>
    have h := readFrom?_append w a (digits w (n / 10)) [] [digitChar n] _ (ih (n / 10)) rfl 1
    rw [digits, h]
    simp only [readFrom?, digit?_digitChar, Option.some.injEq, Prod.mk.injEq, and_true]
    have hp : Nat.pow 10 (w + 1) = 10 * Nat.pow 10 w := Nat.mul_comm _ _
    rw [hp, Nat.mod_mul, Nat.mul_add, ← Nat.add_assoc]
    have h1 : 10 * (a * Nat.pow 10 w) = a * (10 * Nat.pow 10 w) := by
      rw [Nat.mul_left_comm]
    omega

/-- What `digits` writes is read back, whatever follows it. -/
theorem read?_digits (w n : Nat) (rest : List Char) :
    read? w (digits w n ++ rest) = some (n % Nat.pow 10 w, rest) := by
  have h := readFrom?_append w 0 (digits w n) [] rest _ (readFrom?_digits w n 0) rfl 0
  simpa [read?, readFrom?] using h

/-- Why a text is not an integer of the wanted range. -/
inductive Flaw where
  | empty
  | badDigit
  | tooLarge
  | tooSmall
deriving DecidableEq, Repr

def Flaw.message : Flaw → String
  | .empty => "cannot parse integer from empty string"
  | .badDigit => "invalid digit found in string"
  | .tooLarge => "number too large to fit in target type"
  | .tooSmall => "number too small to fit in target type"

/-- Digits to the end of the text, at most `most`. The first fault from the left decides. -/
def upTo (most : Nat) : Nat → List Char → Except Flaw Nat
  | acc, [] => .ok acc
  | acc, c :: cs =>
    match digit? c with
    | none => .error .badDigit
    | some d =>
      if most < 10 * acc + d then .error .tooLarge else upTo most (10 * acc + d) cs

def someUpTo (most : Nat) : List Char → Except Flaw Nat
  | [] => .error .badDigit
  | cs => upTo most 0 cs

/-- An unsigned integer: a plus sign is allowed, a minus sign is no digit. -/
def unsigned (most : Nat) (text : String) : Except Flaw Nat :=
  match text.toList with
  | [] => .error .empty
  | '+' :: cs => someUpTo most cs
  | cs => upTo most 0 cs

/-- A signed integer between `-(most + 1)` and `most`. -/
def signed (most : Nat) (text : String) : Except Flaw Int :=
  match text.toList with
  | [] => .error .empty
  | '+' :: cs =>
    match someUpTo most cs with
    | .error e => .error e
    | .ok n => .ok n
  | '-' :: cs =>
    match someUpTo (most + 1) cs with
    | .error .tooLarge => .error .tooSmall
    | .error e => .error e
    | .ok n => .ok (-(n : Int))
  | cs =>
    match upTo most 0 cs with
    | .error e => .error e
    | .ok n => .ok n

end Numeral
end Outreach
