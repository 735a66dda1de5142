/-!
# Outreach.Text.Uuid

Universally unique identifiers as 32 hexadecimal digits. They are written in lower case in
groups of 8, 4, 4, 4 and 12, and read in four forms: without hyphens, with them, in braces, and
as a URN. `parse_toString` says that what is written is read back.
-/

namespace Outreach

structure Uuid where
  digits : List (Fin 16)
  length_eq : digits.length = 32
deriving DecidableEq

namespace Uuid

def hexChar (d : Fin 16) : Char :=
  if d.val < 10 then Char.ofNat (48 + d.val) else Char.ofNat (87 + d.val)

def hexDigit? (c : Char) : Option (Fin 16) :=
  let n := c.toNat
  if 48 ≤ n ∧ n ≤ 57 then some (Fin.ofNat 16 (n - 48))
  else if 97 ≤ n ∧ n ≤ 102 then some (Fin.ofNat 16 (n - 87))
  else if 65 ≤ n ∧ n ≤ 70 then some (Fin.ofNat 16 (n - 55))
  else none

theorem hexDigit?_hexChar (d : Fin 16) : hexDigit? (hexChar d) = some d := by
  revert d; decide

/-- The identifier whose 128 bits are the number `n`. -/
def ofNat (n : Nat) : Uuid :=
  ⟨(List.range 32).map fun k => Fin.ofNat 16 (n / Nat.pow 16 (31 - k)), by simp⟩

def nil : Uuid := ofNat 0

instance : Inhabited Uuid := ⟨nil⟩

/-- Reads exactly `n` hexadecimal digits, after those in `acc`, last first. -/
def group? : Nat → List (Fin 16) → List Char → Option (List (Fin 16) × List Char)
  | 0, acc, cs => some (acc, cs)
  | _ + 1, _, [] => none
  | n + 1, acc, c :: cs =>
    match hexDigit? c with
    | none => none
    | some d => group? n (d :: acc) cs

/-- Reads groups of digits of the given sizes, with a hyphen between two. -/
def groups? : List Nat → List (Fin 16) → List Char → Option (List (Fin 16) × List Char)
  | [], acc, cs => some (acc, cs)
  | [n], acc, cs => group? n acc cs
  | n :: ns, acc, cs =>
    match group? n acc cs with
    | some (acc, '-' :: cs) => groups? ns acc cs
    | _ => none

/-- Groups of digits that fill the whole text. -/
def whole? (sizes : List Nat) (cs : List Char) : Option Uuid :=
  match groups? sizes [] cs with
  | some (acc, []) =>
    if h : acc.reverse.length = 32 then some ⟨acc.reverse, h⟩ else none
  | _ => none

def hyphenated : List Nat := [8, 4, 4, 4, 12]

/-- The rest of the text after a beginning, letters in any case. -/
def after? : List Char → List Char → Option (List Char)
  | [], cs => some cs
  | _ :: _, [] => none
  | p :: ps, c :: cs => if c.toLower = p then after? ps cs else none

def parseChars (cs : List Char) : Option Uuid :=
  if cs.length = 32 then whole? [32] cs
  else if cs.length = 36 then whole? hyphenated cs
  else if cs.length = 38 then
    match cs with
    | '\x7b' :: rest =>
      if rest.getLast? = some '\x7d' then whole? hyphenated rest.dropLast else none
    | _ => none
  else if cs.length = 45 then
    match after? ['u', 'r', 'n', ':', 'u', 'u', 'i', 'd', ':'] cs with
    | some rest => whole? hyphenated rest
    | none => none
  else none

def parse (s : String) : Option Uuid :=
  parseChars s.toList

/-- The digits in groups of the given sizes, with a hyphen between two. -/
def grouped : List Nat → List (Fin 16) → List Char
  | [], _ => []
  | [n], ds => (ds.take n).map hexChar
  | n :: ns, ds => (ds.take n).map hexChar ++ '-' :: grouped ns (ds.drop n)

def toString (u : Uuid) : String :=
  String.ofList (grouped hyphenated u.digits)

instance : ToString Uuid := ⟨toString⟩

theorem group?_map (ds acc : List (Fin 16)) (rest : List Char) :
    group? ds.length acc (ds.map hexChar ++ rest) = some (ds.reverse ++ acc, rest) := by
  induction ds generalizing acc with
  | nil => rfl
  | cons d ds ih =>
    simp only [List.length_cons, List.map_cons, List.cons_append, group?, hexDigit?_hexChar]
    rw [ih]; simp

def total : List Nat → Nat
  | [] => 0
  | n :: ns => n + total ns

theorem groups?_grouped {ns : List Nat} (acc ds : List (Fin 16)) (h : ds.length = total ns)
    (hn : ns ≠ []) : groups? ns acc (grouped ns ds) = some (ds.reverse ++ acc, []) := by
  induction ns generalizing acc ds with
  | nil => exact absurd rfl hn
  | cons n ns ih =>
    cases ns with
    | nil =>
      have hl : ds.length = n := by simpa [total] using h
      have ht : ds.take n = ds := List.take_of_length_le (by omega)
      have := group?_map ds acc []
      simp only [groups?, grouped, ht]
      rw [← hl]
      simpa using this
    | cons m ms =>
      have hs : ds.length = n + total (m :: ms) := h
      have hl : (ds.take n).length = n := by
        rw [List.length_take]; omega
      have hg := group?_map (ds.take n) acc ('-' :: grouped (m :: ms) (ds.drop n))
      rw [hl] at hg
      simp only [groups?, grouped]
      rw [hg]
      simp only
      rw [ih _ _ (by rw [List.length_drop]; omega) (by simp)]
      rw [← List.append_assoc, ← List.reverse_append, List.take_append_drop]

theorem length_grouped (ds : List (Fin 16)) (h : ds.length = 32) :
    (grouped hyphenated ds).length = 36 := by
  simp [grouped, hyphenated, h]

/-- Every identifier is read back from its text. -/
theorem parse_toString (u : Uuid) : parse u.toString = some u := by
  have hl := length_grouped u.digits u.length_eq
  have hg : groups? hyphenated [] (grouped hyphenated u.digits) =
      some (u.digits.reverse ++ [], []) :=
    groups?_grouped [] u.digits (by rw [u.length_eq]; rfl) (by simp [hyphenated])
  simp [parse, toString, parseChars, hl, whole?, hg, u.length_eq]

end Uuid
end Outreach
