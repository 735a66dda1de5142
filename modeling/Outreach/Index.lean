/-!
# Outreach.Index

A finite map that remembers the order in which its keys first came. Setting a key that is
already there replaces its value in place; a new key goes to the end.

* `find?_insert` — what a key is bound to after one is set.
* `keys_insert` — the keys after one is set.
* `find?_erase` — what a key is bound to after one is taken out.
-/

namespace Outreach

structure Index (κ α : Type) where
  pairs : List (κ × α) := []

namespace Index

variable {κ α : Type} [DecidableEq κ]

def empty : Index κ α := ⟨[]⟩

instance : Inhabited (Index κ α) := ⟨empty⟩

def keys (m : Index κ α) : List κ := m.pairs.map (·.1)

def values (m : Index κ α) : List α := m.pairs.map (·.2)

def size (m : Index κ α) : Nat := m.pairs.length

def findIn (k : κ) : List (κ × α) → Option α
  | [] => none
  | p :: ps => if p.1 = k then some p.2 else findIn k ps

def find? (m : Index κ α) (k : κ) : Option α := findIn k m.pairs

def setIn (k : κ) (a : α) : List (κ × α) → List (κ × α)
  | [] => [(k, a)]
  | p :: ps => if p.1 = k then (k, a) :: ps else p :: setIn k a ps

def insert (m : Index κ α) (k : κ) (a : α) : Index κ α := ⟨setIn k a m.pairs⟩

def erase (m : Index κ α) (k : κ) : Index κ α := ⟨m.pairs.filter fun p => p.1 ≠ k⟩

/-- All pairs of a list, set one after the other. -/
def ofList (ps : List (κ × α)) : Index κ α :=
  ps.foldl (fun m p => m.insert p.1 p.2) empty

theorem findIn_setIn (k j : κ) (a : α) (ps : List (κ × α)) :
    findIn j (setIn k a ps) = if k = j then some a else findIn j ps := by
  induction ps with
  | nil => simp [setIn, findIn]
  | cons p ps ih =>
    by_cases hp : p.1 = k
    · by_cases hk : k = j
      · simp [setIn, findIn, hp, hk]
      · simp [setIn, findIn, hp, hk]
    · by_cases hk : k = j
      · subst hk; simp [setIn, findIn, hp, ih]
      · simp [setIn, findIn, hp, hk, ih]

@[simp] theorem find?_empty (k : κ) : (empty : Index κ α).find? k = none := rfl

theorem find?_insert (m : Index κ α) (k j : κ) (a : α) :
    (m.insert k a).find? j = if k = j then some a else m.find? j :=
  findIn_setIn k j a m.pairs

theorem keys_setIn (k : κ) (a : α) (ps : List (κ × α)) :
    (setIn k a ps).map (·.1) =
      if k ∈ ps.map (·.1) then ps.map (·.1) else ps.map (·.1) ++ [k] := by
  induction ps with
  | nil => simp [setIn]
  | cons p ps ih =>
    by_cases hp : p.1 = k
    · simp [setIn, hp]
    · have hk : ¬ k = p.1 := fun h => hp h.symm
      simp only [setIn, hp, if_false, List.map_cons, ih, List.mem_cons, hk, false_or]
      split <;> simp

theorem keys_insert (m : Index κ α) (k : κ) (a : α) :
    (m.insert k a).keys = if k ∈ m.keys then m.keys else m.keys ++ [k] :=
  keys_setIn k a m.pairs

theorem find?_erase (m : Index κ α) (k j : κ) :
    (m.erase k).find? j = if k = j then none else m.find? j := by
  unfold erase find?
  induction m.pairs with
  | nil => simp [findIn]
  | cons p ps ih =>
    by_cases hp : p.1 = k
    · by_cases hk : k = j
      · simpa [findIn, hp, hk] using ih
      · simpa [findIn, hp, hk] using ih
    · by_cases hk : k = j
      · have hpj : p.1 ≠ j := hk ▸ hp
        simpa [findIn, hp, hk, hpj] using ih
      · simp only [ne_eq, hp, not_false_eq_true, decide_true, List.filter_cons_of_pos, findIn, ih,
          if_neg hk]

end Index
end Outreach
