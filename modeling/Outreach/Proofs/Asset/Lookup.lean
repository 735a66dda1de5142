import Outreach.Proofs.Asset.Set

/-!
# Outreach.Proofs.Asset.Lookup

Items found by an identifier or by a key. Both are entered with the number of the item that has
them, and stay entered when an item without them takes its place: what is found then is the item
that stands under the number now.

* `FindsOwn` — at a key, a lookup finds only items with that key, and finds the one that has it
  alone.
* `SettledAt` — the last item that was listed with the key was not replaced by one without it.
* `AssetSet.Made.findsOwn_iff` — lookups find their own just at the keys where the set is settled.
* `AssetSet.replaced_channel_found` — a channel is found under the address that it had before.
-/

namespace Outreach

section

variable {α κ : Type} [DecidableEq κ] {key : α → Option κ} {as : List α} {k : κ}

/-- The last of the items with the key. -/
def lastWith? (key : α → Option κ) (as : List α) (k : κ) : Option α :=
  as.reverse.find? fun a => key a = some k

theorem key_of_lastWith? {a : α} (h : lastWith? key as k = some a) :
    a ∈ as ∧ key a = some k :=
  ⟨List.mem_reverse.1 (List.mem_of_find?_eq_some h), by simpa using List.find?_some h⟩

theorem exists_lastWith? {a : α} (ha : a ∈ as) (hk : key a = some k) :
    ∃ b, lastWith? key as k = some b :=
  Option.isSome_iff_exists.1 (List.find?_isSome.2 ⟨a, List.mem_reverse.2 ha, by simpa using hk⟩)

theorem lastWith?_append (as : List α) (a : α) (k : κ) :
    lastWith? key (as ++ [a]) k = if key a = some k then some a else lastWith? key as k := by
  simp only [lastWith?, List.reverse_append, List.reverse_singleton, List.singleton_append,
    List.find?_cons]
  split <;> simp_all

/-- Of the items that are shown, the lookup finds at `k` only such as have the key `k`; and if one
alone has it, then that one. -/
def FindsOwn (key : α → Option κ) (shown : List α) (look : κ → Option α) (k : κ) : Prop :=
  (∀ a, look k = some a → key a = some k) ∧
    ∀ a ∈ shown, key a = some k → (∀ b ∈ shown, key b = some k → b = a) → look k = some a

variable [Asset α]

/-- Enters the number of an item under its key, if it has one. -/
def enter (key : α → Option κ) (m : Index κ Int) (a : α) : Index κ Int :=
  match key a with
  | some k => m.insert k (Asset.id a)
  | none => m

/-- The numbers of items, entered one after the other. -/
def numbersBy (key : α → Option κ) (as : List α) : Index κ Int := as.foldl (enter key) .empty

theorem numbersBy_append (as : List α) (a : α) :
    numbersBy key (as ++ [a]) = enter key (numbersBy key as) a := by
  rw [numbersBy, List.foldl_append]
  rfl

theorem find?_numbersBy (key : α → Option κ) (as : List α) (k : κ) :
    (numbersBy key as).find? k = (lastWith? key as k).map Asset.id := by
  induction as using List.reverseRecOn with
  | nil => rfl
  | append_singleton as a ih =>
    rw [numbersBy_append, lastWith?_append, enter]
    cases hkey : key a with
    | none => simpa using ih
    | some j =>
      rw [Index.find?_insert, ih]
      by_cases hj : j = k <;> simp [hj]

/-- The last item with the key was not replaced by one without it. -/
def SettledAt (key : α → Option κ) (as : List α) (k : κ) : Prop :=
  ∀ a b, lastWith? key as k = some a → latest? as (Asset.id a) = some b → key b = some k

theorem exists_latest? {a : α} (ha : a ∈ as) : ∃ b, latest? as (Asset.id a) = some b :=
  Option.isSome_iff_exists.1 (List.find?_isSome.2 ⟨a, List.mem_reverse.2 ha, beq_self_eq_true _⟩)

/-- Items of one number that have one key are settled at it. -/
theorem settledAt_of_same (h : ∀ a ∈ as, ∀ b ∈ as, Asset.id a = Asset.id b → key a = key b)
    (k : κ) : SettledAt key as k := by
  intro a b ha hb
  obtain ⟨ha, hk⟩ := key_of_lastWith? ha
  rw [← h a ha b (mem_of_latest? hb) (latest?_eq_some_iff.1 hb).1.symm, hk]

end

namespace AssetSet

variable {α : Type} [Asset α]

/-- A lookup goes from the key to the number that was last entered under it, and from the number
to the item. It finds its own at a key just if the list is settled there. -/
theorem findsOwn_iff_settledAt {κ : Type} [DecidableEq κ] {key : α → Option κ} {as : List α}
    {look : κ → Option α}
    (hlook : ∀ k, look k = ((numbersBy key as).find? k).bind (ofList as).get?) (k : κ) :
    FindsOwn key (ofList as).items look k ↔ SettledAt key as k := by
  have hfound (b : α) : look k = some b ↔
      ∃ a, lastWith? key as k = some a ∧ latest? as (Asset.id a) = some b := by
    simp [hlook, find?_numbersBy, get?_ofList, Option.bind_eq_some_iff]
  constructor
  · rintro ⟨hsound, -⟩ a b ha hb
    exact hsound b ((hfound b).2 ⟨a, ha, hb⟩)
  · intro hsettled
    refine ⟨fun b hb => ?_, fun a ha hk halone => ?_⟩
    · obtain ⟨a, ha, hab⟩ := (hfound b).1 hb
      exact hsettled a b ha hab
    · obtain ⟨c, hc⟩ := exists_lastWith? (mem_of_latest? (mem_items_ofList.1 ha)) hk
      obtain ⟨b, hb⟩ := exists_latest? (key_of_lastWith? hc).1
      have hid := (latest?_eq_some_iff.1 hb).1
      obtain rfl := halone b (mem_items_ofList.2 (hid ▸ hb)) (hsettled c b hc hb)
      exact (hfound b).2 ⟨c, hc, hb⟩

theorem byUuid_ofList (as : List α) : (ofList as).byUuid = numbersBy Asset.uuid? as := by
  induction as using List.reverseRecOn with
  | nil => rfl
  | append_singleton as a ih =>
    rw [ofList_append, numbersBy_append, ← ih, add, enter]
    cases Asset.uuid? a <;> rfl

theorem byKey_ofList (as : List α) : (ofList as).byKey = numbersBy Asset.key? as := by
  induction as using List.reverseRecOn with
  | nil => rfl
  | append_singleton as a ih =>
    rw [ofList_append, numbersBy_append, ← ih, add, enter]
    cases Asset.key? a <;> rfl

/-- The set was made from a list, or by adding items to such a set; then the list is that of its
items with the others after them. -/
inductive Made : AssetSet α → List α → Prop where
  | list (as : List α) : Made (ofList as) as
  | more {s : AssetSet α} {as : List α} (h : Made s as) (extra : List α) :
    Made (s.withExtra extra) (s.items ++ extra)

theorem Made.eq_ofList {s : AssetSet α} {as : List α} (h : Made s as) : s = ofList as := by
  cases h <;> rfl

/-- By identifier and by key, a set finds at a value what has it just if the last item that was
listed with the value was not replaced by one without it. -/
theorem Made.findsOwn_iff {s : AssetSet α} {as : List α} (h : Made s as) :
    (∀ u, FindsOwn Asset.uuid? s.items s.getByUuid? u ↔ SettledAt Asset.uuid? as u) ∧
      ∀ k, FindsOwn Asset.key? s.items s.getByKey? k ↔ SettledAt Asset.key? as k := by
  obtain rfl := h.eq_ofList
  constructor
  · refine findsOwn_iff_settledAt fun u => ?_
    rw [getByUuid?, byUuid_ofList]
    cases (numbersBy Asset.uuid? as).find? u <;> rfl
  · refine findsOwn_iff_settledAt fun k => ?_
    rw [getByKey?, byKey_ofList]
    cases (numbersBy Asset.key? as).find? k <;> rfl

end AssetSet

section

namespace Sample

def channel (id : Int) (uuid : Nat) (address : String) (isTest : Bool) : Channel :=
  ⟨id, Uuid.ofNat uuid, "Main", address, ["tel"], none, isTest⟩

/-- Two channels on one address. -/
def channels : List Channel :=
  [channel 1 1 "+250700000001" false, channel 2 2 "+250700000001" false]

/-- A test channel that stands in for the second one. -/
def testChannel : Channel := channel 2 3 "+250700000099" true

def tested : AssetSet Channel := (AssetSet.ofList channels).withExtra [testChannel]

theorem made_tested : AssetSet.Made tested (channels ++ [testChannel]) :=
  .more (.list channels) [testChannel]

end Sample

open Sample

/-- The set of both channels finds its own under every address. With the test channel it does so
under the new address, but not under the old one and not under the identifier of the channel that
was replaced. -/
theorem AssetSet.Made.findsOwn_tested :
    (∀ k, FindsOwn Asset.key? (ofList channels).items (ofList channels).getByKey? k) ∧
      FindsOwn Asset.key? tested.items tested.getByKey? "+250700000099" ∧
      ¬ FindsOwn Asset.key? tested.items tested.getByKey? "+250700000001" ∧
      ¬ FindsOwn Asset.uuid? tested.items tested.getByUuid? (Uuid.ofNat 2) := by
  have hfirst := (AssetSet.Made.findsOwn_iff (.list channels)).2
  obtain ⟨huuid, hkey⟩ := AssetSet.Made.findsOwn_iff made_tested
  refine ⟨fun k => (hfirst k).2 (settledAt_of_same (by decide) k), (hkey _).2 ?_, fun h => ?_,
    fun h => ?_⟩
  · rintro a b ⟨⟩ ⟨⟩
    rfl
  · exact absurd ((hkey _).1 h (channel 2 2 "+250700000001" false) testChannel (by decide)
      (by decide)) (by decide)
  · exact absurd ((huuid _).1 h (channel 2 2 "+250700000001" false) testChannel (by decide)
      (by decide)) (by decide)

/-- The first channel alone has the old address, and yet the test channel is found under it, which
is also found under the identifier of the channel that it replaced. -/
theorem AssetSet.replaced_channel_found :
    tested.items = [channel 1 1 "+250700000001" false, testChannel] ∧
      tested.getByKey? "+250700000001" = some testChannel ∧
      Asset.key? testChannel ≠ some "+250700000001" ∧
      tested.getByUuid? (Uuid.ofNat 2) = some testChannel ∧
      Asset.uuid? testChannel ≠ some (Uuid.ofNat 2) := by
  decide

end

end Outreach
