import Mathlib.Data.List.Induction
import Mathlib.Data.List.Nodup
import Outreach.Asset.Record

/-!
# Outreach.Proofs.Asset.Set

Sets of assets made from lists in which numbers may be repeated. Of the items of one number the
last counts, and it stands where the first of them stood.

* `numbersOf`, `latest?` — the numbers of a list of items, and the last item of a number.
* `AssetSet.Shows`, `AssetSet.Extends` — what a set shows of the list it is made from, and what a
  set with more items shows.
* `AssetSet.latest_in_place` — both hold, and items of the set that are not replaced are shared.
-/

namespace Outreach

/-! ## The items of an index -/

namespace Index

variable {κ α : Type} [DecidableEq κ]

theorem findIn_of_mem {ps : List (κ × α)} (h : (ps.map (·.1)).Nodup) {p : κ × α} (hp : p ∈ ps) :
    findIn p.1 ps = some p.2 := by
  induction ps with
  | nil => cases hp
  | cons q ps ih =>
    obtain ⟨hq, hps⟩ := List.nodup_cons.1 h
    rcases List.mem_cons.1 hp with rfl | hp
    · exact if_pos rfl
    · have hne : q.1 ≠ p.1 := fun heq => hq (List.mem_map.2 ⟨p, hp, heq.symm⟩)
      rw [findIn, if_neg hne, ih hps hp]

theorem mem_of_findIn {ps : List (κ × α)} {k : κ} {a : α} (h : findIn k ps = some a) :
    (k, a) ∈ ps := by
  induction ps with
  | nil => cases h
  | cons p ps ih =>
    rw [findIn] at h
    split at h
    · rename_i hk
      cases h
      exact hk ▸ List.mem_cons_self
    · exact List.mem_cons_of_mem _ (ih h)

theorem mem_setIn {ps : List (κ × α)} {k : κ} {a : α} {p : κ × α} (h : p ∈ setIn k a ps) :
    p = (k, a) ∨ p ∈ ps := by
  induction ps with
  | nil => exact .inl (List.mem_singleton.1 h)
  | cons q ps ih =>
    rw [setIn] at h
    split at h
    · exact (List.mem_cons.1 h).imp_right (List.mem_cons_of_mem _)
    · rcases List.mem_cons.1 h with rfl | h
      · exact .inr List.mem_cons_self
      · exact (ih h).imp_right (List.mem_cons_of_mem _)

end Index

/-! ## Lists with repetitions -/

/-- A search from the end finds the last item that satisfies `p`. -/
theorem find?_reverse_eq_some_iff {α : Type} {p : α → Bool} {as : List α} {a : α} :
    as.reverse.find? p = some a ↔
      p a = true ∧ ∃ before after, as = before ++ a :: after ∧ ∀ b ∈ after, p b = false := by
  rw [List.find?_eq_some_iff_append]
  simp only [Bool.not_eq_true']
  refine and_congr_right fun _ => ⟨?_, ?_⟩
  · rintro ⟨after, before, heq, hafter⟩
    refine ⟨before.reverse, after.reverse, ?_, fun b hb => hafter b (List.mem_reverse.1 hb)⟩
    rw [← List.reverse_reverse as, heq]
    simp
  · rintro ⟨before, after, rfl, hafter⟩
    exact ⟨after.reverse, before.reverse, by simp, fun b hb => hafter b (List.mem_reverse.1 hb)⟩

section

variable {α : Type} [Asset α]

/-- The numbers of the items, each once, in the order in which they first come. -/
def numbersOf (as : List α) : List Int := (as.map Asset.id).eraseDups

/-- The last of the items with the number. -/
def latest? (as : List α) (n : Int) : Option α := as.reverse.find? fun a => Asset.id a == n

theorem mem_numbersOf {as : List α} {n : Int} : n ∈ numbersOf as ↔ n ∈ as.map Asset.id :=
  List.mem_eraseDups

theorem numbersOf_append (as bs : List α) : numbersOf (as ++ bs) =
    numbersOf as ++ numbersOf (bs.filter fun b => !(as.map Asset.id).contains (Asset.id b)) := by
  rw [numbersOf, List.map_append, List.eraseDups_append]
  congr 2
  rw [List.removeAll, List.filter_map]
  rfl

theorem numbersOf_of_nodup {as : List α} (h : (as.map Asset.id).Nodup) :
    numbersOf as = as.map Asset.id := by
  unfold numbersOf
  induction as with
  | nil => rfl
  | cons a as ih =>
    obtain ⟨ha, has⟩ := List.nodup_cons.1 h
    have hself : (as.map Asset.id).filter (fun n => !n == Asset.id a) = as.map Asset.id :=
      List.filter_eq_self.2 fun n hn => by
        have hne : n ≠ Asset.id a := fun heq => ha (heq ▸ hn)
        simpa using hne
    rw [List.map_cons, List.eraseDups_cons, hself, ih has]

theorem latest?_append (as bs : List α) (n : Int) :
    latest? (as ++ bs) n = (latest? bs n).or (latest? as n) := by
  rw [latest?, List.reverse_append, List.find?_append]
  rfl

theorem latest?_eq_some_iff {as : List α} {n : Int} {a : α} : latest? as n = some a ↔
    Asset.id a = n ∧ ∃ before after, as = before ++ a :: after ∧ ∀ b ∈ after, Asset.id b ≠ n := by
  rw [latest?, find?_reverse_eq_some_iff]
  simp only [beq_iff_eq, beq_eq_false_iff_ne]

theorem mem_of_latest? {as : List α} {n : Int} {a : α} (h : latest? as n = some a) : a ∈ as :=
  List.mem_reverse.1 (List.mem_of_find?_eq_some h)

theorem latest?_eq_none_iff {as : List α} {n : Int} :
    latest? as n = none ↔ ∀ a ∈ as, Asset.id a ≠ n := by
  simp [latest?]

/-- Of items with numbers of their own each is the last of its number. -/
theorem latest?_of_nodup {as : List α} (h : (as.map Asset.id).Nodup) {n : Int} {a : α} :
    latest? as n = some a ↔ a ∈ as ∧ Asset.id a = n := by
  rw [latest?_eq_some_iff]
  constructor
  · rintro ⟨hid, before, after, rfl, -⟩
    exact ⟨by simp, hid⟩
  · rintro ⟨ha, rfl⟩
    obtain ⟨before, after, rfl⟩ := List.append_of_mem ha
    refine ⟨rfl, before, after, rfl, fun b hb heq => ?_⟩
    rw [List.map_append, List.map_cons, List.nodup_append] at h
    exact (List.nodup_cons.1 h.2.1).1 (heq ▸ List.mem_map_of_mem hb)

end

namespace AssetSet

variable {α : Type} [Asset α]

/-! ## A set and its list -/

/-- Every item is entered under its own number, and every number once. -/
structure Numbered (s : AssetSet α) : Prop where
  own : ∀ p ∈ s.byId.pairs, Asset.id p.2 = p.1
  once : s.ids.Nodup

theorem Numbered.map_items {s : AssetSet α} (h : s.Numbered) :
    s.items.map Asset.id = s.ids := by
  simp only [items, ids, Index.values, Index.keys, List.map_map]
  exact List.map_congr_left h.own

theorem Numbered.nodup {s : AssetSet α} (h : s.Numbered) : (s.items.map Asset.id).Nodup :=
  h.map_items ▸ h.once

theorem Numbered.get?_eq {s : AssetSet α} (h : s.Numbered) (n : Int) :
    s.get? n = latest? s.items n := by
  ext a
  rw [latest?_of_nodup h.nodup]
  constructor
  · intro hget
    have hmem := Index.mem_of_findIn hget
    exact ⟨List.mem_map.2 ⟨_, hmem, rfl⟩, h.own _ hmem⟩
  · rintro ⟨ha, rfl⟩
    obtain ⟨p, hp, rfl⟩ := List.mem_map.1 ha
    rw [h.own p hp]
    exact Index.findIn_of_mem h.once hp

theorem Numbered.add {s : AssetSet α} (h : s.Numbered) (a : α) : (s.add a).Numbered := by
  refine ⟨fun p hp => ?_, ?_⟩
  · rcases Index.mem_setIn hp with rfl | hp
    · rfl
    · exact h.own p hp
  · have hids : (s.add a).ids = if Asset.id a ∈ s.ids then s.ids else s.ids ++ [Asset.id a] :=
      Index.keys_insert _ _ _
    rw [hids]
    split
    · exact h.once
    · rename_i hnew
      exact List.nodup_append.2 ⟨h.once, List.nodup_singleton _, by grind⟩

theorem ofList_append (as : List α) (a : α) : ofList (as ++ [a]) = (ofList as).add a := by
  rw [ofList, List.foldl_append]
  rfl

theorem numbered_ofList (as : List α) : (ofList as).Numbered := by
  induction as using List.reverseRecOn with
  | nil => exact ⟨by simp [ofList, empty, Index.empty], List.nodup_nil⟩
  | append_singleton as a ih => exact ofList_append as a ▸ ih.add a

theorem ids_ofList (as : List α) : (ofList as).ids = numbersOf as := by
  induction as using List.reverseRecOn with
  | nil => rfl
  | append_singleton as a ih =>
    have hids : ((ofList as).add a).ids = if Asset.id a ∈ (ofList as).ids then (ofList as).ids
        else (ofList as).ids ++ [Asset.id a] := Index.keys_insert _ _ _
    rw [ofList_append, numbersOf_append, hids, ih]
    by_cases hold : Asset.id a ∈ as.map Asset.id
    · rw [if_pos (mem_numbersOf.2 hold), List.filter_eq_nil_iff.2 (by simpa using hold)]
      exact (List.append_nil _).symm
    · rw [if_neg (mt mem_numbersOf.1 hold), List.filter_eq_self.2 (by simpa using hold)]
      rfl

theorem get?_ofList (as : List α) (n : Int) : (ofList as).get? n = latest? as n := by
  induction as using List.reverseRecOn with
  | nil => rfl
  | append_singleton as a ih =>
    rw [ofList_append, get?_add, ih, latest?_append]
    by_cases h : Asset.id a = n
    · simp [latest?, h]
    · simp [latest?, h]

theorem mem_items_ofList {as : List α} {a : α} :
    a ∈ (ofList as).items ↔ latest? as (Asset.id a) = some a := by
  have hn := numbered_ofList as
  rw [← get?_ofList, hn.get?_eq, latest?_of_nodup hn.nodup]
  exact (and_iff_left rfl).symm

/-- The set shows the last item of each number, in the order in which the numbers first come in
the list. -/
structure Shows (s : AssetSet α) (as : List α) : Prop where
  numbers : s.items.map Asset.id = numbersOf as
  latest : ∀ a ∈ s.items, latest? as (Asset.id a) = some a
  size : s.size = (numbersOf as).length
  get? : ∀ n, s.get? n = latest? as n

theorem shows_ofList (as : List α) : (ofList as).Shows as := by
  have hn := numbered_ofList as
  refine ⟨hn.map_items.trans (ids_ofList as), fun a => mem_items_ofList.1, ?_, get?_ofList as⟩
  rw [← ids_ofList, ids, Index.keys, List.length_map]
  rfl

/-- A set has no items but those listed. -/
theorem mem_of_mem_items {as : List α} {a : α} (h : a ∈ (ofList as).items) : a ∈ as :=
  mem_of_latest? (mem_items_ofList.1 h)

/-! ## More items -/

theorem numbered_withExtra (s : AssetSet α) (extra : List α) : (s.withExtra extra).Numbered :=
  numbered_ofList _

/-- The set `t` shows the items of `s`, each replaced by the last one of `extra` with its number
if there is any, and after them those of `extra` with other numbers. -/
structure Extends (s : AssetSet α) (extra : List α) (t : AssetSet α) : Prop where
  numbers : t.items.map Asset.id = s.items.map Asset.id ++
    numbersOf (extra.filter fun a => !(s.items.map Asset.id).contains (Asset.id a))
  latest : ∀ a ∈ t.items, (latest? extra (Asset.id a)).or (s.get? (Asset.id a)) = some a
  get? : ∀ n, t.get? n = (latest? extra n).or (s.get? n)
  kept : ∀ n, (∀ a ∈ extra, Asset.id a ≠ n) → t.get? n = s.get? n

theorem Numbered.extends_withExtra {s : AssetSet α} (h : s.Numbered) (extra : List α) :
    s.Extends extra (s.withExtra extra) := by
  have hshows := shows_ofList (s.items ++ extra)
  have hlatest (n : Int) : latest? (s.items ++ extra) n = (latest? extra n).or (s.get? n) := by
    rw [latest?_append, h.get?_eq]
  refine ⟨?_, fun a ha => ?_, fun n => ?_, fun n hn => ?_⟩
  · refine hshows.numbers.trans ?_
    rw [numbersOf_append, numbersOf_of_nodup h.nodup]
  · rw [← hlatest]
    exact hshows.latest a ha
  · rw [← hlatest]
    exact hshows.get? n
  · rw [withExtra, hshows.get?, hlatest, latest?_eq_none_iff.2 hn, Option.none_or]

/-- An item of the extended set is an object of the set if none of `extra` has its number. -/
theorem Numbered.shared_eq {s : AssetSet α} (h : s.Numbered) {ι : Type} [DecidableEq ι]
    (object : α → ι) {extra : List α}
    (hnew : ∀ a ∈ s.items, ∀ b ∈ extra, object a ≠ object b) :
    s.shared extra = (s.withExtra extra).items.map fun a =>
      (s.get? (Asset.id a)).any fun b => object b == object a := by
  have hextends := h.extends_withExtra extra
  rw [shared, ← (s.numbered_withExtra extra).map_items, List.map_map]
  refine List.map_congr_left fun a ha => ?_
  have hlatest := hextends.latest a ha
  simp only [Function.comp]
  cases hreplaced : latest? extra (Asset.id a) with
  | some b =>
    rw [hreplaced, Option.some_or] at hlatest
    obtain rfl := Option.some.inj hlatest
    have hb := mem_of_latest? hreplaced
    have hother : (s.get? (Asset.id b)).any (fun c => object c == object b) = false := by
      cases hget : s.get? (Asset.id b) with
      | none => rfl
      | some c =>
        rw [h.get?_eq] at hget
        exact beq_eq_false_iff_ne.2 (hnew c (mem_of_latest? hget) b hb)
    have hlisted : Asset.id b ∈ extra.map Asset.id := List.mem_map_of_mem hb
    rw [hother, List.contains_iff_mem.2 hlisted, Bool.not_true, Bool.and_false]
  | none =>
    rw [hreplaced, Option.none_or] at hlatest
    have hids : Asset.id a ∈ s.ids := by
      rw [h.get?_eq] at hlatest
      exact h.map_items ▸ List.mem_map_of_mem (mem_of_latest? hlatest)
    have hnot : (extra.map Asset.id).contains (Asset.id a) = false := by
      simpa using latest?_eq_none_iff.1 hreplaced
    rw [hlatest, List.contains_iff_mem.2 hids, hnot]
    simp

/-- A set made from a list shows the last item of each number where the first one stood. With more
items it shows those in place of its own or after them, and an item of a number that is not among
theirs stays what it was. If `extra` consists of new objects, `shared` tells which items are the
very objects that the set has. -/
theorem latest_in_place {ι : Type} [DecidableEq ι] (object : α → ι) (as extra : List α) :
    (ofList as).Shows as ∧ (ofList as).Extends extra ((ofList as).withExtra extra) ∧
      ((∀ a ∈ as, ∀ b ∈ extra, object a ≠ object b) →
        (ofList as).shared extra = ((ofList as).withExtra extra).items.map fun a =>
          ((ofList as).get? (Asset.id a)).any fun b => object b == object a) := by
  have hs := numbered_ofList as
  refine ⟨shows_ofList as, hs.extends_withExtra extra, fun hnew => ?_⟩
  exact hs.shared_eq object fun a ha b hb => hnew a (mem_of_mem_items ha) b hb

end AssetSet

section

namespace Sample

/-- A label as an object: copies of one label are told apart. -/
structure LabelCopy where
  label : Label
  copy : Nat
deriving DecidableEq

instance : Asset LabelCopy where
  id l := l.label.id
  uuid? l := some l.label.uuid

/-- The first label is listed again under another name. -/
def labelCopies : List LabelCopy :=
  [⟨⟨1, Uuid.ofNat 1, "Spam"⟩, 0⟩, ⟨⟨2, Uuid.ofNat 2, "Important"⟩, 1⟩,
    ⟨⟨1, Uuid.ofNat 1, "Junk"⟩, 2⟩]

/-- The second label once more, and a new one. -/
def moreLabelCopies : List LabelCopy :=
  [⟨⟨2, Uuid.ofNat 2, "Important"⟩, 3⟩, ⟨⟨3, Uuid.ofNat 3, "Test"⟩, 4⟩]

end Sample

open Sample

/-- The copy of the second label is another object, although it looks the same. -/
theorem AssetSet.latest_in_place_of_labels :
    let s := ofList labelCopies
    (∀ a ∈ labelCopies, ∀ b ∈ moreLabelCopies, a.copy ≠ b.copy) ∧ s.Shows labelCopies ∧
      s.Extends moreLabelCopies (s.withExtra moreLabelCopies) ∧
      s.shared moreLabelCopies = [true, false, false] := by
  intro s
  have hnew : ∀ a ∈ labelCopies, ∀ b ∈ moreLabelCopies, a.copy ≠ b.copy := by decide
  obtain ⟨hshows, hextends, hshared⟩ :=
    AssetSet.latest_in_place LabelCopy.copy labelCopies moreLabelCopies
  exact ⟨hnew, hshows, hextends, (hshared hnew).trans (by decide)⟩

end

end Outreach
