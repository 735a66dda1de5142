import Mathlib.Data.List.Sort
import Outreach.Proofs.Contacts
import Outreach.Proofs.Fire.Store

/-!
# Outreach.Proofs.Database.Reads

Fires and contacts read by a list of numbers. The list is cut into pieces, and what is read for
them is joined and sorted; so a row comes once for each piece that has its number.

* `Database.piecesWith` — how many pieces of a list have a number; `piecesWith_le_one` says of
  which lists no two have the same one.
* `ListsOnce` — a list has just the items of a kind, each once, in ascending order of numbers.
* `Database.StoredAs` — a contact is just what is stored of it.
* `Database.reads_once_iff` — what is read is complete, and each row comes once, just if no stored
  number is in two pieces; then it depends on the set of numbers only.
* `Database.read_twice` — a number at both ends of a long list is read twice.
-/

namespace Outreach

/-! ## Lists in ascending order -/

/-- The list has just the items with `P`, each once, in ascending order of `key`. -/
structure ListsOnce {α κ : Type} [LT κ] (key : α → κ) (P : α → Prop) (l : List α) : Prop where
  order : (l.map key).Pairwise (· < ·)
  mem : ∀ a, a ∈ l ↔ P a

theorem ListsOnce.unique {α κ : Type} [LT κ] [hlt : Std.Asymm (α := κ) (· < ·)] {key : α → κ}
    {P : α → Prop} {l l' : List α} (h : ListsOnce key P l) (h' : ListsOnce key P l') :
    l = l' := by
  have hirrefl : Std.Irrefl fun a b => key a < key b := ⟨fun a ha => hlt.asymm _ _ ha ha⟩
  have hantisymm : Std.Antisymm fun a b => key a < key b :=
    ⟨fun a b hab hba => absurd hba (hlt.asymm _ _ hab)⟩
  exact (List.pairwise_map.1 h.order).eq_of_mem_iff (List.pairwise_map.1 h'.order)
    fun a => (h.mem a).trans (h'.mem a).symm

/-- The list has just the items with `P`, in ascending order of `key`: of each of the `numbers` as
many as `times` says, and none of another number. -/
structure ListsTimes {α : Type} (key : α → Int) (P : α → Prop) (numbers : List Int)
    (times : Int → Nat) (l : List α) : Prop where
  order : (l.map key).Pairwise (· ≤ ·)
  mem : ∀ a, a ∈ l ↔ P a
  count : ∀ i, (l.map key).count i = if i ∈ numbers then times i else 0

theorem ListsTimes.listsOnce_iff {α : Type} {key : α → Int} {P : α → Prop} {numbers : List Int}
    {times : Int → Nat} {l : List α} (h : ListsTimes key P numbers times l) :
    ListsOnce key P l ↔ ∀ i ∈ numbers, times i ≤ 1 := by
  have hnodup : (l.map key).Nodup ↔ ∀ i ∈ numbers, times i ≤ 1 := by
    simp only [List.nodup_iff_count_le_one, h.count]
    refine forall_congr' fun i => ?_
    split <;> simp [*]
  rw [← hnodup]
  constructor
  · exact fun honce => honce.order.imp Int.ne_of_lt
  · exact fun hne => ⟨(h.order.and hne).imp fun hab => Int.lt_iff_le_and_ne.2 hab, h.mem⟩

theorem pairwise_map_mergeSort {α : Type} (key : α → Int) (l : List α) :
    ((l.mergeSort fun a b => decide (key a ≤ key b)).map key).Pairwise (· ≤ ·) := by
  refine List.pairwise_map.2 ((List.pairwise_mergeSort ?_ ?_ l).imp of_decide_eq_true)
  · simpa using fun a b c => Int.le_trans
  · simpa using fun a b => Int.le_total (key a) (key b)

namespace Database

/-! ## Pieces -/

/-- How many pieces of the list have the number. -/
def piecesWith (ids : List Int) (i : Int) : Nat :=
  (chunksOf idsPerQuery ids).countP fun piece => piece.contains i

theorem countP_contains_le_count (pieces : List (List Int)) (i : Int) :
    pieces.countP (fun piece => piece.contains i) ≤ pieces.flatten.count i := by
  induction pieces with
  | nil => exact Nat.le_refl 0
  | cons piece pieces ih =>
    rw [List.countP_cons, List.flatten_cons, List.count_append, Nat.add_comm]
    refine Nat.add_le_add ?_ ih
    split
    · rename_i h
      exact List.count_pos_iff.2 (List.contains_iff_mem.1 h)
    · exact Nat.zero_le _

/-- A list that names no number twice, and one that fits into one piece, has each in one piece. -/
theorem piecesWith_le_one {ids : List Int} (h : ids.Nodup ∨ ids.length ≤ idsPerQuery) (i : Int) :
    piecesWith ids i ≤ 1 := by
  rcases h with h | h
  · refine Nat.le_trans (countP_contains_le_count _ i) ?_
    rw [flatten_chunksOf]
    exact List.nodup_iff_count_le_one.1 h i
  · by_cases hids : ids = []
    · rw [piecesWith, hids, chunksOf_nil]
      exact Nat.zero_le 1
    · rw [piecesWith, chunksOf_eq_singleton hids (Nat.le_trans h (Nat.le_max_left _ _))]
      exact List.countP_le_length

/-- Rows with numbers of their own are read once for each piece with their number. -/
theorem count_flatMap {ρ : Type} {key : ρ → Int} {rows : List ρ} {read : List Int → List ρ}
    (hread : ∀ ids, (read ids).Perm (rows.filter fun r => ids.contains (key r)))
    (pieces : List (List Int)) (i : Int) : ((pieces.flatMap read).map key).count i =
      pieces.countP (fun piece => piece.contains i) * (rows.map key).count i := by
  induction pieces with
  | nil => simp
  | cons piece pieces ih =>
    have hfirst : ((read piece).map key).count i =
        if piece.contains i then (rows.map key).count i else 0 := by
      rw [((hread piece).map key).count_eq]
      have hfilter : (rows.filter fun r => piece.contains (key r)).map key =
          (rows.map key).filter piece.contains := by
        rw [List.filter_map]
        rfl
      rw [hfilter]
      split
      · rename_i h
        exact List.count_filter h
      · rename_i h
        exact List.count_eq_zero.2 fun hmem => h (List.mem_filter.1 hmem).2
    rw [List.flatMap_cons, List.map_append, List.count_append, hfirst, ih, List.countP_cons,
      Nat.add_mul, Nat.add_comm]
    split <;> simp

theorem map_eq_of_forall₂ {α β κ : Type} {R : α → β → Prop} {key : α → κ} {k : β → κ}
    {as : List α} {bs : List β} (h : List.Forall₂ R as bs) (hk : ∀ a b, R a b → k b = key a) :
    bs.map k = as.map key := by
  induction h with
  | nil => rfl
  | cons hR _ ih => rw [List.map_cons, List.map_cons, hk _ _ hR, ih]

/-- Items that are read from rows, a row for each piece with its number, and then sorted. -/
theorem lists_of_pieces {ρ α : Type} {number : ρ → Int} {key : α → Int} {R : ρ → α → Prop}
    {rows found : List ρ} {read : List Int → List ρ} {ids : List Int} {items sorted : List α}
    (hrows : (rows.map number).Nodup)
    (hread : ∀ ids, (read ids).Perm (rows.filter fun r => ids.contains (number r)))
    (hfound : found.Perm ((chunksOf idsPerQuery ids).flatMap read))
    (hitems : List.Forall₂ R found items) (hkey : ∀ r a, R r a → key a = number r)
    (hunique : ∀ r a b, R r a → R r b → a = b) (hperm : sorted.Perm items)
    (hsorted : (sorted.map key).Pairwise (· ≤ ·)) :
    ListsTimes key (fun a => ∃ r ∈ rows, number r ∈ ids ∧ R r a) (rows.map number)
      (piecesWith ids) sorted := by
  have hmem (r : ρ) : r ∈ found ↔ r ∈ rows ∧ number r ∈ ids := by
    have hflat : (∃ piece ∈ chunksOf idsPerQuery ids, number r ∈ piece) ↔ number r ∈ ids := by
      rw [← List.mem_flatten, flatten_chunksOf]
    simp only [hfound.mem_iff, List.mem_flatMap, (hread _).mem_iff, List.mem_filter,
      List.contains_iff_mem, ← hflat]
    constructor
    · rintro ⟨piece, hpiece, hr, hnumber⟩
      exact ⟨hr, piece, hpiece, hnumber⟩
    · rintro ⟨hr, piece, hpiece, hnumber⟩
      exact ⟨piece, hpiece, hr, hnumber⟩
  refine ⟨hsorted, fun a => ?_, fun i => ?_⟩
  · rw [hperm.mem_iff]
    constructor
    · intro ha
      obtain ⟨r, hr, hra⟩ := forall₂_right hitems ha
      exact ⟨r, ((hmem r).1 hr).1, ((hmem r).1 hr).2, hra⟩
    · rintro ⟨r, hr, hnumber, hra⟩
      obtain ⟨b, hb, hrb⟩ := forall₂_left hitems ((hmem r).2 ⟨hr, hnumber⟩)
      exact hunique r b a hrb hra ▸ hb
  · rw [(hperm.map key).count_eq, map_eq_of_forall₂ hitems hkey, (hfound.map number).count_eq,
      count_flatMap hread, ← piecesWith]
    split
    · rename_i hi
      rw [List.count_eq_one_of_mem hrows hi, Nat.mul_one]
    · rename_i hi
      rw [List.count_eq_zero.2 hi, Nat.mul_zero]

/-! ## Fires -/

/-- The keys that the schema asks for are there, and every stored text can be read. -/
structure Legible (db : Database) : Prop extends db.Keyed where
  fires : (db.fires.map FireRow.id).Nodup
  members : db.members.Nodup
  firesRead : ∀ r ∈ db.fires, ∃ f, Fire.ofRow r = .ok f
  contactsRead : ∀ r ∈ db.contacts, ∃ c, bareContact r = .ok c
  valuesRead : ∀ v ∈ db.values, ∃ t, Instant.ofStored? v.datetime = .ok t

variable {db : Database}

def fireNumbers (db : Database) : List FireId := db.fires.map FireRow.id

/-- The fire is that of a row with one of the numbers. -/
def StoredFire (db : Database) (ids : List FireId) (f : Fire) : Prop :=
  ∃ r ∈ db.fires, r.id ∈ ids ∧ Fire.ofRow r = .ok f

theorem forall₂_ofRows {rs : List FireRow} (h : ∀ r ∈ rs, ∃ f, Fire.ofRow r = .ok f) :
    ∃ fs, Fire.ofRows rs = .ok fs ∧ List.Forall₂ (fun r f => Fire.ofRow r = .ok f) rs fs := by
  induction rs with
  | nil => exact ⟨[], rfl, .nil⟩
  | cons r rs ih =>
    obtain ⟨f, hf⟩ := h r List.mem_cons_self
    obtain ⟨fs, hfs, hall⟩ := ih fun r hr => h r (List.mem_cons_of_mem _ hr)
    exact ⟨f :: fs, by simp only [Fire.ofRows, hf, hfs], .cons hf hall⟩

/-- Every fire with one of the numbers is read, as often as there are pieces with its number. -/
theorem Legible.firesWithIds (hdb : db.Legible) (ht : db.dropped = []) (ids : List FireId) :
    ∃ fs, db.firesWithIds ids = .ok fs ∧
      ListsTimes Fire.id (db.StoredFire ids) db.fireNumbers (piecesWith ids) fs := by
  have hperm : (db.rowsWithIds ids).Perm
      ((chunksOf idsPerQuery ids).flatMap fun ids => db.fires.filter fun r => ids.contains r.id) :=
    List.mergeSort_perm _ _
  have hread : ∀ r ∈ db.rowsWithIds ids, ∃ f, Fire.ofRow r = .ok f := by
    intro r hr
    obtain ⟨piece, -, hr⟩ := List.mem_flatMap.1 (hperm.mem_iff.1 hr)
    exact hdb.firesRead r (List.mem_of_mem_filter hr)
  obtain ⟨fs, hfs, hall⟩ := forall₂_ofRows hread
  have hid (r : FireRow) (f : Fire) (h : Fire.ofRow r = .ok f) : f.id = r.id :=
    (Fire.of_ofRow h).1.symm
  have hsorted : (fs.map Fire.id).Pairwise (· ≤ ·) := by
    rw [map_eq_of_forall₂ hall hid]
    exact pairwise_map_mergeSort FireRow.id _
  refine ⟨fs, ?_, lists_of_pieces hdb.fires (fun _ => .refl _) hperm hall hid ?_ (.refl fs) hsorted⟩
  · rw [Database.firesWithIds, lacking?_eq_none ht]
    simp only [readFires, hfs]
  · exact fun r f g hf hg => Except.ok.inj (hf.symm.trans hg)

/-! ## Contacts -/

/-- The contact is just what is stored of it: what its own row says, its groups, and its values. -/
structure StoredAs (db : Database) (r : ContactRow) (c : Contact) : Prop where
  bare : bareContact r = .ok { c with groups := [], fields := [] }
  groups : ListsOnce id (fun g => ⟨g, r.id⟩ ∈ db.members) c.groups
  fields : ListsOnce Prod.fst (fun f => ∃ v ∈ db.values, v.contact = r.id ∧ f.1 = v.key ∧
    f.2.text = v.text ∧ Instant.ofStored? v.datetime = .ok f.2.datetime) c.fields

theorem StoredAs.unique {r : ContactRow} {c c' : Contact} (h : db.StoredAs r c)
    (h' : db.StoredAs r c') : c = c' := by
  have hgroups := h.groups.unique h'.groups
  have hfields := h.fields.unique h'.fields
  have hbare := Except.ok.inj (h.bare.symm.trans h'.bare)
  simp only [Contact.mk.injEq] at hbare
  obtain ⟨hid, huuid, hcreated, hseen, -⟩ := hbare
  cases c
  cases c'
  simp_all

def activeNumbers (db : Database) (org : OrgId) : List ContactId :=
  (db.contacts.filter (isActive org)).map ContactRow.id

/-- The contact is that of an active contact of the org with one of the numbers. -/
def StoredContact (db : Database) (org : OrgId) (ids : List ContactId) (c : Contact) : Prop :=
  ∃ r ∈ db.contacts.filter (isActive org), r.id ∈ ids ∧ db.StoredAs r c

theorem activeRows_perm (db : Database) (org : OrgId) (ids : List ContactId) :
    (db.activeRows org ids).Perm
      ((db.contacts.filter (isActive org)).filter fun r => ids.contains r.id) := by
  rw [List.filter_filter]
  refine (List.mergeSort_perm _ _).trans (.of_eq (List.filter_congr fun r _ => ?_))
  exact Bool.and_comm _ _

theorem blank_of_bareContact {r : ContactRow} {c : Contact} (h : bareContact r = .ok c) :
    { c with groups := [], fields := [] } = c := by
  unfold bareContact at h
  split at h
  · cases h
  · split at h
    · cases h
    · split at h
      · cases h
      · cases h
        rfl

theorem Legible.listsOnce_groupsOf (hdb : db.Legible) (x : ContactId) :
    ListsOnce id (fun g => ⟨g, x⟩ ∈ db.members) (db.groupsOf x) := by
  have hnodup : (db.groupsOf x).Nodup := by
    refine (List.mergeSort_perm _ _).nodup_iff.2 (List.Nodup.map_on ?_ (hdb.members.filter _))
    rintro ⟨g, c⟩ hm ⟨g', c'⟩ hm' rfl
    have hc := beq_iff_eq.1 (List.mem_filter.1 hm).2
    have hc' := beq_iff_eq.1 (List.mem_filter.1 hm').2
    rw [show c = c' from hc.trans hc'.symm]
  have hsorted := pairwise_map_mergeSort id
    ((db.members.filter fun m => m.contact == x).map (·.group))
  refine ⟨?_, fun _ => mem_groupsOf⟩
  rw [List.map_id] at hsorted ⊢
  exact (hsorted.and hnodup).imp fun hab => Int.lt_iff_le_and_ne.2 hab

theorem valueBefore_iff {a b : ValueRow} : valueBefore a b = true ↔
    a.contact < b.contact ∨ (a.contact = b.contact ∧ a.key ≤ b.key) := by
  simp [valueBefore]

theorem valueBefore_trans (a b c : ValueRow) (hab : valueBefore a b = true)
    (hbc : valueBefore b c = true) : valueBefore a c = true := by
  rw [valueBefore_iff] at *
  rcases hab with hab | ⟨hab, hkab⟩
  · rcases hbc with hbc | ⟨hbc, -⟩
    · exact .inl (Int.lt_trans hab hbc)
    · exact .inl (hbc ▸ hab)
  · rw [hab]
    exact hbc.imp_right fun h => ⟨h.1, String.le_trans hkab h.2⟩

theorem valueBefore_total (a b : ValueRow) : (valueBefore a b || valueBefore b a) = true := by
  rw [Bool.or_eq_true, valueBefore_iff, valueBefore_iff]
  rcases Int.lt_trichotomy a.contact b.contact with h | h | h
  · exact .inl (.inl h)
  · exact (String.le_total a.key b.key).imp (fun hk => .inr ⟨h, hk⟩) fun hk => .inr ⟨h.symm, hk⟩
  · exact .inr (.inl h)

/-- The values of one contact are read in ascending order of keys. -/
theorem Legible.pairwise_valuesOf (hdb : db.Legible) (rows : List ContactRow) :
    (db.valuesOf rows).Pairwise fun a b => a.contact = b.contact → a.key < b.key := by
  have hkeys : ((db.valuesOf rows).map fun v => (v.contact, v.key)).Nodup :=
    ((List.mergeSort_perm _ _).map _).nodup_iff.2 ((List.filter_sublist.map _).nodup hdb.values)
  have hsorted : (db.valuesOf rows).Pairwise fun a b => valueBefore a b = true :=
    List.pairwise_mergeSort valueBefore_trans valueBefore_total _
  refine (hsorted.and (List.pairwise_map.1 hkeys)).imp ?_
  rintro a b ⟨hle, hne⟩ hc
  rcases valueBefore_iff.1 hle with hlt | ⟨-, hle⟩
  · exact absurd hc (Int.ne_of_lt hlt)
  · by_contra hlt
    exact hne (Prod.ext hc (String.le_antisymm hle (String.not_lt.1 hlt)))

/-- What is read of a contact's values is what is stored, each once, by key. -/
theorem Legible.listsOnce_fieldsOf (hdb : db.Legible) {rows : List ContactRow}
    {vs : List (ContactId × String × FieldValue)} (hvs : readValues (db.valuesOf rows) = .ok vs)
    {r : ContactRow} (hr : r ∈ rows) :
    ListsOnce Prod.fst (fun f => ∃ v ∈ db.values, v.contact = r.id ∧ f.1 = v.key ∧
      f.2.text = v.text ∧ Instant.ofStored? v.datetime = .ok f.2.datetime) (fieldsOf vs r.id) := by
  constructor
  · have hkeys : (vs.map fun v => (v.1, v.2.1)) =
        (db.valuesOf rows).map fun v => (v.contact, v.key) :=
      map_eq_of_forall₂ (forall₂_readValues hvs) fun v w hw => Prod.ext hw.1 hw.2.1
    have hup : vs.Pairwise fun v w => v.1 = w.1 → v.2.1 < w.2.1 := by
      have : (vs.map fun v => (v.1, v.2.1)).Pairwise fun a b => a.1 = b.1 → a.2 < b.2 :=
        hkeys ▸ List.pairwise_map.2 (hdb.pairwise_valuesOf rows)
      exact List.pairwise_map.1 this
    rw [fieldsOf, List.map_map, List.pairwise_map, List.pairwise_filter]
    refine hup.imp fun hvw hv hw => hvw ?_
    exact (beq_iff_eq.1 hv).trans (beq_iff_eq.1 hw).symm
  · intro f
    constructor
    · intro hf
      obtain ⟨v, hv, hread⟩ := exists_stored_of_mem_fieldsOf hvs hf
      exact ⟨v, (mem_valuesOf.1 hv).1, hread⟩
    · rintro ⟨v, hv, hc, hkey, htext, htime⟩
      obtain ⟨g, hg, hgkey, hgtext, hgtime⟩ :=
        exists_mem_fieldsOf hvs (mem_valuesOf.2 ⟨hv, r, hr, hc.symm⟩)
      have hgf : g = f := by
        have hdatetime := Except.ok.inj (hgtime.symm.trans htime)
        obtain ⟨key, text, time⟩ := f
        obtain ⟨gkey, gtext, gtime⟩ := g
        simp_all only
      exact hc ▸ hgf ▸ hg

theorem Legible.forall₂_loadPiece (hdb : db.Legible) {org : OrgId} {ids : List ContactId}
    {cs : List Contact} (h : db.loadPiece org ids = .ok cs) :
    List.Forall₂ db.StoredAs (db.activeRows org ids) cs := by
  obtain ⟨bare, vs, hbare, hvs, rfl⟩ := loadPiece_eq_ok_iff.1 h
  have hall : List.Forall₂ (fun r b => r ∈ db.activeRows org ids ∧ bareContact r = .ok b)
      (db.activeRows org ids) bare :=
    (List.forall₂_and_left _ _).2 ⟨fun _ => id, forall₂_bareContacts hbare⟩
  refine List.forall₂_map_right_iff.2 (hall.imp ?_)
  rintro r b ⟨hr, hrb⟩
  have hid := (bareContact_of_ok hrb).1
  refine ⟨?_, ?_, ?_⟩
  · exact (blank_of_bareContact hrb).symm ▸ hrb
  · exact hid ▸ hdb.listsOnce_groupsOf b.id
  · exact hid ▸ hdb.listsOnce_fieldsOf hvs hr

theorem Legible.forall₂_loadPieces (hdb : db.Legible) {org : OrgId}
    {pieces : List (List ContactId)} {cs : List Contact} (h : db.loadPieces org pieces = .ok cs) :
    List.Forall₂ db.StoredAs (pieces.flatMap (db.activeRows org)) cs := by
  induction pieces generalizing cs with
  | nil =>
    cases h
    exact .nil
  | cons piece rest ih =>
    obtain ⟨-, first, more, hfirst, hmore, rfl⟩ := loadPieces_cons_eq_ok_iff.1 h
    exact List.rel_append (hdb.forall₂_loadPiece hfirst) (ih hmore)

/-- Every active contact with one of the numbers is read, whole, as often as there are pieces with
its number. -/
theorem Legible.loadContacts (hdb : db.Legible) (ht : db.dropped = []) (org : OrgId)
    (ids : List ContactId) : ∃ cs, db.loadContacts org ids = .ok cs ∧
      ListsTimes Contact.id (db.StoredContact org ids) (db.activeNumbers org) (piecesWith ids)
        cs := by
  obtain ⟨cs, hcs⟩ :=
    loadPieces_ok ht hdb.contactsRead hdb.valuesRead org (chunksOf idsPerQuery ids)
  have hnumbers : (db.activeNumbers org).Nodup :=
    (List.filter_sublist.map _).nodup hdb.contacts
  refine ⟨_, by rw [Database.loadContacts, hcs], ?_⟩
  exact lists_of_pieces hnumbers (db.activeRows_perm org) (.refl _) (hdb.forall₂_loadPieces hcs)
    (fun r c h => (bareContact_of_ok h.bare).1) (fun r c c' h h' => h.unique h')
    (List.mergeSort_perm _ _) (pairwise_map_mergeSort Contact.id cs)

/-! ## Each row once -/

/-- Fires, and active contacts with all that is stored of them, are read completely and in
ascending order of numbers. Each comes once just if its number is in one piece only; then the order
of the numbers, and how often they are named, make no difference. -/
theorem reads_once_iff (hdb : db.Legible) (ht : db.dropped = []) :
    (∀ ids, ∃ fs, db.firesWithIds ids = .ok fs ∧
      ListsTimes Fire.id (db.StoredFire ids) db.fireNumbers (piecesWith ids) fs ∧
      (ListsOnce Fire.id (db.StoredFire ids) fs ↔ ∀ i ∈ db.fireNumbers, piecesWith ids i ≤ 1)) ∧
    (∀ org ids, ∃ cs, db.loadContacts org ids = .ok cs ∧
      ListsTimes Contact.id (db.StoredContact org ids) (db.activeNumbers org) (piecesWith ids)
        cs ∧
      (ListsOnce Contact.id (db.StoredContact org ids) cs ↔
        ∀ i ∈ db.activeNumbers org, piecesWith ids i ≤ 1)) ∧
    ∀ ids ids', (∀ i, i ∈ ids ↔ i ∈ ids') → (∀ i, piecesWith ids i ≤ 1) →
      (∀ i, piecesWith ids' i ≤ 1) → db.firesWithIds ids = db.firesWithIds ids' ∧
        ∀ org, db.loadContacts org ids = db.loadContacts org ids' := by
  refine ⟨fun ids => ?_, fun org ids => ?_, fun ids ids' hmem hone hone' => ⟨?_, fun org => ?_⟩⟩
  · obtain ⟨fs, hread, hlists⟩ := hdb.firesWithIds ht ids
    exact ⟨fs, hread, hlists, hlists.listsOnce_iff⟩
  · obtain ⟨cs, hread, hlists⟩ := hdb.loadContacts ht org ids
    exact ⟨cs, hread, hlists, hlists.listsOnce_iff⟩
  · obtain ⟨fs, hread, hlists⟩ := hdb.firesWithIds ht ids
    obtain ⟨fs', hread', hlists'⟩ := hdb.firesWithIds ht ids'
    have honce := hlists.listsOnce_iff.2 fun i _ => hone i
    have honce' := hlists'.listsOnce_iff.2 fun i _ => hone' i
    have hsame : db.StoredFire ids = db.StoredFire ids' := by
      funext f
      simp only [StoredFire, hmem]
    rw [hread, hread', honce.unique (hsame ▸ honce')]
  · obtain ⟨cs, hread, hlists⟩ := hdb.loadContacts ht org ids
    obtain ⟨cs', hread', hlists'⟩ := hdb.loadContacts ht org ids'
    have honce := hlists.listsOnce_iff.2 fun i _ => hone i
    have honce' := hlists'.listsOnce_iff.2 fun i _ => hone' i
    have hsame : db.StoredContact org ids = db.StoredContact org ids' := by
      funext c
      simp only [StoredContact, hmem]
    rw [hread, hread', honce.unique (hsame ▸ honce')]

end Database

section

namespace Sample

/-- A contact with a group and a value, and a fire of the contact. -/
def enrolled : Database :=
  { contacts := [⟨1, 1, "00000000-0000-4000-8000-000000000001", "2024-01-01T00:00:00Z", none, true⟩]
    members := [⟨5, 1⟩]
    values := [⟨1, "join_date", "on the second", some "2024-01-02T00:00:00Z"⟩]
    fires := [⟨1, 10, 1, "2024-01-01T09:00:00.000Z", none, none⟩] }

theorem enrolled_legible : enrolled.Legible where
  contacts := by decide
  values := by decide
  fires := by decide
  members := by decide
  firesRead := by
    have h : ∀ r ∈ enrolled.fires, Fire.ofRow r = .ok ⟨1, 10, 1, ⟨1704099600, 0⟩, none, none⟩ := by
      decide +kernel
    exact fun r hr => ⟨_, h r hr⟩
  contactsRead := by
    have h : ∀ r ∈ enrolled.contacts, Database.bareContact r =
        .ok ⟨1, .ofNat 0x00000000000040008000000000000001, ⟨1704067200, 0⟩, none, [], []⟩ := by
      decide +kernel
    exact fun r hr => ⟨_, h r hr⟩
  valuesRead := by
    have h : ∀ v ∈ enrolled.values,
        Instant.ofStored? v.datetime = .ok (some ⟨1704153600, 0⟩) := by
      decide +kernel
    exact fun v hv => ⟨_, h v hv⟩

/-- A list of 901 numbers, with the first once more as the last. -/
def bothEnds : List Int := 1 :: List.replicate 899 2 ++ [1]

end Sample

open Sample

/-- In a short list a number may be named twice. -/
theorem Database.reads_once_of_short : enrolled.Legible ∧ enrolled.dropped = [] ∧
    (∃ fs, enrolled.firesWithIds [2, 1, 1] = .ok fs ∧
      ListsOnce Fire.id (enrolled.StoredFire [2, 1, 1]) fs) ∧
    (∃ cs, enrolled.loadContacts 1 [2, 1, 1] = .ok cs ∧
      ListsOnce Contact.id (enrolled.StoredContact 1 [2, 1, 1]) cs) ∧
    enrolled.firesWithIds [2, 1, 1] = enrolled.firesWithIds [1, 2] ∧
    enrolled.loadContacts 1 [2, 1, 1] = enrolled.loadContacts 1 [1, 2] := by
  have hone : ∀ i, Database.piecesWith [2, 1, 1] i ≤ 1 :=
    Database.piecesWith_le_one (.inr (by decide))
  have hone' : ∀ i, Database.piecesWith [1, 2] i ≤ 1 :=
    Database.piecesWith_le_one (.inr (by decide))
  obtain ⟨hfires, hcontacts, hsame⟩ := Database.reads_once_iff enrolled_legible rfl
  obtain ⟨fs, hfs, -, hfsOnce⟩ := hfires [2, 1, 1]
  obtain ⟨cs, hcs, -, hcsOnce⟩ := hcontacts 1 [2, 1, 1]
  obtain ⟨hfsSame, hcsSame⟩ := hsame [2, 1, 1] [1, 2] (by simp; grind) hone hone'
  exact ⟨enrolled_legible, rfl, ⟨fs, hfs, hfsOnce.2 fun i _ => hone i⟩,
    ⟨cs, hcs, hcsOnce.2 fun i _ => hone i⟩, hfsSame, hcsSame 1⟩

/-- The number at both ends is in two pieces: its fire is read twice, and so is its contact. -/
theorem Database.read_twice : enrolled.Legible ∧ enrolled.dropped = [] ∧
    (∃ fs, enrolled.firesWithIds bothEnds = .ok fs ∧ (fs.map Fire.id).count 1 = 2) ∧
    (∃ cs, enrolled.loadContacts 1 bothEnds = .ok cs ∧ (cs.map Contact.id).count 1 = 2) := by
  have htwo : Database.piecesWith bothEnds 1 = 2 := by decide +kernel
  obtain ⟨fs, hfs, hfires⟩ := enrolled_legible.firesWithIds rfl bothEnds
  obtain ⟨cs, hcs, hcontacts⟩ := enrolled_legible.loadContacts rfl 1 bothEnds
  refine ⟨enrolled_legible, rfl, ⟨fs, hfs, ?_⟩, ⟨cs, hcs, ?_⟩⟩
  · rw [hfires.count, if_pos (by decide), htwo]
  · rw [hcontacts.count, if_pos (by decide), htwo]

end

end Outreach
