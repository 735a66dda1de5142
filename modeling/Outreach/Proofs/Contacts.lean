import Mathlib.Data.List.Forall2
import Mathlib.Data.List.Nodup
import Outreach.Contacts.Store

/-!
# Outreach.Proofs.Contacts

What is read about contacts, against what is stored.

* `Database.Starts` — an active contact of the org has a date that events can be relative to.
* `Database.Shows` — a contact as it was read agrees with what is stored of it.
* `Database.covers_of_loadContacts`, `Database.starts_of_eligibleMembers` — the two ways in which
  scheduling reads contacts agree with what is stored.
* `Database.exists_row_of_loadContacts`, `Database.exists_row_of_eligibleMembers` — and both find
  only contacts of the org, whatever is stored.
-/

namespace Outreach

/-! ## Lists read item by item -/

theorem forall₂_left {α β : Type} {R : α → β → Prop} {as : List α} {bs : List β}
    (h : List.Forall₂ R as bs) {a : α} (ha : a ∈ as) : ∃ b ∈ bs, R a b := by
  induction h with
  | nil => cases ha
  | cons hR _ ih =>
    rcases List.mem_cons.1 ha with rfl | ha
    · exact ⟨_, List.mem_cons_self, hR⟩
    · obtain ⟨b, hb, hab⟩ := ih ha
      exact ⟨b, List.mem_cons_of_mem _ hb, hab⟩

theorem forall₂_right {α β : Type} {R : α → β → Prop} {as : List α} {bs : List β}
    (h : List.Forall₂ R as bs) {b : β} (hb : b ∈ bs) : ∃ a ∈ as, R a b :=
  forall₂_left h.flip hb

namespace Database

theorem forall₂_readReferences {db : Database} {ref : Reference} {rs : List ContactRow}
    {ms : List (ContactId × Option Instant)} (h : db.readReferences ref rs = .ok ms) :
    List.Forall₂ (fun r m => r.id = m.1 ∧ Instant.ofStored? (db.storedReference r ref) = .ok m.2)
      rs ms := by
  induction rs generalizing ms with
  | nil => cases h; exact .nil
  | cons r rs ih =>
    unfold readReferences at h
    split at h
    · cases h
    · rename_i t ht
      split at h
      · cases h
      · rename_i ts hts
        cases h
        exact .cons ⟨rfl, ht⟩ (ih hts)

theorem forall₂_bareContacts {rs : List ContactRow} {cs : List Contact}
    (h : bareContacts rs = .ok cs) : List.Forall₂ (fun r c => bareContact r = .ok c) rs cs := by
  induction rs generalizing cs with
  | nil => cases h; exact .nil
  | cons r rs ih =>
    unfold bareContacts at h
    split at h
    · cases h
    · rename_i c hc
      split at h
      · cases h
      · rename_i cs hcs
        cases h
        exact .cons hc (ih hcs)

theorem forall₂_readValues {rs : List ValueRow} {vs : List (ContactId × String × FieldValue)}
    (h : readValues rs = .ok vs) :
    List.Forall₂ (fun r v => v.1 = r.contact ∧ v.2.1 = r.key ∧ v.2.2.text = r.text ∧
      Instant.ofStored? r.datetime = .ok v.2.2.datetime) rs vs := by
  induction rs generalizing vs with
  | nil => cases h; exact .nil
  | cons r rs ih =>
    unfold readValues at h
    split at h
    · cases h
    · rename_i t ht
      split at h
      · cases h
      · rename_i vs hvs
        cases h
        exact .cons ⟨rfl, rfl, rfl, ht⟩ (ih hvs)

theorem bareContacts_ok {rs : List ContactRow} (h : ∀ r ∈ rs, ∃ c, bareContact r = .ok c) :
    ∃ cs, bareContacts rs = .ok cs := by
  induction rs with
  | nil => exact ⟨[], rfl⟩
  | cons r rs ih =>
    obtain ⟨c, hc⟩ := h r List.mem_cons_self
    obtain ⟨cs, hcs⟩ := ih fun r hr => h r (List.mem_cons_of_mem _ hr)
    exact ⟨c :: cs, by simp only [bareContacts, hc, hcs]⟩

theorem readValues_ok {rs : List ValueRow}
    (h : ∀ r ∈ rs, ∃ t, Instant.ofStored? r.datetime = .ok t) : ∃ vs, readValues rs = .ok vs := by
  induction rs with
  | nil => exact ⟨[], rfl⟩
  | cons r rs ih =>
    obtain ⟨t, ht⟩ := h r List.mem_cons_self
    obtain ⟨vs, hvs⟩ := ih fun r hr => h r (List.mem_cons_of_mem _ hr)
    exact ⟨(r.contact, r.key, ⟨r.text, t⟩) :: vs, by simp only [readValues, ht, hvs]⟩

/-! ## Dates -/

/-- Contacts have their own number, and a contact has one value for a key. -/
structure Keyed (db : Database) : Prop where
  contacts : (db.contacts.map ContactRow.id).Nodup
  values : (db.values.map fun v => (v.contact, v.key)).Nodup

/-- The active contact of the org has the date that events relative to `ref` count from. -/
def Starts (db : Database) (org : OrgId) (ref : Reference) (x : ContactId) (start : Instant) :
    Prop :=
  ∃ r ∈ db.contacts, r.id = x ∧ isActive org r = true ∧
    Instant.ofStored? (db.storedReference r ref) = .ok (some start)

theorem Keyed.eq_of_id {db : Database} (hk : db.Keyed) {r q : ContactRow} (hr : r ∈ db.contacts)
    (hq : q ∈ db.contacts) (h : r.id = q.id) : r = q :=
  List.inj_on_of_nodup_map hk.contacts hr hq h

theorem Keyed.eq_of_key {db : Database} (hk : db.Keyed) {v u : ValueRow} (hv : v ∈ db.values)
    (hu : u ∈ db.values) (hc : v.contact = u.contact) (h : v.key = u.key) : v = u :=
  List.inj_on_of_nodup_map hk.values hv hu (by rw [hc, h])

theorem Keyed.starts_unique {db : Database} (hk : db.Keyed) {org : OrgId} {ref : Reference}
    {x : ContactId} {s t : Instant} (hs : db.Starts org ref x s) (ht : db.Starts org ref x t) :
    s = t := by
  obtain ⟨r, hr, rfl, -, hrs⟩ := hs
  obtain ⟨q, hq, hqr, -, hqt⟩ := ht
  obtain rfl := hk.eq_of_id hr hq hqr.symm
  exact Option.some.inj (Except.ok.inj (hrs.symm.trans hqt))

/-- A contact as it was read agrees with what is stored of an active contact of the org. -/
def Shows (db : Database) (org : OrgId) (c : Contact) : Prop :=
  ∃ r ∈ db.contacts, r.id = c.id ∧ isActive org r = true ∧
    (∀ g, c.inGroup g = true ↔ ⟨g, c.id⟩ ∈ db.members) ∧
    ∀ ref, Instant.ofStored? (db.storedReference r ref) = .ok (c.reference? ref)

theorem Shows.starts_iff {db : Database} (hk : db.Keyed) {org : OrgId} {c : Contact}
    (h : db.Shows org c) (ref : Reference) (start : Instant) :
    db.Starts org ref c.id start ↔ c.reference? ref = some start := by
  obtain ⟨r, hr, hid, hactive, -, href⟩ := h
  constructor
  · rintro ⟨q, hq, hqid, -, hstart⟩
    obtain rfl := hk.eq_of_id hq hr (hqid.trans hid.symm)
    exact Except.ok.inj ((href ref).symm.trans hstart)
  · intro hc
    exact ⟨r, hr, hid, hactive, hc ▸ href ref⟩

/-! ## Members of a group -/

theorem mem_membersOf {db : Database} {org : OrgId} {group : GroupId} {r : ContactRow} :
    r ∈ db.membersOf org group ↔
      r ∈ db.contacts ∧ isActive org r = true ∧ ⟨group, r.id⟩ ∈ db.members := by
  simp [membersOf, List.mem_mergeSort]

theorem starts_of_eligibleMembers {db : Database} {org : OrgId} {group : GroupId}
    {ref : Reference} {ms : List (ContactId × Option Instant)}
    (h : db.eligibleMembers org group ref = .ok ms) (x : ContactId) (start : Instant) :
    (x, some start) ∈ ms ↔ ⟨group, x⟩ ∈ db.members ∧ db.Starts org ref x start := by
  unfold eligibleMembers at h
  split at h
  · cases h
  · have hall := forall₂_readReferences h
    constructor
    · intro hm
      obtain ⟨r, hr, rfl, hstart⟩ := forall₂_right hall hm
      obtain ⟨hr, hactive, hmember⟩ := mem_membersOf.1 hr
      exact ⟨hmember, r, hr, rfl, hactive, hstart⟩
    · rintro ⟨hmember, r, hr, rfl, hactive, hstart⟩
      obtain ⟨m, hm, hid, hread⟩ := forall₂_left hall (mem_membersOf.2 ⟨hr, hactive, hmember⟩)
      obtain ⟨x, t⟩ := m
      cases hid
      rw [hread] at hstart
      cases hstart
      exact hm

/-! ## Whole contacts -/

theorem bareContact_of_ok {r : ContactRow} {c : Contact} (h : bareContact r = .ok c) :
    c.id = r.id ∧ Instant.ofStored r.createdOn = .ok c.createdOn ∧
      Instant.ofStored? r.lastSeenOn = .ok c.lastSeenOn := by
  unfold bareContact at h
  split at h
  · cases h
  · split at h
    · cases h
    · rename_i t ht
      split at h
      · cases h
      · rename_i t' ht'
        cases h
        exact ⟨rfl, ht, ht'⟩

/-- The values that were read of a contact, by key. -/
def fieldsOf (vs : List (ContactId × String × FieldValue)) (c : ContactId) :
    List (String × FieldValue) :=
  (vs.filter fun v => v.1 == c).map (·.2)

/-- Every value of the contact is read. -/
theorem exists_mem_fieldsOf {values : List ValueRow}
    {vs : List (ContactId × String × FieldValue)} (h : readValues values = .ok vs) {v : ValueRow}
    (hv : v ∈ values) : ∃ f ∈ fieldsOf vs v.contact, f.1 = v.key ∧ f.2.text = v.text ∧
      Instant.ofStored? v.datetime = .ok f.2.datetime := by
  obtain ⟨w, hw, hc, hread⟩ := forall₂_left (forall₂_readValues h) hv
  exact ⟨w.2, List.mem_map.2 ⟨w, List.mem_filter.2 ⟨hw, beq_iff_eq.2 hc⟩, rfl⟩, hread⟩

/-- What was read of a contact is stored. -/
theorem exists_stored_of_mem_fieldsOf {values : List ValueRow}
    {vs : List (ContactId × String × FieldValue)} (h : readValues values = .ok vs) {c : ContactId}
    {f : String × FieldValue} (hf : f ∈ fieldsOf vs c) : ∃ v ∈ values, v.contact = c ∧
      f.1 = v.key ∧ f.2.text = v.text ∧ Instant.ofStored? v.datetime = .ok f.2.datetime := by
  obtain ⟨w, hw, rfl⟩ := List.mem_map.1 hf
  obtain ⟨hw, hid⟩ := List.mem_filter.1 hw
  obtain ⟨v, hv, hc, hread⟩ := forall₂_right (forall₂_readValues h) hw
  exact ⟨v, hv, hc.symm.trans (beq_iff_eq.1 hid), hread⟩

/-- Looking a key up among the values that were read of a contact finds what is stored. -/
theorem field_of_values {db : Database} (hk : db.Keyed) {rows : List ContactRow}
    {values : List ValueRow} {vs : List (ContactId × String × FieldValue)}
    (hvalues : ∀ v, v ∈ values ↔ v ∈ db.values ∧ ∃ q ∈ rows, q.id = v.contact)
    (hvs : readValues values = .ok vs) {r : ContactRow} (hr : r ∈ rows) (key : String) :
    Instant.ofStored? (db.storedReference r (.field key)) = .ok
      (match (fieldsOf vs r.id).find? fun f => f.1 == key with
        | some f => f.2.datetime
        | none => none) := by
  simp only [storedReference]
  cases hfind : db.values.find? fun v => v.contact == r.id && v.key == key with
  | none =>
    have hnone : (fieldsOf vs r.id).find? (fun f => f.1 == key) = none := by
      refine List.find?_eq_none.2 fun f hf hkey => ?_
      obtain ⟨v, hv, hc, hvk, -⟩ := exists_stored_of_mem_fieldsOf hvs hf
      have := List.find?_eq_none.1 hfind v ((hvalues v).1 hv).1
      simp [hc, ← hvk, beq_iff_eq.1 hkey] at this
    rw [hnone]
    rfl
  | some u =>
    have hu := List.mem_of_find?_eq_some hfind
    have hmatch := List.find?_some hfind
    simp only [Bool.and_eq_true, beq_iff_eq] at hmatch
    obtain ⟨g, hg, hgk, -⟩ :=
      exists_mem_fieldsOf hvs ((hvalues u).2 ⟨hu, r, hr, hmatch.1.symm⟩)
    rw [hmatch.1] at hg
    cases hf : (fieldsOf vs r.id).find? (fun f => f.1 == key) with
    | none =>
      have := List.find?_eq_none.1 hf g hg
      simp [hgk, hmatch.2] at this
    | some f =>
      obtain ⟨v, hv, hvc, hvk, -, hvf⟩ :=
        exists_stored_of_mem_fieldsOf hvs (List.mem_of_find?_eq_some hf)
      have hfk : f.1 = key := by simpa using List.find?_some hf
      obtain rfl := hk.eq_of_key ((hvalues v).1 hv).1 hu (hvc.trans hmatch.1.symm)
        (hvk.symm.trans (hfk.trans hmatch.2.symm))
      exact hvf

theorem mem_groupsOf {db : Database} {x : ContactId} {g : GroupId} :
    g ∈ db.groupsOf x ↔ ⟨g, x⟩ ∈ db.members := by
  simp only [groupsOf, List.mem_mergeSort, List.mem_map, List.mem_filter, beq_iff_eq]
  constructor
  · rintro ⟨m, ⟨hm, rfl⟩, rfl⟩
    exact hm
  · exact fun hm => ⟨_, ⟨hm, rfl⟩, rfl⟩

/-- The rows that one query finds: active contacts of the org, by number. -/
def activeRows (db : Database) (org : OrgId) (ids : List ContactId) : List ContactRow :=
  (db.contacts.filter fun r => isActive org r && ids.contains r.id).mergeSort
    fun a b => decide (a.id ≤ b.id)

theorem mem_activeRows {db : Database} {org : OrgId} {ids : List ContactId} {r : ContactRow} :
    r ∈ db.activeRows org ids ↔ r ∈ db.contacts ∧ isActive org r = true ∧ r.id ∈ ids := by
  simp [activeRows, List.mem_mergeSort]

/-- Values are read contact by contact and key by key. -/
def valueBefore (a b : ValueRow) : Bool :=
  decide (a.contact < b.contact) || (a.contact == b.contact && decide (a.key ≤ b.key))

def valuesOf (db : Database) (rows : List ContactRow) : List ValueRow :=
  (db.values.filter fun v => rows.any fun r => r.id == v.contact).mergeSort valueBefore

theorem mem_valuesOf {db : Database} {rows : List ContactRow} {v : ValueRow} :
    v ∈ db.valuesOf rows ↔ v ∈ db.values ∧ ∃ r ∈ rows, r.id = v.contact := by
  simp [valuesOf, List.mem_mergeSort]

theorem loadPiece_eq_ok_iff {db : Database} {org : OrgId} {ids : List ContactId}
    {cs : List Contact} : db.loadPiece org ids = .ok cs ↔ ∃ bare vs,
      bareContacts (db.activeRows org ids) = .ok bare ∧
      readValues (db.valuesOf (db.activeRows org ids)) = .ok vs ∧
      cs = bare.map fun c => { c with groups := db.groupsOf c.id, fields := fieldsOf vs c.id } := by
  constructor
  · intro h
    unfold loadPiece at h
    simp only at h
    split at h
    · cases h
    · rename_i bare hbare
      split at h
      · cases h
      · rename_i vs hvs
        exact ⟨bare, vs, hbare, hvs, (Except.ok.inj h).symm⟩
  · rintro ⟨bare, vs, hbare, hvs, rfl⟩
    unfold loadPiece
    simp only
    split
    · rename_i hfails
      cases hfails.symm.trans hbare
    · rename_i found hfound
      obtain rfl := Except.ok.inj (hfound.symm.trans hbare)
      split
      · rename_i hfails
        cases hfails.symm.trans hvs
      · rename_i read hread
        obtain rfl := Except.ok.inj (hread.symm.trans hvs)
        rfl

theorem loadPieces_cons_eq_ok_iff {db : Database} {org : OrgId} {piece : List ContactId}
    {rest : List (List ContactId)} {cs : List Contact} :
    db.loadPieces org (piece :: rest) = .ok cs ↔
      (pieceTables.find? fun q => db.dropped.contains q.2) = none ∧ ∃ first more,
        db.loadPiece org piece = .ok first ∧ db.loadPieces org rest = .ok more ∧
        cs = first ++ more := by
  rw [loadPieces]
  cases pieceTables.find? fun q => db.dropped.contains q.2 with
  | some q => simp
  | none =>
    cases db.loadPiece org piece with
    | error e => simp
    | ok first =>
      cases db.loadPieces org rest with
      | error e => simp
      | ok more => simp [eq_comm]

/-- The contacts of a piece of work agree with what is stored, and none is left out. -/
def Covers (db : Database) (org : OrgId) (ids : List ContactId) (cs : List Contact) : Prop :=
  (∀ c ∈ cs, c.id ∈ ids ∧ db.Shows org c) ∧
    ∀ r ∈ db.contacts, isActive org r = true → r.id ∈ ids → ∃ c ∈ cs, c.id = r.id

theorem covers_of_loadPiece {db : Database} (hk : db.Keyed) {org : OrgId} {ids : List ContactId}
    {cs : List Contact} (h : db.loadPiece org ids = .ok cs) : db.Covers org ids cs := by
  obtain ⟨bare, vs, hbare, hvs, rfl⟩ := loadPiece_eq_ok_iff.1 h
  have hall := forall₂_bareContacts hbare
  constructor
  · intro c hc
    obtain ⟨b, hb, rfl⟩ := List.mem_map.1 hc
    obtain ⟨r, hr, hrb⟩ := forall₂_right hall hb
    obtain ⟨hid, hcreated, hseen⟩ := bareContact_of_ok hrb
    obtain ⟨hrdb, hactive, hrids⟩ := mem_activeRows.1 hr
    refine ⟨by simpa [hid] using hrids, r, hrdb, hid.symm, hactive, fun g => ?_, fun ref => ?_⟩
    · rw [Contact.inGroup, List.contains_iff_mem]
      exact mem_groupsOf
    · cases ref with
      | createdOn => simp [storedReference, Instant.ofStored?, hcreated, Contact.reference?]
      | lastSeenOn => exact hseen
      | field key =>
        have hfield := field_of_values hk (fun _ => mem_valuesOf) hvs hr key
        rw [hfield]
        simp only [Contact.reference?, Contact.field?, hid]
        split <;> simp only [*]
  · intro r hr hactive hid
    obtain ⟨b, hb, hrb⟩ := forall₂_left hall (mem_activeRows.2 ⟨hr, hactive, hid⟩)
    exact ⟨_, List.mem_map.2 ⟨b, hb, rfl⟩, (bareContact_of_ok hrb).1⟩

theorem Covers.append {db : Database} {org : OrgId} {ids ids' : List ContactId}
    {cs cs' : List Contact} (h : db.Covers org ids cs) (h' : db.Covers org ids' cs') :
    db.Covers org (ids ++ ids') (cs ++ cs') := by
  constructor
  · intro c hc
    rcases List.mem_append.1 hc with hc | hc
    · exact ⟨List.mem_append_left _ (h.1 c hc).1, (h.1 c hc).2⟩
    · exact ⟨List.mem_append_right _ (h'.1 c hc).1, (h'.1 c hc).2⟩
  · intro r hr hactive hid
    rcases List.mem_append.1 hid with hid | hid
    · obtain ⟨c, hc, hcr⟩ := h.2 r hr hactive hid
      exact ⟨c, List.mem_append_left _ hc, hcr⟩
    · obtain ⟨c, hc, hcr⟩ := h'.2 r hr hactive hid
      exact ⟨c, List.mem_append_right _ hc, hcr⟩

theorem covers_of_loadPieces {db : Database} (hk : db.Keyed) {org : OrgId}
    {pieces : List (List ContactId)} {cs : List Contact} (h : db.loadPieces org pieces = .ok cs) :
    db.Covers org pieces.flatten cs := by
  induction pieces generalizing cs with
  | nil =>
    cases h
    exact ⟨by simp, by simp⟩
  | cons piece rest ih =>
    obtain ⟨-, first, more, hfirst, hmore, rfl⟩ := loadPieces_cons_eq_ok_iff.1 h
    exact (covers_of_loadPiece hk hfirst).append (ih hmore)

theorem covers_of_loadContacts {db : Database} (hk : db.Keyed) {org : OrgId}
    {ids : List ContactId} {cs : List Contact} (h : db.loadContacts org ids = .ok cs) :
    db.Covers org ids cs := by
  unfold loadContacts at h
  split at h
  · cases h
  · rename_i cs' hcs
    cases h
    obtain ⟨hshows, hall⟩ := covers_of_loadPieces hk hcs
    rw [flatten_chunksOf] at hshows hall
    refine ⟨fun c hc => hshows c (List.mem_mergeSort.1 hc), fun r hr hactive hid => ?_⟩
    obtain ⟨c, hc, hcr⟩ := hall r hr hactive hid
    exact ⟨c, List.mem_mergeSort.2 hc, hcr⟩

/-- Reading succeeds if the tables are there and everything stored in them can be read. -/
theorem loadPieces_ok {db : Database} (ht : db.dropped = [])
    (hcontacts : ∀ r ∈ db.contacts, ∃ c, bareContact r = .ok c)
    (hvalues : ∀ v ∈ db.values, ∃ t, Instant.ofStored? v.datetime = .ok t) (org : OrgId)
    (pieces : List (List ContactId)) : ∃ cs, db.loadPieces org pieces = .ok cs := by
  induction pieces with
  | nil => exact ⟨[], rfl⟩
  | cons ids rest ih =>
    obtain ⟨more, hmore⟩ := ih
    obtain ⟨bare, hbare⟩ := bareContacts_ok fun r hr => hcontacts r (mem_activeRows.1 hr).1
    obtain ⟨vs, hvs⟩ := readValues_ok fun v hv => hvalues v (mem_valuesOf.1 hv).1
    exact ⟨_, loadPieces_cons_eq_ok_iff.2 ⟨by simp [ht], _, more,
      loadPiece_eq_ok_iff.2 ⟨bare, vs, hbare, hvs, rfl⟩, hmore, rfl⟩⟩

/-! ## Only contacts of the org -/

theorem org_of_isActive {org : OrgId} {r : ContactRow} (h : isActive org r = true) :
    r.org = org := by
  simp only [isActive, Bool.and_eq_true, beq_iff_eq] at h
  exact h.1

theorem exists_row_of_eligibleMembers {db : Database} {org : OrgId} {group : GroupId}
    {ref : Reference} {ms : List (ContactId × Option Instant)}
    (h : db.eligibleMembers org group ref = .ok ms) :
    ∀ m ∈ ms, ∃ r ∈ db.contacts, r.org = org ∧ r.id = m.1 := by
  intro m hm
  unfold eligibleMembers at h
  split at h
  · cases h
  · obtain ⟨r, hr, hid, -⟩ := forall₂_right (forall₂_readReferences h) hm
    obtain ⟨hr, hactive, -⟩ := mem_membersOf.1 hr
    exact ⟨r, hr, org_of_isActive hactive, hid⟩

theorem exists_row_of_loadPiece {db : Database} {org : OrgId} {ids : List ContactId}
    {cs : List Contact} (h : db.loadPiece org ids = .ok cs) :
    ∀ c ∈ cs, ∃ r ∈ db.contacts, r.org = org ∧ r.id = c.id := by
  obtain ⟨bare, vs, hbare, -, rfl⟩ := loadPiece_eq_ok_iff.1 h
  intro c hc
  obtain ⟨b, hb, rfl⟩ := List.mem_map.1 hc
  obtain ⟨r, hr, hrb⟩ := forall₂_right (forall₂_bareContacts hbare) hb
  obtain ⟨hr, hactive, -⟩ := mem_activeRows.1 hr
  exact ⟨r, hr, org_of_isActive hactive, (bareContact_of_ok hrb).1.symm⟩

theorem exists_row_of_loadPieces {db : Database} {org : OrgId} {pieces : List (List ContactId)}
    {cs : List Contact} (h : db.loadPieces org pieces = .ok cs) :
    ∀ c ∈ cs, ∃ r ∈ db.contacts, r.org = org ∧ r.id = c.id := by
  induction pieces generalizing cs with
  | nil => cases h; simp
  | cons piece rest ih =>
    obtain ⟨-, first, more, hfirst, hmore, rfl⟩ := loadPieces_cons_eq_ok_iff.1 h
    exact List.forall_mem_append.2 ⟨exists_row_of_loadPiece hfirst, ih hmore⟩

theorem exists_row_of_loadContacts {db : Database} {org : OrgId} {ids : List ContactId}
    {cs : List Contact} (h : db.loadContacts org ids = .ok cs) :
    ∀ c ∈ cs, ∃ r ∈ db.contacts, r.org = org ∧ r.id = c.id := by
  unfold loadContacts at h
  split at h
  · cases h
  · rename_i hcs
    cases h
    exact fun c hc => exists_row_of_loadPieces hcs c (List.mem_mergeSort.1 hc)

end Database
end Outreach
