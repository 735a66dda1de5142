import Outreach.Database.Edit
import Outreach.Proofs.Reconcile

/-!
# Outreach.Proofs.Database.Edit

Which events an edit of contacts, members or values may make due or no longer due, and for whom.

* `Database.Orderly` — the rows fit together and can be read; the edits here keep it so.
* `Database.Touches` — an edit leaves fires alone, and what is due for all but some pairs.
-/

namespace Outreach

/-- The event is for the members of the group. -/
def Event.HomeIn (ev : Event) (g : GroupId) : Prop :=
  ∃ home, ev.home = some home ∧ home.group = g

namespace Database

/-- Members are contacts that exist, and all dates can be read. -/
structure Orderly (db : Database) : Prop extends db.Keyed where
  members : ∀ m ∈ db.members, ∃ r ∈ db.contacts, r.id = m.contact
  contactsRead : ∀ r ∈ db.contacts, ∃ c, bareContact r = .ok c
  valuesRead : ∀ v ∈ db.values, ∃ t, Instant.ofStored? v.datetime = .ok t

/-- Fires are left alone, and so is what is due for the pairs outside `T`. -/
structure Touches (org : OrgId) (z : Zone) (T : Event → ContactId → Prop) (db db' : Database) :
    Prop where
  fires : db'.fires = db.fires
  dropped : db'.dropped = db.dropped
  orderly : db'.Orderly
  due : ∀ ev x, ¬ T ev x → ∀ t, db'.Due org z ev x t ↔ db.Due org z ev x t

variable {db db' : Database} {org : OrgId} {z : Zone} {n : Nat}

theorem guarded_of_ok {ts : List TableName} {run : Edited}
    (h : db.guarded ts run = .ok (n, db')) : run = .ok (n, db') := by
  unfold guarded at h
  split at h
  · cases h
  · exact h

theorem due_congr {ev : Event} {x : ContactId}
    (hm : ∀ g, ev.HomeIn g → (⟨g, x⟩ ∈ db'.members ↔ ⟨g, x⟩ ∈ db.members))
    (hs : ∀ start, db'.Starts org ev.spec.relativeTo x start ↔
      db.Starts org ev.spec.relativeTo x start) (t : Instant) :
    db'.Due org z ev x t ↔ db.Due org z ev x t := by
  unfold Due
  simp only [hs]
  constructor
  · rintro ⟨home, hhome, hmember, h⟩
    exact ⟨home, hhome, (hm _ ⟨home, hhome, rfl⟩).1 hmember, h⟩
  · rintro ⟨home, hhome, hmember, h⟩
    exact ⟨home, hhome, (hm _ ⟨home, hhome, rfl⟩).2 hmember, h⟩

/-! ## Contacts -/

/-- Nothing is due for a new contact, since it is in no group. -/
theorem touches_addContact (hdb : db.Orderly) {r : ContactRow} (hr : ∃ c, bareContact r = .ok c)
    (h : db.addContact r = .ok (n, db')) : Touches org z (fun _ _ => False) db db' := by
  have hrun := guarded_of_ok h
  split at hrun
  · cases hrun
  · rename_i hnew
    cases hrun
    have hfresh : ∀ s ∈ db.contacts, s.id ≠ r.id := by
      intro s hs hid
      exact hnew (List.any_eq_true.2 ⟨s, hs, by simp [hid]⟩)
    refine ⟨rfl, rfl, ⟨⟨?_, hdb.values⟩, ?_, ?_, hdb.valuesRead⟩, fun ev x _ t => ?_⟩
    · rw [List.map_append, List.nodup_append]
      refine ⟨hdb.contacts, by simp, ?_⟩
      rintro a ha b hb rfl
      obtain ⟨s, hs, rfl⟩ := List.mem_map.1 ha
      exact hfresh s hs (List.mem_singleton.1 hb)
    · intro m hm
      obtain ⟨s, hs, hid⟩ := hdb.members m hm
      exact ⟨s, List.mem_append_left _ hs, hid⟩
    · intro s hs
      rcases List.mem_append.1 hs with hs | hs
      · exact hdb.contactsRead s hs
      · obtain rfl := List.mem_singleton.1 hs
        exact hr
    · constructor
      · rintro ⟨home, hhome, hmember, start, ⟨s, hs, rfl, hstart⟩, hdue⟩
        refine ⟨home, hhome, hmember, start, ⟨s, ?_, rfl, hstart⟩, hdue⟩
        rcases List.mem_append.1 hs with hs | hs
        · exact hs
        · obtain rfl := List.mem_singleton.1 hs
          obtain ⟨q, hq, hid⟩ := hdb.members _ hmember
          exact absurd hid (hfresh q hq)
      · rintro ⟨home, hhome, hmember, start, ⟨s, hs, rfl, hstart⟩, hdue⟩
        exact ⟨home, hhome, hmember, start, ⟨s, List.mem_append_left _ hs, rfl, hstart⟩, hdue⟩

/-- Contacts that keep their numbers have the dates of before, as far as these are unchanged. -/
theorem starts_map {g : ContactRow → ContactRow} (hid : ∀ r, (g r).id = r.id) {ref : Reference}
    {x : ContactId}
    (hg : ∀ r, r.id = x → isActive org (g r) = isActive org r ∧
      db.storedReference (g r) ref = db.storedReference r ref) (start : Instant) :
    Starts { db with contacts := db.contacts.map g } org ref x start ↔
      db.Starts org ref x start := by
  constructor
  · rintro ⟨s, hs, hsx, hactive, hstart⟩
    obtain ⟨r, hr, rfl⟩ := List.mem_map.1 hs
    have hrx : r.id = x := (hid r).symm.trans hsx
    obtain ⟨ha, hs⟩ := hg r hrx
    exact ⟨r, hr, hrx, ha ▸ hactive, hs ▸ hstart⟩
  · rintro ⟨r, hr, hrx, hactive, hstart⟩
    obtain ⟨ha, hs⟩ := hg r hrx
    refine ⟨g r, List.mem_map_of_mem hr, (hid r).trans hrx, ha.trans hactive, ?_⟩
    exact (congrArg _ hs).trans hstart

theorem Orderly.map (hdb : db.Orderly) {g : ContactRow → ContactRow}
    (hid : ∀ r, (g r).id = r.id)
    (hread : ∀ r, (∃ c, bareContact r = .ok c) → ∃ c, bareContact (g r) = .ok c) :
    Orderly { db with contacts := db.contacts.map g } := by
  refine ⟨⟨?_, hdb.values⟩, ?_, ?_, hdb.valuesRead⟩
  · have hids : (db.contacts.map g).map ContactRow.id = db.contacts.map ContactRow.id := by
      rw [List.map_map]
      exact List.map_congr_left fun r _ => hid r
    rw [hids]
    exact hdb.contacts
  · intro m hm
    obtain ⟨r, hr, hrm⟩ := hdb.members m hm
    exact ⟨g r, List.mem_map_of_mem hr, (hid r).trans hrm⟩
  · intro s hs
    obtain ⟨r, hr, rfl⟩ := List.mem_map.1 hs
    exact hread r (hdb.contactsRead r hr)

/-- An edit of one contact touches at most what is due for this one. -/
theorem touches_changeContact (hdb : db.Orderly) {c : ContactId} {f : ContactRow → ContactRow}
    (hid : ∀ r, (f r).id = r.id)
    (hread : ∀ r, (∃ c, bareContact r = .ok c) → ∃ c, bareContact (f r) = .ok c)
    {P : Event → Prop}
    (hP : ∀ ev, ¬ P ev → ∀ r, isActive org (f r) = isActive org r ∧
      db.storedReference (f r) ev.spec.relativeTo = db.storedReference r ev.spec.relativeTo)
    (h : db.changeContact c f = .ok (n, db')) :
    Touches org z (fun ev x => P ev ∧ x = c) db db' := by
  have hrun := guarded_of_ok h
  cases hrun
  have hid' : ∀ r, (if r.id = c then f r else r).id = r.id := by
    intro r
    split
    · exact hid r
    · rfl
  refine ⟨rfl, rfl, hdb.map hid' fun r hr => ?_, fun ev x hx => ?_⟩
  · split
    · exact hread r hr
    · exact hr
  · refine due_congr (fun _ _ => Iff.rfl) (starts_map hid' fun r hrx => ?_)
    split
    · rename_i hrc
      exact hP ev (fun hev => hx ⟨hev, hrx.symm.trans hrc⟩) r
    · exact ⟨rfl, rfl⟩

theorem touches_setSeen (hdb : db.Orderly) {c : ContactId} {text : Option String}
    (htext : ∃ t, Instant.ofStored? text = .ok t) (h : db.setSeen c text = .ok (n, db')) :
    Touches org z (fun ev x => ev.spec.relativeTo.key = "last_seen_on" ∧ x = c) db db' := by
  refine touches_changeContact (f := fun r => { r with lastSeenOn := text }) hdb (fun _ => rfl)
    (fun r hr => ?_) (fun ev hev r => ⟨rfl, ?_⟩) h
  · obtain ⟨t, ht⟩ := htext
    obtain ⟨b, hb⟩ := hr
    unfold bareContact at hb ⊢
    split at hb
    · cases hb
    · rename_i uuid huuid
      split at hb
      · cases hb
      · rename_i created hcreated
        simp only [huuid, hcreated, ht, Except.ok.injEq, exists_eq']
  · cases href : ev.spec.relativeTo with
    | createdOn => rfl
    | lastSeenOn => exact absurd (congrArg Reference.key href) hev
    | field key => rfl

theorem touches_setActive (hdb : db.Orderly) {c : ContactId} {active : Bool}
    (h : db.setActive c active = .ok (n, db')) : Touches org z (fun _ x => x = c) db db' := by
  have ht : Touches org z (fun _ x => True ∧ x = c) db db' :=
    touches_changeContact (f := fun r => { r with active }) hdb (fun _ => rfl) (fun _ hr => hr)
      (fun _ hev => absurd trivial hev) h
  exact ⟨ht.fires, ht.dropped, ht.orderly, fun ev x hx => ht.due ev x fun hT => hx hT.2⟩

/-- Nothing is due for a contact that is not active. -/
theorem not_due_of_setActive {c : ContactId} (h : db.setActive c false = .ok (n, db'))
    (ev : Event) (t : Instant) : ¬ db'.Due org z ev c t := by
  have hrun := guarded_of_ok h
  cases hrun
  intro hdue
  obtain ⟨s, hs, hactive, hid⟩ := hdue.exists_contact
  obtain ⟨r, hr, rfl⟩ := List.mem_map.1 hs
  by_cases hrc : r.id = c
  · simp [hrc, isActive] at hactive
  · rw [if_neg hrc] at hid
    exact hrc hid

/-! ## Members -/

theorem touches_addMember (hdb : db.Orderly) {g : GroupId} {c : ContactId}
    (h : db.addMember ⟨g, c⟩ = .ok (n, db')) :
    Touches org z (fun ev x => ev.HomeIn g ∧ x = c) db db' := by
  have hrun := guarded_of_ok h
  split at hrun
  · cases hrun
  · split at hrun
    · rename_i hknown
      cases hrun
      refine ⟨rfl, rfl, ⟨⟨hdb.contacts, hdb.values⟩, ?_, hdb.contactsRead, hdb.valuesRead⟩,
        fun ev x hx => ?_⟩
      · intro m hm
        rcases List.mem_append.1 hm with hm | hm
        · exact hdb.members m hm
        · obtain rfl := List.mem_singleton.1 hm
          obtain ⟨r, hr, hid⟩ := List.any_eq_true.1 hknown
          exact ⟨r, hr, beq_iff_eq.1 hid⟩
      · refine due_congr (fun g' hg' => ?_) fun _ => Iff.rfl
        rw [List.mem_append, List.mem_singleton, or_iff_left]
        rintro ⟨rfl, rfl⟩
        exact hx ⟨hg', rfl⟩
    · cases hrun

theorem touches_deleteMember (hdb : db.Orderly) {g : GroupId} {c : ContactId}
    (h : db.deleteMember ⟨g, c⟩ = .ok (n, db')) :
    Touches org z (fun ev x => ev.HomeIn g ∧ x = c) db db' := by
  have hrun := guarded_of_ok h
  cases hrun
  refine ⟨rfl, rfl, ⟨⟨hdb.contacts, hdb.values⟩, ?_, hdb.contactsRead, hdb.valuesRead⟩,
    fun ev x hx => ?_⟩
  · exact fun m hm => hdb.members m (List.mem_of_mem_filter hm)
  · refine due_congr (fun g' hg' => ?_) fun _ => Iff.rfl
    rw [List.mem_filter, and_iff_left_iff_imp]
    rintro -
    rw [bne_iff_ne]
    rintro ⟨rfl, rfl⟩
    exact hx ⟨hg', rfl⟩

/-- Who has left a group has none of its events. -/
theorem not_due_of_deleteMember {g : GroupId} {c : ContactId}
    (h : db.deleteMember ⟨g, c⟩ = .ok (n, db')) {ev : Event} (hev : ev.HomeIn g) (t : Instant) :
    ¬ db'.Due org z ev c t := by
  have hrun := guarded_of_ok h
  cases hrun
  rintro ⟨home, hhome, hmember, -⟩
  obtain ⟨home', hhome', rfl⟩ := hev
  rw [hhome] at hhome'
  cases hhome'
  simp at hmember

/-! ## Values -/

/-- A value that is set leaves what other contacts have, and what is under other keys. -/
theorem storedReference_setValue (db : Database) {v : ValueRow} {r : ContactRow} {ref : Reference}
    (h : ¬ (ref.key = v.key ∧ r.id = v.contact)) :
    storedReference { db with values := (db.values.filter fun u =>
      !(u.contact == v.contact && u.key == v.key)) ++ [v] } r ref = db.storedReference r ref := by
  cases ref with
  | createdOn => rfl
  | lastSeenOn => rfl
  | field key =>
    have hother : ¬ (v.contact = r.id ∧ v.key = key) := fun hv => h ⟨hv.2.symm, hv.1.symm⟩
    have hfind : ((db.values.filter fun u =>
          !(u.contact == v.contact && u.key == v.key)) ++ [v]).find?
          (fun u => u.contact == r.id && u.key == key) =
        db.values.find? fun u => u.contact == r.id && u.key == key := by
      rw [List.find?_append, List.find?_filter, List.find?_cons_of_neg (by simpa using hother),
        List.find?_nil, Option.or_none]
      congr 1
      funext u
      by_cases hu : u.contact = r.id ∧ u.key = key
      · obtain ⟨hc, hk⟩ := hu
        have hv : r.id = v.contact → ¬ key = v.key := fun hc hk => hother ⟨hc.symm, hk.symm⟩
        simpa [hc, hk, ← imp_iff_not_or] using hv
      · have hnot : (u.contact == r.id && u.key == key) = false := by simpa using hu
        simp [hnot]
    unfold storedReference
    simp only [hfind]

theorem touches_setValue (hdb : db.Orderly) {v : ValueRow}
    (hv : ∃ t, Instant.ofStored? v.datetime = .ok t) (h : db.setValue v = .ok (n, db')) :
    Touches org z (fun ev x => ev.spec.relativeTo.key = v.key ∧ x = v.contact) db db' := by
  have hrun := guarded_of_ok h
  split at hrun
  · cases hrun
    refine ⟨rfl, rfl, ⟨⟨hdb.contacts, ?_⟩, hdb.members, hdb.contactsRead, ?_⟩,
      fun ev x hx => due_congr (fun _ _ => Iff.rfl) fun start => ?_⟩
    · rw [List.map_append, List.nodup_append]
      refine ⟨hdb.values.sublist (List.filter_sublist.map _), by simp, ?_⟩
      rintro a ha b hb rfl
      obtain ⟨u, hu, rfl⟩ := List.mem_map.1 ha
      have hne := (List.mem_filter.1 hu).2
      simp at hb
      simp [hb] at hne
    · intro u hu
      rcases List.mem_append.1 hu with hu | hu
      · exact hdb.valuesRead u (List.mem_of_mem_filter hu)
      · obtain rfl := List.mem_singleton.1 hu
        exact hv
    · have hstored {r : ContactRow} (hr : r.id = x) := storedReference_setValue db
        fun hT : ev.spec.relativeTo.key = v.key ∧ r.id = v.contact =>
          hx ⟨hT.1, hr.symm.trans hT.2⟩
      constructor
      · rintro ⟨r, hr, hrx, hactive, hstart⟩
        exact ⟨r, hr, hrx, hactive, hstored hrx ▸ hstart⟩
      · rintro ⟨r, hr, hrx, hactive, hstart⟩
        exact ⟨r, hr, hrx, hactive, (hstored hrx).symm ▸ hstart⟩
  · cases hrun

end Database
end Outreach
