import Mathlib.Data.List.Nodup
import Outreach.Proofs.Fire.Store

/-!
# Outreach.Proofs.Fire.Rows

Rows of the table of fires: what stays when the pending fires of some pairs are written anew, and
tables whose rows differ in their numbers alone.

* `withoutPending_of_le`, `withoutPending_insertFires`, `kept_filter` — fires of some pairs are
  deleted and added without touching any other row.
* `pendingCount_or`, `pendingCount_eq_of_kept`, `pendingCount_insertFires` — counting pending fires.
* `SameRows` — the same rows up to their numbers. `sameRows_of_pending` says when tables that agree
  outside some pairs have the same rows there too.
-/

namespace Outreach
namespace Database

variable {db db' : Database} {q q' : EventId → ContactId → Bool}

/-! ## What stays -/

theorem withoutPending_of_le (db : Database) (h : ∀ e x, q e x = true → q' e x = true) :
    (db.withoutPending q).withoutPending q' = db.withoutPending q' := by
  simp only [withoutPending, List.filter_filter]
  congr 2
  funext r
  have hr := h r.event r.contact
  cases hq : q r.event r.contact with
  | false => simp
  | true => simp [hr hq]

theorem withoutPending_insertFire {f : NewFire} (hf : q f.event f.contact = true)
    (db : Database) : (db.insertFire f).2.withoutPending q = db.withoutPending q := by
  unfold insertFire
  split
  · rfl
  · simp [withoutPending, FireRow.pending, hf]

theorem withoutPending_insertFires {fs : List NewFire}
    (hfs : ∀ f ∈ fs, q f.event f.contact = true) (db : Database) :
    (insertFires fs db).2.withoutPending q = db.withoutPending q := by
  induction fs generalizing db with
  | nil => rfl
  | cons f fs ih =>
    simp only [insertFires]
    rw [ih (fun g hg => hfs g (List.mem_cons_of_mem _ hg)),
      withoutPending_insertFire (hfs f List.mem_cons_self)]

theorem onlyFires_of_kept (h : db'.withoutPending q = db.withoutPending q) :
    db.OnlyFires db' := by
  have hdb : ∀ d : Database, d = { d.withoutPending q with fires := d.fires } := fun _ => rfl
  rw [OnlyFires, hdb db', h]
  rfl

/-- Rows that are kept stay so when others are deleted, whatever else the tables hold. -/
theorem kept_filter (h : db'.withoutPending q = db.withoutPending q) (keep : FireRow → Bool)
    (d : Database) :
    withoutPending { d with fires := db'.fires.filter keep } q =
      withoutPending { d with fires := db.fires.filter keep } q := by
  have hrows : (db'.withoutPending q).fires = (db.withoutPending q).fires := by rw [h]
  simp only [withoutPending] at hrows ⊢
  rw [List.filter_comm, hrows, List.filter_comm]

theorem pendingAt_of_kept (h : db'.withoutPending q = db.withoutPending q) {e : EventId}
    {x : ContactId} (hq : q e x = false) (text : String) :
    db'.PendingAt e x text ↔ db.PendingAt e x text := by
  have hd (d : Database) : (d.withoutPending q).PendingAt e x text ↔ d.PendingAt e x text := by
    simp [pendingAt_withoutPending, hq]
  rw [← hd db', h, hd db]

/-! ## Counting -/

theorem pendingCount_withoutPending (db : Database) (q : EventId → ContactId → Bool) :
    (db.withoutPending q).pendingCount q = 0 := by
  simp only [pendingCount, withoutPending, List.countP_filter, List.countP_eq_zero]
  simp

/-- Every fire that is added counts, since its pair had none. -/
theorem pendingCount_insertFires {fs : List NewFire}
    (hfs : ∀ f ∈ fs, q f.event f.contact = true) (db : Database) :
    (insertFires fs db).2.pendingCount q = db.pendingCount q + (insertFires fs db).1 := by
  induction fs generalizing db with
  | nil => rfl
  | cons f fs ih =>
    have hone : (db.insertFire f).2.pendingCount q = db.pendingCount q + (db.insertFire f).1 := by
      unfold insertFire
      split
      · rfl
      · simp [pendingCount, FireRow.pending, hfs f List.mem_cons_self]
    simp only [insertFires]
    rw [ih (fun g hg => hfs g (List.mem_cons_of_mem _ hg)), hone, Nat.add_assoc]

/-- Pairs that are not among the others keep their pending fires when those are taken away. -/
theorem pendingCount_withoutPending_of_disjoint (db : Database)
    (h : ∀ e x, q' e x = true → q e x = false) :
    (db.withoutPending q).pendingCount q' = db.pendingCount q' := by
  simp only [pendingCount, withoutPending, List.countP_filter]
  congr 1
  funext r
  have hr := h r.event r.contact
  cases hq : q' r.event r.contact with
  | false => simp
  | true => simp [hr hq]

theorem pendingCount_eq_of_kept (hk : db'.withoutPending q = db.withoutPending q)
    (h : ∀ e x, q' e x = true → q e x = false) : db'.pendingCount q' = db.pendingCount q' := by
  rw [← pendingCount_withoutPending_of_disjoint db' h, hk,
    pendingCount_withoutPending_of_disjoint db h]

theorem pendingCount_or (db : Database) (h : ∀ e x, q' e x = true → q e x = false) :
    db.pendingCount (fun e x => q e x || q' e x) = db.pendingCount q + db.pendingCount q' := by
  have hsum := countP_add_countP_rest db.fires (fun r => q r.event r.contact)
    fun r => q' r.event r.contact
  rw [← pendingCount_withoutPending_of_disjoint db h]
  exact hsum.symm

/-! ## One pending fire a pair -/

theorem mem_pendingOf {e : EventId} {x : ContactId} {r : FireRow} :
    r ∈ db.pendingOf e x ↔ r ∈ db.fires ∧ r.fired = none ∧ r.event = e ∧ r.contact = x := by
  simp [pendingOf, FireRow.pending, and_assoc]

theorem Coherent.pendingOf_eq (hc : db.Coherent) {e : EventId} {x : ContactId} {r : FireRow}
    (hr : r ∈ db.pendingOf e x) : db.pendingOf e x = [r] := by
  obtain ⟨s, hs⟩ := List.length_eq_one_iff.1
    (Nat.le_antisymm (hc.one e x) (List.length_pos_of_mem hr))
  rw [hs] at hr ⊢
  rw [List.mem_singleton.1 hr]

theorem Coherent.eq_of_pair (hc : db.Coherent) {r s : FireRow} (hr : r ∈ db.fires)
    (hs : s ∈ db.fires) (hrp : r.fired = none) (hsp : s.fired = none) (he : r.event = s.event)
    (hx : r.contact = s.contact) : r = s := by
  have hr' : r ∈ db.pendingOf s.event s.contact := mem_pendingOf.2 ⟨hr, hrp, he, hx⟩
  have hs' : s ∈ db.pendingOf s.event s.contact := mem_pendingOf.2 ⟨hs, hsp, rfl, rfl⟩
  rw [hc.pendingOf_eq hs'] at hr'
  exact List.mem_singleton.1 hr'

theorem Coherent.scheduled_pendingOf (hc : db.Coherent) {e : EventId} {x : ContactId}
    {text : String} (h : db.PendingAt e x text) :
    (db.pendingOf e x).map FireRow.scheduled = [text] := by
  obtain ⟨r, hr, hp, he, hx, rfl⟩ := h
  rw [hc.pendingOf_eq (mem_pendingOf.2 ⟨hr, hp, he, hx⟩)]
  rfl

theorem pendingOf_eq_nil_of_not_pendingAt {e : EventId} {x : ContactId}
    (h : ∀ text, ¬ db.PendingAt e x text) : db.pendingOf e x = [] := by
  refine List.eq_nil_iff_forall_not_mem.2 fun r hr => ?_
  obtain ⟨hr, hp, he, hx⟩ := mem_pendingOf.1 hr
  exact h _ ⟨r, hr, hp, he, hx, rfl⟩

end Database

/-! ## Rows up to their numbers -/

/-- The row without its number. -/
def FireRow.unnumbered (r : FireRow) : FireRow := { r with id := 0 }

namespace Database

variable {db db' : Database} {q : EventId → ContactId → Bool}

/-- The tables differ in nothing but the numbers of fires and the order in which they stand. -/
structure SameRows (db db' : Database) : Prop where
  only : db.OnlyFires db'
  rows : (db.fires.map FireRow.unnumbered).Perm (db'.fires.map FireRow.unnumbered)

/-- A pending fire is known but for its number by its pair and the time it is scheduled for. -/
theorem Coherent.mem_unnumbered_iff (hc : db.Coherent) (r : FireRow) :
    r ∈ (db.fires.filter fun r => r.pending && q r.event r.contact).map FireRow.unnumbered ↔
      q r.event r.contact = true ∧ db.PendingAt r.event r.contact r.scheduled ∧
        r = ⟨0, r.event, r.contact, r.scheduled, none, none⟩ := by
  simp only [List.mem_map, List.mem_filter, Bool.and_eq_true, FireRow.pending,
    Option.isNone_iff_eq_none]
  constructor
  · rintro ⟨s, ⟨hs, hp, hq⟩, rfl⟩
    refine ⟨hq, ⟨s, hs, hp, rfl, rfl, rfl⟩, ?_⟩
    simp [FireRow.unnumbered, hp, (hc.both s hs).1 hp]
  · rintro ⟨hq, ⟨s, hs, hp, he, hx, ht⟩, hr⟩
    refine ⟨s, ⟨hs, hp, by rw [he, hx]; exact hq⟩, ?_⟩
    rw [hr, ← he, ← hx, ← ht]
    simp [FireRow.unnumbered, hp, (hc.both s hs).1 hp]

theorem Coherent.nodup_unnumbered (hc : db.Coherent) :
    ((db.fires.filter fun r => r.pending && q r.event r.contact).map
      FireRow.unnumbered).Nodup := by
  refine List.Nodup.map_on (fun r hr s hs h => ?_) ((List.Nodup.of_map _ hc.ids).filter _)
  simp only [List.mem_filter, Bool.and_eq_true, FireRow.pending,
    Option.isNone_iff_eq_none] at hr hs
  simp only [FireRow.unnumbered, FireRow.mk.injEq] at h
  exact hc.eq_of_pair hr.1 hs.1 hr.2.1 hs.2.1 h.2.1 h.2.2.1

/-- Tables that agree but for the pending fires of some pairs, and have those at the same times,
have the same rows. -/
theorem sameRows_of_pending (hc : db.Coherent) (hc' : db'.Coherent)
    (hkept : db'.withoutPending q = db.withoutPending q)
    (hin : ∀ e x text, q e x = true → (db'.PendingAt e x text ↔ db.PendingAt e x text)) :
    db.SameRows db' := by
  refine ⟨onlyFires_of_kept hkept, ?_⟩
  have hsplit (d : Database) :
      ((d.fires.filter fun r => r.pending && q r.event r.contact).map FireRow.unnumbered ++
        (d.withoutPending q).fires.map FireRow.unnumbered).Perm
        (d.fires.map FireRow.unnumbered) := by
    rw [← List.map_append]
    exact (List.filter_append_perm _ d.fires).map _
  have hpending : ((db.fires.filter fun r => r.pending && q r.event r.contact).map
      FireRow.unnumbered).Perm
      ((db'.fires.filter fun r => r.pending && q r.event r.contact).map FireRow.unnumbered) := by
    refine (List.perm_ext_iff_of_nodup hc.nodup_unnumbered hc'.nodup_unnumbered).2 fun r => ?_
    rw [hc.mem_unnumbered_iff, hc'.mem_unnumbered_iff]
    exact and_congr_right fun hq => and_congr_left fun _ => (hin _ _ _ hq).symm
  refine (hsplit db).symm.trans (.trans ?_ (hsplit db'))
  rw [hkept]
  exact hpending.append_right _

theorem SameRows.pendingCount_eq (h : db.SameRows db') (q : EventId → ContactId → Bool) :
    db.pendingCount q = db'.pendingCount q := by
  have hd (d : Database) : d.pendingCount q =
      (d.fires.map FireRow.unnumbered).countP fun r => r.pending && q r.event r.contact := by
    rw [List.countP_map]
    rfl
  rw [hd db, hd db']
  exact h.rows.countP_eq _

end Database
end Outreach
