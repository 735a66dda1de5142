import Outreach.Proofs.Reconcile.Success

/-!
# Outreach.Proofs.Reconcile.Synced

When the pending fires are the right ones, and how they stay so.

* `Database.Synced` — pending fires stand for what is due, and none that is still to come lacks.
* `Database.Mends` — a reconciliation puts right what an edit may have made wrong.
* `Database.Synced.mended`, `Database.Synced.marked` — an edit with a reconciliation that mends
  it keeps the fires right, and so does marking fires that are due.
* `Database.Synced.recomputed` — right fires are what is computed from none at all.
-/

namespace Outreach
namespace Database

/-- A pending fire stands for an event that is due then, past or not, and whatever is due later
than now has a pending fire. -/
structure Synced (org : OrgId) (z : Zone) (evs : List Event) (now : Instant) (db : Database) :
    Prop where
  sound : ∀ e x text, db.PendingAt e x text →
    ∃ ev ∈ evs, ev.id = e ∧ ∃ t, db.Due org z ev x t ∧ t.toStored = text
  complete : ∀ ev ∈ evs, ∀ x t, db.Due org z ev x t → now < t →
    db.PendingAt ev.id x t.toStored

/-- The pending fires of the pairs of `T` are as they have to be now, and those of the others are
so or untouched. -/
structure Mends (org : OrgId) (z : Zone) (evs : List Event) (now : Instant)
    (T : Event → ContactId → Prop) (db db' : Database) : Prop where
  only : db.OnlyFires db'
  sound : ∀ e x text, db'.PendingAt e x text →
    (∃ ev ∈ evs, ev.id = e ∧ ∃ t, db.Due org z ev x t ∧ t.toStored = text) ∨
      (db.PendingAt e x text ∧ ∀ ev ∈ evs, ev.id = e → ¬ T ev x)
  complete : ∀ ev ∈ evs, ∀ x t, db.Due org z ev x t → now < t →
    db'.PendingAt ev.id x t.toStored ∨
      (¬ T ev x ∧ (db.PendingAt ev.id x t.toStored → db'.PendingAt ev.id x t.toStored))

variable {db db' db'' : Database} {org : OrgId} {z : Zone} {evs evs' : List Event}
  {now later : Instant} {T : Event → ContactId → Prop}

/-- Where nothing may be wrong there is nothing to mend. -/
theorem Mends.refl (db : Database) (hT : ∀ ev x, ¬ T ev x) : Mends org z evs now T db db :=
  ⟨.refl db, fun _ x _ h => .inr ⟨h, fun ev _ _ => hT ev x⟩,
    fun ev _ x _ _ _ => .inr ⟨hT ev x, id⟩⟩

theorem mem_of_id (hids : (evs.map Event.id).Nodup) (hsub : evs'.Sublist evs) {ev : Event}
    (hev : ev ∈ evs) (h : ev.id ∈ evs'.map Event.id) : ev ∈ evs' := by
  obtain ⟨ev', hev', hid⟩ := List.mem_map.1 h
  obtain rfl := List.inj_on_of_nodup_map hids (hsub.subset hev') hev hid
  exact hev'

/-- Computing pairs anew mends those among them, if it leaves no event out that is due. -/
theorem Redone.mends {S : EventId → ContactId → Prop} (h : Redone org z now evs' S db db')
    (hids : (evs.map Event.id).Nodup) (hsub : evs'.Sublist evs)
    (hTS : ∀ ev ∈ evs, ∀ x, T ev x → S ev.id x)
    (hdue : ∀ ev ∈ evs, ∀ x t, S ev.id x → db.Due org z ev x t → ev ∈ evs') :
    Mends org z evs now T db db' := by
  refine ⟨h.only, fun e x text hp => ?_, fun ev hev x t hd hnow => ?_⟩
  · by_cases hS : S e x
    · obtain ⟨t, hpick, htext⟩ := (h.inside e x text hS).1 hp
      obtain ⟨ev, hev, hid, hd, -⟩ := hpick.exists_due
      exact .inl ⟨ev, hsub.subset hev, hid, t, hd, htext⟩
    · refine .inr ⟨(h.outside e x text hS).1 hp, ?_⟩
      rintro ev hev rfl hT
      exact hS (hTS ev hev x hT)
  · by_cases hS : S ev.id x
    · have hev' := hdue ev hev x t hS hd
      have hpick := (picks_iff (hids.sublist (hsub.map _))).2 ⟨ev, hev', rfl, hd, hnow⟩
      exact .inl ((h.inside ev.id x _ hS).2 ⟨t, hpick, rfl⟩)
    · exact .inr ⟨fun hT => hS (hTS ev hev x hT), (h.outside ev.id x _ hS).2⟩

/-! ## Staying right -/

theorem Touches.pendingAt (h : Touches org z T db db') (e : EventId) (x : ContactId)
    (text : String) : db'.PendingAt e x text ↔ db.PendingAt e x text := by
  unfold PendingAt
  rw [h.fires]

theorem Touches.refl (hdb : db.Orderly) : Touches org z T db db :=
  ⟨rfl, rfl, hdb, fun _ _ _ _ => Iff.rfl⟩

/-- What an edit makes wrong is put right by a reconciliation that mends the pairs it touches. -/
theorem Synced.mended (hs : Synced org z evs now db) (ht : Touches org z T db db')
    (hm : Mends org z evs later T db' db'') (hle : now ≤ later) :
    Synced org z evs later db'' := by
  have hdue (ev : Event) (x : ContactId) (t : Instant) :
      db''.Due org z ev x t ↔ db'.Due org z ev x t := hm.only.due_iff ev x t
  refine ⟨fun e x text hp => ?_, fun ev hev x t hd hnow => ?_⟩
  · rcases hm.sound e x text hp with ⟨ev, hev, hid, t, hd, htext⟩ | ⟨hp', hT⟩
    · exact ⟨ev, hev, hid, t, (hdue ev x t).2 hd, htext⟩
    · obtain ⟨ev, hev, hid, t, hd, htext⟩ := hs.sound e x text ((ht.pendingAt e x text).1 hp')
      exact ⟨ev, hev, hid, t, (hdue ev x t).2 ((ht.due ev x (hT ev hev hid) t).2 hd), htext⟩
  · have hd' := (hdue ev x t).1 hd
    rcases hm.complete ev hev x t hd' hnow with hp | ⟨hT, hkeeps⟩
    · exact hp
    · refine hkeeps ((ht.pendingAt _ _ _).2 ?_)
      exact hs.complete ev hev x t ((ht.due ev x hT t).1 hd') (Moment.lt_of_le_of_lt hle hnow)

/-- Fires that are due can be marked. What is still to come keeps its fire, whose stored time is
greater than now as a text. -/
theorem Synced.marked (hs : Synced org z evs now db) (hc : db.Coherent)
    (hdef : db.Definite org z evs) (hle : now ≤ later) (hlater : later.WellFormed) {limit : Int}
    {fs : List Fire} (hdue : db.dueFires later limit = .ok fs) {ids : List FireId}
    (hids : ∀ i ∈ ids, ∃ f ∈ fs, f.id = i) {t : Instant} {result : FireResult} {n : Nat}
    (hmark : markFires ids t result db = (.ok n, db')) : Synced org z evs later db' := by
  obtain rfl := markFires_of_ok hmark
  refine ⟨?_, fun ev hev x u hd hnow => ?_⟩
  · rintro e x text ⟨q, hq, hpending, he, hx, htext⟩
    obtain ⟨r, hr, rfl⟩ := List.mem_map.1 hq
    have hsame := pending_of_markRow hpending
    rw [hsame] at hpending he hx htext
    exact hs.sound e x text ⟨r, hr, hpending, he, hx, htext⟩
  · obtain ⟨r, hr, hpending, he, hx, htext⟩ :=
      hs.complete ev hev x u hd (Moment.lt_of_le_of_lt hle hnow)
    have hnot : r.id ∉ ids := by
      intro hi
      obtain ⟨f, hf, hfr⟩ := hids r.id hi
      obtain ⟨q, hq, hqf, hover⟩ := exists_row_of_dueFires hdue hf
      obtain rfl := hc.eq_of_id hq hr ((Fire.of_ofRow hqf).1.trans hfr)
      rw [htext] at hover
      exact hover (Instant.toStored_lt hlater hd.nanos (hd.fourDigitYear hdef hev) hnow)
    refine ⟨r, List.mem_map.2 ⟨r, hr, ?_⟩, hpending, he, hx, htext⟩
    simp [markRow, hnot]

/-! ## Computing all from nothing -/

/-- The pending fires that are still to come are those that computing all events anew for all
contacts gives where there are no fires. -/
theorem Synced.recomputed (hs : Synced org z evs now db) (hids : (evs.map Event.id).Nodup)
    (hdb : db.Orderly) (hdef : db.Definite org z evs) {contacts : List ContactId}
    (hall : ∀ r ∈ db.contacts, r.id ∈ contacts) {batch : Nat} {c : Connection} {tally : Tally}
    (h : Connection.recompute batch org z evs contacts now { db := { db with fires := [] } } =
      (.ok tally, c)) (e : EventId) (x : ContactId) (text : String) :
    c.db.PendingAt e x text ↔
      db.PendingAt e x text ∧ ∃ t, Instant.ofStored text = .ok t ∧ now < t := by
  have honly : db.OnlyFires { db with fires := [] } := rfl
  have hdone := Connection.redone_recompute (honly.keyed hdb.toKeyed) h
  have hread {ev : Event} (hev : ev ∈ evs) {t : Instant} (hd : db.Due org z ev x t) :
      Instant.ofStored t.toStored = .ok t :=
    Instant.ofStored_toStored hd.nanos (hd.fourDigitYear hdef hev)
  constructor
  · intro hp
    by_cases hT : e ∈ evs.map Event.id ∧ x ∈ contacts
    · obtain ⟨t, hpick, rfl⟩ := (hdone.inside e x text hT).1 hp
      obtain ⟨ev, hev, rfl, hd, hnow⟩ := hpick.exists_due
      exact ⟨hs.complete ev hev x t hd hnow, t, hread hev hd, hnow⟩
    · obtain ⟨r, hr, -⟩ := (hdone.outside e x text hT).1 hp
      cases hr
  · rintro ⟨hp, u, hu, hnow⟩
    obtain ⟨ev, hev, rfl, t, hd, rfl⟩ := hs.sound e x text hp
    obtain rfl := Except.ok.inj ((hread hev hd).symm.trans hu)
    obtain ⟨r, hr, -, hid⟩ := hd.exists_contact
    refine (hdone.inside ev.id x _ ⟨List.mem_map_of_mem hev, hid ▸ hall r hr⟩).2 ⟨t, ?_, rfl⟩
    exact (picks_iff hids).2 ⟨ev, hev, rfl, hd, hnow⟩

end Database
end Outreach
