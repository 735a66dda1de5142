import Outreach.Proofs.Database.Edit
import Outreach.Proofs.Reconcile.Effect
import Outreach.Proofs.Time.Stored

/-!
# Outreach.Proofs.Reconcile.Success

When computing fires anew for contacts succeeds.

* `Database.Definite` — no event fails to have a time for a date that a contact has.
* `Connection.recompute_ok` — with that, orderly rows and all tables there, it does.
* `Connection.unhindered_recompute` — whether it does never hangs on the fires that are there.
-/

namespace Outreach
namespace Database

/-- The events have a time for every date that an active contact has, in a year of four digits. -/
def Definite (db : Database) (org : OrgId) (z : Zone) (evs : List Event) : Prop :=
  ∀ ev ∈ evs, ∀ x start, db.Starts org ev.spec.relativeTo x start →
    ∃ t, ev.spec.dueTime z start = .ok t ∧ t.FourDigitYear

variable {db db' : Database} {org : OrgId} {z : Zone}

theorem Due.fourDigitYear {ev : Event} {x : ContactId} {t : Instant} (h : db.Due org z ev x t)
    {evs : List Event} (hd : db.Definite org z evs) (hev : ev ∈ evs) : t.FourDigitYear := by
  obtain ⟨-, -, -, start, hstart, hdue⟩ := h
  obtain ⟨u, hu, hy⟩ := hd ev hev x start hstart
  rw [hdue] at hu
  cases hu
  exact hy

theorem OnlyFires.orderly (h : db.OnlyFires db') (hdb : db.Orderly) : db'.Orderly := by
  rw [h]
  exact ⟨⟨hdb.contacts, hdb.values⟩, hdb.members, hdb.contactsRead, hdb.valuesRead⟩

theorem OnlyFires.definite (h : db.OnlyFires db') {evs : List Event}
    (hd : db.Definite org z evs) : db'.Definite org z evs := by
  rw [h]
  exact hd

/-! ## Reading contacts -/

theorem loadContacts_ok (hdb : db.Orderly) (ht : db.dropped = []) (org : OrgId)
    (ids : List ContactId) : ∃ cs, db.loadContacts org ids = .ok cs := by
  obtain ⟨cs, hcs⟩ :=
    loadPieces_ok ht hdb.contactsRead hdb.valuesRead org (chunksOf idsPerQuery ids)
  exact ⟨_, by rw [loadContacts, hcs]⟩

theorem loadPieces_of_onlyFires (h : db.OnlyFires db') (org : OrgId)
    (pieces : List (List ContactId)) : db'.loadPieces org pieces = db.loadPieces org pieces := by
  rw [h]
  induction pieces with
  | nil => rfl
  | cons ids rest ih =>
    simp only [loadPieces, ih]
    rfl

theorem loadContacts_of_onlyFires (h : db.OnlyFires db') (org : OrgId) (ids : List ContactId) :
    db'.loadContacts org ids = db.loadContacts org ids := by
  rw [loadContacts, loadContacts, loadPieces_of_onlyFires h]

/-! ## Computing fires -/

theorem fireFor_ok (now : Instant) (hk : db.Keyed) {evs : List Event}
    (hd : db.Definite org z evs) {ev : Event} (hev : ev ∈ evs) {c : Contact}
    (hc : db.Shows org c) :
    ∃ fire, ev.fireFor z now c = .ok fire := by
  unfold Event.fireFor
  split
  · exact ⟨none, rfl⟩
  · split
    · split
      · exact ⟨none, rfl⟩
      · rename_i start hstart
        obtain ⟨t, ht, -⟩ := hd ev hev c.id start ((hc.starts_iff hk _ _).2 hstart)
        exact (EventSpec.fireTime_ok_iff _ z now start).2 ⟨t, ht⟩
    · exact ⟨none, rfl⟩

theorem firesOf_ok (now : Instant) (hk : db.Keyed) {evs : List Event}
    (hd : db.Definite org z evs) {c : Contact} (hc : db.Shows org c) :
    ∃ fs, firesOf z now c evs = .ok fs := by
  induction evs with
  | nil => exact ⟨[], rfl⟩
  | cons ev evs ih =>
    obtain ⟨fire, hfire⟩ := fireFor_ok now hk hd List.mem_cons_self hc
    obtain ⟨fires, hfires⟩ := ih fun ev hev => hd ev (List.mem_cons_of_mem _ hev)
    unfold firesOf
    simp only [hfire, hfires]
    split <;> exact ⟨_, rfl⟩

theorem firesOfAll_ok (now : Instant) (hk : db.Keyed) {evs : List Event}
    (hd : db.Definite org z evs) {cs : List Contact} (hcs : ∀ c ∈ cs, db.Shows org c) :
    ∃ fs, firesOfAll z now evs cs = .ok fs := by
  induction cs with
  | nil => exact ⟨[], rfl⟩
  | cons c cs ih =>
    obtain ⟨fires, hfires⟩ := firesOf_ok now hk hd (hcs c List.mem_cons_self)
    obtain ⟨more, hmore⟩ := ih fun c hc => hcs c (List.mem_cons_of_mem _ hc)
    exact ⟨fires ++ more, by simp only [firesOfAll, hfires, hmore]⟩

end Database

/-! ## On a connection -/

namespace Connection

/-- Nothing stands in the way of computing fires. -/
structure Ready (org : OrgId) (z : Zone) (evs : List Event) (c : Connection) : Prop where
  tables : c.db.dropped = []
  refusal : c.refusal = 0
  orderly : c.db.Orderly
  definite : c.db.Definite org z evs

variable {org : OrgId} {z : Zone} {evs : List Event} {now : Instant} {c c' : Connection}

theorem Ready.onlyFires (hc : c.Ready org z evs) (h : c.db.OnlyFires c'.db)
    (hr : c'.refusal = 0) : c'.Ready org z evs := by
  refine ⟨?_, hr, h.orderly hc.orderly, h.definite hc.definite⟩
  rw [h]
  exact hc.tables

theorem perform_delete_ok_iff {pairs : List (EventId × ContactId)} {n : Nat} :
    c.perform (.delete pairs) = (.ok n, c') ↔ (Database.deletePending pairs c.db).1 = .ok n ∧
      c' = { c with db := (Database.deletePending pairs c.db).2 } := by
  cases h : (Database.deletePending pairs c.db).1 <;>
    simp [perform, write, alter, onTables, h, eq_comm]

theorem perform_add_ok_iff {fs : List NewFire} {n : Nat} :
    c.perform (.add fs) = (.ok n, c') ↔ c.refusal ≠ 1 ∧ (Database.addFires fs c.db).1 = .ok n ∧
      c' = { c with db := (Database.addFires fs c.db).2, refusal := c.refusal - 1 } := by
  cases h : (Database.addFires fs c.db).1 <;> by_cases hr : c.refusal = 1 <;>
    simp [perform, write, addFires, onTables, h, hr, eq_comm]

theorem perform_delete_ok (hc : c.Ready org z evs) (pairs : List (EventId × ContactId)) :
    ∃ n c', c.perform (.delete pairs) = (.ok n, c') ∧ c'.Ready org z evs := by
  have hn := congrArg Prod.fst
    (Database.deletePending_eq pairs (Database.lacking?_eq_none hc.tables _))
  have hw := perform_delete_ok_iff.2 ⟨hn, rfl⟩
  exact ⟨_, _, hw, hc.onlyFires (frame_perform hw).db hc.refusal⟩

theorem perform_add_ok (hc : c.Ready org z evs) {fs : List NewFire}
    (hfs : ∀ f ∈ fs, c.db.hasContact f.contact = true) :
    ∃ n c', c.perform (.add fs) = (.ok n, c') ∧ c'.Ready org z evs := by
  obtain ⟨n, hn⟩ := Database.addFires_ok (Database.lacking?_eq_none hc.tables _) hfs
  have hw := perform_add_ok_iff.2 ⟨by simp [hc.refusal], hn, rfl⟩
  exact ⟨n, _, hw, hc.onlyFires (frame_perform hw).db (by simp [hc.refusal])⟩

theorem recomputeBatch_ok (now : Instant) (hc : c.Ready org z evs) (cs : List ContactId) :
    ∃ tally c', recomputeBatch org z evs now cs c = (.ok tally, c') ∧ c'.Ready org z evs := by
  obtain ⟨deleted, c₁, hdelete, hc₁⟩ := perform_delete_ok hc (pairsOf (evs.map Event.id) cs)
  obtain ⟨contacts, hload⟩ := Database.loadContacts_ok hc₁.orderly hc₁.tables org cs
  have hshows := (Database.covers_of_loadContacts hc₁.orderly.toKeyed hload).1
  obtain ⟨fs, hfs⟩ := Database.firesOfAll_ok now hc₁.orderly.toKeyed hc₁.definite
    fun c hc => (hshows c hc).2
  have hknown : ∀ f ∈ fs, c₁.db.hasContact f.contact = true := by
    intro f hf
    obtain ⟨⟨c, hc, hfc⟩, -⟩ := Database.firesOfAll_pairs hfs f hf
    obtain ⟨-, r, hr, hid, -⟩ := hshows c hc
    exact List.any_eq_true.2 ⟨r, hr, beq_iff_eq.2 (hid.trans hfc.symm)⟩
  obtain ⟨n, c₂, hadd, hc₂⟩ := perform_add_ok hc₁ hknown
  refine ⟨⟨deleted, n⟩, c₂, ?_, hc₂⟩
  simp only [recomputeBatch, hdelete, hload, schedule, hfs, hadd]

theorem inBatches_ok {work : List ContactId → Connection → Worked Tally}
    (hwork : ∀ cs c, c.Ready org z evs →
      ∃ tally c', work cs c = (.ok tally, c') ∧ c'.Ready org z evs)
    (css : List (List ContactId)) (hc : c.Ready org z evs) :
    ∃ tally c', inBatches work css c = (.ok tally, c') := by
  induction css generalizing c with
  | nil => exact ⟨{}, c, rfl⟩
  | cons cs css ih =>
    have hstart : c.start.Ready org z evs := ⟨hc.tables, hc.refusal, hc.orderly, hc.definite⟩
    obtain ⟨t, c₁, hfirst, hc₁⟩ := hwork cs c.start hstart
    have hcommit : c₁.commit.Ready org z evs :=
      ⟨hc₁.tables, hc₁.refusal, hc₁.orderly, hc₁.definite⟩
    obtain ⟨u, c₂, hrest⟩ := ih hcommit
    exact ⟨t.add u, c₂, by simp only [inBatches, atomically, hfirst, hrest]⟩

theorem recompute_ok (batch : Nat) (now : Instant) (cs : List ContactId)
    (hc : c.Ready org z evs) :
    ∃ tally c', recompute batch org z evs cs now c = (.ok tally, c') := by
  unfold recompute
  split
  · exact ⟨_, _, rfl⟩
  · exact inBatches_ok (fun cs c hc => recomputeBatch_ok now hc cs) _ hc

/-! ## Whatever fires there are -/

variable {d : Connection}

/-- Two connections differ in fires and open transactions alone. -/
structure AlikeButFires (c d : Connection) : Prop where
  db : c.db.OnlyFires d.db
  refusal : d.refusal = c.refusal

theorem AlikeButFires.perform_delete (h : c.AlikeButFires d)
    {pairs : List (EventId × ContactId)} {n : Nat} (hc : c.perform (.delete pairs) = (.ok n, c')) :
    ∃ m d', d.perform (.delete pairs) = (.ok m, d') ∧ c'.AlikeButFires d' := by
  obtain ⟨hn, hc'⟩ := perform_delete_ok_iff.1 hc
  obtain ⟨m, hm⟩ := Database.deletePending_ok_of_onlyFires h.db hn
  have hd := perform_delete_ok_iff.2 ⟨hm, rfl⟩
  refine ⟨m, _, hd, ?_, ?_⟩
  · exact ((frame_perform hc).db.symm.trans h.db).trans (frame_perform hd).db
  · rw [hc']
    exact h.refusal

theorem AlikeButFires.perform_add (h : c.AlikeButFires d) {fs : List NewFire} {n : Nat}
    (hc : c.perform (.add fs) = (.ok n, c')) :
    ∃ m d', d.perform (.add fs) = (.ok m, d') ∧ c'.AlikeButFires d' := by
  obtain ⟨hr, hn, hc'⟩ := perform_add_ok_iff.1 hc
  obtain ⟨m, hm⟩ := Database.addFires_ok_of_onlyFires h.db hn
  have hd := perform_add_ok_iff.2 ⟨h.refusal ▸ hr, hm, rfl⟩
  refine ⟨m, _, hd, ?_, ?_⟩
  · exact ((frame_perform hc).db.symm.trans h.db).trans (frame_perform hd).db
  · rw [hc', h.refusal]

/-- Work that succeeds on one of two such connections succeeds on the other. -/
def Unhindered (work : Connection → Worked Tally) : Prop :=
  ∀ c c' d tally, c.AlikeButFires d → work c = (.ok tally, c') →
    ∃ tally' d', work d = (.ok tally', d') ∧ c'.AlikeButFires d'

theorem Unhindered.atomically {work : Connection → Worked Tally} (hwork : Unhindered work) :
    Unhindered fun c => c.atomically work := by
  intro c c' d tally h hc
  simp only [Connection.atomically] at hc ⊢
  split at hc
  · rename_i c₁ hc₁
    cases hc
    obtain ⟨tally', d₁, hd₁, h₁⟩ := hwork c.start c₁ d.start tally ⟨h.db, h.refusal⟩ hc₁
    rw [hd₁]
    exact ⟨tally', d₁.commit, rfl, h₁.db, h₁.refusal⟩
  · cases hc

theorem Unhindered.inBatches {work : List ContactId → Connection → Worked Tally}
    (hwork : ∀ cs, Unhindered (work cs)) (css : List (List ContactId)) :
    Unhindered (inBatches work css) := by
  induction css with
  | nil =>
    intro c c' d tally h hc
    cases hc
    exact ⟨{}, d, rfl, h⟩
  | cons cs css ih =>
    intro c c' d tally h hc
    simp only [Connection.inBatches] at hc ⊢
    split at hc
    · cases hc
    · rename_i hfirst
      split at hc
      · cases hc
      · rename_i hrest
        cases hc
        obtain ⟨t', d₁, hfirst', h₁⟩ := (hwork cs).atomically _ _ _ _ h hfirst
        obtain ⟨u', d₂, hrest', h₂⟩ := ih _ _ _ _ h₁ hrest
        simp only [hfirst', hrest']
        exact ⟨t'.add u', d₂, rfl, h₂⟩

theorem unhindered_recomputeBatch (cs : List ContactId) :
    Unhindered (recomputeBatch org z evs now cs) := by
  intro c c' d tally h hc
  unfold recomputeBatch at hc
  split at hc
  · cases hc
  · rename_i deleted c₁ hdelete
    obtain ⟨deleted', d₁, hdelete', h₁⟩ := h.perform_delete hdelete
    split at hc
    · cases hc
    · rename_i contacts hload
      unfold schedule at hc
      split at hc
      · cases hc
      · rename_i fs hfs
        split at hc
        · cases hc
        · rename_i hadd
          cases hc
          obtain ⟨n, d₂, hadd', h₂⟩ := h₁.perform_add hadd
          refine ⟨⟨deleted', n⟩, d₂, ?_, h₂⟩
          simp only [recomputeBatch, hdelete', Database.loadContacts_of_onlyFires h₁.db, hload,
            schedule, hfs, hadd']

theorem unhindered_recompute (batch : Nat) (cs : List ContactId) :
    Unhindered (recompute batch org z evs cs now) := by
  unfold recompute
  split
  · intro c c' d tally h hc
    cases hc
    exact ⟨{}, d, rfl, h⟩
  · exact Unhindered.inBatches (fun cs => unhindered_recomputeBatch cs) _

end Connection
end Outreach
