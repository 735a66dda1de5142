import Outreach.Proofs.Fire.Rows
import Outreach.Proofs.Reconcile

/-!
# Outreach.Proofs.Reconcile.Replaced

Pending fires of some pairs written anew, as a relation between the tables before and after.

* `Redone` — the pairs have the pending fires that are picked for them, and all others what they
  had. `Replaced` says besides that all other rows are the ones that were there.
* `Replaced.trans`, `Replaced.agree` — one after the other, and from tables that agree elsewhere.
* `Renews` — the fires of some contacts are replaced, and the answer counts how many there were and
  how many there are. `Renews.append` and `Renews.sameRows` are about several such steps.
-/

namespace Outreach
namespace Database

/-- The pairs of `T` have the pending fires that are picked for them from `evs`; the others have
the pending fires they had, and nothing else is touched. -/
structure Redone (org : OrgId) (z : Zone) (now : Instant) (evs : List Event)
    (T : EventId → ContactId → Prop) (db db' : Database) : Prop where
  only : db.OnlyFires db'
  inside : ∀ e x text, T e x →
    (db'.PendingAt e x text ↔ ∃ t, db.Picks org z now e x evs t ∧ t.toStored = text)
  outside : ∀ e x text, ¬ T e x → (db'.PendingAt e x text ↔ db.PendingAt e x text)

variable {org : OrgId} {z : Zone} {now : Instant} {evs : List Event}

theorem OnlyFires.due_iff {db db' : Database} (h : db.OnlyFires db') (ev : Event) (x : ContactId)
    (t : Instant) : db'.Due org z ev x t ↔ db.Due org z ev x t := by
  rw [h]
  exact Iff.rfl

theorem OnlyFires.firesAt_iff {db db' : Database} (h : db.OnlyFires db') (ev : Event)
    (x : ContactId) (t : Instant) :
    db'.FiresAt org z now ev x t ↔ db.FiresAt org z now ev x t := by
  rw [Database.firesAt_iff, Database.firesAt_iff, h.due_iff]

theorem OnlyFires.keyed {db db' : Database} (h : db.OnlyFires db') (hk : db.Keyed) :
    db'.Keyed := by
  rw [h]
  exact ⟨hk.contacts, hk.values⟩

theorem picks_congr {db db' : Database} {e : EventId} {x : ContactId}
    (hdue : ∀ ev ∈ evs, ∀ t, db'.Due org z ev x t ↔ db.Due org z ev x t) (t : Instant) :
    db'.Picks org z now e x evs t ↔ db.Picks org z now e x evs t := by
  induction evs with
  | nil => constructor <;> (intro h; cases h)
  | cons ev evs ih =>
    have hfirst := hdue ev List.mem_cons_self
    have hrest := ih fun ev hev => hdue ev (List.mem_cons_of_mem _ hev)
    constructor
    · intro h
      cases h with
      | here hid hd hnow => exact .here hid ((hfirst t).1 hd) hnow
      | there hnot h => exact .there (fun hid u hu => hnot hid u ((hfirst u).2 hu)) (hrest.1 h)
    · intro h
      cases h with
      | here hid hd hnow => exact .here hid ((hfirst t).2 hd) hnow
      | there hnot h => exact .there (fun hid u hu => hnot hid u ((hfirst u).1 hu)) (hrest.2 h)

theorem Redone.congr {S T : EventId → ContactId → Prop} {db db' : Database}
    (h : Redone org z now evs S db db') (hST : ∀ e x, T e x ↔ S e x) :
    Redone org z now evs T db db' :=
  ⟨h.only, fun e x text ht => h.inside e x text ((hST e x).1 ht),
    fun e x text ht => h.outside e x text fun hs => ht ((hST e x).2 hs)⟩

/-- What is done again comes to the same, since what is picked does not hang on fires. -/
theorem Redone.trans {S T : EventId → ContactId → Prop} {a b c : Database}
    (h : Redone org z now evs S a b) (h' : Redone org z now evs T b c) :
    Redone org z now evs (fun e x => S e x ∨ T e x) a c := by
  have hpicks (e : EventId) (x : ContactId) (t : Instant) :
      b.Picks org z now e x evs t ↔ a.Picks org z now e x evs t :=
    picks_congr (fun ev _ => h.only.due_iff ev x) t
  refine ⟨h.only.trans h'.only, fun e x text hst => ?_, fun e x text hst => ?_⟩
  · by_cases ht : T e x
    · rw [h'.inside e x text ht]
      simp only [hpicks]
    · rw [h'.outside e x text ht]
      exact h.inside e x text (hst.resolve_right ht)
  · rw [h'.outside e x text fun ht => hst (.inr ht)]
    exact h.outside e x text fun hs => hst (.inl hs)

/-- The pairs of `q` have the pending fires that are picked for them from `evs`, and every other
row is the one that was there. -/
structure Replaced (org : OrgId) (z : Zone) (now : Instant) (evs : List Event)
    (q : EventId → ContactId → Bool) (db db' : Database) : Prop where
  kept : db'.withoutPending q = db.withoutPending q
  inside : ∀ e x text, q e x = true →
    (db'.PendingAt e x text ↔ ∃ t, db.Picks org z now e x evs t ∧ t.toStored = text)

variable {q q' : EventId → ContactId → Bool}

theorem Replaced.redone {db db' : Database} (h : Replaced org z now evs q db db') :
    Redone org z now evs (fun e x => q e x = true) db db' :=
  ⟨onlyFires_of_kept h.kept, h.inside,
    fun _ _ text hq => pendingAt_of_kept h.kept (Bool.eq_false_iff.2 hq) text⟩

theorem Replaced.refl (db : Database) (hq : ∀ e x, q e x = false) :
    Replaced org z now evs q db db :=
  ⟨rfl, fun e x _ h => absurd h (by simp [hq e x])⟩

theorem Replaced.trans {a b c : Database} (h : Replaced org z now evs q a b)
    (h' : Replaced org z now evs q' b c) :
    Replaced org z now evs (fun e x => q e x || q' e x) a c := by
  refine ⟨?_, fun e x text hq => ?_⟩
  · have hq : ∀ e x, q e x = true → (q e x || q' e x) = true := fun e x h => by simp [h]
    have hq' : ∀ e x, q' e x = true → (q e x || q' e x) = true := fun e x h => by simp [h]
    calc c.withoutPending (fun e x => q e x || q' e x)
        = (c.withoutPending q').withoutPending _ := (withoutPending_of_le c hq').symm
      _ = (b.withoutPending q').withoutPending _ := by rw [h'.kept]
      _ = b.withoutPending _ := withoutPending_of_le b hq'
      _ = (b.withoutPending q).withoutPending _ := (withoutPending_of_le b hq).symm
      _ = (a.withoutPending q).withoutPending _ := by rw [h.kept]
      _ = a.withoutPending _ := withoutPending_of_le a hq
  · exact (h.redone.trans h'.redone).inside e x text (Bool.or_eq_true _ _ ▸ hq)

/-- Tables that agree outside the pairs come to agree there too. -/
theorem Replaced.agree {a a' b b' : Database} (h : Replaced org z now evs q a a')
    (h' : Replaced org z now evs q b b') (hab : b.withoutPending q = a.withoutPending q) :
    b'.withoutPending q = a'.withoutPending q ∧
      ∀ e x text, b'.PendingAt e x text ↔ a'.PendingAt e x text := by
  have hkept : b'.withoutPending q = a'.withoutPending q := by
    rw [h'.kept, hab, h.kept]
  refine ⟨hkept, fun e x text => ?_⟩
  cases hq : q e x with
  | true =>
    rw [h.inside e x text hq, h'.inside e x text hq]
    exact exists_congr fun t => and_congr_left fun _ =>
      picks_congr (fun ev _ => (onlyFires_of_kept hab).due_iff ev x) t
  | false => exact pendingAt_of_kept hkept hq text

/-- Deleting the pending fires of some pairs and adding the ones picked for them. -/
theorem replaced_insertFires {db : Database} {fs : List NewFire}
    (hq : ∀ f ∈ fs, q f.event f.contact = true)
    (hfs : ∀ e x t, q e x = true →
      ((∃ f, fs.find? (ofPair e x) = some f ∧ f.scheduled = t) ↔ db.Picks org z now e x evs t)) :
    Replaced org z now evs q db (insertFires fs (db.withoutPending q)).2 := by
  refine ⟨?_, fun e x text hT => ?_⟩
  · rw [withoutPending_insertFires hq, withoutPending_of_le db fun _ _ h => h]
  · have hfree : (db.withoutPending q).hasPending e x = false := by
      rw [← Bool.not_eq_true, hasPending_iff]
      rintro ⟨text', h⟩
      have := ((pendingAt_withoutPending db q e x text').1 h).1
      rw [hT] at this
      cases this
    rw [pendingAt_insertFires, pendingAt_withoutPending]
    simp only [hT, hfree, reduceCtorEq, false_and, false_or, true_and, ← hfs e x _ hT]
    constructor
    · rintro ⟨f, hf, rfl⟩
      exact ⟨_, ⟨f, hf, rfl⟩, rfl⟩
    · rintro ⟨-, ⟨f, hf, rfl⟩, rfl⟩
      exact ⟨f, hf, rfl⟩

theorem replaced_withoutPending (db : Database) (q : EventId → ContactId → Bool) :
    Replaced org z now [] q db (db.withoutPending q) := by
  refine ⟨withoutPending_of_le db fun _ _ h => h, fun e x text hT => ?_⟩
  rw [pendingAt_withoutPending, hT]
  constructor
  · rintro ⟨h, -⟩
    cases h
  · rintro ⟨t, h, -⟩
    cases h

/-! ## Contacts and their events -/

/-- The pair is one of the contacts with an event that satisfies `p`. -/
def pairsWith (p : EventId → Bool) (cs : List ContactId) (e : EventId) (x : ContactId) : Bool :=
  p e && cs.contains x

theorem pairsWith_iff {p : EventId → Bool} {cs : List ContactId} {e : EventId} {x : ContactId} :
    pairsWith p cs e x = true ↔ p e = true ∧ x ∈ cs := by
  simp [pairsWith]

theorem pairsWith_append (p : EventId → Bool) (cs ds : List ContactId) :
    pairsWith p (cs ++ ds) = fun e x => pairsWith p cs e x || pairsWith p ds e x := by
  funext e x
  simp [pairsWith, Bool.and_or_distrib_left]

theorem pairsWith_disjoint (p : EventId → Bool) {cs ds : List ContactId}
    (h : ∀ x ∈ cs, x ∉ ds) (e : EventId) (x : ContactId) (hx : pairsWith p ds e x = true) :
    pairsWith p cs e x = false :=
  Bool.eq_false_iff.2 fun hc => h x (pairsWith_iff.1 hc).2 (pairsWith_iff.1 hx).2

/-- The fires of contacts with the events of `p` are replaced. The answer counts the pending ones
there were and, unless a contact is listed twice, those there are. -/
structure Renews (org : OrgId) (z : Zone) (now : Instant) (evs : List Event) (p : EventId → Bool)
    (cs : List ContactId) (tally : Tally) (db db' : Database) : Prop where
  replaced : Replaced org z now evs (pairsWith p cs) db db'
  tally : cs.Nodup →
    tally = ⟨db.pendingCount (pairsWith p cs), db'.pendingCount (pairsWith p cs)⟩

variable {p : EventId → Bool}

theorem renews_of_no_pairs (db : Database) {cs : List ContactId}
    (hq : ∀ e x, pairsWith p cs e x = false) : Renews org z now evs p cs {} db db :=
  ⟨.refl db hq, fun _ => by simp [pendingCount, hq]⟩

theorem Renews.nil (db : Database) : Renews org z now evs p [] {} db db :=
  renews_of_no_pairs db fun e x => by simp [pairsWith]

theorem Renews.of_no_events (cs : List ContactId) (db : Database) :
    Renews org z now evs (List.contains []) cs {} db db :=
  renews_of_no_pairs db fun e x => by simp [pairsWith]

theorem Renews.append {cs ds : List ContactId} {t u : Tally} {a b c : Database}
    (h : Renews org z now evs p cs t a b) (h' : Renews org z now evs p ds u b c) :
    Renews org z now evs p (cs ++ ds) (t.add u) a c := by
  refine ⟨pairsWith_append p cs ds ▸ h.replaced.trans h'.replaced, fun hnodup => ?_⟩
  obtain ⟨hcs, hds, hdisjoint⟩ := List.nodup_append.1 hnodup
  have hother := pairsWith_disjoint p fun x hx hx' => hdisjoint x hx x hx' rfl
  have hother' := pairsWith_disjoint p fun x hx hx' => hdisjoint x hx' x hx rfl
  -- what one step counts is neither made nor taken away by the other
  rw [pairsWith_append, pendingCount_or a hother, pendingCount_or c hother, h.tally hcs,
    h'.tally hds, Tally.add, pendingCount_eq_of_kept h.replaced.kept hother,
    pendingCount_eq_of_kept h'.replaced.kept hother']

/-- The fires of the same contacts are replaced by the same, in whatever order and however often
the contacts are listed. -/
theorem Renews.sameRows {cs ds : List ContactId} {t u : Tally} {a b c : Database}
    (h : Renews org z now evs p cs t a b) (h' : Renews org z now evs p ds u a c)
    (hb : b.Coherent) (hc : c.Coherent) (hcs : ∀ x, x ∈ cs ↔ x ∈ ds) :
    b.SameRows c ∧ (cs.Nodup → ds.Nodup → t = u) := by
  have hpairs : pairsWith p ds = pairsWith p cs := by
    funext e x
    rw [Bool.eq_iff_iff, pairsWith_iff, pairsWith_iff, hcs x]
  obtain ⟨hkept, hpending⟩ := h.replaced.agree (hpairs ▸ h'.replaced) rfl
  have hrows := sameRows_of_pending hb hc hkept fun e x text _ => hpending e x text
  refine ⟨hrows, fun hcs hds => ?_⟩
  rw [h.tally hcs, h'.tally hds, hpairs, hrows.pendingCount_eq]

end Database
end Outreach
