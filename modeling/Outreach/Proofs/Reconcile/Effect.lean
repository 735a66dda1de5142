import Outreach.Proofs.Reconcile.Replaced

/-!
# Outreach.Proofs.Reconcile.Effect

What the reconciliations that succeed leave of the fires, and what they answer.

* `Connection.renews_recompute`, `Connection.renews_withdraw`, `Connection.renews_withdrawAll`,
  `Connection.redone_scheduleEvent` — which pairs have their fires replaced, and by which.
* `Connection.atomically_of_error` — a transaction that fails leaves the tables as they were.
* `Connection.frame_recompute` — whatever comes of it, nothing but fires is touched.
-/

namespace Outreach
namespace Connection

/-- Nothing but fires is touched, the table of fires stays in order, and no transaction is begun
or ended. -/
structure Frame (c c' : Connection) : Prop where
  db : c.db.OnlyFires c'.db
  coherent : c.db.Coherent → c'.db.Coherent
  saved : c'.saved = c.saved

theorem Frame.refl (c : Connection) : c.Frame c := ⟨.refl _, id, rfl⟩

theorem Frame.trans {a b c : Connection} (h : a.Frame b) (h' : b.Frame c) : a.Frame c :=
  ⟨h.db.trans h'.db, h'.coherent ∘ h.coherent, h'.saved.trans h.saved⟩

theorem Frame.of_eq {α : Type} {c c' : Connection} {p : α × Connection} {a : α}
    (h : c.Frame p.2) (hp : p = (a, c')) : c.Frame c' := by
  rwa [hp] at h

theorem frame_write (w : Write) (c : Connection) : c.Frame (c.write w).2 :=
  ⟨c.write_onlyFires w, c.write_coherent w, (c.write_steps w).1⟩

theorem frame_perform {w : Write} {c c' : Connection} {r : Except (Fault ReconcileError) Nat}
    (h : c.perform w = (r, c')) : c.Frame c' := by
  unfold perform at h
  split at h
  · rename_i hwrite
    cases h
    exact (frame_write w c).of_eq hwrite
  · rename_i hwrite
    cases h
    exact (frame_write w c).of_eq hwrite

theorem alter_of_ok {run : Database → Except StoreError Nat × Database} {c c' : Connection}
    {n : Nat} (h : c.alter run = (.ok n, c')) : run c.db = (.ok n, c'.db) := by
  unfold alter onTables at h
  split at h
  · rename_i hrun
    obtain ⟨hr, rfl⟩ := Prod.mk.inj hrun
    cases h
    exact Prod.ext hr rfl
  · cases h

theorem perform_of_ok {w : Write} {c c' : Connection} {n : Nat}
    (h : c.perform w = (.ok n, c')) : c.write w = (.ok n, c') := by
  unfold perform at h
  split at h
  · rename_i hw
    cases h
    exact hw
  · cases h

theorem addFires_of_ok {fs : List NewFire} {c c' : Connection} {n : Nat}
    (h : c.addFires fs = (.ok n, c')) : Database.insertFires fs c.db = (n, c'.db) := by
  unfold addFires onTables at h
  split at h
  · cases h
  · split at h
    · rename_i hrun
      obtain ⟨hr, rfl⟩ := Prod.mk.inj hrun
      cases h
      exact Database.addFires_of_ok (Prod.ext hr rfl)
    · cases h

/-! ## One batch -/

variable {org : OrgId} {z : Zone} {now : Instant}

theorem schedule_of_ok {deleted : Nat} {fires : Except (Fault CampaignError) (List NewFire)}
    {c c' : Connection} {tally : Tally} (h : c.schedule deleted fires = (.ok tally, c')) :
    ∃ fs n, fires = .ok fs ∧ tally = ⟨deleted, n⟩ ∧ Database.insertFires fs c.db = (n, c'.db) := by
  unfold schedule at h
  split at h
  · cases h
  · rename_i fs
    split at h
    · cases h
    · rename_i hp
      cases h
      exact ⟨fs, _, rfl, rfl, addFires_of_ok (perform_of_ok hp)⟩

theorem pairsOf_contains (events : List EventId) (cs : List ContactId) :
    (fun e x => (pairsOf events cs).contains (e, x)) =
      Database.pairsWith events.contains cs := by
  funext e x
  rw [Bool.eq_iff_iff, Database.pairsWith_iff]
  simp [pairsOf]

theorem renews_recomputeBatch {evs : List Event} {cs : List ContactId} {c c' : Connection}
    {tally : Tally} (hk : c.db.Keyed)
    (h : recomputeBatch org z evs now cs c = (.ok tally, c')) :
    Database.Renews org z now evs (evs.map Event.id).contains cs tally c.db c'.db := by
  unfold recomputeBatch at h
  split at h
  · cases h
  · rename_i deleted c₁ hdelete
    obtain ⟨hdeleted, hdb₁⟩ :=
      Database.deletePending_of_ok (alter_of_ok (perform_of_ok hdelete))
    rw [pairsOf_contains] at hdeleted hdb₁
    have honly₁ : c.db.OnlyFires c₁.db := (frame_perform hdelete).db
    have hk₁ := honly₁.keyed hk
    split at h
    · cases h
    · rename_i contacts hload
      obtain ⟨hshows, hcovers⟩ := Database.covers_of_loadContacts hk₁ hload
      obtain ⟨fs, n, hfs, rfl, hinsert⟩ := schedule_of_ok h
      have hpairs : ∀ f ∈ fs, Database.pairsWith (evs.map Event.id).contains cs f.event
          f.contact = true := by
        intro f hf
        obtain ⟨⟨c, hc, hx⟩, he⟩ := Database.firesOfAll_pairs hfs f hf
        exact Database.pairsWith_iff.2 ⟨List.contains_iff_mem.2 he, hx ▸ (hshows c hc).1⟩
      have hn : n = c'.db.pendingCount (Database.pairsWith (evs.map Event.id).contains cs) := by
        have hcount := Database.pendingCount_insertFires hpairs c₁.db
        rw [hinsert, hdb₁, Database.pendingCount_withoutPending, Nat.zero_add] at hcount
        exact hcount.symm
      have hdb' := congrArg Prod.snd hinsert
      rw [hdb₁] at hdb'
      refine ⟨?_, fun _ => by rw [hdeleted, hn]⟩
      rw [← show _ = c'.db from hdb']
      refine Database.replaced_insertFires hpairs fun e x t hT => ?_
      rw [Database.find?_firesOfAll hk₁ (fun c hc => (hshows c hc).2) hfs e x t,
        Database.picks_congr fun ev _ => honly₁.due_iff ev x]
      refine ⟨fun h => h.2, fun h => ⟨?_, h⟩⟩
      obtain ⟨ev, -, -, hdue, -⟩ := h.exists_due
      obtain ⟨r, hr, hactive, hid⟩ := ((honly₁.due_iff ev x t).2 hdue).exists_contact
      obtain ⟨c, hc, hcid⟩ := hcovers r hr hactive (hid ▸ (Database.pairsWith_iff.1 hT).2)
      exact ⟨c, hc, hcid.trans hid⟩

/-- Pending fires are deleted and none is added. -/
theorem renews_withoutPending {p : EventId → Bool} {cs : List ContactId} (db : Database) :
    Database.Renews org z now [] p cs ⟨db.pendingCount (Database.pairsWith p cs), 0⟩ db
      (db.withoutPending (Database.pairsWith p cs)) :=
  ⟨Database.replaced_withoutPending db _,
    fun _ => by rw [Database.pendingCount_withoutPending]⟩

theorem renews_withdrawBatch {events : List EventId} {cs : List ContactId} {c c' : Connection}
    {tally : Tally} (h : withdrawBatch events cs c = (.ok tally, c')) :
    Database.Renews org z now [] events.contains cs tally c.db c'.db := by
  unfold withdrawBatch at h
  split at h
  · cases h
  · rename_i deleted c₁ hdelete
    cases h
    obtain ⟨hdeleted, hdb⟩ :=
      Database.deletePending_of_ok (alter_of_ok (perform_of_ok hdelete))
    rw [hdeleted, hdb, pairsOf_contains]
    exact renews_withoutPending c.db

theorem renews_withdrawAllBatch {cs : List ContactId} {c c' : Connection} {tally : Tally}
    (h : withdrawAllBatch cs c = (.ok tally, c')) :
    Database.Renews org z now [] (fun _ => true) cs tally c.db c'.db := by
  unfold withdrawAllBatch at h
  split at h
  · cases h
  · rename_i deleted c₁ hdelete
    cases h
    obtain ⟨hdeleted, hdb⟩ :=
      Database.deletePendingOfContacts_of_ok (alter_of_ok (perform_of_ok hdelete))
    have hall : (fun (_ : EventId) x => cs.contains x) = Database.pairsWith (fun _ => true) cs := by
      funext e x
      simp [Database.pairsWith]
    rw [hdeleted, hdb, hall]
    exact renews_withoutPending c.db

theorem redone_scheduleMembers {s : EventSpec} {home : Home} {c c' : Connection} {tally : Tally}
    (hk : c.db.Keyed) (h : scheduleMembers org z s home.group now c = (.ok tally, c')) :
    Database.Redone org z now [⟨s, some home⟩] (fun e _ => e = s.id) c.db c'.db := by
  unfold scheduleMembers at h
  split at h
  · cases h
  · rename_i members hmembers
    have hms := Database.starts_of_eligibleMembers hmembers
    split at h
    · cases h
    · rename_i deleted c₁ hdelete
      obtain ⟨-, hdb₁⟩ :=
        Database.deletePendingOfEvent_of_ok (alter_of_ok (perform_of_ok hdelete))
      obtain ⟨fs, n, hfs, -, hinsert⟩ := schedule_of_ok h
      have hpairs : ∀ f ∈ fs, (f.event == s.id) = true :=
        fun f hf => beq_iff_eq.2 (Database.firesOfMembers_pairs hfs f hf)
      have hdb' := congrArg Prod.snd hinsert
      rw [hdb₁] at hdb'
      rw [← show _ = c'.db from hdb']
      refine (Database.replaced_insertFires (q := fun e _ => e == s.id) hpairs
        fun e x t hT => ?_).redone.congr fun e x => beq_iff_eq.symm
      rw [Database.find?_firesOfMembers hk (fun x start => (hms x start).1) hfs e x t]
      refine ⟨fun h => h.2, fun h => ⟨?_, h⟩⟩
      obtain ⟨ev, hev, -, ⟨home', hhome, hmember, start, hstart, -⟩, -⟩ := h.exists_due
      obtain rfl := List.mem_singleton.1 hev
      cases hhome
      exact ⟨start, (hms x start).2 ⟨hmember, hstart⟩⟩

/-! ## Batches -/

theorem atomically_of_ok {ε α : Type} {work : Connection → Except ε α × Connection}
    {c c' : Connection} {a : α} (h : c.atomically work = (.ok a, c')) :
    ∃ c₁, work c.start = (.ok a, c₁) ∧ c'.db = c₁.db := by
  unfold atomically at h
  split at h
  · rename_i c₁ hw
    cases h
    exact ⟨c₁, hw, rfl⟩
  · cases h

/-- A transaction whose work fails leaves the tables as they were. -/
theorem atomically_of_error {ε α : Type} {work : Connection → Except ε α × Connection}
    (hwork : ∀ c : Connection, c.Frame (work c).2) {c c' : Connection} {e : ε}
    (h : c.atomically work = (.error e, c')) : c'.db = c.db ∧ c'.saved = c.saved := by
  have hsaved := (hwork c.start).saved
  unfold atomically at h
  split at h
  · cases h
  · rename_i c₁ hw
    cases h
    rw [hw] at hsaved
    have hopen : c₁.saved = c.db :: c.saved := hsaved
    constructor <;> simp only [rollback, hopen]

/-- A transaction whose work touches fires alone does so too, and leaves the others open. -/
theorem frame_atomically {ε α : Type} {work : Connection → Except ε α × Connection}
    (hwork : ∀ c : Connection, c.Frame (work c).2) (c : Connection) :
    c.Frame (c.atomically work).2 := by
  cases h : c.atomically work with
  | mk r c' =>
    cases r with
    | error e =>
      obtain ⟨hdb, hsaved⟩ := atomically_of_error hwork h
      refine ⟨?_, ?_, hsaved⟩
      · rw [hdb]
        exact .refl _
      · rw [hdb]
        exact id
    | ok a =>
      have hw := hwork c.start
      unfold atomically at h
      split at h
      · rename_i c₁ hc₁
        cases h
        rw [hc₁] at hw
        exact ⟨hw.db, hw.coherent, congrArg List.tail hw.saved⟩
      · cases h

theorem frame_inBatches {work : List ContactId → Connection → Worked Tally}
    (hwork : ∀ cs (c : Connection), c.Frame (work cs c).2) (css : List (List ContactId))
    (c : Connection) : c.Frame (inBatches work css c).2 := by
  induction css generalizing c with
  | nil => exact .refl c
  | cons cs css ih =>
    have hfirst := frame_atomically (hwork cs) c
    unfold inBatches
    split
    · rename_i h
      exact hfirst.of_eq h
    · rename_i c₁ h
      split
      · rename_i h'
        exact (hfirst.of_eq h).trans ((ih c₁).of_eq h')
      · rename_i h'
        exact (hfirst.of_eq h).trans ((ih c₁).of_eq h')

/-- Batches replace the fires of the contacts of each. -/
theorem renews_inBatches {evs : List Event} {p : EventId → Bool}
    {work : List ContactId → Connection → Worked Tally}
    (hwork : ∀ cs c tally c', c.db.Keyed → work cs c = (.ok tally, c') →
      Database.Renews org z now evs p cs tally c.db c'.db)
    {css : List (List ContactId)} {c c' : Connection} {tally : Tally} (hk : c.db.Keyed)
    (h : inBatches work css c = (.ok tally, c')) :
    Database.Renews org z now evs p css.flatten tally c.db c'.db := by
  induction css generalizing c tally with
  | nil =>
    cases h
    exact .nil _
  | cons cs css ih =>
    unfold inBatches at h
    split at h
    · cases h
    · rename_i t c₁ hfirst
      split at h
      · cases h
      · rename_i u c₂ hrest
        cases h
        obtain ⟨c₀, hw, hdb₁⟩ := atomically_of_ok hfirst
        have hdone := hwork cs c.start _ _ hk hw
        rw [← hdb₁] at hdone
        exact hdone.append (ih (hdone.replaced.redone.only.keyed hk) hrest)

/-! ## The reconciliations -/

variable {batch : Nat} {c c' : Connection} {tally : Tally}

theorem renews_recompute {evs : List Event} {cs : List ContactId} (hk : c.db.Keyed)
    (h : recompute batch org z evs cs now c = (.ok tally, c')) :
    Database.Renews org z now evs (evs.map Event.id).contains cs tally c.db c'.db := by
  unfold recompute at h
  split at h
  · rename_i hempty
    cases h
    obtain rfl := List.isEmpty_iff.1 hempty
    exact .of_no_events cs _
  · have hdone := renews_inBatches
      (fun cs c tally c' hk hw => renews_recomputeBatch (c := c) hk hw) hk h
    rwa [flatten_chunksOf] at hdone

theorem renews_withdraw {events : List EventId} {cs : List ContactId} (hk : c.db.Keyed)
    (h : withdraw batch events cs c = (.ok tally, c')) :
    Database.Renews org z now [] events.contains cs tally c.db c'.db := by
  unfold withdraw at h
  split at h
  · rename_i hempty
    cases h
    obtain rfl := List.isEmpty_iff.1 hempty
    exact .of_no_events cs _
  · have hdone : Database.Renews org z now [] events.contains (chunksOf batch cs).flatten tally
        c.db c'.db :=
      renews_inBatches (fun cs c tally c' _ hw => renews_withdrawBatch (c := c) hw) hk h
    rwa [flatten_chunksOf] at hdone

theorem renews_withdrawAll {cs : List ContactId} (hk : c.db.Keyed)
    (h : withdrawAll batch cs c = (.ok tally, c')) :
    Database.Renews org z now [] (fun _ => true) cs tally c.db c'.db := by
  have hdone : Database.Renews org z now [] (fun _ => true) (chunksOf batch cs).flatten tally
      c.db c'.db :=
    renews_inBatches (fun cs c tally c' _ hw => renews_withdrawAllBatch (c := c) hw) hk h
  rwa [flatten_chunksOf] at hdone

theorem redone_recompute {evs : List Event} {cs : List ContactId} (hk : c.db.Keyed)
    (h : recompute batch org z evs cs now c = (.ok tally, c')) :
    Database.Redone org z now evs (fun e x => e ∈ evs.map Event.id ∧ x ∈ cs) c.db c'.db :=
  (renews_recompute hk h).replaced.redone.congr fun e x => by
    rw [Database.pairsWith_iff, List.contains_iff_mem]

theorem redone_withdraw {events : List EventId} {cs : List ContactId} (hk : c.db.Keyed)
    (h : withdraw batch events cs c = (.ok tally, c')) :
    Database.Redone org z now [] (fun e x => e ∈ events ∧ x ∈ cs) c.db c'.db :=
  (renews_withdraw hk h).replaced.redone.congr fun e x => by
    rw [Database.pairsWith_iff, List.contains_iff_mem]

theorem redone_withdrawAll {cs : List ContactId} (hk : c.db.Keyed)
    (h : withdrawAll batch cs c = (.ok tally, c')) :
    Database.Redone org z now [] (fun _ x => x ∈ cs) c.db c'.db :=
  (renews_withdrawAll hk h).replaced.redone.congr fun e x => by
    simp [Database.pairsWith_iff]

theorem redone_scheduleEvent {s : EventSpec} {home : Home} (hk : c.db.Keyed)
    (h : scheduleEvent org z s home.group now c = (.ok tally, c')) :
    Database.Redone org z now [⟨s, some home⟩] (fun e _ => e = s.id) c.db c'.db := by
  obtain ⟨c₁, hw, hdb⟩ := atomically_of_ok h
  rw [hdb]
  exact redone_scheduleMembers (c := c.start) hk hw

theorem frame_schedule (deleted : Nat) (fires : Except (Fault CampaignError) (List NewFire))
    (c : Connection) : c.Frame (c.schedule deleted fires).2 := by
  unfold schedule
  split
  · exact .refl c
  · split <;> (rename_i h; exact frame_perform h)

theorem frame_recomputeBatch (evs : List Event) (cs : List ContactId) (c : Connection) :
    c.Frame (recomputeBatch org z evs now cs c).2 := by
  unfold recomputeBatch
  split
  · rename_i h
    exact frame_perform h
  · rename_i c₁ h
    have hdelete := frame_perform h
    split
    · exact hdelete
    · exact hdelete.trans (frame_schedule _ _ _)

theorem frame_recompute (batch : Nat) (evs : List Event) (cs : List ContactId) (c : Connection) :
    c.Frame (recompute batch org z evs cs now c).2 := by
  unfold recompute
  split
  · exact .refl c
  · exact frame_inBatches (fun cs c => frame_recomputeBatch evs cs c) _ c

theorem frame_withdraw (batch : Nat) (events : List EventId) (cs : List ContactId)
    (c : Connection) : c.Frame (withdraw batch events cs c).2 := by
  unfold withdraw
  split
  · exact .refl c
  · refine frame_inBatches (fun cs c => ?_) _ c
    unfold withdrawBatch
    split <;> (rename_i h; exact frame_perform h)

theorem frame_withdrawAll (batch : Nat) (cs : List ContactId) (c : Connection) :
    c.Frame (withdrawAll batch cs c).2 := by
  refine frame_inBatches (fun cs c => ?_) _ c
  unfold withdrawAllBatch
  split <;> (rename_i h; exact frame_perform h)

theorem frame_scheduleMembers (s : EventSpec) (group : GroupId) (c : Connection) :
    c.Frame (scheduleMembers org z s group now c).2 := by
  unfold scheduleMembers
  split
  · exact .refl c
  · split
    · rename_i h
      exact frame_perform h
    · rename_i h
      exact (frame_perform h).trans (frame_schedule _ _ _)

theorem frame_scheduleEvent (s : EventSpec) (group : GroupId) (c : Connection) :
    c.Frame (scheduleEvent org z s group now c).2 :=
  frame_atomically (frame_scheduleMembers s group) c

theorem frame_dropEvent (e : EventId) (c : Connection) : c.Frame (dropEvent e c).2 := by
  unfold dropEvent
  split <;> (rename_i h; exact frame_perform h)

end Connection
end Outreach
