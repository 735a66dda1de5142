import Outreach.Proofs.Reconcile.Synced
import Outreach.Proofs.Scheduler

/-!
# Outreach.Proofs.Reconcile.Incremental

Fires that are brought in line change by change, against fires computed from nothing.

* `ContactChange` — what can happen to a contact, and what the scheduler is told about it.
* `World.Step`, `World.Run` — each such change is told at once; fires are marked when they are due.
* `World.InStep` — what every step keeps.
* `World.Run.pending_eq_recomputed` — after a run the fires still to come are just those that
  computing everything anew would give.
-/

namespace Outreach

/-- What can happen to a contact, once it is created. -/
inductive ContactChange where
  | joined (group : GroupId) (contact : ContactId)
  | left (group : GroupId) (contact : ContactId)
  | valueSet (value : ValueRow)
  | seen (contact : ContactId) (text : Option String)
  | gone (contact : ContactId)

namespace ContactChange

/-- How it is written to the tables. -/
def edit : ContactChange → Database.Edit
  | joined group contact => .addMember ⟨group, contact⟩
  | left group contact => .deleteMember ⟨group, contact⟩
  | valueSet value => .setValue value
  | seen contact text => .setSeen contact text
  | gone contact => .setActive contact false

/-- What the scheduler is told about it. -/
def told (org : OrgId) (now : Instant) : ContactChange → Change
  | joined group contact => .joined org group [contact] now
  | left group contact => .left org group [contact]
  | valueSet value => .valueSet org value.key [value.contact] now
  | seen contact _ => .valueSet org Reference.lastSeenOn.key [contact] now
  | gone contact => .contactsGone [contact]

/-- A date that is written can be read. -/
def Dated : ContactChange → Prop
  | valueSet value => ∃ t, Instant.ofStored? value.datetime = .ok t
  | seen _ text => ∃ t, Instant.ofStored? text = .ok t
  | _ => True

/-- The event may become due for the contact, or no longer be so. -/
def Concerns : ContactChange → Event → ContactId → Prop
  | joined group contact, ev, x => ev.HomeIn group ∧ x = contact
  | left group contact, ev, x => ev.HomeIn group ∧ x = contact
  | valueSet value, ev, x => ev.spec.relativeTo.key = value.key ∧ x = value.contact
  | seen contact _, ev, x => ev.spec.relativeTo.key = Reference.lastSeenOn.key ∧ x = contact
  | gone contact, _, x => x = contact

theorem touches {db db' : Database} (hdb : db.Orderly) {change : ContactChange}
    (hdated : change.Dated) {n : Nat} (h : db.edit change.edit = .ok (n, db')) (org : OrgId)
    (z : Zone) : Database.Touches org z change.Concerns db db' := by
  cases change with
  | joined group contact => exact Database.touches_addMember hdb h
  | left group contact => exact Database.touches_deleteMember hdb h
  | valueSet value => exact Database.touches_setValue hdb hdated h
  | seen contact text => exact Database.touches_setSeen hdb hdated h
  | gone contact => exact Database.touches_setActive hdb h

theorem org?_told (change : ContactChange) (org : OrgId) (now : Instant) :
    ∀ o ∈ (change.told org now).org?, o = org := by
  intro o ho
  cases change <;> cases ho <;> rfl

end ContactChange

namespace World

variable {δ : Type} {src : Sources δ} {org : OrgId} {z : Zone} {cs : List Campaign}
  {w w' : World δ} {batch : Nat} {tally : Tally} {now later : Instant}

theorem mends_relativeTo (hids : ((allEvents cs).map Event.id).Nodup) {key : String}
    {c : ContactId} {db db' : Database}
    (h : Database.Redone org z now ((View.ofCampaigns cs).eventsRelativeTo key)
      (fun e x => e ∈ ((View.ofCampaigns cs).eventsRelativeTo key).map Event.id ∧ x ∈ [c])
      db db') :
    Database.Mends org z (allEvents cs) now
      (fun ev x => ev.spec.relativeTo.key = key ∧ x = c) db db' := by
  have hsub := View.sublist_eventsRelativeTo cs key
  refine h.mends hids hsub ?_ fun ev hev x t hS _ => Database.mem_of_id hids hsub hev hS.1
  rintro ev hev x ⟨hkey, rfl⟩
  refine ⟨List.mem_map_of_mem ?_, List.mem_singleton.2 rfl⟩
  rw [View.eventsRelativeTo_ofCampaigns]
  exact List.mem_filter.2 ⟨hev, beq_iff_eq.2 hkey⟩

/-- The call that belongs to a change mends the pairs that it concerns. -/
theorem mends_of_told (hs : src.Steady org z cs) (hids : ((allEvents cs).map Event.id).Nodup)
    (hw : w.Serves org z cs) (hk : w.tables.db.Keyed) {change : ContactChange} {db : Database}
    {n : Nat} (hedit : db.edit change.edit = .ok (n, w.tables.db))
    (h : w.reconcile src batch (change.told org now) = (.ok tally, w')) :
    Database.Mends org z (allEvents cs) now change.Concerns w.tables.db w'.tables.db := by
  cases change with
  | joined group contact =>
    have hdone := Connection.redone_recompute hk
      (renewal_of_ok (r := .joined group) hs hw h)
    have hsub := View.sublist_eventsOf cs group
    refine hdone.mends hids hsub ?_ fun ev hev x t hS _ => Database.mem_of_id hids hsub hev hS.1
    rintro ev hev x ⟨hhome, rfl⟩
    exact ⟨List.mem_map_of_mem (View.mem_eventsOf.2 ⟨hev, hhome⟩), List.mem_singleton.2 rfl⟩
  | left group contact =>
    have hdone : Database.Redone org z now []
        (fun e x => e ∈ ((View.ofCampaigns cs).eventsOf group).map Event.id ∧ x ∈ [contact])
        w.tables.db w'.tables.db := Connection.redone_withdraw hk
          (left_of_ok (get_steady hs hw).finds h)
    have hsub := View.sublist_eventsOf cs group
    refine hdone.mends hids (List.nil_sublist _) ?_ fun ev hev x t hS hdue => ?_
    · rintro ev hev x ⟨hhome, rfl⟩
      exact ⟨List.mem_map_of_mem (View.mem_eventsOf.2 ⟨hev, hhome⟩), List.mem_singleton.2 rfl⟩
    · obtain ⟨hS, hx⟩ := hS
      obtain rfl := List.mem_singleton.1 hx
      obtain ⟨-, hhome⟩ := View.mem_eventsOf.1 (Database.mem_of_id hids hsub hev hS)
      exact absurd hdue (Database.not_due_of_deleteMember hedit hhome t)
  | valueSet value =>
    have hdone := Connection.redone_recompute hk
      (renewal_of_ok (r := .valueSet value.key) hs hw h)
    exact mends_relativeTo hids hdone
  | seen contact text =>
    have hdone := Connection.redone_recompute hk
      (renewal_of_ok (r := .valueSet Reference.lastSeenOn.key) hs hw h)
    exact mends_relativeTo hids hdone
  | gone contact =>
    have hdone : Database.Redone org z now [] (fun _ x => x ∈ [contact]) w.tables.db
        w'.tables.db := Connection.redone_withdrawAll hk (contactsGone_of_ok h)
    refine hdone.mends hids (List.nil_sublist _) ?_ fun ev hev x t hS hdue => ?_
    · rintro ev hev x rfl
      exact List.mem_singleton.2 rfl
    · obtain rfl := List.mem_singleton.1 hS
      exact absurd hdue (Database.not_due_of_setActive hedit ev t)

/-! ## Runs -/

/-- The world with other tables. -/
def withDb (w : World δ) (db : Database) : World δ :=
  { w with tables := { w.tables with db } }

/-- What may happen at one moment. Each change of a contact is told to the scheduler at once, only
fires that are due are marked, and nothing that is told or marked fails. -/
inductive Step (src : Sources δ) (batch : Nat) (org : OrgId) (z : Zone) (cs : List Campaign)
    (now : Instant) (w : World δ) : World δ → Prop where
  | created (r : ContactRow) {n : Nat} {db : Database} (hread : ∃ c, Database.bareContact r = .ok c)
      (hedit : w.tables.db.edit (.addContact r) = .ok (n, db)) :
    Step src batch org z cs now w (w.withDb db)
  | changed (change : ContactChange) {n : Nat} {db : Database} {tally : Tally} {w' : World δ}
      (hdated : change.Dated) (hedit : w.tables.db.edit change.edit = .ok (n, db))
      (htold : (w.withDb db).reconcile src batch (change.told org now) = (.ok tally, w')) :
    Step src batch org z cs now w w'
  | scheduled (event : EventId) {tally : Tally} {w' : World δ}
      (htold : w.reconcile src batch (.eventEdited org event now) = (.ok tally, w')) :
    Step src batch org z cs now w w'
  | marked {limit : Int} {fs : List Fire} {ids : List FireId} {t : Instant} {result : FireResult}
      {n : Nat} {tables : Connection} (hdue : w.tables.db.dueFires now limit = .ok fs)
      (hids : ∀ i ∈ ids, ∃ f ∈ fs, f.id = i)
      (hmark : w.tables.write (.mark ids t result) = (.ok n, tables)) :
    Step src batch org z cs now w { w with tables }
  | elsewhere {w' : World δ} (hdb : w'.tables.db = w.tables.db) (hw : w'.Serves org z cs) :
    Step src batch org z cs now w w'

/-- A run from tables that hold no more than flows, in which time does not go back and events have
a time for every date that contacts come to have. -/
inductive Run (src : Sources δ) (batch : Nat) (org : OrgId) (z : Zone) (cs : List Campaign) :
    Instant → World δ → Prop where
  | start {now : Instant} {w : World δ} (hempty : ∃ flows, w.tables.db = { flows })
      (hw : w.Serves org z cs) : Run src batch org z cs now w
  | step {now later : Instant} {w w' : World δ} (h : Run src batch org z cs now w)
      (hle : now ≤ later) (hlater : later.WellFormed) (hstep : Step src batch org z cs later w w')
      (hdef : w'.tables.db.Definite org z (allEvents cs)) : Run src batch org z cs later w'

/-- The tables are in order, and the pending fires are the right ones. -/
structure InStep (org : OrgId) (z : Zone) (cs : List Campaign) (now : Instant) (w : World δ) :
    Prop where
  serves : w.Serves org z cs
  tables : w.tables.db.dropped = []
  orderly : w.tables.db.Orderly
  coherent : w.tables.db.Coherent
  definite : w.tables.db.Definite org z (allEvents cs)
  synced : w.tables.db.Synced org z (allEvents cs) now

theorem inStep_of_empty (hempty : ∃ flows, w.tables.db = { flows }) (hw : w.Serves org z cs) :
    w.InStep org z cs now := by
  obtain ⟨flows, hdb⟩ := hempty
  have hstart {ref : Reference} {x : ContactId} {start : Instant} :
      ¬ w.tables.db.Starts org ref x start := by
    rintro ⟨r, hr, -⟩
    rw [hdb] at hr
    cases hr
  refine ⟨hw, by rw [hdb], ?_, Database.coherent_of_empty (by rw [hdb]), ?_, ?_, ?_⟩
  · rw [hdb]
    exact ⟨⟨.nil, .nil⟩, by simp, by simp, by simp⟩
  · exact fun ev _ x start h => absurd h hstart
  · rintro e x text ⟨r, hr, -⟩
    rw [hdb] at hr
    cases hr
  · rintro ev - x t ⟨-, -, -, start, h, -⟩ -
    exact absurd h hstart

/-- An edit, if any, with a reconciliation that mends what it touches. -/
theorem InStep.mended (h : w.InStep org z cs now) {db : Database} {T : Event → ContactId → Prop}
    (ht : Database.Touches org z T w.tables.db db)
    (hm : Database.Mends org z (allEvents cs) later T db w'.tables.db)
    (hc : db.Coherent → w'.tables.db.Coherent) (hw : w'.Serves org z cs) (hle : now ≤ later)
    (hdef : w'.tables.db.Definite org z (allEvents cs)) : w'.InStep org z cs later := by
  refine ⟨hw, ?_, hm.only.orderly ht.orderly, hc (h.coherent.congr ht.fires), hdef,
    h.synced.mended ht hm hle⟩
  rw [hm.only]
  exact ht.dropped.trans h.tables

/-- Editing an event touches no contact, and computes this one event anew. -/
theorem mends_of_scheduled (hs : src.Steady org z cs)
    (hids : ((allEvents cs).map Event.id).Nodup) (hw : w.Serves org z cs)
    (hk : w.tables.db.Keyed) {event : EventId}
    (h : w.reconcile src batch (.eventEdited org event now) = (.ok tally, w')) :
    Database.Mends org z (allEvents cs) now (fun _ _ => False) w.tables.db w'.tables.db := by
  obtain ⟨spec, home, hmem, -, hwork⟩ := eventEdited_of_ok (refresh_steady hs _ hw).finds h
  have hdone := Connection.redone_scheduleEvent hk hwork
  have hsub := List.singleton_sublist.2 hmem
  refine hdone.mends hids hsub (fun _ _ _ hT => hT.elim) fun ev hev x t hS _ => ?_
  exact Database.mem_of_id hids hsub hev (List.mem_singleton.2 hS)

theorem InStep.step (hs : src.Steady org z cs) (hids : ((allEvents cs).map Event.id).Nodup)
    (h : w.InStep org z cs now) (hle : now ≤ later) (hlater : later.WellFormed)
    (hstep : Step src batch org z cs later w w')
    (hdef : w'.tables.db.Definite org z (allEvents cs)) : w'.InStep org z cs later := by
  cases hstep with
  | @created r n db hread hedit =>
    have ht : Database.Touches org z (fun _ _ => False) w.tables.db db :=
      Database.touches_addContact h.orderly hread hedit
    exact h.mended ht (.refl _ fun _ _ => id) id h.serves hle hdef
  | @changed change n db tally w' hdated hedit htold =>
    have ht := change.touches h.orderly hdated hedit org z
    have hm := mends_of_told (w := w.withDb db) hs hids h.serves ht.orderly.toKeyed hedit htold
    have hframe := reconcile_frame hs.keepTables batch (change.told org later) (w.withDb db)
    have hserves := reconcile_serves (w := w.withDb db) hs h.serves batch _
      (change.org?_told org later)
    rw [htold] at hframe hserves
    exact h.mended ht hm hframe.coherent hserves hle hdef
  | @scheduled event tally w' htold =>
    have hm := mends_of_scheduled hs hids h.serves h.orderly.toKeyed htold
    have hframe := reconcile_frame hs.keepTables batch (.eventEdited org event later) w
    have hserves := reconcile_serves hs h.serves batch (.eventEdited org event later)
      (by rintro o ⟨⟩; rfl)
    rw [htold] at hframe hserves
    exact h.mended (.refl h.orderly) hm hframe.coherent hserves hle hdef
  | @marked limit fs ids t result n tables hdue hmarked hmark =>
    have hdb := Connection.alter_of_ok hmark
    have hframe := Connection.frame_write (.mark ids t result) w.tables
    rw [hmark] at hframe
    refine ⟨h.serves, ?_, hframe.db.orderly h.orderly, hframe.coherent h.coherent, hdef, ?_⟩
    · rw [show tables.db = _ from hframe.db]
      exact h.tables
    · exact h.synced.marked h.coherent h.definite hle hlater hdue hmarked hdb
  | elsewhere hdb hw =>
    have ht : Database.Touches org z (fun _ _ => False) w.tables.db w'.tables.db := by
      rw [hdb]
      exact .refl h.orderly
    exact h.mended ht (.refl _ fun _ _ => id) id hw hle hdef

theorem Run.inStep (hs : src.Steady org z cs) (hids : ((allEvents cs).map Event.id).Nodup)
    (h : Run src batch org z cs now w) : w.InStep org z cs now := by
  induction h with
  | start hempty hw => exact inStep_of_empty hempty hw
  | step _ hle hlater hstep hdef ih => exact ih.step hs hids hle hlater hstep hdef

/-- In an org whose events have different numbers and do not change, after any run: a pair has at
most one pending fire, at the time at which the event is due for the contact by what is stored now,
and none is missing that is due later than now. Computing all events anew for all contacts, from the
same tables without any fires, succeeds and gives just the pending fires of the run that are later
than now. -/
theorem Run.pending_eq_recomputed (hs : src.Steady org z cs)
    (hids : ((allEvents cs).map Event.id).Nodup) (h : Run src batch org z cs now w) :
    (∀ e x, (w.tables.db.pendingOf e x).length ≤ 1) ∧
      w.tables.db.Synced org z (allEvents cs) now ∧
      ∀ (n : Nat) (contacts : List ContactId), (∀ r ∈ w.tables.db.contacts, r.id ∈ contacts) →
        ∃ tally c, Connection.recompute n org z (allEvents cs) contacts now
            { db := { w.tables.db with fires := [] } } = (.ok tally, c) ∧
          ∀ e x text, c.db.PendingAt e x text ↔ w.tables.db.PendingAt e x text ∧
            ∃ t, Instant.ofStored text = .ok t ∧ now < t := by
  have hw := h.inStep hs hids
  refine ⟨hw.coherent.one, hw.synced, fun n contacts hall => ?_⟩
  have honly : w.tables.db.OnlyFires { w.tables.db with fires := [] } := rfl
  have hready : Connection.Ready org z (allEvents cs) { db := { w.tables.db with fires := [] } } :=
    ⟨hw.tables, rfl, honly.orderly hw.orderly, honly.definite hw.definite⟩
  obtain ⟨tally, c, hrun⟩ := Connection.recompute_ok n now contacts hready
  exact ⟨tally, c, hrun, hw.synced.recomputed hids hw.orderly hw.definite hall hrun⟩

end World

section

open Sample

theorem definite_sample {db : Database} (h : db.contacts = [contact]) :
    db.Definite 1 Zone.utc (allEvents [campaign]) := by
  intro ev hev x start hstart
  obtain rfl : ev = ⟨reminder, some ⟨1, 5⟩⟩ := List.mem_singleton.1 hev
  obtain ⟨r, hr, -, -, hread⟩ := hstart
  rw [h] at hr
  obtain rfl := List.mem_singleton.1 hr
  have hmidnight : Instant.ofStored? (some contact.createdOn) = .ok (some midnight) := by
    decide +kernel
  obtain rfl : midnight = start := Option.some.inj (Except.ok.inj (hmidnight.symm.trans hread))
  exact ⟨minutesLater 60, by decide +kernel, by decide +kernel⟩

/-- A contact is created and after half an hour put into the group. From nothing, the same reminder
is computed. -/
theorem World.Run.reminder_eq_recomputed :
    let w := (world.reconcile sources 100 (.joined 1 5 [1] (minutesLater 30))).2
    w.tables.db.fires = [⟨1, 10, 1, "2024-01-01T01:00:00.000Z", none, none⟩] ∧
      ∃ tally c, Connection.recompute 7 1 Zone.utc (allEvents [campaign]) [1] (minutesLater 30)
          { db := { w.tables.db with fires := [] } } = (.ok tally, c) ∧
        c.db.PendingAt 10 1 "2024-01-01T01:00:00.000Z" := by
  intro w
  have hstart : Run sources 100 1 Zone.utc [campaign] midnight (.ofTables {}) :=
    .start ⟨[], rfl⟩ (serves_ofTables _ _ _ _)
  have hcreated : Run sources 100 1 Zone.utc [campaign] midnight
      (.ofTables { db := { contacts := [contact] } }) := by
    refine .step hstart (by decide) (by decide) (.created contact (n := 1) ⟨?_, ?_⟩ rfl)
      (definite_sample rfl)
    · exact ⟨1, .ofNat 1, midnight, none, [], []⟩
    · decide +kernel
  have htold : world.reconcile sources 100 (.joined 1 5 [1] (minutesLater 30)) = (.ok ⟨0, 1⟩, w) :=
    Prod.ext (by decide +kernel) rfl
  have hjoined : Run sources 100 1 Zone.utc [campaign] (minutesLater 30) w := by
    refine .step hcreated (by decide) (by decide)
      (.changed (.joined 5 1) (n := 1) trivial rfl htold) (definite_sample ?_)
    decide +kernel
  have hfires : w.tables.db.fires = [⟨1, 10, 1, "2024-01-01T01:00:00.000Z", none, none⟩] := by
    decide +kernel
  have hcontacts : ∀ r ∈ w.tables.db.contacts, r.id ∈ [(1 : ContactId)] := by decide +kernel
  obtain ⟨-, -, hall⟩ := pending_eq_recomputed sources_steady (by decide) hjoined
  obtain ⟨tally, c, hrun, hiff⟩ := hall 7 [1] hcontacts
  refine ⟨hfires, tally, c, hrun, (hiff 10 1 _).2 ⟨?_, minutesLater 60, ?_, by decide⟩⟩
  · rw [Database.PendingAt, hfires]
    exact ⟨_, List.mem_singleton.2 rfl, rfl, rfl, rfl, rfl⟩
  · decide +kernel

end

end Outreach
