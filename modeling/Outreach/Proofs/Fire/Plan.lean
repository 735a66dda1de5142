import Outreach.Proofs.Fire.Integrity
import Outreach.Proofs.Reconcile
import Outreach.Proofs.Scheduler

/-!
# Outreach.Proofs.Fire.Plan

What the scheduler adds to the fires when it is told of a change: pending fires of events that it
finds in a snapshot, at times computed when it is told.

* `World.Plans` — the fires that the scheduler may add for a change.
* `Call.Balanced` — calls whose writes are of a kind, and that end each transaction that they
  begin. `World.calls_balanced` says what those of the scheduler add and drop.
* `Call.Work` — calls that add fires of a kind only and settle none; `World.calls_work` says that
  those of the scheduler are of this form.
* `World.rows_of_reconcile` — a fire that is new after a change is one that was planned for it.
-/

namespace Outreach

open Relation

/-! ## Computed fires -/

/-- The fire is one of an event of the list, at a time computed from some date. -/
def NewFire.Computed (evs : List Event) (z : Zone) (now : Instant) (f : NewFire) : Prop :=
  ∃ ev ∈ evs, ev.id = f.event ∧ ∃ start, ev.spec.fireTime z now start = .ok (some f.scheduled)

namespace Database

variable {z : Zone} {now : Instant}

theorem computed_mono {evs evs' : List Event} (h : evs ⊆ evs') {f : NewFire}
    (hf : f.Computed evs z now) : f.Computed evs' z now := by
  obtain ⟨ev, hev, hf⟩ := hf
  exact ⟨ev, h hev, hf⟩

theorem exists_start_of_fireFor {ev : Event} {c : Contact} {t : Instant}
    (h : ev.fireFor z now c = .ok (some t)) :
    ∃ start, ev.spec.fireTime z now start = .ok (some t) := by
  unfold Event.fireFor at h
  split at h
  · cases h
  · split at h
    · split at h
      · cases h
      · exact ⟨_, h⟩
    · cases h

theorem computed_firesOf {c : Contact} {evs : List Event} {fs : List NewFire}
    (h : firesOf z now c evs = .ok fs) : ∀ f ∈ fs, f.Computed evs z now := by
  induction evs generalizing fs with
  | nil => cases h; simp
  | cons ev evs ih =>
    obtain ⟨fire, rest, hfire, hrest, rfl⟩ := firesOf_cons h
    intro f hf
    rcases List.mem_append.1 hf with hf | hf
    · obtain ⟨t, ht, rfl⟩ := List.mem_map.1 hf
      obtain rfl := Option.mem_toList.1 ht
      exact ⟨ev, List.mem_cons_self, rfl, exists_start_of_fireFor hfire⟩
    · exact computed_mono (List.subset_cons_self ev evs) (ih hrest f hf)

theorem computed_firesOfAll {evs : List Event} {cs : List Contact} {fs : List NewFire}
    (h : firesOfAll z now evs cs = .ok fs) : ∀ f ∈ fs, f.Computed evs z now := by
  induction cs generalizing fs with
  | nil => cases h; simp
  | cons c cs ih =>
    unfold firesOfAll at h
    split at h
    · cases h
    · rename_i fires hfires
      split at h
      · cases h
      · rename_i more hmore
        cases h
        intro f hf
        rcases List.mem_append.1 hf with hf | hf
        · exact computed_firesOf hfires f hf
        · exact ih hmore f hf

theorem computed_firesOfMembers {s : EventSpec} (home : Option Home)
    {ms : List (ContactId × Option Instant)} {fs : List NewFire}
    (h : firesOfMembers z now s ms = .ok fs) : ∀ f ∈ fs, f.Computed [⟨s, home⟩] z now := by
  induction ms generalizing fs with
  | nil => cases h; simp
  | cons m ms ih =>
    obtain ⟨c, start⟩ := m
    cases start with
    | none => exact ih h
    | some start =>
      obtain ⟨fire, rest, hfire, hrest, rfl⟩ := firesOfMembers_cons h
      intro f hf
      rcases List.mem_append.1 hf with hf | hf
      · obtain ⟨t, ht, rfl⟩ := List.mem_map.1 hf
        obtain rfl := Option.mem_toList.1 ht
        exact ⟨_, List.mem_singleton.2 rfl, rfl, start, hfire⟩
      · exact ih hrest f hf

/-! ## New rows -/

end Database

/-- The row as which a fire is written under a number. -/
def NewFire.row (f : NewFire) (id : FireId) : FireRow :=
  ⟨id, f.event, f.contact, f.scheduled.toStored, none, none⟩

namespace Database

/-- All rows of `db'` are old or those of fires that satisfy `P`. -/
def Grows (P : NewFire → Prop) (db db' : Database) : Prop :=
  ∀ r ∈ db'.fires, r ∈ db.fires ∨ ∃ f, P f ∧ ∃ id, r = f.row id

variable {P : NewFire → Prop}

theorem Grows.refl (db : Database) : db.Grows P db := fun _ hr => .inl hr

theorem Grows.trans {a b c : Database} (h : a.Grows P b) (h' : b.Grows P c) : a.Grows P c := by
  intro r hr
  rcases h' r hr with hr | hnew
  · exact h r hr
  · exact .inr hnew

theorem grows_of_adds {fs : List NewFire} (hfs : ∀ f ∈ fs, P f) {db db' : Database}
    (h : ReflTransGen (Adds fs) db db') : db.Grows P db' := by
  refine keeps_of_steps (p := fun d => db.Grows P d) (fun a b hstep ha => ha.trans ?_) h (.refl db)
  obtain ⟨f, hf, -⟩ := hstep
  intro r hr
  rcases List.mem_append.1 hr with hr | hr
  · exact .inl hr
  · exact .inr ⟨f, hfs f hf, _, List.mem_singleton.1 hr⟩

theorem grows_of_drops {db db' : Database} (h : ReflTransGen Drops db db') : db.Grows P db' := by
  refine keeps_of_steps (p := fun d => db.Grows P d) (fun a b hstep ha => ha.trans ?_) h (.refl db)
  obtain ⟨p⟩ := hstep
  exact fun r hr => .inl (List.mem_filter.1 hr).1

end Database

/-! ## Calls of a form -/

namespace Call

/-- No fires are added but those that satisfy `P`, and none is settled. -/
def Within (P : NewFire → Prop) : Call → Prop
  | .write (.add fs) => ∀ f ∈ fs, P f
  | .write (.mark _ _ _) => False
  | _ => True

/-- Calls within `P` that end each transaction that they begin. -/
inductive Work (P : NewFire → Prop) : List Call → Prop where
  | nil : Work P []
  | write {w : Connection.Write} {ks : List Call} (hw : Within P (.write w)) (hks : Work P ks) :
    Work P (.write w :: ks)
  | transaction {ks js : List Call} {k : Call} (hks : Work P ks) (hk : k = .commit ∨ k = .rollback)
    (hjs : Work P js) : Work P (.start :: ks ++ [k] ++ js)

/-- Calls whose writes satisfy `Q`, and that end each transaction that they begin. -/
inductive Balanced (Q : Connection.Write → Prop) : List Call → Prop where
  | nil : Balanced Q []
  | write {w : Connection.Write} {ks : List Call} (hw : Q w) (hks : Balanced Q ks) :
    Balanced Q (.write w :: ks)
  | transaction {ks js : List Call} {k : Call} (hks : Balanced Q ks)
    (hk : k = .commit ∨ k = .rollback) (hjs : Balanced Q js) :
    Balanced Q (.start :: ks ++ [k] ++ js)

section

variable {Q : Connection.Write → Prop} {p : Database → Prop}

/-- What the writes keep of the tables holds after each of the calls, and open transactions stay
as they are. -/
theorem Balanced.keeps (hp : ∀ w (c : Connection), Q w → p c.db → p (c.write w).2.db)
    {ks : List Call} (h : Balanced Q ks) {c : Connection} (hc : p c.db) :
    (∀ m ∈ path ks c, p m.db) ∧ p (follow ks c).db ∧ (follow ks c).saved = c.saved := by
  induction h generalizing c with
  | nil => exact ⟨by simp [path], hc, rfl⟩
  | @write w ks hw _ ih =>
    have hnext := hp w c hw hc
    obtain ⟨hms, hlast, hsaved⟩ := ih hnext
    exact ⟨List.forall_mem_cons.2 ⟨hnext, hms⟩, hlast, hsaved.trans (c.write_steps w).1⟩
  | @transaction ks js k _ hend _ ih ih' =>
    obtain ⟨hms, hlast, hsaved⟩ := ih (c := c.start) hc
    have hinner :
        p (k.run (follow ks c.start)).db ∧ (k.run (follow ks c.start)).saved = c.saved := by
      rcases hend with rfl | rfl
      · exact ⟨hlast, congrArg List.tail hsaved⟩
      · -- what is undone goes back to the beginning of the transaction
        have hrun : (follow ks c.start).rollback =
            { follow ks c.start with db := c.db, saved := c.saved } := by
          unfold Connection.rollback
          rw [hsaved]
          rfl
        rw [run, hrun]
        exact ⟨hc, rfl⟩
    obtain ⟨hms', hlast', hsaved'⟩ := ih' hinner.1
    rw [List.append_assoc, List.cons_append, path, follow, path_append, follow_append,
      List.cons_append, List.nil_append, path, follow]
    refine ⟨List.forall_mem_cons.2 ⟨hc, List.forall_mem_append.2 ⟨hms, ?_⟩⟩, hlast',
      hsaved'.trans hinner.2⟩
    exact List.forall_mem_cons.2 ⟨hinner.1, hms'⟩

end

variable {P : NewFire → Prop}

theorem Work.balanced {ks : List Call} (h : Work P ks) :
    Balanced (fun w => Within P (.write w)) ks := by
  induction h with
  | nil => exact .nil
  | write hw _ ih => exact .write hw ih
  | transaction _ hk _ ih ih' => exact .transaction ih hk ih'

theorem Balanced.mono {Q Q' : Connection.Write → Prop} (hQ : ∀ w, Q w → Q' w) {ks : List Call}
    (h : Balanced Q ks) : Balanced Q' ks := by
  induction h with
  | nil => exact .nil
  | write hw _ ih => exact .write (hQ _ hw) ih
  | transaction _ hk _ ih ih' => exact .transaction ih hk ih'

theorem Balanced.work {ks : List Call} (h : Balanced (fun w => Within P (.write w)) ks) :
    Work P ks := by
  induction h with
  | nil => exact .nil
  | write hw _ ih => exact .write hw ih
  | transaction _ hk _ ih ih' => exact .transaction ih hk ih'

theorem Work.within {ks : List Call} (h : Work P ks) : ∀ k ∈ ks, Within P k := by
  induction h with
  | nil => simp
  | write hw _ ih =>
    intro k hk
    rcases List.mem_cons.1 hk with rfl | hk
    · exact hw
    · exact ih k hk
  | transaction _ hend _ ih ih' =>
    intro k hk
    simp only [List.cons_append, List.append_assoc, List.mem_cons, List.mem_append,
      List.nil_append] at hk
    rcases hk with rfl | hk | rfl | hk
    · trivial
    · exact ih k hk
    · rcases hend with rfl | rfl <;> trivial
    · exact ih' k hk

theorem grows_of_within {w : Connection.Write} (hw : Within P (.write w)) (c : Connection) :
    c.db.Grows P (c.write w).2.db := by
  obtain ⟨-, ⟨fs, rfl, h⟩ | h | ⟨ids, t, result, rfl, -⟩⟩ := c.write_steps w
  · exact Database.grows_of_adds hw h
  · exact Database.grows_of_drops h
  · exact hw.elim

/-- Open transactions stay as they are, and no rows are new but those of fires within `P`. -/
theorem Work.follow {ks : List Call} (h : Work P ks) (c : Connection) :
    (Call.follow ks c).saved = c.saved ∧ c.db.Grows P (Call.follow ks c).db := by
  obtain ⟨-, hgrows, hsaved⟩ := h.balanced.keeps (p := fun db => c.db.Grows P db)
    (fun w d hw hd => hd.trans (grows_of_within hw d)) (.refl c.db)
  exact ⟨hsaved, hgrows⟩

/-- What each of some calls keeps holds after each of them. -/
theorem keeps_path {p : Connection → Prop} {ks : List Call}
    (hks : ∀ k ∈ ks, ∀ c, p c → p (k.run c)) {c : Connection} (hc : p c) :
    (∀ m ∈ path ks c, p m) ∧ p (Call.follow ks c) := by
  induction ks generalizing c with
  | nil => exact ⟨by simp [path], hc⟩
  | cons k ks ih =>
    have hk := hks k List.mem_cons_self c hc
    obtain ⟨hms, hlast⟩ := ih (fun j hj => hks j (List.mem_cons_of_mem _ hj)) hk
    refine ⟨?_, hlast⟩
    intro m hm
    rcases List.mem_cons.1 hm with rfl | hm
    · exact hk
    · exact hms m hm

end Call

/-- The write adds only fires that satisfy `adds` and drops only fires of events that satisfy
`drops`. It settles none. -/
def Connection.Write.Of (adds : NewFire → Prop) (drops : EventId → Prop) : Connection.Write → Prop
  | .add fs => ∀ f ∈ fs, adds f
  | .delete pairs => ∀ p ∈ pairs, drops p.1
  | .deleteOfEvent e => drops e
  | .deleteOfContacts _ => ∀ e, drops e
  | .mark _ _ _ => False

theorem Connection.Write.Of.mono {adds adds' : NewFire → Prop} {drops drops' : EventId → Prop}
    (hadds : ∀ f, adds f → adds' f) (hdrops : ∀ e, drops e → drops' e) {w : Connection.Write}
    (hw : w.Of adds drops) : w.Of adds' drops' := by
  cases w with
  | add fs => exact fun f hf => hadds f (hw f hf)
  | delete pairs => exact fun p hp => hdrops p.1 (hw p hp)
  | deleteOfContacts cs => exact fun e => hdrops e (hw e)
  | deleteOfEvent e => exact hdrops e hw
  | mark => exact hw

theorem Connection.Write.Of.within {adds P : NewFire → Prop} {drops : EventId → Prop}
    (hP : ∀ f, adds f → P f) {w : Connection.Write} (hw : w.Of adds drops) :
    Call.Within P (.write w) := by
  cases w with
  | add fs => exact fun f hf => hP f (hw f hf)
  | mark => exact hw
  | delete => trivial
  | deleteOfContacts => trivial
  | deleteOfEvent => trivial

/-- The contacts of the org that are stored in some copy of the tables are `mine`. -/
def Connection.Lists (org : OrgId) (mine : ContactId → Prop) (c : Connection) : Prop :=
  ∀ db ∈ c.copies, ∀ r ∈ db.contacts, r.org = org → mine r.id

namespace Connection.Lists

variable {org : OrgId} {mine : ContactId → Prop} {c : Connection}

theorem run (hc : c.Lists org mine) (k : Call) : (k.run c).Lists org mine := by
  refine forall_copies_run k c (fun w _ hdb => ?_) hc
  rw [c.write_onlyFires w]
  exact hdb

theorem follow (hc : c.Lists org mine) (ks : List Call) : (Call.follow ks c).Lists org mine :=
  (Call.keeps_path (p := Lists org mine) (fun k _ _ h => h.run k) hc).2

end Connection.Lists

namespace Traced

open Connection (Write)

variable {adds : NewFire → Prop} {drops : EventId → Prop} {mine : ContactId → Prop} {org : OrgId}
  {z : Zone} {now : Instant} {c : Connection}

theorem balanced_after {w : Connection.Write} {rest : Nat → Connection → List Call}
    (hw : w.Of adds drops)
    (hrest : ∀ n c, c.Lists org mine → Call.Balanced (Write.Of adds drops) (rest n c))
    (hc : c.Lists org mine) : Call.Balanced (Write.Of adds drops) (after w rest c) := by
  have hnext := hc.run (.write w)
  rw [← perform_follows] at hnext
  refine .write hw ?_
  split
  · exact .nil
  · rename_i h
    rw [h] at hnext
    exact hrest _ _ hnext

theorem balanced_schedule (deleted : Nat) {fires : Except (Fault CampaignError) (List NewFire)}
    (h : ∀ fs, fires = .ok fs → ∀ f ∈ fs, adds f) (c : Connection) :
    Call.Balanced (Write.Of adds drops) ((schedule deleted fires).calls c) := by
  cases fires with
  | error f => exact .nil
  | ok fs =>
    refine .write (h fs rfl) ?_
    split <;> exact .nil

theorem balanced_recomputeBatch {evs : List Event} (hdrops : ∀ ev ∈ evs, drops ev.id)
    (hadds : ∀ f, f.Computed evs z now → mine f.contact → adds f) (cs : List ContactId)
    (hc : c.Lists org mine) :
    Call.Balanced (Write.Of adds drops) ((recomputeBatch org z evs now cs).calls c) := by
  refine balanced_after (w := .delete _) ?_ (fun deleted c hc => ?_) hc
  · intro p hp
    obtain ⟨e, he, hp⟩ := List.mem_flatMap.1 hp
    obtain ⟨x, -, rfl⟩ := List.mem_map.1 hp
    obtain ⟨ev, hev, rfl⟩ := List.mem_map.1 he
    exact hdrops ev hev
  · cases hload : c.db.loadContacts org cs with
    | error e => exact .nil
    | ok contacts =>
      refine balanced_schedule _ (fun fs hfs f hf => ?_) c
      obtain ⟨⟨x, hx, hfx⟩, -⟩ := Database.firesOfAll_pairs hfs f hf
      obtain ⟨r, hr, horg, hid⟩ := Database.exists_row_of_loadContacts hload x hx
      refine hadds f (Database.computed_firesOfAll hfs f hf) ?_
      rw [hfx, ← hid]
      exact hc c.db List.mem_cons_self r hr horg

theorem balanced_deleting {w : Connection.Write} (hw : w.Of adds drops) (c : Connection) :
    Call.Balanced (Write.Of adds drops) ((deleting w).calls c) := by
  refine .write hw ?_
  split <;> exact .nil

theorem balanced_scheduleMembers {s : EventSpec} {home : Home} (hdrops : drops s.id)
    (hadds : ∀ f, f.Computed [⟨s, some home⟩] z now → mine f.contact → adds f)
    (hc : c.Lists org mine) :
    Call.Balanced (Write.Of adds drops) ((scheduleMembers org z s home.group now).calls c) := by
  simp only [scheduleMembers]
  cases hmembers : c.db.eligibleMembers org home.group s.relativeTo with
  | error e => exact .nil
  | ok members =>
    refine balanced_after (w := .deleteOfEvent s.id) hdrops (fun deleted c' _ => ?_) hc
    refine balanced_schedule _ (fun fs hfs f hf => ?_) c'
    obtain ⟨m, hm, hfm⟩ := Database.exists_member_of_firesOfMembers hfs f hf
    obtain ⟨r, hr, horg, hid⟩ := Database.exists_row_of_eligibleMembers hmembers m hm
    refine hadds f (Database.computed_firesOfMembers _ hfs f hf) ?_
    rw [hfm, ← hid]
    exact hc c.db List.mem_cons_self r hr horg

theorem ending_cases {ε α : Type} (r : Except ε α) : ending r = .commit ∨ ending r = .rollback := by
  cases r with
  | error e => exact .inr rfl
  | ok a => exact .inl rfl

theorem balanced_atomically {ε α : Type} {t : Traced ε α} {Q : Connection.Write → Prop}
    (h : Call.Balanced Q (t.calls c.start)) : Call.Balanced Q (t.atomically.calls c) := by
  rw [← List.append_nil (t.atomically.calls c)]
  exact .transaction h (ending_cases _) .nil

theorem balanced_inBatches {t : List ContactId → Traced (Fault ReconcileError) Tally}
    {Q : Connection.Write → Prop}
    (h : ∀ cs c, c.Lists org mine → Call.Balanced Q ((t cs).calls c))
    (css : List (List ContactId)) (hc : c.Lists org mine) :
    Call.Balanced Q ((inBatches t css).calls c) := by
  induction css generalizing c with
  | nil => exact .nil
  | cons cs css ih =>
    have hnext := hc.follow ((t cs).atomically.calls c)
    rw [← (t cs).atomically.follows c] at hnext
    refine .transaction (h cs _ (hc.run .start)) (ending_cases _) ?_
    split
    · exact .nil
    · rename_i hwork
      rw [hwork] at hnext
      exact ih hnext

theorem balanced_recompute (batch : Nat) {evs : List Event} (hdrops : ∀ ev ∈ evs, drops ev.id)
    (hadds : ∀ f, f.Computed evs z now → mine f.contact → adds f) (cs : List ContactId)
    (hc : c.Lists org mine) :
    Call.Balanced (Write.Of adds drops) ((recompute batch org z evs cs now).calls c) := by
  simp only [recompute]
  split
  · exact .nil
  · exact balanced_inBatches (fun cs c => balanced_recomputeBatch hdrops hadds cs) _ hc

theorem balanced_withdraw (batch : Nat) {events : List EventId} (hdrops : ∀ e ∈ events, drops e)
    (cs : List ContactId) (c : Connection) :
    Call.Balanced (Write.Of adds drops) ((withdraw batch events cs).calls c) := by
  simp only [withdraw]
  split
  · exact .nil
  · have hany : c.Lists 0 fun _ => True := fun _ _ _ _ _ => trivial
    refine balanced_inBatches (fun cs c _ => ?_) _ hany
    refine balanced_deleting (w := .delete (pairsOf events cs)) (fun p hp => ?_) c
    obtain ⟨e, he, hp⟩ := List.mem_flatMap.1 hp
    obtain ⟨x, -, rfl⟩ := List.mem_map.1 hp
    exact hdrops e he

end Traced

/-! ## What the scheduler adds -/

/-- When the scheduler is told that fires have to be computed. -/
def Change.now? : Change → Option Instant
  | .joined _ _ _ now => some now
  | .left _ _ _ => none
  | .valueSet _ _ _ now => some now
  | .eventEdited _ _ now => some now
  | .eventDropped _ => none
  | .contactsGone _ => none

/-- How a snapshot is looked up for a change: of which org, and which categories are read anew. -/
def Change.refresh? : Change → Option (OrgId × Mask)
  | .joined org _ _ _ => some (org, .empty)
  | .left org _ _ => some (org, .empty)
  | .valueSet org _ _ _ => some (org, .empty)
  | .eventEdited org _ _ => some (org, .of (.part .campaigns))
  | .eventDropped _ => none
  | .contactsGone _ => none

namespace World

open Connection (Write)

variable {δ : Type}

/-- The snapshot in which the events that a change concerns are looked up. -/
def lookup (src : Sources δ) (change : Change) (w : World δ) :
    Option (Except AssetError Snapshot × World δ) :=
  match change with
  | .joined org _ _ _ => some (w.get src org)
  | .left org _ _ => some (w.get src org)
  | .valueSet org _ _ _ => some (w.get src org)
  | .eventEdited org _ _ => some (w.refresh src org (.of (.part .campaigns)))
  | .eventDropped _ => none
  | .contactsGone _ => none

/-- The fire is one of an event that is found, at a time computed when the scheduler is told. -/
def Plans (src : Sources δ) (change : Change) (w : World δ) (f : NewFire) : Prop :=
  ∃ now ∈ change.now?, ∃ s u, w.lookup src change = some (.ok s, u) ∧
    f.Computed (allEvents s.campaigns) s.zone now

/-- The event is one of those that are looked up for the change, or the change needs no look-up. -/
def Drops (src : Sources δ) (change : Change) (w : World δ) (e : EventId) : Prop :=
  change.refresh? = none ∨
    ∃ s u, w.lookup src change = some (.ok s, u) ∧ ∃ ev ∈ allEvents s.campaigns, ev.id = e

theorem balanced_callsWith {Q : Connection.Write → Prop}
    {found : Except AssetError Snapshot × World δ}
    {t : Snapshot → Traced (Fault ReconcileError) Tally}
    (h : ∀ s u, found = (.ok s, u) → Call.Balanced Q ((t s).calls u.tables)) :
    Call.Balanced Q (callsWith found t) := by
  unfold callsWith
  split
  · exact .nil
  · exact h _ _ rfl

/-- For a change the scheduler adds fires that are planned for it, for contacts of the org, and
drops fires of events that it has looked up. -/
theorem calls_balanced (src : Sources δ) (batch : Nat) (change : Change) (w : World δ)
    (mine : ContactId → Prop)
    (hmine : ∀ s u, w.lookup src change = some (.ok s, u) →
      ∀ o, o = s.org ∨ (∃ m, change.refresh? = some (o, m)) → u.tables.Lists o mine) :
    Call.Balanced (Write.Of (fun f => w.Plans src change f ∧ mine f.contact) (w.Drops src change))
      (w.calls src batch change) := by
  have hplans {s : Snapshot} {u : World δ} {now : Instant} {evs : List Event}
      (hnow : now ∈ change.now?) (hs : w.lookup src change = some (.ok s, u))
      (hevs : evs ⊆ allEvents s.campaigns) (f : NewFire) (hf : f.Computed evs s.zone now)
      (hx : mine f.contact) : w.Plans src change f ∧ mine f.contact :=
    ⟨⟨now, hnow, s, u, hs, Database.computed_mono hevs hf⟩, hx⟩
  have hdrops {s : Snapshot} {u : World δ} {evs : List Event}
      (hs : w.lookup src change = some (.ok s, u)) (hevs : evs ⊆ allEvents s.campaigns) :
      ∀ ev ∈ evs, w.Drops src change ev.id :=
    fun ev hev => .inr ⟨s, u, hs, ev, hevs hev, rfl⟩
  cases change with
  | joined org group contacts now =>
    refine balanced_callsWith fun s u hs => ?_
    have hlook := congrArg some hs
    have hevs := (View.sublist_eventsOf s.campaigns group).subset
    exact Traced.balanced_recompute batch (hdrops hlook hevs) (hplans rfl hlook hevs) contacts
      (hmine s u hlook org (.inr ⟨_, rfl⟩))
  | left org group contacts =>
    refine balanced_callsWith fun s u hs => Traced.balanced_withdraw batch ?_ contacts _
    intro e he
    obtain ⟨ev, hev, rfl⟩ := List.mem_map.1 he
    exact hdrops (congrArg some hs) (View.sublist_eventsOf s.campaigns group).subset ev hev
  | valueSet org key contacts now =>
    refine balanced_callsWith fun s u hs => ?_
    have hlook := congrArg some hs
    have hevs := (View.sublist_eventsRelativeTo s.campaigns key).subset
    exact Traced.balanced_recompute batch (hdrops hlook hevs) (hplans rfl hlook hevs) contacts
      (hmine s u hlook org (.inr ⟨_, rfl⟩))
  | eventEdited org event now =>
    refine balanced_callsWith fun s u hs => ?_
    have hlook := congrArg some hs
    simp only [Traced.scheduleIn]
    split
    · rename_i spec home hevent
      have hevs : [⟨spec, some home⟩] ⊆ allEvents s.campaigns := by
        intro ev hev
        rw [List.mem_singleton.1 hev]
        exact (View.mem_of_event? hevent).1
      exact Traced.balanced_atomically (Traced.balanced_scheduleMembers
        (hdrops hlook hevs _ (List.mem_singleton.2 rfl)) (hplans rfl hlook hevs)
        ((hmine s u hlook s.org (.inl rfl)).run .start))
    · exact .nil
  | eventDropped event =>
    refine Traced.balanced_deleting (w := .deleteOfEvent event) ?_ _
    show w.Drops src (.eventDropped event) event
    exact .inl rfl
  | contactsGone contacts =>
    have hany : w.tables.Lists 0 fun _ => True := fun _ _ _ _ _ => trivial
    exact Traced.balanced_inBatches
      (fun cs c _ => Traced.balanced_deleting (w := .deleteOfContacts cs) (fun _ => Or.inl rfl) c) _
      hany

theorem calls_work (src : Sources δ) (batch : Nat) (change : Change) (w : World δ) :
    Call.Work (w.Plans src change) (w.calls src batch change) := by
  have hcalls := w.calls_balanced src batch change (fun _ => True)
    fun _ _ _ _ _ _ _ _ _ _ => trivial
  exact (hcalls.mono fun _ hwrite => hwrite.within fun _ hf => hf.1).work

/-- A row that is there after a change was there before, or is that of a fire planned for it. -/
theorem rows_of_reconcile {src : Sources δ} (hk : src.KeepTables) (batch : Nat) (change : Change)
    (w : World δ) : w.tables.db.Grows (w.Plans src change)
      (w.reconcile src batch change).2.tables.db := by
  rw [reconcile_follows hk]
  exact ((calls_work src batch change w).follow w.tables).2

end World
end Outreach
