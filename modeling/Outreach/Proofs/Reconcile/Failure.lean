import Outreach.Proofs.Reconcile.Success
import Outreach.Proofs.Scheduler

/-!
# Outreach.Proofs.Reconcile.Failure

What a change that cannot be brought to its end leaves in the tables.

`World.failed_batch_alone_undone`: a renewal that fails at some batch leaves the tables as the
batches before it made them, inside an open transaction too. When whatever made it fail has been
mended, telling it again comes to what telling it once would have come to. An edited event whose
fires cannot be computed leaves the tables as they were.
-/

namespace Outreach
namespace Connection

variable {org : OrgId} {z : Zone} {evs : List Event} {now : Instant} {batch : Nat}
  {contacts : List ContactId} {c₀ c c' : Connection} {f : Fault ReconcileError}

/-- Batches of contacts succeed and lead from `c₀` to `c`, where the next one fails. -/
def StopsAt (batch : Nat) (org : OrgId) (z : Zone) (evs : List Event) (contacts : List ContactId)
    (now : Instant) (c₀ c : Connection) (f : Fault ReconcileError) : Prop :=
  ∃ done piece rest tally c', chunksOf batch contacts = done ++ piece :: rest ∧
    c₀.recompute batch org z evs done.flatten now = (.ok tally, c) ∧
    c.recompute batch org z evs piece now = (.error f, c')

/-- What comes after batches that succeed starts where they end. -/
theorem inBatches_append_of_ok {work : List ContactId → Connection → Worked Tally}
    {css dss : List (List ContactId)} {t : Tally} (h : inBatches work css c₀ = (.ok t, c))
    (h' : inBatches work dss c = (.error f, c')) :
    inBatches work (css ++ dss) c₀ = (.error f, c') := by
  induction css generalizing c₀ t with
  | nil =>
    cases h
    exact h'
  | cons cs css ih =>
    unfold inBatches at h
    split at h
    · cases h
    · rename_i t₁ c₁ hfirst
      split at h
      · cases h
      · rename_i hrest
        cases h
        simp only [List.cons_append, inBatches, hfirst, ih hrest]

/-- The batch that fails is the last one tried, and is undone. -/
theorem StopsAt.recompute (h : StopsAt batch org z evs contacts now c₀ c f) :
    ∃ c', c₀.recompute batch org z evs contacts now = (.error f, c') ∧ c'.db = c.db := by
  obtain ⟨done, piece, rest, tally, c', hchunks, hdone, hfail⟩ := h
  have hpiece : piece ∈ chunksOf batch contacts := by simp [hchunks]
  unfold Connection.recompute at hdone hfail ⊢
  split at hfail
  · -- without events nothing is tried that could fail
    cases hfail
  · rename_i hevents
    -- the batches of the contacts before `piece` are `done`, and `piece` is a batch of its own
    rw [if_neg hevents, chunksOf_flatten_of_append hchunks] at hdone
    rw [chunksOf_of_mem hpiece] at hfail
    have hundone : c.atomically (recomputeBatch org z evs now piece) = (.error f, c') := by
      unfold inBatches at hfail
      split at hfail
      · rename_i h
        cases hfail
        exact h
      · cases hfail
    have hrest : inBatches (recomputeBatch org z evs now) (piece :: rest) c = (.error f, c') := by
      simp only [inBatches, hundone]
    rw [if_neg hevents, hchunks]
    exact ⟨c', inBatches_append_of_ok hdone hrest,
      (atomically_of_error (frame_recomputeBatch evs piece) hundone).1⟩

/-- Up to the batch that fails, no rows but the fires of the contacts are touched. -/
theorem StopsAt.kept (h : StopsAt batch org z evs contacts now c₀ c f) (hk : c₀.db.Keyed) :
    c.db.withoutPending (Database.pairsWith (evs.map Event.id).contains contacts) =
      c₀.db.withoutPending (Database.pairsWith (evs.map Event.id).contains contacts) := by
  obtain ⟨done, piece, rest, tally, c', hchunks, hdone, -⟩ := h
  have hle : ∀ e x, Database.pairsWith (evs.map Event.id).contains done.flatten e x = true →
      Database.pairsWith (evs.map Event.id).contains contacts e x = true := by
    intro e x hpair
    obtain ⟨he, hx⟩ := Database.pairsWith_iff.1 hpair
    refine Database.pairsWith_iff.2 ⟨he, ?_⟩
    rw [← flatten_chunksOf batch contacts, hchunks, List.flatten_append]
    exact List.mem_append_left _ hx
  rw [← Database.withoutPending_of_le c.db hle, (renews_recompute hk hdone).replaced.kept,
    Database.withoutPending_of_le c₀.db hle]

theorem StopsAt.frame (h : StopsAt batch org z evs contacts now c₀ c f) : c₀.Frame c := by
  obtain ⟨done, piece, rest, tally, c', -, hdone, -⟩ := h
  exact .of_eq (frame_recompute batch evs _ c₀) hdone

/-- The same tables but for the rows of fires. -/
def withFires (rows : List FireRow) (c : Connection) : Connection :=
  { c with db := { c.db with fires := rows } }

end Connection

namespace World

variable {δ : Type} {src src' : Sources δ} {org : OrgId} {z z' : Zone} {cs : List Campaign}
  {w w' u u' : World δ} {r : Renewal} {contacts : List ContactId} {now : Instant} {batch : Nat}

/-- What made a renewal of `evs` fail, which left `db`, has been repaired. Contacts and campaigns
may be others now, but the same events are concerned, and no fires have been touched, unless some
were deleted along with what they were for. -/
structure Repaired (r : Renewal) (org : OrgId) (z : Zone) (cs : List Campaign) (evs : List Event)
    (keep : FireRow → Bool) (db : Database) (src : Sources δ) (u : World δ) : Prop where
  keyed : u.tables.db.Keyed
  finds : Finds org z cs u (u.get src org)
  fires : u.tables.db.fires = db.fires.filter keep
  concerned : ∀ e, e ∈ (r.events (View.ofCampaigns cs)).map Event.id ↔ e ∈ evs.map Event.id

/-- Told again after the repair, the change comes to what it would have come to if it had been told
once, with the fires that there were at first. -/
theorem pendingAt_repaired {evs : List Event} {c₀ c : Connection} {f : Fault ReconcileError}
    (hk : c₀.db.Keyed) (hstop : c₀.StopsAt batch org z evs contacts now c f)
    {keep : FireRow → Bool} (hu : Repaired r org z' cs evs keep c.db src' u) {batch' : Nat}
    {tally : Tally} (h : u.reconcile src' batch' (r.change org contacts now) = (.ok tally, u')) :
    ∃ tally' c', (u.tables.withFires (c₀.db.fires.filter keep)).recompute batch' org z'
        (r.events (View.ofCampaigns cs)) contacts now = (.ok tally', c') ∧
      ∀ e x text, u'.tables.db.PendingAt e x text ↔ c'.db.PendingAt e x text := by
  have hrun := recompute_of_renewal hu.finds h
  have halike : u.tables.AlikeButFires (u.tables.withFires (c₀.db.fires.filter keep)) :=
    ⟨rfl, rfl⟩
  -- success does not hang on the fires, so the call would have succeeded with the first ones too
  obtain ⟨tally', c', hsingle, -⟩ :=
    Connection.unhindered_recompute batch' contacts _ _ _ _ halike hrun
  refine ⟨tally', c', hsingle, fun e x text => ?_⟩
  have hagain := (Connection.renews_recompute hu.keyed hrun).replaced
  have honce := (Connection.renews_recompute (halike.db.keyed hu.keyed) hsingle).replaced
  have hids : ((r.events (View.ofCampaigns cs)).map Event.id).contains =
      (evs.map Event.id).contains := by
    funext e
    rw [Bool.eq_iff_iff, List.contains_iff_mem, List.contains_iff_mem]
    exact hu.concerned e
  rw [hids] at hagain honce
  -- what is outside the pairs is still as it was before the call that failed
  have hkept := Database.kept_filter (hstop.kept hk) keep u.tables.db
  rw [← hu.fires] at hkept
  exact ((hagain.agree honce hkept.symm).2 e x text).symm

theorem renewal_of_error (hk : src.KeepTables) {s : Snapshot} {w₁ : World δ}
    (hget : w.get src org = (.ok s, w₁)) {c : Connection} {f : Fault ReconcileError}
    (h : w.tables.recompute batch org s.zone (r.events s.view) contacts now = (.error f, c)) :
    ∃ w', w.reconcile src batch (r.change org contacts now) =
        (.error (SchedulerError.ofReconcile f), w') ∧ w'.tables = c := by
  have htables : w₁.tables = w.tables := by
    have hsame := get_tables hk org w
    rwa [hget] at hsame
  refine ⟨{ w₁ with tables := c }, ?_, rfl⟩
  rw [← htables] at h
  cases r with
  | joined group => exact withSnapshot_of_error hget h
  | valueSet key => exact withSnapshot_of_error hget h

/-- An edited event that cannot be scheduled leaves the tables and what is open on them alone. -/
theorem eventEdited_of_error (hk : src.KeepTables) {e : EventId} {f : Fault SchedulerError}
    (h : w.reconcile src batch (.eventEdited org e now) = (.error f, w')) :
    w'.tables.db = w.tables.db ∧ w'.tables.saved = w.tables.saved := by
  have htables := refresh_tables hk org (.of (.part .campaigns)) w
  simp only [reconcile, withSnapshot] at h
  split at h
  · rename_i hfound
    rw [hfound] at htables
    cases h
    exact ⟨congrArg Connection.db htables, congrArg Connection.saved htables⟩
  · rename_i s w₁ hfound
    rw [hfound] at htables
    rw [← show w₁.tables = w.tables from htables]
    unfold onTables at h
    split at h
    · cases h
    · rename_i hrun
      cases h
      unfold scheduleIn at hrun
      split at hrun
      · rename_i spec home _
        exact Connection.atomically_of_error
          (Connection.frame_scheduleMembers spec home.group) hrun
      · cases hrun
        exact ⟨rfl, rfl⟩

/-- A renewal that fails at some batch leaves what the batches before it alone would have left,
to those outside an open transaction too, and the transactions that were open stay so. This is for
a failure with a cause (`Fault.cause`): the run goes on, and the call can be told again. Of an
overflow, which ends the run, only what is said of `committed` is to be read
(`Connection.atomically`). -/
theorem failed_batch_alone_undone (hk : src.KeepTables) (w : World δ) :
    (∀ (r : Renewal) contacts now batch s w₁ c f, w.tables.db.Keyed →
      w.get src org = (.ok s, w₁) →
      w.tables.StopsAt batch org s.zone (r.events s.view) contacts now c f →
      ∃ w', w.reconcile src batch (r.change org contacts now) =
          (.error (SchedulerError.ofReconcile f), w') ∧
        w'.tables.db = c.db ∧ w'.tables.saved = w.tables.saved ∧
        w'.tables.committed = c.committed ∧
        ∀ (src' : Sources δ) z cs keep u batch' tally u',
          Repaired r org z cs (r.events s.view) keep w'.tables.db src' u →
          u.reconcile src' batch' (r.change org contacts now) = (.ok tally, u') →
          ∃ tally' c', (u.tables.withFires (w.tables.db.fires.filter keep)).recompute batch' org z
              (r.events (View.ofCampaigns cs)) contacts now = (.ok tally', c') ∧
            ∀ e x text, u'.tables.db.PendingAt e x text ↔ c'.db.PendingAt e x text) ∧
    ∀ e now batch f w', w.reconcile src batch (.eventEdited org e now) = (.error f, w') →
      w'.tables.db = w.tables.db ∧ w'.tables.saved = w.tables.saved := by
  constructor
  · intro r contacts now batch s w₁ c f hkeyed hget hstop
    obtain ⟨c', hrun, hdb⟩ := hstop.recompute
    obtain ⟨w', hw', rfl⟩ := renewal_of_error hk hget hrun
    have hframe := reconcile_frame hk batch (r.change org contacts now) w
    rw [hw'] at hframe
    have hsaved : w'.tables.saved = c.saved := hframe.saved.trans hstop.frame.saved.symm
    refine ⟨w', hw', hdb, hframe.saved, ?_, ?_⟩
    · rw [Connection.committed, hsaved, hdb, Connection.committed]
    · intro src' z cs keep u batch' tally u' hu hagain
      rw [hdb] at hu
      exact pendingAt_repaired hkeyed hstop hu hagain
  · exact fun e now batch f w' h => eventEdited_of_error hk h

end World

section

namespace Sample

/-- The second member with the date of creation written so. -/
def second (createdOn : String) : ContactRow :=
  { another 2 1 true with createdOn }

/-- Both members have pending fires at wrong times, numbered 1 and 2. -/
def pairOf (createdOn : String) : Database :=
  { contacts := [contact, second createdOn]
    members := [⟨5, 1⟩, ⟨5, 2⟩]
    fires := [1, 2].map fun x => ⟨x, 10, x, "2024-01-01T09:00:00.000Z", none, none⟩ }

def reminders : List Event := (View.ofCampaigns [campaign]).eventsOf 5

/-- In an open transaction, with a date that cannot be read. -/
def unreadable : Connection := { db := pairOf "soon", saved := [pairOf "soon"] }

/-- What the first batch leaves: the fire of the first member is a new one. -/
def halfway : Connection :=
  (unreadable.recompute 1 1 Zone.utc reminders [1] (minutesLater 30)).2

theorem stopsAt_second :
    unreadable.StopsAt 1 1 Zone.utc reminders [1, 2, 1] (minutesLater 30) halfway
      (.cause (.store (.unreadable (.timestamp "soon")))) :=
  ⟨[[1]], [2], [[1]], ⟨1, 1⟩,
    (halfway.recompute 1 1 Zone.utc reminders [2] (minutesLater 30)).2,
    by decide +kernel, Prod.ext (by decide +kernel) rfl, Prod.ext (by decide +kernel) rfl⟩

/-- One member with a pending fire; the next addition of fires is refused. -/
def refusing : Connection :=
  { db :=
      { contacts := [contact]
        members := [⟨5, 1⟩]
        fires := [⟨1, 10, 1, "2024-01-01T09:00:00.000Z", none, none⟩] }
    refusal := 1 }

end Sample

open Sample

/-- The first member's fire is a new one, the second's is the old one, and the transaction goes on.
With the date put right, both are as if nothing had happened. -/
theorem World.failed_batch_alone_undone_of_unreadable :
    let w := World.ofTables unreadable
    let w' := (w.reconcile sources 1 (.joined 1 5 [1, 2, 1] (minutesLater 30))).2
    let u := World.ofTables
      { db := { pairOf "2024-01-01T00:20:00Z" with fires := w'.tables.db.fires } }
    let u' := (u.reconcile sources 0 (.joined 1 5 [1, 2, 1] (minutesLater 30))).2
    let v := World.ofTables refusing
    w'.tables.db.fires =
        [⟨2, 10, 2, "2024-01-01T09:00:00.000Z", none, none⟩,
          ⟨3, 10, 1, "2024-01-01T01:00:00.000Z", none, none⟩] ∧
      w'.tables.saved = [pairOf "soon"] ∧ w'.tables.committed = pairOf "soon" ∧
      (∃ tally c', (u.tables.withFires (pairOf "soon").fires).recompute 0 1 Zone.utc reminders
          [1, 2, 1] (minutesLater 30) = (.ok tally, c') ∧
        ∀ e x text, u'.tables.db.PendingAt e x text ↔ c'.db.PendingAt e x text) ∧
      (v.reconcile sources 1 (.eventEdited 1 10 (minutesLater 30))).2.tables.db =
        refusing.db := by
  intro w w' u u' v
  obtain ⟨s, hs⟩ : ∃ s, (w.get sources 1).1 = .ok s := ⟨_, rfl⟩
  have hget : w.get sources 1 = (.ok s, (w.get sources 1).2) := Prod.ext hs rfl
  obtain ⟨-, hzone, hcampaigns⟩ := (finds_campaign unreadable).snapshot s hs
  have hview : (Renewal.joined 5).events s.view = reminders := by
    rw [Snapshot.view, hcampaigns]
    rfl
  have hstop := stopsAt_second
  rw [← hview, ← hzone] at hstop
  have hkeyed : w.tables.db.Keyed := ⟨by decide, by decide⟩
  have hkeep := sources_steady.keepTables
  obtain ⟨w₂, hw₂, hdb, hsaved, hcommitted, hagain⟩ :=
    (World.failed_batch_alone_undone hkeep w).1 (.joined 5) [1, 2, 1] (minutesLater 30) 1 s _ _ _
      hkeyed hget hstop
  obtain rfl : w' = w₂ := congrArg Prod.snd hw₂
  refine ⟨?_, hsaved, ?_, ?_, ?_⟩
  · rw [hdb]
    decide +kernel
  · rw [hcommitted, Connection.committed, stopsAt_second.frame.saved]
    rfl
  · have hu : World.Repaired (.joined 5) 1 Zone.utc [campaign] ((Renewal.joined 5).events s.view)
        (fun _ => true) w'.tables.db sources u := by
      refine ⟨⟨by decide, by decide⟩, finds_campaign _, (List.filter_true _).symm,
        fun e => ?_⟩
      rw [Snapshot.view, hcampaigns]
    have hrepeat : u.reconcile sources 0 (.joined 1 5 [1, 2, 1] (minutesLater 30)) =
        (.ok ⟨3, 3⟩, u') :=
      Prod.ext (by decide +kernel) rfl
    have hconverges := hagain sources Zone.utc [campaign] _ u 0 _ u' hu hrepeat
    rwa [List.filter_true] at hconverges
  · have hedited : v.reconcile sources 1 (.eventEdited 1 10 (minutesLater 30)) =
        (.error (.cause (.reconcile .refused)), _) :=
      Prod.ext (by decide +kernel) rfl
    exact ((World.failed_batch_alone_undone hkeep v).2 10 (minutesLater 30) 1 _ _ hedited).1

end

end Outreach
