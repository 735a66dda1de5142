import Outreach.Cache.SingleFlight
import Outreach.Proofs.Cache.Unseen
import Outreach.Scheduler

/-!
# Outreach.Proofs.Cache.Alike

Worlds between which nothing that is asked of the cache can tell the difference.

* `World.Alike` — worlds that are the same but for what a setoid lets differ.
* `Sources.Blind` — sources that load the same in worlds that are alike. So does then all that is
  made from them (`Sources.Blind.unseen`), up to `World.reconcile_agree` and
  `World.getTogether_agree`.
-/

namespace Outreach

variable {δ : Type} [Setoid δ]

/-! ## Worlds that are alike -/

/-- The clock, the cache and the tables are the same, and the rest is alike. -/
structure World.Alike (w w' : World δ) : Prop where
  clock : w.clock = w'.clock
  cache : w.cache = w'.cache
  tables : w.tables = w'.tables
  rest : w.rest ≈ w'.rest

namespace World.Alike

variable {u v w w' : World δ}

theorem refl (w : World δ) : Alike w w := ⟨rfl, rfl, rfl, Setoid.refl _⟩

theorem symm (h : Alike w w') : Alike w' w :=
  ⟨h.clock.symm, h.cache.symm, h.tables.symm, Setoid.symm h.rest⟩

theorem trans (h : Alike u v) (h' : Alike v w) : Alike u w :=
  ⟨h.clock.trans h'.clock, h.cache.trans h'.cache, h.tables.trans h'.tables,
    Setoid.trans h.rest h'.rest⟩

theorem withCache (h : Alike w w') {c c' : Cache} (hc : c = c') :
    Alike { w with cache := c } { w' with cache := c' } :=
  ⟨h.clock, hc, h.tables, h.rest⟩

theorem withTables (h : Alike w w') {t t' : Connection} (ht : t = t') :
    Alike { w with tables := t } { w' with tables := t' } :=
  ⟨h.clock, h.cache, ht, h.rest⟩

theorem fresh? (h : Alike w w') (org : OrgId) : w.fresh? org = w'.fresh? org := by
  unfold World.fresh?
  rw [h.clock, h.cache]

theorem keep (h : Alike w w') (s : Snapshot) : Alike (w.keep s) (w'.keep s) := by
  have hage : (w.clock.since s.builtAt < w.cache.ttl) =
      (w'.clock.since s.builtAt < w'.cache.ttl) := by
    rw [h.clock, h.cache]
  simp only [World.keep, hage]
  split
  · exact h.withCache (by rw [h.cache])
  · exact h

theorem setBuilding (h : Alike w w') {orgs orgs' : List OrgId} (horgs : orgs = orgs') :
    Alike (w.setBuilding orgs) (w'.setBuilding orgs') :=
  h.withCache (by rw [h.cache, horgs])

end World.Alike

/-- The results are the same, and the worlds alike. -/
structure Agree {α : Type} (x y : α × World δ) : Prop where
  result : x.1 = y.1
  world : x.2.Alike y.2

namespace Agree

variable {α ε : Type}

theorem both {x y : α × World δ} (h : Agree x y) : Both World.Alike x y := ⟨h.result, h.world⟩

/-- Both fail for the same reason, or both succeed with the same result. -/
theorem error_or_ok {x y : Except ε α × World δ} (h : Agree x y) :
    (∃ e v v', x = (.error e, v) ∧ y = (.error e, v') ∧ v.Alike v') ∨
      ∃ a v v', x = (.ok a, v) ∧ y = (.ok a, v') ∧ v.Alike v' :=
  h.both.error_or_ok

end Agree

theorem Both.agree {α : Type} {x y : α × World δ} (h : Both World.Alike x y) : Agree x y :=
  ⟨h.result, h.world⟩

/-- Whatever is loaded is the same in worlds that are alike, and they stay so. -/
structure Sources.Blind (src : Sources δ) : Prop where
  load : ∀ p org {w w' : World δ}, w.Alike w' → Agree (src.load p org w) (src.load p org w')
  loadFlow : ∀ org ref {w w' : World δ}, w.Alike w' →
    Agree (src.loadFlow org ref w) (src.loadFlow org ref w')

/-- Nobody sees the difference between worlds that are alike. -/
theorem Sources.Blind.unseen {src : Sources δ} (hsrc : src.Blind) :
    World.Unseen src (fun _ => True) World.Alike where
  clock h := h.clock
  ttl h := congrArg Cache.ttl h.cache
  entry h _ := by rw [h.cache]
  serial h _ := by rw [h.cache]
  shelf n h _ := by rw [h.cache]
  building h _ := by rw [h.cache]
  edit e h := h.withCache (by rw [h.cache])
  load p h _ := (hsrc.load p _ h).both
  loadFlow ref h _ := (hsrc.loadFlow _ ref h).both

/-! ## Snapshots and flows -/

namespace World

variable {src : Sources δ} {w w' : World δ}

theorem readPart_agree (hsrc : src.Blind) (h : w.Alike w') (org : OrgId) (p : Part) :
    Agree (readPart src org p w) (readPart src org p w') :=
  (hsrc.unseen.readPart h trivial p).agree

theorem refresh_agree (hsrc : src.Blind) (org : OrgId) (m : Mask) (h : w.Alike w') :
    Agree (w.refresh src org m) (w'.refresh src org m) :=
  (hsrc.unseen.refresh m h trivial).agree

theorem get_agree (hsrc : src.Blind) (org : OrgId) (h : w.Alike w') :
    Agree (w.get src org) (w'.get src org) :=
  (hsrc.unseen.get h trivial).agree

theorem flow_agree (hsrc : src.Blind) (s : Snapshot) (ref : FlowRef) (h : w.Alike w') :
    Agree (w.flow src s ref) (w'.flow src s ref) :=
  (hsrc.unseen.flow ref h trivial).agree

theorem simulate_agree (hsrc : src.Blind) (s : Snapshot) (l : List (Uuid × JsonValue))
    (extra : List Channel) (h : w.Alike w') :
    Agree (w.simulate src s l extra) (w'.simulate src s l extra) :=
  (hsrc.unseen.simulate l extra h trivial).agree

/-! ## The scheduler -/

theorem onTables_agree (work : Connection → Worked Tally) (h : w.Alike w') :
    Agree (w.onTables work) (w'.onTables work) := by
  unfold onTables
  rw [h.tables]
  split <;> exact ⟨rfl, h.withTables rfl⟩

theorem withSnapshot_agree {x y : Except AssetError Snapshot × World δ} (h : Agree x y)
    (work : Snapshot → Connection → Worked Tally) :
    Agree (withSnapshot x work) (withSnapshot y work) := by
  obtain ⟨e, v, v', rfl, rfl, hv⟩ | ⟨s, v, v', rfl, rfl, hv⟩ := h.error_or_ok
  · exact ⟨rfl, hv⟩
  · exact onTables_agree (work s) hv

theorem reconcile_agree (hsrc : src.Blind) (batch : Nat) (change : Change) (h : w.Alike w') :
    Agree (w.reconcile src batch change) (w'.reconcile src batch change) := by
  cases change with
  | joined org => exact withSnapshot_agree (get_agree hsrc org h) _
  | left org => exact withSnapshot_agree (get_agree hsrc org h) _
  | valueSet org => exact withSnapshot_agree (get_agree hsrc org h) _
  | eventEdited org => exact withSnapshot_agree (refresh_agree hsrc org _ h) _
  | eventDropped => exact onTables_agree _ h
  | contactsGone => exact onTables_agree _ h

end World

/-! ## Callers at the same time -/

namespace Crowd

/-- Callers have come as far, in worlds that are alike. -/
structure Alike (c c' : Crowd δ) : Prop where
  world : c.world.Alike c'.world
  callers : c.callers = c'.callers
  loading : c.loading = c'.loading
  cells : c.cells = c'.cells
  nextCell : c.nextCell = c'.nextCell

/-- A caller goes on in the same way, and the crowds stay alike. -/
structure Agree (x y : Phase × Crowd δ) : Prop where
  phase : x.1 = y.1
  crowd : x.2.Alike y.2

variable {src : Sources δ} {c c' : Crowd δ}

theorem Alike.setWorld (h : c.Alike c') {w w' : World δ} (hw : w.Alike w') :
    (c.setWorld w).Alike (c'.setWorld w') :=
  ⟨hw, h.callers, h.loading, h.cells, h.nextCell⟩

theorem Alike.setCell (h : c.Alike c') (n : Nat) (cell : Cell) :
    (c.setCell n cell).Alike (c'.setCell n cell) :=
  ⟨h.world, h.callers, h.loading, by simp only [Crowd.setCell, h.cells], h.nextCell⟩

theorem look_agree (r : Request) (h : c.Alike c') : Agree (c.look r) (c'.look r) := by
  unfold look
  rw [h.world.fresh? r.org]
  split
  · exact ⟨rfl, h⟩
  · split <;> exact ⟨rfl, h⟩

theorem register_alike (org : OrgId) (h : c.Alike c') :
    (c.register org).1 = (c'.register org).1 ∧ (c.register org).2.Alike (c'.register org).2 := by
  unfold register
  rw [h.loading]
  split
  · exact ⟨rfl, h⟩
  · exact ⟨h.nextCell, h.world, h.callers, by simp only [h.nextCell],
      by simp only [h.cells, h.nextCell], by simp only [h.nextCell]⟩

theorem unregister_alike (org : OrgId) (n : Nat) (h : c.Alike c') :
    (c.unregister org n).Alike (c'.unregister org n) := by
  unfold unregister
  rw [h.loading]
  split
  · exact ⟨h.world, h.callers, rfl, h.cells, h.nextCell⟩
  · exact h

theorem enter_agree (n : Nat) (h : c.Alike c') : Agree (c.enter n) (c'.enter n) := by
  unfold enter
  rw [h.cells]
  split
  · exact ⟨rfl, h⟩
  · exact ⟨rfl, h.setCell n .busy⟩
  · exact ⟨rfl, h⟩

theorem check_agree (org : OrgId) (n : Nat) (h : c.Alike c') :
    Agree (c.check org n) (c'.check org n) := by
  unfold check
  rw [h.world.fresh? org, h.world.cache]
  split
  · exact ⟨rfl, h⟩
  · split
    · exact ⟨rfl, h⟩
    · exact ⟨by simp only [h.world.clock], h.setWorld (h.world.setBuilding rfl)⟩

theorem readNext_agree (hsrc : src.Blind) (org : OrgId) (n : Nat) (started : Instant)
    (done : List Reading) (todo : List Part) (h : c.Alike c') :
    Agree (c.readNext src org n started done todo) (c'.readNext src org n started done todo) := by
  cases todo with
  | nil =>
    simp only [readNext, h.world.cache]
    exact ⟨rfl, h.setWorld (h.world.withCache rfl)⟩
  | cons p ps =>
    simp only [readNext]
    obtain ⟨e, v, v', hx, hy, hv⟩ | ⟨r, v, v', hx, hy, hv⟩ :=
      (World.readPart_agree hsrc h.world org p).error_or_ok
    · rw [hx, hy]
      exact ⟨rfl, h.setWorld (hv.setBuilding (by rw [hv.cache]))⟩
    · rw [hx, hy]
      exact ⟨rfl, h.setWorld hv⟩

theorem refreshNext_agree (hsrc : src.Blind) (r : Request) (prev : Snapshot)
    (done : List Reading) (todo : List Part) (h : c.Alike c') :
    Agree (c.refreshNext src r prev done todo) (c'.refreshNext src r prev done todo) := by
  cases todo with
  | nil =>
    have hnew :
        c.world.cache.assemble r.org (some prev) (r.mask.reloads .flows) c.world.clock done =
          c'.world.cache.assemble r.org (some prev) (r.mask.reloads .flows) c'.world.clock done := by
      rw [h.world.cache, h.world.clock]
    simp only [refreshNext, hnew]
    exact ⟨rfl, h.setWorld (h.world.withCache rfl)⟩
  | cons p ps =>
    simp only [refreshNext]
    obtain ⟨e, v, v', hx, hy, hv⟩ | ⟨d, v, v', hx, hy, hv⟩ :=
      (World.readPart_agree hsrc h.world r.org p).error_or_ok
    · rw [hx, hy]
      exact ⟨rfl, h.setWorld hv⟩
    · rw [hx, hy]
      exact ⟨rfl, h.setWorld hv⟩

theorem advance_agree (hsrc : src.Blind) (r : Request) (phase : Phase) (h : c.Alike c') :
    Agree (c.advance src r phase) (c'.advance src r phase) := by
  cases phase with
  | looking => exact look_agree r h
  | joining =>
    obtain ⟨hcell, hc⟩ := register_alike r.org h
    exact ⟨congrArg Phase.joined hcell, hc⟩
  | joined n => exact enter_agree n h
  | checking n => exact check_agree r.org n h
  | building n started todo done => exact readNext_agree hsrc r.org n started done todo h
  | publishing n s =>
    exact ⟨rfl, h.setWorld ((h.world.keep s).setBuilding
      (by rw [(h.world.keep s).cache]))⟩
  | settling n res => exact ⟨rfl, h.setCell n (.settled res)⟩
  | leaving n res => exact ⟨rfl, unregister_alike r.org n h⟩
  | refreshing prev todo done => exact refreshNext_agree hsrc r prev done todo h
  | finished res => exact ⟨rfl, h⟩

theorem step_alike (hsrc : src.Blind) (i : Nat) (h : c.Alike c') :
    (c.step src i).Alike (c'.step src i) := by
  unfold step
  rw [h.callers]
  split
  · exact h
  · rename_i caller _
    obtain ⟨hphase, hc⟩ := advance_agree hsrc caller.request caller.phase h
    exact ⟨hc.world, by simp only [hphase, hc.callers], hc.loading, hc.cells, hc.nextCell⟩

theorem run_alike (hsrc : src.Blind) (turns : List Nat) (h : c.Alike c') :
    (c.run src turns).Alike (c'.run src turns) := by
  induction turns generalizing c c' with
  | nil => exact h
  | cons i turns ih => exact ih (step_alike hsrc i h)

end Crowd

theorem World.getTogether_agree {src : Sources δ} {w w' : World δ} (hsrc : src.Blind) (org : OrgId)
    (callers : Nat) (h : w.Alike w') :
    Agree (w.getTogether src org callers) (w'.getTogether src org callers) := by
  unfold getTogether
  have hstart : Crowd.Alike
      { world := w, callers := List.replicate callers ⟨⟨org, .empty⟩, .looking⟩ }
      { world := w', callers := List.replicate callers ⟨⟨org, .empty⟩, .looking⟩ } :=
    ⟨h, rfl, rfl, rfl, rfl⟩
  have hc := Crowd.run_alike hsrc (List.replicate rounds (List.range callers)).flatten hstart
  exact ⟨by simp only [hc.callers], hc.world⟩

end Outreach
