import Outreach.Proofs.Cache.Failure
import Outreach.Proofs.Cache.Unseen

/-!
# Outreach.Proofs.Cache.Tenants

Orgs that share a cache and a store in memory see nothing of each other.

* `Move` — what is asked for an org, or done to all of them. `Desk.log` is what is answered, which
  for snapshots and flows includes which of them are one and the same.
* `World.Beside` — worlds that differ in what belongs to one org.
* `Desk.log_without` — the main result: without what is asked for one org, everything else is
  answered the same.
-/

namespace Outreach

/-! ## What is asked -/

/-- What is asked for one org. Its snapshots are numbered as they were handed out. -/
inductive Order where
  | get
  | refresh (m : Mask)
  /-- A flow is looked up in a snapshot. -/
  | flow (k : Nat) (ref : FlowRef)
  /-- All flows that are on the shelf of a snapshot. -/
  | flows (k : Nat)
  | simulate (k : Nat) (replacements : List (Uuid × JsonValue)) (extra : List Channel)
  /-- The data of the org in the store is replaced. -/
  | insert (d : OrgData)
  | update (f : OrgData → OrgData)

inductive Move where
  | order (org : OrgId) (o : Order)
  | clock (t : Instant)
  | flush
  /-- Every load of a category fails from now on. -/
  | fail (c : Category) (message : String)
  | clear (c : Category)

/-- Whether something is asked for the org. -/
def Move.isFor (org : OrgId) : Move → Bool
  | .order o _ => o == org
  | _ => false

inductive Reply where
  | done
  | snapshot (r : Outcome)
  /-- A flow, and its copy on the shelf. -/
  | flow (r : Except AssetError Flow) (copy : Option Shelved)
  | flows (shelf : Shelf)
  | noSnapshot

/-- The cache and the store, and the snapshots that were handed out for each org. -/
structure Desk where
  world : World AssetStore
  held : OrgId → List Snapshot := fun _ => []

namespace Desk

/-- A snapshot is handed out, unless it could not be made. -/
def handOut (d : Desk) (org : OrgId) : Outcome × World AssetStore → Reply × Desk
  | (.error e, w) => (.snapshot (.error e), { d with world := w })
  | (.ok s, w) =>
    (.snapshot (.ok s),
     { world := w, held := fun o => if o = org then d.held o ++ [s] else d.held o })

def setStore (d : Desk) (store : AssetStore) : Desk :=
  { d with world := { d.world with rest := store } }

def order (org : OrgId) (d : Desk) : Order → Reply × Desk
  | .get => d.handOut org (d.world.get .ofStore org)
  | .refresh m => d.handOut org (d.world.refresh .ofStore org m)
  | .flow k ref =>
    match (d.held org)[k]? with
    | none => (.noSnapshot, d)
    | some s =>
      let (r, w) := d.world.flow .ofStore s ref
      (.flow r ((w.shelfOf s).find? ref), { d with world := w })
  | .flows k =>
    match (d.held org)[k]? with
    | none => (.noSnapshot, d)
    | some s => (.flows (d.world.shelfOf s), d)
  | .simulate k replacements extra =>
    match (d.held org)[k]? with
    | none => (.noSnapshot, d)
    | some s => d.handOut org (d.world.simulate .ofStore s replacements extra)
  | .insert data => (.done, d.setStore (d.world.rest.insertOrg org data))
  | .update f => (.done, d.setStore (d.world.rest.update org f))

def move (d : Desk) : Move → Reply × Desk
  | .order org o => d.order org o
  | .clock t => (.done, { d with world := { d.world with clock := t } })
  | .flush => (.done, { d with world := d.world.flush })
  | .fail c message => (.done, d.setStore (d.world.rest.fail c message))
  | .clear c => (.done, d.setStore (d.world.rest.clear c))

/-- What is answered to moves one after the other. -/
def log : List Move → Desk → List (Move × Reply)
  | [], _ => []
  | m :: ms, d =>
    let (r, d) := d.move m
    (m, r) :: log ms d

/-- A new cache over a store. -/
def new (clock : Instant) (ttl : Span) (store : AssetStore) : Desk :=
  { world := { clock, cache := { ttl }, rest := store } }

/-- Entries and snapshots are kept under the org that they are of. -/
structure Filed (d : Desk) : Prop where
  entries : d.world.Filed
  held : ∀ org, ∀ s ∈ d.held org, s.org = org

end Desk

theorem Sources.keepFiled_ofStore : Sources.ofStore.KeepFiled where
  load _ _ _ hw := hw
  loadFlow _ _ _ hw := hw

/-! ## Worlds that differ in one org -/

/-- The worlds differ at most in the snapshots, the flows and the data of the org, and in what was
counted. -/
structure World.Beside (org : OrgId) (w w' : World AssetStore) : Prop where
  clock : w.clock = w'.clock
  ttl : w.cache.ttl = w'.cache.ttl
  entries : ∀ o ≠ org, w.cache.entries.find? o = w'.cache.entries.find? o
  serials : ∀ o ≠ org, w.cache.nextSerial o = w'.cache.nextSerial o
  shelves : ∀ o ≠ org, ∀ n, w.cache.shelf o n = w'.cache.shelf o n
  building : ∀ o ≠ org, w.cache.building.count o = w'.cache.building.count o
  data : ∀ o ≠ org, w.rest.orgs.find? o = w'.rest.orgs.find? o
  forced : w.rest.forced = w'.rest.forced

namespace World

variable {org : OrgId} {u v w w' : World AssetStore}

namespace Beside

theorem refl (w : World AssetStore) : Beside org w w :=
  ⟨rfl, rfl, fun _ _ => rfl, fun _ _ => rfl, fun _ _ _ => rfl, fun _ _ => rfl, fun _ _ => rfl, rfl⟩

theorem symm (h : Beside org w w') : Beside org w' w where
  clock := h.clock.symm
  ttl := h.ttl.symm
  entries o ho := (h.entries o ho).symm
  serials o ho := (h.serials o ho).symm
  shelves o ho n := (h.shelves o ho n).symm
  building o ho := (h.building o ho).symm
  data o ho := (h.data o ho).symm
  forced := h.forced.symm

theorem trans (h : Beside org u v) (h' : Beside org v w) : Beside org u w where
  clock := h.clock.trans h'.clock
  ttl := h.ttl.trans h'.ttl
  entries o ho := (h.entries o ho).trans (h'.entries o ho)
  serials o ho := (h.serials o ho).trans (h'.serials o ho)
  shelves o ho n := (h.shelves o ho n).trans (h'.shelves o ho n)
  building o ho := (h.building o ho).trans (h'.building o ho)
  data o ho := (h.data o ho).trans (h'.data o ho)
  forced := h.forced.trans h'.forced

/-- The rest of the worlds changes, but not in what it holds of other orgs. -/
theorem withRest (h : Beside org w w') {s s' : AssetStore}
    (hdata : ∀ o ≠ org, s.orgs.find? o = s'.orgs.find? o) (hforced : s.forced = s'.forced) :
    Beside org { w with rest := s } { w' with rest := s' } :=
  ⟨h.clock, h.ttl, h.entries, h.serials, h.shelves, h.building, hdata, hforced⟩

/-- Data of one org are set. -/
theorem insertOrg (h : Beside org w w') (o : OrgId) (d : OrgData) :
    Beside org { w with rest := w.rest.insertOrg o d }
      { w' with rest := w'.rest.insertOrg o d } := by
  refine h.withRest (fun p hp => ?_) h.forced
  simp only [AssetStore.insertOrg, Index.find?_insert, h.data p hp]

/-- The same edit is made in both worlds, for whichever org. -/
theorem edit (h : Beside org w w') (e : Cache.Edit) : Beside org (w.edit e) (w'.edit e) := by
  constructor
  case clock => exact h.clock
  case ttl => simp only [World.edit, Cache.edit_ttl, h.ttl]
  case data => exact h.data
  case forced => exact h.forced
  all_goals intro o ho
  case entries =>
    cases e with
    | publish s =>
      simp only [World.edit, Cache.edit, Cache.publish, Index.find?_insert, h.entries o ho]
    | count => exact h.entries o ho
    | shelve => exact h.entries o ho
    | mark => exact h.entries o ho
    | unmark => exact h.entries o ho
  case serials =>
    cases e with
    | publish => exact h.serials o ho
    | count p n =>
      have hserial := h.serials o ho
      simp only [Cache.nextSerial] at hserial
      simp only [World.edit, Cache.edit, Cache.nextSerial, Index.find?_insert]
      split
      · rfl
      · exact hserial
    | shelve => exact h.serials o ho
    | mark => exact h.serials o ho
    | unmark => exact h.serials o ho
  case shelves =>
    intro n
    cases e with
    | publish => exact h.shelves o ho n
    | count => exact h.shelves o ho n
    | shelve p m shelf =>
      have hshelf := h.shelves o ho n
      simp only [Cache.shelf] at hshelf
      simp only [World.edit, Cache.edit, Cache.setShelf, Cache.shelf, Index.find?_insert]
      split
      · rfl
      · exact hshelf
    | mark => exact h.shelves o ho n
    | unmark => exact h.shelves o ho n
  case building =>
    cases e with
    | publish => exact h.building o ho
    | count => exact h.building o ho
    | shelve => exact h.building o ho
    | mark p => simp only [World.edit, Cache.edit, List.count_cons, h.building o ho]
    | unmark p => simp only [World.edit, Cache.edit, List.count_erase, h.building o ho]

/-- An edit for the org itself is made in one of them only. -/
theorem of_edit {e : Cache.Edit} (he : e.org = org) (w : World AssetStore) :
    Beside org w (w.edit e) := by
  have hne {o : OrgId} (ho : o ≠ org) : e.org ≠ o := fun heq => ho (heq.symm.trans he)
  constructor
  case clock => rfl
  case ttl => exact (Cache.edit_ttl w.cache e).symm
  case entries => exact fun o ho => (Cache.find?_edit w.cache o (hne ho)).symm
  case serials => exact fun o ho => (Cache.nextSerial_edit w.cache o (hne ho)).symm
  case shelves => exact fun o ho n => (Cache.shelf_edit w.cache o (hne ho) n).symm
  case building => exact fun o ho => (Cache.count_building_edit w.cache o (hne ho)).symm
  case data => exact fun _ _ => rfl
  case forced => rfl

/-- Loading from the store only counts. -/
theorem of_load (p : Part) (o : OrgId) (w : World AssetStore) :
    Beside org w (Sources.ofStore.load p o w).2 := by
  obtain ⟨horgs, hforced⟩ := AssetStore.load_alike p o w.rest
  exact (refl w).withRest (fun q _ => congrArg (Index.find? · q) horgs) hforced

theorem of_loadFlow (ref : FlowRef) (o : OrgId) (w : World AssetStore) :
    Beside org w (Sources.ofStore.loadFlow o ref w).2 := by
  obtain ⟨horgs, hforced⟩ := AssetStore.loadFlow_alike o ref w.rest
  exact (refl w).withRest (fun q _ => congrArg (Index.find? · q) horgs) hforced

end Beside

/-- Whatever is done for the org changes nothing of the others. -/
theorem Within.beside (h : Within .ofStore org w w') : Beside org w w' := by
  induction h with
  | refl w => exact .refl w
  | trans _ _ ih ih' => exact ih.trans ih'
  | load p w => exact .of_load p org w
  | loadFlow ref w => exact .of_loadFlow ref org w
  | edit he w => exact .of_edit he w

theorem Beside.find (h : Beside org w w') {o : OrgId} (ho : o ≠ org) (c : Category) :
    w.rest.find c o = w'.rest.find c o := by
  unfold AssetStore.find
  rw [h.forced, h.data o ho]

/-- Other orgs do not see what belongs to the org. -/
theorem unseen_beside (org : OrgId) : Unseen .ofStore (· ≠ org) (Beside org) where
  clock h := h.clock
  ttl h := h.ttl
  entry h ho := h.entries _ ho
  serial h ho := h.serials _ ho
  shelf n h ho := h.shelves _ ho n
  building h ho := by
    simp only [List.contains_eq_mem, ← List.count_pos_iff, h.building _ ho]
  edit e h := h.edit e
  load {w w' o} p h ho := by
    refine ⟨?_, (Beside.of_load p o w).symm.trans (h.trans (.of_load p o w'))⟩
    simp only [Sources.ofStore, AssetStore.load, h.find ho]
    split <;> rfl
  loadFlow {w w' o} ref h ho := by
    refine ⟨?_, (Beside.of_loadFlow ref o w).symm.trans (h.trans (.of_loadFlow ref o w'))⟩
    simp only [Sources.ofStore, AssetStore.loadFlow, h.find ho]
    split <;> rfl

end World

/-! ## What is answered -/

namespace Desk

variable {org : OrgId} {d d' : Desk}

/-- The desks differ at most in what belongs to the org. -/
structure Beside (org : OrgId) (d d' : Desk) : Prop where
  world : d.world.Beside org d'.world
  held : ∀ o ≠ org, d.held o = d'.held o

/-! ### Orders of the org itself -/

theorem filed_new (clock : Instant) (ttl : Span) (store : AssetStore) :
    (new clock ttl store).Filed := by
  constructor
  case entries =>
    intro org s hs
    cases hs
  case held =>
    intro org s hs
    cases hs

theorem handOut_beside {x : Outcome × World AssetStore} (hx : d.world.Within .ofStore org x.2) :
    d.Beside org (d.handOut org x).2 := by
  obtain ⟨r, w⟩ := x
  cases r with
  | error e => exact ⟨hx.beside, fun _ _ => rfl⟩
  | ok s => exact ⟨hx.beside, fun o ho => (if_neg ho).symm⟩

theorem handOut_filed (hd : d.Filed) {x : Outcome × World AssetStore}
    (hx : d.world.Within .ofStore org x.2) (horg : ∀ s w, x = (.ok s, w) → s.org = org) :
    (d.handOut org x).2.Filed := by
  have hentries := hx.filed Sources.keepFiled_ofStore hd.entries
  obtain ⟨r, w⟩ := x
  cases r with
  | error e => exact ⟨hentries, hd.held⟩
  | ok s =>
    refine ⟨hentries, fun o t ht => ?_⟩
    simp only [handOut] at ht
    split at ht
    · rename_i ho
      subst ho
      rcases List.mem_append.1 ht with ht | ht
      · exact hd.held o t ht
      · rw [List.mem_singleton.1 ht]
        exact horg s w rfl
    · exact hd.held o t ht

/-- A snapshot that was handed out for the org is of the org. -/
theorem Filed.org_of_held (hd : d.Filed) {k : Nat} {s : Snapshot} (hs : (d.held org)[k]? = some s) :
    s.org = org :=
  hd.held org s (List.mem_of_getElem? hs)

/-- An order leaves everything filed. -/
theorem order_filed (hd : d.Filed) (o : Order) : (d.order org o).2.Filed := by
  cases o with
  | get =>
    exact handOut_filed hd (World.get_within _) fun s w h => World.get_org hd.entries h
  | refresh m =>
    exact handOut_filed hd (World.refresh_within m _) fun s w h => World.refresh_org hd.entries h
  | flow k ref =>
    simp only [order]
    split
    · exact hd
    · rename_i s hs
      exact ⟨(World.flow_within s ref d.world).filed Sources.keepFiled_ofStore hd.entries, hd.held⟩
  | flows k =>
    simp only [order]
    split <;> exact hd
  | simulate k l extra =>
    simp only [order]
    split
    · exact hd
    · rename_i s hs
      have horg := hd.org_of_held hs
      have hwithin : World.Within .ofStore s.org d.world _ :=
        World.simulate_within s l extra d.world
      rw [horg] at hwithin
      exact handOut_filed hd hwithin fun t w h => (World.simulate_org h).trans horg
  | insert data => exact ⟨hd.entries, hd.held⟩
  | update f => exact ⟨hd.entries, hd.held⟩

/-- What is asked for the org changes nothing of the others. -/
theorem order_beside (hd : d.Filed) (o : Order) : d.Beside org (d.order org o).2 := by
  cases o with
  | get => exact handOut_beside (World.get_within _)
  | refresh m => exact handOut_beside (World.refresh_within m _)
  | flow k ref =>
    simp only [order]
    split
    · exact ⟨.refl _, fun _ _ => rfl⟩
    · rename_i s hs
      have hwithin : World.Within .ofStore s.org d.world _ := World.flow_within s ref d.world
      rw [hd.org_of_held hs] at hwithin
      exact ⟨hwithin.beside, fun _ _ => rfl⟩
  | flows k =>
    simp only [order]
    split <;> exact ⟨.refl _, fun _ _ => rfl⟩
  | simulate k l extra =>
    simp only [order]
    split
    · exact ⟨.refl _, fun _ _ => rfl⟩
    · rename_i s hs
      have hwithin : World.Within .ofStore s.org d.world _ :=
        World.simulate_within s l extra d.world
      rw [hd.org_of_held hs] at hwithin
      exact handOut_beside hwithin
  | insert data =>
    refine ⟨(World.Beside.refl _).withRest (fun o ho => ?_) rfl, fun _ _ => rfl⟩
    rw [AssetStore.insertOrg, Index.find?_insert, if_neg ho.symm]
  | update f =>
    refine ⟨(World.Beside.refl _).withRest (fun o ho => ?_) rfl, fun _ _ => rfl⟩
    rw [AssetStore.update, AssetStore.insertOrg, Index.find?_insert, if_neg ho.symm]

theorem move_filed (hd : d.Filed) (m : Move) : (d.move m).2.Filed := by
  cases m with
  | order org o => exact order_filed hd o
  | clock t => exact ⟨hd.entries, hd.held⟩
  | flush =>
    refine ⟨fun org s hs => ?_, hd.held⟩
    cases hs
  | fail c message => exact ⟨hd.entries, hd.held⟩
  | clear c => exact ⟨hd.entries, hd.held⟩

/-! ### Everything else -/

theorem handOut_agree (h : d.Beside org d') (o : OrgId) {x y : Outcome × World AssetStore}
    (hxy : Both (World.Beside org) x y) :
    (d.handOut o x).1 = (d'.handOut o y).1 ∧ (d.handOut o x).2.Beside org (d'.handOut o y).2 := by
  obtain ⟨e, v, v', rfl, rfl, hv⟩ | ⟨s, v, v', rfl, rfl, hv⟩ := hxy.error_or_ok
  · exact ⟨rfl, hv, h.held⟩
  · refine ⟨rfl, hv, fun p hp => ?_⟩
    simp only [handOut, h.held p hp]

/-- What is asked for another org is answered the same. -/
theorem order_agree (hd : d.Filed) (h : d.Beside org d') {o : OrgId} (ho : o ≠ org)
    (order : Order) :
    (d.order o order).1 = (d'.order o order).1 ∧
      (d.order o order).2.Beside org (d'.order o order).2 := by
  have hR := World.unseen_beside org
  cases order with
  | get => exact handOut_agree h o (hR.get h.world ho)
  | refresh m => exact handOut_agree h o (hR.refresh m h.world ho)
  | flow k ref =>
    simp only [Desk.order, ← h.held o ho]
    split
    · exact ⟨rfl, h⟩
    · rename_i s hs
      have horg : s.org ≠ org := fun heq => ho ((hd.org_of_held hs).symm.trans heq)
      obtain ⟨hresult, hworld⟩ := hR.flow (s := s) ref h.world horg
      refine ⟨?_, hworld, h.held⟩
      simp only [hresult, World.shelfOf, hworld.shelves s.org horg]
  | flows k =>
    simp only [Desk.order, ← h.held o ho]
    split
    · exact ⟨rfl, h⟩
    · rename_i s hs
      have horg : s.org ≠ org := fun heq => ho ((hd.org_of_held hs).symm.trans heq)
      refine ⟨?_, h⟩
      simp only [World.shelfOf, h.world.shelves s.org horg]
  | simulate k l extra =>
    simp only [Desk.order, ← h.held o ho]
    split
    · exact ⟨rfl, h⟩
    · rename_i s hs
      have horg : s.org ≠ org := fun heq => ho ((hd.org_of_held hs).symm.trans heq)
      exact handOut_agree h o (hR.simulate l extra h.world horg)
  | insert data => exact ⟨rfl, h.world.insertOrg o data, h.held⟩
  | update f =>
    refine ⟨rfl, ?_, h.held⟩
    simp only [Desk.order, setStore, AssetStore.update, h.world.data o ho]
    exact h.world.insertOrg o _

theorem move_agree (hd : d.Filed) (h : d.Beside org d') {m : Move} (hm : m.isFor org = false) :
    (d.move m).1 = (d'.move m).1 ∧ (d.move m).2.Beside org (d'.move m).2 := by
  have hw := h.world
  cases m with
  | order o order => exact order_agree hd h (by simpa [Move.isFor] using hm) order
  | clock t =>
    exact ⟨rfl, ⟨rfl, hw.ttl, hw.entries, hw.serials, hw.shelves, hw.building, hw.data, hw.forced⟩,
      h.held⟩
  | flush =>
    exact ⟨rfl, ⟨hw.clock, hw.ttl, fun _ _ => rfl, hw.serials, hw.shelves, hw.building, hw.data,
      hw.forced⟩, h.held⟩
  | fail c message =>
    refine ⟨rfl, hw.withRest hw.data ?_, h.held⟩
    simp only [AssetStore.fail, hw.forced]
  | clear c =>
    refine ⟨rfl, hw.withRest hw.data ?_, h.held⟩
    simp only [AssetStore.clear, hw.forced]

/-- What is asked for the org changes the desk, and all else is answered the same on a desk without
it. -/
theorem log_beside (hd : d.Filed) (h : d.Beside org d') (moves : List Move) :
    (log moves d).filter (fun entry => !entry.1.isFor org) =
      log (moves.filter fun m => !m.isFor org) d' := by
  induction moves generalizing d d' with
  | nil => rfl
  | cons m moves ih =>
    have hd' := move_filed hd m
    cases hm : m.isFor org with
    | true =>
      -- the move changes only the desk it is made at
      have hmine : d.Beside org (d.move m).2 := by
        cases m with
        | order o order =>
          have ho : o = org := by simpa [Move.isFor] using hm
          exact ho ▸ order_beside hd order
        | _ => cases hm
      have hback : (d.move m).2.Beside org d' :=
        ⟨hmine.world.symm.trans h.world, fun o ho => (hmine.held o ho).symm.trans (h.held o ho)⟩
      simpa [log, hm] using ih hd' hback
    | false =>
      obtain ⟨hreply, hnext⟩ := move_agree hd h hm
      simpa [log, hm, hreply] using ih hd' hnext

/-- Orgs that share a cache and a store do not see each other. If everything that is asked for one
org is left out of a run — snapshots and refreshes, flows, simulations and changes of its data in
the store — then all else is answered the same: with the same contents or the same error, and with
the same serial numbers, so that snapshots, categories and flows are the very ones handed out
before exactly when they were. -/
theorem log_without (org : OrgId) (clock : Instant) (ttl : Span) (store : AssetStore)
    (moves : List Move) :
    (log moves (new clock ttl store)).filter (fun entry => !entry.1.isFor org) =
      log (moves.filter fun m => !m.isFor org) (new clock ttl store) :=
  log_beside (filed_new clock ttl store) ⟨.refl _, fun _ _ => rfl⟩ moves

end Desk
end Outreach
