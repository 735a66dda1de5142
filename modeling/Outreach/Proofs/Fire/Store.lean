import Outreach.Proofs.Fire.Steps

/-!
# Outreach.Proofs.Fire.Store

What the writes to the store of fires that succeed do to the pending fires.

* `PendingAt` — a pair has a pending fire at a time.
* `withoutPending`, `pendingCount` — the tables without the pending fires of some pairs, and how
  many these are.
* `addFires_of_ok`, `deletePending_of_ok` and their like — what such a write leaves, and what it
  answers.
* `pendingAt_insertFires` — of several fires of one pair the first is added, if none is there.
-/

namespace Outreach
namespace Database

/-- The pair has a pending fire at the time that is written so. -/
def PendingAt (db : Database) (e : EventId) (x : ContactId) (text : String) : Prop :=
  ∃ r ∈ db.fires, r.fired = none ∧ r.event = e ∧ r.contact = x ∧ r.scheduled = text

theorem hasPending_iff (db : Database) (e : EventId) (x : ContactId) :
    db.hasPending e x = true ↔ ∃ text, db.PendingAt e x text := by
  simp only [hasPending, PendingAt, FireRow.pending, List.any_eq_true, Bool.and_eq_true,
    Option.isNone_iff_eq_none, beq_iff_eq]
  constructor
  · rintro ⟨r, hr, ⟨hp, he⟩, hx⟩
    exact ⟨r.scheduled, r, hr, hp, he, hx, rfl⟩
  · rintro ⟨text, r, hr, hp, he, hx, -⟩
    exact ⟨r, hr, ⟨hp, he⟩, hx⟩

/-- The fire is one of the pair. -/
def ofPair (e : EventId) (x : ContactId) (f : NewFire) : Bool := f.event == e && f.contact == x

theorem ofPair_iff {e : EventId} {x : ContactId} {f : NewFire} :
    ofPair e x f = true ↔ f.event = e ∧ f.contact = x := by
  simp [ofPair]

theorem pendingAt_insertFire (db : Database) (f : NewFire) (e : EventId) (x : ContactId)
    (text : String) :
    (db.insertFire f).2.PendingAt e x text ↔ db.PendingAt e x text ∨
      (db.hasPending e x = false ∧ ofPair e x f = true ∧ f.scheduled.toStored = text) := by
  unfold insertFire
  split
  · rename_i h
    refine ⟨.inl, ?_⟩
    rintro (hp | ⟨hp, hf, -⟩)
    · exact hp
    · obtain ⟨rfl, rfl⟩ := ofPair_iff.1 hf
      rw [h] at hp
      cases hp
  · rename_i h
    simp only [PendingAt, List.mem_append, List.mem_singleton]
    constructor
    · rintro ⟨r, hr | rfl, hp, rfl, rfl, rfl⟩
      · exact .inl ⟨r, hr, hp, rfl, rfl, rfl⟩
      · exact .inr ⟨Bool.eq_false_iff.2 h, ofPair_iff.2 ⟨rfl, rfl⟩, rfl⟩
    · rintro (⟨r, hr, h⟩ | ⟨-, hf, rfl⟩)
      · exact ⟨r, .inl hr, h⟩
      · obtain ⟨rfl, rfl⟩ := ofPair_iff.1 hf
        exact ⟨_, .inr rfl, rfl, rfl, rfl, rfl⟩

theorem hasPending_insertFire (db : Database) (f : NewFire) (e : EventId) (x : ContactId) :
    (db.insertFire f).2.hasPending e x = (db.hasPending e x || ofPair e x f) := by
  rw [Bool.eq_iff_iff, Bool.or_eq_true, hasPending_iff]
  simp only [pendingAt_insertFire]
  constructor
  · rintro ⟨text, h | ⟨-, h, -⟩⟩
    · exact .inl ((hasPending_iff _ _ _).2 ⟨text, h⟩)
    · exact .inr h
  · intro h
    by_cases hp : db.hasPending e x = true
    · obtain ⟨text, hp⟩ := (hasPending_iff _ _ _).1 hp
      exact ⟨text, .inl hp⟩
    · exact ⟨_, .inr ⟨Bool.eq_false_iff.2 hp, h.resolve_left hp, rfl⟩⟩

/-- Of several fires of one pair the first counts, and none if there is a pending one. -/
theorem pendingAt_insertFires (fs : List NewFire) (db : Database) (e : EventId) (x : ContactId)
    (text : String) :
    (insertFires fs db).2.PendingAt e x text ↔ db.PendingAt e x text ∨
      (db.hasPending e x = false ∧
        ∃ f, fs.find? (ofPair e x) = some f ∧ f.scheduled.toStored = text) := by
  induction fs generalizing db with
  | nil => simp [insertFires]
  | cons f fs ih =>
    simp only [insertFires, ih, pendingAt_insertFire, hasPending_insertFire, List.find?_cons]
    cases ofPair e x f <;> simp

theorem lacking?_eq_none {db : Database} (h : db.dropped = []) (ts : List TableName) :
    db.lacking? ts = none := by
  simp [lacking?, h]

theorem lacking?_fires {db : Database} (ht : db.lacking? fireTables = none) :
    db.lacking? [.fires] = none := by
  refine List.find?_eq_none.2 fun t hmem => List.find?_eq_none.1 ht t ?_
  exact List.mem_singleton.1 hmem ▸ List.mem_cons_self

theorem inTurn_ok {α : Type} {run : α → Database → Except StoreError (Nat × Database)}
    {I : Database → Prop} {as : List α}
    (hrun : ∀ a ∈ as, ∀ db, I db → ∃ n db', run a db = .ok (n, db') ∧ I db') {db : Database}
    (h : I db) : ∃ n, (inTurn run as db).1 = .ok n := by
  induction as generalizing db with
  | nil => exact ⟨0, rfl⟩
  | cons a as ih =>
    obtain ⟨n, db', ha, h'⟩ := hrun a List.mem_cons_self db h
    obtain ⟨m, hm⟩ := ih (fun b hb => hrun b (List.mem_cons_of_mem _ hb)) h'
    unfold inTurn
    rw [ha]
    simp only
    split
    · exact ⟨_, rfl⟩
    · rename_i hrest
      rw [hrest] at hm
      cases hm

/-- Statements whose success does not depend on the fires succeed whatever fires there are. -/
theorem inTurn_ok_of_onlyFires {α : Type}
    {run : α → Database → Except StoreError (Nat × Database)}
    (hrun : ∀ a d d' p, d.OnlyFires d' → run a d = .ok p →
      d.OnlyFires p.2 ∧ ∃ p', run a d' = .ok p' ∧ d'.OnlyFires p'.2)
    {as : List α} {db db' : Database} {n : Nat} (honly : db.OnlyFires db')
    (h : (inTurn run as db).1 = .ok n) : ∃ m, (inTurn run as db').1 = .ok m := by
  induction as generalizing db db' n with
  | nil => exact ⟨0, rfl⟩
  | cons a as ih =>
    unfold inTurn at h ⊢
    split at h
    · cases h
    · rename_i k mid hk
      obtain ⟨hmid, ⟨k', mid'⟩, hk', hmid'⟩ := hrun a db db' _ honly hk
      split at h
      · rename_i m hm
        obtain ⟨m', hm'⟩ := ih ((hmid.symm.trans honly).trans hmid') (congrArg Prod.fst hm)
        simp only [hk']
        split
        · exact ⟨_, rfl⟩
        · rename_i herror
          rw [herror] at hm'
          cases hm'
      · cases h

/-! ## Adding -/

theorem nextFireId_insertFire {db : Database} {f : NewFire}
    (h : db.hasPending f.event f.contact = false) :
    (db.insertFire f).2.nextFireId = db.nextFireId + 1 ∧
      (db.insertFire f).2.fires = db.fires ++
        [⟨db.nextFireId, f.event, f.contact, f.scheduled.toStored, none, none⟩] := by
  have hadd : (db.insertFire f).2 = { db with fires := db.fires ++
      [⟨db.nextFireId, f.event, f.contact, f.scheduled.toStored, none, none⟩] } := by
    simp [insertFire, h]
  rw [hadd]
  refine ⟨?_, rfl⟩
  simp only [nextFireId, List.foldl_append, List.foldl_cons, List.foldl_nil]
  rw [Int.max_eq_right (Int.le_of_lt (Int.lt_succ _))]

theorem insertFires_append (fs gs : List NewFire) (db : Database) :
    insertFires (fs ++ gs) db =
      ((insertFires fs db).1 + (insertFires gs (insertFires fs db).2).1,
        (insertFires gs (insertFires fs db).2).2) := by
  induction fs generalizing db with
  | nil => simp [insertFires]
  | cons f fs ih => simp only [List.cons_append, insertFires, ih, Nat.add_assoc]

theorem insertStatement_ok_iff {fs : List NewFire} {db : Database} {p : Nat × Database} :
    insertStatement fs db = .ok p ↔ db.lacking? fireTables = none ∧
      (fs.all fun f => db.hasContact f.contact) = true ∧ insertFires fs db = p := by
  unfold insertStatement
  split
  · rename_i ht
    simp [ht]
  · rename_i ht
    split
    · rename_i hall
      simp [ht, hall]
    · rename_i hall
      simp [hall]

theorem inTurn_insertStatement {fss : List (List NewFire)} {db db' : Database} {n : Nat}
    (h : inTurn insertStatement fss db = (.ok n, db')) :
    insertFires fss.flatten db = (n, db') := by
  induction fss generalizing db n with
  | nil => cases h; rfl
  | cons fs fss ih =>
    unfold inTurn at h
    split at h
    · cases h
    · rename_i k mid hk
      obtain ⟨-, -, hmid⟩ := insertStatement_ok_iff.1 hk
      split at h
      · rename_i m db'' hrest
        cases h
        rw [List.flatten_cons, insertFires_append, hmid, ih hrest]
      · cases h

theorem addFires_of_ok {fs : List NewFire} {db db' : Database} {n : Nat}
    (h : addFires fs db = (.ok n, db')) : insertFires fs db = (n, db') := by
  have := inTurn_insertStatement h
  rwa [flatten_chunksOf] at this

theorem onlyFires_insertFires (fs : List NewFire) (db : Database) :
    db.OnlyFires (insertFires fs db).2 :=
  onlyFires_of_steps (fun _ _ h => h.onlyFires) (insertFires_adds fs (List.Subset.refl fs) db)

theorem addFires_ok {fs : List NewFire} {db : Database} (ht : db.lacking? fireTables = none)
    (hc : ∀ f ∈ fs, db.hasContact f.contact = true) : ∃ n, (addFires fs db).1 = .ok n := by
  refine inTurn_ok (I := fun d => d.lacking? fireTables = none ∧ d.contacts = db.contacts)
    (fun piece hpiece d hd => ?_) ⟨ht, rfl⟩
  have hall : (piece.all fun f => d.hasContact f.contact) = true := by
    refine List.all_eq_true.2 fun f hf => ?_
    unfold hasContact
    rw [hd.2]
    apply hc f
    rw [← flatten_chunksOf rowsPerInsert fs]
    exact List.mem_flatten.2 ⟨piece, hpiece, hf⟩
  have honly := onlyFires_insertFires piece d
  refine ⟨_, _, insertStatement_ok_iff.2 ⟨hd.1, hall, rfl⟩, ?_⟩
  rw [honly]
  exact hd

theorem addFires_eq {fs : List NewFire} {db : Database} (ht : db.lacking? fireTables = none)
    (hc : ∀ f ∈ fs, db.hasContact f.contact = true) :
    addFires fs db = (.ok (insertFires fs db).1, (insertFires fs db).2) := by
  obtain ⟨n, hn⟩ := addFires_ok ht hc
  have h : addFires fs db = (.ok n, (addFires fs db).2) := Prod.ext hn rfl
  rw [addFires_of_ok h]
  exact h

theorem addFires_ok_of_onlyFires {fs : List NewFire} {db db' : Database} {n : Nat}
    (honly : db.OnlyFires db') (h : (addFires fs db).1 = .ok n) :
    ∃ m, (addFires fs db').1 = .ok m := by
  refine inTurn_ok_of_onlyFires (fun piece d d' p hd hp => ?_) honly h
  obtain ⟨hlack, hall, rfl⟩ := insertStatement_ok_iff.1 hp
  refine ⟨onlyFires_insertFires piece d, insertFires piece d', ?_,
    onlyFires_insertFires piece d'⟩
  rw [insertStatement_ok_iff, hd]
  exact ⟨hlack, hall, rfl⟩

/-! ## Deleting -/

section Delete

variable {α : Type} (s : α → Statement) (p : α → FireRow → Bool)

theorem without_nothing (db : Database) :
    { db with fires := db.fires.filter fun r => !(r.pending && [].any fun a => p a r) } = db := by
  have hself : (db.fires.filter fun r => !(r.pending && [].any fun a => p a r)) = db.fires :=
    List.filter_eq_self.2 fun r _ => by simp
  rw [hself]

/-- What is counted piece by piece is counted once, since each piece takes its rows away. -/
theorem countP_add_countP_rest (l : List FireRow) (a b : FireRow → Bool) :
    l.countP (fun r => r.pending && a r) +
        (l.filter fun r => !(r.pending && a r)).countP (fun r => r.pending && b r) =
      l.countP fun r => r.pending && (a r || b r) := by
  rw [List.countP_eq_countP_filter_add l (fun r => r.pending && (a r || b r))
    (fun r => r.pending && a r)]
  simp only [List.countP_filter]
  congr 2 <;> (funext r; cases r.pending <;> cases a r <;> simp)

theorem inTurn_deleteStatement (as : List α) {db : Database}
    (ht : db.lacking? fireTables = none) :
    inTurn (fun a => deleteStatement (s a) (p a)) as db =
      (.ok (db.fires.countP fun r => r.pending && as.any fun a => p a r),
        { db with fires := db.fires.filter fun r => !(r.pending && as.any fun a => p a r) }) := by
  induction as generalizing db with
  | nil => rw [inTurn, without_nothing]; simp
  | cons a as ih =>
    have hrest := @ih { db with fires := db.fires.filter fun r => !(r.pending && p a r) } ht
    have hrows : ((db.fires.filter fun r => !(r.pending && p a r)).filter
          fun r => !(r.pending && as.any fun b => p b r)) =
        db.fires.filter fun r => !(r.pending && (a :: as).any fun b => p b r) := by
      rw [List.filter_filter]
      congr 1
      funext r
      cases r.pending <;> simp [Bool.and_comm]
    simp only [inTurn, deleteStatement, ht] at hrest ⊢
    rw [hrest]
    simp only [← List.countP_eq_length_filter, countP_add_countP_rest, hrows, List.any_cons]

theorem inTurn_deleteStatement_of_ok {as : List α} {db db' : Database} {n : Nat}
    (h : inTurn (fun a => deleteStatement (s a) (p a)) as db = (.ok n, db')) :
    n = (db.fires.countP fun r => r.pending && as.any fun a => p a r) ∧
      db' = { db with
        fires := db.fires.filter fun r => !(r.pending && as.any fun a => p a r) } := by
  cases ht : db.lacking? fireTables with
  | none =>
    rw [inTurn_deleteStatement s p as ht] at h
    cases h
    exact ⟨rfl, rfl⟩
  | some t =>
    cases as with
    | nil => cases h; exact ⟨by simp, (without_nothing p _).symm⟩
    | cons a as => simp [inTurn, deleteStatement, ht] at h

end Delete

/-- The tables without the pending fires that satisfy `q`. -/
def withoutPending (db : Database) (q : EventId → ContactId → Bool) : Database :=
  { db with fires := db.fires.filter fun r => !(r.pending && q r.event r.contact) }

/-- How many pending fires satisfy `q`. -/
def pendingCount (db : Database) (q : EventId → ContactId → Bool) : Nat :=
  db.fires.countP fun r => r.pending && q r.event r.contact

theorem onlyFires_withoutPending (db : Database) (q : EventId → ContactId → Bool) :
    db.OnlyFires (db.withoutPending q) := rfl

theorem pendingAt_withoutPending (db : Database) (q : EventId → ContactId → Bool) (e : EventId)
    (x : ContactId) (text : String) :
    (db.withoutPending q).PendingAt e x text ↔ q e x = false ∧ db.PendingAt e x text := by
  simp only [PendingAt, withoutPending, List.mem_filter, FireRow.pending]
  constructor
  · rintro ⟨r, ⟨hr, hq⟩, hp, rfl, rfl, rfl⟩
    exact ⟨by simpa [hp] using hq, r, hr, hp, rfl, rfl, rfl⟩
  · rintro ⟨hq, r, hr, hp, rfl, rfl, rfl⟩
    exact ⟨r, ⟨hr, by simp [hq]⟩, hp, rfl, rfl, rfl⟩

theorem mem_eventsOf {pairs : List (EventId × ContactId)} {e : EventId} :
    e ∈ eventsOf pairs ↔ ∃ x, (e, x) ∈ pairs := by
  simp [eventsOf, List.mem_mergeSort]

/-- The pieces of work cover the pairs and nothing else. -/
theorem any_deletions (pairs : List (EventId × ContactId)) (e : EventId) (x : ContactId) :
    ((deletions pairs).any fun d => e == d.1 && d.2.contains x) = pairs.contains (e, x) := by
  have hflat (e' : EventId) : (∃ cs ∈ chunksOf idsPerQuery
      ((pairs.filter fun p => p.1 == e').map (·.2)), x ∈ cs) ↔ (e', x) ∈ pairs := by
    rw [← List.mem_flatten, flatten_chunksOf]
    simp
  rw [Bool.eq_iff_iff]
  simp only [deletions, List.any_eq_true, List.mem_flatMap, List.mem_map, Bool.and_eq_true,
    beq_iff_eq, List.contains_iff_mem]
  constructor
  · rintro ⟨d, ⟨e', -, cs, hcs, rfl⟩, rfl, hx⟩
    exact (hflat e).1 ⟨cs, hcs, hx⟩
  · intro h
    obtain ⟨cs, hcs, hx⟩ := (hflat e).2 h
    exact ⟨(e, cs), ⟨e, mem_eventsOf.2 ⟨x, h⟩, cs, hcs, rfl⟩, rfl, hx⟩

theorem deletePending_of_ok {pairs : List (EventId × ContactId)} {db db' : Database} {n : Nat}
    (h : deletePending pairs db = (.ok n, db')) :
    n = db.pendingCount (fun e x => pairs.contains (e, x)) ∧
      db' = db.withoutPending fun e x => pairs.contains (e, x) := by
  have := inTurn_deleteStatement_of_ok (fun d : EventId × List ContactId => .deletePending d.1)
    (fun d r => r.event == d.1 && d.2.contains r.contact) h
  simp only [any_deletions] at this
  exact this

theorem deletePending_eq (pairs : List (EventId × ContactId)) {db : Database}
    (ht : db.lacking? fireTables = none) :
    deletePending pairs db = (.ok (db.pendingCount fun e x => pairs.contains (e, x)),
      db.withoutPending fun e x => pairs.contains (e, x)) := by
  have h := inTurn_deleteStatement (fun d : EventId × List ContactId => .deletePending d.1)
    (fun d r => r.event == d.1 && d.2.contains r.contact) (deletions pairs) ht
  simp only [any_deletions] at h
  exact h

theorem deletePending_ok_of_onlyFires {pairs : List (EventId × ContactId)} {db db' : Database}
    {n : Nat} (honly : db.OnlyFires db') (h : (deletePending pairs db).1 = .ok n) :
    ∃ m, (deletePending pairs db').1 = .ok m := by
  refine inTurn_ok_of_onlyFires (fun piece d d' p hd hp => ?_) honly h
  unfold deleteStatement at hp ⊢
  split at hp
  · cases hp
  · rename_i hlack
    cases hp
    have hlack' : d'.lacking? fireTables = none := by
      rw [hd]
      exact hlack
    rw [hlack']
    exact ⟨rfl, _, rfl, rfl⟩

/-- The pieces cover the contacts and nothing else. -/
theorem any_chunksOf_contains (n : Nat) (cs : List ContactId) (x : ContactId) :
    ((chunksOf n cs).any fun piece => piece.contains x) = cs.contains x := by
  rw [Bool.eq_iff_iff, List.contains_iff_mem]
  conv => rhs; rw [← flatten_chunksOf n cs]
  simp

theorem deletePendingOfContacts_of_ok {cs : List ContactId} {db db' : Database} {n : Nat}
    (h : deletePendingOfContacts cs db = (.ok n, db')) :
    n = db.pendingCount (fun _ x => cs.contains x) ∧
      db' = db.withoutPending fun _ x => cs.contains x := by
  have := inTurn_deleteStatement_of_ok (fun _ : List ContactId => .deletePendingOfContacts)
    (fun piece r => piece.contains r.contact) h
  simp only [any_chunksOf_contains] at this
  exact this

theorem deletePendingOfContacts_eq (cs : List ContactId) {db : Database}
    (ht : db.lacking? fireTables = none) :
    deletePendingOfContacts cs db = (.ok (db.pendingCount fun _ x => cs.contains x),
      db.withoutPending fun _ x => cs.contains x) := by
  have h := inTurn_deleteStatement (fun _ : List ContactId => .deletePendingOfContacts)
    (fun piece r => piece.contains r.contact) (chunksOf idsPerQuery cs) ht
  simp only [any_chunksOf_contains] at h
  exact h

theorem deletePendingOfEvent_of_ok {e : EventId} {db db' : Database} {n : Nat}
    (h : deletePendingOfEvent e db = (.ok n, db')) :
    n = db.pendingCount (fun e' _ => e' == e) ∧
      db' = db.withoutPending fun e' _ => e' == e := by
  have := inTurn_deleteStatement_of_ok (fun e : EventId => .deletePending e)
    (fun e r => r.event == e) h
  simp only [List.any_cons, List.any_nil, Bool.or_false] at this
  exact this

/-! ## Marking -/

theorem markRow_nil (text : String) (result : FireResult) (r : FireRow) :
    markRow [] text result r = r := by
  simp [markRow]

theorem markRow_append (ids ids' : List FireId) (text : String) (result : FireResult)
    (r : FireRow) :
    markRow ids' text result (markRow ids text result r) = markRow (ids ++ ids') text result r := by
  by_cases h : (r.pending && ids.contains r.id) = true
  · have h' : (r.pending && (ids ++ ids').contains r.id) = true := by
      simp only [Bool.and_eq_true, List.contains_iff_mem, List.mem_append] at h ⊢
      exact ⟨h.1, .inl h.2⟩
    simp only [markRow, h, h', if_true]
    rw [if_neg (by simp [FireRow.pending])]
  · have h' : (r.pending && (ids ++ ids').contains r.id) = (r.pending && ids'.contains r.id) := by
      rw [Bool.eq_iff_iff]
      simp only [Bool.and_eq_true, List.contains_iff_mem, List.mem_append] at h ⊢
      constructor
      · rintro ⟨hp, hi | hi⟩
        · exact absurd ⟨hp, hi⟩ h
        · exact ⟨hp, hi⟩
      · rintro ⟨hp, hi⟩
        exact ⟨hp, .inr hi⟩
    simp only [markRow, h, h']
    simp

theorem pending_markRow (ids : List FireId) (text : String) (result : FireResult) (r : FireRow) :
    (markRow ids text result r).pending = (r.pending && !ids.contains r.id) := by
  by_cases h : (r.pending && ids.contains r.id) = true
  · have hid : ids.contains r.id = true := (Bool.and_eq_true_iff.1 h).2
    rw [markRow, if_pos h, hid, Bool.not_true, Bool.and_false]
    rfl
  · rw [markRow, if_neg h]
    cases hp : r.pending <;> simp_all

/-- What is counted piece by piece is counted once, since each piece settles its rows. -/
theorem countP_add_countP_marked (l : List FireRow) (ids ids' : List FireId) (text : String)
    (result : FireResult) :
    l.countP (fun r => r.pending && ids.contains r.id) +
        (l.map (markRow ids text result)).countP (fun r => r.pending && ids'.contains r.id) =
      l.countP fun r => r.pending && (ids ++ ids').contains r.id := by
  have hrest := countP_add_countP_rest l (fun r => ids.contains r.id) fun r => ids'.contains r.id
  have hmarked : (l.map (markRow ids text result)).countP
        (fun r => r.pending && ids'.contains r.id) =
      (l.filter fun r => !(r.pending && ids.contains r.id)).countP
        fun r => r.pending && ids'.contains r.id := by
    rw [List.countP_map, List.countP_filter]
    congr 1
    funext r
    simp only [Function.comp, pending_markRow, (markRow_same ids text result r).1]
    cases r.pending <;> simp [Bool.and_comm]
  rw [hmarked, hrest]
  congr 1
  funext r
  rw [List.contains_append]

theorem inTurn_markStatement (text : String) (result : FireResult) (idss : List (List FireId))
    {db : Database} (ht : db.lacking? [.fires] = none) :
    inTurn (fun ids => markStatement ids text result) idss db =
      (.ok (db.fires.countP fun r => r.pending && idss.flatten.contains r.id),
        { db with fires := db.fires.map (markRow idss.flatten text result) }) := by
  induction idss generalizing db with
  | nil =>
    have hself : db.fires.map (markRow [] text result) = db.fires :=
      List.map_id'' (markRow_nil text result) _
    rw [inTurn, List.flatten_nil, hself]
    simp
  | cons ids idss ih =>
    have hrest := @ih { db with fires := db.fires.map (markRow ids text result) } ht
    have hrows : (db.fires.map (markRow ids text result)).map (markRow idss.flatten text result) =
        db.fires.map (markRow (ids ++ idss.flatten) text result) := by
      rw [List.map_map]
      exact List.map_congr_left fun r _ => markRow_append ids _ text result r
    simp only [inTurn, markStatement, ht] at hrest ⊢
    rw [hrest]
    simp only [← List.countP_eq_length_filter, countP_add_countP_marked, hrows, List.flatten_cons]

theorem markFires_eq (ids : List FireId) (t : Instant) (result : FireResult) {db : Database}
    (ht : db.lacking? [.fires] = none) :
    markFires ids t result db = (.ok (db.fires.countP fun r => r.pending && ids.contains r.id),
      { db with fires := db.fires.map (markRow ids t.toStored result) }) := by
  rw [markFires, inTurn_markStatement _ _ _ ht, flatten_chunksOf]

theorem markFires_of_ok {ids : List FireId} {t : Instant} {result : FireResult}
    {db db' : Database} {n : Nat} (h : markFires ids t result db = (.ok n, db')) :
    db' = { db with fires := db.fires.map (markRow ids t.toStored result) } := by
  cases ht : db.lacking? [.fires] with
  | none =>
    rw [markFires_eq ids t result ht] at h
    cases h
    rfl
  | some _ =>
    by_cases hids : ids = []
    · subst hids
      rw [markFires, chunksOf_nil] at h
      cases h
      rw [List.map_id'' (markRow_nil t.toStored result)]
    · simp [markFires, chunksOf_of_ne_nil _ hids, inTurn, markStatement, ht] at h

end Database

/-! ## Reading -/

/-- The row is that of the fire, handled or not. -/
def FireRow.IsOf (r : FireRow) (f : Fire) : Prop :=
  r.event = f.event ∧ r.contact = f.contact ∧ Instant.ofStored r.scheduled = .ok f.scheduled

namespace Fire

theorem of_ofRow {r : FireRow} {f : Fire} (h : ofRow r = .ok f) : r.id = f.id ∧ r.IsOf f := by
  unfold ofRow at h
  split at h
  · cases h
  · split at h
    · cases h
    · rename_i t ht
      split at h
      · cases h
      · cases h
        exact ⟨rfl, rfl, rfl, ht⟩

/-- Rows are read if each of them is, one fire for a row. -/
theorem ofRows_eq_ok_iff {rs : List FireRow} {fs : List Fire} :
    ofRows rs = .ok fs ↔ rs.map ofRow = fs.map .ok := by
  induction rs generalizing fs with
  | nil => cases fs <;> simp [ofRows]
  | cons r rs ih =>
    unfold ofRows
    cases hr : ofRow r with
    | error e => cases fs <;> simp [hr]
    | ok f =>
      cases hrs : ofRows rs with
      | error e =>
        have hnot (gs : List Fire) : rs.map ofRow ≠ gs.map .ok := by simp [← ih, hrs]
        cases fs <;> simp [hr, hnot]
      | ok gs =>
        have hmap := ih.1 hrs
        cases fs <;> simp [hr, hmap, List.map_inj_right]

theorem ofRows_of_forall {rs : List FireRow} {g : FireRow → Fire}
    (h : ∀ r ∈ rs, ofRow r = .ok (g r)) : ofRows rs = .ok (rs.map g) := by
  rw [ofRows_eq_ok_iff, List.map_map]
  exact List.map_congr_left h

theorem exists_row_of_mem {rs : List FireRow} {fs : List Fire} (h : ofRows rs = .ok fs) {f : Fire}
    (hf : f ∈ fs) : ∃ r ∈ rs, ofRow r = .ok f := by
  have hmem : Except.ok f ∈ rs.map ofRow := ofRows_eq_ok_iff.1 h ▸ List.mem_map_of_mem hf
  exact List.mem_map.1 hmem

end Fire

namespace Database

theorem exists_row_of_readFires {rs : List FireRow} {fs : List Fire} (h : readFires rs = .ok fs)
    {f : Fire} (hf : f ∈ fs) : ∃ r ∈ rs, Fire.ofRow r = .ok f := by
  unfold readFires at h
  split at h
  · rename_i gs hgs
    cases h
    exact Fire.exists_row_of_mem hgs hf
  · cases h

theorem mem_of_mem_takeLimit {α : Type} {limit : Int} {l : List α} {a : α}
    (h : a ∈ takeLimit limit l) : a ∈ l := by
  unfold takeLimit at h
  split at h
  · exact h
  · exact List.mem_of_mem_take h

theorem exists_row_of_dueFires {db : Database} {now : Instant} {limit : Int} {fs : List Fire}
    (h : db.dueFires now limit = .ok fs) {f : Fire} (hf : f ∈ fs) :
    ∃ r ∈ db.fires, Fire.ofRow r = .ok f ∧ ¬ now.toStored < r.scheduled := by
  unfold dueFires at h
  split at h
  · cases h
  · obtain ⟨r, hr, hrf⟩ := exists_row_of_readFires h hf
    obtain ⟨hr, hdue⟩ := List.mem_filter.1 (List.mem_mergeSort.1 (mem_of_mem_takeLimit hr))
    simp only [Bool.and_eq_true, Bool.not_eq_true', decide_eq_false_iff_not] at hdue
    exact ⟨r, hr, hrf, hdue.2⟩

end Database
end Outreach
