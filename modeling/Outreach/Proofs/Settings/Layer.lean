import Mathlib.Data.List.Nodup
import Outreach.Settings

/-!
# Outreach.Proofs.Settings.Layer

Settings as layers, one over the other. A layer says something of some settings; these it
determines, and leaves the others as they are underneath.

* `Settings.Layer`, `Settings.Layer.Over` — what a layer says, and what it makes of settings.
* `Settings.Fits` — the entries of a document that are settings.
* `Settings.ofDocument?_eq_some_iff` — a document is a layer over the defaults.
-/

namespace Outreach

/-! ## Keys of a document -/

namespace Document

/-- No key comes twice. -/
theorem nodup_keys_entries? {fuel : Nat} {cs : List Char} {es : List (String × Value)}
    (h : entries? fuel cs = some es) : (es.map (·.1)).Nodup := by
  induction fuel generalizing cs es with
  | zero => cases h
  | succ fuel ih =>
    unfold entries? at h
    split at h
    · cases h
      exact List.nodup_nil
    · split at h
      · exact ih h
      · simp only [Option.bind_eq_bind, Option.bind_eq_some_iff] at h
        obtain ⟨⟨k, _⟩, -, h⟩ := h
        split at h
        · simp only [Option.bind_some, Option.bind_eq_some_iff] at h
          obtain ⟨⟨v, _⟩, -, rest, -, es', hes', h⟩ := h
          split at h
          · cases h
          · rename_i hnew
            cases h
            refine List.nodup_cons.2 ⟨fun hk => hnew ?_, ih hes'⟩
            obtain ⟨e, he, hek⟩ := List.mem_map.1 hk
            exact List.any_eq_true.2 ⟨e, he, beq_iff_eq.2 hek⟩
        · cases h

theorem nodup_keys {text : String} {es : List (String × Value)} (h : parse text = some es) :
    (es.map (·.1)).Nodup := by
  unfold parse at h
  split at h
  · exact nodup_keys_entries? h
  · exact nodup_keys_entries? h

end Document

namespace Settings

/-! ## Layers -/

/-- The settings that are numbers, in the order in which they are looked at. -/
inductive Amount where
  | ttl
  | timeout
  | batch
deriving DecidableEq

namespace Amount

def all : List Amount := [ttl, timeout, batch]

def rank : Amount → Nat
  | ttl => 0
  | timeout => 1
  | batch => 2

/-- The key in a document. -/
def key : Amount → String
  | ttl => "cache_ttl_ms"
  | timeout => "flow_load_timeout_secs"
  | batch => "fire_batch_size"

def get : Amount → Settings → Nat
  | ttl, s => s.cacheTtlMillis
  | timeout, s => s.flowTimeoutSeconds
  | batch, s => s.batchSize

def set : Amount → Nat → Settings → Settings
  | ttl, n, s => { s with cacheTtlMillis := n }
  | timeout, n, s => { s with flowTimeoutSeconds := n }
  | batch, n, s => { s with batchSize := n }

theorem mem_all (x : Amount) : x ∈ all := by
  cases x <;> decide

@[simp] theorem get_set (x y : Amount) (n : Nat) (s : Settings) :
    y.get (x.set n s) = if x = y then n else y.get s := by
  cases x <;> cases y <;> rfl

@[simp] theorem databaseUrl_set (x : Amount) (n : Nat) (s : Settings) :
    (x.set n s).databaseUrl = s.databaseUrl := by
  cases x <;> rfl

@[simp] theorem get_databaseUrl (x : Amount) (u : String) (s : Settings) :
    x.get { s with databaseUrl := u } = x.get s := by
  cases x <;> rfl

theorem key_inj {x y : Amount} (h : x.key = y.key) : x = y := by
  cases x <;> cases y <;> first | rfl | exact absurd h (by decide)

end Amount

theorem eq_of_amounts {s s' : Settings} (hurl : s.databaseUrl = s'.databaseUrl)
    (h : ∀ x : Amount, x.get s = x.get s') : s = s' := by
  obtain ⟨url, ttl, timeout, batch⟩ := s
  obtain ⟨url', ttl', timeout', batch'⟩ := s'
  obtain rfl : url = url' := hurl
  obtain rfl : ttl = ttl' := h .ttl
  obtain rfl : timeout = timeout' := h .timeout
  obtain rfl : batch = batch' := h .batch
  rfl

/-- What is given replaces the old value; if nothing is, that stays. -/
def Overlaid {α : Type} (given : α → Prop) (old new : α) : Prop :=
  given new ∨ (∀ a, ¬ given a) ∧ new = old

/-- What a layer says of each of the settings. -/
structure Layer where
  url : String → Prop
  amount : Amount → Nat → Prop

namespace Layer

variable {l : Layer} {s a b : Settings}

/-- The layer makes `s'` of `s`. -/
structure Over (l : Layer) (s s' : Settings) : Prop where
  url : Overlaid l.url s.databaseUrl s'.databaseUrl
  amount : ∀ x, Overlaid (l.amount x) (x.get s) (x.get s')

/-- The layer says one thing at most of each of the settings. -/
structure Single (l : Layer) : Prop where
  url : ∀ u v, l.url u → l.url v → u = v
  amount : ∀ x m n, l.amount x m → l.amount x n → m = n

/-- The part of a layer that comes before an amount. -/
def before (l : Layer) (x : Amount) : Layer :=
  ⟨l.url, fun y n => y.rank < x.rank ∧ l.amount y n⟩

theorem Single.before (h : l.Single) (x : Amount) : (l.before x).Single :=
  ⟨h.url, fun y m n hm hn => h.amount y m n hm.2 hn.2⟩

theorem overlaid_unique {α : Type} {given : α → Prop} {old m n : α}
    (h : ∀ a b, given a → given b → a = b) (hm : Overlaid given old m)
    (hn : Overlaid given old n) : m = n := by
  rcases hm with hm | ⟨hnone, rfl⟩
  · rcases hn with hn | ⟨hnone, -⟩
    · exact h m n hm hn
    · exact absurd hm (hnone m)
  · rcases hn with hn | ⟨-, rfl⟩
    · exact absurd hn (hnone n)
    · rfl

theorem Over.unique (h : l.Single) (ha : l.Over s a) (hb : l.Over s b) : a = b :=
  eq_of_amounts (overlaid_unique h.url ha.url hb.url) fun x =>
    overlaid_unique (h.amount x) (ha.amount x) (hb.amount x)

end Layer

/-! ## Documents -/

/-- The entry is one of the settings, with a value of its kind and in its range. -/
inductive Fits : String × Document.Value → Prop
  | url (u : String) : Fits ("database_url", .text u)
  | amount (x : Amount) (n : Nat) (h : n ≤ most) : Fits (x.key, .integer n)

/-- What the entries of a document say. -/
def Layer.ofEntries (es : List (String × Document.Value)) : Layer where
  url u := ("database_url", .text u) ∈ es
  amount x n := (x.key, .integer n) ∈ es

theorem set?_url (s : Settings) (u : String) :
    s.set? "database_url" (.text u) = some { s with databaseUrl := u } := rfl

theorem set?_amount (s : Settings) (x : Amount) {n : Nat} (h : n ≤ most) :
    s.set? x.key (.integer n) = some (x.set n s) := by
  have hrange : ¬ ((n : Int) < 0 ∨ (most : Int) < n) := by omega
  simp only [set?, if_neg hrange, Int.toNat_natCast]
  cases x <;> rfl

theorem set?_eq_none {s : Settings} {k : String} {v : Document.Value} (h : ¬ Fits (k, v)) :
    s.set? k v = none := by
  cases v with
  | text u =>
    have hkey : k ≠ "database_url" := by
      rintro rfl
      exact h (.url u)
    simp only [set?, if_neg hkey]
  | integer n =>
    by_cases hrange : n < 0 ∨ (most : Int) < n
    · simp only [set?, if_pos hrange]
    · obtain ⟨m, rfl⟩ := Int.eq_ofNat_of_zero_le (by omega : 0 ≤ n)
      have hkey (x : Amount) : k ≠ x.key := by
        rintro rfl
        exact h (.amount x m (by omega))
      have httl : k ≠ "cache_ttl_ms" := hkey .ttl
      have htimeout : k ≠ "flow_load_timeout_secs" := hkey .timeout
      have hbatch : k ≠ "fire_batch_size" := hkey .batch
      simp only [set?, if_neg hrange, if_neg httl, if_neg htimeout, if_neg hbatch]

section Entries

variable {es : List (String × Document.Value)} {s s' : Settings}

theorem eq_of_key (h : (es.map (·.1)).Nodup) {k : String} {v w : Document.Value}
    (hv : (k, v) ∈ es) (hw : (k, w) ∈ es) : v = w :=
  congrArg Prod.snd (List.inj_on_of_nodup_map h hv hw rfl)

theorem single_ofEntries (h : (es.map (·.1)).Nodup) : (Layer.ofEntries es).Single := by
  constructor
  · intro u v hu hv
    cases eq_of_key h hu hv
    rfl
  · intro x m n hm hn
    have hvalue := eq_of_key h hm hn
    rw [Document.Value.integer.injEq] at hvalue
    exact Int.ofNat_inj.1 hvalue

/-- An entry, and then the entries after it. -/
theorem over_ofEntries_url {u : String} (hnew : "database_url" ∉ es.map (·.1))
    (h : (Layer.ofEntries es).Over { s with databaseUrl := u } s') :
    (Layer.ofEntries (("database_url", .text u) :: es)).Over s s' := by
  have hnone (v : Document.Value) : ("database_url", v) ∉ es := fun hv =>
    hnew (List.mem_map.2 ⟨_, hv, rfl⟩)
  constructor
  · rcases h.url with hu | ⟨-, hu⟩
    · exact absurd hu (hnone _)
    · left
      rw [hu]
      exact List.mem_cons_self
  · intro x
    have hsame : (Layer.ofEntries (("database_url", .text u) :: es)).amount x =
        (Layer.ofEntries es).amount x := by
      funext n
      simp [Layer.ofEntries]
    have hx := h.amount x
    rw [Amount.get_databaseUrl] at hx
    rwa [hsame]

theorem over_ofEntries_amount {x : Amount} {n : Nat} (hnew : x.key ∉ es.map (·.1))
    (h : (Layer.ofEntries es).Over (x.set n s) s') :
    (Layer.ofEntries ((x.key, .integer n) :: es)).Over s s' := by
  have hnone (v : Document.Value) : (x.key, v) ∉ es := fun hv =>
    hnew (List.mem_map.2 ⟨_, hv, rfl⟩)
  constructor
  · have hsame : (Layer.ofEntries ((x.key, .integer n) :: es)).url = (Layer.ofEntries es).url := by
      funext u
      simp [Layer.ofEntries]
    have hurl := h.url
    rw [Amount.databaseUrl_set] at hurl
    rwa [hsame]
  · intro y
    have hy := h.amount y
    rw [Amount.get_set] at hy
    by_cases hxy : x = y
    · subst hxy
      rcases hy with hy | ⟨-, hy⟩
      · exact absurd hy (hnone _)
      · left
        rw [hy, if_pos rfl]
        exact List.mem_cons_self
    · have hsame : (Layer.ofEntries ((x.key, .integer n) :: es)).amount y =
          (Layer.ofEntries es).amount y := by
        funext m
        have hkey : y.key ≠ x.key := fun heq => hxy (Amount.key_inj heq.symm)
        simp [Layer.ofEntries, hkey]
      rw [if_neg hxy] at hy
      rwa [hsame]

/-- By induction on the entries, each of which sets what those after it leave alone. -/
theorem over_of_setAll? (hkeys : (es.map (·.1)).Nodup) (h : setAll? s es = some s') :
    (∀ e ∈ es, Fits e) ∧ (Layer.ofEntries es).Over s s' := by
  induction es generalizing s with
  | nil =>
    cases h
    refine ⟨by simp, ⟨.inr ⟨fun u hu => ?_, rfl⟩, fun x => .inr ⟨fun n hn => ?_, rfl⟩⟩⟩
    · cases hu
    · cases hn
  | cons e es ih =>
    obtain ⟨hnew, hrest⟩ := List.nodup_cons.1 hkeys
    by_cases hfits : Fits e
    · rw [setAll?] at h
      cases hfits with
      | url u =>
        obtain ⟨hall, hover⟩ := ih hrest h
        exact ⟨List.forall_mem_cons.2 ⟨.url u, hall⟩, over_ofEntries_url hnew hover⟩
      | amount x n hn =>
        simp only [set?_amount s x hn] at h
        obtain ⟨hall, hover⟩ := ih hrest h
        exact ⟨List.forall_mem_cons.2 ⟨.amount x n hn, hall⟩, over_ofEntries_amount hnew hover⟩
    · simp only [setAll?, set?_eq_none hfits] at h
      cases h

theorem exists_setAll? (h : ∀ e ∈ es, Fits e) (s : Settings) : ∃ s', setAll? s es = some s' := by
  induction es generalizing s with
  | nil => exact ⟨s, rfl⟩
  | cons e es ih =>
    obtain ⟨he, hes⟩ := List.forall_mem_cons.1 h
    rw [setAll?]
    cases he with
    | url u => exact ih hes _
    | amount x n hn =>
      simp only [set?_amount s x hn]
      exact ih hes _

end Entries

/-- The text is a document with these entries, and all of them are settings. -/
def Lists (text : String) (es : List (String × Document.Value)) : Prop :=
  Document.parse text = some es ∧ ∀ e ∈ es, Fits e

theorem ofDocument?_eq_some_iff {text : String} {s : Settings} :
    ofDocument? text = some s ↔ ∃ es, Lists text es ∧ (Layer.ofEntries es).Over {} s := by
  unfold ofDocument?
  cases hparse : Document.parse text with
  | none => simp [Lists, hparse]
  | some es =>
    have hkeys := Document.nodup_keys hparse
    simp only [Lists, hparse]
    constructor
    · intro h
      obtain ⟨hall, hover⟩ := over_of_setAll? hkeys h
      exact ⟨es, ⟨rfl, hall⟩, hover⟩
    · rintro ⟨_, ⟨⟨rfl⟩, hall⟩, hover⟩
      obtain ⟨s', hs'⟩ := exists_setAll? hall {}
      rw [hs', (over_of_setAll? hkeys hs').2.unique (single_ofEntries hkeys) hover]

end Settings
end Outreach
