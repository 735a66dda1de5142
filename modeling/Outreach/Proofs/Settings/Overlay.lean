import Outreach.Proofs.Settings.Layer

/-!
# Outreach.Proofs.Settings.Overlay

The environment as a layer over settings. Its numbers are read in order; the first that cannot be
read ends the overlay, and what was overlaid before it stays.

* `Numeral.unsigned_eq_ok_iff` — the texts that are read as a number.
* `Settings.Given` — a variable has a value.
* `Settings.overlay_eq_none_iff`, `Settings.overlay_eq_some_iff` — an overlay as a whole, and one
  that ends early.
-/

namespace Outreach

/-! ## Numerals -/

namespace Numeral

variable {most acc n : Nat} {cs : List Char}

theorem digit?_eq_none_iff {c : Char} : digit? c = none ↔ isDigit c = false := by
  rw [isDigit, Option.isSome_eq_false_iff, Option.isNone_iff_eq_none]

theorem isDigit_of_digit? {c : Char} {d : Nat} (h : digit? c = some d) :
    isDigit c = true ∧ d = c.toNat - '0'.toNat := by
  refine ⟨by rw [isDigit, h]; rfl, ?_⟩
  unfold digit? at h
  split at h
  · exact (Option.some.inj h).symm
  · cases h

theorem le_ofDigitChars (cs : List Char) (acc : Nat) : acc ≤ Nat.ofDigitChars 10 cs acc := by
  induction cs generalizing acc with
  | nil => exact Nat.le_refl acc
  | cons c cs ih =>
    rw [Nat.ofDigitChars_cons]
    exact Nat.le_trans (by omega) (ih _)

/-- Digits are read up to the bound, which no number on the way can exceed without the last one
doing so. -/
theorem upTo_eq_ok_iff (hacc : acc ≤ most) : upTo most acc cs = .ok n ↔
    (∀ c ∈ cs, isDigit c = true) ∧ Nat.ofDigitChars 10 cs acc = n ∧ n ≤ most := by
  induction cs generalizing acc with
  | nil =>
    simp only [upTo, Except.ok.injEq, List.not_mem_nil, false_implies, implies_true, true_and,
      Nat.ofDigitChars_nil]
    constructor
    · rintro rfl
      exact ⟨rfl, hacc⟩
    · exact And.left
  | cons c cs ih =>
    rw [upTo, List.forall_mem_cons, Nat.ofDigitChars_cons]
    cases hc : digit? c with
    | none => simp [digit?_eq_none_iff.1 hc]
    | some d =>
      obtain ⟨hdigit, rfl⟩ := isDigit_of_digit? hc
      by_cases hlarge : most < 10 * acc + (c.toNat - '0'.toNat)
      · simp only [if_pos hlarge, reduceCtorEq, false_iff]
        rintro ⟨-, rfl, hle⟩
        have hgrows := le_ofDigitChars cs (10 * acc + (c.toNat - '0'.toNat))
        omega
      · simp only [if_neg hlarge, ih (Nat.le_of_not_lt hlarge), hdigit, true_and]

/-- The text is a numeral for the number: digits, at least one, after a plus sign or none. -/
def Denotes (text : String) (n : Nat) : Prop :=
  ∃ ds : List Char, (text.toList = ds ∨ text.toList = '+' :: ds) ∧ ds ≠ [] ∧
    (∀ d ∈ ds, isDigit d = true) ∧ Nat.ofDigitChars 10 ds 0 = n

theorem unsigned_eq_ok_iff {text : String} :
    unsigned most text = .ok n ↔ Denotes text n ∧ n ≤ most := by
  have hplus : isDigit '+' = false := by decide
  unfold unsigned Denotes
  split
  · rename_i hnil
    simp only [hnil, reduceCtorEq, false_iff, or_false]
    rintro ⟨⟨ds, rfl, hne, -⟩, -⟩
    exact hne rfl
  · rename_i cs hcs
    rw [hcs]
    constructor
    · intro h
      cases cs with
      | nil => cases h
      | cons d ds =>
        obtain ⟨hall, hval, hle⟩ := (upTo_eq_ok_iff (Nat.zero_le most)).1 h
        exact ⟨⟨d :: ds, .inr rfl, List.cons_ne_nil d ds, hall, hval⟩, hle⟩
    · rintro ⟨⟨ds, rfl | hds, hne, hall, hval⟩, hle⟩
      · exact absurd (hall '+' List.mem_cons_self) (by rw [hplus]; decide)
      · obtain rfl := (List.cons.inj hds).2
        cases cs with
        | nil => exact absurd rfl hne
        | cons d ds => exact (upTo_eq_ok_iff (Nat.zero_le most)).2 ⟨hall, hval, hle⟩
  · rename_i hne hsign
    rw [upTo_eq_ok_iff (Nat.zero_le most)]
    constructor
    · rintro ⟨hall, hval, hle⟩
      exact ⟨⟨_, .inl rfl, hne, hall, hval⟩, hle⟩
    · rintro ⟨⟨ds, rfl | hds, -, hall, hval⟩, hle⟩
      · exact ⟨hall, hval, hle⟩
      · exact absurd hds (hsign ds)

end Numeral

namespace Settings

/-! ## Variables -/

/-- The variable is set to a text that is not blank, and this is the text trimmed. -/
def Given (env : String → Option ByteArray) (name value : String) : Prop :=
  ∃ bytes text, env name = some bytes ∧ String.fromUTF8? bytes = some text ∧
    (∃ c ∈ text.toList, isBlank c = false) ∧ value = trim text

variable {env : String → Option ByteArray} {name value u v : String} {x y : Amount} {m n : Nat}
  {e e' : VariableError} {s s' : Settings}

theorem get?_ofBytes_eq_some_iff :
    (Variables.ofBytes env).get? name = some value ↔ Given env name value := by
  unfold Variables.get? Given
  cases hv : Variables.ofBytes env name with
  | none =>
    simp only [reduceCtorEq, false_iff]
    rintro ⟨bytes, text, hbytes, htext, -⟩
    simp [Variables.ofBytes, hbytes, htext] at hv
  | some text =>
    obtain ⟨bytes, hbytes, htext⟩ := Option.bind_eq_some_iff.1 hv
    have hblank : trim text = "" ↔ ¬ ∃ c ∈ text.toList, isBlank c = false := by
      rw [trim_eq_nil_iff]
      simp
    constructor
    · intro h
      by_cases hempty : trim text = ""
      · simp [hempty] at h
      · simp only [if_neg hempty, Option.some.injEq] at h
        exact ⟨bytes, text, hbytes, htext, not_not.1 (mt hblank.2 hempty), h.symm⟩
    · rintro ⟨bytes', text', hbytes', htext', hc, rfl⟩
      obtain rfl : bytes = bytes' := Option.some.inj (hbytes.symm.trans hbytes')
      obtain rfl : text = text' := Option.some.inj (htext.symm.trans htext')
      exact if_neg fun h => hblank.1 h hc

theorem get?_ofBytes_eq_none_iff :
    (Variables.ofBytes env).get? name = none ↔ ∀ v, ¬ Given env name v := by
  simp only [Option.eq_none_iff_forall_ne_some, ne_eq, get?_ofBytes_eq_some_iff]

theorem Given.unique (hu : Given env name u) (hv : Given env name v) : u = v :=
  Option.some.inj ((get?_ofBytes_eq_some_iff.2 hu).symm.trans (get?_ofBytes_eq_some_iff.2 hv))

/-! ## Amounts -/

namespace Amount

/-- The variable of the environment. -/
def source : Amount → String
  | ttl => ttlVariable
  | timeout => timeoutVariable
  | batch => batchVariable

/-- The variable has a value, a numeral for a number in range. -/
def Gives (env : String → Option ByteArray) (x : Amount) (n : Nat) : Prop :=
  ∃ v, Given env x.source v ∧ Numeral.Denotes v n ∧ n ≤ most

/-- The variable can be read: what value it has, if any, is a numeral for a number in range. -/
def Reads (env : String → Option ByteArray) (x : Amount) : Prop :=
  ∀ v, Given env x.source v → ∃ n, Numeral.Denotes v n ∧ n ≤ most

/-- The variable has a value that cannot be read, and the error tells which, and why. -/
def Fails (env : String → Option ByteArray) (x : Amount) (e : VariableError) : Prop :=
  ∃ v flaw, Given env x.source v ∧ Numeral.unsigned most v = .error flaw ∧
    e = ⟨x.source, v, flaw.message⟩

/-- The variable cannot be read, and those before it can. -/
def FailsFirst (env : String → Option ByteArray) (x : Amount) (e : VariableError) : Prop :=
  x.Fails env e ∧ ∀ y : Amount, y.rank < x.rank → y.Reads env

theorem rank_inj (h : x.rank = y.rank) : x = y := by
  cases x <;> cases y <;> first | rfl | exact absurd h (by decide)

theorem Gives.unique (hm : x.Gives env m) (hn : x.Gives env n) : m = n := by
  obtain ⟨u, hu, hdenotes⟩ := hm
  obtain ⟨v, hv, hdenotes'⟩ := hn
  obtain rfl := hu.unique hv
  rw [← Numeral.unsigned_eq_ok_iff] at hdenotes hdenotes'
  exact Except.ok.inj (hdenotes.symm.trans hdenotes')

theorem Fails.unique (h : x.Fails env e) (h' : x.Fails env e') : e = e' := by
  obtain ⟨u, flaw, hu, hflaw, rfl⟩ := h
  obtain ⟨v, flaw', hv, hflaw', rfl⟩ := h'
  obtain rfl := hu.unique hv
  rw [Except.error.inj (hflaw.symm.trans hflaw')]

theorem Fails.not_reads (h : x.Fails env e) : ¬ x.Reads env := by
  obtain ⟨v, flaw, hv, hflaw, -⟩ := h
  intro hreads
  obtain ⟨n, hn⟩ := hreads v hv
  rw [Numeral.unsigned_eq_ok_iff.2 hn] at hflaw
  cases hflaw

theorem FailsFirst.unique (h : x.FailsFirst env e) (h' : y.FailsFirst env e') : x = y ∧ e = e' := by
  have hrank : x.rank = y.rank := by
    rcases Nat.lt_trichotomy x.rank y.rank with hlt | heq | hlt
    · exact absurd (h'.2 x hlt) h.1.not_reads
    · exact heq
    · exact absurd (h.2 y hlt) h'.1.not_reads
  obtain rfl := rank_inj hrank
  exact ⟨rfl, h.1.unique h'.1⟩

/-- The three things that reading a variable comes to. -/
theorem parse?_source (env : String → Option ByteArray) (x : Amount) :
    ((Variables.ofBytes env).parse? (Variables.unsigned most) x.source = .ok none ∧
      (∀ n, ¬ x.Gives env n) ∧ x.Reads env) ∨
    (∃ n, (Variables.ofBytes env).parse? (Variables.unsigned most) x.source = .ok (some n) ∧
      x.Gives env n ∧ x.Reads env) ∨
    ∃ e, (Variables.ofBytes env).parse? (Variables.unsigned most) x.source = .error e ∧
      x.Fails env e := by
  unfold Variables.parse? Variables.unsigned
  cases hget : (Variables.ofBytes env).get? x.source with
  | none =>
    have hnone := get?_ofBytes_eq_none_iff.1 hget
    exact .inl ⟨rfl, fun n ⟨v, hv, _⟩ => hnone v hv, fun v hv => absurd hv (hnone v)⟩
  | some v =>
    have hgiven := get?_ofBytes_eq_some_iff.1 hget
    cases hread : Numeral.unsigned most v with
    | ok n =>
      have hn := Numeral.unsigned_eq_ok_iff.1 hread
      refine .inr (.inl ⟨n, by simp only [hread], ⟨v, hgiven, hn⟩, fun u hu => ?_⟩)
      rw [hu.unique hgiven]
      exact ⟨n, hn⟩
    | error flaw =>
      exact .inr (.inr ⟨_, by simp only [hread], v, flaw, hgiven, hread, rfl⟩)

end Amount

/-! ## The overlay -/

/-- What the environment says. -/
def Layer.ofVariables (env : String → Option ByteArray) : Layer where
  url := Given env databaseVariable
  amount x := x.Gives env

theorem single_ofVariables (env : String → Option ByteArray) : (Layer.ofVariables env).Single :=
  ⟨fun _ _ => Given.unique, fun _ _ _ => Amount.Gives.unique⟩

/-- What the environment says of some of the amounts. -/
def Layer.ofAmounts (env : String → Option ByteArray) (xs : List Amount) : Layer where
  url _ := False
  amount x n := x ∈ xs ∧ x.Gives env n

/-- Overlays amounts one after another, up to the first that cannot be read. -/
def overlayAmounts (vars : Variables) : List Amount → Settings → Settings × Option VariableError
  | [], s => (s, none)
  | x :: xs, s =>
    match vars.parse? (Variables.unsigned most) x.source with
    | .error e => (s, some e)
    | .ok none => overlayAmounts vars xs s
    | .ok (some n) => overlayAmounts vars xs (x.set n s)

theorem overlayTtl_eq (s : Settings) (vars : Variables) :
    s.overlayTtl vars = overlayAmounts vars Amount.all s := by
  unfold overlayTtl overlayTimeout overlayBatch
  rfl

theorem ofAmounts_nil (env : String → Option ByteArray) (s : Settings) :
    (Layer.ofAmounts env []).Over s s :=
  ⟨.inr ⟨fun _ => id, rfl⟩, fun _ => .inr ⟨fun _ h => List.not_mem_nil h.1, rfl⟩⟩

theorem ofAmounts_cons_of_silent {xs : List Amount} (hx : ∀ n, ¬ x.Gives env n)
    (h : (Layer.ofAmounts env xs).Over s s') : (Layer.ofAmounts env (x :: xs)).Over s s' := by
  refine ⟨h.url, fun y => ?_⟩
  rcases h.amount y with ⟨hy, hgives⟩ | ⟨hnone, heq⟩
  · exact .inl ⟨List.mem_cons_of_mem x hy, hgives⟩
  · refine .inr ⟨fun n ⟨hy, hgives⟩ => ?_, heq⟩
    rcases List.mem_cons.1 hy with rfl | hy
    · exact hx n hgives
    · exact hnone n ⟨hy, hgives⟩

theorem ofAmounts_cons_of_gives {xs : List Amount} (hxs : x ∉ xs) (hx : x.Gives env n)
    (h : (Layer.ofAmounts env xs).Over (x.set n s) s') :
    (Layer.ofAmounts env (x :: xs)).Over s s' := by
  refine ⟨?_, fun y => ?_⟩
  · have hurl := h.url
    rwa [Amount.databaseUrl_set] at hurl
  · have hy := h.amount y
    rw [Amount.get_set] at hy
    by_cases hxy : x = y
    · subst hxy
      rcases hy with ⟨hmem, -⟩ | ⟨-, heq⟩
      · exact absurd hmem hxs
      · rw [if_pos rfl] at heq
        exact .inl ⟨List.mem_cons_self, heq ▸ hx⟩
    · rw [if_neg hxy] at hy
      have hmem : y ∈ x :: xs ↔ y ∈ xs := by simp [Ne.symm hxy]
      simpa only [Layer.ofAmounts, hmem] using hy

/-- By induction on the amounts: each is set as it is read, and those after it leave it alone. -/
theorem over_of_overlayAmounts {xs : List Amount} (hxs : xs.Nodup) {o : Option VariableError}
    (h : overlayAmounts (.ofBytes env) xs s = (s', o)) :
    (o = none ∧ (∀ x ∈ xs, x.Reads env) ∧ (Layer.ofAmounts env xs).Over s s') ∨
    ∃ e before x after, o = some e ∧ xs = before ++ x :: after ∧ (∀ y ∈ before, y.Reads env) ∧
      x.Fails env e ∧ (Layer.ofAmounts env before).Over s s' := by
  induction xs generalizing s with
  | nil =>
    cases h
    exact .inl ⟨rfl, by simp, ofAmounts_nil env _⟩
  | cons x xs ih =>
    obtain ⟨hnew, hrest⟩ := List.nodup_cons.1 hxs
    unfold overlayAmounts at h
    rcases x.parse?_source env with ⟨hparse, hsilent, hreads⟩ | ⟨n, hparse, hgives, hreads⟩ |
      ⟨e, hparse, hfails⟩
    · simp only [hparse] at h
      rcases ih hrest h with ⟨rfl, hall, hover⟩ | ⟨e, before, y, after, rfl, rfl, hall, hy, hover⟩
      · exact .inl ⟨rfl, List.forall_mem_cons.2 ⟨hreads, hall⟩,
          ofAmounts_cons_of_silent hsilent hover⟩
      · exact .inr ⟨e, x :: before, y, after, rfl, rfl, List.forall_mem_cons.2 ⟨hreads, hall⟩, hy,
          ofAmounts_cons_of_silent hsilent hover⟩
    · simp only [hparse] at h
      rcases ih hrest h with ⟨rfl, hall, hover⟩ | ⟨e, before, y, after, rfl, rfl, hall, hy, hover⟩
      · exact .inl ⟨rfl, List.forall_mem_cons.2 ⟨hreads, hall⟩,
          ofAmounts_cons_of_gives hnew hgives hover⟩
      · have hbefore : x ∉ before := fun hx => hnew (List.mem_append_left _ hx)
        exact .inr ⟨e, x :: before, y, after, rfl, rfl, List.forall_mem_cons.2 ⟨hreads, hall⟩, hy,
          ofAmounts_cons_of_gives hbefore hgives hover⟩
    · simp only [hparse] at h
      cases h
      exact .inr ⟨e, [], x, xs, rfl, rfl, by simp, hfails, ofAmounts_nil env _⟩

/-- The amounts stand in the order of their ranks. -/
theorem Amount.mem_before_iff {before after : List Amount}
    (h : Amount.all = before ++ x :: after) : y ∈ before ↔ y.rank < x.rank := by
  have hsorted : Amount.all.Pairwise fun a b => a.rank < b.rank := by decide
  rw [h, List.pairwise_append, List.pairwise_cons] at hsorted
  obtain ⟨-, ⟨hafter, -⟩, hbefore⟩ := hsorted
  refine ⟨fun hy => hbefore y hy x List.mem_cons_self, fun hlt => ?_⟩
  have hy : y ∈ before ++ x :: after := h ▸ y.mem_all
  rcases List.mem_append.1 hy with hy | hy
  · exact hy
  · rcases List.mem_cons.1 hy with rfl | hy
    · exact absurd hlt (Nat.lt_irrefl _)
    · exact absurd (hafter y hy) (Nat.lt_asymm hlt)

/-- The variable of the database comes before the amounts. -/
theorem exists_overlayAmounts (env : String → Option ByteArray) (s : Settings) :
    ∃ s₀, s.overlay (.ofBytes env) = overlayAmounts (.ofBytes env) Amount.all s₀ ∧
      Overlaid (Given env databaseVariable) s.databaseUrl s₀.databaseUrl ∧
      ∀ x : Amount, x.get s₀ = x.get s := by
  unfold overlay
  cases hget : (Variables.ofBytes env).get? databaseVariable with
  | none =>
    exact ⟨s, overlayTtl_eq s _, .inr ⟨get?_ofBytes_eq_none_iff.1 hget, rfl⟩, fun _ => rfl⟩
  | some url =>
    exact ⟨{ s with databaseUrl := url }, overlayTtl_eq _ _,
      .inl (get?_ofBytes_eq_some_iff.1 hget), fun x => x.get_databaseUrl url s⟩

theorem Layer.Over.after_url {l l' : Layer} {s₀ : Settings} (h : l'.Over s₀ s')
    (hnone : ∀ u, ¬ l'.url u) (hurl : Overlaid l.url s.databaseUrl s₀.databaseUrl)
    (hsame : ∀ x : Amount, x.get s₀ = x.get s)
    (hamount : ∀ x n, l'.amount x n ↔ l.amount x n) : l.Over s s' := by
  constructor
  · rcases h.url with hu | ⟨-, hu⟩
    · exact absurd hu (hnone _)
    · rwa [hu]
  · intro x
    have hx := h.amount x
    rw [hsame, funext fun n => propext (hamount x n)] at hx
    exact hx

theorem overlay_cases (env : String → Option ByteArray) (s : Settings) :
    (∃ s', s.overlay (.ofBytes env) = (s', none) ∧ (∀ x : Amount, x.Reads env) ∧
      (Layer.ofVariables env).Over s s') ∨
    ∃ s' e x, s.overlay (.ofBytes env) = (s', some e) ∧ x.FailsFirst env e ∧
      ((Layer.ofVariables env).before x).Over s s' := by
  obtain ⟨s₀, heq, hurl, hsame⟩ := exists_overlayAmounts env s
  rw [heq]
  have hnodup : Amount.all.Nodup := by decide
  rcases hrun : overlayAmounts (.ofBytes env) Amount.all s₀ with ⟨s', o⟩
  rcases over_of_overlayAmounts hnodup hrun with ⟨rfl, hreads, hover⟩ |
    ⟨e, before, x, after, rfl, hall, hreads, hfails, hover⟩
  · refine .inl ⟨s', rfl, fun x => hreads x x.mem_all, hover.after_url (fun _ => id) hurl hsame ?_⟩
    exact fun x n => and_iff_right x.mem_all
  · refine .inr ⟨s', e, x, rfl, ⟨hfails, fun y hy => hreads y ((Amount.mem_before_iff hall).2 hy)⟩,
      hover.after_url (fun _ => id) hurl hsame ?_⟩
    exact fun y n => and_congr_left fun _ => Amount.mem_before_iff hall

theorem overlay_eq_none_iff : s.overlay (.ofBytes env) = (s', none) ↔
    (∀ x : Amount, x.Reads env) ∧ (Layer.ofVariables env).Over s s' := by
  rcases overlay_cases env s with ⟨t, heq, hreads, hover⟩ | ⟨t, e, x, heq, hfails, -⟩
  · rw [heq, Prod.mk.injEq, and_iff_left rfl]
    constructor
    · rintro rfl
      exact ⟨hreads, hover⟩
    · exact fun h => hover.unique (single_ofVariables env) h.2
  · simp only [heq, Prod.mk.injEq, reduceCtorEq, and_false, false_iff]
    exact fun h => hfails.1.not_reads (h.1 x)

/-- An overlay that ends early has set what comes before the variable that cannot be read, and
nothing else. -/
theorem overlay_eq_some_iff : s.overlay (.ofBytes env) = (s', some e) ↔
    ∃ x : Amount, x.FailsFirst env e ∧ ((Layer.ofVariables env).before x).Over s s' := by
  rcases overlay_cases env s with ⟨t, heq, hreads, -⟩ | ⟨t, e', x, heq, hfails, hover⟩
  · simp only [heq, Prod.mk.injEq, reduceCtorEq, and_false, false_iff]
    rintro ⟨x, hfails, -⟩
    exact hfails.1.not_reads (hreads x)
  · rw [heq, Prod.mk.injEq, Option.some.injEq]
    constructor
    · rintro ⟨rfl, rfl⟩
      exact ⟨x, hfails, hover⟩
    · rintro ⟨y, hfails', hover'⟩
      obtain ⟨rfl, rfl⟩ := hfails.unique hfails'
      exact ⟨hover.unique ((single_ofVariables env).before x) hover', rfl⟩

end Settings
end Outreach
