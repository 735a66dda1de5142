import Outreach.Proofs.Settings.Overlay

/-!
# Outreach.Proofs.Settings

Loading settings as a whole: which texts and environments give settings, and which error the others
end in.

* `Settings.Has`, `Settings.FirstFlaw` — what is wrong with settings, and what is reported.
* `Settings.validate_eq_ok_iff`, `Settings.validate_eq_error_iff` — the check.
* `Settings.Layers` — the defaults, a document and an environment, one over the other.
* `Settings.Loads`, `Settings.load_layers` — what loading ends in.
-/

namespace Outreach
namespace Settings

/-! ## The check -/

inductive Has (s : Settings) : Flaw → Prop
  | emptyDatabase (h : ∀ c ∈ s.databaseUrl.toList, isBlank c = true) : Has s .emptyDatabase
  | zeroTtl (h : s.cacheTtlMillis = 0) : Has s .zeroTtl
  | hugeTtl (h : Span.mostMillis < s.cacheTtlMillis) : Has s (.hugeTtl s.cacheTtlMillis)
  | zeroTimeout (h : s.flowTimeoutSeconds = 0) : Has s .zeroTimeout
  | zeroBatch (h : s.batchSize = 0) : Has s .zeroBatch

def Flaw.rank : Flaw → Nat
  | .emptyDatabase => 0
  | .zeroTtl => 1
  | .hugeTtl _ => 2
  | .zeroTimeout => 3
  | .zeroBatch => 4

/-- The flaw is the first that the settings have. -/
def FirstFlaw (s : Settings) (f : Flaw) : Prop :=
  s.Has f ∧ ∀ g, s.Has g → f.rank ≤ g.rank

section

variable {s : Settings} {f g : Flaw}

theorem Has.rank_inj (hf : s.Has f) (hg : s.Has g) (h : f.rank = g.rank) : f = g := by
  cases hf <;> cases hg <;> first | rfl | cases h

theorem FirstFlaw.unique (hf : s.FirstFlaw f) (hg : s.FirstFlaw g) : f = g :=
  hf.1.rank_inj hg.1 (Nat.le_antisymm (hf.2 g hg.1) (hg.2 f hf.1))

/-- In each case the flaws that come earlier have been ruled out. -/
theorem validate_cases (s : Settings) :
    (s.validate = .ok () ∧ ∀ f, ¬ s.Has f) ∨ ∃ f, s.validate = .error f ∧ s.FirstFlaw f := by
  unfold validate FirstFlaw
  by_cases hempty : trim s.databaseUrl = ""
  · rw [if_pos hempty]
    exact .inr ⟨_, rfl, .emptyDatabase ((trim_eq_nil_iff _).1 hempty), fun g _ => Nat.zero_le _⟩
  rw [if_neg hempty]
  rw [trim_eq_nil_iff] at hempty
  by_cases hzero : s.cacheTtlMillis = 0
  · rw [if_pos hzero]
    refine .inr ⟨_, rfl, .zeroTtl hzero, fun g hg => ?_⟩
    cases hg with
    | emptyDatabase h => exact absurd h hempty
    | _ => simp only [Flaw.rank]; omega
  rw [if_neg hzero]
  by_cases hhuge : Span.mostMillis < s.cacheTtlMillis
  · rw [if_pos hhuge]
    refine .inr ⟨_, rfl, .hugeTtl hhuge, fun g hg => ?_⟩
    cases hg with
    | emptyDatabase h => exact absurd h hempty
    | _ => simp only [Flaw.rank]; omega
  rw [if_neg hhuge]
  by_cases htimeout : s.flowTimeoutSeconds = 0
  · rw [if_pos htimeout]
    refine .inr ⟨_, rfl, .zeroTimeout htimeout, fun g hg => ?_⟩
    cases hg with
    | emptyDatabase h => exact absurd h hempty
    | _ => simp only [Flaw.rank]; omega
  rw [if_neg htimeout]
  by_cases hbatch : s.batchSize = 0
  · rw [if_pos hbatch]
    refine .inr ⟨_, rfl, .zeroBatch hbatch, fun g hg => ?_⟩
    cases hg with
    | emptyDatabase h => exact absurd h hempty
    | _ => simp only [Flaw.rank]; omega
  rw [if_neg hbatch]
  refine .inl ⟨rfl, fun f hf => ?_⟩
  cases hf with
  | emptyDatabase h => exact hempty h
  | _ => omega

theorem validate_eq_ok_iff : s.validate = .ok () ↔ ∀ f, ¬ s.Has f := by
  rcases validate_cases s with ⟨hok, hnone⟩ | ⟨f, herror, hf⟩
  · exact iff_of_true hok hnone
  · rw [herror]
    exact iff_of_false (by simp) fun h => h f hf.1

theorem validate_eq_error_iff : s.validate = .error f ↔ s.FirstFlaw f := by
  rcases validate_cases s with ⟨hok, hnone⟩ | ⟨g, herror, hg⟩
  · rw [hok]
    exact iff_of_false (by simp) fun h => hnone f h.1
  · rw [herror, Except.error.injEq]
    constructor
    · rintro rfl
      exact hg
    · exact fun hf => hg.unique hf

/-- Settings that pass the check keep snapshots for just the time that they say. -/
theorem ttl_exact (h : ∀ f, ¬ s.Has f) : s.ttlMillis = s.cacheTtlMillis ∧
    Span.ofMillis? s.ttlMillis = some (Span.ofMillis s.cacheTtlMillis) := by
  have hle : s.cacheTtlMillis ≤ Span.mostMillis :=
    Nat.not_lt.1 fun hlt => h _ (.hugeTtl hlt)
  have heq : s.ttlMillis = s.cacheTtlMillis := Nat.min_eq_left hle
  refine ⟨heq, ?_⟩
  rw [heq, Span.ofMillis?, if_pos (by omega)]

end

/-! ## Loading -/

/-- A text and an environment give the settings `c`, yet to be checked: a document over the
defaults, and over it the environment, of which all amounts can be read. -/
def Layers (text : String) (env : String → Option ByteArray) (c : Settings) : Prop :=
  ∃ es s, Lists text es ∧ (Layer.ofEntries es).Over {} s ∧ (∀ x : Amount, x.Reads env) ∧
    (Layer.ofVariables env).Over s c

/-- What loading is to end in. The stages come one after another: a document, then the variables,
then the check. -/
inductive Loads (text : String) (env : String → Option ByteArray) :
    Except LoadError Settings → Prop
  | document (h : ∀ es, ¬ Lists text es) : Loads text env (.error .document)
  | environment {es : List (String × Document.Value)} {x : Amount} {e : VariableError}
      (hes : Lists text es) (h : x.FailsFirst env e) : Loads text env (.error (.variable e))
  | invalid {c : Settings} {f : Flaw} (hc : Layers text env c) (h : c.FirstFlaw f) :
      Loads text env (.error (.invalid f))
  | ok {c : Settings} (hc : Layers text env c) (h : ∀ f, ¬ c.Has f) : Loads text env (.ok c)

section

variable {text : String} {env : String → Option ByteArray} {c : Settings}
  {r : Except LoadError Settings}

theorem ofDocument?_eq_none_iff : ofDocument? text = none ↔ ∀ es, ¬ Lists text es := by
  rw [Option.eq_none_iff_forall_ne_some]
  constructor
  · intro h es hes
    obtain ⟨s, hs⟩ := exists_setAll? hes.2 {}
    exact h s (by simp only [ofDocument?, hes.1, hs])
  · rintro h s hs
    obtain ⟨es, hes, -⟩ := ofDocument?_eq_some_iff.1 hs
    exact h es hes

theorem loads_load (text : String) (env : String → Option ByteArray) :
    Loads text env (load text (.ofBytes env)) := by
  unfold load
  cases hdoc : ofDocument? text with
  | none => exact .document (ofDocument?_eq_none_iff.1 hdoc)
  | some s =>
    obtain ⟨es, hes, hs⟩ := ofDocument?_eq_some_iff.1 hdoc
    rcases overlay_cases env s with ⟨c, heq, hreads, hc⟩ | ⟨c, e, x, heq, hfails, -⟩
    · have hlayers : Layers text env c := ⟨es, s, hes, hs, hreads, hc⟩
      simp only [heq]
      cases hvalid : c.validate with
      | ok _ => exact .ok hlayers (validate_eq_ok_iff.1 hvalid)
      | error f => exact .invalid hlayers (validate_eq_error_iff.1 hvalid)
    · simp only [heq]
      exact .environment hes hfails

theorem Layers.exists_overlay (h : Layers text env c) :
    ∃ s, ofDocument? text = some s ∧ s.overlay (.ofBytes env) = (c, none) := by
  obtain ⟨es, s, hes, hs, hreads, hc⟩ := h
  exact ⟨s, ofDocument?_eq_some_iff.2 ⟨es, hes, hs⟩, overlay_eq_none_iff.2 ⟨hreads, hc⟩⟩

theorem Loads.load_eq (h : Loads text env r) : load text (.ofBytes env) = r := by
  cases h with
  | document h =>
    simp only [load, ofDocument?_eq_none_iff.2 h]
  | @environment es x e hes h =>
    cases hdoc : ofDocument? text with
    | none => exact absurd hes (ofDocument?_eq_none_iff.1 hdoc es)
    | some s =>
      rcases overlay_cases env s with ⟨-, -, hreads, -⟩ | ⟨c, e', y, hover, h', -⟩
      · exact absurd (hreads x) h.1.not_reads
      · obtain ⟨-, rfl⟩ := h.unique h'
        simp only [load, hdoc, hover]
  | invalid hc h =>
    obtain ⟨s, hdoc, hover⟩ := hc.exists_overlay
    simp only [load, hdoc, hover, validate_eq_error_iff.2 h]
  | ok hc h =>
    obtain ⟨s, hdoc, hover⟩ := hc.exists_overlay
    simp only [load, hdoc, hover, validate_eq_ok_iff.2 h]

end

/-- Loading ends as the layers say, with settings or with the error of the first stage that fails.
Settings that are loaded keep snapshots for the time that they say, to the millisecond. An overlay
alone that ends early has set what comes before the variable that cannot be read, and nothing
else. -/
theorem load_layers (text : String) (env : String → Option ByteArray) :
    (∀ r, load text (.ofBytes env) = r ↔ Loads text env r) ∧
    (∀ c, load text (.ofBytes env) = .ok c → c.ttlMillis = c.cacheTtlMillis ∧
      Span.ofMillis? c.ttlMillis = some (Span.ofMillis c.cacheTtlMillis)) ∧
    ∀ s s' : Settings,
      (s.overlay (.ofBytes env) = (s', none) ↔
        (∀ x : Amount, x.Reads env) ∧ (Layer.ofVariables env).Over s s') ∧
      ∀ e, s.overlay (.ofBytes env) = (s', some e) ↔
        ∃ x : Amount, x.FailsFirst env e ∧ ((Layer.ofVariables env).before x).Over s s' := by
  refine ⟨fun r => ⟨?_, Loads.load_eq⟩, fun c h => ?_,
    fun s s' => ⟨overlay_eq_none_iff, fun e => overlay_eq_some_iff⟩⟩
  · rintro rfl
    exact loads_load text env
  · have hloads := loads_load text env
    rw [h] at hloads
    cases hloads with
    | ok _ hflaws => exact ttl_exact hflaws

end Settings
end Outreach
