import Outreach.Settings.Document
import Outreach.Settings.Variable
import Outreach.Time.Moment

/-!
# Outreach.Settings

What the cache and the scheduler can be set to. Settings come in layers: defaults, then a
document, then variables of the environment; the result is checked as a whole.

* `Settings.load` — all layers of a document and an environment, in this order, and the check.
* `Settings.overlay` — the variables alone; what was overlaid before a bad one stays.
-/

namespace Outreach

structure Settings where
  databaseUrl : String := "org_assets.db"
  cacheTtlMillis : Nat := 5000
  flowTimeoutSeconds : Nat := 30
  batchSize : Nat := 500
deriving DecidableEq, Repr

namespace Settings

/-- The largest number a setting can hold. -/
def most : Nat := 18446744073709551615

def databaseVariable : String := "ORG_ASSETS_DATABASE_URL"
def ttlVariable : String := "ORG_ASSETS_CACHE_TTL_MS"
def timeoutVariable : String := "ORG_ASSETS_FLOW_TIMEOUT_SECS"
def batchVariable : String := "ORG_ASSETS_FIRE_BATCH_SIZE"

/-- What is wrong with settings as a whole. -/
inductive Flaw where
  | emptyDatabase
  | zeroTtl
  | hugeTtl (millis : Nat)
  | zeroTimeout
  | zeroBatch
deriving DecidableEq, Repr

def Flaw.message : Flaw → String
  | .emptyDatabase => "database_url cannot be empty"
  | .zeroTtl => "cache_ttl_ms must be greater than zero"
  | .hugeTtl millis => s!"cache_ttl_ms is out of range: {millis}"
  | .zeroTimeout => "flow_load_timeout_secs must be greater than zero"
  | .zeroBatch => "fire_batch_size must be greater than zero"

inductive LoadError where
  | unreadable (path : String)
  | document
  | variable (e : VariableError)
  | invalid (f : Flaw)
deriving DecidableEq, Repr

/-- The stage that failed; for a variable, what is wrong with it. -/
def LoadError.message : LoadError → String
  | .unreadable path => "read config file " ++ path
  | .document => "failed to parse config TOML"
  | .variable e => e.message
  | .invalid _ => "invalid config"

/-- How long a snapshot is served, in milliseconds, cut off at the longest time span. -/
def ttlMillis (s : Settings) : Nat :=
  min s.cacheTtlMillis Span.mostMillis

/-- One entry of a document; the key has to be known and the value of its kind and in range. -/
def set? (s : Settings) (key : String) : Document.Value → Option Settings
  | .text v => if key = "database_url" then some { s with databaseUrl := v } else none
  | .integer n =>
    if n < 0 ∨ (most : Int) < n then none
    else if key = "cache_ttl_ms" then some { s with cacheTtlMillis := n.toNat }
    else if key = "flow_load_timeout_secs" then some { s with flowTimeoutSeconds := n.toNat }
    else if key = "fire_batch_size" then some { s with batchSize := n.toNat }
    else none

def setAll? (s : Settings) : List (String × Document.Value) → Option Settings
  | [] => some s
  | e :: es =>
    match s.set? e.1 e.2 with
    | none => none
    | some s => setAll? s es

/-- The settings of a document over the defaults. -/
def ofDocument? (text : String) : Option Settings :=
  match Document.parse text with
  | none => none
  | some es => setAll? {} es

def overlayBatch (s : Settings) (vars : Variables) : Settings × Option VariableError :=
  match vars.parse? (Variables.unsigned most) batchVariable with
  | .error e => (s, some e)
  | .ok none => (s, none)
  | .ok (some n) => ({ s with batchSize := n }, none)

def overlayTimeout (s : Settings) (vars : Variables) : Settings × Option VariableError :=
  match vars.parse? (Variables.unsigned most) timeoutVariable with
  | .error e => (s, some e)
  | .ok none => overlayBatch s vars
  | .ok (some n) => overlayBatch { s with flowTimeoutSeconds := n } vars

def overlayTtl (s : Settings) (vars : Variables) : Settings × Option VariableError :=
  match vars.parse? (Variables.unsigned most) ttlVariable with
  | .error e => (s, some e)
  | .ok none => overlayTimeout s vars
  | .ok (some n) => overlayTimeout { s with cacheTtlMillis := n } vars

/-- Overlays the variables in the order of the fields, up to the first that cannot be read. -/
def overlay (s : Settings) (vars : Variables) : Settings × Option VariableError :=
  match vars.get? databaseVariable with
  | none => overlayTtl s vars
  | some url => overlayTtl { s with databaseUrl := url } vars

/-- The first flaw in the order of the fields. -/
def validate (s : Settings) : Except Flaw Unit :=
  if trim s.databaseUrl = "" then .error .emptyDatabase
  else if s.cacheTtlMillis = 0 then .error .zeroTtl
  else if Span.mostMillis < s.cacheTtlMillis then .error (.hugeTtl s.cacheTtlMillis)
  else if s.flowTimeoutSeconds = 0 then .error .zeroTimeout
  else if s.batchSize = 0 then .error .zeroBatch
  else .ok ()

/-- The settings that a document and an environment give. -/
def load (text : String) (vars : Variables) : Except LoadError Settings :=
  match ofDocument? text with
  | none => .error .document
  | some s =>
    match s.overlay vars with
    | (_, some e) => .error (.variable e)
    | (s, none) =>
      match s.validate with
      | .error f => .error (.invalid f)
      | .ok () => .ok s

/-- As `load`, for a file that may not be there. -/
def loadFile (path : String) (text : Option String) (vars : Variables) :
    Except LoadError Settings :=
  match text with
  | none => .error (.unreadable path)
  | some text => load text vars

end Settings
end Outreach
