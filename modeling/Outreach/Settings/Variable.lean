import Outreach.Text.Blank
import Outreach.Text.Numeral
import Outreach.Text.Quoted

/-!
# Outreach.Settings.Variable

Optional variables of the process environment. A variable that is not set, or set to blanks
alone, has no value; any other value is trimmed. `parse?` reads the value in some form and says
what is wrong with one that cannot be read.
-/

namespace Outreach

/-- The variables that are set, by name. -/
abbrev Variables := String → Option String

structure VariableError where
  name : String
  value : String
  reason : String
deriving DecidableEq, Repr

def VariableError.message (e : VariableError) : String :=
  "Invalid value " ++ quoteText e.value ++ " for environment variable " ++ e.name ++ ": " ++
    e.reason

namespace Variables

/-- The variables of an environment, which holds bytes. One whose bytes are no text counts as not
set. -/
def ofBytes (env : String → Option ByteArray) : Variables :=
  fun name => (env name).bind String.fromUTF8?

def get? (vars : Variables) (name : String) : Option String :=
  match vars name with
  | none => none
  | some v => if trim v = "" then none else some (trim v)

/-- The value in the form that `read` accepts. -/
def parse? {α : Type} (read : String → Except String α) (vars : Variables) (name : String) :
    Except VariableError (Option α) :=
  match vars.get? name with
  | none => .ok none
  | some v =>
    match read v with
    | .ok a => .ok (some a)
    | .error reason => .error ⟨name, v, reason⟩

def unsigned (most : Nat) (s : String) : Except String Nat :=
  match Numeral.unsigned most s with
  | .ok n => .ok n
  | .error e => .error e.message

def signed (most : Nat) (s : String) : Except String Int :=
  match Numeral.signed most s with
  | .ok n => .ok n
  | .error e => .error e.message

def bool (s : String) : Except String Bool :=
  if s = "true" then .ok true
  else if s = "false" then .ok false
  else .error "provided string was not \x60true\x60 or \x60false\x60"

def text (s : String) : Except String String := .ok s

end Variables
end Outreach
