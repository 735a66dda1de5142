import Outreach.Text.Double

/-!
# Outreach.Text.Json

JSON texts (RFC 8259), read strictly: no comments, no trailing commas, no control characters in
strings, no lone surrogates, and nothing but white space after the value. Arrays and objects
nest at most `JsonValue.maxDepth` deep. Of two members with one name the later counts. A number
without point and exponent is an integer if it fits in 64 bits, where a negative zero does not. Any
other is a double: its first digits, as many as fit in 64 bits, scaled by the power of ten that
remains; one too large is refused.
-/

namespace Outreach

inductive JsonValue where
  | null
  | bool (b : Bool)
  | integer (n : Int)
  | double (negative : Bool) (magnitude : Double)
  | string (s : String)
  | array (items : List JsonValue)
  | object (members : List (String × JsonValue))
deriving Inhabited

namespace JsonValue

def maxDepth : Nat := 127

def isSpace (c : Char) : Bool :=
  c == ' ' || c == '\t' || c == '\n' || c == '\r'

def skip (cs : List Char) : List Char :=
  cs.dropWhile isSpace

def isDigit (c : Char) : Bool :=
  48 ≤ c.toNat && c.toNat ≤ 57

def natOf (ds : List Char) : Nat :=
  ds.foldl (fun n c => 10 * n + (c.toNat - 48)) 0

/-! ## Numbers -/

/-- The largest significand. -/
def most : Nat := 18446744073709551615

/-- Appends digits to a number as long as it is not too large, and counts those left over. -/
def extend : Nat → List Char → Nat × Nat
  | n, [] => (n, 0)
  | n, c :: cs =>
    let m := 10 * n + (c.toNat - 48)
    if m ≤ most then extend m cs else (n, cs.length + 1)

/-- The exponent, if there is one. -/
def exponent? : List Char → Option (Option Int × List Char)
  | [] => some (none, [])
  | c :: cs =>
    if c = 'e' ∨ c = 'E' then
      let (negative, cs) :=
        match cs with
        | '-' :: rest => (true, rest)
        | '+' :: rest => (false, rest)
        | rest => (false, rest)
      let ds := cs.takeWhile isDigit
      if ds.isEmpty then none
      else
        some (some (if negative then -(natOf ds : Int) else natOf ds), cs.dropWhile isDigit)
    else some (none, c :: cs)

/-- Digits after an optional point. -/
def decimals? : List Char → Option (List Char × List Char)
  | '.' :: cs =>
    let ds := cs.takeWhile isDigit
    if ds.isEmpty then none else some (ds, cs.dropWhile isDigit)
  | cs => some ([], cs)

/-- An integer of 64 bits, or a double, with the sign. -/
def ofParts (negative : Bool) (whole decimals : List Char) (e : Option Int) : Option JsonValue :=
  let (n, dropped) := extend 0 whole
  if decimals.isEmpty ∧ e.isNone ∧ dropped = 0 ∧ (negative → 0 < n ∧ n ≤ Nat.pow 2 63) then
    some (.integer (if negative then -(n : Int) else n))
  else
    let (m, left) := extend n decimals
    match Double.ofDecimal? m (dropped - (decimals.length - left : Nat) + e.getD 0) with
    | none => none
    | some x => some (.double negative x)

/-- A number after its sign. -/
def unsigned? (negative : Bool) (cs : List Char) : Option (JsonValue × List Char) := do
  let whole := cs.takeWhile isDigit
  if whole.isEmpty ∨ (whole.head? = some '0' ∧ 1 < whole.length) then none
  let (decimals, cs) ← decimals? (cs.dropWhile isDigit)
  let (e, cs) ← exponent? cs
  let v ← ofParts negative whole decimals e
  some (v, cs)

def number? : List Char → Option (JsonValue × List Char)
  | '-' :: cs => unsigned? true cs
  | cs => unsigned? false cs

/-! ## Strings -/

def hexValue? (c : Char) : Option Nat :=
  let n := c.toNat
  if 48 ≤ n ∧ n ≤ 57 then some (n - 48)
  else if 97 ≤ n ∧ n ≤ 102 then some (n - 87)
  else if 65 ≤ n ∧ n ≤ 70 then some (n - 55)
  else none

/-- Four hexadecimal digits. -/
def unit? : List Char → Option (Nat × List Char)
  | a :: b :: c :: d :: cs => do
    let a ← hexValue? a
    let b ← hexValue? b
    let c ← hexValue? c
    let d ← hexValue? d
    some (((a * 16 + b) * 16 + c) * 16 + d, cs)
  | _ => none

/-- The character of a `\u` escape: a high surrogate needs a low one after it, and a low
surrogate cannot stand alone. -/
def unicode? (cs : List Char) : Option (Char × List Char) :=
  match unit? cs with
  | none => none
  | some (u, cs) =>
    if 0xdc00 ≤ u ∧ u ≤ 0xdfff then none
    else if 0xd800 ≤ u ∧ u ≤ 0xdbff then
      match cs with
      | '\\' :: 'u' :: cs =>
        match unit? cs with
        | some (v, cs) =>
          if 0xdc00 ≤ v ∧ v ≤ 0xdfff then
            some (Char.ofNat (0x10000 + (u - 0xd800) * 0x400 + (v - 0xdc00)), cs)
          else none
        | none => none
      | _ => none
    else some (Char.ofNat u, cs)

/-- One character of a string after the backslash. -/
def escape? : List Char → Option (Char × List Char)
  | '\x22' :: cs => some ('\x22', cs)
  | '\\' :: cs => some ('\\', cs)
  | '/' :: cs => some ('/', cs)
  | 'b' :: cs => some ('\x08', cs)
  | 'f' :: cs => some ('\x0c', cs)
  | 'n' :: cs => some ('\n', cs)
  | 'r' :: cs => some ('\r', cs)
  | 't' :: cs => some ('\t', cs)
  | 'u' :: cs => unicode? cs
  | _ => none

/-- The rest of a string up to its closing quote, of at most `fuel` characters. -/
def chars? : Nat → List Char → Option (List Char × List Char)
  | 0, _ => none
  | _ + 1, [] => none
  | fuel + 1, c :: cs =>
    if c = '\x22' then some ([], cs)
    else if c = '\\' then
      match escape? cs with
      | none => none
      | some (e, cs) =>
        match chars? fuel cs with
        | none => none
        | some (s, cs) => some (e :: s, cs)
    else if c.toNat < 32 then none
    else
      match chars? fuel cs with
      | none => none
      | some (s, cs) => some (c :: s, cs)

def string? : List Char → Option (String × List Char)
  | '\x22' :: cs =>
    match chars? (cs.length + 1) cs with
    | some (s, cs) => some (String.ofList s, cs)
    | none => none
  | _ => none

/-! ## Values -/

/-- `text` at the front of `cs`. -/
def word? : List Char → List Char → Option (List Char)
  | [], cs => some cs
  | _ :: _, [] => none
  | t :: ts, c :: cs => if t = c then word? ts cs else none

/-- The member `name` set to `v`, in place of one of that name. -/
def put (name : String) (v : JsonValue) : List (String × JsonValue) → List (String × JsonValue)
  | [] => [(name, v)]
  | m :: ms => if m.1 = name then (name, v) :: ms else m :: put name v ms

/-- Items up to the closing bracket, at most `fuel` of them. -/
def items? (value : List Char → Option (JsonValue × List Char)) :
    Nat → List Char → Option (List JsonValue × List Char)
  | 0, _ => none
  | fuel + 1, cs =>
    match value cs with
    | none => none
    | some (v, cs) =>
      match skip cs with
      | ']' :: cs => some ([v], cs)
      | ',' :: cs =>
        match items? value fuel cs with
        | none => none
        | some (vs, cs) => some (v :: vs, cs)
      | _ => none

/-- Members up to the closing brace, at most `fuel` of them, set into those before. -/
def members? (value : List Char → Option (JsonValue × List Char)) :
    Nat → List (String × JsonValue) → List Char → Option (List (String × JsonValue) × List Char)
  | 0, _, _ => none
  | fuel + 1, acc, cs =>
    match string? (skip cs) with
    | none => none
    | some (name, cs) =>
      match skip cs with
      | ':' :: cs =>
        match value cs with
        | none => none
        | some (v, cs) =>
          match skip cs with
          | '\x7d' :: cs => some (put name v acc, cs)
          | ',' :: cs => members? value fuel (put name v acc) cs
          | _ => none
      | _ => none

/-- A scalar: anything but an array or an object. -/
def scalar? (cs : List Char) : Option (JsonValue × List Char) :=
  match cs with
  | [] => none
  | c :: _ =>
    if c = '\x22' then
      match string? cs with
      | some (s, cs) => some (.string s, cs)
      | none => none
    else if c = 'n' then (word? "null".toList cs).map fun cs => (.null, cs)
    else if c = 't' then (word? "true".toList cs).map fun cs => (.bool true, cs)
    else if c = 'f' then (word? "false".toList cs).map fun cs => (.bool false, cs)
    else number? cs

/-- A value in which arrays and objects nest at most `depth` deep. -/
def value? : Nat → List Char → Option (JsonValue × List Char)
  | depth, cs =>
    match skip cs with
    | '[' :: cs =>
      match depth with
      | 0 => none
      | depth + 1 =>
        match skip cs with
        | ']' :: cs => some (.array [], cs)
        | cs =>
          match items? (value? depth) (cs.length + 1) cs with
          | some (vs, cs) => some (.array vs, cs)
          | none => none
    | '\x7b' :: cs =>
      match depth with
      | 0 => none
      | depth + 1 =>
        match skip cs with
        | '\x7d' :: cs => some (.object [], cs)
        | cs =>
          match members? (value? depth) (cs.length + 1) [] cs with
          | some (ms, cs) => some (.object ms, cs)
          | none => none
    | cs => scalar? cs

/-- The value that a JSON text holds, where arrays and objects nest at most `depth` deep. -/
def parseWithin (depth : Nat) (s : String) : Option JsonValue :=
  match value? depth s.toList with
  | some (v, cs) => if (skip cs).isEmpty then some v else none
  | none => none

def parse (s : String) : Option JsonValue :=
  parseWithin maxDepth s

end JsonValue
end Outreach
