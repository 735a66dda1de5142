/-!
# Outreach.Settings.Document

Settings documents: TOML 1.1 restricted to what settings can hold, which is keys at the top
level with a string or an integer for a value. Any other value, a table, a dotted key and a key
that comes twice are refused, as is a text that is no TOML.

* `Document.parse` — the keys of a document with their values, in order.
-/

namespace Outreach
namespace Document

inductive Value where
  | text (s : String)
  | integer (n : Int)
deriving DecidableEq, Repr

def isSpace (c : Char) : Bool := c == ' ' || c == '\t'

/-- Characters that may stand in comments and strings. -/
def isPlain (c : Char) : Bool :=
  c == '\t' || (32 ≤ c.toNat && c.toNat != 127)

def skip (cs : List Char) : List Char := cs.dropWhile isSpace

/-- The rest after the end of a line. -/
def newline? : List Char → Option (List Char)
  | '\n' :: cs => some cs
  | '\r' :: '\n' :: cs => some cs
  | _ => none

/-! ## Strings -/

def hexValue? (c : Char) : Option Nat :=
  let n := c.toNat
  if 48 ≤ n ∧ n ≤ 57 then some (n - 48)
  else if 97 ≤ n ∧ n ≤ 102 then some (n - 87)
  else if 65 ≤ n ∧ n ≤ 70 then some (n - 55)
  else none

/-- `w` hexadecimal digits after a number already read. -/
def hex? : Nat → Nat → List Char → Option (Nat × List Char)
  | 0, n, cs => some (n, cs)
  | _ + 1, _, [] => none
  | w + 1, n, c :: cs =>
    match hexValue? c with
    | none => none
    | some d => hex? w (n * 16 + d) cs

def scalar? (w : Nat) (cs : List Char) : Option (Char × List Char) :=
  match hex? w 0 cs with
  | none => none
  | some (n, cs) => if n.isValidChar then some (Char.ofNat n, cs) else none

/-- One character after a backslash. -/
def escape? : List Char → Option (Char × List Char)
  | 'b' :: cs => some ('\x08', cs)
  | 't' :: cs => some ('\t', cs)
  | 'n' :: cs => some ('\n', cs)
  | 'f' :: cs => some ('\x0c', cs)
  | 'r' :: cs => some ('\r', cs)
  | 'e' :: cs => some ('\x1b', cs)
  | '\x22' :: cs => some ('\x22', cs)
  | '\\' :: cs => some ('\\', cs)
  | 'x' :: cs => scalar? 2 cs
  | 'u' :: cs => scalar? 4 cs
  | 'U' :: cs => scalar? 8 cs
  | _ => none

/-- A one-line string in double quotes, after the opening quote. -/
def basic? : Nat → List Char → Option (List Char × List Char)
  | 0, _ => none
  | _ + 1, [] => none
  | fuel + 1, c :: cs =>
    if c = '\x22' then some ([], cs)
    else if c = '\\' then
      match escape? cs with
      | none => none
      | some (e, cs) => (basic? fuel cs).map fun r => (e :: r.1, r.2)
    else if isPlain c then (basic? fuel cs).map fun r => (c :: r.1, r.2)
    else none

/-- A one-line string in single quotes, after the opening quote. -/
def literal? : List Char → Option (List Char × List Char)
  | [] => none
  | c :: cs =>
    if c = '\x27' then some ([], cs)
    else if isPlain c then (literal? cs).map fun r => (c :: r.1, r.2)
    else none

/-- The white space and line ends that a backslash at the end of a line swallows. -/
def swallow : List Char → List Char
  | ' ' :: cs => swallow cs
  | '\t' :: cs => swallow cs
  | '\n' :: cs => swallow cs
  | '\r' :: '\n' :: cs => swallow cs
  | cs => cs

/-- The text of a string over several lines between three quotes `q`, after the opening. Up to
two more quotes may stand before the closing ones. -/
def lines? (q : Char) (escapes : Bool) : Nat → List Char → Option (List Char × List Char)
  | 0, _ => none
  | _ + 1, [] => none
  | fuel + 1, c :: cs =>
    if c = q then
      let run := ((c :: cs).takeWhile (· == q)).length
      let rest := (c :: cs).drop run
      if 5 < run then none
      else if 3 ≤ run then some (List.replicate (run - 3) q, rest)
      else (lines? q escapes fuel rest).map fun r => (List.replicate run q ++ r.1, r.2)
    else if escapes && c == '\\' then
      match newline? (skip cs) with
      | some rest => lines? q escapes fuel (swallow rest)
      | none =>
        match escape? cs with
        | none => none
        | some (e, cs) => (lines? q escapes fuel cs).map fun r => (e :: r.1, r.2)
    else if isPlain c || c == '\n' || (c == '\r' && cs.head? == some '\n') then
      (lines? q escapes fuel cs).map fun r => (c :: r.1, r.2)
    else none

/-- A line end right after the opening quotes does not count. -/
def dropNewline (cs : List Char) : List Char :=
  (newline? cs).getD cs

/-- A string in any of the four forms. -/
def string? (cs : List Char) : Option (String × List Char) :=
  let form :=
    match cs with
    | '\x22' :: '\x22' :: '\x22' :: cs => lines? '\x22' true (cs.length + 1) (dropNewline cs)
    | '\x27' :: '\x27' :: '\x27' :: cs => lines? '\x27' false (cs.length + 1) (dropNewline cs)
    | '\x22' :: cs => basic? (cs.length + 1) cs
    | '\x27' :: cs => literal? cs
    | _ => none
  form.map fun r => (String.ofList r.1, r.2)

/-! ## Integers -/

/-- The value of a digit in a base. -/
def digit? (base : Nat) (c : Char) : Option Nat :=
  match hexValue? c with
  | none => none
  | some d => if d < base then some d else none

/-- Digits, with single underscores between them. -/
def digits? (base : Nat) : Nat → List Char → Option Nat
  | n, [] => some n
  | n, '_' :: c :: cs =>
    match digit? base c with
    | none => none
    | some d => digits? base (n * base + d) cs
  | n, c :: cs =>
    match digit? base c with
    | none => none
    | some d => digits? base (n * base + d) cs

/-- At least one digit, and no underscore in front. -/
def number? (base : Nat) : List Char → Option Nat
  | [] => none
  | '_' :: _ => none
  | cs => digits? base 0 cs

/-- A decimal number has no needless zeros in front. -/
def decimal? : List Char → Option Nat
  | '0' :: [] => some 0
  | '0' :: _ => none
  | cs => number? 10 cs

def integerOf? : List Char → Option Int
  | '0' :: 'x' :: cs => (number? 16 cs).map Int.ofNat
  | '0' :: 'o' :: cs => (number? 8 cs).map Int.ofNat
  | '0' :: 'b' :: cs => (number? 2 cs).map Int.ofNat
  | '+' :: cs => (decimal? cs).map Int.ofNat
  | '-' :: cs => (decimal? cs).map fun n => -(n : Int)
  | cs => (decimal? cs).map Int.ofNat

def isBare (c : Char) : Bool :=
  let n := c.toNat
  (48 ≤ n && n ≤ 57) || (97 ≤ n && n ≤ 122) || (65 ≤ n && n ≤ 90) || c == '_' || c == '-'

def integer? (cs : List Char) : Option (Int × List Char) :=
  let isPart := fun c => isBare c || c == '+'
  (integerOf? (cs.takeWhile isPart)).map fun n => (n, cs.dropWhile isPart)

/-! ## Documents -/

def value? (cs : List Char) : Option (Value × List Char) :=
  match cs with
  | [] => none
  | c :: _ =>
    if c = '\x22' ∨ c = '\x27' then (string? cs).map fun r => (.text r.1, r.2)
    else (integer? cs).map fun r => (.integer r.1, r.2)

/-- A key: bare, or a one-line string. -/
def key? : List Char → Option (String × List Char)
  | '\x22' :: cs => (basic? (cs.length + 1) cs).map fun r => (String.ofList r.1, r.2)
  | '\x27' :: cs => (literal? cs).map fun r => (String.ofList r.1, r.2)
  | cs =>
    let name := cs.takeWhile isBare
    if name.isEmpty then none else some (String.ofList name, cs.dropWhile isBare)

/-- The rest of a line that holds nothing more than a comment, and the lines after it. -/
def lineEnd? (cs : List Char) : Option (List Char) :=
  match skip cs with
  | [] => some []
  | '#' :: cs =>
    match cs.dropWhile isPlain with
    | [] => some []
    | cs => newline? cs
  | cs => newline? cs

/-- The entries of at most `fuel` lines. -/
def entries? : Nat → List Char → Option (List (String × Value))
  | 0, _ => none
  | fuel + 1, cs =>
    match skip cs with
    | [] => some []
    | c :: cs =>
      match lineEnd? (c :: cs) with
      | some rest => entries? fuel rest
      | none => do
        let (k, cs) ← key? (c :: cs)
        let cs ← match skip cs with
          | '=' :: cs => some cs
          | _ => none
        let (v, cs) ← value? (skip cs)
        let rest ← lineEnd? cs
        let es ← entries? fuel rest
        if es.any (·.1 == k) then none else some ((k, v) :: es)

/-- The entries of a document; a byte order mark in front of it is passed over. -/
def parse (s : String) : Option (List (String × Value)) :=
  match s.toList with
  | '\ufeff' :: cs => entries? (cs.length + 1) cs
  | cs => entries? (cs.length + 1) cs

end Document
end Outreach
