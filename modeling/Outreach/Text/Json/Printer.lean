import Outreach.Text.Double.Shortest
import Outreach.Text.Json

/-!
# Outreach.Text.Json.Printer

JSON texts of values, without white space. A string is quoted, with an escape for the quote, the
backslash and the control characters. A double has the fewest digits that read back and always a
point or an exponent, so that it is not taken for an integer.

* `JsonValue.render` — the text of a value.
* `JsonValue.decimalText` — the text of a double without its sign.
-/

namespace Outreach
namespace JsonValue

def zeros (n : Nat) : List Char :=
  List.replicate n '0'

/-- Digits after which the exponent counts. Within sixteen places before the point and five after
it no exponent is written, otherwise there is one digit before the point. -/
def decimalText (digits : List Char) (exponent : Int) : List Char :=
  let point : Int := digits.length + exponent
  if 0 ≤ exponent ∧ point ≤ 16 then digits ++ zeros exponent.toNat ++ ['.', '0']
  else if 0 < point ∧ point ≤ 16 then
    digits.take point.toNat ++ '.' :: digits.drop point.toNat
  else if -5 < point ∧ point ≤ 0 then ['0', '.'] ++ zeros (-point).toNat ++ digits
  else
    let fraction := if digits.length ≤ 1 then [] else '.' :: digits.drop 1
    digits.take 1 ++ fraction ++ 'e' :: (point - 1).repr.toList

def doubleText (negative : Bool) (x : Double) : String :=
  let (n, e) := x.shortest
  let text := decimalText n.repr.toList e
  String.ofList (if negative then '-' :: text else text)

def hexDigit (n : Nat) : Char :=
  if n < 10 then Char.ofNat (48 + n) else Char.ofNat (87 + n)

/-- A character within quotes. -/
def escaped (c : Char) : List Char :=
  if c = '\x22' then ['\\', '\x22']
  else if c = '\\' then ['\\', '\\']
  else if c.toNat < 32 then
    ['\\', 'u', '0', '0', hexDigit (c.toNat / 16), hexDigit (c.toNat % 16)]
  else [c]

def quoted (s : String) : String :=
  String.ofList ('\x22' :: s.toList.flatMap escaped ++ ['\x22'])

mutual

/-- The text of a value. -/
def render : JsonValue → String
  | .null => "null"
  | .bool b => if b then "true" else "false"
  | .integer n => n.repr
  | .double negative x => doubleText negative x
  | .string s => quoted s
  | .array items => "[" ++ ",".intercalate (renderItems items) ++ "]"
  | .object members => "\x7b" ++ ",".intercalate (renderMembers members) ++ "\x7d"

def renderItems : List JsonValue → List String
  | [] => []
  | v :: vs => v.render :: renderItems vs

def renderMembers : List (String × JsonValue) → List String
  | [] => []
  | m :: ms => renderMember m :: renderMembers ms

def renderMember : String × JsonValue → String
  | (name, v) => quoted name ++ ":" ++ v.render

end

end JsonValue
end Outreach
