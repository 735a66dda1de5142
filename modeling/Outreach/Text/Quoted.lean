import Outreach.Text.Unprintable

/-!
# Outreach.Text.Quoted

Texts and characters as messages quote them. A text stands in double quotes, a character in
single ones; the quote in use and the backslash are written with a backslash, the four common
control characters by a letter, and what cannot be printed by its code in hexadecimal.
-/

namespace Outreach
namespace Quoted

/-- One character inside the quote `q`. -/
def escape (q c : Char) : List Char :=
  if c = '\x00' then ['\\', '0']
  else if c = '\t' then ['\\', 't']
  else if c = '\r' then ['\\', 'r']
  else if c = '\n' then ['\\', 'n']
  else if c = '\\' ∨ c = q then ['\\', c]
  else if isUnprintable c then
    ['\\', 'u', '\x7b'] ++ Nat.toDigits 16 c.toNat ++ ['\x7d']
  else [c]

def quoteWith (q : Char) (cs : List Char) : String :=
  String.ofList (q :: cs.flatMap (escape q) ++ [q])

end Quoted

/-- A text in double quotes. -/
def quoteText (s : String) : String :=
  Quoted.quoteWith '\x22' s.toList

/-- A character in single quotes. -/
def quoteChar (c : Char) : String :=
  Quoted.quoteWith '\x27' [c]

end Outreach
