import Monkey.Text.Visible

/-!
# Quoted text

Text between double quotes, for output that is read by programmers.  Quotes, backslashes and the
common controls are written with a backslash, and every other character that has no glyph of its
own by its code point in hexadecimal.

## Main definitions

* `escaped` — how one character is written.
* `quoted` — a text between quotes.
-/

namespace Monkey

/-- A number in hexadecimal, in lower case. -/
def hexadecimal (n : Nat) : String := String.ofList (Nat.toDigits 16 n)

/-- How a character is written between double quotes. -/
def escaped (c : Char) : String :=
  if c = '"' then "\\\""
  else if c = '\\' then "\\\\"
  else if c = '\n' then "\\n"
  else if c = '\r' then "\\r"
  else if c = '\t' then "\\t"
  else if c = '\x00' then "\\0"
  else if isVisible c then String.singleton c
  else "\\u\x7b" ++ hexadecimal c.toNat ++ "\x7d"

/-- A text between double quotes. -/
def quoted (text : String) : String :=
  "\"" ++ String.join (text.toList.map escaped) ++ "\""

/-- The texts of a list, each quoted, between brackets. -/
def quotedList (texts : List String) : String :=
  "[" ++ String.intercalate ", " (texts.map quoted) ++ "]"

end Monkey
