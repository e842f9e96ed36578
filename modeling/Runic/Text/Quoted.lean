import Runic.Text.Hidden

/-!
# Quoted text

Messages and token listings show a piece of source between double quotes.  A quote and a
backslash are marked by a backslash, four controls have a letter of their own, and a character
nobody could see is written as its code point.

* `escape` is the rule for one character;
* `quoted` is the rule for a text.
-/

namespace Runic.Text

/-- A code point in lower-case hexadecimal, without leading zeros. -/
def hexadecimal (n : Nat) : List Char := Nat.toDigits 16 n

/-- How one character stands inside a quoted text. -/
def escape (c : Char) : List Char :=
  match c with
  | '\x00' => ['\x5c', '0']
  | '\t' => ['\x5c', 't']
  | '\r' => ['\x5c', 'r']
  | '\n' => ['\x5c', 'n']
  | '\x22' => ['\x5c', '\x22']
  | '\x5c' => ['\x5c', '\x5c']
  | c => if isHidden c then ['\x5c', 'u', '\x7b'] ++ hexadecimal c.toNat ++ ['\x7d'] else [c]

/-- The text between double quotes, each character escaped on its own. -/
def quoted (text : String) : String :=
  String.ofList ('\x22' :: text.toList.flatMap escape ++ ['\x22'])

end Runic.Text
