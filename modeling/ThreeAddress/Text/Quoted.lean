import ThreeAddress.Text.Extender
import ThreeAddress.Text.Unprintable

set_option autoImplicit false

/-! # Quoted text

Listings show a string constant between double quotes. Quotes and backslashes are escaped, the
common control characters have a letter each, and a character that would not be seen on its own
(unprintable, or drawn as part of its predecessor) is given by its code point. -/

namespace ThreeAddress.Text

/-- Whether a character stands for itself inside quotes. -/
def isPlain (c : Char) : Bool :=
  if c.toNat < 0x7F then decide (0x20 ≤ c.toNat) else !isExtender c && !isUnprintable c

/-- The code point of a character in hexadecimal, between braces. -/
def codePoint (c : Char) : String :=
  "\\u\x7b" ++ String.ofList (Nat.toDigits 16 c.toNat) ++ "\x7d"

/-- How a character is written inside quotes. -/
def quotedChar (c : Char) : String :=
  match c with
  | '"' => "\\\""
  | '\\' => "\\\\"
  | '\t' => "\\t"
  | '\r' => "\\r"
  | '\n' => "\\n"
  | '\x00' => "\\0"
  | c => if isPlain c then c.toString else codePoint c

/-- A string between double quotes. -/
def quoted (s : String) : String :=
  "\"" ++ String.join (s.toList.map quotedChar) ++ "\""

end ThreeAddress.Text
