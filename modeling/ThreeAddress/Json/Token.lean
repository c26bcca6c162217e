import ThreeAddress.Json.Numeral

set_option autoImplicit false

/-! # JSON tokens

The lexical level of JSON: punctuation, the three words, numerals and string literals. A string
literal is scanned into pieces first, because a character outside the basic plane is escaped as two
16-bit units that only make sense together. -/

namespace ThreeAddress.Json

/-- A lexical element. A string literal without a value holds half of a surrogate pair. -/
inductive Token where
  | openArray
  | closeArray
  | openObject
  | closeObject
  | comma
  | colon
  | text (value : Option String)
  | scalar (value : Json)

/-- A piece of a string literal: a character, or a 16-bit unit given in hexadecimal. -/
inductive Piece where
  | char (value : Char)
  | unit (value : Nat)
deriving DecidableEq, Repr

namespace Piece

/-- The character that pieces `high` and `low` of a surrogate pair stand for. -/
def pair (high low : Nat) : Char :=
  Char.ofNat (0x10000 + (high - 0xD800) * 0x400 + (low - 0xDC00))

/-- The characters of pieces that are given the latest first, put in front of `behind`; `none` if a
    surrogate has no partner. -/
def chars? (behind : List Char) : List Piece → Option (List Char)
  | [] => some behind
  | .char c :: rest => chars? (c :: behind) rest
  | .unit low :: .unit high :: rest =>
    if 0xDC00 ≤ low ∧ low < 0xE000 then
      if 0xD800 ≤ high ∧ high < 0xDC00 then chars? (pair high low :: behind) rest else none
    else if 0xD800 ≤ low ∧ low < 0xDC00 then none
    else chars? (Char.ofNat low :: behind) (.unit high :: rest)
  | .unit u :: rest =>
    if 0xD800 ≤ u ∧ u < 0xE000 then none else chars? (Char.ofNat u :: behind) rest

end Piece

/-! ## String literals -/

/-- The value of a hexadecimal digit of either case. -/
def hexDigit? (c : Char) : Option Nat :=
  if '0' ≤ c ∧ c ≤ '9' then some (c.toNat - '0'.toNat)
  else if 'a' ≤ c ∧ c ≤ 'f' then some (c.toNat - 'a'.toNat + 10)
  else if 'A' ≤ c ∧ c ≤ 'F' then some (c.toNat - 'A'.toNat + 10)
  else none

/-- The value of hexadecimal digits, the most significant first. -/
def hexValue? (digits : List Char) : Option Nat :=
  digits.foldlM (fun n c => (hexDigit? c).map (n * 16 + ·)) 0

/-- The character behind a one-letter escape. -/
def escape? : Char → Option Char
  | '"' => some '"'
  | '\\' => some '\\'
  | '/' => some '/'
  | 'b' => some '\x08'
  | 'f' => some '\x0c'
  | 'n' => some '\n'
  | 'r' => some '\r'
  | 't' => some '\t'
  | _ => none

/-- Scan a string literal behind its opening quote. Yields the pieces, the latest first, put in
    front of `seen`, and what follows the closing quote. -/
def scanText (seen : List Piece) : List Char → Option (List Piece × List Char)
  | [] => none
  | '"' :: rest => some (seen, rest)
  | '\\' :: 'u' :: a :: b :: c :: d :: rest =>
    match hexValue? [a, b, c, d] with
    | some u => scanText (.unit u :: seen) rest
    | none => none
  | '\\' :: c :: rest =>
    match escape? c with
    | some e => scanText (.char e :: seen) rest
    | none => none
  | c :: rest => if c.toNat < 0x20 then none else scanText (.char c :: seen) rest

/-- The token of a string literal behind its opening quote. -/
def textToken? (cs : List Char) : Option (Token × List Char) :=
  (scanText [] cs).map fun (pieces, rest) =>
    (.text ((Piece.chars? [] pieces).map String.ofList), rest)

/-! ## Numerals -/

/-- The fraction of a numeral, if there is one: a point and at least one digit. -/
def scanFraction : List Char → Option (Option (List Char) × List Char)
  | '.' :: rest =>
    match rest.span Char.isDigit with
    | ([], _) => none
    | (digits, rest) => some (some digits, rest)
  | cs => some (none, cs)

/-- At least one digit, as a number. -/
def scanDigits (cs : List Char) : Option (Nat × List Char) :=
  match cs.span Char.isDigit with
  | ([], _) => none
  | (digits, rest) => some (Nat.ofDigitChars 10 digits 0, rest)

/-- The digits of an exponent with their sign. -/
def scanSigned : List Char → Option (Int × List Char)
  | '-' :: rest => (scanDigits rest).map fun (n, rest) => (-(n : Int), rest)
  | '+' :: rest => (scanDigits rest).map fun (n, rest) => ((n : Int), rest)
  | cs => (scanDigits cs).map fun (n, rest) => ((n : Int), rest)

/-- The exponent of a numeral, if there is one. -/
def scanExponent : List Char → Option (Option Int × List Char)
  | 'e' :: rest => (scanSigned rest).map fun (n, rest) => (some n, rest)
  | 'E' :: rest => (scanSigned rest).map fun (n, rest) => (some n, rest)
  | cs => some (none, cs)

/-- A numeral behind its sign. A leading zero must be the only digit before the point. -/
def scanUnsigned (negative : Bool) (cs : List Char) : Option (Numeral × List Char) := do
  let (whole, rest) := cs.span Char.isDigit
  match whole with
  | [] => none
  | '0' :: _ :: _ => none
  | _ =>
    let (fraction, rest) ← scanFraction rest
    let (exponent, rest) ← scanExponent rest
    some ({ negative, whole, fraction, exponent }, rest)

/-- A numeral. -/
def scanNumeral : List Char → Option (Numeral × List Char)
  | '-' :: rest => scanUnsigned true rest
  | cs => scanUnsigned false cs

/-! ## Texts -/

/-- The first token of a text that does not start with a blank, and what follows it. -/
def nextToken? : List Char → Option (Token × List Char)
  | '[' :: rest => some (.openArray, rest)
  | ']' :: rest => some (.closeArray, rest)
  | '\x7b' :: rest => some (.openObject, rest)
  | '\x7d' :: rest => some (.closeObject, rest)
  | ',' :: rest => some (.comma, rest)
  | ':' :: rest => some (.colon, rest)
  | '"' :: rest => textToken? rest
  | 'n' :: 'u' :: 'l' :: 'l' :: rest => some (.scalar .null, rest)
  | 't' :: 'r' :: 'u' :: 'e' :: rest => some (.scalar (.bool true), rest)
  | 'f' :: 'a' :: 'l' :: 's' :: 'e' :: rest => some (.scalar (.bool false), rest)
  | cs => (scanNumeral cs).map fun (n, rest) => (.scalar n.toJson, rest)

/-- Whether a character may stand between tokens. -/
def isBlank (c : Char) : Bool := c == ' ' || c == '\t' || c == '\n' || c == '\r'

/-- All tokens of a text, put behind `seen`. A token takes at least one character, so that the
    number of characters bounds the number of rounds. -/
def tokensWithin (seen : Array Token) : Nat → List Char → Option (Array Token)
  | 0, cs => if cs.all isBlank then some seen else none
  | fuel + 1, cs =>
    match cs.dropWhile isBlank with
    | [] => some seen
    | cs =>
      match nextToken? cs with
      | some (token, rest) => tokensWithin (seen.push token) fuel rest
      | none => none

/-- All tokens of a text. -/
def tokens? (text : String) : Option (Array Token) :=
  let cs := text.toList
  tokensWithin #[] cs.length cs

end ThreeAddress.Json
