import NibbleArena.Text.Digits

/-! # JSON tokens — from characters to the words of a document

    The strict grammar: blanks are space, tab, line feed and carriage return;
    numbers have no leading zeros and no sign but a minus; strings hold no
    control characters; there are no comments.

    A number is kept when it is written with digits alone; of any other number
    only the form is looked at.  A string is kept as text unless an escape names
    half of a surrogate pair without the other half: then it is well formed, but
    no text.

    * `Token.next?` reads one token.
    * `tokenize?` reads all of them. -/

namespace NibbleArena.Json

/-- A word of a document. -/
inductive Token
  | openBrace
  | closeBrace
  | openBracket
  | closeBracket
  | colon
  | comma
  | null
  | boolean (b : Bool)
  /-- A number written with digits alone. -/
  | natural (n : Nat)
  /-- A number with a sign, a fraction or an exponent. -/
  | number
  /-- A string; `none` if it is no text. -/
  | text (s : Option String)
  deriving DecidableEq

/-- The characters between tokens. -/
def isBlank (c : Char) : Bool := c = ' ' || c = '\t' || c = '\n' || c = '\r'

/-! ## Numbers -/

/-- One or more digits. -/
def digits? (cs : List Char) : Option (List Char × List Char) :=
  match cs.takeWhile Char.isDigit with
  | [] => none
  | ds => some (ds, cs.dropWhile Char.isDigit)

/-- The digits before a fraction: a zero stands alone. -/
def whole? : List Char → Option (List Char × List Char)
  | '0' :: rest => some (['0'], rest)
  | cs => digits? cs

/-- Skips a fraction.  Says whether there was one. -/
def fraction? : List Char → Option (Bool × List Char)
  | '.' :: rest => (digits? rest).map fun (_, rest) => (true, rest)
  | cs => some (false, cs)

/-- Skips a sign. -/
def dropSign : List Char → List Char
  | '+' :: rest => rest
  | '-' :: rest => rest
  | cs => cs

/-- Skips an exponent.  Says whether there was one. -/
def exponent? : List Char → Option (Bool × List Char)
  | c :: rest =>
    if c = 'e' || c = 'E' then (digits? (dropSign rest)).map fun (_, rest) => (true, rest)
    else some (false, c :: rest)
  | [] => some (false, [])

/-- A number without its minus. -/
def unsigned? (cs : List Char) : Option (Token × List Char) := do
  let (ds, cs) ← whole? cs
  let (hasFraction, cs) ← fraction? cs
  let (hasExponent, cs) ← exponent? cs
  some (if hasFraction || hasExponent then .number else .natural (Text.valueOfDigits ds), cs)

/-- A number. -/
def number? : List Char → Option (Token × List Char)
  | '-' :: rest => (unsigned? rest).map fun (_, rest) => (.number, rest)
  | cs => unsigned? cs

/-! ## Strings -/

/-- A part of a string: a character, or a 16-bit unit named by an escape. -/
inductive Piece
  | char (c : Char)
  | unit (n : Nat)
  deriving DecidableEq

/-- The value of a hexadecimal digit. -/
def hexValue? (c : Char) : Option Nat :=
  if c.isDigit then some (Text.digitValue c)
  else if 'a' ≤ c && c ≤ 'f' then some (c.toNat - 'a'.toNat + 10)
  else if 'A' ≤ c && c ≤ 'F' then some (c.toNat - 'A'.toNat + 10)
  else none

/-- The unit that four hexadecimal digits name. -/
def unit? (a b c d : Char) : Option Nat := do
  let a ← hexValue? a
  let b ← hexValue? b
  let c ← hexValue? c
  let d ← hexValue? d
  some (((a * 16 + b) * 16 + c) * 16 + d)

/-- The character of an escape of one letter. -/
def escape? : Char → Option Char
  | '"' => some '"'
  | '\\' => some '\\'
  | '/' => some '/'
  | 'b' => some '\x08'
  | 'f' => some '\x0c'
  | 'n' => some '\n'
  | 'r' => some '\r'
  | 't' => some '\t'
  | _ => none

/-- The pieces of a string whose opening quote has been read. -/
def pieces? : List Char → Option (List Piece × List Char)
  | [] => none
  | '"' :: rest => some ([], rest)
  | '\\' :: 'u' :: a :: b :: c :: d :: rest =>
    match unit? a b c d with
    | none => none
    | some n => (pieces? rest).map fun (ps, rest) => (.unit n :: ps, rest)
  | '\\' :: e :: rest =>
    match escape? e with
    | none => none
    | some c => (pieces? rest).map fun (ps, rest) => (.char c :: ps, rest)
  | c :: rest =>
    if c.toNat < 0x20 then none
    else (pieces? rest).map fun (ps, rest) => (.char c :: ps, rest)

/-- Whether a unit is the first half of a surrogate pair. -/
def isHighHalf (n : Nat) : Bool := 0xd800 ≤ n && n < 0xdc00

/-- Whether a unit is the second half of a surrogate pair. -/
def isLowHalf (n : Nat) : Bool := 0xdc00 ≤ n && n < 0xe000

/-- The characters of a string, if its units pair up. -/
def charsOfPieces? : List Piece → Option (List Char)
  | [] => some []
  | .char c :: rest => (charsOfPieces? rest).map (c :: ·)
  | .unit n :: .unit m :: rest =>
    if isHighHalf n then
      if isLowHalf m then
        (charsOfPieces? rest).map
          (Char.ofNat (0x10000 + (n - 0xd800) * 0x400 + (m - 0xdc00)) :: ·)
      else none
    else if isLowHalf n then none
    else (charsOfPieces? (.unit m :: rest)).map (Char.ofNat n :: ·)
  | .unit n :: rest =>
    if isHighHalf n || isLowHalf n then none
    else (charsOfPieces? rest).map (Char.ofNat n :: ·)

/-- A string whose opening quote has been read. -/
def string? (cs : List Char) : Option (Token × List Char) :=
  (pieces? cs).map fun (ps, rest) => (.text ((charsOfPieces? ps).map String.ofList), rest)

/-! ## Tokens -/

/-- The token at the front of a text that does not begin with a blank. -/
def Token.next? : List Char → Option (Token × List Char)
  | '\x7b' :: rest => some (.openBrace, rest)
  | '\x7d' :: rest => some (.closeBrace, rest)
  | '[' :: rest => some (.openBracket, rest)
  | ']' :: rest => some (.closeBracket, rest)
  | ':' :: rest => some (.colon, rest)
  | ',' :: rest => some (.comma, rest)
  | '"' :: rest => string? rest
  | 'n' :: 'u' :: 'l' :: 'l' :: rest => some (.null, rest)
  | 't' :: 'r' :: 'u' :: 'e' :: rest => some (.boolean true, rest)
  | 'f' :: 'a' :: 'l' :: 's' :: 'e' :: rest => some (.boolean false, rest)
  | cs => number? cs

/-- The tokens of a text, at most `limit` of them. -/
def tokensWithin? : Nat → List Char → Option (List Token)
  | limit, cs =>
    match cs.dropWhile isBlank, limit with
    | [], _ => some []
    | _ :: _, 0 => none
    | c :: rest, limit + 1 =>
      match Token.next? (c :: rest) with
      | none => none
      | some (t, rest) => (tokensWithin? limit rest).map (t :: ·)

/-- The tokens of a text.  A text has no more tokens than characters. -/
def tokenize? (text : String) : Option (List Token) :=
  tokensWithin? text.length text.toList

end NibbleArena.Json
