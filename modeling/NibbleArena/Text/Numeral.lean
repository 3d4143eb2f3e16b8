import NibbleArena.Text.Digits

/-! # Numerals — numbers given as arguments

    A numeral is a row of digits, leading zeros included, and may begin with a
    plus. -/

namespace NibbleArena.Text

/-- The number that a row of digits stands for, if there is a digit and nothing
    else. -/
def digitsValue? : List Char → Option Nat
  | [] => none
  | ds => if ds.all Char.isDigit then some (valueOfDigits ds) else none

/-- The number of a numeral, if it is at most `limit`. -/
def numeral? (limit : Nat) (s : String) : Option Nat :=
  let digits :=
    match s.toList with
    | '+' :: ds => ds
    | ds => ds
  (digitsValue? digits).filter (· ≤ limit)

/-- The number of a numeral that may also be a negated zero. -/
def signedNumeral? (limit : Nat) (s : String) : Option Nat :=
  match s.toList with
  | '-' :: ds => (digitsValue? ds).filter (· = 0)
  | _ => numeral? limit s

end NibbleArena.Text
