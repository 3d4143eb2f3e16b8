/-! # Digits — decimal numbers

    The number that a row of decimal digits stands for, however long it is. -/

namespace NibbleArena.Text

/-- The value of a digit. -/
def digitValue (c : Char) : Nat := c.toNat - '0'.toNat

/-- The number that digits stand for. -/
def valueOfDigits (ds : List Char) : Nat := ds.foldl (fun n d => 10 * n + digitValue d) 0

end NibbleArena.Text
