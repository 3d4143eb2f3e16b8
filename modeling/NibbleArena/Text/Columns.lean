/-! # Columns — text set to a width

    Tables are written in columns.  A text shorter than its column is filled
    with blanks on one side; a longer one is kept whole and pushes the rest of
    the line to the right.  Widths count characters. -/

namespace NibbleArena.Text

/-- `n` blanks. -/
def blanks (n : Nat) : String := String.ofList (List.replicate n ' ')

/-- The text at the left edge of a column of `width` characters. -/
def flushLeft (width : Nat) (s : String) : String := s ++ blanks (width - s.length)

/-- The text at the right edge of a column of `width` characters. -/
def flushRight (width : Nat) (s : String) : String := blanks (width - s.length) ++ s

end NibbleArena.Text
