/-! # Lines — line breaks put in and taken out

    A line ends with a line feed.  When a text is read, a carriage return right
    before the line feed belongs to the break; a carriage return anywhere else
    is a character of its line. -/

namespace NibbleArena.Text

/-- Texts one after the other, each closed by a line break. -/
def ofLines (ls : List String) : String := String.join (ls.map (· ++ "\n"))

/-- The characters of a text without the line breaks. -/
def joinLines : List Char → List Char
  | [] => []
  | '\r' :: '\n' :: rest => joinLines rest
  | '\n' :: rest => joinLines rest
  | c :: rest => c :: joinLines rest

/-- A text without the line breaks. -/
def unwrapped (s : String) : String := String.ofList (joinLines s.toList)

end NibbleArena.Text
