import NibbleArena.Draw

/-! # Listed words — a source that is written down

    The listed words come first, then zeros.  A zero is always accepted, and so is
    one that is made of two, so a choice takes at most one word more than are left on
    the list. -/

namespace NibbleArena

/-- Words given beforehand. -/
structure ListedWords where
  rest : List UInt32
  /-- The number of words taken so far. -/
  used : Nat
  deriving DecidableEq

namespace ListedWords

/-- A list from which no word was taken yet. -/
def ofList (ws : List UInt32) : ListedWords := ⟨ws, 0⟩

/-- Takes a word. -/
def next : ListedWords → UInt32 × ListedWords
  | ⟨[], used⟩ => (0, ⟨[], used + 1⟩)
  | ⟨w :: rest, used⟩ => (w, ⟨rest, used + 1⟩)

instance : WordSource ListedWords where
  next := next
  patience s := s.rest.length + 1

end ListedWords

end NibbleArena
