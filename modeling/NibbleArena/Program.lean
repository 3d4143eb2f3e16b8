import NibbleArena.Opcode
import NibbleArena.Text.Columns
import NibbleArena.Text.Lines

/-! # Programs — a text and the opcodes it stands for

    A program is any text.  Its symbols are its code; every other character is
    commentary and takes no cell.  A program keeps its text, because an arena
    limits the length of the text and not of the code.

    * `Program.parse` reads a text; it never fails.
    * `Program.render` writes the code alone.
    * `Program.listing` is the numbered list of the instructions. -/

namespace NibbleArena

/-- The opcodes that the characters of a text stand for, in order. -/
def decode (text : List Char) : List Opcode := text.filterMap Opcode.ofSymbol?

/-- A program text with its code. -/
structure Program where
  source : String
  code : List Opcode
  code_eq : code = decode source.toList
  deriving DecidableEq

namespace Program

/-- Reads a text as a program. -/
def parse (source : String) : Program := ⟨source, decode source.toList, rfl⟩

/-- The number of cells the program takes. -/
def length (p : Program) : Nat := p.code.length

/-- Whether the program takes no cell. -/
def isEmpty (p : Program) : Bool := p.code.isEmpty

/-- The number of characters of the text, commentary included. -/
def sourceLength (p : Program) : Nat := p.source.length

/-- The code written as symbols, without commentary. -/
def render (p : Program) : String := String.ofList (p.code.map Opcode.symbol)

/-- A line of a listing. -/
def listingLine (index : Nat) (op : Opcode) : String :=
  Text.flushRight 4 (toString index) ++ " | " ++ String.singleton op.symbol ++ "  "
    ++ Text.flushLeft 10 op.mnemonic ++ " " ++ op.description

/-- The count of the instructions, one line for each of them, and a blank line. -/
def listing (p : Program) : String :=
  Text.ofLines <|
    ("Instructions: " ++ toString p.length)
      :: (p.code.zipIdx.map fun (op, i) => listingLine i op) ++ [""]

/-- Programs with the same text are the same program. -/
theorem eq_of_source_eq {p q : Program} (h : p.source = q.source) : p = q := by
  obtain ⟨s, c, hc⟩ := p
  obtain ⟨t, d, hd⟩ := q
  cases h
  cases hc
  cases hd
  rfl

end Program

end NibbleArena
