import NibbleArena.Core

/-! # Brackets — matching by a walk around the core

    The two bracket families are matched apart from each other, and only when a
    jump is taken: the program may have changed its brackets since it was loaded.
    A search starts next to the bracket, walks one cell at a time away from it and
    ends at the cell where the depth of its family returns to zero.  The lap is
    closed by the starting cell itself, which is looked at last; a search that gets
    past it has failed. -/

namespace NibbleArena

/-- The two kinds of brackets. -/
inductive BracketFamily
  /-- `(` and `)`, which test the cell. -/
  | cell
  /-- `[` and `]`, which test the character. -/
  | character
  deriving DecidableEq

namespace BracketFamily

/-- The opening bracket of a family. -/
def opening : BracketFamily → Opcode
  | cell => .loopCell
  | character => .loopChar

/-- The closing bracket of a family. -/
def closing : BracketFamily → Opcode
  | cell => .endCell
  | character => .endChar

/-- The family of an opcode, if it is a bracket. -/
def of? : Opcode → Option BracketFamily
  | .loopCell | .endCell => some cell
  | .loopChar | .endChar => some character
  | _ => none

/-- The name of a family in logs. -/
def name : BracketFamily → String
  | cell => "Cell"
  | character => "Character"

/-- The brackets are the opcodes that have a family. -/
theorem isSome_of? (op : Opcode) : (of? op).isSome = op.isBracket := by
  cases op <;> rfl

end BracketFamily

namespace Core

/-- Looks at up to `cells` cells, each `d` away from the one before, starting
    next to `pos`.  `nested` counts the brackets that were met on the way and
    have to be closed before the one that is sought. -/
def seek (c : Core) (d : Int) (deeper shallower : Opcode) :
    (cells pos nested : Nat) → Option Nat
  | 0, _, _ => none
  | cells + 1, pos, nested =>
    let next := c.offset pos d
    let op := c.opcode next
    if op = deeper then seek c d deeper shallower cells next (nested + 1)
    else if op = shallower then
      match nested with
      | 0 => some next
      | rest + 1 => seek c d deeper shallower cells next rest
    else seek c d deeper shallower cells next nested

/-- The closing bracket that matches the opening bracket at `start`. -/
def matchForward? (c : Core) (start : Nat) (family : BracketFamily) : Option Nat :=
  c.seek 1 family.opening family.closing c.size (c.wrap start) 0

/-- The opening bracket that matches the closing bracket at `start`. -/
def matchBackward? (c : Core) (start : Nat) (family : BracketFamily) : Option Nat :=
  c.seek (-1) family.closing family.opening c.size (c.wrap start) 0

end Core

end NibbleArena
