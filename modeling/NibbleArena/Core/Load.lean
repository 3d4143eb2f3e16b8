import NibbleArena.Core
import NibbleArena.Program

/-! # Loading — the code of a program written into a core

    The opcodes take one cell each from the origin on, around the circle if need
    be; of a program longer than the core the later opcodes stay.  Whether the
    brackets match is not looked at.

    A loaded program starts with its execution pointer on the origin and its
    cell pointer on the second cell after the code, so the character there is
    the pair of cells next to the code. -/

namespace NibbleArena

/-- The two pointers of a running program. -/
structure Registers where
  /-- The data cell. -/
  cell : Nat
  /-- The cell of the next instruction. -/
  exec : Nat
  deriving DecidableEq

namespace Registers

/-- Both pointers at address zero. -/
def origin : Registers := ⟨0, 0⟩

end Registers

namespace Core

/-- Writes opcodes into successive cells.  Gives the core and the address after
    the last of them. -/
def writeCode (c : Core) (a : Nat) : List Opcode → Core × Nat
  | [] => (c, a)
  | op :: rest =>
    let next := c.offset a 1
    writeCode (c.write a op.nibble) next rest

/-- Loads a program at an origin.  Gives the core and the pointers to start
    with. -/
def load (c : Core) (origin : Nat) (p : Program) : Core × Registers :=
  let start := c.wrap origin
  let (loaded, stop) := c.writeCode start p.code
  (loaded, ⟨loaded.offset stop 1, start⟩)

end Core

end NibbleArena
