import NibbleArena.Opcode
import NibbleArena.Text.Columns
import NibbleArena.Text.Lines

/-! # The instruction table — the reference card of the opcodes

    One line per opcode in the order of the nibbles, under a heading. -/

namespace NibbleArena.Opcode

open Text

/-- A line of the instruction table. -/
def tableLine (nibble symbol mnemonic description : String) : String :=
  flushRight 6 nibble ++ "  " ++ flushLeft 6 symbol ++ "  "
    ++ flushLeft 10 mnemonic ++ "  " ++ description

/-- The table of all instructions. -/
def table : String :=
  ofLines <|
    ["Agony instruction set:", "", tableLine "nibble" "symbol" "mnemonic" "description"]
      ++ all.toList.map fun op =>
        tableLine (toString op.nibble.val) (String.singleton op.symbol)
          op.mnemonic op.description

end NibbleArena.Opcode
