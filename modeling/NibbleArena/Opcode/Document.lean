import NibbleArena.Json.Value
import NibbleArena.Opcode

/-! # Opcodes in documents — an opcode as a JSON value

    An opcode is written as the string of its mnemonic.  It may also be an
    object whose only member has the mnemonic as its key and null as its value. -/

namespace NibbleArena.Opcode

/-- The opcode that a JSON value stands for. -/
def ofValue? : Json.Value → Option Opcode
  | .text (some name) => ofMnemonic? name
  | .object [(some name, .null)] => ofMnemonic? name
  | _ => none

/-- The opcode that a JSON document stands for. -/
def ofJson? (text : String) : Option Opcode := (Json.parse? text).bind ofValue?

end NibbleArena.Opcode
