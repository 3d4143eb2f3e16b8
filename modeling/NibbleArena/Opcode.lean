import NibbleArena.Nibble

/-! # The instruction set — sixteen opcodes, one for each nibble

    Every nibble is an opcode, so a cell always decodes.  An opcode has three
    spellings: the nibble stored in a core, the symbol written in a program and
    the mnemonic written in tables and logs.  `Opcode.all` lists them in the
    order of their nibbles; the look-ups by symbol and by mnemonic search it. -/

namespace NibbleArena

/-- One instruction.  A cell is a nibble; a character is the byte made of the
    cell before the pointer and the cell at it. -/
inductive Opcode
  /-- Stop here. -/
  | halt
  /-- Move the cell pointer one cell right. -/
  | right
  /-- Move the cell pointer one cell left. -/
  | left
  /-- Move the cell pointer one character right. -/
  | rightTwo
  /-- Move the cell pointer one character left. -/
  | leftTwo
  /-- Add one to the cell. -/
  | incCell
  /-- Take one from the cell. -/
  | decCell
  /-- Add one to the character. -/
  | incChar
  /-- Take one from the character. -/
  | decChar
  /-- Hand the character to the host. -/
  | output
  /-- Store a character asked from the host. -/
  | input
  /-- Opening bracket that tests the cell. -/
  | loopCell
  /-- Closing bracket that tests the cell. -/
  | endCell
  /-- Opening bracket that tests the character. -/
  | loopChar
  /-- Closing bracket that tests the character. -/
  | endChar
  /-- Exchange the character with the host's buffer. -/
  | swap
  deriving DecidableEq

namespace Opcode

/-- All opcodes, each at the index of its nibble. -/
def all : Vector Opcode 16 :=
  #v[halt, right, left, rightTwo, leftTwo, incCell, decCell, incChar, decChar,
    output, input, loopCell, endCell, loopChar, endChar, swap]

/-- The opcode that a cell decodes to. -/
def ofNibble (n : Nibble) : Opcode := all[n]

/-- The nibble stored for an opcode. -/
def nibble : Opcode → Nibble
  | halt => 0
  | right => 1
  | left => 2
  | rightTwo => 3
  | leftTwo => 4
  | incCell => 5
  | decCell => 6
  | incChar => 7
  | decChar => 8
  | output => 9
  | input => 10
  | loopCell => 11
  | endCell => 12
  | loopChar => 13
  | endChar => 14
  | swap => 15

/-- The symbol that stands for an opcode in a program. -/
def symbol : Opcode → Char
  | halt => '$'
  | right => '\x7d'
  | left => '\x7b'
  | rightTwo => '>'
  | leftTwo => '<'
  | incCell => '@'
  | decCell => '~'
  | incChar => '+'
  | decChar => '-'
  | output => '.'
  | input => ','
  | loopCell => '('
  | endCell => ')'
  | loopChar => '['
  | endChar => ']'
  | swap => '*'

/-- The name of an opcode in tables and logs. -/
def mnemonic : Opcode → String
  | halt => "HALT"
  | right => "RIGHT"
  | left => "LEFT"
  | rightTwo => "RIGHT_TWO"
  | leftTwo => "LEFT_TWO"
  | incCell => "INC_CELL"
  | decCell => "DEC_CELL"
  | incChar => "INC_CHAR"
  | decChar => "DEC_CHAR"
  | output => "OUTPUT"
  | input => "INPUT"
  | loopCell => "LOOP_CELL"
  | endCell => "END_CELL"
  | loopChar => "LOOP_CHAR"
  | endChar => "END_CHAR"
  | swap => "SWAP"

/-- What an opcode does, in one line. -/
def description : Opcode → String
  | halt => "Halt the program here"
  | right => "Move pointer right"
  | left => "Move pointer left"
  | rightTwo => "Move pointer right 2 cells"
  | leftTwo => "Move pointer left 2 cells"
  | incCell => "Increment cell"
  | decCell => "Decrement cell"
  | incChar => "Increment character"
  | decChar => "Decrement character"
  | output => "Output the character (2 cells) at pointer-1 and pointer"
  | input => "Input a character (2 cells) to pointer-1 and pointer"
  | loopCell => "Jump past the matching ) if the cell under the pointer is zero"
  | endCell => "Jump back to the matching ( if the cell under the pointer is nonzero"
  | loopChar => "Jump past the matching ] if the character under the pointer is zero"
  | endChar => "Jump back to the matching [ if the character under the pointer is nonzero"
  | swap => "Swap the character at pointer with the buffer (initially 0000 0000)"

/-- The opcode that a character of a program stands for, if it is a symbol. -/
def ofSymbol? (c : Char) : Option Opcode := all.toList.find? (·.symbol = c)

/-- The opcode with a given mnemonic. -/
def ofMnemonic? (name : String) : Option Opcode :=
  all.toList.find? (·.mnemonic = name)

/-- Whether an opcode is one of the four brackets. -/
def isBracket : Opcode → Bool
  | loopCell | endCell | loopChar | endChar => true
  | _ => false

/-- Whether an opcode does nothing but call the host. -/
def isHostOnly : Opcode → Bool
  | output | input | swap => true
  | _ => false

/-- Storing an opcode and decoding the cell gives the opcode back. -/
theorem ofNibble_nibble (op : Opcode) : ofNibble op.nibble = op := by
  cases op <;> rfl

/-- Decoding a cell and storing the opcode gives the cell back. -/
theorem nibble_ofNibble : ∀ n : Nibble, (ofNibble n).nibble = n := by
  decide

/-- Every symbol is read as its own opcode. -/
theorem ofSymbol?_symbol (op : Opcode) : ofSymbol? op.symbol = some op := by
  cases op <;> rfl

/-- Every mnemonic is read as its own opcode. -/
theorem ofMnemonic?_mnemonic (op : Opcode) : ofMnemonic? op.mnemonic = some op := by
  cases op <;> decide

end Opcode

end NibbleArena
