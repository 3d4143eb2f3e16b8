import NibbleArena.Crash
import NibbleArena.Opcode

/-! # The core — a circle of cells shared by code and data

    A core has at least one cell.  Addresses are taken modulo its size, so every
    address names a cell.  A distance may be negative; a move by it wraps in both
    directions.

    A character lies on two cells: the one before its pointer holds the high
    half and the one at the pointer the low half.  In a core of one cell both
    are the same cell, and the low half is the one that stays. -/

namespace NibbleArena

/-- A circular store of nibbles. -/
structure Core where
  cells : Array Nibble
  size_pos : 0 < cells.size
  deriving DecidableEq

namespace Core

/-- The core size of a single program, unless told otherwise. -/
def defaultSize : Nat := 1500

/-- A core of `n` zero cells. -/
def zeroed (n : Nat) (h : 0 < n) : Core :=
  ⟨Array.replicate n 0, by rw [Array.size_replicate]; exact h⟩

/-- A core of `n` zero cells, if there are any and their bytes find their memory. -/
def ofSize (n : Nat) : Except Crash Core :=
  if h : 0 < n then
    if Memory.Holds n 1 then .ok (zeroed n h) else .error .capacityOverflow
  else .error .emptyCore

theorem ofSize_of_holds {n : Nat} (h : 0 < n) (hmemory : Memory.Holds n 1) :
    ofSize n = .ok (zeroed n h) := by
  rw [ofSize, dif_pos h, if_pos hmemory]

theorem ofSize_of_not_holds {n : Nat} (h : 0 < n) (hmemory : ¬Memory.Holds n 1) :
    ofSize n = .error .capacityOverflow := by
  rw [ofSize, dif_pos h, if_neg hmemory]

/-- The number of cells. -/
def size (c : Core) : Nat := c.cells.size

/-- The address in the core that an address stands for. -/
def wrap (c : Core) (a : Nat) : Nat := a % c.size

/-- The position `d` cells away from `a`, before it is taken modulo the size. -/
def displaced (c : Core) (a : Nat) (d : Int) : Int := (c.wrap a : Int) + d

/-- The address `d` cells away from `a`. -/
def offset (c : Core) (a : Nat) (d : Int) : Nat := (c.displaced a d % (c.size : Int)).toNat

/-- A wrapped address is in the core. -/
theorem wrap_lt (c : Core) (a : Nat) : c.wrap a < c.cells.size := Nat.mod_lt _ c.size_pos

/-- A moved address is in the core. -/
theorem offset_lt (c : Core) (a : Nat) (d : Int) : c.offset a d < c.size := by
  have hpos : (0 : Int) < (c.size : Int) := Int.natCast_pos.2 c.size_pos
  have h0 := Int.emod_nonneg (c.displaced a d) (Int.ne_of_gt hpos)
  have h1 := Int.emod_lt_of_pos (c.displaced a d) hpos
  unfold offset
  omega

/-- An address as an index of the cells. -/
def index (c : Core) (a : Nat) : Fin c.cells.size := ⟨c.wrap a, c.wrap_lt a⟩

/-- The nibble at an address. -/
def read (c : Core) (a : Nat) : Nibble := c.cells[c.index a]

/-- The core with the nibble at an address replaced. -/
def write (c : Core) (a : Nat) (v : Nibble) : Core :=
  ⟨c.cells.set (c.wrap a) v (c.wrap_lt a), by rw [Array.size_set]; exact c.size_pos⟩

/-- Writing keeps the size. -/
theorem size_write (c : Core) (a : Nat) (v : Nibble) : (c.write a v).size = c.size :=
  Array.size_set (c.wrap_lt a)

/-- Writing keeps the meaning of addresses. -/
theorem wrap_write (c : Core) (a : Nat) (v : Nibble) (b : Nat) :
    (c.write a v).wrap b = c.wrap b := by
  unfold wrap
  rw [size_write]

/-- What was written is read. -/
theorem read_write_self (c : Core) (a : Nat) (v : Nibble) : (c.write a v).read a = v := by
  have hw : (c.write a v).wrap a = c.wrap a := wrap_write c a v a
  unfold read index
  simp only [Fin.getElem_fin, hw]
  exact Array.getElem_set_self (c.wrap_lt a)

/-- A write leaves the other cells alone. -/
theorem read_write_of_ne {c : Core} {a b : Nat} (h : c.wrap a ≠ c.wrap b) (v : Nibble) :
    (c.write a v).read b = c.read b := by
  have hw : (c.write a v).wrap b = c.wrap b := wrap_write c a v b
  unfold read index
  simp only [Fin.getElem_fin, hw]
  exact Array.getElem_set_ne (c.wrap_lt a) (c.wrap_lt b) h

/-- The instruction at an address. -/
def opcode (c : Core) (a : Nat) : Opcode := Opcode.ofNibble (c.read a)

/-- The core of the same size with every cell zero. -/
def clear (c : Core) : Core := zeroed c.size c.size_pos

/-! ## Characters -/

/-- The character at a pointer. -/
def readCharacter (c : Core) (p : Nat) : UInt8 :=
  Nibble.join (c.read (c.offset p (-1))) (c.read p)

/-- The core with the character at a pointer replaced. -/
def assignCharacter (c : Core) (p : Nat) (b : UInt8) : Core :=
  let before := c.offset p (-1)
  -- In a core of one cell the second write takes the place of the first.
  (c.write before (Nibble.high b)).write p (Nibble.low b)

/-! ## Pictures -/

/-- Every cell as the symbol of its opcode, in address order. -/
def disassemble (c : Core) : String :=
  String.ofList (c.cells.toList.map fun v => (Opcode.ofNibble v).symbol)

/-- The mark of a cell under a picture of the core. -/
def pointerMark (atExec atCell : Bool) : Char :=
  match atExec, atCell with
  | true, true => '#'
  | true, false => '^'
  | false, true => '!'
  | false, false => ' '

/-- The line that shows the two pointers under `disassemble`. -/
def pointerLine (c : Core) (cell exec : Nat) : String :=
  String.ofList <| (List.range c.size).map fun i =>
    pointerMark (i == c.wrap exec) (i == c.wrap cell)

end Core

end NibbleArena
