/-! # Nibbles — what a cell holds, and bytes as pairs of them

    A cell holds four bits.  A character is a byte spread over two neighbouring
    cells: its high half first, its low half second.  This file fixes the split
    and the join, and says that they undo each other. -/

namespace NibbleArena

/-- Four bits: the content of one cell. -/
abbrev Nibble := Fin 16

namespace Nibble

/-- The numerals name nibbles. -/
instance neZero : @NeZero Nat Zero.ofOfNat0 16 := Nat.instNeZeroSucc

/-- The low half of a byte. -/
def low (b : UInt8) : Nibble := ⟨b.toNat % 16, Nat.mod_lt _ (by decide)⟩

/-- The high half of a byte. -/
def high (b : UInt8) : Nibble :=
  ⟨b.toNat / 16, by have := b.toNat_lt; omega⟩

/-- The byte with the halves `h` (high) and `l` (low). -/
def join (h l : Nibble) : UInt8 := UInt8.ofNat (16 * h.val + l.val)

/-- A join as a number. -/
theorem toNat_join (h l : Nibble) : (join h l).toNat = 16 * h.val + l.val := by
  have hh := h.isLt
  have hl := l.isLt
  simp only [join, UInt8.toNat_ofNat']
  omega

/-- Joining the halves of a byte gives the byte back. -/
theorem join_high_low (b : UInt8) : join (high b) (low b) = b := by
  apply UInt8.toNat_inj.1
  rw [toNat_join]
  show 16 * (b.toNat / 16) + b.toNat % 16 = b.toNat
  omega

/-- The high half of a join is its first part. -/
theorem high_join (h l : Nibble) : high (join h l) = h := by
  apply Fin.ext
  have hl := l.isLt
  show (join h l).toNat / 16 = h.val
  rw [toNat_join]
  omega

/-- The low half of a join is its second part. -/
theorem low_join (h l : Nibble) : low (join h l) = l := by
  apply Fin.ext
  have hl := l.isLt
  show (join h l).toNat % 16 = l.val
  rw [toNat_join]
  omega

end Nibble

end NibbleArena
