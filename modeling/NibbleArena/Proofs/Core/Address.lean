import NibbleArena.Core

/-! # Circular addresses — moves that add up

    The address `d` cells away from `a` is the remainder of `a + d` by the size
    of the core.  Everything the later files need to know about addresses follows
    from this one equation: moves add up, a move starts just as well from the
    wrapped address, and a move forward by a number of cells is a wrapped sum.

    What is read at an address depends on the wrapped address alone. -/

namespace NibbleArena.Core

/-- A moved address as a remainder. -/
theorem offset_eq_emod (c : Core) (a : Nat) (d : Int) :
    (c.offset a d : Int) = ((a : Int) + d) % (c.size : Int) := by
  have hne : (c.size : Int) ≠ 0 := Int.ne_of_gt (Int.natCast_pos.2 c.size_pos)
  have hnn : 0 ≤ c.displaced a d % (c.size : Int) := Int.emod_nonneg _ hne
  show ((c.displaced a d % (c.size : Int)).toNat : Int) = _
  rw [Int.toNat_of_nonneg hnn]
  show (((a % c.size : Nat) : Int) + d) % (c.size : Int) = _
  rw [Int.natCast_emod, Int.emod_add_emod]

theorem wrap_eq_emod (c : Core) (a : Nat) : (c.wrap a : Int) = (a : Int) % (c.size : Int) :=
  Int.natCast_emod a c.size

@[simp] theorem offset_zero (c : Core) (a : Nat) : c.offset a 0 = c.wrap a := by
  apply Int.natCast_inj.1
  rw [offset_eq_emod, wrap_eq_emod, Int.add_zero]

@[simp] theorem offset_wrap (c : Core) (a : Nat) (d : Int) :
    c.offset (c.wrap a) d = c.offset a d := by
  apply Int.natCast_inj.1
  rw [offset_eq_emod, offset_eq_emod, wrap_eq_emod, Int.emod_add_emod]

/-- Moves add up. -/
@[simp] theorem offset_offset (c : Core) (a : Nat) (d e : Int) :
    c.offset (c.offset a d) e = c.offset a (d + e) := by
  apply Int.natCast_inj.1
  rw [offset_eq_emod, offset_eq_emod, offset_eq_emod, Int.emod_add_emod, Int.add_assoc]

/-- A move forward by `k` cells is a wrapped sum. -/
theorem offset_natCast (c : Core) (a k : Nat) : c.offset a (k : Int) = c.wrap (a + k) := by
  apply Int.natCast_inj.1
  rw [offset_eq_emod, wrap_eq_emod, Int.natCast_add]

theorem offset_one (c : Core) (a : Nat) : c.offset a 1 = c.wrap (a + 1) :=
  c.offset_natCast a 1

@[simp] theorem wrap_wrap (c : Core) (a : Nat) : c.wrap (c.wrap a) = c.wrap a :=
  Nat.mod_mod a c.size

@[simp] theorem wrap_offset (c : Core) (a : Nat) (d : Int) :
    c.wrap (c.offset a d) = c.offset a d :=
  Nat.mod_eq_of_lt (c.offset_lt a d)

/-- Where an address wraps depends on the size of the core alone. -/
theorem wrap_congr {c d : Core} (h : c.size = d.size) (a : Nat) : c.wrap a = d.wrap a :=
  congrArg (a % ·) h

theorem wrap_of_lt {c : Core} {a : Nat} (h : a < c.size) : c.wrap a = a := Nat.mod_eq_of_lt h

theorem offset_wrap_one (c : Core) (a : Nat) : c.offset (c.wrap a) 1 = c.wrap (a + 1) := by
  rw [offset_wrap, offset_one]

/-- Cells that are less than a lap apart are different. -/
theorem wrap_add_ne {c : Core} {k : Nat} (a : Nat) (hpos : 0 < k) (hk : k < c.size) :
    c.wrap (a + k) ≠ c.wrap a := by
  intro h
  have hzero : (a + k - a) % c.size = 0 := Nat.sub_mod_eq_zero_of_mod_eq h
  rw [Nat.add_sub_cancel_left, Nat.mod_eq_of_lt hk] at hzero
  omega

/-! ## Reading and writing -/

/-- Addresses that wrap to the same cell read the same. -/
theorem read_congr {c : Core} {a b : Nat} (h : c.wrap a = c.wrap b) : c.read a = c.read b := by
  have hi : c.index a = c.index b := Fin.ext h
  exact congrArg (fun i : Fin c.cells.size => c.cells[i]) hi

@[simp] theorem read_wrap (c : Core) (a : Nat) : c.read (c.wrap a) = c.read a :=
  read_congr (c.wrap_wrap a)

@[simp] theorem opcode_wrap (c : Core) (a : Nat) : c.opcode (c.wrap a) = c.opcode a :=
  congrArg Opcode.ofNibble (c.read_wrap a)

/-- What was written is read at every address of the cell. -/
theorem read_write_of_eq {c : Core} {a b : Nat} (h : c.wrap a = c.wrap b) (v : Nibble) :
    (c.write a v).read b = v := by
  have hsame : (c.write a v).wrap b = (c.write a v).wrap a := by rw [wrap_write, wrap_write, h]
  rw [read_congr hsame, read_write_self]

theorem read_eq_getElem (c : Core) {a : Nat} (h : a < c.cells.size) : c.read a = c.cells[a] := by
  have hi : c.index a = ⟨a, h⟩ := Fin.ext (wrap_of_lt h)
  exact congrArg (fun i : Fin c.cells.size => c.cells[i]) hi

/-- The cells in address order are what is read at all addresses in order. -/
theorem toList_cells (c : Core) : c.cells.toList = (List.range c.size).map c.read := by
  apply List.ext_getElem
  · rw [List.length_map, List.length_range, Array.length_toList]
    rfl
  · intro a ha ha'
    rw [List.getElem_map, List.getElem_range, Array.getElem_toList]
    exact (c.read_eq_getElem _).symm

/-- Cores of one size that read the same are the same. -/
theorem ext_read {c d : Core} (hsize : c.size = d.size) (h : ∀ a, c.read a = d.read a) : c = d := by
  obtain ⟨cells, hpos⟩ := c
  obtain ⟨cells', hpos'⟩ := d
  congr 1
  refine Array.ext hsize ?_
  intro i hi hi'
  have hread := h i
  rw [read_eq_getElem _ hi, read_eq_getElem _ hi'] at hread
  exact hread

end NibbleArena.Core
