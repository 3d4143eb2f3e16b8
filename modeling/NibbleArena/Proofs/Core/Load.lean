import NibbleArena.Core.Load
import NibbleArena.Proofs.Core.Address

/-! # Loading — where the code of a program comes to lie

    `load_eq` gives the registers of a loaded program without the walk over the
    code: the execution pointer is the origin and the cell pointer is one cell
    behind the cell that follows the code.

    The walk itself writes the cells from the origin on and no others.  If the
    code is no longer than the core, each of its cells is written once and holds
    its own opcode. -/

namespace NibbleArena

namespace Core

@[simp] theorem size_zeroed (n : Nat) (h : 0 < n) : (zeroed n h).size = n := Array.size_replicate

@[simp] theorem read_zeroed (n : Nat) (h : 0 < n) (a : Nat) : (zeroed n h).read a = 0 := by
  simp only [read, zeroed, Fin.getElem_fin, Array.getElem_replicate]

@[simp] theorem size_clear (c : Core) : c.clear.size = c.size := size_zeroed _ _

@[simp] theorem read_clear (c : Core) (a : Nat) : c.clear.read a = 0 := read_zeroed _ _ a

/-! ## Writing code -/

@[simp] theorem size_writeCode (c : Core) (a : Nat) (code : List Opcode) :
    (c.writeCode a code).1.size = c.size := by
  induction code generalizing c a with
  | nil => rfl
  | cons op rest ih =>
      show ((c.write a op.nibble).writeCode (c.offset a 1) rest).1.size = c.size
      rw [ih, size_write]

@[simp] theorem wrap_writeCode (c : Core) (a : Nat) (code : List Opcode) (b : Nat) :
    (c.writeCode a code).1.wrap b = c.wrap b :=
  wrap_congr (c.size_writeCode a code) b

/-- The first opcode is written, and the others from the next cell on. -/
theorem writeCode_cons (c : Core) (a : Nat) (op : Opcode) (rest : List Opcode) :
    c.writeCode (c.wrap a) (op :: rest)
      = (c.write a op.nibble).writeCode ((c.write a op.nibble).wrap (a + 1)) rest := by
  have hwrite : c.write (c.wrap a) op.nibble = c.write a op.nibble := by
    simp only [write, wrap_wrap]
  show (c.write (c.wrap a) op.nibble).writeCode (c.offset (c.wrap a) 1) rest = _
  rw [hwrite, offset_wrap_one, wrap_write]

theorem writeCode_stop (c : Core) (a : Nat) (code : List Opcode) :
    (c.writeCode (c.wrap a) code).2 = c.wrap (a + code.length) := by
  induction code generalizing c a with
  | nil => rfl
  | cons op rest ih =>
      rw [writeCode_cons, ih, wrap_write, List.length_cons, Nat.add_assoc, Nat.add_comm 1]

/-- Writing code leaves the other cells alone. -/
theorem read_writeCode_of_ne {c : Core} {a b : Nat} {code : List Opcode}
    (h : ∀ k < code.length, c.wrap (a + k) ≠ c.wrap b) :
    (c.writeCode (c.wrap a) code).1.read b = c.read b := by
  induction code generalizing c a with
  | nil => rfl
  | cons op rest ih =>
      rw [writeCode_cons, ih]
      · exact read_write_of_ne (h 0 (Nat.succ_pos _)) _
      · intro k hk
        rw [wrap_write, wrap_write, Nat.add_assoc, Nat.add_comm 1]
        exact h (k + 1) (Nat.succ_lt_succ hk)

/-- Code that is no longer than the core is held where it was written. -/
theorem read_writeCode {c : Core} {a : Nat} {code : List Opcode} (hlen : code.length ≤ c.size)
    {k : Nat} (hk : k < code.length) :
    (c.writeCode (c.wrap a) code).1.read (a + k) = code[k].nibble := by
  induction code generalizing c a k with
  | nil => exact absurd hk (Nat.not_lt_zero k)
  | cons op rest ih =>
      rw [List.length_cons] at hlen
      rw [writeCode_cons]
      cases k with
      | zero =>
          -- the cells of the rest come after this one and do not get back to it
          have hkept : ∀ j < rest.length,
              (c.write a op.nibble).wrap (a + 1 + j) ≠ (c.write a op.nibble).wrap a := by
            intro j hj
            rw [wrap_write, wrap_write, Nat.add_assoc]
            exact wrap_add_ne a (by omega) (by omega)
          show ((c.write a op.nibble).writeCode _ rest).1.read a = op.nibble
          rw [read_writeCode_of_ne hkept, read_write_self]
      | succ k =>
          rw [← Nat.add_assoc, Nat.add_right_comm, ih]
          · rfl
          · rw [size_write]
            omega

/-! ## Loading a program -/

theorem load_eq (c : Core) (o : Nat) (p : Program) :
    c.load o p
      = ((c.writeCode (c.wrap o) p.code).1, ⟨c.wrap (o + p.length + 1), c.wrap o⟩) := by
  show ((c.writeCode (c.wrap o) p.code).1,
    (⟨(c.writeCode (c.wrap o) p.code).1.offset (c.writeCode (c.wrap o) p.code).2 1,
      c.wrap o⟩ : Registers)) = _
  rw [writeCode_stop, offset_one, wrap_writeCode]
  simp only [wrap, Nat.mod_add_mod]
  rfl

/-- The cells of a program that is no longer than the core hold its opcodes. -/
theorem read_load {c : Core} {o : Nat} {p : Program} (hlen : p.length ≤ c.size) {k : Nat}
    (hk : k < p.code.length) : (c.load o p).1.read (o + k) = p.code[k].nibble := by
  rw [load_eq]
  exact read_writeCode hlen hk

/-- Loading leaves the other cells alone. -/
theorem read_load_of_ne {c : Core} {o a : Nat} {p : Program}
    (h : ∀ k < p.length, c.wrap (o + k) ≠ c.wrap a) : (c.load o p).1.read a = c.read a := by
  rw [load_eq]
  exact read_writeCode_of_ne h

@[simp] theorem size_load (c : Core) (o : Nat) (p : Program) : (c.load o p).1.size = c.size := by
  rw [load_eq]
  exact size_writeCode c _ p.code

end Core

end NibbleArena
