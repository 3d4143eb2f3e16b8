import NibbleArena.Bracket
import NibbleArena.Proofs.Core.Load

/-! # Rotation — the same core seen from another cell

    A rotation by `k` moves what is in cell `a` to cell `a + k`, around the
    circle.  An address moves in the same way, and whatever is asked at the moved
    address of the rotated core has the answer that it had before: the cell, the
    character, the cell a number of cells away, and the end of a bracket search.
    What is written at the moved address is the rotation of what was written,
    and so is a program that is loaded there.

    Every address is a moved one, so two cores are equal if they read the same at
    all moved addresses. -/

namespace NibbleArena

namespace Core

/-- The core with every cell moved `k` cells forward. -/
def rotate (c : Core) (k : Nat) : Core :=
  ⟨Array.ofFn fun i : Fin c.size => c.read (c.offset i (-(k : Int))),
    by rw [Array.size_ofFn]; exact c.size_pos⟩

/-- Where a rotation by `k` moves an address. -/
def moved (c : Core) (k a : Nat) : Nat := c.wrap (a + k)

@[simp] theorem size_rotate (c : Core) (k : Nat) : (c.rotate k).size = c.size := Array.size_ofFn

@[simp] theorem wrap_rotate (c : Core) (k a : Nat) : (c.rotate k).wrap a = c.wrap a :=
  wrap_congr (c.size_rotate k) a

@[simp] theorem offset_rotate (c : Core) (k a : Nat) (d : Int) :
    (c.rotate k).offset a d = c.offset a d := by
  apply Int.natCast_inj.1
  rw [offset_eq_emod, offset_eq_emod, size_rotate]

/-- A move and a rotation can be exchanged. -/
theorem offset_moved (c : Core) (k a : Nat) (d : Int) :
    c.offset (c.moved k a) d = c.moved k (c.offset a d) := by
  show c.offset (c.wrap (a + k)) d = c.wrap (c.offset a d + k)
  rw [← offset_natCast, ← offset_natCast, offset_offset, offset_offset, Int.add_comm]

@[simp] theorem wrap_moved (c : Core) (k a : Nat) : c.wrap (c.moved k a) = c.moved k a :=
  c.wrap_wrap (a + k)

@[simp] theorem moved_wrap (c : Core) (k a : Nat) : c.moved k (c.wrap a) = c.moved k a :=
  Nat.mod_add_mod a c.size k

/-- Every address is one that a rotation leads to. -/
theorem exists_moved (c : Core) (k b : Nat) : ∃ a, c.wrap b = c.moved k a := by
  refine ⟨c.offset b (-(k : Int)), ?_⟩
  rw [← offset_moved]
  show c.wrap b = c.offset (c.wrap (b + k)) (-(k : Int))
  rw [← offset_natCast, offset_offset, Int.add_right_neg, offset_zero]

theorem moved_inj {c : Core} {k a b : Nat} : c.moved k a = c.moved k b ↔ c.wrap a = c.wrap b := by
  constructor
  · intro h
    have hback := congrArg (fun x => c.offset x (-(k : Int))) h
    simp only [moved, ← offset_natCast, offset_offset, Int.add_right_neg, offset_zero] at hback
    exact hback
  · intro h
    rw [← moved_wrap, h, moved_wrap]

/-! ## Reading and writing -/

/-- At a moved address the rotated core reads what the core reads. -/
@[simp] theorem read_rotate (c : Core) (k a : Nat) :
    (c.rotate k).read (c.moved k a) = c.read a := by
  have hlt : c.moved k a < (c.rotate k).cells.size :=
    Nat.lt_of_lt_of_eq (c.wrap_lt (a + k)) (c.size_rotate k).symm
  rw [read_eq_getElem _ hlt]
  simp only [rotate, Array.getElem_ofFn]
  apply read_congr
  rw [wrap_offset, offset_moved, moved, ← offset_natCast, offset_offset, Int.add_left_neg,
    offset_zero]

/-- Cores that read the same at all moved addresses are the same. -/
theorem ext_read_moved {c d : Core} (k : Nat) (hsize : c.size = d.size)
    (h : ∀ a, c.read (c.moved k a) = d.read (c.moved k a)) : c = d := by
  refine ext_read hsize ?_
  intro b
  obtain ⟨a, ha⟩ := c.exists_moved k b
  have hwrap : d.wrap b = c.wrap b := wrap_congr hsize.symm b
  rw [← c.read_wrap, ← d.read_wrap, hwrap, ha]
  exact h a

theorem opcode_rotate (c : Core) (k a : Nat) : (c.rotate k).opcode (c.moved k a) = c.opcode a :=
  congrArg Opcode.ofNibble (c.read_rotate k a)

theorem write_rotate (c : Core) (k a : Nat) (v : Nibble) :
    (c.rotate k).write (c.moved k a) v = (c.write a v).rotate k := by
  have hmoved : ∀ b, (c.write a v).moved k b = c.moved k b := fun b => c.wrap_write a v (b + k)
  refine ext_read_moved k (by simp only [size_write, size_rotate]) ?_
  intro b
  have hsize : ((c.rotate k).write (c.moved k a) v).moved k b = c.moved k b := by
    show ((c.rotate k).write (c.moved k a) v).wrap (b + k) = c.wrap (b + k)
    rw [wrap_write, wrap_rotate]
  rw [hsize]
  have hright : ((c.write a v).rotate k).read (c.moved k b) = (c.write a v).read b := by
    rw [← hmoved, read_rotate]
  rw [hright]
  by_cases heq : c.wrap a = c.wrap b
  · rw [← moved_inj.2 heq, read_write_self, read_write_of_eq heq]
  · have hne : (c.rotate k).wrap (c.moved k a) ≠ (c.rotate k).wrap (c.moved k b) := by
      rw [wrap_rotate, wrap_rotate, wrap_moved, wrap_moved]
      exact fun h => heq (moved_inj.1 h)
    rw [read_write_of_ne hne, read_rotate, read_write_of_ne heq]

theorem readCharacter_rotate (c : Core) (k p : Nat) :
    (c.rotate k).readCharacter (c.moved k p) = c.readCharacter p := by
  show Nibble.join ((c.rotate k).read ((c.rotate k).offset (c.moved k p) (-1)))
    ((c.rotate k).read (c.moved k p)) = _
  rw [offset_rotate, offset_moved, read_rotate, read_rotate]
  rfl

theorem assignCharacter_rotate (c : Core) (k p : Nat) (b : UInt8) :
    (c.rotate k).assignCharacter (c.moved k p) b = (c.assignCharacter p b).rotate k := by
  have hmoved : (c.write (c.offset p (-1)) (Nibble.high b)).moved k p = c.moved k p :=
    c.wrap_write _ _ (p + k)
  show ((c.rotate k).write ((c.rotate k).offset (c.moved k p) (-1)) (Nibble.high b)).write
    (c.moved k p) (Nibble.low b) = _
  rw [offset_rotate, offset_moved, write_rotate, ← hmoved, write_rotate]
  rfl

theorem moved_write (c : Core) (k a : Nat) (v : Nibble) (b : Nat) :
    (c.write a v).moved k b = c.moved k b := c.wrap_write a v (b + k)

theorem moved_assignCharacter (c : Core) (k p : Nat) (b : UInt8) (a : Nat) :
    (c.assignCharacter p b).moved k a = c.moved k a := by
  show (((c.write (c.offset p (-1)) (Nibble.high b))).write p (Nibble.low b)).moved k a = _
  rw [moved_write, moved_write]

/-! ## Bracket searches -/

/-- A search from the moved address ends at the moved address. -/
theorem seek_rotate (c : Core) (k : Nat) (d : Int) (deeper shallower : Opcode)
    (cells pos nested : Nat) :
    (c.rotate k).seek d deeper shallower cells (c.moved k pos) nested
      = (c.seek d deeper shallower cells pos nested).map (c.moved k) := by
  induction cells generalizing pos nested with
  | zero => rfl
  | succ cells ih =>
      rw [seek.eq_def, seek.eq_def c]
      simp only [offset_rotate, offset_moved, opcode_rotate]
      by_cases hd : c.opcode (c.offset pos d) = deeper
      · simp only [if_pos hd]
        exact ih _ _
      · simp only [if_neg hd]
        by_cases hs : c.opcode (c.offset pos d) = shallower
        · simp only [if_pos hs]
          cases nested with
          | zero => rfl
          | succ rest => exact ih _ _
        · simp only [if_neg hs]
          exact ih _ _

theorem matchForward?_rotate (c : Core) (k a : Nat) (f : BracketFamily) :
    (c.rotate k).matchForward? (c.moved k a) f = (c.matchForward? a f).map (c.moved k) := by
  show (c.rotate k).seek 1 f.opening f.closing (c.rotate k).size
    ((c.rotate k).wrap (c.moved k a)) 0 = _
  rw [size_rotate, wrap_rotate, wrap_moved, ← moved_wrap, seek_rotate]
  rfl

theorem matchBackward?_rotate (c : Core) (k a : Nat) (f : BracketFamily) :
    (c.rotate k).matchBackward? (c.moved k a) f = (c.matchBackward? a f).map (c.moved k) := by
  show (c.rotate k).seek (-1) f.closing f.opening (c.rotate k).size
    ((c.rotate k).wrap (c.moved k a)) 0 = _
  rw [size_rotate, wrap_rotate, wrap_moved, ← moved_wrap, seek_rotate]
  rfl

/-! ## Loading -/

/-- The registers of a program when its core is rotated. -/
def movedRegs (c : Core) (k : Nat) (r : Registers) : Registers :=
  ⟨c.moved k r.cell, c.moved k r.exec⟩

theorem writeCode_rotate (c : Core) (k a : Nat) (code : List Opcode) :
    (c.rotate k).writeCode (c.moved k a) code
      = ((c.writeCode a code).1.rotate k, c.moved k (c.writeCode a code).2) := by
  induction code generalizing c a with
  | nil => rfl
  | cons op rest ih =>
      have hmoved : ∀ b, (c.write a op.nibble).moved k b = c.moved k b :=
        fun b => c.wrap_write a _ (b + k)
      have hrest := ih (c.write a op.nibble) (c.offset a 1)
      rw [hmoved, hmoved] at hrest
      show ((c.rotate k).write (c.moved k a) op.nibble).writeCode
        ((c.rotate k).offset (c.moved k a) 1) rest = _
      rw [write_rotate, offset_rotate, offset_moved]
      exact hrest

/-- A program loaded into the rotated core, at the moved origin. -/
theorem load_rotate (c : Core) (k o : Nat) (p : Program) :
    (c.rotate k).load (o + k) p
      = ((c.load o p).1.rotate k, (c.load o p).1.movedRegs k (c.load o p).2) := by
  have hcode := c.writeCode_rotate k (c.wrap o) p.code
  rw [moved_wrap] at hcode
  have hmoved : ∀ a, (c.writeCode (c.wrap o) p.code).1.moved k (c.wrap a) = c.wrap (a + k) := by
    intro a
    rw [moved, wrap_writeCode]
    exact c.moved_wrap k a
  have hstart : c.wrap (o + k) = c.moved k o := rfl
  have hcell : o + k + p.length + 1 = o + p.length + 1 + k := by omega
  rw [load_eq, load_eq, movedRegs, hmoved, hmoved, wrap_rotate, wrap_rotate, hcell, hstart, hcode]

theorem rotate_zeroed (n : Nat) (h : 0 < n) (k : Nat) : (zeroed n h).rotate k = zeroed n h := by
  refine ext_read_moved k (size_rotate _ k) ?_
  intro a
  have hmoved : ((zeroed n h).rotate k).moved k a = (zeroed n h).moved k a :=
    wrap_rotate _ k (a + k)
  rw [hmoved, read_rotate, read_zeroed, read_zeroed]

end Core

end NibbleArena
