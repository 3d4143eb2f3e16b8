import Mathlib.Data.ZMod.Basic
import NibbleArena.Proofs.Bracket.FirstReturn

/-! # Wheels — a core without addresses

    A wheel has one nibble for each residue modulo its size.  There is nothing to wrap
    on it: one cell further is one more, and one cell back is one less.  A character is
    a number below 256, sixteen times the nibble before its residue and the nibble at
    it.  A bracket is matched where the balance of its family is zero for the first
    time on a lap.

    `Core.wheel` takes a core to a wheel.  For each thing that a machine asks a core or
    does to it there is one law that says what it is on the wheel. -/

namespace NibbleArena

/-- One nibble for each residue modulo `n`. -/
abbrev Wheel (n : Nat) := ZMod n → Nibble

namespace Wheel

variable {n : Nat}

/-- The instruction at a residue. -/
def opcode (M : Wheel n) (p : ZMod n) : Opcode := Opcode.ofNibble (M p)

/-- The character at a residue, as a number. -/
def character (M : Wheel n) (p : ZMod n) : Nat := 16 * (M (p - 1)).val + (M p).val

/-- The wheel with a number below 256 as the character at `p`. -/
def putCharacter (M : Wheel n) (p : ZMod n) (x : Nat) : Wheel n := fun q =>
  if q = p then Fin.ofNat 16 x else if q = p - 1 then Fin.ofNat 16 (x / 16) else M q

/-- The opcodes of the first `k` cells that are met from `p` in steps of `d`. -/
def seen (M : Wheel n) (d p : ZMod n) (k : Nat) : List Opcode :=
  (List.range k).map fun j => M.opcode (p + (j + 1 : Nat) * d)

/-- The first cell from `p` in steps of `d`, no more than a lap away, at which the
    brackets that go deeper are balanced. -/
def partner? (M : Wheel n) (d : ZMod n) (deeper shallower : Opcode) (p : ZMod n) :
    Option (ZMod n) :=
  ((List.range' 1 n).find? fun k => balance deeper shallower (M.seen d p k) = 0).map
    fun k : Nat => p + k * d

theorem sub_one_ne (hn : 2 ≤ n) (p : ZMod n) : p - 1 ≠ p := by
  have hlt : Fact (1 < n) := ⟨hn⟩
  intro h
  exact one_ne_zero (sub_eq_self.1 h)

/-- With two cells or more, what is put as a character is the character, and the other
    cells are as before. -/
theorem character_putCharacter (hn : 2 ≤ n) (M : Wheel n) (p : ZMod n) {x : Nat} (hx : x < 256) :
    (M.putCharacter p x).character p = x
      ∧ ∀ q, q ≠ p → q ≠ p - 1 → M.putCharacter p x q = M q := by
  have hlow : M.putCharacter p x p = Fin.ofNat 16 x := if_pos rfl
  have hhigh : M.putCharacter p x (p - 1) = Fin.ofNat 16 (x / 16) := by
    show (if p - 1 = p then _ else if p - 1 = p - 1 then _ else _) = _
    rw [if_neg (sub_one_ne hn p), if_pos rfl]
  constructor
  · show 16 * (M.putCharacter p x (p - 1)).val + (M.putCharacter p x p).val = x
    rw [hlow, hhigh]
    show 16 * (x / 16 % 16) + x % 16 = x
    omega
  · intro q hq hbefore
    show (if q = p then _ else if q = p - 1 then _ else _) = _
    rw [if_neg hq, if_neg hbefore]

end Wheel

namespace Core

variable {n : Nat} [NeZero n] {c : Core}

/-- A core of `n` cells as a wheel. -/
def wheel (n : Nat) (c : Core) : Wheel n := fun z => c.read z.val

/-! ## Addresses -/

theorem wheel_intCast (c : Core) (a : Int) : c.wheel n a = c.read (a % n).toNat := by
  show c.read (a : ZMod n).val = _
  rw [← ZMod.val_intCast, Int.toNat_natCast]

omit [NeZero n] in
theorem wheel_natCast (h : c.size = n) (a : Nat) : c.wheel n a = c.read a := by
  show c.read (a : ZMod n).val = _
  rw [ZMod.val_natCast, ← h]
  exact c.read_wrap a

/-- A moved address is a sum of residues. -/
theorem offset_eq_val (h : c.size = n) (a : Nat) (d : Int) :
    c.offset a d = ((a : ZMod n) + (d : ZMod n)).val := by
  apply Int.natCast_inj.1
  have hsum : (a : ZMod n) + (d : ZMod n) = (((a : Int) + d : Int) : ZMod n) := by
    rw [Int.cast_add, Int.cast_natCast]
  rw [offset_eq_emod, hsum, ZMod.val_intCast, h]

theorem wrap_eq_iff (h : c.size = n) (a : Nat) (z : ZMod n) : c.wrap a = c.wrap z.val ↔ z = a := by
  show a % c.size = z.val % c.size ↔ z = a
  rw [h, ← ZMod.natCast_eq_natCast_iff', ZMod.natCast_zmod_val, eq_comm]

/-! ## Reading and writing -/

omit [NeZero n] in
theorem opcode_wheel (h : c.size = n) (a : Nat) : (c.wheel n).opcode a = c.opcode a :=
  congrArg Opcode.ofNibble (wheel_natCast h a)

theorem wheel_write (h : c.size = n) (a : Nat) (v : Nibble) :
    (c.write a v).wheel n = Function.update (c.wheel n) a v := by
  ext1 z
  show (c.write a v).read z.val = _
  by_cases hz : z = a
  · rw [read_write_of_eq ((wrap_eq_iff h a z).2 hz), hz, Function.update_self]
  · rw [Function.update_of_ne hz, read_write_of_ne (mt (wrap_eq_iff h a z).1 hz)]
    rfl

/-- The high half of a character lies one residue before its low half. -/
theorem natCast_before (h : c.size = n) (p : Nat) : ((c.offset p (-1) : Nat) : ZMod n) = p - 1 := by
  rw [offset_eq_val h, ZMod.natCast_zmod_val, Int.cast_neg, Int.cast_one, sub_eq_add_neg]

theorem character_wheel (h : c.size = n) (p : Nat) :
    (c.wheel n).character p = (c.readCharacter p).toNat := by
  show 16 * (c.wheel n ((p : ZMod n) - 1)).val + (c.wheel n p).val = _
  rw [← natCast_before h, wheel_natCast h, wheel_natCast h]
  exact (Nibble.toNat_join _ _).symm

theorem wheel_assignCharacter (h : c.size = n) (p : Nat) (b : UInt8) :
    (c.assignCharacter p b).wheel n = (c.wheel n).putCharacter p b.toNat := by
  have hsize : (c.write (c.offset p (-1)) (Nibble.high b)).size = n := (size_write _ _ _).trans h
  have hhigh : Nibble.high b = Fin.ofNat 16 (b.toNat / 16) := by
    apply Fin.ext
    have hb := b.toNat_lt
    show b.toNat / 16 = b.toNat / 16 % 16
    omega
  ext1 z
  show ((c.write (c.offset p (-1)) (Nibble.high b)).write p (Nibble.low b)).wheel n z = _
  rw [wheel_write hsize, wheel_write h, natCast_before h, hhigh, Function.update_apply,
    Function.update_apply]
  rfl

/-! ## Brackets -/

theorem seen_wheel (h : c.size = n) (w : Walk) (a k : Nat) :
    (c.wheel n).seen w.step a k = c.seen w.step a k := by
  apply List.map_congr_left
  intro j _
  have hsum : (a : ZMod n) + (j + 1 : Nat) * (w.step : ZMod n)
      = (((a : Int) + (j + 1 : Nat) * w.step : Int) : ZMod n) := by
    rw [Int.cast_add, Int.cast_mul, Int.cast_natCast, Int.cast_natCast]
  rw [hsum, h]
  exact congrArg Opcode.ofNibble (c.wheel_intCast _)

/-- A search ends at the partner on the wheel. -/
theorem search_eq_partner? (h : c.size = n) (w : Walk) (a : Nat) :
    c.search w a = ((c.wheel n).partner? w.step w.deeper w.shallower a).map ZMod.val := by
  have hreturn : c.firstReturn w.step w.deeper w.shallower a
      = (List.range' 1 n).find? fun k =>
          balance w.deeper w.shallower ((c.wheel n).seen w.step a k) = 0 := by
    simp only [firstReturn, seen_wheel h, h]
  have hcell : c.along w a = fun k : Nat => ((a : ZMod n) + k * (w.step : ZMod n)).val := by
    funext k
    show c.offset a (k * w.step) = _
    rw [offset_eq_val h, Int.cast_mul, Int.cast_natCast]
  rw [search_eq_firstReturn, hreturn, hcell, Wheel.partner?, Option.map_map]
  rfl

end Core

end NibbleArena
