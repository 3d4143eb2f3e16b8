import Mathlib.Data.List.Induction
import Mathlib.Order.Bounds.Basic
import NibbleArena.Proofs.Core.Load

/-! # Laps — programs that are longer than the core

    Code is written cell by cell around the circle.  When it is longer than the core
    it comes back to its origin and is written over its own beginning, lap after lap.
    Of the opcodes that come to a cell the last one stays.

    So code is taken apart at its end here: `writeCode_append` splits off the last
    opcode, which is written on top of all the others.  Either it comes to the cell in
    question and stays there, or the cell holds what the rest has left in it. -/

namespace NibbleArena

namespace Core

/-- The places in code of `len` opcodes, written from `o` on, of those that come to the
    cell of `a`. -/
def places (c : Core) (o len a : Nat) : Set Nat := {k | k < len ∧ c.wrap (o + k) = c.wrap a}

variable {c : Core} {o len a : Nat}

/-! ## One opcode more -/

/-- An opcode behind the others that comes to the cell is the last one there. -/
theorem isGreatest_places (h : c.wrap (o + len) = c.wrap a) :
    IsGreatest (c.places o (len + 1) a) len := by
  refine ⟨⟨Nat.lt_succ_self len, h⟩, ?_⟩
  rintro k ⟨hk, -⟩
  exact Nat.le_of_lt_succ hk

theorem places_succ_of_ne (h : c.wrap (o + len) ≠ c.wrap a) :
    c.places o (len + 1) a = c.places o len a := by
  ext k
  constructor
  · rintro ⟨hk, hcell⟩
    refine ⟨Nat.lt_of_le_of_ne (Nat.le_of_lt_succ hk) ?_, hcell⟩
    rintro rfl
    exact h hcell
  · rintro ⟨hk, hcell⟩
    exact ⟨Nat.lt_succ_of_lt hk, hcell⟩

/-- A lap comes to every cell. -/
theorem places_nonempty (a : Nat) (h : c.size ≤ len) : (c.places o len a).Nonempty := by
  have hlt : c.offset a (-(o : Int)) < c.size := c.offset_lt a _
  refine ⟨c.offset a (-(o : Int)), Nat.lt_of_lt_of_le hlt h, ?_⟩
  rw [Nat.add_comm, ← offset_natCast, offset_offset, Int.add_left_neg, offset_zero]

/-! ## Code of any length -/

/-- Code is written in parts, each where the one before has stopped. -/
theorem writeCode_append (c : Core) (a : Nat) (code later : List Opcode) :
    c.writeCode a (code ++ later)
      = (c.writeCode a code).1.writeCode (c.writeCode a code).2 later := by
  induction code generalizing c a with
  | nil => rfl
  | cons op rest ih => exact ih (c.write a op.nibble) (c.offset a 1)

/-- A cell holds the last of the opcodes that come to it, or what it held before if
    none does. -/
theorem read_writeCode_last (c : Core) (o a : Nat) (code : List Opcode) :
    (∃ k op, IsGreatest (c.places o code.length a) k ∧ code[k]? = some op
        ∧ (c.writeCode (c.wrap o) code).1.read a = op.nibble)
      ∨ c.places o code.length a = ∅ ∧ (c.writeCode (c.wrap o) code).1.read a = c.read a := by
  induction code using List.reverseRecOn with
  | nil =>
      refine Or.inr ⟨?_, rfl⟩
      exact Set.eq_empty_of_forall_notMem fun k hk => absurd hk.1 (Nat.not_lt_zero k)
  | append_singleton rest op ih =>
      have hwritten : (c.writeCode (c.wrap o) (rest ++ [op])).1
          = (c.writeCode (c.wrap o) rest).1.write (c.wrap (o + rest.length)) op.nibble := by
        rw [writeCode_append, writeCode_stop]
        rfl
      rw [hwritten, List.length_append, List.length_singleton]
      by_cases hlast : c.wrap (o + rest.length) = c.wrap a
      · refine Or.inl ⟨rest.length, op, isGreatest_places hlast, List.getElem?_concat_length, ?_⟩
        refine read_write_of_eq ?_ op.nibble
        rw [wrap_writeCode, wrap_writeCode, wrap_wrap]
        exact hlast
      · -- the last opcode goes elsewhere
        have hread : ((c.writeCode (c.wrap o) rest).1.write (c.wrap (o + rest.length))
            op.nibble).read a = (c.writeCode (c.wrap o) rest).1.read a := by
          refine read_write_of_ne ?_ op.nibble
          rw [wrap_writeCode, wrap_writeCode, wrap_wrap]
          exact hlast
        rw [hread, places_succ_of_ne hlast]
        rcases ih with ⟨k, before, hgreatest, hbefore, hsame⟩ | hkept
        · refine Or.inl ⟨k, before, hgreatest, ?_, hsame⟩
          rw [List.getElem?_append_left hgreatest.1.1]
          exact hbefore
        · exact Or.inr hkept

/-! ## Loading a program -/

/-- **What a load leaves**, for every program, origin and core, however many laps the
    program takes.  Each cell holds the opcode with the greatest of the places that come
    to it, or what it held before if there is no such place.  The core is as long as it
    was, the execution pointer is the origin, and the cell pointer is one cell behind
    the cell that follows the code. -/
theorem load_keeps_last (c : Core) (o : Nat) (p : Program) :
    let loaded := (c.load o p).1
    loaded.size = c.size
      ∧ (c.load o p).2 = ⟨(o + p.length + 1) % c.size, o % c.size⟩
      ∧ ∀ a, (∃ k op, IsGreatest (c.places o p.length a) k ∧ p.code[k]? = some op
            ∧ loaded.read a = op.nibble)
          ∨ c.places o p.length a = ∅ ∧ loaded.read a = c.read a := by
  intro loaded
  refine ⟨c.size_load o p, congrArg Prod.snd (c.load_eq o p), ?_⟩
  intro a
  have hloaded : loaded = (c.writeCode (c.wrap o) p.code).1 := congrArg Prod.fst (c.load_eq o p)
  rw [hloaded]
  exact c.read_writeCode_last o a p.code

/-- Three opcodes on two cells: the third one is written over the first. -/
example : (zeroed 2 (by decide)).load 3 (Program.parse ">+~")
    = (⟨#[Opcode.incChar.nibble, Opcode.decCell.nibble], by decide⟩, ⟨1, 1⟩) := by cbv

/-- Of a core that a program fills nothing is left, so what is loaded does not depend
    on it. -/
theorem load_eq_of_size_le {d : Core} {p : Program} (hsize : d.size = c.size)
    (hfull : c.size ≤ p.length) (o : Nat) : d.load o p = c.load o p := by
  have hwrap : ∀ x, d.wrap x = c.wrap x := wrap_congr hsize
  have hread : ∀ a, (d.writeCode (c.wrap o) p.code).1.read a
      = (c.writeCode (c.wrap o) p.code).1.read a := by
    intro a
    have hlast := c.read_writeCode_last o a p.code
    have hlast' := d.read_writeCode_last o a p.code
    have hsome : c.places o p.code.length a ≠ ∅ := (places_nonempty a hfull).ne_empty
    have hplaces : d.places o p.code.length a = c.places o p.code.length a := by
      simp only [places, hwrap]
    rw [hplaces, hwrap] at hlast'
    obtain ⟨k, op, hk, hop, hc⟩ | ⟨hnone, -⟩ := hlast
    · obtain ⟨j, op', hj, hop', hd⟩ | ⟨hnone, -⟩ := hlast'
      · cases hj.unique hk
        cases hop.symm.trans hop'
        rw [hc, hd]
      · exact absurd hnone hsome
    · exact absurd hnone hsome
  rw [load_eq, load_eq, hwrap, hwrap]
  refine Prod.ext ?_ rfl
  refine ext_read ?_ hread
  rw [size_writeCode, size_writeCode, hsize]

end Core

end NibbleArena
