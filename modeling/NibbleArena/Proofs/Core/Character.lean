import NibbleArena.Proofs.Core.Address

/-! # Characters — two cells of the circle seen as one byte

    A character is a view of two neighbouring cells, and every address has one, so the
    views overlap.  `read_assignCharacter` says what an assignment leaves in any cell;
    the laws of the view are read off it, cell by cell.

    An assigned character is read back, what was read may be assigned without effect,
    and the last of two assignments counts.  Characters without a common cell do not
    know of each other.  Characters one cell apart share the cell between them: there
    the low half of the first is the high half of the second.

    The first of these laws needs two cells.  In a core of one cell both halves are the
    same cell, and the low half is read twice. -/

namespace NibbleArena.Core

variable {c d : Core} {p q x : Nat}

/-- The cell holds a half of the character at `p`: the low half at `p` or the high half
    one cell before it. -/
def HoldsHalf (c : Core) (p x : Nat) : Prop := c.wrap x = c.wrap p ∨ c.wrap (x + 1) = c.wrap p

/-- The cell of the high half is the one whose next cell is the pointer. -/
theorem wrap_eq_before_iff : c.wrap x = c.offset p (-1) ↔ c.wrap (x + 1) = c.wrap p := by
  constructor
  · intro h
    rw [← offset_wrap_one, h, offset_offset]
    exact c.offset_zero p
  · intro h
    rw [← c.offset_wrap p, ← h, ← offset_one, offset_offset]
    exact (c.offset_zero x).symm

theorem wrap_before_succ (c : Core) (p : Nat) : c.wrap (c.offset p (-1) + 1) = c.wrap p :=
  wrap_eq_before_iff.1 (c.wrap_offset p (-1))

/-- With two cells or more, the halves of a character lie in different cells. -/
theorem before_ne (hn : 2 ≤ c.size) (p : Nat) : c.offset p (-1) ≠ c.wrap p := by
  intro h
  have hnext : c.wrap (p + 1) = c.wrap p := wrap_eq_before_iff.1 h.symm
  exact wrap_add_ne p Nat.one_pos hn hnext

/-- With three cells or more, a pointer is not two cells behind itself. -/
theorem wrap_add_two_ne (hn : 3 ≤ c.size) (p : Nat) : c.wrap (p + 1 + 1) ≠ c.wrap p :=
  wrap_add_ne p Nat.two_pos hn

/-! ## What an assignment leaves -/

theorem size_assignCharacter (c : Core) (p : Nat) (b : UInt8) :
    (c.assignCharacter p b).size = c.size := by
  show ((c.write (c.offset p (-1)) (Nibble.high b)).write p (Nibble.low b)).size = c.size
  rw [size_write, size_write]

theorem offset_assign (c : Core) (p : Nat) (b : UInt8) (x : Nat) (d : Int) :
    (c.assignCharacter p b).offset x d = c.offset x d := by
  apply Int.natCast_inj.1
  rw [offset_eq_emod, offset_eq_emod, size_assignCharacter]

/-- Every cell after an assignment. -/
theorem read_assignCharacter (c : Core) (p : Nat) (b : UInt8) (x : Nat) :
    (c.assignCharacter p b).read x
      = if c.wrap x = c.wrap p then Nibble.low b
        else if c.wrap (x + 1) = c.wrap p then Nibble.high b
        else c.read x := by
  show ((c.write (c.offset p (-1)) (Nibble.high b)).write p (Nibble.low b)).read x = _
  by_cases hlow : c.wrap x = c.wrap p
  · rw [if_pos hlow]
    refine read_write_of_eq ?_ _
    rw [wrap_write, wrap_write]
    exact hlow.symm
  · have hsecond : (c.write (c.offset p (-1)) (Nibble.high b)).wrap p
        ≠ (c.write (c.offset p (-1)) (Nibble.high b)).wrap x := by
      rw [wrap_write, wrap_write]
      exact Ne.symm hlow
    rw [if_neg hlow, read_write_of_ne hsecond]
    by_cases hhigh : c.wrap (x + 1) = c.wrap p
    · have hcell : c.wrap (c.offset p (-1)) = c.wrap x := by
        rw [wrap_offset]
        exact (wrap_eq_before_iff.2 hhigh).symm
      rw [if_pos hhigh, read_write_of_eq hcell]
    · have hcell : c.wrap (c.offset p (-1)) ≠ c.wrap x := by
        rw [wrap_offset]
        exact fun h => hhigh (wrap_eq_before_iff.1 h.symm)
      rw [if_neg hhigh, read_write_of_ne hcell]

theorem read_assign_low (c : Core) (p : Nat) (b : UInt8) :
    (c.assignCharacter p b).read p = Nibble.low b := by
  rw [read_assignCharacter, if_pos rfl]

theorem read_assign_high (hn : 2 ≤ c.size) (p : Nat) (b : UInt8) :
    (c.assignCharacter p b).read (c.offset p (-1)) = Nibble.high b := by
  have hne : c.wrap (c.offset p (-1)) ≠ c.wrap p := by
    rw [wrap_offset]
    exact before_ne hn p
  rw [read_assignCharacter, if_neg hne, if_pos (c.wrap_before_succ p)]

/-- The other cells are left alone. -/
theorem read_assign_other (h : ¬c.HoldsHalf p x) (b : UInt8) :
    (c.assignCharacter p b).read x = c.read x := by
  obtain ⟨hlow, hhigh⟩ := not_or.1 h
  rw [read_assignCharacter, if_neg hlow, if_neg hhigh]

theorem holdsHalf_self (c : Core) (p : Nat) : c.HoldsHalf p p := Or.inl rfl

theorem holdsHalf_before (c : Core) (p : Nat) : c.HoldsHalf p (c.offset p (-1)) :=
  Or.inr (c.wrap_before_succ p)

theorem holdsHalf_congr (h : d.size = c.size) : d.HoldsHalf p x ↔ c.HoldsHalf p x := by
  show (d.wrap x = d.wrap p ∨ d.wrap (x + 1) = d.wrap p) ↔ _
  rw [wrap_congr h, wrap_congr h, wrap_congr h]
  rfl

/-- What is assigned does not depend on what was there. -/
theorem read_assign_congr (hsize : d.size = c.size) (h : c.HoldsHalf p x) (b : UInt8) :
    (d.assignCharacter p b).read x = (c.assignCharacter p b).read x := by
  rw [read_assignCharacter, read_assignCharacter, wrap_congr hsize, wrap_congr hsize,
    wrap_congr hsize]
  by_cases hlow : c.wrap x = c.wrap p
  · rw [if_pos hlow, if_pos hlow]
  · have hhigh : c.wrap (x + 1) = c.wrap p := h.resolve_left hlow
    rw [if_neg hlow, if_pos hhigh, if_neg hlow, if_pos hhigh]

/-! ## The laws of the view -/

theorem readCharacter_assign (hn : 2 ≤ c.size) (p : Nat) (b : UInt8) :
    (c.assignCharacter p b).readCharacter p = b := by
  show Nibble.join ((c.assignCharacter p b).read ((c.assignCharacter p b).offset p (-1)))
    ((c.assignCharacter p b).read p) = b
  rw [offset_assign, read_assign_high hn, read_assign_low, Nibble.join_high_low]

/-- In a core of one cell the low half of what was assigned is read twice. -/
theorem readCharacter_assign_of_single (hone : c.size = 1) (p : Nat) (b : UInt8) :
    (c.assignCharacter p b).readCharacter p = Nibble.join (Nibble.low b) (Nibble.low b) := by
  have hcell : ∀ x, (c.assignCharacter p b).read x = Nibble.low b := by
    intro x
    have hzero : c.wrap x = c.wrap p := by
      show x % c.size = p % c.size
      rw [hone, Nat.mod_one, Nat.mod_one]
    rw [read_assignCharacter, if_pos hzero]
  show Nibble.join _ _ = _
  rw [hcell, hcell]

theorem assign_readCharacter (c : Core) (p : Nat) :
    c.assignCharacter p (c.readCharacter p) = c := by
  refine ext_read (c.size_assignCharacter p _) ?_
  intro x
  rw [read_assignCharacter, readCharacter, Nibble.low_join, Nibble.high_join]
  split
  · next hlow => exact (read_congr hlow).symm
  · split
    · next hhigh =>
        refine read_congr ?_
        rw [wrap_offset]
        exact (wrap_eq_before_iff.2 hhigh).symm
    · rfl

theorem assign_assign (c : Core) (p : Nat) (a b : UInt8) :
    (c.assignCharacter p a).assignCharacter p b = c.assignCharacter p b := by
  have hsize := c.size_assignCharacter p a
  refine ext_read ?_ ?_
  · rw [size_assignCharacter, hsize, size_assignCharacter]
  · intro x
    by_cases hx : c.HoldsHalf p x
    · exact read_assign_congr hsize hx b
    · rw [read_assign_other (mt (holdsHalf_congr hsize).1 hx), read_assign_other hx,
        read_assign_other hx]

/-! ## Two characters -/

/-- A character is not changed where none of its cells is assigned. -/
theorem readCharacter_assign_of_apart (h : ∀ x, c.HoldsHalf p x → ¬c.HoldsHalf q x) (a : UInt8) :
    (c.assignCharacter q a).readCharacter p = c.readCharacter p := by
  show Nibble.join ((c.assignCharacter q a).read ((c.assignCharacter q a).offset p (-1)))
    ((c.assignCharacter q a).read p) = _
  rw [offset_assign, read_assign_other (h _ (c.holdsHalf_before p)),
    read_assign_other (h p (c.holdsHalf_self p))]
  rfl

theorem assign_comm (h : ∀ x, c.HoldsHalf p x → ¬c.HoldsHalf q x) (a b : UInt8) :
    (c.assignCharacter p a).assignCharacter q b = (c.assignCharacter q b).assignCharacter p a := by
  have hsizep := c.size_assignCharacter p a
  have hsizeq := c.size_assignCharacter q b
  refine ext_read ?_ ?_
  · rw [size_assignCharacter, hsizep, size_assignCharacter, hsizeq]
  · intro x
    by_cases hp : c.HoldsHalf p x
    · -- the assignment at `q` passes this cell by, before as well as after the one at `p`
      have hq : ¬(c.assignCharacter p a).HoldsHalf q x := mt (holdsHalf_congr hsizep).1 (h x hp)
      rw [read_assign_other hq, read_assign_congr hsizeq hp]
    · have hp' : ¬(c.assignCharacter q b).HoldsHalf p x := mt (holdsHalf_congr hsizeq).1 hp
      rw [read_assign_other hp']
      by_cases hq : c.HoldsHalf q x
      · exact read_assign_congr hsizep hq b
      · rw [read_assign_other (mt (holdsHalf_congr hsizep).1 hq), read_assign_other hp,
          read_assign_other hq]

/-- The low half of a character is the high half of the next one. -/
theorem readCharacter_assign_next (hn : 3 ≤ c.size) (h : c.wrap q = c.wrap (p + 1)) (b : UInt8) :
    (c.assignCharacter p b).readCharacter q
      = Nibble.join (Nibble.low b) (Nibble.low (c.readCharacter q)) := by
  have hcell : c.wrap (c.offset q (-1)) = c.wrap p := by
    rw [wrap_offset]
    exact (wrap_eq_before_iff.2 h.symm).symm
  have hkept : ¬c.HoldsHalf p q := by
    rintro (hlow | hhigh)
    · exact wrap_add_ne p Nat.one_pos (by omega) (h.symm.trans hlow)
    · refine wrap_add_two_ne hn p ?_
      rw [← offset_wrap_one, ← h, offset_wrap_one, hhigh]
  show Nibble.join ((c.assignCharacter p b).read ((c.assignCharacter p b).offset q (-1)))
    ((c.assignCharacter p b).read q) = _
  rw [offset_assign, read_assignCharacter, if_pos hcell, read_assign_other hkept, readCharacter,
    Nibble.low_join]

/-- **The character codec.**  In a core of at least two cells, at every pointer: what is
    assigned is read back, assigning what is read changes nothing, the second of two
    assignments counts, and no cell but the two of the character is touched.  If two
    characters have no cell in common, their assignments commute and neither sees the
    other.  The character one cell on gets the low half of what is assigned as its high
    half and keeps its low half. -/
theorem character_laws (hn : 2 ≤ c.size) :
    (∀ p b, (c.assignCharacter p b).readCharacter p = b)
    ∧ (∀ p, c.assignCharacter p (c.readCharacter p) = c)
    ∧ (∀ p a b, (c.assignCharacter p a).assignCharacter p b = c.assignCharacter p b)
    ∧ (∀ p b, (c.assignCharacter p b).size = c.size
      ∧ ∀ x, ¬c.HoldsHalf p x → (c.assignCharacter p b).read x = c.read x)
    ∧ (∀ p q, (∀ x, c.HoldsHalf p x → ¬c.HoldsHalf q x) → ∀ a b,
      (c.assignCharacter p a).assignCharacter q b = (c.assignCharacter q b).assignCharacter p a
        ∧ (c.assignCharacter p a).readCharacter q = c.readCharacter q
        ∧ (c.assignCharacter q b).readCharacter p = c.readCharacter p)
    ∧ (3 ≤ c.size → ∀ p q, c.wrap q = c.wrap (p + 1) → ∀ b : UInt8,
      (c.assignCharacter p b).readCharacter q
        = Nibble.join (Nibble.low b) (Nibble.low (c.readCharacter q))) := by
  refine ⟨readCharacter_assign hn, c.assign_readCharacter, c.assign_assign, ?_, ?_, ?_⟩
  · intro p b
    exact ⟨c.size_assignCharacter p b, fun x hx => read_assign_other hx b⟩
  · intro p q h a b
    have hback : ∀ x, c.HoldsHalf q x → ¬c.HoldsHalf p x := fun x hq hp => h x hp hq
    exact ⟨assign_comm h a b, readCharacter_assign_of_apart hback a,
      readCharacter_assign_of_apart h b⟩
  · intro hthree p q h b
    exact readCharacter_assign_next hthree h b

/-- Pointers beyond the core, a character that lies across address zero, one that is apart
    from it and the one next to it. -/
theorem character_laws_across_zero :
    let c : Core := ⟨#[1, 2, 3, 4, 5], by decide⟩
    3 ≤ c.size ∧ (∀ x, c.HoldsHalf 5 x → ¬c.HoldsHalf 12 x)
      ∧ (c.assignCharacter 5 0xa7).readCharacter 5 = 0xa7
      ∧ (c.assignCharacter 5 0xa7).assignCharacter 12 0x6b
        = (c.assignCharacter 12 0x6b).assignCharacter 5 0xa7
      ∧ (c.assignCharacter 5 0xa7).readCharacter 6 = 0x72 := by
  intro c
  have hsize : 3 ≤ c.size := Nat.le_of_ble_eq_true rfl
  have hapart : ∀ x, c.HoldsHalf 5 x → ¬c.HoldsHalf 12 x := by
    intro x
    show (x % 5 = 5 % 5 ∨ (x + 1) % 5 = 5 % 5) → ¬(x % 5 = 12 % 5 ∨ (x + 1) % 5 = 12 % 5)
    omega
  obtain ⟨hread, -, -, -, hcomm, hnext⟩ := character_laws (c := c) (Nat.le_of_succ_le hsize)
  have hshared : Nibble.join (Nibble.low 0xa7) (Nibble.low (c.readCharacter 6)) = 0x72 := by
    decide
  exact ⟨hsize, hapart, hread 5 0xa7, (hcomm 5 12 hapart 0xa7 0x6b).1,
    (hnext hsize 5 6 rfl 0xa7).trans hshared⟩

end NibbleArena.Core
