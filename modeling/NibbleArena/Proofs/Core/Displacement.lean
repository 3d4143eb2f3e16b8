import Mathlib.Algebra.Ring.Int.Defs
import Mathlib.Algebra.Ring.Nat
import NibbleArena.Proofs.Core.Address

/-! # Displacements — a move made on words of 64 bits

    Addresses and sizes are unsigned words and distances are signed ones, so a move goes
    from one kind of word to the other and back.  `offsetWord?` makes it in these steps,
    and gives nothing as soon as a step leaves the range of its words.

    Each step has one law: it gives the word with the right number, and nothing if there
    is no such word.  Put together they say when a move stays in range and that it then
    leads to the address of `Core.offset` (`offsetWord?_eq_some_iff`).  Only the position
    before the remainder can leave the range, and only at the upper end: what a distance
    is added to is not negative.

    The laws of moves are read off this one equation. -/

namespace NibbleArena

namespace Word

/-- The signed word with the number of an unsigned one, if there is one. -/
def signed? (w : UInt64) : Option Int64 := if w.toNat < 2 ^ 63 then some w.toInt64 else none

/-- The unsigned word with the number of a signed one, if there is one. -/
def unsigned? (x : Int64) : Option UInt64 := if 0 ≤ x then some x.toUInt64 else none

/-- The sum of two signed words, if it is one. -/
def add? (x y : Int64) : Option Int64 :=
  if x.toBitVec.saddOverflow y.toBitVec then none else some (x + y)

/-- The remainder from zero upwards, if there is a quotient and it is a signed word. -/
def remainder? (x y : Int64) : Option Int64 :=
  if y = 0 ∨ (x = Int64.minValue ∧ y = -1) then none
  else
    -- A division towards zero leaves a remainder with the sign of `x`.
    let r := x % y
    some (if r < 0 then (if y < 0 then r - y else r + y) else r)

variable {w : UInt64} {x y z : Int64}

theorem exists_signed {i : Int} (hlow : -2 ^ 63 ≤ i) (hhigh : i < 2 ^ 63) :
    ∃ x : Int64, x.toInt = i :=
  ⟨Int64.ofInt i, Int64.toInt_ofInt_of_le hlow hhigh⟩

theorem signed?_eq_some_iff : signed? w = some x ↔ x.toInt = w.toNat := by
  unfold signed?
  by_cases hw : w.toNat < 2 ^ 63
  · have htwice : 2 * w.toInt64.toBitVec.toNat < 2 ^ 64 := by
      rw [UInt64.toBitVec_toInt64, UInt64.toNat_toBitVec]
      omega
    have hnumber : w.toInt64.toInt = w.toNat := BitVec.toInt_eq_toNat_of_lt htwice
    rw [if_pos hw, Option.some.injEq, ← hnumber, Int64.toInt_inj, eq_comm]
  · have hhigh := x.toInt_lt
    rw [if_neg hw]
    refine iff_of_false nofun ?_
    omega

theorem unsigned?_eq_some_iff : unsigned? x = some w ↔ (w.toNat : Int) = x.toInt := by
  unfold unsigned?
  have hsign : 0 ≤ x ↔ 0 ≤ x.toInt := Int64.le_iff_toInt_le
  by_cases hx : 0 ≤ x.toInt
  · have hnumber : (x.toUInt64.toNat : Int) = x.toInt := by
      have hbits := BitVec.toInt_eq_toNat_cond x.toBitVec
      have hlt := x.toBitVec.isLt
      show (x.toBitVec.toNat : Int) = x.toBitVec.toInt
      rw [Int64.toInt_toBitVec] at hbits ⊢
      split at hbits
      · exact hbits.symm
      · omega
    rw [if_pos (hsign.2 hx), Option.some.injEq, ← hnumber, Int.natCast_inj, UInt64.toNat_inj,
      eq_comm]
  · rw [if_neg (mt hsign.1 hx)]
    refine iff_of_false nofun ?_
    omega

theorem add?_eq_some_iff : add? x y = some z ↔ z.toInt = x.toInt + y.toInt := by
  unfold add?
  by_cases hover : x.toBitVec.saddOverflow y.toBitVec = true
  · rw [if_pos hover]
    refine iff_of_false nofun ?_
    have hlow := z.le_toInt
    have hhigh := z.toInt_lt
    rw [BitVec.saddOverflow, Bool.or_eq_true, decide_eq_true_eq, decide_eq_true_eq] at hover
    simp only [Int64.toInt_toBitVec] at hover
    omega
  · have hsum : (x + y).toInt = x.toInt + y.toInt := BitVec.toInt_add_of_not_saddOverflow hover
    rw [if_neg hover, Option.some.injEq, ← hsum, Int64.toInt_inj, eq_comm]

/-- The remainder by a size is the one of the numbers. -/
theorem remainder?_eq_some_iff (hy : 0 < y.toInt) :
    remainder? x y = some z ↔ z.toInt = x.toInt % y.toInt := by
  have hdefined : ¬(y = 0 ∨ (x = Int64.minValue ∧ y = -1)) := by
    rintro (rfl | ⟨-, rfl⟩)
    · exact absurd hy (by decide)
    · exact absurd hy (by decide)
  have hnonneg := Int.emod_nonneg x.toInt (Int.ne_of_gt hy)
  have hlt := Int.emod_lt_of_pos x.toInt hy
  have hhigh := y.toInt_lt
  have hnumber : (if x % y < 0 then (if y < 0 then x % y - y else x % y + y) else x % y).toInt
      = x.toInt % y.toInt := by
    have htowards : (x % y).toInt = x.toInt.tmod y.toInt := Int64.toInt_mod x y
    have hsign : x % y < 0 ↔ (x % y).toInt < 0 := Int64.lt_iff_toInt_lt
    have hup : ¬y < 0 := by
      rw [Int64.lt_iff_toInt_lt]
      exact Int.not_lt.2 (Int.le_of_lt hy)
    rw [Int.tmod_eq_emod] at htowards
    split at htowards
    · rw [if_neg (mt hsign.1 (by omega)), htowards, Int.natCast_zero, Int.sub_zero]
    · rw [if_pos (hsign.2 (by omega)), if_neg hup, Int64.toInt_add,
        Int.bmod_eq_of_le (by omega) (by omega), htowards, Int.natAbs_of_nonneg (Int.le_of_lt hy),
        Int.sub_add_cancel]
  rw [remainder?, if_neg hdefined, Option.some.injEq, ← hnumber, Int64.toInt_inj, eq_comm]

end Word

namespace Core

variable {c : Core} {a b w : UInt64} {d e : Int64}

/-- The address `d` cells away from `a`, if no step to it leaves the range of its words. -/
def offsetWord? (c : Core) (a : UInt64) (d : Int64) : Option UInt64 := do
  let size ← Word.signed? (UInt64.ofNat c.size)
  let base ← Word.signed? (a % UInt64.ofNat c.size)
  let position ← Word.add? base d
  let address ← Word.remainder? position size
  Word.unsigned? address

/-- The position before the remainder is not above the signed words. -/
def InReach (c : Core) (a : UInt64) (d : Int64) : Prop :=
  c.displaced a.toNat d.toInt ≤ 2 ^ 63 - 1

instance (c : Core) (a : UInt64) (d : Int64) : Decidable (c.InReach a d) :=
  inferInstanceAs (Decidable (c.displaced a.toNat d.toInt ≤ 2 ^ 63 - 1))

theorem toNat_size (hsize : c.size < 2 ^ 63) : (UInt64.ofNat c.size).toNat = c.size :=
  UInt64.toNat_ofNat_of_lt' (Nat.lt_trans hsize (by decide))

theorem toNat_mod_size (hsize : c.size < 2 ^ 63) (a : UInt64) :
    (a % UInt64.ofNat c.size).toNat = c.wrap a.toNat := by
  rw [UInt64.toNat_mod, toNat_size hsize]
  rfl

theorem offset_eq_displaced (c : Core) (a : Nat) (d : Int) :
    (c.offset a d : Int) = c.displaced a d % (c.size : Int) := by
  rw [offset_eq_emod, displaced, wrap_eq_emod, Int.emod_add_emod]

theorem offsetWord?_eq_some_iff (hsize : c.size < 2 ^ 63) :
    c.offsetWord? a d = some w ↔ c.InReach a d ∧ w.toNat = c.offset a.toNat d.toInt := by
  have hpos : 0 < c.size := c.size_pos
  have hbase : (a % UInt64.ofNat c.size).toNat = c.wrap a.toNat := toNat_mod_size hsize a
  have hlt : c.wrap a.toNat < c.size := c.wrap_lt a.toNat
  have hoffset := c.offset_eq_displaced a.toNat d.toInt
  constructor
  · intro h
    obtain ⟨size, hs, h⟩ := Option.bind_eq_some_iff.1 h
    obtain ⟨base, hb, h⟩ := Option.bind_eq_some_iff.1 h
    obtain ⟨position, hp, h⟩ := Option.bind_eq_some_iff.1 h
    obtain ⟨address, ha, hw⟩ := Option.bind_eq_some_iff.1 h
    rw [Word.signed?_eq_some_iff, toNat_size hsize] at hs
    rw [Word.signed?_eq_some_iff, hbase] at hb
    rw [Word.add?_eq_some_iff, hb] at hp
    rw [Word.remainder?_eq_some_iff (by omega), hp, hs] at ha
    rw [Word.unsigned?_eq_some_iff, ha] at hw
    have hhigh := position.toInt_lt
    exact ⟨by rw [InReach, displaced]; omega, Int.natCast_inj.1 (hw.trans hoffset.symm)⟩
  · rintro ⟨hreach, hw⟩
    rw [InReach, displaced] at hreach
    have hlow := d.le_toInt
    have hnonneg := Int.emod_nonneg (c.displaced a.toNat d.toInt) (b := c.size) (by omega)
    have hless := Int.emod_lt_of_pos (c.displaced a.toNat d.toInt) (b := c.size) (by omega)
    obtain ⟨size, hs⟩ := Word.exists_signed (i := c.size) (by omega) (by omega)
    obtain ⟨base, hb⟩ := Word.exists_signed (i := c.wrap a.toNat) (by omega) (by omega)
    obtain ⟨position, hp⟩ := Word.exists_signed (i := c.displaced a.toNat d.toInt)
      (by rw [displaced]; omega) (by rw [displaced]; omega)
    obtain ⟨address, ha⟩ :=
      Word.exists_signed (i := c.displaced a.toNat d.toInt % (c.size : Int)) (by omega) (by omega)
    refine Option.bind_eq_some_iff.2 ⟨size, ?_, ?_⟩
    · rw [Word.signed?_eq_some_iff, toNat_size hsize, hs]
    refine Option.bind_eq_some_iff.2 ⟨base, ?_, ?_⟩
    · rw [Word.signed?_eq_some_iff, hbase, hb]
    refine Option.bind_eq_some_iff.2 ⟨position, ?_, ?_⟩
    · rw [Word.add?_eq_some_iff, hp, hb, displaced]
    refine Option.bind_eq_some_iff.2 ⟨address, ?_, ?_⟩
    · rw [Word.remainder?_eq_some_iff (by omega), ha, hp, hs]
    · rw [Word.unsigned?_eq_some_iff, ha, hw, hoffset]

theorem exists_offsetWord? (hsize : c.size < 2 ^ 63) (h : c.InReach a d) :
    ∃ w, c.offsetWord? a d = some w ∧ w.toNat = c.offset a.toNat d.toInt := by
  have hlt := c.offset_lt a.toNat d.toInt
  have hword : c.offset a.toNat d.toInt < UInt64.size :=
    Nat.lt_trans (Nat.lt_trans hlt hsize) (by decide)
  have hnumber := UInt64.toNat_ofNat_of_lt' hword
  exact ⟨_, (offsetWord?_eq_some_iff hsize).2 ⟨h, hnumber⟩, hnumber⟩

theorem offsetWord?_eq_none (hsize : c.size < 2 ^ 63) (h : ¬c.InReach a d) :
    c.offsetWord? a d = none := by
  refine Option.eq_none_iff_forall_not_mem.2 ?_
  intro w hw
  exact h ((offsetWord?_eq_some_iff hsize).1 hw).1

/-- Moves on words that lead to the same address are the same move. -/
theorem offsetWord?_congr (hsize : c.size < 2 ^ 63) (ha : c.InReach a d) (hb : c.InReach b e)
    (h : c.offset a.toNat d.toInt = c.offset b.toNat e.toInt) :
    c.offsetWord? a d = c.offsetWord? b e := by
  obtain ⟨w, hw, hnumber⟩ := exists_offsetWord? hsize ha
  rw [hw, eq_comm, offsetWord?_eq_some_iff hsize]
  exact ⟨hb, hnumber.trans h⟩

theorem offsetWord?_of_wrap_eq (hsize : c.size < 2 ^ 63) (h : c.wrap a.toNat = c.wrap b.toNat)
    (d : Int64) : c.offsetWord? a d = c.offsetWord? b d := by
  have hbase : a % UInt64.ofNat c.size = b % UInt64.ofNat c.size := by
    apply UInt64.toNat_inj.1
    rw [toNat_mod_size hsize, toNat_mod_size hsize, h]
  rw [offsetWord?, offsetWord?, hbase]

/-- **Moves on words.**  In a core of fewer than `2 ^ 63` cells, take any word as the
    address and any signed word as the distance.  If the wrapped address and the distance
    add up to a signed word, no step of the move leaves its range, and the move leads to
    the remainder of the sum of the two numbers by the size, which is in the core;
    otherwise the sum is the step that does.

    The distance the other way leads back, two moves in a row are the move by the sum of
    their distances, and addresses of the same cell are moved alike. -/
theorem offset_on_words (hsize : c.size < 2 ^ 63) :
    (∀ a d, c.InReach a d →
      ∃ w, c.offsetWord? a d = some w ∧ w.toNat = c.offset a.toNat d.toInt
        ∧ (w.toNat : Int) = ((a.toNat : Int) + d.toInt) % (c.size : Int) ∧ w.toNat < c.size)
    ∧ (∀ a d, ¬c.InReach a d → c.offsetWord? a d = none)
    ∧ (∀ a d w e, c.offsetWord? a d = some w → e.toInt = -d.toInt → c.InReach w e →
      ∃ v, c.offsetWord? w e = some v ∧ v.toNat = c.wrap a.toNat)
    ∧ (∀ a d w e s, c.offsetWord? a d = some w → s.toInt = d.toInt + e.toInt →
      c.InReach w e → c.InReach a s → c.offsetWord? w e = c.offsetWord? a s)
    ∧ (∀ a b d, a.toNat % c.size = b.toNat % c.size → c.offsetWord? a d = c.offsetWord? b d) := by
  refine ⟨?_, ?_, ?_, ?_, ?_⟩
  · intro a d h
    obtain ⟨w, hw, hnumber⟩ := exists_offsetWord? hsize h
    exact ⟨w, hw, hnumber, hnumber ▸ c.offset_eq_emod a.toNat d.toInt,
      hnumber ▸ c.offset_lt a.toNat d.toInt⟩
  · intro a d h
    exact offsetWord?_eq_none hsize h
  · intro a d w e hw he hback
    have hnumber := ((offsetWord?_eq_some_iff hsize).1 hw).2
    obtain ⟨v, hv, hreturn⟩ := exists_offsetWord? hsize hback
    refine ⟨v, hv, hreturn.trans ?_⟩
    rw [hnumber, he, offset_offset, Int.add_right_neg, offset_zero]
  · intro a d w e s hw hs hsecond hboth
    have hnumber := ((offsetWord?_eq_some_iff hsize).1 hw).2
    refine offsetWord?_congr hsize hsecond hboth ?_
    rw [hnumber, offset_offset, hs]
  · intro a b d h
    exact offsetWord?_of_wrap_eq hsize h d

/-- The largest address and the lowest distance, a move that reaches just the end of the
    signed words and is taken back, and the distance that is one too many. -/
theorem offset_on_words_limits :
    let c := zeroed 10 (by decide)
    c.size < 2 ^ 63
      ∧ c.offsetWord? 18446744073709551615 Int64.minValue = some 7
      ∧ c.offsetWord? 18446744073709551615 9223372036854775802 = some 7
      ∧ c.offsetWord? 7 (-9223372036854775802) = some 5
      ∧ c.offsetWord? 18446744073709551615 9223372036854775803 = none := by
  intro c
  have hsize : c.size < 2 ^ 63 := by decide
  obtain ⟨hmove, hnone, hback, -, -⟩ := offset_on_words hsize
  have hlow : c.InReach 18446744073709551615 Int64.minValue := by decide
  have hhigh : c.InReach 18446744073709551615 9223372036854775802 := by decide
  have hreturn : c.InReach 7 (-9223372036854775802) := by decide
  have hbeyond : ¬c.InReach 18446744073709551615 9223372036854775803 := by decide
  obtain ⟨w, hw, hnumber, -⟩ := hmove _ _ hlow
  obtain ⟨w', hw', hnumber', -⟩ := hmove _ _ hhigh
  obtain rfl : w = 7 := UInt64.toNat_inj.1 (hnumber.trans (by decide))
  obtain rfl : w' = 7 := UInt64.toNat_inj.1 (hnumber'.trans (by decide))
  obtain ⟨v, hv, horigin⟩ := hback _ _ _ _ hw' (by decide) hreturn
  obtain rfl : v = 5 := UInt64.toNat_inj.1 (horigin.trans (by decide))
  exact ⟨hsize, hw, hw', hv, hnone _ _ hbeyond⟩

end Core

end NibbleArena
