import NibbleArena.Proofs.Placement.Packing

/-! # Marking — a window taken cell by cell, in words

    `Reservations.reserve?` takes a window as a machine does: it computes the first cell
    with sums and a difference of words, and goes from it to the last cell in a loop.  It
    gives nothing if a number leaves the range of words or a cell is not in the core.

    On a core of fewer than `2 ^ 63` cells neither happens, and what is taken is what
    `Reservations.reserve` takes (`reserve?_eq_some`).  The loop goes through the cells
    the other way round than `Reservations.take`; that does not matter, since both take
    the same cells (`take_succ`).

    A window that does not fill the core has `2 * reach` cells, no two of which are the
    same. -/

namespace NibbleArena

/-- The difference of two numbers, if it is one. -/
def Word.minus? (a b : Nat) : Option Nat := if b ≤ a then some (a - b) else none

namespace Reservations

open Placement

/-- Takes the cell with a number of the window that begins at `first`, if the sum is a
    word and the cell is in the core. -/
def mark? (first : Nat) (r : Reservations) (k : Nat) : Option Reservations := do
  let sum ← Word.checked? (first + k)
  if h : sum % r.taken.size < r.taken.size then
    some ⟨r.taken.set (sum % r.taken.size) true h⟩
  else none

/-- Takes the window around a start, if no number leaves the range of words and no cell
    the core. -/
def reserve? (r : Reservations) (start reach : Nat) : Option Reservations :=
  if r.size ≤ Word.saturated (2 * reach) then some r.takeAll
  else do
    let upper ← Word.checked? (start + r.size)
    let lower ← Word.minus? upper (reach % r.size)
    let width ← Word.checked? (2 * reach)
    (List.range width).foldlM (mark? (lower % r.size)) r

variable {r s : Reservations} {first start reach count k : Nat}

/-- Reservations of one size with the same cells taken are the same. -/
theorem ext_isTaken (hsize : r.size = s.size)
    (h : ∀ a, r.isTaken a = true ↔ s.isTaken a = true) : r = s := by
  obtain ⟨taken⟩ := r
  obtain ⟨taken'⟩ := s
  congr 1
  refine Array.ext hsize ?_
  intro a ha ha'
  have hcell : taken.getD a true = taken'.getD a true := Bool.eq_iff_iff.2 (h a)
  rw [Array.getD_eq_getD_getElem?, Array.getD_eq_getD_getElem?, Array.getElem?_eq_getElem ha,
    Array.getElem?_eq_getElem ha'] at hcell
  exact hcell

/-- The last of the cells may as well be taken last. -/
theorem take_succ (first k : Nat) (r : Reservations) :
    r.take first (k + 1)
      = ⟨(r.take first k).taken.setIfInBounds ((first + k) % r.size) true⟩ := by
  refine ext_isTaken ?_ ?_
  · rw [size_take]
    exact (Array.size_setIfInBounds.trans (size_take first k r)).symm
  · intro a
    rw [isTaken_take, isTaken_set, isTaken_take, or_assoc]
    refine or_congr_right ?_
    constructor
    · rintro ⟨j, hj, ha⟩
      rcases Nat.lt_succ_iff_lt_or_eq.1 hj with hlt | rfl
      · exact Or.inl ⟨j, hlt, ha⟩
      · exact Or.inr ha
    · rintro (⟨j, hj, ha⟩ | ha)
      · exact ⟨j, Nat.lt_succ_of_lt hj, ha⟩
      · exact ⟨k, Nat.lt_succ_self k, ha⟩

theorem mark?_eq_some (hpos : 0 < r.size) (h : first + k ≤ Word.max64) :
    mark? first r k = some ⟨r.taken.setIfInBounds ((first + k) % r.size) true⟩ := by
  have hlt : (first + k) % r.taken.size < r.taken.size := Nat.mod_lt _ hpos
  rw [mark?, Word.checked?, if_pos h, Option.bind_eq_bind, Option.bind_some, dif_pos hlt,
    Array.setIfInBounds, size, dif_pos hlt]

/-- The loop takes all cells of the window. -/
theorem foldlM_mark? (hpos : 0 < r.size) (h : first + count ≤ Word.max64) :
    (List.range count).foldlM (mark? first) r = some (r.take first count) := by
  induction count with
  | zero => rfl
  | succ k ih =>
      have hpos' : 0 < (r.take first k).size := by rwa [size_take]
      rw [List.range_succ, List.foldlM_append, ih (by omega), take_succ, ← size_take first k r]
      show (mark? first (r.take first k) k).bind some = _
      rw [mark?_eq_some hpos' (by omega), Option.bind_some]

theorem le_saturated_iff {n : Nat} (hsize : r.size ≤ Word.max64) :
    r.size ≤ Word.saturated n ↔ r.size ≤ n := by
  rw [Word.saturated]
  omega

theorem reserve?_eq_some (hsize : r.size < 2 ^ 63) (hstart : start < r.size) (reach : Nat) :
    r.reserve? start reach = some (r.reserve start reach) := by
  have hword : r.size + r.size ≤ Word.max64 := by
    have hmax : 2 ^ 63 + 2 ^ 63 = Word.max64 + 1 := rfl
    omega
  have hfill : r.size ≤ Word.saturated (2 * reach) ↔ r.size ≤ 2 * reach :=
    le_saturated_iff (by omega)
  rw [reserve?, reserve]
  by_cases h : r.size ≤ 2 * reach
  · rw [if_pos (hfill.2 h), if_pos h]
  · have hpos : 0 < r.size := by omega
    have hfirst : (start + r.size - reach % r.size) % r.size < r.size := Nat.mod_lt _ hpos
    have hlow : reach % r.size ≤ start + r.size := by
      have hlt := Nat.mod_lt reach hpos
      omega
    rw [if_neg (mt hfill.1 h), if_neg h, Word.checked?, if_pos (by omega), Option.bind_eq_bind,
      Option.bind_some, Word.minus?, if_pos hlow, Option.bind_some, Word.checked?,
      if_pos (by omega), Option.bind_some]
    exact foldlM_mark? hpos (by omega)

/-- **Reservation.**  On a core of fewer than `2 ^ 63` cells, at any start in it and with
    any reach: no number on the way leaves the range of words and no cell the core.  What
    is taken afterwards is what was taken before and the cells to which some displacement
    of at least `-reach` and less than `reach` leads.  If twice the reach is less than the
    size, these are exactly so many cells; otherwise they are all cells of the core. -/
theorem reserve_exact (hsize : r.size < 2 ^ 63) (hstart : start < r.size) (reach : Nat) :
    r.reserve? start reach = some (r.reserve start reach)
    ∧ (r.reserve start reach).size = r.size
    ∧ (∀ a < r.size, (r.reserve start reach).isTaken a = true
      ↔ r.isTaken a = true ∨ InWindow r.size reach start a)
    ∧ (2 * reach < r.size → ∃ window : Finset Nat, window.card = 2 * reach
      ∧ ∀ a, a ∈ window ↔ InWindow r.size reach start a)
    ∧ (r.size ≤ 2 * reach → ∀ a, a < r.size ↔ InWindow r.size reach start a) := by
  have hpos : 0 < r.size := by omega
  refine ⟨reserve?_eq_some hsize hstart reach, size_reserve r start reach, ?_, ?_, ?_⟩
  · intro a ha
    exact isTaken_reserve ha
  · intro h
    exact ⟨windowCells r.size reach start, card_windowCells h, fun a => mem_windowCells_iff hpos⟩
  · intro h a
    exact ⟨inWindow_of_size_le h, InWindow.lt hpos⟩

/-- A window that wraps past the end of a core with a cell taken, and reaches that are
    just long enough and much too long for the core. -/
theorem reserve_exact_wrapped :
    let r : Reservations := ⟨#[false, false, false, false, true, false, false, false]⟩
    r.size < 2 ^ 63 ∧ 1 < r.size
      ∧ r.reserve? 1 2 = some ⟨#[true, true, true, false, true, false, false, true]⟩
      ∧ (∃ window : Finset Nat, window.card = 4 ∧ ∀ a, a ∈ window ↔ InWindow 8 2 1 a)
      ∧ r.reserve? 1 4 = some r.takeAll
      ∧ r.reserve? 1 Word.max64 = some r.takeAll := by
  intro r
  have hsize : r.size < 2 ^ 63 := by decide
  have hstart : 1 < r.size := by decide
  have htwo : r.reserve 1 2 = ⟨#[true, true, true, false, true, false, false, true]⟩ := by decide
  have hfour : r.reserve 1 4 = r.takeAll := if_pos (by decide)
  have hmax : r.reserve 1 Word.max64 = r.takeAll := if_pos (by decide)
  obtain ⟨hwrapped, -, -, hwindow, -⟩ := reserve_exact hsize hstart 2
  obtain ⟨hfull, -⟩ := reserve_exact hsize hstart 4
  obtain ⟨hlargest, -⟩ := reserve_exact hsize hstart Word.max64
  exact ⟨hsize, hstart, hwrapped.trans (congrArg some htwo), hwindow (by decide),
    hfull.trans (congrArg some hfour), hlargest.trans (congrArg some hmax)⟩

end Reservations

end NibbleArena
