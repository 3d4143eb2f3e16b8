import NibbleArena.Placement

/-! # Windows — which cells a reservation takes

    A start takes the half-open window from `reach` cells before it up to `reach`
    cells after it.  Two readings of this are tied together here:

    * `InWindow` says it by a displacement: some `d` with `-reach ≤ d < reach`
      leads from the start to the cell;
    * `Apart` says the opposite by the forward distance from the start to the
      cell, which must leave room on both sides.

    `isTaken_reserve` is the law of a reservation: a cell is taken afterwards if
    it was taken before or lies in the window.  It covers the window that wraps
    past the end of the core and the one that is as long as the core. -/

namespace NibbleArena

namespace Placement

/-- Some displacement of at least `-reach` and less than `reach` leads from the
    start to the cell. -/
def InWindow (size reach start a : Nat) : Prop :=
  ∃ d : Int, -(reach : Int) ≤ d ∧ d < reach ∧ (a : Int) = ((start : Int) + d) % size

/-- The number of cells from `a` forward to `b`. -/
def distance (size a b : Nat) : Nat := (((b : Int) - a) % (size : Int)).toNat

/-- The number of cells between `a` and `b` the shorter way round. -/
def circularDistance (size a b : Nat) : Nat := min (distance size a b) (distance size b a)

/-- The way from `a` forward to `b` leaves `reach` cells, and the way on from
    there to `a` leaves more than `reach`. -/
def Apart (size reach a b : Nat) : Prop :=
  reach ≤ distance size a b ∧ reach < size - distance size a b

/-- A distance as a remainder. -/
theorem distance_eq_emod {size : Nat} (hpos : 0 < size) (a b : Nat) :
    (distance size a b : Int) = ((b : Int) - a) % (size : Int) :=
  Int.toNat_of_nonneg (Int.emod_nonneg _ (by omega))

/-- A distance is less than a lap. -/
theorem distance_lt {size : Nat} (hpos : 0 < size) (a b : Nat) : distance size a b < size := by
  have h := distance_eq_emod hpos a b
  have hlt := Int.emod_lt_of_pos ((b : Int) - a) (Int.natCast_pos.2 hpos)
  omega

/-- Going a distance leads to the cell. -/
theorem add_distance_emod {size : Nat} (hpos : 0 < size) (a : Nat) {b : Nat} (hb : b < size) :
    ((a : Int) + distance size a b) % (size : Int) = b := by
  have hsum : (a : Int) + (b - a) = b := by omega
  rw [distance_eq_emod hpos, Int.add_emod_emod, hsum, Int.emod_eq_of_lt (by omega) (by omega)]

/-- A distance is known from two ways to one cell. -/
theorem distance_of_meet {size a b k m : Nat} (hmeet : (a + k) % size = (b + m) % size)
    (hmk : m ≤ k) (hk : k - m < size) : distance size a b = k - m := by
  have hmod : ((a : Int) + k) % (size : Int) = ((b : Int) + m) % (size : Int) := by
    exact_mod_cast hmeet
  have hzero := Int.emod_eq_emod_iff_emod_sub_eq_zero.1 hmod
  have hdiff : (a : Int) + k - (b + m) = ((k - m : Nat) : Int) - (b - a) := by omega
  rw [hdiff] at hzero
  have hsame := Int.emod_eq_emod_iff_emod_sub_eq_zero.2 hzero
  apply Int.natCast_inj.1
  rw [distance_eq_emod (by omega), ← hsame]
  exact Int.emod_eq_of_lt (by omega) (by omega)

/-- Stretches from two cells do not meet if each ends before the other cell. -/
theorem add_mod_ne {size a b k m : Nat} (hpos : 0 < size) (hk : k < distance size a b)
    (hm : m < distance size b a) : (a + k) % size ≠ (b + m) % size := by
  intro hmeet
  have hab := distance_lt hpos a b
  have hba := distance_lt hpos b a
  rcases Nat.le_total m k with hle | hle
  · have hdistance := distance_of_meet hmeet hle (by omega)
    omega
  · have hdistance := distance_of_meet hmeet.symm hle (by omega)
    omega

theorem InWindow.lt {size reach start a : Nat} (hpos : 0 < size)
    (h : InWindow size reach start a) : a < size := by
  obtain ⟨d, -, -, hd⟩ := h
  have hlt := Int.emod_lt_of_pos ((start : Int) + d) (Int.natCast_pos.2 hpos)
  omega

/-- The window around a start, by the forward distance from it. -/
theorem inWindow_iff {size reach start a : Nat} (ha : a < size) :
    InWindow size reach start a
      ↔ distance size start a < reach ∨ size - distance size start a ≤ reach := by
  have hpos : 0 < size := by omega
  have hlt := distance_lt hpos start a
  constructor
  · rintro ⟨d, hlo, hhi, hd⟩
    -- the displacement and the distance differ by whole laps
    have hmod : (distance size start a : Int) = d % (size : Int) := by
      have hdiff : (start : Int) + d - start = d := by omega
      rw [distance_eq_emod hpos, hd, Int.emod_sub_emod, hdiff]
    have hdiv := Int.emod_add_mul_ediv d (size : Int)
    by_cases hneg : d < 0
    · have hq : d / (size : Int) < 0 := Int.ediv_neg_of_neg_of_pos hneg (by omega)
      have hlap : (size : Int) * (d / (size : Int)) ≤ (size : Int) * (-1) :=
        Int.mul_le_mul_of_nonneg_left (by omega) (by omega)
      exact Or.inr (by omega)
    · have hq : 0 ≤ d / (size : Int) := Int.ediv_nonneg (by omega) (by omega)
      have hlap : 0 ≤ (size : Int) * (d / (size : Int)) := Int.mul_nonneg (by omega) hq
      exact Or.inl (by omega)
  · rintro (hin | hin)
    · exact ⟨distance size start a, by omega, by omega, (add_distance_emod hpos start ha).symm⟩
    · refine ⟨(distance size start a : Int) - size, by omega, by omega, ?_⟩
      rw [← Int.add_sub_assoc, Int.sub_emod_right, add_distance_emod hpos start ha]

/-- A cell lies outside of a window if it is apart from the start. -/
theorem not_inWindow_iff {size reach start a : Nat} (ha : a < size) :
    ¬ InWindow size reach start a ↔ Apart size reach start a := by
  rw [inWindow_iff ha, not_or, Nat.not_lt, Nat.not_le]
  exact Iff.rfl

/-- Cells that are apart are at least `reach` cells from each other, whichever
    way round. -/
theorem le_circularDistance {size reach a b : Nat} (h : Apart size reach a b) :
    reach ≤ circularDistance size a b := by
  obtain ⟨hfwd, hback⟩ := h
  have hpos : 0 < size := by omega
  have hsum : ((distance size b a : Int) + distance size a b) % (size : Int) = 0 := by
    rw [distance_eq_emod hpos, distance_eq_emod hpos, Int.emod_add_emod, Int.add_emod_emod]
    have hzero : (a : Int) - b + (b - a) = 0 := by omega
    rw [hzero, Int.zero_emod]
  have hb := distance_lt hpos b a
  have ha := distance_lt hpos a b
  refine Nat.le_min.2 ⟨hfwd, ?_⟩
  -- the two distances add up to nothing or to one lap
  obtain ⟨k, hk⟩ := Int.dvd_of_emod_eq_zero hsum
  by_cases hk0 : k ≤ 0
  · have hnone : (size : Int) * k ≤ (size : Int) * 0 := Int.mul_le_mul_of_nonneg_left hk0 (by omega)
    omega
  · have hlap : (size : Int) * 1 ≤ (size : Int) * k :=
      Int.mul_le_mul_of_nonneg_left (by omega) (by omega)
    omega

/-- A window that reaches as far as the core is long takes all of it. -/
theorem inWindow_of_size_le {size reach start a : Nat} (h : size ≤ 2 * reach) (ha : a < size) :
    InWindow size reach start a := by
  rw [inWindow_iff ha]
  omega

/-- A saturated reach takes the same cells of a core whose size is a word. -/
theorem inWindow_saturated_iff {size n start a : Nat} (hsize : size ≤ Word.max64)
    (ha : a < size) :
    InWindow size (Word.saturated n) start a ↔ InWindow size n start a := by
  rw [inWindow_iff ha, inWindow_iff ha]
  show distance size start a < min n Word.max64 ∨ size - distance size start a ≤ min n Word.max64
    ↔ _
  omega

end Placement

namespace Reservations

open Placement

/-- Taking one more cell. -/
theorem isTaken_set (taken : Array Bool) (i a : Nat) :
    isTaken ⟨taken.setIfInBounds i true⟩ a = true ↔ isTaken ⟨taken⟩ a = true ∨ a = i := by
  show (taken.setIfInBounds i true).getD a true = true ↔ taken.getD a true = true ∨ a = i
  rw [Array.getD_eq_getD_getElem?, Array.getD_eq_getD_getElem?, Array.getElem?_setIfInBounds]
  by_cases hia : i = a
  · rw [if_pos hia]
    -- a cell outside of the core is not set, but counts as taken
    by_cases hlt : i < taken.size
    · rw [if_pos hlt]
      exact iff_of_true rfl (Or.inr hia.symm)
    · rw [if_neg hlt]
      exact iff_of_true rfl (Or.inr hia.symm)
  · rw [if_neg hia, or_iff_left (Ne.symm hia)]

/-- Taking cells keeps the size. -/
@[simp] theorem size_take (first k : Nat) (r : Reservations) : (r.take first k).size = r.size := by
  induction k generalizing r with
  | zero => rfl
  | succ k ih =>
      show (take ⟨r.taken.setIfInBounds ((first + k) % r.taken.size) true⟩ first k).size = r.size
      rw [ih]
      exact Array.size_setIfInBounds

/-- The cells that are taken after taking `k` of them from `first` on. -/
theorem isTaken_take (first k a : Nat) (r : Reservations) :
    (r.take first k).isTaken a = true
      ↔ r.isTaken a = true ∨ ∃ j < k, a = (first + j) % r.size := by
  induction k generalizing r with
  | zero =>
      show r.isTaken a = true ↔ _
      simp
  | succ k ih =>
      have hsize : size ⟨r.taken.setIfInBounds ((first + k) % r.taken.size) true⟩ = r.size :=
        Array.size_setIfInBounds
      show (take ⟨r.taken.setIfInBounds ((first + k) % r.taken.size) true⟩ first k).isTaken a
        = true ↔ _
      rw [ih, isTaken_set, hsize]
      constructor
      · rintro ((htaken | hlast) | ⟨j, hj, ha⟩)
        · exact Or.inl htaken
        · exact Or.inr ⟨k, Nat.lt_succ_self k, hlast⟩
        · exact Or.inr ⟨j, Nat.lt_succ_of_lt hj, ha⟩
      · rintro (htaken | ⟨j, hj, ha⟩)
        · exact Or.inl (Or.inl htaken)
        · rcases Nat.lt_succ_iff_lt_or_eq.1 hj with hlt | heq
          · exact Or.inr ⟨j, hlt, ha⟩
          · exact Or.inl (Or.inr (heq ▸ ha))

/-- A reservation keeps the size. -/
@[simp] theorem size_reserve (r : Reservations) (start reach : Nat) :
    (r.reserve start reach).size = r.size := by
  show (if r.size ≤ 2 * reach then r.takeAll
    else r.take (windowStart r.size start reach) (2 * reach)).size = r.size
  by_cases h : r.size ≤ 2 * reach
  · rw [if_pos h]
    exact Array.size_replicate
  · rw [if_neg h]
    exact size_take _ _ r

/-- The `j`-th cell of a window that does not fill the core, by its displacement
    from the start. -/
theorem windowStart_add_emod {size start reach : Nat} (h : 2 * reach < size) (j : Nat) :
    (((windowStart size start reach + j) % size : Nat) : Int)
      = ((start : Int) + ((j : Int) - reach)) % (size : Int) := by
  have hreach : reach % size = reach := Nat.mod_eq_of_lt (by omega)
  have hsum : (((start + size - reach : Nat) : Int) + j)
      = ((start : Int) + ((j : Int) - reach)) + size := by omega
  show ((((start + size - reach % size) % size + j) % size : Nat) : Int) = _
  rw [hreach, Nat.mod_add_mod, Int.natCast_emod, Int.natCast_add, hsum, Int.add_emod_right]

/-- The law of a reservation: taken is what was taken before and what lies in
    the window. -/
theorem isTaken_reserve {r : Reservations} {start reach a : Nat} (ha : a < r.size) :
    (r.reserve start reach).isTaken a = true
      ↔ r.isTaken a = true ∨ InWindow r.size reach start a := by
  show (if r.size ≤ 2 * reach then r.takeAll
    else r.take (windowStart r.size start reach) (2 * reach)).isTaken a = true ↔ _
  by_cases h : r.size ≤ 2 * reach
  · rw [if_pos h]
    have hall : r.takeAll.isTaken a = true := by
      show (Array.replicate r.size true).getD a true = true
      rw [Array.getD_eq_getD_getElem?, Array.getElem?_replicate, if_pos ha]
      rfl
    exact ⟨fun _ => Or.inr (inWindow_of_size_le h ha), fun _ => hall⟩
  · rw [if_neg h, isTaken_take]
    have hlt : 2 * reach < r.size := by omega
    refine or_congr_right ⟨?_, ?_⟩
    · rintro ⟨j, hj, haj⟩
      refine ⟨(j : Int) - reach, by omega, by omega, ?_⟩
      rw [haj, windowStart_add_emod hlt]
    · rintro ⟨d, hlo, hhi, hd⟩
      refine ⟨(d + reach).toNat, by omega, Int.natCast_inj.1 ?_⟩
      rw [windowStart_add_emod hlt, Int.toNat_of_nonneg (by omega), Int.add_sub_cancel]
      exact hd

/-- The free cells are those of the core that are not taken. -/
theorem mem_free {r : Reservations} {a : Nat} :
    a ∈ r.free ↔ a < r.size ∧ ¬ r.isTaken a = true := by
  show a ∈ (List.range r.size).filter (fun a => !r.isTaken a) ↔ _
  rw [List.mem_filter, List.mem_range, Bool.not_eq_true', Bool.not_eq_true]

end Reservations

end NibbleArena
