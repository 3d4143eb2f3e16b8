import Mathlib.Algebra.Order.BigOperators.Group.Finset
import Mathlib.Order.Interval.Finset.Nat
import NibbleArena.Proofs.Placement.Apart

/-! # Packing — how many starts fit, and how few fill the core

    Two counts on the circle.  Starts that keep apart own the `reach` cells behind
    each of them, and the last cell of the core belongs to nobody since the circle
    closes at the anchor: so `k` starts need more than `k * reach` cells
    (`Spread.length_mul_lt`).  A window has no more than `2 * reach` cells, so `k`
    windows fill no more than `k * (2 * reach)` (`Filled.size_le`).

    Both counts are met.  `densest` puts the starts a reach apart.  `sparsest` puts
    them two reaches apart, so that the windows do not overlap, with the last start
    drawn back to where it still keeps apart from the anchor: these fill the core. -/

namespace NibbleArena.Placement

variable {n reach : Nat} {starts : List Nat}

theorem distance_eq_sub {a b : Nat} (hab : a ≤ b) (hb : b < n) : distance n a b = b - a := by
  show (((b : Int) - a) % (n : Int)).toNat = b - a
  rw [Int.emod_eq_of_lt (by omega) (by omega)]
  omega

/-- Outside of a window that lies before the cell, by plain numbers. -/
theorem not_inWindow_iff_of_le {a b : Nat} (hab : a ≤ b) (hb : b < n) :
    ¬InWindow n reach a b ↔ a + reach ≤ b ∧ b + reach < n + a := by
  rw [not_inWindow_iff hb, Apart, distance_eq_sub hab hb]
  omega

/-- Every cell lies in the window of some start. -/
def Filled (n reach : Nat) (starts : List Nat) : Prop :=
  ∀ a < n, ∃ start ∈ starts, InWindow n reach start a

/-! ## Starts that keep apart -/

/-- The cells of a stretch. -/
def stretch (width first : Nat) : Finset Nat := Finset.Ico first (first + width)

theorem mem_stretch {width first a : Nat} :
    a ∈ stretch width first ↔ first ≤ a ∧ a < first + width :=
  Finset.mem_Ico

theorem card_stretch (width first : Nat) : (stretch width first).card = width := by
  rw [stretch, Nat.card_Ico, Nat.add_sub_cancel_left]

theorem disjoint_stretch {width first later : Nat}
    (h : first + width ≤ later ∨ later + width ≤ first) :
    Disjoint (stretch width first) (stretch width later) := by
  rw [Finset.disjoint_left]
  intro a ha hlater
  rw [mem_stretch] at ha hlater
  omega

/-- Stretches that keep apart need as many cells as they have together. -/
theorem mul_le_of_apart {k width m : Nat} {first : Nat → Nat}
    (hlast : ∀ i < k, first i + width ≤ m)
    (hapart : ∀ i < k, ∀ j < k, i ≠ j → first i + width ≤ first j ∨ first j + width ≤ first i) :
    k * width ≤ m := by
  have hdisjoint : ∀ i ∈ Finset.range k, ∀ j ∈ Finset.range k, i ≠ j →
      Disjoint (stretch width (first i)) (stretch width (first j)) := by
    intro i hi j hj hne
    exact disjoint_stretch (hapart i (Finset.mem_range.1 hi) j (Finset.mem_range.1 hj) hne)
  have hsub : (Finset.range k).biUnion (fun i => stretch width (first i)) ⊆ Finset.range m := by
    intro a ha
    obtain ⟨i, hi, hai⟩ := Finset.mem_biUnion.1 ha
    exact Finset.mem_range.2
      (Nat.lt_of_lt_of_le (mem_stretch.1 hai).2 (hlast i (Finset.mem_range.1 hi)))
  have hcard := Finset.card_le_card hsub
  rw [Finset.card_biUnion hdisjoint, Finset.sum_const_nat fun i _ => card_stretch width (first i),
    Finset.card_range, Finset.card_range] at hcard
  exact hcard

/-- Of two starts, one lies a reach before the other. -/
theorem Spread.add_le_or (hs : Spread n reach [] starts) {i j : Nat}
    (hi : i < starts.length) (hj : j < starts.length) (hne : i ≠ j) :
    starts[i] + reach ≤ starts[j] ∨ starts[j] + reach ≤ starts[i] := by
  have hlti : starts[i] < n := hs.lt _ (List.getElem_mem hi)
  have hltj : starts[j] < n := hs.lt _ (List.getElem_mem hj)
  have hforth : reach ≤ distance n starts[i] starts[j] := hs.le_distance hne
    (List.getElem?_eq_getElem hi) (List.getElem?_eq_getElem hj)
  have hback : reach ≤ distance n starts[j] starts[i] := hs.le_distance hne.symm
    (List.getElem?_eq_getElem hj) (List.getElem?_eq_getElem hi)
  rcases Nat.le_total starts[i] starts[j] with hle | hle
  · rw [distance_eq_sub hle hltj] at hforth
    omega
  · rw [distance_eq_sub hle hlti] at hback
    omega

/-- At least two starts from the anchor on need more cells than a reach each. -/
theorem Spread.length_mul_lt (hs : Spread n reach [] starts) (hfirst : starts[0]? = some anchor)
    (htwo : 2 ≤ starts.length) : starts.length * reach < n := by
  have hanchor : starts[0] = 0 := Option.some.inj ((List.getElem?_eq_getElem _).symm.trans hfirst)
  -- behind a start, the reach ends before the last cell
  have hlater : ∀ i (hi : i < starts.length), 0 < i → starts[i] + reach < n := by
    intro i hi hpos
    have hout := List.pairwise_iff_getElem.1 hs.pairwise 0 i (by omega) hi hpos
    rw [hanchor, not_inWindow_iff_of_le (Nat.zero_le _) (hs.lt _ (List.getElem_mem hi))] at hout
    omega
  have hlast : ∀ i < starts.length, starts.getD i 0 + reach ≤ n - 1 := by
    intro i hi
    rw [← List.getElem_eq_getD (h := hi)]
    rcases Nat.eq_zero_or_pos i with rfl | hpos
    · have hsecond := hlater 1 htwo Nat.one_pos
      omega
    · have hend := hlater i hi hpos
      omega
  have hapart : ∀ i < starts.length, ∀ j < starts.length, i ≠ j →
      starts.getD i 0 + reach ≤ starts.getD j 0 ∨ starts.getD j 0 + reach ≤ starts.getD i 0 := by
    intro i hi j hj hne
    rw [← List.getElem_eq_getD (h := hi), ← List.getElem_eq_getD (h := hj)]
    exact hs.add_le_or hi hj hne
  have hmul := mul_le_of_apart hlast hapart
  have hroom := hlater 1 htwo Nat.one_pos
  omega

/-- Starts a reach apart, from the anchor on. -/
def densest (count reach : Nat) : List Nat := (List.range count).map (· * reach)

theorem length_densest (count reach : Nat) : (densest count reach).length = count := by
  rw [densest, List.length_map, List.length_range]

theorem spread_densest {count : Nat} (h : count * reach < n) :
    Spread n reach [] (densest count reach) where
  lt := by
    intro a ha
    obtain ⟨i, hi, rfl⟩ := List.mem_map.1 ha
    have hle : i * reach ≤ count * reach :=
      Nat.mul_le_mul_right reach (Nat.le_of_lt (List.mem_range.1 hi))
    omega
  outside := nofun
  pairwise := by
    rw [densest, List.pairwise_map]
    refine List.pairwise_lt_range.imp_of_mem ?_
    intro i j hi hj hlt
    have hstep : (i + 1) * reach ≤ j * reach := Nat.mul_le_mul_right reach hlt
    have hlast : (j + 1) * reach ≤ count * reach :=
      Nat.mul_le_mul_right reach (List.mem_range.1 hj)
    rw [Nat.succ_mul] at hstep hlast
    rw [not_inWindow_iff_of_le (by omega) (by omega)]
    omega

/-! ## Windows that fill the core -/

/-- The cells of a window, from its first one on. -/
def windowCells (n reach start : Nat) : Finset Nat :=
  (Finset.range (2 * reach)).image fun k : Nat =>
    (((start : Int) + (k - reach)) % (n : Int)).toNat

theorem InWindow.mem_windowCells {start a : Nat} (h : InWindow n reach start a) :
    a ∈ windowCells n reach start := by
  obtain ⟨d, hlo, hhi, hd⟩ := h
  refine Finset.mem_image.2 ⟨(d + reach).toNat, Finset.mem_range.2 (by omega), ?_⟩
  rw [Int.toNat_of_nonneg (by omega), Int.add_sub_cancel, ← hd]
  exact Int.toNat_natCast a

theorem card_windowCells_le (n reach start : Nat) :
    (windowCells n reach start).card ≤ 2 * reach :=
  Finset.card_image_le.trans (Nat.le_of_eq (Finset.card_range _))

theorem mem_windowCells_iff {start a : Nat} (hpos : 0 < n) :
    a ∈ windowCells n reach start ↔ InWindow n reach start a := by
  refine ⟨?_, InWindow.mem_windowCells⟩
  intro h
  obtain ⟨k, hk, rfl⟩ := Finset.mem_image.1 h
  have hlt := Finset.mem_range.1 hk
  exact ⟨(k : Int) - reach, by omega, by omega,
    Int.toNat_of_nonneg (Int.emod_nonneg _ (by omega))⟩

/-- The cells of a window that does not fill the core are all different. -/
theorem card_windowCells {start : Nat} (h : 2 * reach < n) :
    (windowCells n reach start).card = 2 * reach := by
  rw [windowCells, Finset.card_image_of_injOn, Finset.card_range]
  intro j hj k hk hjk
  have hlt := Finset.mem_range.1 hj
  have hlt' := Finset.mem_range.1 hk
  have hnonneg : ∀ i : Int, 0 ≤ i % (n : Int) := fun i => Int.emod_nonneg i (by omega)
  have hcells : ((start : Int) + (j - reach)) % (n : Int) = (start + (k - reach)) % (n : Int) := by
    rw [← Int.toNat_of_nonneg (hnonneg _), ← Int.toNat_of_nonneg (hnonneg (start + (k - reach)))]
    exact congrArg Nat.cast hjk
  -- whole laps lie between them, but the window is shorter than a lap
  have hlaps := Int.dvd_of_emod_eq_zero (Int.emod_eq_emod_iff_emod_sub_eq_zero.1 hcells)
  have hsame := Int.eq_zero_of_dvd_of_natAbs_lt_natAbs hlaps (by omega)
  omega

/-- Windows that fill the core have as many cells together. -/
theorem Filled.size_le (h : Filled n reach starts) : n ≤ starts.length * (2 * reach) := by
  have hsub : Finset.range n ⊆ starts.toFinset.biUnion (windowCells n reach) := by
    intro a ha
    obtain ⟨start, hmem, hin⟩ := h a (Finset.mem_range.1 ha)
    exact Finset.mem_biUnion.2 ⟨start, List.mem_toFinset.2 hmem, hin.mem_windowCells⟩
  calc n = (Finset.range n).card := (Finset.card_range n).symm
    _ ≤ (starts.toFinset.biUnion (windowCells n reach)).card := Finset.card_le_card hsub
    _ ≤ starts.toFinset.card * (2 * reach) :=
      Finset.card_biUnion_le_card_mul _ _ _ fun start _ => card_windowCells_le n reach start
    _ ≤ starts.length * (2 * reach) := Nat.mul_le_mul_right _ starts.toFinset_card_le

theorem inWindow_of_near {start a : Nat} (ha : a < n) (hlow : start ≤ a + reach)
    (hhigh : a < start + reach) : InWindow n reach start a := by
  refine ⟨(a : Int) - start, by omega, by omega, ?_⟩
  rw [add_sub_cancel, Int.emod_eq_of_lt (by omega) (by omega)]

/-- The window of the anchor begins at the end of the core. -/
theorem inWindow_anchor {a : Nat} (ha : a < n) (hlow : n ≤ a + reach) :
    InWindow n reach anchor a := by
  refine ⟨(a : Int) - n, by omega, by omega, ?_⟩
  show (a : Int) = ((0 : Nat) + ((a : Int) - n)) % (n : Int)
  rw [Int.natCast_zero, Int.zero_add, Int.sub_emod_right,
    Int.emod_eq_of_lt (by omega) (by omega)]

/-- The number of starts in `sparsest` behind the anchor. -/
def gaps (n reach : Nat) : Nat := (n - 1) / (2 * reach)

/-- The start with a number in `sparsest`. -/
def sparse (n reach i : Nat) : Nat := min (i * (2 * reach)) (n - reach - 1)

/-- Starts two reaches apart, as many as it takes to fill the core. -/
def sparsest (n reach : Nat) : List Nat := (List.range (gaps n reach + 1)).map (sparse n reach)

theorem length_sparsest (n reach : Nat) : (sparsest n reach).length = gaps n reach + 1 := by
  rw [sparsest, List.length_map, List.length_range]

theorem gaps_mul_lt (hpos : 0 < n) (reach : Nat) : gaps n reach * (2 * reach) < n := by
  have hle : gaps n reach * (2 * reach) ≤ n - 1 := Nat.div_mul_le_self (n - 1) (2 * reach)
  omega

theorem spread_sparsest (hpos : 0 < n) (reach : Nat) :
    Spread n reach [] (sparsest n reach) where
  lt := by
    intro a ha
    obtain ⟨i, -, rfl⟩ := List.mem_map.1 ha
    rw [sparse]
    omega
  outside := nofun
  pairwise := by
    rw [sparsest, List.pairwise_map]
    refine List.pairwise_lt_range.imp_of_mem ?_
    intro i j hi hj hlt
    have hstep : (i + 1) * (2 * reach) ≤ j * (2 * reach) := Nat.mul_le_mul_right _ hlt
    have hlast : j * (2 * reach) ≤ gaps n reach * (2 * reach) :=
      Nat.mul_le_mul_right _ (Nat.le_of_lt_succ (List.mem_range.1 hj))
    have hroom := gaps_mul_lt hpos reach
    rw [Nat.succ_mul] at hstep
    rw [not_inWindow_iff_of_le (by rw [sparse, sparse]; omega) (by rw [sparse]; omega), sparse,
      sparse]
    omega

theorem filled_sparsest (hreach : 0 < reach) : Filled n reach (sparsest n reach) := by
  intro a ha
  by_cases hend : n ≤ a + reach
  · refine ⟨anchor, List.mem_map.2 ⟨0, List.mem_range.2 (Nat.succ_pos _), ?_⟩,
      inWindow_anchor ha hend⟩
    rw [sparse, Nat.zero_mul, Nat.zero_min]
    rfl
  · -- the start whose window would hold the cell if it were not drawn back
    have hwidth : 0 < 2 * reach := by omega
    have hlow : (a + reach) / (2 * reach) * (2 * reach) ≤ a + reach :=
      Nat.div_mul_le_self _ _
    have hhigh : a + reach < (a + reach) / (2 * reach) * (2 * reach) + 2 * reach :=
      Nat.lt_div_mul_add hwidth
    have hindex : (a + reach) / (2 * reach) ≤ gaps n reach :=
      Nat.div_le_div_right (by omega)
    refine ⟨sparse n reach ((a + reach) / (2 * reach)),
      List.mem_map.2 ⟨_, List.mem_range.2 (Nat.lt_succ_of_le hindex), rfl⟩, ?_⟩
    exact inWindow_of_near ha (by rw [sparse]; omega) (by rw [sparse]; omega)

end NibbleArena.Placement
