import NibbleArena.Proofs.Placement.Apart

/-! # Room — when a placement fails

    A placement fails at an agent for which no cell is free, and says which one it is.
    The first agent needs no free cell.  If the core is longer than a whole window,
    the window of the first start leaves the cell at its end free, so the second agent
    finds a cell as well, whatever is drawn. -/

namespace NibbleArena.Placement

open Reservations

variable {σ : Type} [Chooser σ]

theorem eq_nil_of_drawCell {cells : List Nat} {s : σ} (h : (drawCell cells s).1 = none) :
    cells = [] := by
  cases cells with
  | nil => rfl
  | cons first rest => exact nomatch h

/-- A run of choices fails at one of its agents, and at the next one only if no cell
    is free. -/
theorem placeRest_error {reach count agent : Nat} {r : Reservations} {s : σ} {f : Fault}
    (h : (placeRest reach count agent r s).1 = .error f) :
    ∃ i, agent ≤ i ∧ i < agent + count ∧ f = crowded i r.size ∧ (i = agent → r.free = []) := by
  induction count generalizing agent r s with
  | zero => cases h
  | succ count ih =>
      rw [placeRest] at h
      rcases hdraw : drawCell r.free s with ⟨_ | start, s'⟩
      · rw [hdraw] at h
        cases h
        refine ⟨agent, Nat.le_refl _, by omega, rfl, ?_⟩
        intro _
        exact eq_nil_of_drawCell (congrArg Prod.fst hdraw)
      · rw [hdraw] at h
        rcases hrest : placeRest reach count (agent + 1) (r.reserve start reach) s'
          with ⟨g | later, s''⟩
        · simp only [hrest] at h
          cases h
          obtain ⟨i, hle, hlt, hfault, -⟩ := ih (congrArg Prod.fst hrest)
          rw [size_reserve] at hfault
          exact ⟨i, by omega, by omega, hfault, by omega⟩
        · simp only [hrest] at h
          cases h

theorem Covers.mem_free_of_outside {n reach a : Nat} {r : Reservations} {starts : List Nat}
    (hc : Covers n reach r starts) (ha : a < n)
    (hout : ∀ start ∈ starts, ¬InWindow n reach start a) : a ∈ r.free := by
  refine Reservations.mem_free.2 ⟨hc.size_eq.symm ▸ ha, ?_⟩
  intro htaken
  obtain ⟨start, hmem, hin⟩ := (hc.isTaken_iff a ha).1 htaken
  exact hout start hmem hin

/-- The end of the first window is free if the core is longer than a window. -/
theorem mem_free_anchor {n reach : Nat} (hroom : 2 * reach < n) :
    reach ∈ ((Reservations.empty n).reserve anchor reach).free := by
  refine ((covers_empty n reach).reserve anchor).mem_free_of_outside (by omega) ?_
  intro start hstart
  obtain rfl : start = anchor := List.mem_singleton.1 hstart
  have hdistance : distance n anchor reach = reach := by
    show (((reach : Int) - (0 : Nat)) % (n : Int)).toNat = reach
    rw [Int.natCast_zero, Int.sub_zero, Int.emod_eq_of_lt (by omega) (by omega)]
    exact Int.toNat_natCast reach
  rw [not_inWindow_iff (by omega), Apart, hdistance]
  omega

/-- On a core that is longer than a whole window, the choices fail at the third agent or at
    a later one. -/
theorem placeAll_error {n count separation maxLength : Nat} {s : σ} {f : Fault}
    (hroom : 2 * reach separation maxLength < n)
    (h : (placeAll n count separation maxLength s).1 = .error f) :
    ∃ i, 2 ≤ i ∧ i < count ∧ f = crowded i n := by
  rw [placeAll.eq_def] at h
  cases count with
  | zero => cases h
  | succ count =>
      rcases hrest : placeRest (reach separation maxLength) count 1
        ((Reservations.empty n).reserve anchor (reach separation maxLength)) s
        with ⟨g | later, s'⟩
      · simp only [hrest] at h
        cases h
        obtain ⟨i, hle, hlt, hfault, hfree⟩ := placeRest_error (congrArg Prod.fst hrest)
        have hmem := mem_free_anchor hroom
        have hne : i ≠ 1 := by
          intro heq
          rw [hfree heq] at hmem
          exact absurd hmem List.not_mem_nil
        have hsize : (Reservations.empty n).size = n := Array.size_replicate
        rw [size_reserve, hsize] at hfault
        exact ⟨i, by omega, by omega, hfault⟩
      · simp only [hrest] at h
        cases h

/-- So does a placement whose lists find their memory. -/
theorem place_error {n count separation maxLength : Nat} {s : σ} {e : Failure}
    (hroom : 2 * reach separation maxLength < n) (hfits : Fits n count)
    (h : (place n count separation maxLength s).1 = .error e) :
    ∃ i, 2 ≤ i ∧ i < count ∧ e = crowded i n := by
  obtain ⟨f, rfl, hchosen⟩ := (place_eq_error_iff (by omega) hfits).1 (Prod.ext h rfl)
  obtain ⟨i, hle, hlt, rfl⟩ := placeAll_error hroom (congrArg Prod.fst hchosen)
  exact ⟨i, hle, hlt, rfl⟩

end NibbleArena.Placement
