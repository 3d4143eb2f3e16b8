import Mathlib.Algebra.Group.Nat.Defs
import NibbleArena.Draw.Words
import NibbleArena.Proofs.Placement.Window

/-! # Starts keep apart — the safety of a placement

    Whatever is drawn, the starts of a placement that succeeds keep apart: none
    lies in the window of an earlier one.

    A placement whose lists find their memory is a run of choices
    (`place_of_fits`), and any other one crashes before it.

    The invariant is `Covers`: the taken cells are the union of the windows of
    the starts chosen so far.  A start is drawn from the cells that are not
    taken, hence outside of all of these windows, and its own reservation keeps
    the invariant.  The run of the choices is an induction on how many agents are
    left to place. -/

namespace NibbleArena.Placement

open Reservations

variable {σ : Type} [Chooser σ]

/-! ## The lists of a placement -/

theorem fits_iff {n count : Nat} : Fits n count ↔ n < 2 ^ 63 ∧ count < 2 ^ 60 :=
  and_congr Memory.holds_one_iff Memory.holds_word_iff

/-- The lists of fewer agents find their memory as well. -/
theorem Fits.mono {n count agent : Nat} (h : Fits n count) (hle : agent ≤ count) :
    Fits n agent := by
  rw [fits_iff] at h ⊢
  exact ⟨h.1, Nat.lt_of_le_of_lt hle h.2⟩

theorem place_of_fits {n count : Nat} (hn : 0 < n) (hfits : Fits n count)
    (separation maxLength : Nat) (s : σ) :
    place n count separation maxLength s
      = (placeAll n count separation maxLength s).map (Except.mapError .fault) id := by
  rw [place, if_neg (Nat.ne_of_gt hn), if_pos hfits]
  rcases placeAll n count separation maxLength s with ⟨f | starts, s'⟩
  · rfl
  · rfl

/-- A placement with a list that is too long has drawn nothing. -/
theorem place_of_not_fits {n count : Nat} (hn : 0 < n) (hfits : ¬Fits n count)
    (separation maxLength : Nat) (s : σ) :
    place n count separation maxLength s = (.error (.crash .capacityOverflow), s) := by
  rw [place, if_neg (Nat.ne_of_gt hn), if_neg hfits]

theorem place_eq_ok_iff {n count separation maxLength : Nat} {s s' : σ} {starts : List Nat} :
    place n count separation maxLength s = (.ok starts, s')
      ↔ 0 < n ∧ Fits n count ∧ placeAll n count separation maxLength s = (.ok starts, s') := by
  by_cases hzero : n = 0
  · rw [place, if_pos hzero]
    exact iff_of_false nofun fun h => Nat.ne_of_gt h.1 hzero
  · have hn : 0 < n := Nat.pos_of_ne_zero hzero
    by_cases hfits : Fits n count
    · rw [place_of_fits hn hfits]
      rcases placeAll n count separation maxLength s with ⟨f | starts', s''⟩
      · exact iff_of_false nofun fun h => nomatch h.2.2
      · constructor
        · rintro ⟨⟩
          exact ⟨hn, hfits, rfl⟩
        · rintro ⟨-, -, ⟨⟩⟩
          rfl
    · rw [place_of_not_fits hn hfits]
      exact iff_of_false nofun fun h => hfits h.2.1

/-- A placement whose lists find their memory fails just by a fault of its choices. -/
theorem place_eq_error_iff {n count separation maxLength : Nat} {s s' : σ} {e : Failure}
    (hn : 0 < n) (hfits : Fits n count) :
    place n count separation maxLength s = (.error e, s')
      ↔ ∃ f, e = .fault f ∧ placeAll n count separation maxLength s = (.error f, s') := by
  rw [place_of_fits hn hfits]
  rcases placeAll n count separation maxLength s with ⟨f | starts, s''⟩
  · constructor
    · rintro ⟨⟩
      exact ⟨f, rfl, rfl⟩
    · rintro ⟨_, rfl, ⟨⟩⟩
      rfl
  · exact iff_of_false nofun fun ⟨_, _, h⟩ => nomatch h

/-! ## The run of the choices -/

/-- The taken cells of a core of `n` cells are those in the windows of the
    starts. -/
structure Covers (n reach : Nat) (r : Reservations) (starts : List Nat) : Prop where
  size_eq : r.size = n
  isTaken_iff : ∀ a < n, r.isTaken a = true ↔ ∃ start ∈ starts, InWindow n reach start a

/-- A core with nothing taken covers no starts. -/
theorem covers_empty (n reach : Nat) : Covers n reach (Reservations.empty n) [] where
  size_eq := Array.size_replicate
  isTaken_iff := by
    intro a ha
    have hfree : (Reservations.empty n).isTaken a = false := by
      show (Array.replicate n false).getD a true = false
      rw [Array.getD_eq_getD_getElem?, Array.getElem?_replicate, if_pos ha]
      rfl
    simp [hfree]

/-- A reservation covers one start more. -/
theorem Covers.reserve {n reach : Nat} {r : Reservations} {starts : List Nat}
    (hc : Covers n reach r starts) (start : Nat) :
    Covers n reach (r.reserve start reach) (start :: starts) where
  size_eq := (size_reserve r start reach).trans hc.size_eq
  isTaken_iff := by
    intro a ha
    have hlt : a < r.size := hc.size_eq ▸ ha
    rw [isTaken_reserve hlt, hc.isTaken_iff a ha, hc.size_eq, or_comm]
    simp only [List.mem_cons, exists_eq_or_imp]

/-- A free cell lies in the core and outside of all windows. -/
theorem Covers.mem_free {n reach : Nat} {r : Reservations} {starts : List Nat}
    (hc : Covers n reach r starts) {a : Nat} (ha : a ∈ r.free) :
    a < n ∧ ∀ start ∈ starts, ¬ InWindow n reach start a := by
  obtain ⟨hlt, hfree⟩ := Reservations.mem_free.1 ha
  rw [hc.size_eq] at hlt
  refine ⟨hlt, ?_⟩
  intro start hmem hin
  exact hfree ((hc.isTaken_iff a hlt).2 ⟨start, hmem, hin⟩)

/-- A drawn cell is one of those it was drawn from. -/
theorem mem_of_drawCell {cells : List Nat} {s : σ} {a : Nat}
    (h : (drawCell cells s).1 = some a) : a ∈ cells := by
  cases cells with
  | nil => exact nomatch h
  | cons first rest =>
      have hget : (first :: rest).get (Chooser.choose (rest.length + 1) (Nat.succ_pos _) s).1 = a :=
        Option.some.inj h
      rw [← hget]
      exact List.get_mem _ _

/-- The starts that are placed behind earlier ones: they lie in the core, outside
    of the windows of the earlier ones, and each outside of the windows of those
    before it. -/
structure Spread (n reach : Nat) (earlier starts : List Nat) : Prop where
  lt : ∀ a ∈ starts, a < n
  outside : ∀ start ∈ earlier, ∀ a ∈ starts, ¬ InWindow n reach start a
  pairwise : starts.Pairwise fun a b => ¬ InWindow n reach a b

/-- One start more in front of those that were placed behind it. -/
theorem Spread.cons {n reach start : Nat} {earlier starts : List Nat} (hlt : start < n)
    (hout : ∀ s ∈ earlier, ¬ InWindow n reach s start)
    (hs : Spread n reach (start :: earlier) starts) :
    Spread n reach earlier (start :: starts) where
  lt := List.forall_mem_cons.2 ⟨hlt, hs.lt⟩
  outside := by
    intro s hmem
    exact List.forall_mem_cons.2 ⟨hout s hmem, hs.outside s (List.mem_cons_of_mem _ hmem)⟩
  pairwise := List.Pairwise.cons (hs.outside start List.mem_cons_self) hs.pairwise

/-- Starts that were placed are a reach from each other, whichever comes first. -/
theorem Spread.le_distance {n reach : Nat} {earlier starts : List Nat}
    (hs : Spread n reach earlier starts) {i j a b : Nat} (hij : i ≠ j)
    (ha : starts[i]? = some a) (hb : starts[j]? = some b) : reach ≤ distance n a b := by
  obtain ⟨hi, rfl⟩ := List.getElem?_eq_some_iff.1 ha
  obtain ⟨hj, rfl⟩ := List.getElem?_eq_some_iff.1 hb
  have hordered := List.pairwise_iff_getElem.1 hs.pairwise
  rcases Nat.lt_or_gt_of_ne hij with hlt | hgt
  · have hapart := (not_inWindow_iff (hs.lt _ (List.getElem_mem hj))).1 (hordered i j hi hj hlt)
    exact hapart.1
  · have hapart := (not_inWindow_iff (hs.lt _ (List.getElem_mem hi))).1 (hordered j i hj hi hgt)
    exact (Nat.le_min.1 (le_circularDistance hapart)).2

/-- What a run of choices gives when it succeeds. -/
theorem placeRest_spread {n reach count agent : Nat} {r : Reservations} {earlier : List Nat}
    {s : σ} {starts : List Nat} (hc : Covers n reach r earlier)
    (h : (placeRest reach count agent r s).1 = .ok starts) :
    starts.length = count ∧ Spread n reach earlier starts := by
  induction count generalizing agent r earlier s starts with
  | zero =>
      cases h
      exact ⟨rfl, ⟨nofun, nofun, List.Pairwise.nil⟩⟩
  | succ count ih =>
      rw [placeRest] at h
      rcases hdraw : drawCell r.free s with ⟨_ | start, s'⟩
      · rw [hdraw] at h
        exact nomatch h
      · have hmem : start ∈ r.free := mem_of_drawCell (congrArg Prod.fst hdraw)
        obtain ⟨hlt, hout⟩ := hc.mem_free hmem
        rw [hdraw] at h
        rcases hrest : placeRest reach count (agent + 1) (r.reserve start reach) s'
          with ⟨f | later, s''⟩
        · simp only [hrest] at h
          exact nomatch h
        · simp only [hrest] at h
          obtain ⟨hlen, hspread⟩ := ih (hc.reserve start) (congrArg Prod.fst hrest)
          cases h
          exact ⟨congrArg (· + 1) hlen, hspread.cons hlt hout⟩

/-- What the choices give when they succeed. -/
theorem placeAll_spread {n count separation maxLength : Nat} {s : σ} {starts : List Nat}
    (hn : 0 < n) (h : (placeAll n count separation maxLength s).1 = .ok starts) :
    starts.length = count ∧ (0 < count → starts[0]? = some anchor)
      ∧ Spread n (reach separation maxLength) [] starts := by
  rw [placeAll.eq_def] at h
  cases count with
  | zero =>
      cases h
      exact ⟨rfl, nofun, ⟨nofun, nofun, List.Pairwise.nil⟩⟩
  | succ count =>
      rcases hrest : placeRest (reach separation maxLength) count 1
        ((Reservations.empty n).reserve anchor (reach separation maxLength)) s
        with ⟨f | later, s'⟩
      · simp only [hrest] at h
        exact nomatch h
      · simp only [hrest] at h
        have hcovers := (covers_empty n (reach separation maxLength)).reserve anchor
        obtain ⟨hlen, hspread⟩ := placeRest_spread hcovers (congrArg Prod.fst hrest)
        cases h
        exact ⟨congrArg (· + 1) hlen, fun _ => rfl, hspread.cons hn nofun⟩

/-- What a placement gives when it succeeds. -/
theorem place_spread {n count separation maxLength : Nat} {s : σ} {starts : List Nat}
    (h : (place n count separation maxLength s).1 = .ok starts) :
    starts.length = count ∧ (0 < count → starts[0]? = some anchor)
      ∧ Spread n (reach separation maxLength) [] starts := by
  obtain ⟨hn, -, hplaced⟩ := place_eq_ok_iff.1 (Prod.ext h rfl)
  exact placeAll_spread hn (congrArg Prod.fst hplaced)

/-- **Placement safety**: whatever is drawn, a placement that succeeds gives one
    start to each agent, the first at zero, and every start lies outside of the
    window of every earlier one, for the reach without any saturation. -/
theorem place_apart {n count separation maxLength : Nat} {s : σ} {starts : List Nat}
    (hn : n < 2 ^ 63) (h : (place n count separation maxLength s).1 = .ok starts) :
    starts.length = count ∧ (∀ a ∈ starts, a < n) ∧ (1 ≤ count → starts[0]? = some 0)
      ∧ ∀ (i j : Nat) (hij : i < j) (hj : j < starts.length),
          Apart n (separation + maxLength) starts[i] starts[j]
            ∧ ¬ InWindow n (separation + maxLength) starts[i] starts[j]
            ∧ separation + maxLength ≤ circularDistance n starts[i] starts[j] := by
  obtain ⟨hlen, hfirst, hspread⟩ := place_spread h
  refine ⟨hlen, hspread.lt, hfirst, ?_⟩
  intro i j hij hj
  have hlt : starts[j] < n := hspread.lt _ (List.getElem_mem hj)
  have hword : n ≤ Word.max64 := Nat.le_of_lt (Nat.lt_of_lt_of_le hn (by decide))
  have hout : ¬ InWindow n (separation + maxLength) starts[i] starts[j] := by
    intro hin
    exact List.pairwise_iff_getElem.1 hspread.pairwise i j (Nat.lt_trans hij hj) hj hij
      ((inWindow_saturated_iff hword hlt).2 hin)
  have hapart := (not_inWindow_iff hlt).1 hout
  exact ⟨hapart, hout, le_circularDistance hapart⟩

/-- Three starts on a core of 30 cells, of which the last is drawn behind the
    window that wraps. -/
theorem place_apart_three :
    (30 : Nat) < 2 ^ 63
      ∧ (place 30 3 2 3 (ListedWords.ofList [0, 4008636143])).1 = .ok [0, 5, 24]
      ∧ Apart 30 5 5 24 :=
  have hn : (30 : Nat) < 2 ^ 63 := by decide
  have h : (place 30 3 2 3 (ListedWords.ofList [0, 4008636143])).1 = .ok [0, 5, 24] := rfl
  ⟨hn, h, ((place_apart hn h).2.2.2 1 2 (by decide) (by decide)).1⟩

end NibbleArena.Placement
