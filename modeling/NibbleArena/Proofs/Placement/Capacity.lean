import NibbleArena.Proofs.Placement.Course
import NibbleArena.Proofs.Placement.Packing

/-! # Capacity — when a placement can and when it must succeed

    Of the draws that are possible, some place all agents if `count` reaches are
    fewer cells than the core has: the densest starts show it.  All of them do if even
    the windows of all but one agent, laid side by side, are fewer cells: with more
    agents than that, the sparsest starts come to fill the core before the last agent
    has its turn.  In between it depends on the draws, and the agent that a failure
    names is the first one for whom the earlier agents have left nothing.

    All of that is about fewer than `2 ^ 60` agents.  The starts of more agents are a
    list that no memory holds, and the placement crashes before it draws. -/

namespace NibbleArena.Placement

open Reservations

variable {σ : Type} [Chooser σ] {n radius count separation maxLength : Nat} {s : σ}
  {starts : List Nat}

/-- A saturated reach makes no difference to how many of it fit in a core whose size is
    a word. -/
theorem mul_reach_lt_iff {k : Nat} (hk : 0 < k) (hn : n ≤ Word.max64) :
    k * reach separation maxLength < n ↔ k * (separation + maxLength) < n := by
  show k * min (separation + maxLength) Word.max64 < n ↔ _
  rcases Nat.le_total (separation + maxLength) Word.max64 with hle | hle
  · rw [Nat.min_eq_left hle]
  · rw [Nat.min_eq_right hle]
    have htop : Word.max64 ≤ k * Word.max64 := Nat.le_mul_of_pos_left _ hk
    have hmore : Word.max64 ≤ k * (separation + maxLength) :=
      hle.trans (Nat.le_mul_of_pos_left _ hk)
    omega

theorem filled_saturated_iff (hn : n ≤ Word.max64) :
    Filled n (reach separation maxLength) starts
      ↔ Filled n (separation + maxLength) starts := by
  refine forall₂_congr fun a ha => exists_congr fun start => and_congr_right fun _ => ?_
  exact inWindow_saturated_iff hn ha

theorem free_eq_nil_iff_filled :
    (around n radius starts).free = [] ↔ Filled n radius starts :=
  (covers_around n radius starts).free_eq_nil_iff

/-- The starts before one that was placed have left its cell. -/
theorem Spread.not_filled_take (hs : Spread n radius [] starts) {i : Nat}
    (hi : i < starts.length) : ¬Filled n radius (starts.take i) := by
  intro hfilled
  obtain ⟨start, hmem, hin⟩ := hfilled starts[i] (hs.lt _ (List.getElem_mem hi))
  obtain ⟨j, hj, rfl⟩ := List.mem_take_iff_getElem.1 hmem
  have hlt : j < i := (Nat.lt_min.1 hj).1
  exact List.pairwise_iff_getElem.1 hs.pairwise j i (Nat.lt_trans hlt hi) hi hlt hin

/-! ## Placements that succeed -/

/-- A state that places certain starts, if there is any choice at all. -/
theorem exists_place_of_spread (hfull : Chooser.Full σ) (hn : n < UInt32.size)
    (hfits : Fits n starts.length) (hfirst : starts[0]? = some anchor)
    (hs : Spread n (reach separation maxLength) [] starts) :
    ∃ s : σ, (place n starts.length separation maxLength s).1 = .ok starts := by
  obtain ⟨script, hsmall, hplaced⟩ := exists_script_of_spread (σ := σ) hn hfits hfirst hs
  obtain ⟨s, hmakes⟩ := hfull script hsmall
  exact ⟨s, hplaced s hmakes⟩

theorem length_mul_reach_lt (hcount : 2 ≤ count)
    (h : (place n count separation maxLength s).1 = .ok starts) :
    count * reach separation maxLength < n := by
  obtain ⟨rfl, hfirst, hspread⟩ := place_spread h
  exact hspread.length_mul_lt (hfirst (by omega)) hcount

theorem exists_place (hfull : Chooser.Full σ) (hn : n < UInt32.size) (hfits : Fits n count)
    (hcount : 1 ≤ count) (h : count * reach separation maxLength < n) :
    ∃ (s : σ) (starts : List Nat), (place n count separation maxLength s).1 = .ok starts := by
  obtain ⟨k, rfl⟩ := Nat.exists_eq_add_of_le' hcount
  have hfirst : (densest (k + 1) (reach separation maxLength))[0]? = some anchor := by
    rw [densest, List.range_succ_eq_map]
    exact congrArg some (Nat.zero_mul _)
  have hfits' : Fits n (densest (k + 1) (reach separation maxLength)).length := by
    rw [length_densest]
    exact hfits
  obtain ⟨s, hplaced⟩ := exists_place_of_spread hfull hn hfits' hfirst (spread_densest h)
  rw [length_densest] at hplaced
  exact ⟨s, _, hplaced⟩

/-! ## Placements that fail -/

/-- What a failed placement says: the agents before the one it names fill the core. -/
theorem exists_filled_of_error {e : Failure} (hpos : 0 < n) (hfits : Fits n count)
    (h : (place n count separation maxLength s).1 = .error e) :
    ∃ agent starts, 1 ≤ agent ∧ agent < count ∧ e = crowded agent n
      ∧ (place n agent separation maxLength s).1 = .ok starts
      ∧ Filled n (reach separation maxLength) starts := by
  obtain ⟨f, rfl, hchosen⟩ := (place_eq_error_iff hpos hfits).1 (Prod.ext h rfl)
  obtain ⟨agent, starts, hagent, hlt, hplaced, hfree, rfl⟩ := placeAll_eq_error_iff.1 hchosen
  have hbefore := place_eq_ok_iff.2 ⟨hpos, hfits.mono (Nat.le_of_lt hlt), hplaced⟩
  exact ⟨agent, starts, hagent, hlt, rfl, congrArg Prod.fst hbefore,
    free_eq_nil_iff_filled.1 hfree⟩

/-- Once the core is filled, no further agent is placed. -/
theorem error_of_filled {agent : Nat} (hfits : Fits n count) (hagent : 1 ≤ agent)
    (hlt : agent < count) (h : (place n agent separation maxLength s).1 = .ok starts)
    (hfilled : Filled n (reach separation maxLength) starts) :
    (place n count separation maxLength s).1 = .error (crowded agent n) := by
  obtain ⟨hpos, -, hplaced⟩ := place_eq_ok_iff.1 (Prod.ext h rfl)
  have hfails := placeAll_eq_error_iff.2
    ⟨agent, starts, hagent, hlt, hplaced, free_eq_nil_iff_filled.2 hfilled, rfl⟩
  exact congrArg Prod.fst ((place_eq_error_iff hpos hfits).2 ⟨_, rfl, hfails⟩)

theorem place_succeeds (hpos : 0 < n) (hfits : Fits n count)
    (h : (count - 1) * (2 * reach separation maxLength) < n) (s : σ) :
    ∃ starts, (place n count separation maxLength s).1 = .ok starts := by
  rcases hplaced : (place n count separation maxLength s).1 with e | starts
  · obtain ⟨agent, starts, -, hlt, -, hbefore, hfilled⟩ :=
      exists_filled_of_error hpos hfits hplaced
    have hroom : n ≤ agent * (2 * reach separation maxLength) := by
      rw [← (place_spread hbefore).1]
      exact hfilled.size_le
    have hmost : agent * (2 * reach separation maxLength)
        ≤ (count - 1) * (2 * reach separation maxLength) :=
      Nat.mul_le_mul_right _ (Nat.le_sub_one_of_lt hlt)
    omega
  · exact ⟨starts, rfl⟩

theorem exists_place_error (hfull : Chooser.Full σ) (hpos : 0 < n) (hn : n < UInt32.size)
    (hfits : Fits n count) (h : n ≤ (count - 1) * (2 * reach separation maxLength)) :
    ∃ (s : σ) (f : Fault), (place n count separation maxLength s).1 = .error f := by
  -- windows of no cells never fill a core
  have hreach : 0 < reach separation maxLength := by
    refine Nat.pos_of_ne_zero ?_
    intro hzero
    rw [hzero] at h
    omega
  have hfirst : (sparsest n (reach separation maxLength))[0]? = some anchor := by
    rw [sparsest, List.range_succ_eq_map]
    exact congrArg some (by rw [sparse, Nat.zero_mul, Nat.zero_min]; rfl)
  have hgaps : gaps n (reach separation maxLength) < count - 1 :=
    (Nat.div_lt_iff_lt_mul (by omega)).2 (by omega)
  have hfits' : Fits n (sparsest n (reach separation maxLength)).length := by
    rw [length_sparsest]
    exact hfits.mono (by omega)
  obtain ⟨s, hplaced⟩ := exists_place_of_spread hfull hn hfits' hfirst (spread_sparsest hpos _)
  rw [length_sparsest] at hplaced
  exact ⟨s, _, error_of_filled hfits (Nat.succ_pos _) (by omega) hplaced
    (filled_sparsest hreach)⟩

/-- **Sharp capacity** of a placement, for the reach without any saturation and a source
    that can make all choices.  With fewer than `2 ^ 60` agents, some draws place all of
    them iff as many reaches are shorter than the core; all draws do iff as many windows,
    less one, are.  A failure names the first agent for whom the windows of those before
    fill the core.  With more agents nothing is drawn: the list of their starts is longer
    than any memory, and every placement crashes. -/
theorem place_capacity (hfull : Chooser.Full σ) (separation maxLength : Nat) (hpos : 1 ≤ n)
    (hn : n < 2 ^ 32) (hcount : 2 ≤ count) :
    (count < 2 ^ 60 →
      ((∃ (s : σ) (starts : List Nat), (place n count separation maxLength s).1 = .ok starts)
          ↔ count * (separation + maxLength) < n)
        ∧ ((∀ s : σ, ∃ starts, (place n count separation maxLength s).1 = .ok starts)
          ↔ 2 * (separation + maxLength) * (count - 1) < n)
        ∧ ∀ (s : σ) (e : Failure), (place n count separation maxLength s).1 = .error e →
            ∃ agent starts f, 1 ≤ agent ∧ agent < count ∧ e = .fault f ∧ f = crowded agent n
              ∧ f.kind = .placementFailed ∧ ("agent", toString (agent + 1)) ∈ f.context
              ∧ (place n agent separation maxLength s).1 = .ok starts
              ∧ Filled n (separation + maxLength) starts
              ∧ ∀ earlier < agent, ¬Filled n (separation + maxLength) (starts.take earlier))
    ∧ (2 ^ 60 ≤ count → ∀ s : σ,
      place n count separation maxLength s = (.error (.crash .capacityOverflow), s)) := by
  have hword : n ≤ Word.max64 := Nat.le_of_lt (Nat.lt_of_lt_of_le hn (by decide))
  constructor
  case right =>
    intro hmany s
    refine place_of_not_fits hpos ?_ separation maxLength s
    rw [fits_iff]
    omega
  intro hmost
  have hfits : Fits n count := fits_iff.2 ⟨Nat.lt_trans hn (by decide), hmost⟩
  refine ⟨?_, ?_, ?_⟩
  · rw [← mul_reach_lt_iff (by omega) hword]
    constructor
    · rintro ⟨s, starts, hplaced⟩
      exact length_mul_reach_lt hcount hplaced
    · exact exists_place hfull hn hfits (by omega)
  · have hwindows : 2 * (separation + maxLength) * (count - 1)
        = (count - 1) * 2 * (separation + maxLength) := by
      rw [Nat.mul_comm, Nat.mul_assoc]
    rw [hwindows, ← mul_reach_lt_iff (by omega) hword, Nat.mul_assoc]
    constructor
    · intro hall
      by_contra hroom
      obtain ⟨s, f, hfails⟩ := exists_place_error hfull hpos hn hfits (Nat.le_of_not_lt hroom)
      obtain ⟨starts, hplaced⟩ := hall s
      rw [hfails] at hplaced
      cases hplaced
    · exact place_succeeds hpos hfits
  · intro s e hfails
    obtain ⟨agent, starts, hagent, hlt, rfl, hplaced, hfilled⟩ :=
      exists_filled_of_error hpos hfits hfails
    obtain ⟨hlength, -, hspread⟩ := place_spread hplaced
    refine ⟨agent, starts, _, hagent, hlt, rfl, rfl, rfl, List.mem_cons_self, hplaced,
      (filled_saturated_iff hword).1 hfilled, ?_⟩
    intro earlier hearlier hbefore
    exact hspread.not_filled_take (hlength.symm ▸ hearlier)
      ((filled_saturated_iff hword).2 hbefore)

/-- On a core of 18 cells, three agents with a reach of five find room by some draws, but
    not if the second one is placed in the middle of what the first has left.  With
    `2 ^ 60` agents nothing is drawn. -/
theorem place_capacity_three :
    (1 : Nat) ≤ 18 ∧ (18 : Nat) < 2 ^ 32 ∧ (2 : Nat) ≤ 3 ∧ Chooser.Full ListedWords
      ∧ (∃ (s : ListedWords) (starts : List Nat), (place 18 3 2 3 s).1 = .ok starts)
      ∧ ¬(∀ s : ListedWords, ∃ starts, (place 18 3 2 3 s).1 = .ok starts)
      ∧ (place 18 3 2 3 (ListedWords.ofList [2684354560])).1 = .error (crowded 2 18)
      ∧ (∃ agent starts f, Failure.fault (crowded 2 18) = .fault f ∧ f = crowded agent 18
          ∧ Filled 18 5 starts
          ∧ (place 18 agent 2 3 (ListedWords.ofList [2684354560])).1 = .ok starts)
      ∧ ∀ s : ListedWords, place 18 (2 ^ 60) 2 3 s = (.error (.crash .capacityOverflow), s) := by
  have hfails : (place 18 3 2 3 (ListedWords.ofList [2684354560])).1 = .error (crowded 2 18) := rfl
  obtain ⟨hfew, -⟩ := place_capacity ListedWords.full 2 3
    (show 1 ≤ 18 by decide) (by decide) (show 2 ≤ 3 by decide)
  obtain ⟨-, hmany⟩ := place_capacity ListedWords.full 2 3
    (show 1 ≤ 18 by decide) (by decide) (show 2 ≤ 2 ^ 60 by decide)
  obtain ⟨hsome, hall, hnames⟩ := hfew (by decide)
  refine ⟨by decide, by decide, by decide, ListedWords.full, hsome.2 (by decide), ?_, hfails, ?_,
    hmany (by decide)⟩
  · exact fun h => absurd (hall.1 h) (by decide)
  · obtain ⟨agent, starts, f, -, -, he, hf, -, -, hplaced, hfilled, -⟩ := hnames _ _ hfails
    exact ⟨agent, starts, f, he, hf, hfilled, hplaced⟩

/-- The bound on the agents is needed.  A reach of no cells leaves room for `2 ^ 60` agents
    on a core of ten cells, but none of their placements succeeds; and where the first
    window fills the core, the second agent is not named. -/
theorem place_capacity_unheld :
    2 ≤ 2 ^ 60 ∧ 2 ^ 60 * (0 + 0) < 10
      ∧ (¬∃ (s : ListedWords) (starts : List Nat), (place 10 (2 ^ 60) 0 0 s).1 = .ok starts)
      ∧ (place 10 1 0 5 (ListedWords.ofList [])).1 = .ok [0] ∧ Filled 10 (0 + 5) [0]
      ∧ (place 10 (2 ^ 60) 0 5 (ListedWords.ofList [])).1 ≠ .error (crowded 1 10)
      ∧ ∀ f : Fault, f.kind = .placementFailed →
          (place 10 (2 ^ 60) 0 5 (ListedWords.ofList [])).1 ≠ .error f := by
  have hcrash : ∀ (maxLength : Nat) (s : ListedWords),
      place 10 (2 ^ 60) 0 maxLength s = (.error (.crash .capacityOverflow), s) := by
    intro maxLength s
    exact place_of_not_fits (by decide) (by decide) 0 maxLength s
  have hfault : ∀ f : Fault, (place 10 (2 ^ 60) 0 5 (ListedWords.ofList [])).1 ≠ .error f := by
    intro f
    rw [hcrash]
    exact nofun
  refine ⟨by decide, by decide, ?_, rfl, ?_, hfault _, fun f _ => hfault f⟩
  · rintro ⟨s, starts, hplaced⟩
    rw [hcrash] at hplaced
    cases hplaced
  · exact free_eq_nil_iff_filled.1 (by decide)

end NibbleArena.Placement
