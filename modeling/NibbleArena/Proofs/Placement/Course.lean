import NibbleArena.Proofs.Draw.Chances
import NibbleArena.Proofs.Placement.Room

/-! # The course of a placement — start by start

    `Places` follows the draws of a placement: from some reservations and a state of the
    source, these starts are drawn one after the other, each from the cells that are
    free around the ones before it, and this state is left.  Every placement takes such
    a course, to its end or up to an agent for which nothing is free
    (`exists_places`), and what a placement gives can be read off the course
    (`placeRest_of_places`).

    Where the source can make any choices, every sequence of starts that keep outside
    of the windows of earlier ones is the course of some state: a start is one of the
    free cells, so it is an option of its draw (`exists_script`). -/

namespace NibbleArena

namespace Reservations

/-- Takes the windows around all starts. -/
def reserveAll (r : Reservations) (starts : List Nat) (reach : Nat) : Reservations :=
  starts.foldl (fun r a => r.reserve a reach) r

/-- The reservations behind some starts. -/
def around (n reach : Nat) (starts : List Nat) : Reservations :=
  (empty n).reserveAll starts reach

theorem nodup_free (r : Reservations) : r.free.Nodup := List.nodup_range.filter _

theorem length_free_le (r : Reservations) : r.free.length ≤ r.size := by
  have hle := List.length_filter_le (fun a => !r.isTaken a) (List.range r.size)
  rw [List.length_range] at hle
  exact hle

end Reservations

namespace Placement

open Reservations

variable {σ : Type} [Chooser σ] {n : Nat} {s s' : σ} {starts : List Nat}

section Courses

variable {reach : Nat} {r : Reservations} {earlier : List Nat}

/-- Drawing from the free cells again and again gives these starts in order. -/
inductive Places (reach : Nat) : Reservations → σ → List Nat → σ → Prop
  | nil (r : Reservations) (s : σ) : Places reach r s [] s
  | cons {r : Reservations} {s s' s'' : σ} {a : Nat} {starts : List Nat}
      (h : drawCell r.free s = (some a, s'))
      (hlater : Places reach (r.reserve a reach) s' starts s'') :
      Places reach r s (a :: starts) s''

/-! ## The windows of all starts -/

theorem Covers.reserveAll (hc : Covers n reach r earlier) (starts : List Nat) :
    Covers n reach (r.reserveAll starts reach) (starts.reverse ++ earlier) := by
  induction starts generalizing r earlier with
  | nil => exact hc
  | cons a starts ih =>
      rw [List.reverse_cons, List.append_assoc]
      exact ih (hc.reserve a)

/-- What is taken around some starts are their windows. -/
theorem covers_around (n reach : Nat) (starts : List Nat) :
    Covers n reach (around n reach starts) starts := by
  have hc : Covers n reach (around n reach starts) (starts.reverse ++ []) :=
    (covers_empty n reach).reserveAll starts
  refine ⟨hc.size_eq, ?_⟩
  intro a ha
  rw [hc.isTaken_iff a ha]
  simp only [List.append_nil, List.mem_reverse]

theorem size_around (n reach : Nat) (starts : List Nat) : (around n reach starts).size = n :=
  (covers_around n reach starts).size_eq

theorem Covers.mem_free_iff (hc : Covers n reach r earlier) {a : Nat} :
    a ∈ r.free ↔ a < n ∧ ∀ start ∈ earlier, ¬InWindow n reach start a := by
  constructor
  · exact hc.mem_free
  · rintro ⟨hlt, hout⟩
    exact hc.mem_free_of_outside hlt hout

theorem Covers.free_eq_nil_iff (hc : Covers n reach r earlier) :
    r.free = [] ↔ ∀ a < n, ∃ start ∈ earlier, InWindow n reach start a := by
  rw [List.eq_nil_iff_forall_not_mem]
  simp only [hc.mem_free_iff, not_and, not_forall, not_not, exists_prop]

/-! ## One draw -/

/-- A draw from some cells is a choice among as many options. -/
theorem drawCell_eq {cells : List Nat} (hpos : 0 < cells.length) (s : σ) :
    drawCell cells s
      = (some (cells.get (Chooser.choose cells.length hpos s).1),
          (Chooser.choose cells.length hpos s).2) := by
  cases cells with
  | nil => exact absurd hpos (Nat.lt_irrefl 0)
  | cons first rest => rfl

theorem drawCell_nil (s : σ) : drawCell [] s = (none, s) := rfl

/-! ## What a course says about a placement -/

/-- The starts of a course are placed, and the choices go on behind them. -/
theorem placeRest_of_places (h : Places reach r s starts s') (count agent : Nat) :
    placeRest reach (starts.length + count) agent r s
      = (placeRest reach count (agent + starts.length) (r.reserveAll starts reach) s').map
          (Except.map (starts ++ ·)) id := by
  induction h generalizing agent with
  | nil r s =>
      rw [List.length_nil, Nat.zero_add, Nat.add_zero]
      show _ = (placeRest reach count agent r s).map _ id
      rcases placeRest reach count agent r s with ⟨f | later, s'⟩
      · rfl
      · rfl
  | @cons r s s₁ s₂ a starts hdraw _ ih =>
      have hlength : (a :: starts).length + count = starts.length + count + 1 := by
        rw [List.length_cons]
        omega
      have hagent : agent + 1 + starts.length = agent + (a :: starts).length := by
        rw [List.length_cons]
        omega
      rw [hlength, placeRest, hdraw]
      simp only [ih, hagent]
      show _ = (placeRest reach count _ ((r.reserve a reach).reserveAll starts reach) s₂).map _ id
      rcases placeRest reach count (agent + (a :: starts).length)
        ((r.reserve a reach).reserveAll starts reach) s₂ with ⟨f | later, s₃⟩
      · rfl
      · rfl

/-- Every run of choices takes a course, to its end or to an agent for which no cell is
    free. -/
theorem exists_places (reach count agent : Nat) (r : Reservations) (s : σ) :
    ∃ starts s', Places reach r s starts s'
      ∧ ((starts.length = count ∧ placeRest reach count agent r s = (.ok starts, s'))
        ∨ (starts.length < count ∧ (r.reserveAll starts reach).free = []
          ∧ placeRest reach count agent r s
            = (.error (crowded (agent + starts.length) r.size), s'))) := by
  induction count generalizing agent r s with
  | zero => exact ⟨[], s, .nil r s, Or.inl ⟨rfl, rfl⟩⟩
  | succ count ih =>
      rcases hdraw : drawCell r.free s with ⟨_ | a, s₁⟩
      · have hfree : r.free = [] := eq_nil_of_drawCell (congrArg Prod.fst hdraw)
        have hs : s₁ = s := by
          rw [hfree, drawCell_nil] at hdraw
          exact (congrArg Prod.snd hdraw).symm
        refine ⟨[], s, .nil r s, Or.inr ⟨Nat.succ_pos count, hfree, ?_⟩⟩
        rw [placeRest, hdraw, hs]
        rfl
      · obtain ⟨starts, s₂, hplaces, hends⟩ := ih (agent + 1) (r.reserve a reach) s₁
        refine ⟨a :: starts, s₂, .cons hdraw hplaces, ?_⟩
        rcases hends with ⟨hlength, hrest⟩ | ⟨hlength, hfree, hrest⟩
        · refine Or.inl ⟨congrArg (· + 1) hlength, ?_⟩
          rw [placeRest, hdraw]
          simp only [hrest]
        · refine Or.inr ⟨Nat.succ_lt_succ hlength, hfree, ?_⟩
          have hagent : agent + 1 + starts.length = agent + (a :: starts).length := by
            rw [List.length_cons]
            omega
          rw [placeRest, hdraw]
          simp only [hrest, size_reserve, hagent]

/-! ## Any course -/

/-- What is placed behind the first start. -/
theorem Spread.tail {a : Nat} (hs : Spread n reach earlier (a :: starts)) :
    Spread n reach (a :: earlier) starts where
  lt := fun b hb => hs.lt b (List.mem_cons_of_mem a hb)
  outside := by
    refine List.forall_mem_cons.2 ⟨(List.pairwise_cons.1 hs.pairwise).1, ?_⟩
    intro start hmem b hb
    exact hs.outside start hmem b (List.mem_cons_of_mem a hb)
  pairwise := (List.pairwise_cons.1 hs.pairwise).2

/-- Starts that keep outside of the windows of earlier ones are the course of every state
    that makes certain choices. -/
theorem exists_script (hc : Covers n reach r earlier) (hn : n < UInt32.size)
    (hs : Spread n reach earlier starts) :
    ∃ script : List ((k : Nat) × Fin k), (∀ c ∈ script, c.1 < UInt32.size)
      ∧ ∀ s : σ, Chooser.Makes script s → ∃ s', Places reach r s starts s' := by
  induction starts generalizing r earlier with
  | nil => exact ⟨[], nofun, fun s _ => ⟨s, .nil r s⟩⟩
  | cons a starts ih =>
      have hfree : a ∈ r.free := hc.mem_free_of_outside (hs.lt a List.mem_cons_self)
        fun start hmem => hs.outside start hmem a List.mem_cons_self
      obtain ⟨i, hi⟩ := List.get_of_mem hfree
      obtain ⟨script, hsmall, hscript⟩ := ih (hc.reserve a) hs.tail
      refine ⟨⟨r.free.length, i⟩ :: script, ?_, ?_⟩
      · have hlength := r.length_free_le
        rw [hc.size_eq] at hlength
        exact List.forall_mem_cons.2 ⟨Nat.lt_of_le_of_lt hlength hn, hsmall⟩
      · rintro s ⟨hchoice, hmakes⟩
        obtain ⟨s', hplaces⟩ := hscript _ hmakes
        refine ⟨s', .cons ?_ hplaces⟩
        rw [drawCell_eq i.pos, hchoice, hi]

end Courses

/-! ## Placements from the first agent on -/

variable {count separation maxLength : Nat}

theorem placeAll_succ (n count separation maxLength : Nat) (s : σ) :
    placeAll n (count + 1) separation maxLength s
      = (placeRest (reach separation maxLength) count 1
          (around n (reach separation maxLength) [anchor]) s).map
            (Except.map (anchor :: ·)) id := by
  have haround : (Reservations.empty n).reserve anchor (reach separation maxLength)
      = around n (reach separation maxLength) [anchor] := rfl
  rw [placeAll.eq_def]
  simp only [haround]
  rcases placeRest (reach separation maxLength) count 1
    (around n (reach separation maxLength) [anchor]) s with ⟨f | later, s'⟩
  · rfl
  · rfl

/-- The choices succeed with the starts of their course behind the anchor. -/
theorem placeAll_eq_ok_iff :
    placeAll n (count + 1) separation maxLength s = (.ok starts, s')
      ↔ ∃ later, starts = anchor :: later ∧ later.length = count
          ∧ Places (reach separation maxLength)
              (around n (reach separation maxLength) [anchor]) s later s' := by
  rw [placeAll_succ]
  constructor
  · intro h
    obtain ⟨later, s₁, hplaces, ⟨hlength, hrest⟩ | ⟨-, -, hrest⟩⟩ := exists_places
      (reach separation maxLength) count 1
      (around n (reach separation maxLength) [anchor]) s
    · rw [hrest] at h
      cases h
      exact ⟨later, rfl, hlength, hplaces⟩
    · rw [hrest] at h
      cases h
  · rintro ⟨later, rfl, rfl, hplaces⟩
    have hrest := placeRest_of_places hplaces 0 1
    rw [Nat.add_zero] at hrest
    rw [hrest]
    show (Except.ok (anchor :: (later ++ [])), s') = _
    rw [List.append_nil]

/-- The choices go on behind the agents that are placed. -/
theorem placeAll_add_of_ok {agent : Nat} (hagent : 1 ≤ agent)
    (h : placeAll n agent separation maxLength s = (.ok starts, s')) (k : Nat) :
    placeAll n (agent + k) separation maxLength s
      = (placeRest (reach separation maxLength) k agent
          (around n (reach separation maxLength) starts) s').map
            (Except.map (starts ++ ·)) id := by
  obtain ⟨m, rfl⟩ := Nat.exists_eq_add_of_le' hagent
  obtain ⟨later, rfl, rfl, hplaces⟩ := placeAll_eq_ok_iff.1 h
  rw [Nat.add_right_comm, placeAll_succ, placeRest_of_places hplaces, Nat.add_comm 1]
  show (((placeRest (reach separation maxLength) k (later.length + 1)
    (around n (reach separation maxLength) (anchor :: later)) s').map _ id).map _ id) = _
  rcases placeRest (reach separation maxLength) k (later.length + 1)
    (around n (reach separation maxLength) (anchor :: later)) s' with ⟨f | rest, s''⟩
  · rfl
  · rfl

/-- The next agent starts at the cell that is drawn from those that are free. -/
theorem placeAll_succ_eq_ok_iff {agent a : Nat} {s'' : σ} (hagent : 1 ≤ agent)
    (h : placeAll n agent separation maxLength s = (.ok starts, s')) :
    placeAll n (agent + 1) separation maxLength s = (.ok (starts ++ [a]), s'')
      ↔ drawCell (around n (reach separation maxLength) starts).free s' = (some a, s'') := by
  rw [placeAll_add_of_ok hagent h, placeRest]
  rcases drawCell (around n (reach separation maxLength) starts).free s' with ⟨_ | b, s₁⟩
  · constructor
    · intro hplaced
      cases hplaced
    · intro hdrawn
      cases hdrawn
  · show (Except.ok (starts ++ [b]), s₁) = _ ↔ _
    simp only [Prod.mk.injEq, Except.ok.injEq, List.append_cancel_left_eq, List.cons.injEq,
      and_true, Option.some.injEq]

/-- The next agent of a placement starts at the cell that is drawn for it, if there is
    memory for one start more. -/
theorem place_succ_eq_ok_iff {agent a : Nat} {s'' : σ} (hagent : 1 ≤ agent)
    (h : place n agent separation maxLength s = (.ok starts, s')) :
    place n (agent + 1) separation maxLength s = (.ok (starts ++ [a]), s'')
      ↔ agent + 1 < 2 ^ 60
        ∧ drawCell (around n (reach separation maxLength) starts).free s' = (some a, s'') := by
  obtain ⟨hn, hfits, hplaced⟩ := place_eq_ok_iff.1 h
  have hmore : Fits n (agent + 1) ↔ agent + 1 < 2 ^ 60 :=
    fits_iff.trans (and_iff_right (fits_iff.1 hfits).1)
  rw [place_eq_ok_iff, placeAll_succ_eq_ok_iff hagent hplaced, hmore]
  exact and_iff_right hn

/-- The choices fail at an agent if those before it are placed and leave no cell free. -/
theorem placeAll_eq_error_iff {f : Fault} :
    placeAll n count separation maxLength s = (.error f, s')
      ↔ ∃ agent starts, 1 ≤ agent ∧ agent < count
          ∧ placeAll n agent separation maxLength s = (.ok starts, s')
          ∧ (around n (reach separation maxLength) starts).free = []
          ∧ f = crowded agent n := by
  constructor
  · intro h
    cases count with
    | zero => cases h
    | succ count =>
        rw [placeAll_succ] at h
        obtain ⟨later, s₁, hplaces, ⟨-, hrest⟩ | ⟨hlength, hfree, hrest⟩⟩ := exists_places
          (reach separation maxLength) count 1 (around n (reach separation maxLength) [anchor]) s
        · rw [hrest] at h
          cases h
        · rw [hrest, size_around, Nat.add_comm 1] at h
          cases h
          exact ⟨later.length + 1, anchor :: later, Nat.succ_pos _, Nat.succ_lt_succ hlength,
            placeAll_eq_ok_iff.2 ⟨later, rfl, rfl, hplaces⟩, hfree, rfl⟩
  · rintro ⟨agent, starts, hagent, hlt, hplaced, hfree, rfl⟩
    obtain ⟨k, rfl⟩ := Nat.exists_eq_add_of_lt hlt
    rw [Nat.add_assoc, placeAll_add_of_ok hagent hplaced, placeRest, hfree]
    show (Except.error (crowded agent (around n _ starts).size), s') = _
    rw [size_around]

/-- Starts from the anchor on that keep apart are placed by every state that makes
    certain choices, if the lists find their memory. -/
theorem exists_script_of_spread (hn : n < UInt32.size) (hfits : Fits n starts.length)
    (hfirst : starts[0]? = some anchor)
    (hs : Spread n (reach separation maxLength) [] starts) :
    ∃ script : List ((k : Nat) × Fin k), (∀ c ∈ script, c.1 < UInt32.size)
      ∧ ∀ s : σ, Chooser.Makes script s →
          (place n starts.length separation maxLength s).1 = .ok starts := by
  cases starts with
  | nil => exact nomatch hfirst
  | cons a later =>
      obtain rfl : a = anchor := Option.some.inj hfirst
      have hpos : 0 < n := Nat.zero_lt_of_lt (hs.lt anchor List.mem_cons_self)
      obtain ⟨script, hsmall, hscript⟩ := exists_script (σ := σ)
        ((covers_empty n (reach separation maxLength)).reserve anchor) hn hs.tail
      refine ⟨script, hsmall, ?_⟩
      intro s hmakes
      obtain ⟨s', hplaces⟩ := hscript s hmakes
      exact congrArg Prod.fst (place_eq_ok_iff.2
        ⟨hpos, hfits, placeAll_eq_ok_iff.2 ⟨later, rfl, rfl, hplaces⟩⟩)

end Placement

end NibbleArena
