import NibbleArena.Proofs.Bracket.Symmetry
import NibbleArena.Proofs.Placement.Window

/-! # Nesting — matched pairs do not cross

    A matched pair takes the arc of cells from its opening bracket forward to its
    closing one.  Two searches from different brackets know nothing of each other, and
    nothing is asked of the brackets that are not matched.  All the same two arcs
    have no cell in common, or one of them lies within the other and leaves out both
    its ends.

    Arcs that meet begin one within the other: of two walks to a common cell the
    longer one passes the start of the shorter one.  Say the second bracket is passed
    after `e` cells.  Up to a constant the second depth is the first one from there on,
    and the constant is negative, since the first depth is two at least on that
    bracket.  So the second depth is down at zero before the first one is. -/

namespace NibbleArena

namespace Core

open Placement (distance)

/-- The cells from `p` forward to `q`, both of them included. -/
def arc (c : Core) (p q : Nat) : List Nat :=
  (List.range (distance c.size p q + 1)).map fun j => c.wrap (p + j)

/-- All cells from `p'` forward to `q'` are on the way from `p` forward to `q`, strictly
    between its ends. -/
def Encloses (c : Core) (p q p' q' : Nat) : Prop :=
  ∀ x ∈ c.arc p' q', x ∈ c.arc p q ∧ x ≠ c.wrap p ∧ x ≠ q

variable {c : Core} {w : Walk} {f : BracketFamily} {a b e k k' p p' q q' : Nat}

theorem mem_arc {x : Nat} : x ∈ c.arc p q ↔ ∃ j ≤ distance c.size p q, c.wrap (p + j) = x := by
  simp only [arc, List.mem_map, List.mem_range, Nat.lt_succ_iff]

/-! ## A search within a search -/

/-- The depth from a cell on the way is the depth on the way, less what it was there. -/
theorem depth_along (c : Core) (w : Walk) (a e j : Nat) :
    c.depth w (c.along w a e) j = c.depth w a (e + j) - c.depth w a e + 1 := by
  induction j with
  | zero =>
      show (1 : Int) = c.depth w a e - c.depth w a e + 1
      omega
  | succ j ih =>
      show c.depth w (c.along w a e) j
          + w.weight (c.opcode (c.along w (c.along w a e) (j + 1)))
        = c.depth w a (e + j) + w.weight (c.opcode (c.along w a (e + (j + 1)))) - _ + 1
      rw [ih, along_along]
      omega

/-- A search from a bracket `b` on the way of another one ends before it. -/
theorem Returns.inner (h : Returns c w a k) (h' : Returns c w b k')
    (hmet : c.along w a e = c.wrap b) (hb : c.opcode b = w.deeper) (hpos : 0 < e) (hle : e ≤ k) :
    e + k' < k := by
  have hop : c.opcode (c.along w a e) = w.deeper := by rw [hmet, opcode_wrap, hb]
  have hne : e ≠ k := by
    rintro rfl
    exact w.ne (hop.symm.trans h.opcode_along)
  -- on the bracket the depth is two at least
  obtain ⟨i, rfl⟩ : ∃ i, e = i + 1 := Nat.exists_eq_add_of_le' hpos
  have hbefore : 0 < c.depth w a i := depth_pos h.first i (by omega)
  have hdepth : c.depth w a (i + 1) = c.depth w a i + w.weight (c.opcode (c.along w a (i + 1))) :=
    rfl
  rw [hop, Walk.weight_deeper] at hdepth
  have hbelow := c.depth_along w a (i + 1) (k - (i + 1))
  rw [hmet, depth_wrap, Nat.add_sub_cancel' hle, h.depth_eq_zero] at hbelow
  refine Nat.lt_of_not_le fun hlate => ?_
  rcases Nat.eq_or_lt_of_le (show k - (i + 1) ≤ k' by omega) with heq | hlt
  · have hzero := h'.depth_eq_zero
    rw [← heq] at hzero
    omega
  · have habove := depth_pos h'.first _ hlt
    omega

/-! ## The arcs of matched brackets -/

/-- The way between matched brackets is shorter than a lap. -/
theorem Returns.lt_size (h : Returns c f.ahead p k) (hp : c.opcode p = f.opening) :
    k < c.size := by
  refine Nat.lt_of_le_of_ne h.le_size ?_
  rintro rfl
  have hclose := h.opcode_along
  -- a lap would lead back to the opening bracket
  have hlap : c.wrap (p + c.size) = c.wrap p := Nat.add_mod_right p c.size
  rw [along_ahead, hlap, opcode_wrap, hp] at hclose
  exact f.ahead.ne hclose

theorem Returns.distance_eq (h : Returns c f.ahead p k) (hp : c.opcode p = f.opening) :
    distance c.size p (c.along f.ahead p k) = k := by
  have hmeet : (p + k) % c.size = (c.along f.ahead p k + 0) % c.size := by
    rw [along_ahead]
    exact (c.wrap_wrap (p + k)).symm
  exact Placement.distance_of_meet hmeet (Nat.zero_le k) (h.lt_size hp)

theorem along_distance (c : Core) (f : BracketFamily) (p p' : Nat) :
    c.along f.ahead p (distance c.size p p') = c.wrap p' := by
  have hpos : 0 < c.size := c.size_pos
  apply Int.natCast_inj.1
  rw [along_ahead, wrap_eq_emod, wrap_eq_emod, Int.natCast_add, Placement.distance_eq_emod hpos,
    Int.add_emod_emod]
  congr 1
  omega

/-- The arc of a bracket that is met on the way of another one lies within the arc of
    that one. -/
theorem encloses_of_met (h : Returns c f.ahead p k) (h' : Returns c f.ahead p' k')
    (hp : c.opcode p = f.opening) (hp' : c.opcode p' = f.opening) (hne : c.wrap p ≠ c.wrap p')
    (hle : distance c.size p p' ≤ k) :
    c.Encloses p (c.along f.ahead p k) p' (c.along f.ahead p' k') := by
  have hlap := h.lt_size hp
  have hmet := c.along_distance f p p'
  have hpos : 0 < distance c.size p p' := by
    refine Nat.pos_of_ne_zero fun hzero => hne ?_
    rw [hzero, along_zero] at hmet
    exact hmet
  have hinner := h.inner h' hmet hp' hpos hle
  intro x hx
  obtain ⟨j, hj, rfl⟩ := mem_arc.1 hx
  rw [h'.distance_eq hp'] at hj
  -- a cell of the inner arc is `m` cells from the outer bracket, short of its match
  obtain ⟨m, hm⟩ : ∃ m, m = distance c.size p p' + j := ⟨_, rfl⟩
  have hcell : c.wrap (p' + j) = c.wrap (p + m) := by
    rw [← along_ahead c f, ← along_ahead c f, hm, ← along_along, hmet, along_wrap]
  rw [hcell]
  refine ⟨mem_arc.2 ⟨m, ?_, rfl⟩, wrap_add_ne p (by omega) (by omega), ?_⟩
  · rw [h.distance_eq hp]
    omega
  · have hrest : p + k = p + m + (k - m) := by omega
    rw [along_ahead, hrest]
    exact (wrap_add_ne (p + m) (by omega) (by omega)).symm

/-- **Matched pairs do not cross**, on any core and in each family: the arcs of two
    matched opening brackets have no cell in common, or one of them lies strictly within
    the other, wherever the core ends. -/
theorem matches_nest {c : Core} {f : BracketFamily} {p p' q q' : Nat}
    (hne : c.wrap p ≠ c.wrap p') (hp : c.opcode p = f.opening) (hp' : c.opcode p' = f.opening)
    (hq : c.matchForward? p f = some q) (hq' : c.matchForward? p' f = some q') :
    (∀ x ∈ c.arc p q, x ∉ c.arc p' q') ∨ c.Encloses p q p' q' ∨ c.Encloses p' q' p q := by
  obtain ⟨k, h, rfl⟩ := search_eq_some_iff (w := f.ahead).1 hq
  obtain ⟨k', h', rfl⟩ := search_eq_some_iff (w := f.ahead).1 hq'
  by_cases hle : distance c.size p p' ≤ k
  · exact .inr (.inl (encloses_of_met h h' hp hp' hne hle))
  · by_cases hle' : distance c.size p' p ≤ k'
    · exact .inr (.inr (encloses_of_met h' h hp' hp hne.symm hle'))
    · -- neither bracket is met on the way of the other
      refine .inl ?_
      intro x hx hx'
      obtain ⟨i, hi, rfl⟩ := mem_arc.1 hx
      obtain ⟨j, hj, hmeet⟩ := mem_arc.1 hx'
      rw [h.distance_eq hp] at hi
      rw [h'.distance_eq hp'] at hj
      have hpos : 0 < c.size := c.size_pos
      exact Placement.add_mod_ne hpos (by omega) (by omega) hmeet.symm

/-- Two pairs that lie across address zero, one within the other. -/
theorem matches_nest_across_zero :
    let c : Core := ⟨#[12, 12, 0, 0, 11, 11], by decide⟩
    c.wrap 4 ≠ c.wrap 11 ∧ c.opcode 4 = .loopCell ∧ c.opcode 11 = .loopCell
      ∧ c.matchForward? 4 .cell = some 1 ∧ c.matchForward? 11 .cell = some 0
      ∧ c.arc 4 1 = [4, 5, 0, 1] ∧ c.arc 11 0 = [5, 0] ∧ c.Encloses 4 1 11 0 := by
  intro c
  have hne : c.wrap 4 ≠ c.wrap 11 := by decide
  have hp : c.opcode 4 = .loopCell := by decide
  have hp' : c.opcode 11 = .loopCell := by decide
  have hq : c.matchForward? 4 .cell = some 1 := by decide
  have hq' : c.matchForward? 11 .cell = some 0 := by decide
  have harc : c.arc 4 1 = [4, 5, 0, 1] := by decide
  have harc' : c.arc 11 0 = [5, 0] := by decide
  refine ⟨hne, hp, hp', hq, hq', harc, harc', ?_⟩
  rcases matches_nest (f := .cell) hne hp hp' hq hq' with hapart | hwithin | hwithin
  · have hboth : 5 ∈ c.arc 4 1 ∧ 5 ∈ c.arc 11 0 := by
      rw [harc, harc']
      decide
    exact absurd hboth.2 (hapart 5 hboth.1)
  · exact hwithin
  · have hout : 4 ∉ c.arc 11 0 := by
      rw [harc']
      decide
    exact absurd (hwithin 4 (by rw [harc]; decide)).1 hout

end Core

end NibbleArena
