import NibbleArena.Bracket
import NibbleArena.Proofs.Core.Address

/-! # Depth — what a bracket search counts

    A search walks away from its start and ends at the first cell where a depth
    is zero.  The depth is one at the start; each bracket of the walk's own kind
    adds one and each of the opposite kind takes one away.  This file says so
    without the search: `depth` is a sum along the walk and `Returns` names its
    first zero within a lap.

    `search_eq_some_iff` ties the two together.  The induction is on the number
    of cells left, with the count of nested brackets as the depth reached so far,
    and one more cell at the front of the walk is `depth_succ`. -/

namespace NibbleArena

/-- A way to look for a bracket: where to go next, which bracket nests deeper and
    which one comes back up. -/
structure Walk where
  step : Int
  deeper : Opcode
  shallower : Opcode
  ne : deeper ≠ shallower

namespace Walk

/-- The same way walked back. -/
def reverse (w : Walk) : Walk := ⟨-w.step, w.shallower, w.deeper, w.ne.symm⟩

/-- What a cell adds to the depth. -/
def weight (w : Walk) (op : Opcode) : Int :=
  if op = w.deeper then 1 else if op = w.shallower then -1 else 0

@[simp] theorem weight_deeper (w : Walk) : w.weight w.deeper = 1 := if_pos rfl

@[simp] theorem weight_shallower (w : Walk) : w.weight w.shallower = -1 := by
  show (if w.shallower = w.deeper then (1 : Int) else _) = -1
  rw [if_neg w.ne.symm, if_pos rfl]

theorem weight_of_ne {w : Walk} {op : Opcode} (hd : op ≠ w.deeper) (hs : op ≠ w.shallower) :
    w.weight op = 0 := by
  show (if op = w.deeper then (1 : Int) else _) = 0
  rw [if_neg hd, if_neg hs]

/-- Walked back, every cell has the opposite weight. -/
theorem weight_reverse (w : Walk) (op : Opcode) : w.reverse.weight op = -w.weight op := by
  by_cases hd : op = w.deeper
  · rw [hd, weight_deeper]
    exact w.reverse.weight_shallower
  · by_cases hs : op = w.shallower
    · rw [hs, weight_shallower]
      exact w.reverse.weight_deeper
    · rw [weight_of_ne hd hs]
      exact weight_of_ne (w := w.reverse) hs hd

/-- A cell that takes the depth down is the bracket that comes back up. -/
theorem eq_shallower_of_weight_neg {w : Walk} {op : Opcode} (h : w.weight op < 0) :
    op = w.shallower := by
  by_cases hd : op = w.deeper
  · rw [hd, weight_deeper] at h
    exact absurd h (by decide)
  · by_cases hs : op = w.shallower
    · exact hs
    · rw [weight_of_ne hd hs] at h
      exact absurd h (by decide)

/-- No cell takes the depth down by more than one. -/
theorem neg_one_le_weight (w : Walk) (op : Opcode) : -1 ≤ w.weight op := by
  by_cases h : w.weight op < 0
  · have hw : w.weight op = -1 := by rw [eq_shallower_of_weight_neg h, weight_shallower]
    omega
  · omega

end Walk

namespace BracketFamily

/-- The way from an opening bracket to its closing one. -/
def ahead (f : BracketFamily) : Walk := ⟨1, f.opening, f.closing, by cases f <;> decide⟩

/-- The way from a closing bracket to its opening one. -/
def behind (f : BracketFamily) : Walk := f.ahead.reverse

end BracketFamily

namespace Core

/-- The cell that is `k` cells away on a walk. -/
def along (c : Core) (w : Walk) (a k : Nat) : Nat := c.offset a (k * w.step)

/-- The depth when `k` cells of a walk have been looked at. -/
def depth (c : Core) (w : Walk) (a : Nat) : Nat → Int
  | 0 => 1
  | k + 1 => depth c w a k + w.weight (c.opcode (c.along w a (k + 1)))

/-- The depth is zero after `k` cells, and for the first time; `k` is no more
    than a lap. -/
structure Returns (c : Core) (w : Walk) (a k : Nat) : Prop where
  pos : 1 ≤ k
  le_size : k ≤ c.size
  depth_eq_zero : c.depth w a k = 0
  first : ∀ j < k, c.depth w a j ≠ 0

/-- The search along a walk, once around the core. -/
def search (c : Core) (w : Walk) (a : Nat) : Option Nat :=
  c.seek w.step w.deeper w.shallower c.size (c.wrap a) 0

/-! ## One cell more at the front -/

@[simp] theorem along_zero (c : Core) (w : Walk) (a : Nat) : c.along w a 0 = c.wrap a := by
  show c.offset a ((0 : Nat) * w.step) = c.wrap a
  rw [Int.natCast_zero, Int.zero_mul, offset_zero]

/-- The cells of a walk from the next cell on. -/
theorem along_next (c : Core) (w : Walk) (a k : Nat) :
    c.along w (c.offset a w.step) k = c.along w a (k + 1) := by
  show c.offset (c.offset a w.step) (k * w.step) = c.offset a ((k + 1 : Nat) * w.step)
  rw [offset_offset, Int.natCast_add, Int.add_mul, Int.natCast_one, Int.one_mul, Int.add_comm]

/-- A walk taken up again from one of its cells. -/
theorem along_along (c : Core) (w : Walk) (a e j : Nat) :
    c.along w (c.along w a e) j = c.along w a (e + j) := by
  show c.offset (c.offset a (e * w.step)) (j * w.step) = c.offset a ((e + j : Nat) * w.step)
  rw [offset_offset, Int.natCast_add, Int.add_mul]

/-- The cell next to one of a walk. -/
theorem offset_along (c : Core) (w : Walk) (a j : Nat) :
    c.offset (c.along w a j) w.step = c.along w a (j + 1) := by
  show c.offset (c.offset a (j * w.step)) w.step = c.offset a ((j + 1 : Nat) * w.step)
  rw [offset_offset, Int.natCast_add, Int.add_mul, Int.natCast_one, Int.one_mul]

/-- On the way ahead cells come in the order of their addresses. -/
theorem along_ahead (c : Core) (f : BracketFamily) (a k : Nat) :
    c.along f.ahead a k = c.wrap (a + k) := by
  show c.offset a (k * 1) = c.wrap (a + k)
  rw [Int.mul_one, offset_natCast]

theorem along_wrap (c : Core) (w : Walk) (a k : Nat) : c.along w (c.wrap a) k = c.along w a k :=
  c.offset_wrap a _

theorem depth_wrap (c : Core) (w : Walk) (a k : Nat) : c.depth w (c.wrap a) k = c.depth w a k := by
  induction k with
  | zero => rfl
  | succ k ih =>
      show c.depth w (c.wrap a) k + w.weight (c.opcode (c.along w (c.wrap a) (k + 1))) = _
      rw [ih, along_wrap]
      rfl

/-- The first cell of a walk adds its weight to the depths behind it. -/
theorem depth_succ (c : Core) (w : Walk) (a k : Nat) :
    c.depth w a (k + 1)
      = c.depth w (c.offset a w.step) k + w.weight (c.opcode (c.offset a w.step)) := by
  induction k with
  | zero =>
      show 1 + w.weight (c.opcode (c.along w a 1)) = 1 + _
      rw [← along_next, along_zero, wrap_offset]
  | succ k ih =>
      show c.depth w a (k + 1) + w.weight (c.opcode (c.along w a (k + 1 + 1)))
        = c.depth w (c.offset a w.step) k
          + w.weight (c.opcode (c.along w (c.offset a w.step) (k + 1))) + _
      rw [ih, along_next, Int.add_right_comm]

/-- Before its first zero the depth is positive. -/
theorem depth_pos {c : Core} {w : Walk} {a k : Nat} (h : ∀ j < k, c.depth w a j ≠ 0) :
    ∀ j < k, 0 < c.depth w a j := by
  intro j
  induction j with
  | zero => intro _; exact Int.one_pos
  | succ j ih =>
      intro hj
      have hprev := ih (Nat.lt_of_succ_lt hj)
      have hne := h (j + 1) hj
      have hw := w.neg_one_le_weight (c.opcode (c.along w a (j + 1)))
      have hstep : c.depth w a (j + 1)
          = c.depth w a j + w.weight (c.opcode (c.along w a (j + 1))) := rfl
      omega

/-! ## The search finds the first zero -/

/-- What a search finds when `nested` brackets are still to be closed before the
    one that is sought. -/
def Finds (c : Core) (w : Walk) (cells pos nested q : Nat) : Prop :=
  ∃ k, 1 ≤ k ∧ k ≤ cells ∧ nested + c.depth w pos k = 0
    ∧ (∀ j < k, 0 < nested + c.depth w pos j) ∧ q = c.along w pos k

/-- The first cell of a search either ends it or leaves a search from there. -/
theorem finds_succ_iff {c : Core} {w : Walk} {cells pos nested q : Nat} :
    Finds c w (cells + 1) pos nested q
      ↔ (nested + 1 + w.weight (c.opcode (c.offset pos w.step)) = 0 ∧ q = c.offset pos w.step)
        ∨ ∃ nested' : Nat,
            nested' = nested + w.weight (c.opcode (c.offset pos w.step))
              ∧ Finds c w cells (c.offset pos w.step) nested' q := by
  have hone := c.depth_succ w pos 0
  constructor
  · rintro ⟨k, hk, hle, hzero, hpos, hq⟩
    obtain ⟨k, rfl⟩ := Nat.exists_eq_add_of_le' hk
    cases k with
    | zero =>
        refine Or.inl ⟨?_, ?_⟩
        · rw [hone] at hzero
          show (nested : Int) + 1 + _ = 0
          rw [Int.add_assoc]
          exact hzero
        · rw [hq, ← along_next, along_zero, wrap_offset]
    | succ k =>
        have hfirst := hpos 1 (by omega)
        rw [hone] at hfirst
        have hnext : c.depth w (c.offset pos w.step) 0 = 1 := rfl
        refine Or.inr ⟨(nested + w.weight (c.opcode (c.offset pos w.step))).toNat, by omega,
          k + 1, by omega, by omega, ?_, ?_, ?_⟩
        · rw [depth_succ] at hzero
          omega
        · intro j hj
          have := hpos (j + 1) (by omega)
          rw [depth_succ] at this
          omega
        · rw [hq, along_next]
  · rintro (⟨hzero, hq⟩ | ⟨nested', hn, k, hk, hle, hdepth, hpos, hq⟩)
    · refine ⟨1, Nat.le_refl 1, by omega, ?_, ?_, ?_⟩
      · rw [hone, ← Int.add_assoc]
        exact hzero
      · intro j hj
        have hj0 : j = 0 := by omega
        have hstart : c.depth w pos 0 = 1 := rfl
        rw [hj0, hstart]
        omega
      · rw [hq, ← along_next, along_zero, wrap_offset]
    · refine ⟨k + 1, by omega, by omega, ?_, ?_, ?_⟩
      · rw [depth_succ]
        omega
      · intro j hj
        cases j with
        | zero =>
            have hstart : c.depth w pos 0 = 1 := rfl
            omega
        | succ j =>
            have := hpos j (by omega)
            rw [depth_succ]
            omega
      · rw [hq, along_next]

/-- The search as the first zero of the depth, from any number of nested
    brackets. -/
theorem seek_eq_some_iff (c : Core) (w : Walk) (cells pos nested q : Nat) :
    c.seek w.step w.deeper w.shallower cells pos nested = some q
      ↔ Finds c w cells pos nested q := by
  induction cells generalizing pos nested with
  | zero =>
      refine iff_of_false nofun ?_
      rintro ⟨k, hk, hle, -⟩
      omega
  | succ cells ih =>
      rw [finds_succ_iff, seek.eq_def]
      by_cases hd : c.opcode (c.offset pos w.step) = w.deeper
      · simp only [hd, ↓reduceIte, Walk.weight_deeper]
        rw [ih]
        constructor
        · intro hf
          exact Or.inr ⟨nested + 1, rfl, hf⟩
        · rintro (⟨hzero, -⟩ | ⟨nested', hn, hf⟩)
          · omega
          · have hnested : nested' = nested + 1 := by omega
            exact hnested ▸ hf
      · by_cases hs : c.opcode (c.offset pos w.step) = w.shallower
        · simp only [hs, if_neg w.ne.symm, ↓reduceIte, Walk.weight_shallower]
          cases nested with
          | zero =>
              rw [Option.some_inj]
              constructor
              · intro hq
                exact Or.inl ⟨rfl, hq.symm⟩
              · rintro (⟨-, hq⟩ | ⟨nested', hn, -⟩)
                · exact hq.symm
                · omega
          | succ rest =>
              rw [ih]
              constructor
              · intro hf
                exact Or.inr ⟨rest, by omega, hf⟩
              · rintro (⟨hzero, -⟩ | ⟨nested', hn, hf⟩)
                · omega
                · have hnested : nested' = rest := by omega
                  exact hnested ▸ hf
        · simp only [if_neg hd, if_neg hs, Walk.weight_of_ne hd hs]
          rw [ih]
          constructor
          · intro hf
            exact Or.inr ⟨nested, by omega, hf⟩
          · rintro (⟨hzero, -⟩ | ⟨nested', hn, hf⟩)
            · omega
            · have hnested : nested' = nested := by omega
              exact hnested ▸ hf

/-- **The search finds the first zero of the depth**, if there is one on the
    lap. -/
theorem search_eq_some_iff {c : Core} {w : Walk} {a q : Nat} :
    c.search w a = some q ↔ ∃ k, Returns c w a k ∧ q = c.along w a k := by
  show c.seek w.step w.deeper w.shallower c.size (c.wrap a) 0 = some q ↔ _
  rw [seek_eq_some_iff]
  constructor
  · rintro ⟨k, hk, hle, hzero, hpos, hq⟩
    rw [depth_wrap, Int.natCast_zero, Int.zero_add] at hzero
    rw [along_wrap] at hq
    refine ⟨k, ⟨hk, hle, hzero, ?_⟩, hq⟩
    intro j hj
    have := hpos j hj
    rw [depth_wrap] at this
    omega
  · rintro ⟨k, hret, hq⟩
    refine ⟨k, hret.pos, hret.le_size, ?_, ?_, ?_⟩
    · rw [depth_wrap, hret.depth_eq_zero]
      rfl
    · intro j hj
      have := depth_pos hret.first j hj
      rw [depth_wrap]
      omega
    · rw [along_wrap]
      exact hq

end Core

end NibbleArena
