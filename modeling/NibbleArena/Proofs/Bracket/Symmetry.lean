import Mathlib.Logic.Equiv.Defs
import NibbleArena.Proofs.Bracket.Depth

/-! # Symmetry — a match found from one end is found from the other

    Suppose a search that starts on a bracket of its own kind comes to an end
    after `k` cells.  On the way back the depth takes the same values in the
    opposite order: after `j` cells it is what it was after `k - 1 - j` cells on
    the way out.  So it is not zero before the start is met again, and zero
    there.

    Nothing is asked of the rest of the core: the walk may wrap, and the core may
    hold more brackets of one kind than of the other. -/

namespace NibbleArena

namespace Core

variable {c : Core} {w : Walk} {a k q : Nat}

/-- The cells of the way back are those of the way out. -/
theorem along_reverse_along (c : Core) (w : Walk) (a : Nat) {j k : Nat} (h : j ≤ k) :
    c.along w.reverse (c.along w a k) j = c.along w a (k - j) := by
  show c.offset (c.offset a (k * w.step)) (j * -w.step) = c.offset a ((k - j : Nat) * w.step)
  rw [offset_offset, Int.natCast_sub h, Int.sub_mul, Int.mul_neg, Int.sub_eq_add_neg]

/-- A search ends on the bracket that comes back up. -/
theorem Returns.opcode_along (h : Returns c w a k) :
    c.opcode (c.along w a k) = w.shallower := by
  obtain ⟨j, rfl⟩ := Nat.exists_eq_add_of_le' h.pos
  have hpos := depth_pos h.first j (Nat.lt_succ_self j)
  have hzero : c.depth w a j + w.weight (c.opcode (c.along w a (j + 1))) = 0 := h.depth_eq_zero
  exact Walk.eq_shallower_of_weight_neg (by omega)

/-- The last cell but one of a search has depth one. -/
theorem Returns.depth_pred (h : Returns c w a k) : c.depth w a (k - 1) = 1 := by
  obtain ⟨j, rfl⟩ := Nat.exists_eq_add_of_le' h.pos
  have hzero : c.depth w a j + w.weight (c.opcode (c.along w a (j + 1))) = 0 := h.depth_eq_zero
  rw [h.opcode_along, Walk.weight_shallower] at hzero
  show c.depth w a j = 1
  omega

/-- On the way back the depth takes the values of the way out in the opposite
    order. -/
theorem Returns.depth_reverse (h : Returns c w a k) {j : Nat} (hj : j < k) :
    c.depth w.reverse (c.along w a k) j = c.depth w a (k - 1 - j) := by
  induction j with
  | zero => exact h.depth_pred.symm
  | succ j ih =>
      have hprev := ih (Nat.lt_of_succ_lt hj)
      obtain ⟨i, hi⟩ : ∃ i, k - 1 - j = i + 1 := ⟨k - 1 - j - 1, by omega⟩
      have hcell : k - (j + 1) = i + 1 := by omega
      have hrest : k - 1 - (j + 1) = i := by omega
      rw [hi] at hprev
      have hout : c.depth w a (i + 1)
          = c.depth w a i + w.weight (c.opcode (c.along w a (i + 1))) := rfl
      have hback : c.depth w.reverse (c.along w a k) (j + 1)
          = c.depth w.reverse (c.along w a k) j
            + w.reverse.weight (c.opcode (c.along w.reverse (c.along w a k) (j + 1))) := rfl
      rw [hback, hprev, hout, along_reverse_along c w a (Nat.le_of_lt hj), hcell, hrest,
        Walk.weight_reverse]
      omega

/-- The way back from where a search ended returns to where it started, if it
    started on a bracket of its own kind. -/
theorem Returns.reverse (h : Returns c w a k) (ha : c.opcode a = w.deeper) :
    Returns c w.reverse (c.along w a k) k where
  pos := h.pos
  le_size := h.le_size
  first := by
    intro j hj
    rw [h.depth_reverse hj]
    exact h.first _ (by omega)
  depth_eq_zero := by
    obtain ⟨j, rfl⟩ := Nat.exists_eq_add_of_le' h.pos
    have hlast := h.depth_reverse (Nat.lt_succ_self j)
    have hstart : j + 1 - 1 - j = 0 := by omega
    rw [hstart] at hlast
    show c.depth w.reverse (c.along w a (j + 1)) j
      + w.reverse.weight (c.opcode (c.along w.reverse (c.along w a (j + 1)) (j + 1))) = 0
    rw [hlast, along_reverse_along c w a (Nat.le_refl _), Nat.sub_self, along_zero, opcode_wrap,
      ha, Walk.weight_reverse, Walk.weight_deeper]
    rfl

/-- A search that starts on a bracket of its own kind ends on the opposite one,
    from which the search back leads to the start. -/
theorem search_reverse (ha : c.opcode a = w.deeper) (h : c.search w a = some q) :
    q < c.size ∧ c.opcode q = w.shallower ∧ q ≠ c.wrap a
      ∧ c.search w.reverse q = some (c.wrap a) := by
  obtain ⟨k, hret, rfl⟩ := search_eq_some_iff.1 h
  refine ⟨c.offset_lt a _, hret.opcode_along, ?_, ?_⟩
  · intro heq
    have hop := hret.opcode_along
    rw [heq, opcode_wrap, ha] at hop
    exact w.ne hop
  · refine search_eq_some_iff.2 ⟨k, hret.reverse ha, ?_⟩
    rw [along_reverse_along c w a (Nat.le_refl k), Nat.sub_self, along_zero]

/-! ## Matched brackets -/

/-- The brackets of a core from which the search along a walk succeeds. -/
def Matched (c : Core) (w : Walk) : Type :=
  { a : Nat // a < c.size ∧ c.opcode a = w.deeper ∧ (c.search w a).isSome }

/-- The bracket that a search finds is matched by the search back. -/
def Matched.partner (m : Matched c w) : Matched c w.reverse :=
  have h := search_reverse m.2.2.1 (Option.some_get m.2.2.2).symm
  ⟨(c.search w m.1).get m.2.2.2, h.1, h.2.1, by rw [h.2.2.2]; rfl⟩

theorem Matched.search_eq (m : Matched c w) : c.search w m.1 = some m.partner.1 :=
  (Option.some_get m.2.2.2).symm

/-- The search back from the partner leads to the bracket itself. -/
theorem Matched.search_partner (m : Matched c w) : c.search w.reverse m.partner.1 = some m.1 := by
  have h := (search_reverse m.2.2.1 m.search_eq).2.2.2
  rw [wrap_of_lt m.2.1] at h
  exact h

/-- The openings matched forward and the closings matched backward, paired by the
    two searches. -/
def matchEquiv (c : Core) (f : BracketFamily) : Matched c f.ahead ≃ Matched c f.behind where
  toFun p := p.partner
  -- the way back from a closing bracket is the way ahead
  invFun q := (q.partner : Matched c f.ahead)
  left_inv p := Subtype.ext (Option.some.inj (p.partner.search_eq.symm.trans p.search_partner))
  right_inv q := by
    have h : c.search f.ahead q.partner.1 = some (Matched.partner (w := f.ahead) q.partner).1 :=
      Matched.search_eq (w := f.ahead) q.partner
    exact Subtype.ext (Option.some.inj (h.symm.trans q.search_partner))

/-- **Symmetry of the two searches** on every core, at every address and for each
    family: a search from a bracket of its own end finds a bracket of the other
    end, which lies elsewhere in the core and leads back; so the two searches
    are inverse bijections between the matched openings and the matched
    closings. -/
theorem match_symmetric (c : Core) (f : BracketFamily) :
    (∀ p q, c.opcode p = f.opening → c.matchForward? p f = some q →
      q < c.size ∧ c.opcode q = f.closing ∧ q ≠ c.wrap p
        ∧ c.matchBackward? q f = some (c.wrap p))
    ∧ (∀ q p, c.opcode q = f.closing → c.matchBackward? q f = some p →
      p < c.size ∧ c.opcode p = f.opening ∧ p ≠ c.wrap q
        ∧ c.matchForward? p f = some (c.wrap q))
    ∧ ∃ e : { p : Nat // p < c.size ∧ c.opcode p = f.opening ∧ (c.matchForward? p f).isSome }
          ≃ { q : Nat // q < c.size ∧ c.opcode q = f.closing ∧ (c.matchBackward? q f).isSome },
        (∀ p, c.matchForward? p.1 f = some (e p).1)
          ∧ ∀ q, c.matchBackward? q.1 f = some (e.symm q).1 := by
  refine ⟨?_, ?_, c.matchEquiv f, ?_, ?_⟩
  · intro p q hp h
    exact search_reverse (w := f.ahead) hp h
  · intro q p hq h
    exact search_reverse (w := f.behind) hq h
  · intro p
    exact Matched.search_eq (w := f.ahead) p
  · intro q
    exact Matched.search_eq (w := f.behind) q

/-- Two nested pairs that lie across address zero, asked for by addresses that are
    not wrapped. -/
theorem match_symmetric_across_zero :
    let c : Core := ⟨#[12, 12, 0, 0, 11, 11], by decide⟩
    (c.opcode 10 = .loopCell ∧ c.matchForward? 10 .cell = some 1)
      ∧ (c.opcode 1 = .endCell ∧ c.matchBackward? 1 .cell = some 4)
      ∧ (c.opcode 6 = .endCell ∧ c.matchBackward? 6 .cell = some 5)
      ∧ (c.opcode 5 = .loopCell ∧ c.matchForward? 5 .cell = some 0) := by
  intro c
  have hopen : c.opcode 10 = .loopCell := by decide
  have hahead : c.matchForward? 10 .cell = some 1 := by decide
  have hclose : c.opcode 6 = .endCell := by decide
  have hbehind : c.matchBackward? 6 .cell = some 5 := by decide
  have hten : c.wrap 10 = 4 := by decide
  have hsix : c.wrap 6 = 0 := by decide
  have hout := (match_symmetric c .cell).1 10 1 hopen hahead
  have hback := (match_symmetric c .cell).2.1 6 5 hclose hbehind
  rw [hten] at hout
  rw [hsix] at hback
  exact ⟨⟨hopen, hahead⟩, ⟨hout.2.1, hout.2.2.2⟩, ⟨hclose, hbehind⟩, ⟨hback.2.1, hback.2.2.2⟩⟩

end Core

end NibbleArena
