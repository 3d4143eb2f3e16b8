import NibbleArena.Proofs.Bracket.Symmetry
import NibbleArena.Proofs.Structured.Program

/-! # Scanning — a search passes over structured code

    The code of a structured program opens and closes its loops in pairs.  A
    search ahead that comes to it with some number of brackets still to be closed
    leaves it with the same number: a loop of the searched family goes one up and
    comes down again, one of the other family is not looked at.

    So from the opening bracket of a loop the search ends on its closing bracket,
    wherever the loop lies and however deep it is nested.  The search back is the
    same by symmetry. -/

namespace NibbleArena

namespace Core

variable {c : Core} {area : Nat → Prop} {f : BracketFamily} {a : Nat}

/-! ## One cell of a search ahead -/

theorem seek_opening (h : c.opcode (a + 1) = f.opening) (cells nested : Nat) :
    c.seek 1 f.opening f.closing (cells + 1) (c.wrap a) nested
      = c.seek 1 f.opening f.closing cells (c.wrap (a + 1)) (nested + 1) := by
  rw [seek.eq_def]
  simp only [offset_wrap_one, opcode_wrap, h, ↓reduceIte]

theorem seek_closing (h : c.opcode (a + 1) = f.closing) (cells nested : Nat) :
    c.seek 1 f.opening f.closing (cells + 1) (c.wrap a) (nested + 1)
      = c.seek 1 f.opening f.closing cells (c.wrap (a + 1)) nested := by
  have hne : f.closing ≠ f.opening := f.ahead.ne.symm
  rw [seek.eq_def]
  simp only [offset_wrap_one, opcode_wrap, h, if_neg hne, ↓reduceIte]

theorem seek_found (h : c.opcode (a + 1) = f.closing) (cells : Nat) :
    c.seek 1 f.opening f.closing (cells + 1) (c.wrap a) 0 = some (c.wrap (a + 1)) := by
  have hne : f.closing ≠ f.opening := f.ahead.ne.symm
  rw [seek.eq_def]
  simp only [offset_wrap_one, opcode_wrap, h, if_neg hne, ↓reduceIte]

theorem seek_other (ho : c.opcode (a + 1) ≠ f.opening) (hc : c.opcode (a + 1) ≠ f.closing)
    (cells nested : Nat) :
    c.seek 1 f.opening f.closing (cells + 1) (c.wrap a) nested
      = c.seek 1 f.opening f.closing cells (c.wrap (a + 1)) nested := by
  rw [seek.eq_def]
  simp only [offset_wrap_one, opcode_wrap, if_neg ho, if_neg hc]

/-! ## A search ahead over structured code -/

/-- A search passes over structured code with the nesting that it brought. -/
theorem seek_code (p : Structured) (h : c.Holds area (a + 1) p.code) (cells nested : Nat) :
    c.seek 1 f.opening f.closing (p.code.length + cells) (c.wrap a) nested
      = c.seek 1 f.opening f.closing cells (c.wrap (a + p.code.length)) nested := by
  induction p generalizing a cells nested with
  | skip =>
      show c.seek 1 f.opening f.closing (0 + cells) (c.wrap a) nested = _
      rw [Nat.zero_add]
      rfl
  | plain op hop =>
      have hne := f.not_plain hop
      rw [← h.head.2] at hne
      show c.seek 1 f.opening f.closing (1 + cells) (c.wrap a) nested = _
      rw [Nat.add_comm, seek_other hne.1 hne.2]
      rfl
  | seq p q ihp ihq =>
      have hright : c.Holds area (a + p.code.length + 1) q.code := by
        rw [Nat.add_right_comm]
        exact h.right
      rw [Structured.length_code_seq, Nat.add_assoc, ihp h.left, ihq hright, Nat.add_assoc]
  | loop g body ih =>
      have hopen : c.opcode (a + 1) = g.opening := h.head.2
      have hbody : c.Holds area (a + 1 + 1) body.code := h.tail.left
      have hclose : c.opcode (a + 1 + body.code.length + 1) = g.closing := by
        rw [Nat.add_right_comm]
        exact h.tail.right.head.2
      have hcells : (Structured.loop g body).code.length + cells
          = body.code.length + (cells + 1) + 1 := by
        rw [Structured.length_code_loop]
        omega
      have hend : a + (Structured.loop g body).code.length = a + 1 + body.code.length + 1 := by
        rw [Structured.length_code_loop]
        omega
      rw [hcells, hend]
      by_cases hg : g = f
      · subst hg
        rw [seek_opening hopen, ih hbody, seek_closing hclose]
      · have hother : ∀ op, op = g.opening ∨ op = g.closing → op ≠ f.opening ∧ op ≠ f.closing := by
          rintro op (rfl | rfl) <;> cases g <;> cases f <;> first | exact absurd rfl hg | decide
        have ho := hother _ (Or.inl hopen)
        have hc := hother _ (Or.inr hclose)
        rw [seek_other ho.1 ho.2, ih hbody, seek_other hc.1 hc.2]

variable {body : Structured}

/-- From the opening bracket of a loop the search ends on its closing bracket. -/
theorem matchForward?_loop (h : c.Holds area a (Structured.loop f body).code)
    (hfit : (Structured.loop f body).code.length < c.size) :
    c.matchForward? (c.wrap a) f = some (c.wrap (a + body.code.length + 1)) := by
  have hclose : c.opcode (a + body.code.length + 1) = f.closing := by
    rw [Nat.add_right_comm]
    exact h.tail.right.head.2
  rw [Structured.length_code_loop] at hfit
  obtain ⟨cells, hcells⟩ : ∃ cells, c.size = body.code.length + (cells + 1) :=
    ⟨c.size - body.code.length - 1, by omega⟩
  show c.seek 1 f.opening f.closing c.size (c.wrap (c.wrap a)) 0 = _
  rw [wrap_wrap, hcells, seek_code body h.tail.left, seek_found hclose]

/-- From the closing bracket of a loop the search ends on its opening bracket. -/
theorem matchBackward?_loop (h : c.Holds area a (Structured.loop f body).code)
    (hfit : (Structured.loop f body).code.length < c.size) :
    c.matchBackward? (c.wrap (a + body.code.length + 1)) f = some (c.wrap a) := by
  have hopen : c.opcode (c.wrap a) = f.opening := by
    rw [opcode_wrap]
    exact h.head.2
  have hback := (search_reverse (w := f.ahead) hopen (matchForward?_loop h hfit)).2.2.2
  rw [wrap_wrap] at hback
  exact hback

end Core

end NibbleArena
