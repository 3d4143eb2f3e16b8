import NibbleArena.Proofs.Machine.Effect

/-! # Structured programs — loops in the place of brackets

    A structured program is built from plain instructions by sequencing and by
    one loop for each bracket family.  Its meaning, `BigStep`, knows neither
    addresses nor brackets: a loop runs its body as long as what its family
    tests is not zero.  The code of a loop is the code of its body between the
    two brackets of the family.

    A core holds a piece of code from an address on if each cell decodes to the
    opcode at its place.  Code that is held in an area of the core stays there
    as long as nothing is written into that area. -/

namespace NibbleArena

/-- A program of plain instructions and loops. -/
inductive Structured
  | skip
  | plain (op : Opcode) (h : op.isPlain = true)
  | seq (p q : Structured)
  /-- Runs its body until what the family tests is zero. -/
  | loop (family : BracketFamily) (body : Structured)

namespace Structured

/-- The instructions of a program, with a pair of brackets for each loop. -/
def code : Structured → List Opcode
  | skip => []
  | plain op _ => [op]
  | seq p q => p.code ++ q.code
  | loop f body => f.opening :: (body.code ++ [f.closing])

/-- A loop is two cells longer than its body. -/
theorem length_code_loop (f : BracketFamily) (body : Structured) :
    (loop f body).code.length = body.code.length + 2 := by
  show (body.code ++ [f.closing]).length + 1 = _
  rw [List.length_append]
  rfl

theorem length_code_seq (p q : Structured) :
    (seq p q).code.length = p.code.length + q.code.length := List.length_append

variable {σ : Type} [Host σ]

/-- `BigStep p d ws d'`: started on `d`, the program ends on `d'` and has written
    the cells `ws` on the way. -/
inductive BigStep : Structured → Data σ → List Nat → Data σ → Prop
  | skip {d : Data σ} : BigStep skip d [] d
  | plain {op : Opcode} {h : op.isPlain = true} {d d' : Data σ} {ws : List Nat}
      (act : d.act op = some (ws, d')) : BigStep (plain op h) d ws d'
  | seq {p q : Structured} {d d' d'' : Data σ} {ws ws' : List Nat}
      (first : BigStep p d ws d') (second : BigStep q d' ws' d'') :
      BigStep (seq p q) d (ws ++ ws') d''
  | done {f : BracketFamily} {body : Structured} {d : Data σ} (zero : d.core.TestsZero d.cell f) :
      BigStep (loop f body) d [] d
  | again {f : BracketFamily} {body : Structured} {d d' d'' : Data σ} {ws ws' : List Nat}
      (nonzero : ¬d.core.TestsZero d.cell f) (once : BigStep body d ws d')
      (rest : BigStep (loop f body) d' ws' d'') : BigStep (loop f body) d (ws ++ ws') d''

/-- A program changes no cells but those it writes. -/
theorem BigStep.changesOnly {p : Structured} {d d' : Data σ} {ws : List Nat}
    (h : BigStep p d ws d') : d.core.ChangesOnly ws d'.core := by
  induction h with
  | skip => exact .refl _ _
  | plain act => exact Data.act_changesOnly act
  | seq _ _ ihfirst ihsecond => exact ihfirst.trans ihsecond
  | done _ => exact .refl _ _
  | again _ _ _ ihonce ihrest => exact ihonce.trans ihrest

end Structured

/-! ## Code in a core -/

/-- From `a` on a core holds `code`, in cells of `area`. -/
structure Core.Holds (c : Core) (area : Nat → Prop) (a : Nat) (code : List Opcode) : Prop where
  area : ∀ i < code.length, area (c.wrap (a + i))
  opcode : ∀ i (h : i < code.length), c.opcode (a + i) = code[i]

namespace Core.Holds

variable {c c' : Core} {area : Nat → Prop} {a : Nat} {l r : List Opcode} {op : Opcode}

theorem left (h : c.Holds area a (l ++ r)) : c.Holds area a l where
  area := by
    intro i hi
    exact h.area i (by rw [List.length_append]; omega)
  opcode := by
    intro i hi
    rw [h.opcode i (by rw [List.length_append]; omega), List.getElem_append_left hi]

theorem right (h : c.Holds area a (l ++ r)) : c.Holds area (a + l.length) r where
  area := by
    intro i hi
    rw [Nat.add_assoc]
    exact h.area (l.length + i) (by rw [List.length_append]; omega)
  opcode := by
    intro i hi
    rw [Nat.add_assoc, h.opcode (l.length + i) (by rw [List.length_append]; omega),
      List.getElem_append_right (Nat.le_add_right _ _)]
    simp only [Nat.add_sub_cancel_left]

theorem head (h : c.Holds area a (op :: r)) : area (c.wrap a) ∧ c.opcode a = op :=
  ⟨h.area 0 (Nat.succ_pos _), h.opcode 0 (Nat.succ_pos _)⟩

theorem tail (h : c.Holds area a (op :: r)) : c.Holds area (a + 1) r :=
  right (l := [op]) h

/-- Code stays where nothing is written. -/
theorem of_changesOnly {ws : List Nat} (h : c.Holds area a l) (hws : ∀ w ∈ ws, ¬area w)
    (hc : c.ChangesOnly ws c') : c'.Holds area a l where
  area := by
    intro i hi
    rw [hc.wrap_eq]
    exact h.area i hi
  opcode := by
    intro i hi
    rw [hc.opcode_eq, h.opcode i hi]
    intro hmem
    exact hws _ hmem (h.area i hi)

end Core.Holds

end NibbleArena
