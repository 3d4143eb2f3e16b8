import NibbleArena.Proofs.Core.Address
import NibbleArena.Proofs.Machine.Step

/-! # Effects — what an instruction does to the data

    A plain instruction neither halts nor is a bracket.  Wherever it lies, it does
    something to the data and the machine goes on with the next cell.  `Data` is
    a machine without its execution pointer; `Data.act` gives the data behind an
    instruction together with the cells that were written on the way.

    The list of written cells is complete: `ChangesOnly` says that the rest of
    the core is as it was, and holds for every step of every machine.

    The brackets leave the data alone.  Where they lead is one lemma for the
    opening and one for the closing bracket, for both families. -/

namespace NibbleArena

/-- Whether an opcode neither halts nor is a bracket. -/
def Opcode.isPlain : Opcode → Bool
  | .halt | .loopCell | .endCell | .loopChar | .endChar => false
  | _ => true

/-- An instruction that calls the host is plain. -/
theorem Opcode.isPlain_of_isHostOnly {op : Opcode} (h : op.isHostOnly = true) :
    op.isPlain = true := by
  cases op with
  | output | input | swap => rfl
  | _ => exact nomatch h

/-- A bracket is not plain. -/
theorem BracketFamily.not_plain (f : BracketFamily) {op : Opcode} (h : op.isPlain = true) :
    op ≠ f.opening ∧ op ≠ f.closing := by
  cases f with
  | cell => constructor <;> rintro rfl <;> exact nomatch h
  | character => constructor <;> rintro rfl <;> exact nomatch h

namespace Core

/-- Cells that are not among `ws` hold the same before and after. -/
structure ChangesOnly (c : Core) (ws : List Nat) (c' : Core) : Prop where
  size_eq : c'.size = c.size
  read_eq : ∀ b, c.wrap b ∉ ws → c'.read b = c.read b

namespace ChangesOnly

variable {c c' c'' : Core} {ws ws' : List Nat}

theorem refl (c : Core) (ws : List Nat) : c.ChangesOnly ws c := ⟨rfl, fun _ _ => rfl⟩

theorem wrap_eq (h : c.ChangesOnly ws c') (b : Nat) : c'.wrap b = c.wrap b :=
  wrap_congr h.size_eq b

theorem mono (h : c.ChangesOnly ws c') (hsub : ws ⊆ ws') : c.ChangesOnly ws' c' where
  size_eq := h.size_eq
  read_eq := fun b hb => h.read_eq b fun hw => hb (hsub hw)

theorem trans (h : c.ChangesOnly ws c') (h' : c'.ChangesOnly ws' c'') :
    c.ChangesOnly (ws ++ ws') c'' where
  size_eq := h'.size_eq.trans h.size_eq
  read_eq := by
    intro b hb
    rw [List.mem_append, not_or] at hb
    have hlater : c'.wrap b ∉ ws' := by
      rw [h.wrap_eq]
      exact hb.2
    rw [h'.read_eq b hlater, h.read_eq b hb.1]

theorem opcode_eq (h : c.ChangesOnly ws c') {b : Nat} (hb : c.wrap b ∉ ws) :
    c'.opcode b = c.opcode b :=
  congrArg Opcode.ofNibble (h.read_eq b hb)

end ChangesOnly

theorem write_changesOnly (c : Core) (a : Nat) (v : Nibble) :
    c.ChangesOnly [c.wrap a] (c.write a v) where
  size_eq := c.size_write a v
  read_eq := by
    intro b hb
    rw [List.mem_singleton] at hb
    exact read_write_of_ne (Ne.symm hb) v

theorem assignCharacter_changesOnly (c : Core) (p : Nat) (b : UInt8) :
    c.ChangesOnly [c.offset p (-1), c.wrap p] (c.assignCharacter p b) := by
  have hhigh := c.write_changesOnly (c.offset p (-1)) (Nibble.high b)
  have hlow := (c.write (c.offset p (-1)) (Nibble.high b)).write_changesOnly p (Nibble.low b)
  rw [wrap_write] at hlow
  rw [wrap_offset] at hhigh
  exact hhigh.trans hlow

/-- What the brackets of a family test is zero. -/
def TestsZero (c : Core) (cell : Nat) : BracketFamily → Prop
  | .cell => c.read cell = 0
  | .character => c.readCharacter cell = 0

instance (c : Core) (cell : Nat) (f : BracketFamily) : Decidable (c.TestsZero cell f) :=
  match f with
  | .cell => inferInstanceAs (Decidable (c.read cell = 0))
  | .character => inferInstanceAs (Decidable (c.readCharacter cell = 0))

end Core

/-- A machine without its execution pointer. -/
structure Data (σ : Type) where
  core : Core
  cell : Nat
  host : σ

namespace Data

variable {σ : Type}

/-- The machine with this data that goes on at `exec`. -/
def machine (d : Data σ) (exec : Nat) : Machine σ := ⟨d.core, ⟨d.cell, exec⟩, d.host⟩

/-- Moves the cell pointer and writes nothing. -/
def move (d : Data σ) (k : Int) : List Nat × Data σ :=
  ([], { d with cell := d.core.offset d.cell k })

/-- Writes the cell. -/
def put (d : Data σ) (v : Nibble) : List Nat × Data σ :=
  ([d.core.wrap d.cell], { d with core := d.core.write d.cell v })

/-- Writes both cells of the character. -/
def putCharacter (d : Data σ) (b : UInt8) : List Nat × Data σ :=
  ([d.core.offset d.cell (-1), d.core.wrap d.cell],
    { d with core := d.core.assignCharacter d.cell b })

/-- Writes the character if there is one. -/
def putCharacter? (d : Data σ) : Option UInt8 → List Nat × Data σ
  | some b => d.putCharacter b
  | none => ([], d)

theorem putCharacter?_changesOnly (c : Core) (cell : Nat) (host : σ) (b : Option UInt8) :
    c.ChangesOnly (putCharacter? ⟨c, cell, host⟩ b).1 (putCharacter? ⟨c, cell, host⟩ b).2.core := by
  cases b with
  | none => exact .refl _ _
  | some b => exact c.assignCharacter_changesOnly cell b

theorem store_eq (d : Data σ) (exec : Nat) (b : Option UInt8) :
    Machine.store d.core d.cell exec d.host b
      = (.ok .running,
          (d.putCharacter? b).2.machine ((d.putCharacter? b).2.core.offset exec 1)) := by
  cases b with
  | none => rfl
  | some b => rfl

variable [Host σ]

/-- The cells that a plain instruction writes and the data behind it; `none` if
    the host fails or the instruction is not plain. -/
def act (d : Data σ) : Opcode → Option (List Nat × Data σ)
  | .right => some (d.move 1)
  | .left => some (d.move (-1))
  | .rightTwo => some (d.move 2)
  | .leftTwo => some (d.move (-2))
  | .incCell => some (d.put (d.core.read d.cell + 1))
  | .decCell => some (d.put (d.core.read d.cell - 1))
  | .incChar => some (d.putCharacter (d.core.readCharacter d.cell + 1))
  | .decChar => some (d.putCharacter (d.core.readCharacter d.cell - 1))
  | .output =>
    match Host.output (d.core.readCharacter d.cell) d.host with
    | (.ok (), host) => some ([], { d with host })
    | (.error _, _) => none
  | .input =>
    match Host.input d.host with
    | (.ok b, host) => some (putCharacter? { d with host } b)
    | (.error _, _) => none
  | .swap =>
    match Host.swap (d.core.readCharacter d.cell) d.host with
    | (b, host) => some (putCharacter? { d with host } b)
  | _ => none

/-- An instruction changes no cells but those it writes. -/
theorem act_changesOnly {d : Data σ} {op : Opcode} {e : List Nat × Data σ}
    (h : d.act op = some e) : d.core.ChangesOnly e.1 e.2.core := by
  cases op with
  | right | left | rightTwo | leftTwo =>
      cases h
      exact .refl _ _
  | incCell | decCell =>
      cases h
      exact d.core.write_changesOnly d.cell _
  | incChar | decChar =>
      cases h
      exact d.core.assignCharacter_changesOnly d.cell _
  | output =>
      simp only [act] at h
      split at h
      · cases h
        exact .refl _ _
      · exact nomatch h
  | input =>
      simp only [act] at h
      split at h
      · cases h
        exact putCharacter?_changesOnly _ _ _ _
      · exact nomatch h
  | swap =>
      cases h
      exact putCharacter?_changesOnly _ _ _ _
  | halt | loopCell | endCell | loopChar | endChar => exact nomatch h

/-- A plain instruction acts on the data and goes on. -/
theorem step_of_act {d : Data σ} {exec : Nat} {e : List Nat × Data σ}
    (h : d.act (d.core.opcode exec) = some e) :
    (d.machine exec).step = (.ok .running, e.2.machine (e.2.core.offset exec 1)) := by
  obtain ⟨core, cell, host⟩ := d
  show Machine.step ⟨core, ⟨cell, exec⟩, host⟩ = _
  cases hop : core.opcode exec with
  | output =>
      simp only [hop, act] at h
      rcases hres : Host.output (core.readCharacter cell) host with ⟨f | _, host'⟩
      · rw [hres] at h
        exact nomatch h
      · rw [hres] at h
        cases h
        exact Machine.step_output_ok hop hres
  | input =>
      simp only [hop, act] at h
      rcases hres : Host.input host with ⟨f | b, host'⟩
      · rw [hres] at h
        exact nomatch h
      · rw [hres] at h
        cases h
        rw [Machine.step_input_ok hop hres]
        exact store_eq ⟨core, cell, host'⟩ exec b
  | swap =>
      simp only [hop, act] at h
      cases h
      rw [Machine.step_swap hop rfl]
      exact store_eq ⟨core, cell, _⟩ exec _
  | halt | loopCell | endCell | loopChar | endChar =>
      simp only [hop] at h
      exact nomatch h
  | _ =>
      simp only [hop] at h
      cases h
      simp only [Machine.step, hop]
      rfl

/-- A plain instruction that does not act has met a failure of the host. -/
theorem step_of_act_none {d : Data σ} {exec : Nat}
    (hplain : (d.core.opcode exec).isPlain = true) (h : d.act (d.core.opcode exec) = none) :
    ∃ f host, (d.machine exec).step = (.error f, { d with host }.machine exec) := by
  obtain ⟨core, cell, host⟩ := d
  show ∃ f host', Machine.step ⟨core, ⟨cell, exec⟩, host⟩ = _
  cases hop : core.opcode exec with
  | output =>
      simp only [hop, act] at h
      rcases hres : Host.output (core.readCharacter cell) host with ⟨f | _, host'⟩
      · exact ⟨f, host', Machine.step_output_error hop hres⟩
      · rw [hres] at h
        exact nomatch h
  | input =>
      simp only [hop, act] at h
      rcases hres : Host.input host with ⟨f | b, host'⟩
      · exact ⟨f, host', Machine.step_input_error hop hres⟩
      · rw [hres] at h
        exact nomatch h
  | halt | loopCell | endCell | loopChar | endChar =>
      simp only [hop] at hplain
      exact nomatch hplain
  | _ =>
      simp only [hop] at h
      exact nomatch h

/-! ## Brackets -/

theorem act_opening (d : Data σ) (f : BracketFamily) : d.act f.opening = none := by
  cases f <;> rfl

theorem act_closing (d : Data σ) (f : BracketFamily) : d.act f.closing = none := by
  cases f <;> rfl

/-- At an opening bracket the machine goes on behind it, or behind the matching
    bracket if what is tested is zero. -/
theorem step_opening {d : Data σ} {exec : Nat} {f : BracketFamily}
    (hop : d.core.opcode exec = f.opening) :
    (d.machine exec).step
      = if d.core.TestsZero d.cell f then
          Machine.jump d.core d.cell exec d.host (d.core.matchForward? exec f)
        else (.ok .running, d.machine (d.core.offset exec 1)) := by
  obtain ⟨core, cell, host⟩ := d
  show Machine.step ⟨core, ⟨cell, exec⟩, host⟩ = _
  cases f with
  | cell =>
      simp only [Machine.step, show core.opcode exec = .loopCell from hop]
      rfl
  | character =>
      simp only [Machine.step, show core.opcode exec = .loopChar from hop]
      rfl

/-- At a closing bracket the machine goes on behind it if what is tested is zero,
    or behind the matching bracket. -/
theorem step_closing {d : Data σ} {exec : Nat} {f : BracketFamily}
    (hop : d.core.opcode exec = f.closing) :
    (d.machine exec).step
      = if d.core.TestsZero d.cell f then (.ok .running, d.machine (d.core.offset exec 1))
        else Machine.jump d.core d.cell exec d.host (d.core.matchBackward? exec f) := by
  obtain ⟨core, cell, host⟩ := d
  show Machine.step ⟨core, ⟨cell, exec⟩, host⟩ = _
  cases f with
  | cell =>
      simp only [Machine.step, show core.opcode exec = .endCell from hop]
      rfl
  | character =>
      simp only [Machine.step, show core.opcode exec = .endChar from hop]
      rfl

end Data

namespace Machine

variable {σ : Type}

/-- A machine without its execution pointer. -/
def data (m : Machine σ) : Data σ := ⟨m.core, m.regs.cell, m.host⟩

/-- The cells that the next step writes. -/
def writes [Host σ] (m : Machine σ) : List Nat :=
  match m.data.act m.opcode with
  | some (ws, _) => ws
  | none => []

theorem writes_of_act [Host σ] {d : Data σ} {exec : Nat} {e : List Nat × Data σ}
    (h : d.act (d.core.opcode exec) = some e) : (d.machine exec).writes = e.1 := by
  have hm : (d.machine exec).data.act (d.machine exec).opcode = some e := h
  simp only [writes, hm]

theorem writes_of_act_none [Host σ] {d : Data σ} {exec : Nat}
    (h : d.act (d.core.opcode exec) = none) : (d.machine exec).writes = [] := by
  have hm : (d.machine exec).data.act (d.machine exec).opcode = none := h
  simp only [writes, hm]

theorem jump_core (core : Core) (cell exec : Nat) (host : σ) (target : Option Nat) :
    (jump core cell exec host target).2.core = core := by
  cases target with
  | none => rfl
  | some target => rfl

/-- A step that does not act leaves the core alone. -/
theorem step_core_of_act_none [Host σ] {d : Data σ} {exec : Nat}
    (h : d.act (d.core.opcode exec) = none) : (d.machine exec).step.2.core = d.core := by
  have hopening : ∀ f : BracketFamily, d.core.opcode exec = f.opening →
      (d.machine exec).step.2.core = d.core := by
    intro f hop
    rw [Data.step_opening hop]
    split
    · exact jump_core _ _ _ _ _
    · rfl
  have hclosing : ∀ f : BracketFamily, d.core.opcode exec = f.closing →
      (d.machine exec).step.2.core = d.core := by
    intro f hop
    rw [Data.step_closing hop]
    split
    · rfl
    · exact jump_core _ _ _ _ _
  cases hop : d.core.opcode exec with
  | halt => simp only [Data.machine, step, hop]
  | loopCell => exact hopening .cell hop
  | endCell => exact hclosing .cell hop
  | loopChar => exact hopening .character hop
  | endChar => exact hclosing .character hop
  | _ =>
      obtain ⟨f, host, hstep⟩ := Data.step_of_act_none (by rw [hop]; rfl) h
      rw [hstep]
      rfl

/-- A step changes no cells but those it writes. -/
theorem step_changesOnly [Host σ] (m : Machine σ) :
    m.core.ChangesOnly m.writes m.step.2.core := by
  show m.core.ChangesOnly (m.data.machine m.regs.exec).writes
    (m.data.machine m.regs.exec).step.2.core
  cases hact : m.data.act m.opcode with
  | some e =>
      rw [writes_of_act hact, Data.step_of_act hact]
      exact Data.act_changesOnly hact
  | none =>
      rw [step_core_of_act_none hact]
      exact .refl _ _

end Machine

end NibbleArena
