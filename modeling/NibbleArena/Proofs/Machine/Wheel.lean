import NibbleArena.Proofs.Core.Wheel
import NibbleArena.Proofs.Machine.Bounds

/-! # The machine on a wheel — what a step does, without addresses

    A `WheelMachine` is a machine whose core is a wheel.  Its step is the instruction
    set in plain modular arithmetic: pointers are taken as residues, characters are
    numbers, and a jump asks for the partner of a bracket.  The pointers themselves are
    kept as they are, reduced or not, so that it can be seen which of them a step sets.

    A step of a machine is a step of its wheel machine, with the same result
    (`step_onWheel`).  Each way in which a step ends is looked at apart: going on
    behind an instruction, storing a character, and jumping. -/

namespace NibbleArena

/-- A wheel, the pointers of one program and a host. -/
structure WheelMachine (n : Nat) (σ : Type) where
  wheel : Wheel n
  regs : Registers
  host : σ

namespace WheelMachine

variable {n : Nat} {σ : Type}

/-- The residue of the data cell. -/
def cell (m : WheelMachine n σ) : ZMod n := m.regs.cell

/-- The residue of the next instruction. -/
def exec (m : WheelMachine n σ) : ZMod n := m.regs.exec

/-- The character at the data cell. -/
def character (m : WheelMachine n σ) : Nat := m.wheel.character m.cell

/-- Goes on behind `e`. -/
def goOn (m : WheelMachine n σ) (e : ZMod n) : Except Fault Status × WheelMachine n σ :=
  (.ok .running, { m with regs := ⟨m.regs.cell, (e + 1).val⟩ })

/-- Sets the cell pointer and goes on. -/
def move (m : WheelMachine n σ) (c : ZMod n) : Except Fault Status × WheelMachine n σ :=
  goOn { m with regs := ⟨c.val, m.regs.exec⟩ } m.exec

/-- Replaces the nibble at the data cell and goes on. -/
def put (m : WheelMachine n σ) (v : Nibble) : Except Fault Status × WheelMachine n σ :=
  goOn { m with wheel := Function.update m.wheel m.cell v } m.exec

/-- Replaces the character at the data cell and goes on. -/
def putCharacter (m : WheelMachine n σ) (x : Nat) : Except Fault Status × WheelMachine n σ :=
  goOn { m with wheel := m.wheel.putCharacter m.cell x } m.exec

/-- Replaces the character by a byte, if there is one, and goes on. -/
def store (m : WheelMachine n σ) : Option UInt8 → Except Fault Status × WheelMachine n σ
  | some b => m.putCharacter b.toNat
  | none => m.goOn m.exec

/-- Goes on behind the partner of a bracket, or halts. -/
def jump (m : WheelMachine n σ) : Option (ZMod n) → Except Fault Status × WheelMachine n σ
  | some e => m.goOn e
  | none => (.ok (.halted .unmatchedBracket), m)

/-- Carries out one instruction. -/
def step [Host σ] (m : WheelMachine n σ) : Except Fault Status × WheelMachine n σ :=
  match m.wheel.opcode m.exec with
  | .halt => (.ok (.halted .instruction), m)
  | .right => m.move (m.cell + 1)
  | .left => m.move (m.cell - 1)
  | .rightTwo => m.move (m.cell + 2)
  | .leftTwo => m.move (m.cell - 2)
  | .incCell => m.put (m.wheel m.cell + 1)
  | .decCell => m.put (m.wheel m.cell - 1)
  | .incChar => m.putCharacter ((m.character + 1) % 256)
  -- one less, modulo 256
  | .decChar => m.putCharacter ((m.character + 255) % 256)
  | .output =>
    match Host.output (UInt8.ofNat m.character) m.host with
    | (.ok (), host) => { m with host }.goOn m.exec
    | (.error f, host) => (.error f, { m with host })
  | .input =>
    match Host.input m.host with
    | (.ok b, host) => { m with host }.store b
    | (.error f, host) => (.error f, { m with host })
  | .swap =>
    match Host.swap (UInt8.ofNat m.character) m.host with
    | (b, host) => { m with host }.store b
  | .loopCell =>
    if m.wheel m.cell = 0 then m.jump (m.wheel.partner? 1 .loopCell .endCell m.exec)
    else m.goOn m.exec
  | .endCell =>
    if m.wheel m.cell ≠ 0 then m.jump (m.wheel.partner? (-1) .endCell .loopCell m.exec)
    else m.goOn m.exec
  | .loopChar =>
    if m.character = 0 then m.jump (m.wheel.partner? 1 .loopChar .endChar m.exec)
    else m.goOn m.exec
  | .endChar =>
    if m.character ≠ 0 then m.jump (m.wheel.partner? (-1) .endChar .loopChar m.exec)
    else m.goOn m.exec

end WheelMachine

namespace Machine

variable {n : Nat} {σ : Type} {core : Core} {cell exec : Nat} {host : σ}

/-- A machine with its core as a wheel. -/
def onWheel (n : Nat) (m : Machine σ) : WheelMachine n σ := ⟨m.core.wheel n, m.regs, m.host⟩

variable [NeZero n]

/-! ## How a step ends -/

theorem goOn_onWheel (h : core.size = n) (cell exec : Nat) (host : σ) :
    (goOn core cell exec host).map id (onWheel n)
      = (onWheel n ⟨core, ⟨cell, exec⟩, host⟩).goOn exec := by
  have hnext : core.offset exec 1 = ((exec : ZMod n) + 1).val := by
    rw [Core.offset_eq_val h, Int.cast_one]
  show ((_ : Except Fault Status), (⟨_, ⟨cell, core.offset exec 1⟩, _⟩ : WheelMachine n σ)) = _
  rw [hnext]
  rfl

/-- Moving the cell pointer by a distance. -/
theorem move_onWheel (h : core.size = n) (cell exec : Nat) (host : σ) (d : Int) :
    (goOn core (core.offset cell d) exec host).map id (onWheel n)
      = (onWheel n ⟨core, ⟨cell, exec⟩, host⟩).move (cell + d) := by
  rw [goOn_onWheel h, Core.offset_eq_val h]
  rfl

theorem put_onWheel (h : core.size = n) (cell exec : Nat) (host : σ) (v : Nibble) :
    (goOn (core.write cell v) cell exec host).map id (onWheel n)
      = (onWheel n ⟨core, ⟨cell, exec⟩, host⟩).put v := by
  rw [goOn_onWheel ((core.size_write cell v).trans h)]
  show WheelMachine.goOn ⟨(core.write cell v).wheel n, _, _⟩ _ = _
  rw [Core.wheel_write h]
  rfl

theorem putCharacter_onWheel (h : core.size = n) (cell exec : Nat) (host : σ) (b : UInt8) :
    (goOn (core.assignCharacter cell b) cell exec host).map id (onWheel n)
      = (onWheel n ⟨core, ⟨cell, exec⟩, host⟩).putCharacter b.toNat := by
  rw [goOn_onWheel ((core.size_assignCharacter cell b).trans h)]
  show WheelMachine.goOn ⟨(core.assignCharacter cell b).wheel n, _, _⟩ _ = _
  rw [Core.wheel_assignCharacter h]
  rfl

theorem store_onWheel (h : core.size = n) (cell exec : Nat) (host : σ) (b : Option UInt8) :
    (store core cell exec host b).map id (onWheel n)
      = (onWheel n ⟨core, ⟨cell, exec⟩, host⟩).store b := by
  cases b with
  | none => exact goOn_onWheel h cell exec host
  | some b => exact putCharacter_onWheel h cell exec host b

/-- A jump along a walk leads to the partner. -/
theorem jump_onWheel (h : core.size = n) (cell exec : Nat) (host : σ) (w : Walk) :
    (jump core cell exec host (core.search w exec)).map id (onWheel n)
      = (onWheel n ⟨core, ⟨cell, exec⟩, host⟩).jump
          ((core.wheel n).partner? w.step w.deeper w.shallower exec) := by
  rw [Core.search_eq_partner? h]
  cases (core.wheel n).partner? w.step w.deeper w.shallower exec with
  | none => rfl
  | some z =>
      refine (goOn_onWheel h cell z.val host).trans ?_
      rw [ZMod.natCast_zmod_val]
      rfl

theorem jumpForward_onWheel (h : core.size = n) (cell exec : Nat) (host : σ) (f : BracketFamily) :
    (jump core cell exec host (core.matchForward? exec f)).map id (onWheel n)
      = (onWheel n ⟨core, ⟨cell, exec⟩, host⟩).jump
          ((core.wheel n).partner? 1 f.opening f.closing exec) := by
  have hstep : ((f.ahead.step : Int) : ZMod n) = 1 := Int.cast_one
  rw [← hstep]
  exact jump_onWheel h cell exec host f.ahead

theorem jumpBackward_onWheel (h : core.size = n) (cell exec : Nat) (host : σ) (f : BracketFamily) :
    (jump core cell exec host (core.matchBackward? exec f)).map id (onWheel n)
      = (onWheel n ⟨core, ⟨cell, exec⟩, host⟩).jump
          ((core.wheel n).partner? (-1) f.closing f.opening exec) := by
  have hstep : ((f.behind.step : Int) : ZMod n) = -1 := by
    show (((-1 : Int)) : ZMod n) = -1
    rw [Int.cast_neg, Int.cast_one]
  rw [← hstep]
  exact jump_onWheel h cell exec host f.behind

/-! ## Steps -/

theorem ofNat_character (h : core.size = n) (cell : Nat) :
    UInt8.ofNat ((core.wheel n).character cell) = core.readCharacter cell := by
  rw [Core.character_wheel h, UInt8.ofNat_toNat]

theorem character_eq_zero_iff (h : core.size = n) (cell : Nat) :
    (core.wheel n).character cell = 0 ↔ core.readCharacter cell = 0 := by
  rw [Core.character_wheel h]
  exact UInt8.toNat_inj (b := 0)

variable [Host σ]

/-- A step of a machine is a step of its wheel machine. -/
theorem step_onWheel (m : Machine σ) (h : m.core.size = n) :
    m.step.map id (onWheel n) = (m.onWheel n).step := by
  obtain ⟨core, ⟨cell, exec⟩, host⟩ := m
  have hfetch : (core.wheel n).opcode exec = core.opcode exec := Core.opcode_wheel h exec
  have hread : core.wheel n cell = core.read cell := Core.wheel_natCast h cell
  have hchar : (core.wheel n).character cell = (core.readCharacter cell).toNat :=
    Core.character_wheel h cell
  show _ = WheelMachine.step ⟨core.wheel n, ⟨cell, exec⟩, host⟩
  simp only [WheelMachine.step, WheelMachine.exec, WheelMachine.cell, WheelMachine.character,
    hfetch, hread]
  cases hop : core.opcode exec with
  | halt =>
      simp only [step, hop]
      rfl
  | right =>
      simp only [step, hop]
      refine (move_onWheel h cell exec host 1).trans ?_
      rw [Int.cast_one]
      rfl
  | left =>
      simp only [step, hop]
      refine (move_onWheel h cell exec host (-1)).trans ?_
      rw [Int.cast_neg, Int.cast_one, ← sub_eq_add_neg]
      rfl
  | rightTwo =>
      simp only [step, hop]
      refine (move_onWheel h cell exec host 2).trans ?_
      rw [Int.cast_ofNat]
      rfl
  | leftTwo =>
      simp only [step, hop]
      refine (move_onWheel h cell exec host (-2)).trans ?_
      rw [Int.cast_neg, Int.cast_ofNat, ← sub_eq_add_neg]
      rfl
  | incCell | decCell =>
      simp only [step, hop]
      exact put_onWheel h cell exec host _
  | incChar =>
      simp only [step, hop]
      refine (putCharacter_onWheel h cell exec host _).trans ?_
      rw [UInt8.toNat_add, hchar]
      rfl
  | decChar =>
      simp only [step, hop]
      refine (putCharacter_onWheel h cell exec host _).trans ?_
      rw [UInt8.toNat_sub, hchar, Nat.add_comm]
      rfl
  | output =>
      simp only [step, hop, ofNat_character h]
      rcases Host.output (core.readCharacter cell) host with ⟨f | _, host'⟩
      · rfl
      · exact goOn_onWheel h cell exec host'
  | input =>
      simp only [step, hop]
      rcases (Host.input host : Except Fault (Option UInt8) × σ) with ⟨f | b, host'⟩
      · rfl
      · exact store_onWheel h cell exec host' b
  | swap =>
      simp only [step, hop, ofNat_character h]
      exact store_onWheel h cell exec _ _
  | loopCell =>
      simp only [step, hop]
      split
      · exact jumpForward_onWheel h cell exec host .cell
      · exact goOn_onWheel h cell exec host
  | endCell =>
      simp only [step, hop, ne_eq, ite_not]
      split
      · exact goOn_onWheel h cell exec host
      · exact jumpBackward_onWheel h cell exec host .cell
  | loopChar =>
      simp only [step, hop, character_eq_zero_iff h]
      split
      · exact jumpForward_onWheel h cell exec host .character
      · exact goOn_onWheel h cell exec host
  | endChar =>
      simp only [step, hop, ne_eq, ite_not, character_eq_zero_iff h]
      split
      · exact goOn_onWheel h cell exec host
      · exact jumpBackward_onWheel h cell exec host .character

/-- A step that does not go on leaves the core and the pointers as they were. -/
theorem kept_of_not_running {m : Machine σ} (h : m.step.1 ≠ .ok .running) :
    m.step.2.core = m.core ∧ m.step.2.regs = m.regs := by
  rcases hresult : m.step.1 with f | _ | reason
  · rw [step_of_error hresult]
    exact ⟨rfl, rfl⟩
  · exact absurd hresult h
  · rw [step_of_halted hresult]
    exact ⟨rfl, rfl⟩

/-- **A step is modular arithmetic**, on every core of two cells or more, with any
    pointers and over any host.  Seen as a wheel, the core has at `a` what is read at
    address `a`; the step keeps its size and is the step of the wheel machine, with the
    same result, the same host and the same pointers behind it; and a step that halts or
    fails has changed neither core nor pointers.  What the wheel machine puts as a
    character is the character afterwards, and no other cell has changed. -/
theorem step_refines_wheel {n : Nat} (hn : 2 ≤ n) (m : Machine σ) (hsize : m.core.size = n) :
    (∀ a : Nat, (m.onWheel n).wheel a = m.core.read a)
      ∧ m.step.2.core.size = n
      ∧ (m.step.1, m.step.2.onWheel n) = (m.onWheel n).step
      ∧ (m.step.1 ≠ .ok .running → m.step.2.core = m.core ∧ m.step.2.regs = m.regs)
      ∧ ∀ (M : Wheel n) (p : ZMod n) (x : Nat), x < 256 →
          (M.putCharacter p x).character p = x
            ∧ ∀ q, q ≠ p → q ≠ p - 1 → M.putCharacter p x q = M q := by
  have hpos : NeZero n := ⟨by omega⟩
  refine ⟨?_, m.size_step.trans hsize, step_onWheel m hsize, kept_of_not_running, ?_⟩
  · intro a
    exact Core.wheel_natCast hsize a
  · intro M p x hx
    exact Wheel.character_putCharacter hn M p hx

/-- Adding one to a character whose high half is the instruction that does it, with
    pointers that are not reduced: the carry makes another instruction of it. -/
theorem step_refines_wheel_carry :
    let m : Machine SealedHost := ⟨⟨#[3, 7, 15], by decide⟩, ⟨5, 4⟩, .sealed⟩
    2 ≤ 3 ∧ m.core.size = 3 ∧ (m.step.1, m.step.2.onWheel 3) = (m.onWheel 3).step
      ∧ m.step.1 = .ok .running ∧ m.step.2.core.cells = #[3, 8, 0] ∧ m.step.2.regs = ⟨5, 2⟩ := by
  intro m
  have hsize : m.core.size = 3 := rfl
  exact ⟨by decide, hsize, (step_refines_wheel (by decide) m hsize).2.2.1, by rfl, by decide,
    by decide⟩

end Machine

end NibbleArena
