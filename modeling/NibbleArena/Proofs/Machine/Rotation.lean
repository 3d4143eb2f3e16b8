import NibbleArena.Host.Streams
import NibbleArena.Proofs.Core.Rotation
import NibbleArena.Proofs.Machine.Step

/-! # Position independence — no cell is special

    A machine whose core and pointers are rotated does what it did before, only
    in other cells: a step gives the same result, asks the same of the host, and
    leaves the rotation of what it left (`step_rotate`).  Nothing is asked of the
    pointers.

    A program that is loaded into a zero core at `o` is the rotation by `o` of
    the same program loaded at zero.  So a run of any length does not show where
    the program was loaded. -/

namespace NibbleArena

namespace Machine

variable {σ : Type}

/-- The machine with its core and both pointers rotated. -/
def rotate (k : Nat) (m : Machine σ) : Machine σ :=
  ⟨m.core.rotate k, m.core.movedRegs k m.regs, m.host⟩

/-- A program loaded into a core, before its first step. -/
def load (core : Core) (o : Nat) (p : Program) (host : σ) : Machine σ :=
  ⟨(core.load o p).1, (core.load o p).2, host⟩

/-! ## How a step ends -/

theorem goOn_rotate {core core' : Core} {k : Nat} (h : ∀ a, core'.moved k a = core.moved k a)
    (cell exec : Nat) (host : σ) :
    goOn (core'.rotate k) (core.moved k cell) (core.moved k exec) host
      = (goOn core' cell exec host).map id (rotate k) := by
  rw [← h, ← h]
  show (_, (⟨core'.rotate k, ⟨core'.moved k cell,
    (core'.rotate k).offset (core'.moved k exec) 1⟩, host⟩ : Machine σ)) = _
  rw [Core.offset_rotate, Core.offset_moved]
  rfl

theorem jump_rotate (core : Core) (k cell exec : Nat) (host : σ) (target : Option Nat) :
    jump (core.rotate k) (core.moved k cell) (core.moved k exec) host (target.map (core.moved k))
      = (jump core cell exec host target).map id (rotate k) := by
  cases target with
  | none => rfl
  | some target => exact goOn_rotate (fun _ => rfl) cell target host

theorem store_rotate (core : Core) (k cell exec : Nat) (host : σ) (b : Option UInt8) :
    store (core.rotate k) (core.moved k cell) (core.moved k exec) host b
      = (store core cell exec host b).map id (rotate k) := by
  cases b with
  | none => exact goOn_rotate (fun _ => rfl) cell exec host
  | some b =>
      show goOn ((core.rotate k).assignCharacter (core.moved k cell) b) _ _ _ = _
      rw [Core.assignCharacter_rotate]
      exact goOn_rotate (fun a => core.moved_assignCharacter k cell b a) cell exec host

/-! ## Steps and runs -/

variable [Host σ]

/-- A step of the rotated machine gives the same result and leaves the rotated
    machine. -/
theorem step_rotate (k : Nat) (m : Machine σ) : (m.rotate k).step = m.step.map id (rotate k) := by
  obtain ⟨core, ⟨cell, exec⟩, host⟩ := m
  have hfetch : (core.rotate k).opcode (core.moved k exec) = core.opcode exec :=
    core.opcode_rotate k exec
  show step ⟨core.rotate k, ⟨core.moved k cell, core.moved k exec⟩, host⟩ = _
  cases hop : core.opcode exec with
  | halt =>
      simp only [step, hfetch, hop]
      rfl
  | right | left | rightTwo | leftTwo =>
      simp only [step, hfetch, hop, Core.offset_rotate, Core.offset_moved]
      exact goOn_rotate (fun _ => rfl) _ exec host
  | incCell | decCell =>
      simp only [step, hfetch, hop, Core.read_rotate, Core.write_rotate]
      exact goOn_rotate (fun a => core.moved_write k cell _ a) cell exec host
  | incChar | decChar =>
      simp only [step, hfetch, hop, Core.readCharacter_rotate, Core.assignCharacter_rotate]
      exact goOn_rotate (fun a => core.moved_assignCharacter k cell _ a) cell exec host
  | output =>
      simp only [step, hfetch, hop, Core.readCharacter_rotate]
      split
      · exact goOn_rotate (fun _ => rfl) cell exec _
      · rfl
  | input =>
      simp only [step, hfetch, hop]
      split
      · exact store_rotate core k cell exec _ _
      · rfl
  | loopCell =>
      simp only [step, hfetch, hop, Core.read_rotate, Core.matchForward?_rotate]
      split
      · exact jump_rotate core k cell exec host _
      · exact goOn_rotate (fun _ => rfl) cell exec host
  | endCell =>
      simp only [step, hfetch, hop, Core.read_rotate, Core.matchBackward?_rotate]
      split
      · exact goOn_rotate (fun _ => rfl) cell exec host
      · exact jump_rotate core k cell exec host _
  | loopChar =>
      simp only [step, hfetch, hop, Core.readCharacter_rotate, Core.matchForward?_rotate]
      split
      · exact jump_rotate core k cell exec host _
      · exact goOn_rotate (fun _ => rfl) cell exec host
  | endChar =>
      simp only [step, hfetch, hop, Core.readCharacter_rotate, Core.matchBackward?_rotate]
      split
      · exact goOn_rotate (fun _ => rfl) cell exec host
      · exact jump_rotate core k cell exec host _
  | swap =>
      simp only [step, hfetch, hop, Core.readCharacter_rotate]
      exact store_rotate core k cell exec _ _

theorem after_rotate (k n : Nat) (m : Machine σ) : (m.rotate k).after n = (m.after n).rotate k := by
  induction n with
  | zero => rfl
  | succ n ih =>
      show ((m.rotate k).after n).step.2 = (m.after n).step.2.rotate k
      rw [ih, step_rotate]
      rfl

theorem calls_rotate (k n : Nat) (m : Machine σ) :
    calls n (m.rotate k) = (calls n m).map (Prod.map id (rotate k)) := by
  induction n generalizing m with
  | zero => rfl
  | succ n ih =>
      show (m.rotate k).step :: calls n (m.rotate k).step.2 = _
      rw [step_rotate]
      exact congrArg (_ :: ·) (ih m.step.2)

omit [Host σ] in
/-- Loaded at `o`, a program is the rotation by `o` of the program loaded at
    zero. -/
theorem load_zeroed (n : Nat) (hn : 0 < n) (o : Nat) (p : Program) (host : σ) :
    load (Core.zeroed n hn) o p host = (load (Core.zeroed n hn) 0 p host).rotate o := by
  have hload := (Core.zeroed n hn).load_rotate o 0 p
  rw [Core.rotate_zeroed, Nat.zero_add] at hload
  show (⟨((Core.zeroed n hn).load o p).1, ((Core.zeroed n hn).load o p).2, host⟩ : Machine σ) = _
  rw [hload]
  rfl

/-- **Position independence.**  A rotation moves what is in cell `a` to cell
    `a + k`.  A step of a rotated machine, on any core, with any pointers and over
    any host, gives the result of a step of the machine itself, with the same
    host behind it, and leaves the rotation of what that leaves.  So a program
    loaded at `o` into a zero core behaves call by call as if loaded at zero, on
    the rotated core and with rotated pointers. -/
theorem position_independent (σ : Type) [Host σ] :
    (∀ (c : Core) (k a : Nat),
      (c.rotate k).size = c.size ∧ (c.rotate k).read ((a + k) % c.size) = c.read a)
    ∧ (∀ (k : Nat) (m : Machine σ), (m.rotate k).step = (m.step.1, m.step.2.rotate k))
    ∧ ∀ (n : Nat) (hn : 0 < n) (p : Program) (o : Nat) (host : σ) (j : Nat),
        (load (Core.zeroed n hn) o p host).after j
          = ((load (Core.zeroed n hn) 0 p host).after j).rotate o
        ∧ calls j (load (Core.zeroed n hn) o p host)
          = (calls j (load (Core.zeroed n hn) 0 p host)).map fun call =>
              (call.1, call.2.rotate o) := by
  refine ⟨?_, ?_, ?_⟩
  · intro c k a
    exact ⟨c.size_rotate k, c.read_rotate k a⟩
  · intro k m
    exact step_rotate k m
  · intro n hn p o host j
    rw [load_zeroed n hn o p host]
    exact ⟨after_rotate o j _, calls_rotate o j _⟩

/-- Adding one to the character behind the code and writing it, on a core of seven
    cells, from cell five on: the code and the character lie across cell zero. -/
theorem position_independent_across_zero :
    let m : Nat → Machine Streams := fun o =>
      load (Core.zeroed 7 (by decide)) o (Program.parse "+.") (Streams.ofBytes [])
    (m 5).after 3 = ((m 0).after 3).rotate 5
      ∧ ((m 5).after 2).regs = ⟨1, 0⟩ ∧ ((m 0).after 2).regs = ⟨3, 2⟩
      ∧ ((m 5).after 2).step.1 = .ok (.halted .instruction)
      ∧ ((m 5).after 3).host.written = [1] := by
  intro m
  have hrun := ((position_independent Streams).2.2 7 (by decide) (Program.parse "+.") 5
    (Streams.ofBytes []) 3).1
  exact ⟨hrun, by decide, by decide, by rfl, by decide⟩

end Machine

end NibbleArena
