import NibbleArena.Bracket
import NibbleArena.Core.Load
import NibbleArena.Host

/-! # The machine — one instruction at a time

    A machine is a core, the pointers of one program and a host.  `Machine.step`
    carries out the instruction under the execution pointer.

    * A step that goes on leaves the execution pointer one cell further.  A jump
      first puts it on the matching bracket, so the program goes on behind it.
    * A step that halts leaves the machine as it was.
    * Only the host can fail, and a failed step changes nothing but the host. -/

namespace NibbleArena

/-- Why a program halted. -/
inductive HaltReason
  /-- It came to the halt instruction. -/
  | instruction
  /-- A jump found no matching bracket on a lap around the core. -/
  | unmatchedBracket
  deriving DecidableEq

/-- The name of a reason in logs. -/
def HaltReason.name : HaltReason → String
  | instruction => "Instruction"
  | unmatchedBracket => "UnmatchedBracket"

/-- Whether a program goes on. -/
inductive Status
  | running
  | halted (reason : HaltReason)
  deriving DecidableEq

/-- Whether a status is `running`. -/
def Status.isRunning : Status → Bool
  | running => true
  | halted _ => false

/-- A core, the pointers of one program and a host. -/
structure Machine (σ : Type) where
  core : Core
  regs : Registers
  host : σ

namespace Machine

variable {σ : Type}

/-- The instruction under the execution pointer. -/
def opcode (m : Machine σ) : Opcode := m.core.opcode m.regs.exec

/-- Goes on behind the instruction at `exec`. -/
def goOn (core : Core) (cell exec : Nat) (host : σ) : Except Fault Status × Machine σ :=
  let next := core.offset exec 1
  (.ok .running, ⟨core, ⟨cell, next⟩, host⟩)

/-- Goes on behind the bracket that a search has found, or halts. -/
def jump (core : Core) (cell exec : Nat) (host : σ) :
    Option Nat → Except Fault Status × Machine σ
  | some target => goOn core cell target host
  | none => (.ok (.halted .unmatchedBracket), ⟨core, ⟨cell, exec⟩, host⟩)

/-- Stores a character if there is one, and goes on. -/
def store (core : Core) (cell exec : Nat) (host : σ) :
    Option UInt8 → Except Fault Status × Machine σ
  | some b => goOn (core.assignCharacter cell b) cell exec host
  | none => goOn core cell exec host

variable [Host σ]

/-- Carries out one instruction. -/
def step : Machine σ → Except Fault Status × Machine σ
  | ⟨core, ⟨cell, exec⟩, host⟩ =>
    -- What the core is asked is asked before it is changed, so that a write can
    -- be made in place.
    match core.opcode exec with
    | .halt => (.ok (.halted .instruction), ⟨core, ⟨cell, exec⟩, host⟩)
    | .right =>
      let moved := core.offset cell 1
      goOn core moved exec host
    | .left =>
      let moved := core.offset cell (-1)
      goOn core moved exec host
    | .rightTwo =>
      let moved := core.offset cell 2
      goOn core moved exec host
    | .leftTwo =>
      let moved := core.offset cell (-2)
      goOn core moved exec host
    | .incCell =>
      let v := core.read cell
      goOn (core.write cell (v + 1)) cell exec host
    | .decCell =>
      let v := core.read cell
      goOn (core.write cell (v - 1)) cell exec host
    | .incChar =>
      let b := core.readCharacter cell
      goOn (core.assignCharacter cell (b + 1)) cell exec host
    | .decChar =>
      let b := core.readCharacter cell
      goOn (core.assignCharacter cell (b - 1)) cell exec host
    | .output =>
      match Host.output (core.readCharacter cell) host with
      | (.ok (), host) => goOn core cell exec host
      | (.error f, host) => (.error f, ⟨core, ⟨cell, exec⟩, host⟩)
    | .input =>
      match Host.input host with
      | (.ok b, host) => store core cell exec host b
      | (.error f, host) => (.error f, ⟨core, ⟨cell, exec⟩, host⟩)
    | .loopCell =>
      if core.read cell = 0 then
        let target := core.matchForward? exec .cell
        jump core cell exec host target
      else goOn core cell exec host
    | .endCell =>
      if core.read cell = 0 then goOn core cell exec host
      else
        let target := core.matchBackward? exec .cell
        jump core cell exec host target
    | .loopChar =>
      if core.readCharacter cell = 0 then
        let target := core.matchForward? exec .character
        jump core cell exec host target
      else goOn core cell exec host
    | .endChar =>
      if core.readCharacter cell = 0 then goOn core cell exec host
      else
        let target := core.matchBackward? exec .character
        jump core cell exec host target
    | .swap =>
      match Host.swap (core.readCharacter cell) host with
      | (b, host) => store core cell exec host b

end Machine

end NibbleArena
