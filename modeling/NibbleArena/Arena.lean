import NibbleArena.Arena.Settings
import NibbleArena.Draw.Keystream
import NibbleArena.Machine

/-! # The arena — several programs on one core

    The programs are the agents.  An arena keeps the score of each agent over
    the rounds it has played, the number of rounds, and the rotation: which agent
    has the first turn.

    An arena is opened with valid settings and at least two programs, none of
    them longer than allowed.  The length is that of the text, commentary
    included, so no code can be longer either.

    The list of the agents and the cells of the core are made while the arena is opened.
    If one of them is too long for any memory, that is a crash. -/

namespace NibbleArena

/-- A program in an arena with its state in the current round. -/
structure Agent where
  program : Program
  /-- Where the program was loaded. -/
  origin : Nat
  regs : Registers
  alive : Bool
  /-- A word of 64 bits. -/
  score : Nat
  deriving DecidableEq

namespace Agent

/-- An agent that has not played yet. -/
def new (p : Program) : Agent := ⟨p, Placement.anchor, .origin, false, 0⟩

/-- The agent before it is placed in a round: dead, with zero pointers. -/
def retired (a : Agent) : Agent := { a with alive := false, regs := .origin }

/-- The agent after it was loaded. -/
def entered (a : Agent) (origin : Nat) (regs : Registers) : Agent :=
  { a with origin := origin, regs := regs, alive := true }

/-- The agent after a turn that went on. -/
def advanced (a : Agent) (regs : Registers) : Agent := { a with regs := regs }

/-- The agent after a turn that halted. -/
def died (a : Agent) (regs : Registers) : Agent := { a with regs := regs, alive := false }

/-- The agent with points added. -/
def awarded (a : Agent) (points : Nat) : Agent :=
  { a with score := Word.wrapped (a.score + points) }

/-- The bytes of an agent: three words for the text, three for the code, one for the origin,
    two for the pointers, one for the score, and one for being alive or not. -/
def bytes : Nat := 11 * Memory.wordBytes

end Agent

/-- A shared core with the agents on it, and what goes on from round to round. -/
structure Arena (σ : Type) where
  settings : ArenaSettings
  core : Core
  agents : Array Agent
  /-- The agent that has the first turn of the current round. -/
  rotation : Nat
  /-- A word of 32 bits. -/
  roundsPlayed : Nat
  /-- What the starts are drawn from. -/
  draws : σ

namespace Arena

variable {σ : Type}

/-- The number of agents. -/
def count (a : Arena σ) : Nat := a.agents.size

/-- The score of each agent, in the order of the programs. -/
def scores (a : Arena σ) : List Nat := a.agents.toList.map Agent.score

/-- The programs, in order. -/
def programs (a : Arena σ) : List Program := a.agents.toList.map Agent.program

/-- The fault of the first program that is too long, if any. -/
def overlong? (limit : Nat) (ps : List Program) : Option Fault :=
  (ps.zipIdx.find? fun (p, _) => limit < p.sourceLength).map fun (p, i) =>
    (Fault.programTooLong i p.sourceLength limit).during "arena::new"

/-- An arena before its first round. -/
def new (s : ArenaSettings) (sources : List String) (draws : σ) : Except Failure (Arena σ) :=
  let ps := sources.map Program.parse
  match s.validate with
  | .error f => .error f
  | .ok () =>
    if ¬Memory.Holds ps.length Agent.bytes then .error (.crash .capacityOverflow)
    else if ps.length < 2 then .error ((Fault.tooFewAgents ps.length).during "arena::new")
    else
      match overlong? s.maxLength ps, Core.ofSize s.coreSize with
      | some f, _ => .error f
      | none, .error c => .error (.crash c)
      | none, .ok core => .ok ⟨s, core, (ps.map Agent.new).toArray, 0, 0, draws⟩

/-- An arena whose starts are drawn from the seed of its settings, or from
    `entropy` if they have none. -/
def seeded (s : ArenaSettings) (sources : List String) (entropy : UInt64) :
    Except Failure (Arena Keystream) :=
  new s sources (Keystream.ofSeed ((s.seed.map UInt64.ofNat).getD entropy))

end Arena

end NibbleArena
