import NibbleArena.Arena

/-! # Bouts — the turns of a round

    A round is played in sweeps.  In a sweep every living agent has one turn, in
    an order that begins with the rotation.  An agent that halts is dead for the
    rest of the round.  The bout ends after a sweep that leaves at most one agent
    alive, or when the sweeps are used up.

    A bout keeps its turns, so a round can be told afterwards. -/

namespace NibbleArena

/-- One turn of an agent. -/
structure Turn where
  /-- The number of sweeps before this one. -/
  cycle : Nat
  agent : Nat
  /-- The pointers before the turn. -/
  regs : Registers
  opcode : Opcode
  /-- What came of it. -/
  status : Status
  deriving DecidableEq

/-- What the turns of a round change. -/
structure Bout where
  core : Core
  agents : Array Agent
  /-- The turns taken so far, the latest first. -/
  turns : List Turn

namespace Bout

/-- The order of the turns in a sweep: all agents, from the rotation on. -/
def order (count rotation : Nat) : List Nat :=
  (List.range count).map fun x => (x + rotation) % count

/-- Loads agent `i` at its start. -/
def enter (starts : List Nat) : Bout → Nat → Bout
  | ⟨core, agents, turns⟩, i =>
    match agents[i]?, starts[i]? with
    | some agent, some start =>
      match core.load start agent.program with
      | (core, regs) => ⟨core, agents.setIfInBounds i (agent.entered start regs), turns⟩
    | _, _ => ⟨core, agents, turns⟩

/-- Loads the agents at their starts, in the order of the turns. -/
def enterAll (starts order : List Nat) (b : Bout) : Bout := order.foldl (enter starts) b

/-- The agent after a turn. -/
def after (agent : Agent) (regs : Registers) : Status → Agent
  | .running => agent.advanced regs
  | .halted _ => agent.died regs

/-- Gives agent `i` a turn if it is alive. -/
def turn (cycle i : Nat) : Bout → Except Fault Unit × Bout
  | ⟨core, agents, turns⟩ =>
    match agents[i]? with
    | none => (.ok (), ⟨core, agents, turns⟩)
    | some agent =>
      if agent.alive then
        let op := core.opcode agent.regs.exec
        match Machine.step ⟨core, agent.regs, SealedHost.sealed⟩ with
        | (.ok status, ⟨core, regs, _⟩) =>
          (.ok (), ⟨core, agents.setIfInBounds i (after agent regs status),
            ⟨cycle, i, agent.regs, op, status⟩ :: turns⟩)
        | (.error f, ⟨core, regs, _⟩) =>
          (.error f, ⟨core, agents.setIfInBounds i (agent.advanced regs), turns⟩)
      else (.ok (), ⟨core, agents, turns⟩)

/-- One turn for each agent of a list, in order. -/
def sweep (cycle : Nat) : List Nat → Bout → Except Fault Unit × Bout
  | [], b => (.ok (), b)
  | i :: rest, b =>
    match b.turn cycle i with
    | (.ok (), b) => sweep cycle rest b
    | (.error f, b) => (.error f, b)

/-- The number of agents alive. -/
def aliveCount (b : Bout) : Nat := b.agents.countP Agent.alive

/-- Plays at most `budget` sweeps, of which the first has the number `cycle`.
    Gives the number of sweeps played in all. -/
def play (order : List Nat) : (budget cycle : Nat) → Bout → Except Fault Nat × Bout
  | 0, cycle, b => (.ok cycle, b)
  | budget + 1, cycle, b =>
    match b.sweep cycle order with
    | (.error f, b) => (.error f, b)
    | (.ok (), b) =>
      -- The bout is decided only at the end of a sweep.
      if b.aliveCount ≤ 1 then (.ok (cycle + 1), b) else play order budget (cycle + 1) b

end Bout

end NibbleArena
