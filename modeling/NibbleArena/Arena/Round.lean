import NibbleArena.Arena.Bout

/-! # Rounds — placement, bout and reward

    A round begins with a zero core and with all agents dead.  The agents are
    placed and loaded, and the bout is played.  The survivors share the reward:
    each gets the whole part of `(count² - 1) / survivors`.  The count of the rounds, the
    scores and the number that is shared are words and go on from zero behind the largest
    one.

    A round whose placement fails has been counted and has moved the rotation on;
    scores and origins stay as they were. -/

namespace NibbleArena

/-- What happened in a round. -/
structure Round where
  /-- The number of the round; the first is 1. -/
  number : Nat
  /-- Where each agent started. -/
  starts : List Nat
  /-- The order of the turns in a sweep. -/
  order : List Nat
  /-- All turns, in order. -/
  turns : List Turn
  /-- The number of sweeps. -/
  cycles : Nat
  /-- The agents alive at the end. -/
  survivors : List Nat
  /-- The points of each survivor. -/
  reward : Nat
  deriving DecidableEq

/-- The standing after a battle. -/
structure BattleReport where
  rounds : Nat
  scores : List Nat
  deriving DecidableEq

namespace Arena

variable {σ : Type}

/-- The points of each of `survivors` agents out of `count`; without survivors
    there are none. -/
def rewardOf (count survivors : Nat) : Nat :=
  if survivors = 0 then 0 else Word.wrapped (count * count - 1) / survivors

/-- The agents alive, in increasing order. -/
def living (agents : Array Agent) : List Nat :=
  (List.range agents.size).filter fun i => (agents[i]?.map Agent.alive).getD false

/-- Gives points to the agents of a list. -/
def award (points : Nat) (survivors : List Nat) (agents : Array Agent) : Array Agent :=
  survivors.foldl (fun agents i => agents.modify i (·.awarded points)) agents

/-- The arena at the beginning of the next round, before the placement. -/
def reset : Arena σ → Arena σ
  | ⟨settings, core, agents, rotation, roundsPlayed, draws⟩ =>
    ⟨settings, core.clear, agents.map Agent.retired, (rotation + 1) % agents.size,
      Word.wrapped32 (roundsPlayed + 1), draws⟩

/-- The order of the turns in the current round. -/
def order (a : Arena σ) : List Nat := Bout.order a.count a.rotation

/-- Plays the current round from the given starts. -/
def playFrom (starts : List Nat) (a : Arena σ) : Except Failure Round × Arena σ :=
  let order := a.order
  match a with
  | ⟨settings, core, agents, rotation, roundsPlayed, draws⟩ =>
    match (Bout.enterAll starts order ⟨core, agents, []⟩).play order settings.maxCycles 0 with
    | (.error f, ⟨core, agents, _⟩) =>
      (.error f, ⟨settings, core, agents, rotation, roundsPlayed, draws⟩)
    | (.ok cycles, ⟨core, agents, turns⟩) =>
      let survivors := living agents
      let reward := rewardOf agents.size survivors.length
      (.ok ⟨roundsPlayed, starts, order, turns.reverse, cycles, survivors, reward⟩,
        ⟨settings, core, award reward survivors agents, rotation, roundsPlayed, draws⟩)

variable [Chooser σ]

/-- Draws the starts of the current round. -/
def place (a : Arena σ) : Except Failure (List Nat) × Arena σ :=
  match Placement.place a.settings.coreSize a.count a.settings.separation
      a.settings.maxLength a.draws with
  | (starts, draws) => (starts, { a with draws := draws })

/-- Plays a round. -/
def runRound (a : Arena σ) : Except Failure Round × Arena σ :=
  match a.reset.place with
  | (.error e, a) => (.error e, a)
  | (.ok starts, a) => a.playFrom starts

/-- Plays rounds, up to the first that fails. -/
def runRounds : Nat → Arena σ → Except Failure Unit × Arena σ
  | 0, a => (.ok (), a)
  | n + 1, a =>
    match a.runRound with
    | (.error e, a) => (.error e, a)
    | (.ok _, a) => runRounds n a

/-- The standing so far. -/
def report (a : Arena σ) : BattleReport := ⟨a.roundsPlayed, a.scores⟩

/-- Plays all rounds of the settings. -/
def battle (a : Arena σ) : Except Failure BattleReport × Arena σ :=
  match a.runRounds a.settings.rounds with
  | (.error e, a) => (.error e, a)
  | (.ok (), a) => (.ok a.report, a)

end Arena

end NibbleArena
