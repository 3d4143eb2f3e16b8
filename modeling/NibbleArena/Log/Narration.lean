import NibbleArena.Arena.Round
import NibbleArena.Log
import NibbleArena.Run

/-! # Narration — telling runs and rounds

    A run is told while it goes on, step by step; a round is told afterwards,
    from its turns.  Telling does not change what happens: `finishTold_eq` and
    `runRoundsTold_eq` say that the told forms give what the silent ones give. -/

namespace NibbleArena

/-! ## Runs -/

namespace Run

variable {σ : Type}

/-- What is told when a run is set up. -/
def opening (r : Run σ) (p : Program) : LogEvent :=
  .programLoaded r.machine.regs.exec p.length

/-- What is told before a step. -/
def ahead (r : Run σ) : LogEvent :=
  .step r.machine.regs.exec r.machine.regs.cell r.machine.opcode

/-- What is told after a step.  A halt leaves the machine as it was, so the
    bracket without a match is still under the execution pointer. -/
def behind (r : Run σ) : List LogEvent :=
  match r.status with
  | .running => []
  | .halted reason =>
    let exec := r.machine.regs.exec
    let search :=
      match reason, BracketFamily.of? r.machine.opcode with
      | .unmatchedBracket, some family => [LogEvent.unmatchedBracket exec family]
      | _, _ => []
    search ++ [.programHalted reason r.cycles exec]

variable [Host σ]

/-- `finishWithin` with a log. -/
def finishToldWithin : (budget : Nat) → Run σ → Log → Except Fault RunResult × Run σ × Log
  | budget, ⟨settings, machine, cycles, status⟩, log =>
    match status, budget with
    | .halted reason, _ =>
      (.ok (.halted reason cycles), ⟨settings, machine, cycles, .halted reason⟩, log)
    | .running, 0 =>
      (.ok (.cycleLimit cycles), ⟨settings, machine, cycles, .running⟩,
        log.tell (.cycleLimitReached settings.maxCycles))
    | .running, budget + 1 =>
      let log := log.tell (ahead ⟨settings, machine, cycles, .running⟩)
      match step ⟨settings, machine, cycles, .running⟩ with
      | (.ok _, r) =>
        let log := log.tellAll r.behind
        finishToldWithin budget r log
      | (.error f, r) => (.error f, r, log)

/-- `finish` with a log. -/
def finishTold (r : Run σ) (log : Log) : Except Fault RunResult × Run σ × Log :=
  finishToldWithin (r.settings.maxCycles - r.cycles) r log

/-- A told run ends as a silent one. -/
theorem finishToldWithin_eq (budget : Nat) (r : Run σ) (log : Log) :
    ((finishToldWithin budget r log).1, (finishToldWithin budget r log).2.1)
      = finishWithin budget r := by
  induction budget generalizing r log with
  | zero =>
    obtain ⟨settings, machine, cycles, status⟩ := r
    cases status <;> rfl
  | succ budget ih =>
    obtain ⟨settings, machine, cycles, status⟩ := r
    cases status with
    | halted reason => rfl
    | running =>
      unfold finishToldWithin finishWithin
      dsimp only
      rcases step ⟨settings, machine, cycles, .running⟩ with ⟨_ | _, next⟩
      · rfl
      · exact ih next _

/-- A told run ends as a silent one. -/
theorem finishTold_eq (r : Run σ) (log : Log) :
    ((r.finishTold log).1, (r.finishTold log).2.1) = r.finish :=
  finishToldWithin_eq _ r log

end Run

/-! ## Rounds -/

namespace Turn

/-- What is told of a turn. -/
def events (t : Turn) : List LogEvent :=
  let taken := LogEvent.step t.regs.exec t.regs.cell t.opcode
  match t.status with
  | .running => [taken]
  | .halted reason =>
    let search :=
      match reason, BracketFamily.of? t.opcode with
      | .unmatchedBracket, some family => [LogEvent.unmatchedBracket t.regs.exec family]
      | _, _ => []
    [taken] ++ search ++ [.agentDied (t.agent + 1) t.cycle reason]

end Turn

namespace Round

/-- What is told when the programs of a round are loaded. -/
def loadings (r : Round) (ps : List Program) : List LogEvent :=
  r.order.filterMap fun i =>
    match ps[i]?, r.starts[i]? with
    | some p, some start => some (.programLoaded start p.length)
    | _, _ => none

/-- What is told of a round. -/
def events (r : Round) (ps : List Program) : List LogEvent :=
  r.loadings ps ++ [.agentsPlaced r.number r.starts] ++ r.turns.flatMap Turn.events
    ++ [.roundFinished r.number r.cycles r.survivors r.reward]

end Round

namespace Arena

variable {σ : Type} [Chooser σ]

/-- `runRounds` with a log. -/
def runRoundsTold : Nat → Arena σ → Log → Except Failure Unit × Arena σ × Log
  | 0, a, log => (.ok (), a, log)
  | n + 1, a, log =>
    match a.runRound with
    | (.error e, a) => (.error e, a, log)
    | (.ok round, a) =>
      let log := if log.shows .debug then log.tellAll (round.events a.programs) else log
      runRoundsTold n a log

/-- Told rounds end as silent ones. -/
theorem runRoundsTold_eq (n : Nat) (a : Arena σ) (log : Log) :
    ((runRoundsTold n a log).1, (runRoundsTold n a log).2.1) = runRounds n a := by
  induction n generalizing a log with
  | zero => rfl
  | succ n ih =>
    unfold runRoundsTold runRounds
    rcases a.runRound with ⟨_ | _, next⟩
    · rfl
    · exact ih next _

/-- `battle` with a log. -/
def battleTold (a : Arena σ) (log : Log) : Except Failure BattleReport × Arena σ × Log :=
  match a.runRoundsTold a.settings.rounds log with
  | (.error e, a, log) => (.error e, a, log)
  | (.ok (), a, log) =>
    let report := a.report
    (.ok report, a, log.tell (.battleFinished report.rounds report.scores))

end Arena

end NibbleArena
