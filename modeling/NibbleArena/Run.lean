import NibbleArena.Machine
import NibbleArena.Run.Settings

/-! # Runs — a single program on its own core

    The program is loaded at address zero and takes steps until it halts or its
    budget of cycles is spent.  Both are normal ends.

    A cycle is counted before its step, so a step that fails has been counted
    and can be tried again; it has moved nothing. -/

namespace NibbleArena

/-- A program on its way. -/
structure Run (σ : Type) where
  settings : RunSettings
  machine : Machine σ
  /-- The steps begun so far.  The count is not wrapped: a run that is finished stops
      within its budget, which is a word, and single steps would leave the range only
      after `2 ^ 64` of them. -/
  cycles : Nat
  status : Status

/-- How a run ended. -/
inductive RunResult
  | halted (reason : HaltReason) (cycles : Nat)
  | cycleLimit (cycles : Nat)
  deriving DecidableEq

/-- The steps of a run that ended. -/
def RunResult.cycles : RunResult → Nat
  | halted _ n => n
  | cycleLimit n => n

namespace Run

variable {σ : Type}

/-- A run before its first step, on a core that is zero. -/
def loaded (s : RunSettings) (core : Core) (p : Program) (host : σ) : Run σ :=
  let (core, regs) := core.load 0 p
  ⟨s, ⟨core, regs, host⟩, 0, .running⟩

/-- A run before its first step, on a core that is not empty. -/
def prepare (s : RunSettings) (h : 0 < s.coreSize) (p : Program) (host : σ) : Run σ :=
  loaded s (Core.zeroed s.coreSize h) p host

/-- A run with the default settings, before its first step. -/
def new (p : Program) (host : σ) : Run σ := prepare RunSettings.default (by decide) p host

/-- A run before its first step. -/
def start (s : RunSettings) (p : Program) (host : σ) : Except Failure (Run σ) :=
  match s.validate, Core.ofSize s.coreSize with
  | .error f, _ => .error f
  | .ok (), .error c => .error (.crash c)
  | .ok (), .ok core => .ok (loaded s core p host)

theorem start_of_pos {s : RunSettings} (h : 0 < s.coreSize) (p : Program) (host : σ) :
    start s p host
      = if Memory.Holds s.coreSize 1 then .ok (prepare s h p host)
        else .error (.crash .capacityOverflow) := by
  have hvalid : s.validate = .ok () := if_neg (Nat.ne_of_gt h)
  by_cases hmemory : Memory.Holds s.coreSize 1
  · simp only [start, hvalid, Core.ofSize_of_holds h hmemory, if_pos hmemory]
    rfl
  · simp only [start, hvalid, Core.ofSize_of_not_holds h hmemory, if_neg hmemory]

/-- A run starts with just the settings that are valid, on a core that finds its memory. -/
theorem start_isOk (s : RunSettings) (p : Program) (host : σ) :
    (start s p host).isOk = (s.validate.isOk && decide (Memory.Holds s.coreSize 1)) := by
  by_cases h : 0 < s.coreSize
  · rw [start_of_pos h, RunSettings.validate, if_neg (Nat.ne_of_gt h)]
    by_cases hmemory : Memory.Holds s.coreSize 1
    · rw [if_pos hmemory, decide_eq_true hmemory]
      rfl
    · rw [if_neg hmemory, decide_eq_false hmemory]
      rfl
  · rw [start, RunSettings.validate, if_pos (Nat.eq_zero_of_not_pos h)]
    rfl

variable [Host σ]

/-- Takes one step.  A run that has halted stays as it is. -/
def step : Run σ → Except Fault Status × Run σ
  | ⟨settings, machine, cycles, .halted reason⟩ =>
    (.ok (.halted reason), ⟨settings, machine, cycles, .halted reason⟩)
  | ⟨settings, machine, cycles, .running⟩ =>
    -- The cycle counts whatever comes of the step.
    match machine.step with
    | (.ok status, machine) => (.ok status, ⟨settings, machine, cycles + 1, status⟩)
    | (.error f, machine) => (.error f, ⟨settings, machine, cycles + 1, .running⟩)

/-- Takes steps until the program halts, the host fails or `budget` steps are
    taken. -/
def finishWithin : (budget : Nat) → Run σ → Except Fault RunResult × Run σ
  | budget, ⟨settings, machine, cycles, status⟩ =>
    match status, budget with
    | .halted reason, _ =>
      (.ok (.halted reason cycles), ⟨settings, machine, cycles, .halted reason⟩)
    | .running, 0 => (.ok (.cycleLimit cycles), ⟨settings, machine, cycles, .running⟩)
    | .running, budget + 1 =>
      match step ⟨settings, machine, cycles, .running⟩ with
      | (.ok _, r) => finishWithin budget r
      | (.error f, r) => (.error f, r)

/-- Takes steps until the program halts, the host fails or the cycles of the
    settings are used up. -/
def finish (r : Run σ) : Except Fault RunResult × Run σ :=
  finishWithin (r.settings.maxCycles - r.cycles) r

end Run

end NibbleArena
