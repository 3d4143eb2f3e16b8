import NibbleArena.Proofs.Machine.Bounds
import NibbleArena.Run

/-! # Calls — a run that is driven from outside

    A run can be asked for one step or for all that are left, over and over, also after
    a fault or when it has halted.  Asking for all is asking for steps one after the
    other, so what each step keeps holds after any calls: `after_induction`.

    `Sound` is what every run keeps.  Its core is as long as its settings say and its
    pointers are in it.  A run is halted only where its machine is stuck, and a halted
    run does not change any more. -/

namespace NibbleArena

namespace Run

variable {σ : Type} {r : Run σ}

/-- The ways to make a run of a program. -/
inductive Built (p : Program) (host : σ) : RunSettings → Run σ → Prop
  | new : Built p host RunSettings.default (Run.new p host)
  | start {s : RunSettings} {r : Run σ} (h : Run.start s p host = .ok r) : Built p host s r

/-- What can be asked of a run. -/
inductive Call
  | step
  | finish
  deriving DecidableEq

/-- What a run keeps to. -/
structure Sound (s : RunSettings) (r : Run σ) : Prop where
  settings_eq : r.settings = s
  size_eq : r.machine.core.size = s.coreSize
  inCore : r.machine.InCore
  stuck : ∀ reason, r.status = .halted reason → Machine.Stuck reason r.machine.core r.machine.regs

variable [Host σ]

/-- The run behind a call, whatever came of it. -/
def call (r : Run σ) : Call → Run σ
  | .step => r.step.2
  | .finish => r.finish.2

/-- The run behind calls in order. -/
def after (calls : List Call) (r : Run σ) : Run σ := calls.foldl call r

/-! ## What every step keeps -/

theorem finishWithin_induction {P : Run σ → Prop} (hstep : ∀ r, P r → P r.step.2) (budget : Nat)
    (h : P r) : P (finishWithin budget r).2 := by
  induction budget generalizing r with
  | zero =>
      obtain ⟨settings, machine, cycles, status⟩ := r
      cases status with
      | running => exact h
      | halted reason => exact h
  | succ budget ih =>
      obtain ⟨settings, machine, cycles, status⟩ := r
      cases status with
      | halted reason => exact h
      | running =>
          have hnext := hstep _ h
          simp only [finishWithin]
          rcases hresult : Run.step ⟨settings, machine, cycles, .running⟩ with ⟨f | status, r'⟩
          · rw [hresult] at hnext
            exact hnext
          · rw [hresult] at hnext
            exact ih hnext

/-- What every step keeps holds after any calls. -/
theorem after_induction {P : Run σ → Prop} (hstep : ∀ r, P r → P r.step.2) (calls : List Call)
    (h : P r) : P (r.after calls) := by
  induction calls generalizing r with
  | nil => exact h
  | cons c rest ih =>
      show P ((r.call c).after rest)
      cases c with
      | step => exact ih (hstep r h)
      | finish => exact ih (finishWithin_induction hstep _ h)

theorem Sound.step {s : RunSettings} (h : Sound s r) : Sound s r.step.2 := by
  obtain ⟨settings, machine, cycles, status⟩ := r
  cases status with
  | halted reason => exact h
  | running =>
      have hsize := machine.size_step
      have hinside := Machine.InCore.step h.inCore
      rcases hresult : machine.step with ⟨f | status, machine'⟩
      · rw [hresult] at hsize hinside
        simp only [Run.step, hresult]
        exact ⟨h.settings_eq, hsize.trans h.size_eq, hinside, nofun⟩
      · rw [hresult] at hsize hinside
        simp only [Run.step, hresult]
        refine ⟨h.settings_eq, hsize.trans h.size_eq, hinside, ?_⟩
        rintro reason rfl
        -- the step that halted has left the machine where it is stuck
        have hhalt : machine.step.1 = .ok (.halted reason) := congrArg Prod.fst hresult
        have hsame : machine = machine' :=
          congrArg Prod.snd ((Machine.step_of_halted hhalt).symm.trans hresult)
        rw [← hsame]
        exact Machine.stuck_of_halted hhalt

omit [Host σ] in
theorem sound_prepare (s : RunSettings) (h : 0 < s.coreSize) (p : Program) (host : σ) :
    Sound s (prepare s h p host) where
  settings_eq := rfl
  size_eq := ((Core.zeroed s.coreSize h).size_load 0 p).trans (Core.size_zeroed _ h)
  inCore := (Core.zeroed s.coreSize h).load_within 0 p
  stuck := nofun

omit [Host σ] in
theorem Built.sound {p : Program} {host : σ} {s : RunSettings} (h : Built p host s r) :
    Sound s r := by
  cases h with
  | new => exact sound_prepare _ _ p host
  | start h =>
      by_cases hpos : 0 < s.coreSize
      · rw [start_of_pos hpos] at h
        split at h
        · cases h
          exact sound_prepare s hpos p host
        · cases h
      · have hinvalid : s.validate = .error RunSettings.emptyCore :=
          if_pos (Nat.eq_zero_of_not_pos hpos)
        simp only [Run.start, hinvalid] at h
        cases h

/-! ## Halted runs -/

theorem step_of_halted {reason : HaltReason} (h : r.status = .halted reason) :
    r.step = (.ok (.halted reason), r) := by
  obtain ⟨settings, machine, cycles, status⟩ := r
  cases h
  rfl

theorem finish_of_halted {reason : HaltReason} (h : r.status = .halted reason) :
    r.finish = (.ok (.halted reason r.cycles), r) := by
  obtain ⟨settings, machine, cycles, status⟩ := r
  cases h
  rw [finish, finishWithin.eq_def]

/-- A halted run stays as it is, whatever is asked of it. -/
theorem after_of_halted {reason : HaltReason} (h : r.status = .halted reason)
    (calls : List Call) : r.after calls = r := by
  induction calls with
  | nil => rfl
  | cons c rest ih =>
      cases c with
      | step =>
          show r.step.2.after rest = r
          rw [step_of_halted h]
          exact ih
      | finish =>
          show r.finish.2.after rest = r
          rw [finish_of_halted h]
          exact ih

end Run

end NibbleArena
