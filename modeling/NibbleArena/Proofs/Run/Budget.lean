import Mathlib.Data.Nat.Find
import NibbleArena.Host.Streams
import NibbleArena.Proofs.Run.Calls

/-! # Budgets — all steps of a run, one after the other

    Asking a run for all steps that are left is a loop.  `Loop` is that loop, with its
    exits in the order in which they are looked at and without any count of what is
    left; `finish` is its one outcome, so the loop ends whatever the program and the
    host do.

    The steps of the machine are numbered by the cycle that counts them.  `Ending` says
    how a run ends by these steps alone: at the first step that does not go on, or with
    its budget spent.  Steps that go on move a run forward and do not change how it
    ends (`finish_eq_advanced`); from there on each ending is one law of `finish`. -/

namespace NibbleArena.Run

variable {σ : Type} {r r' : Run σ}

/-- The run has ended with this result: it has halted, or else its budget is spent. -/
inductive Settled (r : Run σ) : RunResult → Prop
  | halted {reason : HaltReason} (h : r.status = .halted reason) :
      Settled r (.halted reason r.cycles)
  | spent (h : r.status = .running) (hspent : r.settings.maxCycles ≤ r.cycles) :
      Settled r (.cycleLimit r.cycles)

variable [Host σ] {x : Except Fault RunResult × Run σ}

/-- Asking for all steps, as a loop. -/
inductive Loop : Run σ → Except Fault RunResult × Run σ → Prop
  | settled {r : Run σ} {result : RunResult} (h : Settled r result) : Loop r (.ok result, r)
  | failed {r r' : Run σ} {f : Fault} (h : r.status = .running)
      (hleft : r.cycles < r.settings.maxCycles) (hstep : r.step = (.error f, r')) :
      Loop r (.error f, r')
  | onward {r r' : Run σ} {status : Status} {x : Except Fault RunResult × Run σ}
      (h : r.status = .running) (hleft : r.cycles < r.settings.maxCycles)
      (hstep : r.step = (.ok status, r')) (hlater : Loop r' x) : Loop r x

/-! ## What a step makes of a run -/

theorem settings_step (r : Run σ) : r.step.2.settings = r.settings := by
  obtain ⟨settings, machine, cycles, status⟩ := r
  cases status with
  | halted reason => rfl
  | running =>
      simp only [Run.step]
      split
      · rfl
      · rfl

theorem cycles_step (h : r.status = .running) : r.step.2.cycles = r.cycles + 1 := by
  obtain ⟨settings, machine, cycles, status⟩ := r
  cases h
  simp only [Run.step]
  split
  · rfl
  · rfl

/-- A step takes one from what is left of the budget. -/
theorem left_of_step {y : Except Fault Status} {left : Nat} (h : r.status = .running)
    (hstep : r.step = (y, r')) (hleft : r.settings.maxCycles - r.cycles = left + 1) :
    r'.settings.maxCycles - r'.cycles = left := by
  have hsettings : r'.settings = r.settings := by rw [← r.settings_step, hstep]
  have hcycles : r'.cycles = r.cycles + 1 := by rw [← cycles_step h, hstep]
  rw [hsettings, hcycles]
  omega

theorem step_of_ok {status : Status} {m : Machine σ} (h : r.status = .running)
    (hstep : r.machine.step = (.ok status, m)) :
    r.step = (.ok status, ⟨r.settings, m, r.cycles + 1, status⟩) := by
  obtain ⟨settings, machine, cycles, _⟩ := r
  cases h
  simp only [Run.step, hstep]

theorem step_of_error {f : Fault} {m : Machine σ} (h : r.status = .running)
    (hstep : r.machine.step = (.error f, m)) :
    r.step = (.error f, ⟨r.settings, m, r.cycles + 1, .running⟩) := by
  obtain ⟨settings, machine, cycles, _⟩ := r
  cases h
  simp only [Run.step, hstep]

/-! ## The loop -/

/-- A run that has ended stays as it is, whatever the host would answer. -/
theorem Settled.finish_eq {result : RunResult} (h : Settled r result) :
    r.finish = (.ok result, r) := by
  cases h with
  | halted h => exact finish_of_halted h
  | spent h hspent =>
      obtain ⟨settings, machine, cycles, _⟩ := r
      cases h
      rw [finish, Nat.sub_eq_zero_of_le hspent, finishWithin.eq_def]

theorem finish_of_error {f : Fault} (h : r.status = .running)
    (hleft : r.cycles < r.settings.maxCycles) (hstep : r.step = (.error f, r')) :
    r.finish = (.error f, r') := by
  obtain ⟨settings, machine, cycles, _⟩ := r
  cases h
  have hlt : cycles < settings.maxCycles := hleft
  obtain ⟨left, hbudget⟩ := Nat.exists_eq_add_of_lt hlt
  have hsub : settings.maxCycles - cycles = left + 1 := by omega
  rw [finish, hsub]
  simp only [finishWithin, hstep]

theorem finish_of_ok {status : Status} (h : r.status = .running)
    (hleft : r.cycles < r.settings.maxCycles) (hstep : r.step = (.ok status, r')) :
    r.finish = r'.finish := by
  obtain ⟨left, hbudget⟩ := Nat.exists_eq_add_of_lt hleft
  have hsub : r.settings.maxCycles - r.cycles = left + 1 := by omega
  rw [finish, finish, hsub, left_of_step h hstep hsub]
  obtain ⟨settings, machine, cycles, _⟩ := r
  cases h
  simp only [finishWithin, hstep]

/-- What the loop comes to is what `finish` gives. -/
theorem Loop.eq_finish (h : Loop r x) : x = r.finish := by
  induction h with
  | settled h => exact h.finish_eq.symm
  | failed h hleft hstep => exact (finish_of_error h hleft hstep).symm
  | onward h hleft hstep _ ih => exact ih.trans (finish_of_ok h hleft hstep).symm

omit [Host σ] in
theorem settled_or_left (r : Run σ) :
    (∃ result, Settled r result) ∨ (r.status = .running ∧ r.cycles < r.settings.maxCycles) := by
  cases hstatus : r.status with
  | halted reason => exact Or.inl ⟨_, .halted hstatus⟩
  | running =>
      rcases Nat.lt_or_ge r.cycles r.settings.maxCycles with hleft | hspent
      · exact Or.inr ⟨rfl, hleft⟩
      · exact Or.inl ⟨_, .spent hstatus hspent⟩

/-- The loop ends, by induction on what is left of the budget. -/
theorem loop_finish (r : Run σ) : Loop r r.finish := by
  generalize hbudget : r.settings.maxCycles - r.cycles = left
  induction left generalizing r with
  | zero =>
      obtain ⟨result, h⟩ | ⟨h, hleft⟩ := r.settled_or_left
      · rw [h.finish_eq]
        exact .settled h
      · omega
  | succ left ih =>
      obtain ⟨result, h⟩ | ⟨h, hleft⟩ := r.settled_or_left
      · rw [h.finish_eq]
        exact .settled h
      · rcases hstep : r.step with ⟨f | status, r'⟩
        · rw [finish_of_error h hleft hstep]
          exact .failed h hleft hstep
        · rw [finish_of_ok h hleft hstep]
          exact .onward h hleft hstep (ih r' (left_of_step h hstep hbudget))

/-- A loop that does not fail leaves a run that has ended. -/
theorem Loop.settles {result : RunResult} (h : Loop r x) (hok : x.1 = .ok result) :
    Settled x.2 result := by
  induction h with
  | settled h =>
      cases hok
      exact h
  | failed => exact nomatch hok
  | onward _ _ _ _ ih => exact ih hok

/-! ## Steps by their numbers -/

/-- The machine when the steps before the one with the number `j` are taken. -/
def machineAt (r : Run σ) (j : Nat) : Machine σ := r.machine.after (j - (r.cycles + 1))

/-- The steps behind the cycles counted so far and before the `j`-th go on. -/
def GoesOnTo (r : Run σ) (j : Nat) : Prop :=
  ∀ i, r.cycles < i → i < j → (r.machineAt i).step.1 = .ok .running

/-- The run when `k` steps have gone on. -/
def advanced (r : Run σ) (k : Nat) : Run σ :=
  ⟨r.settings, r.machine.after k, r.cycles + k, .running⟩

theorem machineAt_add (r : Run σ) (k : Nat) :
    r.machineAt (r.cycles + k + 1) = r.machine.after k := by
  have hnumber : r.cycles + k + 1 - (r.cycles + 1) = k := by omega
  rw [machineAt, hnumber]

/-- Steps that go on do not change how a run ends. -/
theorem finish_eq_advanced {k : Nat} (h : r.status = .running)
    (hk : r.cycles + k ≤ r.settings.maxCycles) (hgo : r.GoesOnTo (r.cycles + k + 1)) :
    r.finish = (r.advanced k).finish := by
  induction k with
  | zero =>
      obtain ⟨settings, machine, cycles, _⟩ := r
      cases h
      rfl
  | succ k ih =>
      have hstep : (r.machine.after k).step = (.ok .running, r.machine.after (k + 1)) := by
        have hrunning := hgo (r.cycles + k + 1) (by omega) (by omega)
        rw [machineAt_add] at hrunning
        exact Prod.ext hrunning rfl
      rw [ih (by omega) fun i hi hlt => hgo i hi (by omega)]
      exact finish_of_ok (r := r.advanced k) rfl hk (step_of_ok rfl hstep)

/-- How a run can end that has steps left. -/
inductive Ending (r : Run σ) : Except Fault RunResult × Run σ → Prop
  | halted {c : Nat} {reason : HaltReason} {m : Machine σ} (hlt : r.cycles < c)
      (hle : c ≤ r.settings.maxCycles) (hgo : r.GoesOnTo c)
      (h : (r.machineAt c).step = (.ok (.halted reason), m)) :
      Ending r (.ok (.halted reason c), ⟨r.settings, m, c, .halted reason⟩)
  | failed {j : Nat} {f : Fault} {m : Machine σ} (hlt : r.cycles < j)
      (hle : j ≤ r.settings.maxCycles) (hgo : r.GoesOnTo j)
      (h : (r.machineAt j).step = (.error f, m)) :
      Ending r (.error f, ⟨r.settings, m, j, .running⟩)
  | spent (hgo : r.GoesOnTo (r.settings.maxCycles + 1)) :
      Ending r (.ok (.cycleLimit r.settings.maxCycles),
        ⟨r.settings, r.machineAt (r.settings.maxCycles + 1), r.settings.maxCycles, .running⟩)

theorem Ending.eq_finish (h : r.status = .running) (hleft : r.cycles < r.settings.maxCycles)
    (hend : Ending r x) : x = r.finish := by
  cases hend with
  | halted hlt hle hgo hstep =>
      obtain ⟨k, rfl⟩ := Nat.exists_eq_add_of_lt hlt
      rw [machineAt_add] at hstep
      have hnext := step_of_ok (r := r.advanced k) rfl hstep
      rw [finish_eq_advanced h (by omega) hgo, finish_of_ok (r := r.advanced k) rfl hle hnext]
      refine (Settled.finish_eq ?_).symm
      exact .halted rfl
  | failed hlt hle hgo hstep =>
      obtain ⟨k, rfl⟩ := Nat.exists_eq_add_of_lt hlt
      rw [machineAt_add] at hstep
      have hnext := step_of_error (r := r.advanced k) rfl hstep
      rw [finish_eq_advanced h (by omega) hgo]
      exact (finish_of_error (r := r.advanced k) rfl hle hnext).symm
  | spent hgo =>
      obtain ⟨k, hk⟩ := Nat.exists_eq_add_of_le (Nat.le_of_lt hleft)
      rw [hk] at hgo ⊢
      have hspent : Settled (r.advanced k) (.cycleLimit (r.cycles + k)) :=
        .spent rfl (Nat.le_of_eq hk)
      rw [finish_eq_advanced h (Nat.le_of_eq hk.symm) hgo, hspent.finish_eq, machineAt_add]
      rfl

/-- A run with steps left ends in one of these ways: at the least number of a step that
    does not go on, if there is one within the budget. -/
theorem exists_ending (r : Run σ) : ∃ x, Ending r x := by
  classical
  by_cases hstop : ∃ j, r.cycles < j ∧ j ≤ r.settings.maxCycles
      ∧ (r.machineAt j).step.1 ≠ .ok .running
  · obtain ⟨hlt, hle, hne⟩ := Nat.find_spec hstop
    have hgo : r.GoesOnTo (Nat.find hstop) := by
      intro i hi hlt'
      by_contra hrunning
      exact Nat.find_min hstop hlt' ⟨hi, by omega, hrunning⟩
    rcases hstep : (r.machineAt (Nat.find hstop)).step with ⟨f | _ | reason, m⟩
    · exact ⟨_, .failed hlt hle hgo hstep⟩
    · rw [hstep] at hne
      exact absurd rfl hne
    · exact ⟨_, .halted hlt hle hgo hstep⟩
  · refine ⟨_, .spent ?_⟩
    intro i hi hlt
    by_contra hrunning
    exact hstop ⟨i, hi, Nat.lt_succ_iff.1 hlt, hrunning⟩

theorem ending_finish (h : r.status = .running) (hleft : r.cycles < r.settings.maxCycles) :
    Ending r r.finish := by
  obtain ⟨x, hend⟩ := exists_ending r
  rw [← hend.eq_finish h hleft]
  exact hend

theorem finish_halted_iff (h : r.status = .running) (hleft : r.cycles < r.settings.maxCycles)
    (reason : HaltReason) (c : Nat) :
    r.finish.1 = .ok (.halted reason c)
      ↔ r.cycles < c ∧ c ≤ r.settings.maxCycles ∧ r.GoesOnTo c
        ∧ (r.machineAt c).step.1 = .ok (.halted reason) := by
  constructor
  · intro hfinish
    have hend := ending_finish h hleft
    generalize r.finish = x at hfinish hend
    cases hend with
    | halted hlt hle hgo hstep =>
        cases hfinish
        exact ⟨hlt, hle, hgo, congrArg Prod.fst hstep⟩
    | failed => exact nomatch hfinish
    | spent => exact nomatch hfinish
  · rintro ⟨hlt, hle, hgo, hhalt⟩
    have hstep : (r.machineAt c).step = (.ok (.halted reason), (r.machineAt c).step.2) :=
      Prod.ext hhalt rfl
    rw [← (Ending.halted hlt hle hgo hstep).eq_finish h hleft]

theorem finish_limit_iff (h : r.status = .running) (hleft : r.cycles < r.settings.maxCycles)
    (c : Nat) :
    r.finish.1 = .ok (.cycleLimit c)
      ↔ c = r.settings.maxCycles ∧ r.GoesOnTo (r.settings.maxCycles + 1) := by
  constructor
  · intro hfinish
    have hend := ending_finish h hleft
    generalize r.finish = x at hfinish hend
    cases hend with
    | halted => exact nomatch hfinish
    | failed => exact nomatch hfinish
    | spent hgo =>
        cases hfinish
        exact ⟨rfl, hgo⟩
  · rintro ⟨rfl, hgo⟩
    rw [← (Ending.spent hgo).eq_finish h hleft]

/-- A run fails at the first step that does not go on.  The step has been counted, and
    it has moved nothing. -/
theorem finish_error_iff (h : r.status = .running) (hleft : r.cycles < r.settings.maxCycles)
    (f : Fault) :
    r.finish.1 = .error f
      ↔ ∃ j, r.cycles < j ∧ j ≤ r.settings.maxCycles ∧ r.GoesOnTo j
          ∧ (r.machineAt j).step.1 = .error f ∧ r.finish.2.cycles = j
          ∧ r.finish.2.machine.core = (r.machineAt j).core
          ∧ r.finish.2.machine.regs = (r.machineAt j).regs := by
  constructor
  · intro hfinish
    have hend := ending_finish h hleft
    generalize r.finish = x at hfinish hend
    cases hend with
    | halted => exact nomatch hfinish
    | failed hlt hle hgo hstep =>
        cases hfinish
        have hkept := Machine.step_of_error (congrArg Prod.fst hstep)
        rw [hstep] at hkept
        have hcore := congrArg Machine.core hkept
        have hregs := congrArg Machine.regs hkept
        exact ⟨_, hlt, hle, hgo, congrArg Prod.fst hstep, rfl, hcore, hregs⟩
    | spent => exact nomatch hfinish
  · rintro ⟨j, hlt, hle, hgo, hfail, -⟩
    have hstep : (r.machineAt j).step = (.error f, (r.machineAt j).step.2) := Prod.ext hfail rfl
    rw [← (Ending.failed hlt hle hgo hstep).eq_finish h hleft]

/-! ## Steps taken beforehand -/

theorem cycles_step_le (r : Run σ) : r.step.2.cycles ≤ r.cycles + 1 := by
  cases hstatus : r.status with
  | halted reason =>
      rw [step_of_halted hstatus]
      exact Nat.le_succ r.cycles
  | running => exact Nat.le_of_eq (cycles_step hstatus)

theorem finish_step (hleft : r.cycles < r.settings.maxCycles) (hok : r.step.1.isOk = true) :
    r.step.2.finish = r.finish := by
  cases hstatus : r.status with
  | halted reason => rw [step_of_halted hstatus]
  | running =>
      rcases hstep : r.step with ⟨f | status, r'⟩
      · rw [hstep] at hok
        exact nomatch hok
      · exact (finish_of_ok hstatus hleft hstep).symm

/-- Steps that are asked for one by one within the budget, and succeed, do not change
    how the run ends. -/
theorem finish_after_steps {k : Nat} (hk : r.cycles + k ≤ r.settings.maxCycles)
    (hok : ∀ i < k, (r.after (List.replicate i .step)).step.1.isOk = true) :
    (r.after (List.replicate k .step)).finish = r.finish := by
  induction k generalizing r with
  | zero => rfl
  | succ k ih =>
      have hcycles := r.cycles_step_le
      have hfirst : r.step.1.isOk = true := hok 0 (Nat.succ_pos k)
      have hbudget : r.step.2.cycles + k ≤ r.step.2.settings.maxCycles := by
        rw [settings_step]
        omega
      show (r.step.2.after (List.replicate k .step)).finish = r.finish
      rw [ih hbudget fun i hi => hok (i + 1) (Nat.succ_lt_succ hi)]
      exact finish_step (by omega) hfirst

/-- **A run is bounded iteration.**  For every run and every host the loop ends, in one
    way only.  A halted run and one without budget end as they are; no answer of a host
    is asked for.  A running one with budget ends with the first step that does not go
    on, by halting or by a failure that leaves core and pointers alone, and at the limit
    if there is none.  A run that has ended well stays so, again without its host; and
    it does not matter how many of the steps were asked for one by one. -/
theorem finish_iterates (r : Run σ) :
    (∀ x, Loop r x ↔ x = r.finish)
      ∧ (∀ reason, r.status = .halted reason → ∀ other : Host σ,
          @finish σ other r = (.ok (.halted reason r.cycles), r))
      ∧ (r.status = .running → r.settings.maxCycles ≤ r.cycles → ∀ other : Host σ,
          @finish σ other r = (.ok (.cycleLimit r.cycles), r))
      ∧ (r.status = .running → r.cycles < r.settings.maxCycles →
          (∀ reason c, r.finish.1 = .ok (.halted reason c)
            ↔ r.cycles < c ∧ c ≤ r.settings.maxCycles ∧ r.GoesOnTo c
              ∧ (r.machineAt c).step.1 = .ok (.halted reason))
          ∧ (∀ c, r.finish.1 = .ok (.cycleLimit c)
            ↔ c = r.settings.maxCycles ∧ r.GoesOnTo (r.settings.maxCycles + 1))
          ∧ ∀ f, r.finish.1 = .error f
            ↔ ∃ j, r.cycles < j ∧ j ≤ r.settings.maxCycles ∧ r.GoesOnTo j
                ∧ (r.machineAt j).step.1 = .error f ∧ r.finish.2.cycles = j
                ∧ r.finish.2.machine.core = (r.machineAt j).core
                ∧ r.finish.2.machine.regs = (r.machineAt j).regs)
      ∧ (∀ result r', r.finish = (.ok result, r') → ∀ other : Host σ,
          @finish σ other r' = (.ok result, r'))
      ∧ ∀ k, r.cycles + k ≤ r.settings.maxCycles →
          (∀ i < k, (r.after (List.replicate i .step)).step.1.isOk = true) →
          (r.after (List.replicate k .step)).finish = r.finish := by
  refine ⟨?_, ?_, ?_, ?_, ?_, fun k => finish_after_steps⟩
  · intro x
    constructor
    · exact Loop.eq_finish
    · rintro rfl
      exact loop_finish r
  · intro reason h other
    exact (Settled.halted h).finish_eq
  · intro h hspent other
    exact (Settled.spent h hspent).finish_eq
  · intro h hleft
    exact ⟨finish_halted_iff h hleft, finish_limit_iff h hleft, finish_error_iff h hleft⟩
  · intro result r' hfinish
    have hloop := loop_finish r
    rw [hfinish] at hloop
    have hsettled : Settled r' result := hloop.settles rfl
    intro other
    exact hsettled.finish_eq

/-- A program of two instructions with a budget of two cycles: it halts on its last
    cycle, also when its first step was asked for alone. -/
theorem finish_iterates_last_cycle :
    let r : Run Streams :=
      prepare ⟨5, 2⟩ (by decide) (Program.parse "@$") (Streams.ofBytes [])
    ∃ r', r.finish = (.ok (.halted .instruction 2), r')
      ∧ (∀ other : Host Streams, @finish Streams other r' = (.ok (.halted .instruction 2), r'))
      ∧ (r.after [.step]).finish = r.finish := by
  intro r
  obtain ⟨-, -, -, hends, hagain, hsteps⟩ := finish_iterates r
  have hgo : r.GoesOnTo 2 := by
    intro i hpos hlt
    obtain rfl : i = 1 := Nat.le_antisymm (Nat.le_of_lt_succ hlt) hpos
    rfl
  have hhalted : r.finish.1 = .ok (.halted .instruction 2) :=
    ((hends rfl (by decide)).1 .instruction 2).2 ⟨by decide, by decide, hgo, rfl⟩
  have hfinish : r.finish = (.ok (.halted .instruction 2), r.finish.2) := Prod.ext hhalted rfl
  refine ⟨r.finish.2, hfinish, hagain _ _ hfinish, hsteps 1 (by decide) ?_⟩
  intro i hi
  obtain rfl : i = 0 := Nat.lt_one_iff.1 hi
  rfl

end NibbleArena.Run
