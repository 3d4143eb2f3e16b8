import NibbleArena.Machine

/-! # Steps — what depends on the host and what does not

    Thirteen of the instructions do not call the host.  What they do can be read
    off on the sealed host (`step_local`), so a statement about two hosts has to
    look at the other three instructions only.  For those, one lemma per answer
    says what a step makes of it.  A statement about the host alone has to look at
    what the host is asked (`step_asked`).

    Whoever drives a machine calls `step` over and over, whatever comes of each
    call.  `after n` is the machine after `n` calls and `calls n` is what these
    calls gave, in order. -/

namespace NibbleArena

namespace Machine

variable {σ τ : Type} {core : Core} {cell exec : Nat}

/-- The machine with its host replaced. -/
def withHost (host : τ) (m : Machine σ) : Machine τ := ⟨m.core, m.regs, host⟩

/-- A jump does the same on every host. -/
theorem jump_eq (host : σ) (target : Option Nat) :
    jump core cell exec host target
      = ((jump core cell exec SealedHost.sealed target).1,
          (jump core cell exec SealedHost.sealed target).2.withHost host) := by
  cases target with
  | none => rfl
  | some target => rfl

/-- A jump does not fail. -/
theorem jump_ok (host : σ) (target : Option Nat) :
    ∃ status, (jump core cell exec host target).1 = .ok status := by
  cases target with
  | none => exact ⟨_, rfl⟩
  | some target => exact ⟨_, rfl⟩

/-- A step on the sealed host does not fail. -/
theorem step_sealed_ok (core : Core) (regs : Registers) :
    ∃ status, (step ⟨core, regs, SealedHost.sealed⟩).1 = .ok status := by
  obtain ⟨cell, exec⟩ := regs
  cases hop : core.opcode exec with
  | loopCell | loopChar =>
      simp only [step, hop]
      split
      · exact jump_ok _ _
      · exact ⟨_, rfl⟩
  | endCell | endChar =>
      simp only [step, hop]
      split
      · exact ⟨_, rfl⟩
      · exact jump_ok _ _
  | _ =>
      simp only [step, hop]
      exact ⟨_, rfl⟩

variable [Host σ]

/-- An instruction that does not call the host does the same on every host, and
    leaves it alone. -/
theorem step_local {regs : Registers} (h : (core.opcode regs.exec).isHostOnly = false) (host : σ) :
    step ⟨core, regs, host⟩
      = ((step ⟨core, regs, SealedHost.sealed⟩).1,
          (step ⟨core, regs, SealedHost.sealed⟩).2.withHost host) := by
  obtain ⟨cell, exec⟩ := regs
  cases hop : core.opcode exec with
  | output | input | swap =>
      rw [hop] at h
      exact nomatch h
  | loopCell | loopChar =>
      simp only [step, hop]
      split
      · exact jump_eq host _
      · rfl
  | endCell | endChar =>
      simp only [step, hop]
      split
      · rfl
      · exact jump_eq host _
  | _ =>
      simp only [step, hop]
      rfl

/-! ## The three instructions that call the host -/

theorem step_output_ok {host host' : σ} (hop : core.opcode exec = .output)
    (h : Host.output (core.readCharacter cell) host = (.ok (), host')) :
    step ⟨core, ⟨cell, exec⟩, host⟩ = goOn core cell exec host' := by
  simp only [step, hop, h]

theorem step_output_error {host host' : σ} {f : Fault} (hop : core.opcode exec = .output)
    (h : Host.output (core.readCharacter cell) host = (.error f, host')) :
    step ⟨core, ⟨cell, exec⟩, host⟩ = (.error f, ⟨core, ⟨cell, exec⟩, host'⟩) := by
  simp only [step, hop, h]

theorem step_input_ok {host host' : σ} {b : Option UInt8} (hop : core.opcode exec = .input)
    (h : Host.input host = (.ok b, host')) :
    step ⟨core, ⟨cell, exec⟩, host⟩ = store core cell exec host' b := by
  simp only [step, hop, h]

theorem step_input_error {host host' : σ} {f : Fault} (hop : core.opcode exec = .input)
    (h : Host.input host = (.error f, host')) :
    step ⟨core, ⟨cell, exec⟩, host⟩ = (.error f, ⟨core, ⟨cell, exec⟩, host'⟩) := by
  simp only [step, hop, h]

theorem step_swap {host host' : σ} {b : Option UInt8} (hop : core.opcode exec = .swap)
    (h : Host.swap (core.readCharacter cell) host = (b, host')) :
    step ⟨core, ⟨cell, exec⟩, host⟩ = store core cell exec host' b := by
  simp only [step, hop, h]

omit [Host σ] in
theorem host_store (host : σ) (b : Option UInt8) : (store core cell exec host b).2.host = host := by
  cases b with
  | none => rfl
  | some b => rfl

/-- What a step makes of its host: it asks the host nothing, or one thing. -/
inductive Asked (host : σ) : σ → Prop
  | nothing : Asked host host
  | output (b : UInt8) : Asked host (Host.output b host).2
  | input : Asked host (Host.input host).2
  | swap (b : UInt8) : Asked host (Host.swap b host).2

theorem step_asked (m : Machine σ) : Asked m.host m.step.2.host := by
  obtain ⟨core, ⟨cell, exec⟩, host⟩ := m
  cases hcall : (core.opcode exec).isHostOnly with
  | false =>
      rw [step_local hcall host]
      exact .nothing
  | true =>
      cases hop : core.opcode exec with
      | output =>
          have hasked : Asked host (Host.output (core.readCharacter cell) host).2 := .output _
          rcases hres : Host.output (core.readCharacter cell) host with ⟨f | _, host'⟩
          · rw [hres] at hasked
            rw [step_output_error hop hres]
            exact hasked
          · rw [hres] at hasked
            rw [step_output_ok hop hres]
            exact hasked
      | input =>
          have hasked : Asked host (Host.input host).2 := .input
          rcases hres : Host.input host with ⟨f | b, host'⟩
          · rw [hres] at hasked
            rw [step_input_error hop hres]
            exact hasked
          · rw [hres] at hasked
            rw [step_input_ok hop hres, host_store]
            exact hasked
      | swap =>
          rw [step_swap hop rfl, host_store]
          exact .swap _
      | _ => rw [hop] at hcall; exact nomatch hcall

/-! ## Calls one after the other -/

/-- The machine after `n` calls of `step`. -/
def after (m : Machine σ) : Nat → Machine σ
  | 0 => m
  | n + 1 => (after m n).step.2

/-- What the first `n` calls of `step` give, each with the machine after it. -/
def calls : Nat → Machine σ → List (Except Fault Status × Machine σ)
  | 0, _ => []
  | n + 1, m => m.step :: calls n m.step.2

/-- The first call and those behind it. -/
theorem calls_succ {m m' : Machine σ} {r : Except Fault Status} (h : m.step = (r, m')) (n : Nat) :
    calls (n + 1) m = (r, m') :: calls n m' := by
  show m.step :: calls n m.step.2 = _
  rw [h]

/-- Calls add up. -/
theorem after_after (m : Machine σ) (i n : Nat) : (m.after i).after n = m.after (i + n) := by
  induction n with
  | zero => rfl
  | succ n ih =>
      show ((m.after i).after n).step.2 = (m.after (i + n)).step.2
      rw [ih]

/-- The first call comes before the others. -/
theorem after_succ (m : Machine σ) (n : Nat) : m.after (n + 1) = m.step.2.after n := by
  rw [Nat.add_comm, ← after_after]
  rfl

end Machine

end NibbleArena
