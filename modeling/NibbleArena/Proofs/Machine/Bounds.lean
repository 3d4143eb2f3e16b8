import NibbleArena.Proofs.Core.Character
import NibbleArena.Proofs.Core.Load
import NibbleArena.Proofs.Machine.Effect

/-! # Bounds — pointers that stay in the core, and machines that stay halted

    A pointer is moved by a walk around the core and set to the end of another one,
    so once it is in the core it stays there.  A step may leave it where it is, so it
    is not brought in if it was outside.

    A step that halts has looked at the core and the pointers and changed neither.  It
    has not called the host, so it does not depend on the host, and whoever takes it
    again comes to the same end: `stuck_of_halted`. -/

namespace NibbleArena

/-- Both pointers are among the first `n` addresses. -/
structure Registers.Within (n : Nat) (regs : Registers) : Prop where
  cell_lt : regs.cell < n
  exec_lt : regs.exec < n

namespace Core

/-- A loaded program starts with both pointers in the core. -/
theorem load_within (c : Core) (o : Nat) (p : Program) :
    (c.load o p).2.Within (c.load o p).1.size := by
  rw [size_load, load_eq]
  exact ⟨c.wrap_lt _, c.wrap_lt o⟩

end Core

namespace Machine

variable {σ : Type} {core : Core} {cell exec : Nat} {host : σ}

/-- The pointers of a machine are in its core. -/
def InCore (m : Machine σ) : Prop := m.regs.Within m.core.size

/-! ## Pointers -/

theorem goOn_inCore (h : cell < core.size) : (goOn core cell exec host).2.InCore :=
  ⟨h, core.offset_lt exec 1⟩

theorem jump_inCore (h : InCore ⟨core, ⟨cell, exec⟩, host⟩) (target : Option Nat) :
    (jump core cell exec host target).2.InCore := by
  cases target with
  | none => exact h
  | some target => exact goOn_inCore h.cell_lt

theorem store_inCore (h : cell < core.size) (b : Option UInt8) :
    (store core cell exec host b).2.InCore := by
  cases b with
  | none => exact goOn_inCore h
  | some b =>
      refine goOn_inCore ?_
      rw [Core.size_assignCharacter]
      exact h

variable [Host σ] {m : Machine σ}

/-- A step keeps the pointers in the core, whatever the host answers. -/
theorem InCore.step (h : m.InCore) : m.step.2.InCore := by
  obtain ⟨core, ⟨cell, exec⟩, host⟩ := m
  have hcell : cell < core.size := h.cell_lt
  cases hop : core.opcode exec with
  | halt =>
      simp only [Machine.step, hop]
      exact h
  | right | left | rightTwo | leftTwo =>
      simp only [Machine.step, hop]
      exact goOn_inCore (core.offset_lt cell _)
  | incCell | decCell =>
      simp only [Machine.step, hop]
      refine goOn_inCore ?_
      rw [Core.size_write]
      exact hcell
  | incChar | decChar =>
      simp only [Machine.step, hop]
      refine goOn_inCore ?_
      rw [Core.size_assignCharacter]
      exact hcell
  | output =>
      simp only [Machine.step, hop]
      split
      · exact goOn_inCore hcell
      · exact h
  | input =>
      simp only [Machine.step, hop]
      split
      · exact store_inCore hcell _
      · exact h
  | swap =>
      simp only [Machine.step, hop]
      exact store_inCore hcell _
  | loopCell | loopChar =>
      simp only [Machine.step, hop]
      split
      · exact jump_inCore h _
      · exact goOn_inCore hcell
  | endCell | endChar =>
      simp only [Machine.step, hop]
      split
      · exact goOn_inCore hcell
      · exact jump_inCore h _

theorem size_step (m : Machine σ) : m.step.2.core.size = m.core.size := (step_changesOnly m).size_eq

/-! ## Failing -/

/-- Only an instruction that calls the host fails. -/
theorem isHostOnly_of_error {f : Fault} (h : m.step.1 = .error f) : m.opcode.isHostOnly = true := by
  apply Bool.of_not_eq_false
  intro hlocal
  obtain ⟨status, hok⟩ := step_sealed_ok m.core m.regs
  have hsame := congrArg Prod.fst (step_local hlocal m.host)
  exact nomatch h.symm.trans (hsame.trans hok)

/-- A step that fails changes nothing but the host. -/
theorem step_of_error {f : Fault} (h : m.step.1 = .error f) :
    m.step.2 = m.withHost m.step.2.host := by
  have hplain : (m.data.core.opcode m.regs.exec).isPlain = true :=
    Opcode.isPlain_of_isHostOnly (isHostOnly_of_error h)
  cases hact : m.data.act (m.data.core.opcode m.regs.exec) with
  | some e => exact nomatch h.symm.trans (congrArg Prod.fst (Data.step_of_act hact))
  | none =>
      obtain ⟨f', host, hstep⟩ := Data.step_of_act_none hplain hact
      have hafter : m.step = (.error f', m.withHost host) := hstep
      rw [hafter]
      rfl

/-! ## Halting -/

/-- Whatever host it is on, the next step halts for this reason and changes
    nothing. -/
def Stuck (reason : HaltReason) (core : Core) (regs : Registers) : Prop :=
  ∀ (τ : Type) [Host τ] (host : τ),
    step ⟨core, regs, host⟩ = (.ok (.halted reason), ⟨core, regs, host⟩)

omit [Host σ] in
theorem jump_halted {target : Option Nat} {reason : HaltReason}
    (h : (jump core cell exec host target).1 = .ok (.halted reason)) :
    jump core cell exec host target = (.ok (.halted reason), ⟨core, ⟨cell, exec⟩, host⟩) := by
  cases target with
  | none =>
      cases h
      rfl
  | some target => exact nomatch h

omit [Host σ] in
theorem store_running (core : Core) (cell exec : Nat) (host : σ) (b : Option UInt8) :
    (store core cell exec host b).1 = .ok .running := by
  cases b with
  | none => rfl
  | some b => rfl

/-- The instructions that call the host do not halt. -/
theorem isHostOnly_of_halted {reason : HaltReason} (h : m.step.1 = .ok (.halted reason)) :
    m.opcode.isHostOnly = false := by
  obtain ⟨core, ⟨cell, exec⟩, host⟩ := m
  show (core.opcode exec).isHostOnly = false
  cases hop : core.opcode exec with
  | output =>
      simp only [step, hop] at h
      split at h
      · cases h
      · cases h
  | input =>
      simp only [step, hop] at h
      split at h
      · cases (store_running _ _ _ _ _).symm.trans h
      · cases h
  | swap =>
      simp only [step, hop] at h
      cases (store_running _ _ _ _ _).symm.trans h
  | _ => rfl

/-- A step that halts leaves the machine as it was. -/
theorem step_of_halted {reason : HaltReason} (h : m.step.1 = .ok (.halted reason)) :
    m.step = (.ok (.halted reason), m) := by
  have hlocal := isHostOnly_of_halted h
  obtain ⟨core, ⟨cell, exec⟩, host⟩ := m
  cases hop : core.opcode exec with
  | halt =>
      simp only [step, hop] at h ⊢
      cases h
      rfl
  | loopCell | loopChar =>
      simp only [step, hop] at h ⊢
      split at h
      · rw [if_pos ‹_›]
        exact jump_halted h
      · cases h
  | endCell | endChar =>
      simp only [step, hop] at h ⊢
      split at h
      · cases h
      · rw [if_neg ‹_›]
        exact jump_halted h
  | output | input | swap =>
      rw [opcode, hop] at hlocal
      cases hlocal
  | _ =>
      simp only [step, hop] at h
      cases h

/-- A step that halts can be taken again, on any host, and comes to the same end. -/
theorem stuck_of_halted {reason : HaltReason} (h : m.step.1 = .ok (.halted reason)) :
    Stuck reason m.core m.regs := by
  have hlocal := isHostOnly_of_halted h
  intro τ _ host
  rw [step_local hlocal host]
  -- what halts here halts on the sealed host, which says what happens on every other one
  have hsealed : (step ⟨m.core, m.regs, SealedHost.sealed⟩).1 = .ok (.halted reason) := by
    have hsame := congrArg Prod.fst (step_local hlocal m.host)
    exact hsame.symm.trans h
  rw [step_of_halted hsealed]
  rfl

end Machine

end NibbleArena
