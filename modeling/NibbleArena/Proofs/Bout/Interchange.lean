import NibbleArena.Proofs.Bout.Sweep
import NibbleArena.Proofs.Machine.Independence

/-! # Interchange — agents that keep apart may have their turns in any order

    The order of the turns in a sweep matters only because the agents share a core.
    `Apart` says that at present no step of one changes anything in the footprint of
    another's.  Two agents that are next to each other in the order may then change
    places (`turns_comm`).  A turn leaves the others as far apart as they were
    (`Apart.turn`), so by induction on the permutation a whole sweep may be reordered:
    it leaves the same core and the same agents, and enters the same turns in another
    order. -/

namespace NibbleArena

namespace Bout

variable {b b' : Bout} {cycle i j : Nat} {l l' : List Nat} {p : Agent}

/-- Bouts that differ in nothing but the order of the turns they keep. -/
structure Alike (b b' : Bout) : Prop where
  core_eq : b'.core = b.core
  agents_eq : b'.agents = b.agents
  turns_perm : b'.turns.Perm b.turns

theorem Alike.refl (b : Bout) : Alike b b := ⟨rfl, rfl, .refl _⟩

theorem Alike.trans {b'' : Bout} (h : Alike b b') (h' : Alike b' b'') : Alike b b'' :=
  ⟨h'.core_eq.trans h.core_eq, h'.agents_eq.trans h.agents_eq, h'.turns_perm.trans h.turns_perm⟩

/-- The steps that two agents of the list would make now spare each other. -/
def Apart (b : Bout) (l : List Nat) : Prop :=
  ∀ i ∈ l, ∀ j ∈ l, i ≠ j → ∀ p q, b.agents[i]? = some p → b.agents[j]? = some q →
    p.alive = true → q.alive = true → b.core.Spares p.regs q.regs

/-! ## One turn -/

theorem turn_of_dead (cycle : Nat) (h : b.isAlive i = false) : (b.turn cycle i).2 = b := by
  have htook := (turn_took cycle i b).2
  generalize (b.turn cycle i).2 = b' at htook
  cases htook with
  | skipped _ => rfl
  | played hagent halive _ =>
      rw [isAlive_iff.2 ⟨_, hagent, halive⟩] at h
      exact nomatch h

theorem turn_of_alive (cycle : Nat) (hagent : b.agents[i]? = some p) (halive : p.alive = true) :
    ∃ status, (b.core.agentStep p.regs).1 = .ok status
      ∧ (b.turn cycle i).2
        = ⟨b.core.stepped p.regs,
            b.agents.setIfInBounds i (after p (b.core.agentStep p.regs).2.regs status),
            ⟨cycle, i, p.regs, b.core.opcode p.regs.exec, status⟩ :: b.turns⟩ := by
  have htook := (turn_took cycle i b).2
  generalize (b.turn cycle i).2 = b' at htook
  cases htook with
  | skipped hdead => exact nomatch halive.symm.trans (hdead p hagent)
  | @played p' status m hagent' _ hstep =>
      cases hagent.symm.trans hagent'
      refine ⟨status, congrArg Prod.fst hstep, ?_⟩
      rw [Core.stepped, Core.agentStep, hstep]

/-- A turn does not depend on the turns before it. -/
theorem Alike.turn (h : Alike b b') (cycle i : Nat) :
    Alike (b.turn cycle i).2 (b'.turn cycle i).2 := by
  obtain ⟨core, agents, turns⟩ := b
  obtain ⟨core', agents', turns'⟩ := b'
  obtain ⟨hcore, hagents, hturns⟩ := h
  obtain rfl : core' = core := hcore
  obtain rfl : agents' = agents := hagents
  cases halive : (⟨core', agents', turns⟩ : Bout).isAlive i with
  | false =>
      have halive' : (⟨core', agents', turns'⟩ : Bout).isAlive i = false := halive
      rw [turn_of_dead cycle halive, turn_of_dead cycle halive']
      exact ⟨rfl, rfl, hturns⟩
  | true =>
      obtain ⟨p, hagent, hp⟩ := isAlive_iff.1 halive
      obtain ⟨status, hstatus, heq⟩ := turn_of_alive cycle hagent hp
      obtain ⟨status', hstatus', heq'⟩ :=
        turn_of_alive (b := ⟨core', agents', turns'⟩) cycle hagent hp
      cases hstatus.symm.trans hstatus'
      rw [heq, heq']
      exact ⟨rfl, rfl, hturns.cons _⟩

theorem Alike.sweep (h : Alike b b') (cycle : Nat) (l : List Nat) :
    Alike (b.sweep cycle l).2 (b'.sweep cycle l).2 := by
  induction l generalizing b b' with
  | nil => exact h
  | cons i rest ih =>
      rw [sweep_cons, sweep_cons]
      exact ih (h.turn cycle i)

/-! ## Turns of agents that are apart -/

theorem agent_turn_of_ne (cycle : Nat) (b : Bout) (h : i ≠ j) :
    (b.turn cycle i).2.agents[j]? = b.agents[j]? :=
  congrArg Prod.fst ((turn_took cycle i b).2.lane_of_ne h)

theorem Apart.subset (h : b.Apart l) (hsub : l' ⊆ l) : b.Apart l' :=
  fun i hi j hj => h i (hsub hi) j (hsub hj)

/-- A turn leaves the other agents as far apart as they were. -/
theorem Apart.turn (h : b.Apart (i :: l)) (hi : i ∉ l) (cycle : Nat) :
    (b.turn cycle i).2.Apart l := by
  intro j hj k hk hjk q r hq hr hqalive hralive
  have hij : i ≠ j := (ne_of_mem_of_not_mem hj hi).symm
  have hik : i ≠ k := (ne_of_mem_of_not_mem hk hi).symm
  rw [agent_turn_of_ne cycle b hij] at hq
  rw [agent_turn_of_ne cycle b hik] at hr
  have hspares := h j (List.mem_cons_of_mem _ hj) k (List.mem_cons_of_mem _ hk) hjk q r hq hr
    hqalive hralive
  cases halive : b.isAlive i with
  | false =>
      rw [turn_of_dead cycle halive]
      exact hspares
  | true =>
      obtain ⟨p, hp, hpalive⟩ := isAlive_iff.1 halive
      obtain ⟨status, -, heq⟩ := turn_of_alive cycle hp hpalive
      rw [heq]
      refine hspares.stepped ?_ ?_
      · exact h i List.mem_cons_self j (List.mem_cons_of_mem _ hj) hij p q hp hq hpalive hqalive
      · exact h i List.mem_cons_self k (List.mem_cons_of_mem _ hk) hik p r hp hr hpalive hralive

/-- A turn behind one that spares it is the turn that it would have been before. -/
theorem turn_turn {q : Agent} {status status' : Status} (hij : i ≠ j) (cycle : Nat)
    (hp : b.agents[i]? = some p) (hpalive : p.alive = true)
    (hq : b.agents[j]? = some q) (hqalive : q.alive = true)
    (hstatus : (b.core.agentStep p.regs).1 = .ok status)
    (hstatus' : (b.core.agentStep q.regs).1 = .ok status')
    (hspares : b.core.Spares p.regs q.regs) :
    ((b.turn cycle i).2.turn cycle j).2
      = ⟨(b.core.stepped p.regs).stepped q.regs,
          (b.agents.setIfInBounds i (after p (b.core.agentStep p.regs).2.regs status)).setIfInBounds
            j (after q (b.core.agentStep q.regs).2.regs status'),
          ⟨cycle, j, q.regs, b.core.opcode q.regs.exec, status'⟩
            :: ⟨cycle, i, p.regs, b.core.opcode p.regs.exec, status⟩ :: b.turns⟩ := by
  have hq' : (b.turn cycle i).2.agents[j]? = some q := (agent_turn_of_ne cycle b hij).trans hq
  obtain ⟨s, hs, hfirst⟩ := turn_of_alive cycle hp hpalive
  obtain ⟨s', hs', hsecond⟩ := turn_of_alive cycle hq' hqalive
  obtain ⟨hresult, hregs, -⟩ := Core.Agrees.step_eq hspares
  have hopcode : (b.core.stepped p.regs).opcode q.regs.exec = b.core.opcode q.regs.exec :=
    Core.Agrees.opcode_eq hspares List.mem_cons_self
  cases hs.symm.trans hstatus
  rw [hsecond, hfirst]
  rw [hfirst] at hs'
  cases hs'.symm.trans (hresult.trans hstatus')
  show (⟨_, Array.setIfInBounds _ j
    (after q ((b.core.stepped p.regs).agentStep q.regs).2.regs status'),
    ⟨_, _, _, (b.core.stepped p.regs).opcode q.regs.exec, _⟩ :: _⟩ : Bout) = _
  rw [hregs, hopcode]

/-- The turns of two agents that are apart may be exchanged. -/
theorem turns_comm (h : b.Apart [i, j]) (hij : i ≠ j) (cycle : Nat) :
    Alike ((b.turn cycle i).2.turn cycle j).2 ((b.turn cycle j).2.turn cycle i).2 := by
  -- an agent that is dead has no turn, before the other one or behind it
  cases hi : b.isAlive i with
  | false =>
      have hi' : (b.turn cycle j).2.isAlive i = false :=
        (isAlive_of_lane ((turn_took cycle j b).2.lane_of_ne hij.symm)).trans hi
      rw [turn_of_dead cycle hi, turn_of_dead cycle hi']
      exact .refl _
  | true =>
      cases hj : b.isAlive j with
      | false =>
          have hj' : (b.turn cycle i).2.isAlive j = false :=
            (isAlive_of_lane ((turn_took cycle i b).2.lane_of_ne hij)).trans hj
          rw [turn_of_dead cycle hj, turn_of_dead cycle hj']
          exact .refl _
      | true =>
          obtain ⟨p, hp, hpalive⟩ := isAlive_iff.1 hi
          obtain ⟨q, hq, hqalive⟩ := isAlive_iff.1 hj
          have hpq : b.core.Spares p.regs q.regs := h i List.mem_cons_self j
            (List.mem_cons_of_mem _ List.mem_cons_self) hij p q hp hq hpalive hqalive
          have hqp : b.core.Spares q.regs p.regs := h j
            (List.mem_cons_of_mem _ List.mem_cons_self) i List.mem_cons_self hij.symm q p hq hp
            hqalive hpalive
          obtain ⟨status, hstatus⟩ := Machine.step_sealed_ok b.core p.regs
          obtain ⟨status', hstatus'⟩ := Machine.step_sealed_ok b.core q.regs
          rw [turn_turn hij cycle hp hpalive hq hqalive hstatus hstatus' hpq,
            turn_turn hij.symm cycle hq hqalive hp hpalive hstatus' hstatus hqp]
          exact ⟨Core.stepped_comm hqp hpq, Array.setIfInBounds_comm _ _ hij.symm,
            List.Perm.swap _ _ _⟩

/-! ## Sweeps in another order -/

/-- **The order of a sweep is of no account to agents that are apart**: played in any
    other order, it leaves the same core and the same agents and enters the same
    turns. -/
theorem sweep_perm (hperm : l.Perm l') (hnodup : l.Nodup) (h : b.Apart l) (cycle : Nat) :
    Alike (b.sweep cycle l).2 (b.sweep cycle l').2 := by
  induction hperm generalizing b with
  | nil => exact .refl _
  | cons i _ ih =>
      obtain ⟨hi, hrest⟩ := List.nodup_cons.1 hnodup
      rw [sweep_cons, sweep_cons]
      exact ih hrest (h.turn hi cycle)
  | swap i j l =>
      obtain ⟨hj, -⟩ := List.nodup_cons.1 hnodup
      have hji : j ≠ i := fun heq => hj (heq ▸ List.mem_cons_self)
      have hpair : b.Apart [j, i] :=
        h.subset (List.cons_subset_cons _ (List.cons_subset_cons _ (List.nil_subset _)))
      rw [sweep_cons, sweep_cons, sweep_cons, sweep_cons]
      -- the rest of the sweep begins with bouts that are alike
      exact (turns_comm hpair hji cycle).sweep cycle l
  | @trans l₁ l₂ l₃ hperm₁ _ ih₁ ih₂ =>
      exact (ih₁ hnodup h).trans (ih₂ (hperm₁.nodup_iff.1 hnodup) (h.subset hperm₁.symm.subset))

end Bout

end NibbleArena
