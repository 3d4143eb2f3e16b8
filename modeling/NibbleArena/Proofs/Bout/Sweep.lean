import NibbleArena.Proofs.Bout.Entry
import NibbleArena.Proofs.Machine.Effect

/-! # Sweeps — one turn for each agent that is alive

    `Took` lists what a turn can do: nothing, if the agent is not there or dead,
    or one step of the machine on the shared core, which is entered in the turns
    and leaves the agent alive just if it went on.  A step on the sealed host does
    not fail, so neither does a turn or a sweep.

    The lane of an agent is the agent with its own turns.  A turn of another agent
    leaves the lane alone, so what a sweep does to an agent is what its only turn
    in it does: `lane_sweep`.  The agents share a core all the same; which step an
    agent makes depends on all that was done before. -/

namespace NibbleArena

namespace Bout

variable {b : Bout} {cycle i j : Nat} {l : List Nat}

/-! ## One turn -/

/-- What a turn of agent `i` makes of a bout. -/
inductive Took (cycle i : Nat) (b : Bout) : Bout → Prop
  | skipped (h : ∀ agent, b.agents[i]? = some agent → agent.alive = false) : Took cycle i b b
  | played {agent : Agent} {status : Status} {m : Machine SealedHost}
      (hagent : b.agents[i]? = some agent) (halive : agent.alive = true)
      (hstep : Machine.step ⟨b.core, agent.regs, SealedHost.sealed⟩ = (.ok status, m)) :
      Took cycle i b
        ⟨m.core, b.agents.setIfInBounds i (after agent m.regs status),
          ⟨cycle, i, agent.regs, b.core.opcode agent.regs.exec, status⟩ :: b.turns⟩

/-- A turn does not fail. -/
theorem turn_took (cycle i : Nat) (b : Bout) :
    (b.turn cycle i).1 = .ok () ∧ Took cycle i b (b.turn cycle i).2 := by
  cases hagent : b.agents[i]? with
  | none =>
      have heq : b.turn cycle i = (.ok (), b) := by
        obtain ⟨core, agents, turns⟩ := b
        simp only [turn, hagent]
      rw [heq]
      refine ⟨rfl, .skipped ?_⟩
      intro agent h
      exact nomatch hagent.symm.trans h
  | some agent =>
      cases halive : agent.alive with
      | false =>
          have heq : b.turn cycle i = (.ok (), b) := by
            obtain ⟨core, agents, turns⟩ := b
            simp [turn, hagent, halive]
          rw [heq]
          refine ⟨rfl, .skipped ?_⟩
          intro agent' h
          cases hagent.symm.trans h
          exact halive
      | true =>
          obtain ⟨status, hstatus⟩ := Machine.step_sealed_ok b.core agent.regs
          rcases hstep : Machine.step ⟨b.core, agent.regs, SealedHost.sealed⟩ with ⟨r, m⟩
          rw [hstep] at hstatus
          cases hstatus
          have heq : b.turn cycle i = (.ok (), ⟨m.core, b.agents.setIfInBounds i
              (after agent m.regs status),
              ⟨cycle, i, agent.regs, b.core.opcode agent.regs.exec, status⟩ :: b.turns⟩) := by
            obtain ⟨core, agents, turns⟩ := b
            simp only [turn, hagent, halive, if_true, hstep]
          rw [heq]
          exact ⟨rfl, .played hagent halive hstep⟩

namespace Took

variable {b' : Bout} {agent : Agent}

theorem size_core (h : Took cycle i b b') : b'.core.size = b.core.size := by
  cases h with
  | skipped h => rfl
  | @played agent status m hagent halive hstep =>
      have hsize := (Machine.step_changesOnly ⟨b.core, agent.regs, SealedHost.sealed⟩).size_eq
      rw [hstep] at hsize
      exact hsize

/-- What a turn does not change of its agent, it does not change of any agent. -/
theorem map_agents {β : Type} {f : Agent → β} (h : Took cycle i b b')
    (hf : ∀ agent regs status, f (after agent regs status) = f agent) :
    b'.agents.map f = b.agents.map f := by
  cases h with
  | skipped h => rfl
  | played hagent halive hstep => exact map_replaced hagent (hf _ _ _)

end Took

/-! ## One sweep -/

theorem sweep_cons (cycle i : Nat) (l : List Nat) (b : Bout) :
    b.sweep cycle (i :: l) = (b.turn cycle i).2.sweep cycle l := by
  have hok := (turn_took cycle i b).1
  rcases hturn : b.turn cycle i with ⟨r, b'⟩
  rw [hturn] at hok
  cases hok
  simp only [sweep, hturn]

/-- A sweep does not fail. -/
theorem sweep_ok (cycle : Nat) (l : List Nat) (b : Bout) : (b.sweep cycle l).1 = .ok () := by
  induction l generalizing b with
  | nil => rfl
  | cons i rest ih =>
      rw [sweep_cons]
      exact ih _

theorem size_sweep (cycle : Nat) (l : List Nat) (b : Bout) :
    (b.sweep cycle l).2.core.size = b.core.size := by
  induction l generalizing b with
  | nil => rfl
  | cons i rest ih =>
      rw [sweep_cons]
      exact (ih _).trans (turn_took cycle i b).2.size_core

theorem map_sweep {β : Type} {f : Agent → β}
    (hf : ∀ agent regs status, f (after agent regs status) = f agent) (cycle : Nat)
    (l : List Nat) (b : Bout) : (b.sweep cycle l).2.agents.map f = b.agents.map f := by
  induction l generalizing b with
  | nil => rfl
  | cons i rest ih =>
      rw [sweep_cons]
      exact (ih _).trans ((turn_took cycle i b).2.map_agents hf)

theorem standing_after (agent : Agent) (regs : Registers) (status : Status) :
    (after agent regs status).standing = agent.standing := by
  cases status with
  | running => rfl
  | halted reason => rfl

/-! ## The lane of an agent -/

/-- An agent with its own turns, the latest first. -/
def lane (b : Bout) (i : Nat) : Option Agent × List Turn :=
  (b.agents[i]?, b.turns.filter fun t => t.agent = i)

namespace Took

variable {b' : Bout} {agent : Agent}

/-- A turn of another agent leaves the lane alone. -/
theorem lane_of_ne (h : Took cycle i b b') (hne : i ≠ j) : b'.lane j = b.lane j := by
  cases h with
  | skipped h => rfl
  | played hagent halive hstep =>
      simp only [lane, Array.getElem?_setIfInBounds_ne hne, List.filter_cons, decide_eq_true_eq,
        if_neg hne]

/-- A dead agent has no turn. -/
theorem lane_dead (h : Took cycle j b b') (hagent : b.agents[j]? = some agent)
    (hdead : agent.alive = false) : b'.lane j = b.lane j := by
  cases h with
  | skipped h => rfl
  | played hagent' halive hstep =>
      cases hagent.symm.trans hagent'
      exact nomatch hdead.symm.trans halive

/-- An agent that is alive has a turn, and is alive afterwards if the turn went
    on. -/
theorem lane_alive (h : Took cycle j b b') (hagent : b.agents[j]? = some agent)
    (halive : agent.alive = true) :
    ∃ (regs : Registers) (t : Turn), t.cycle = cycle
      ∧ b'.lane j = (some (after agent regs t.status), t :: (b.lane j).2) := by
  cases h with
  | skipped h => exact nomatch (h agent hagent).symm.trans halive
  | @played agent' status m hagent' halive' hstep =>
      cases hagent.symm.trans hagent'
      obtain ⟨hlt, -⟩ := Array.getElem?_eq_some_iff.1 hagent
      refine ⟨m.regs, ⟨cycle, j, agent.regs, b.core.opcode agent.regs.exec, status⟩, rfl, ?_⟩
      simp only [lane, Array.getElem?_setIfInBounds_self_of_lt hlt, List.filter_cons,
        decide_true, if_true]

end Took

theorem lane_sweep_of_not_mem (cycle : Nat) (b : Bout) (h : j ∉ l) :
    (b.sweep cycle l).2.lane j = b.lane j := by
  induction l generalizing b with
  | nil => rfl
  | cons i rest ih =>
      rw [List.mem_cons, not_or] at h
      obtain ⟨hne, hrest⟩ := h
      rw [sweep_cons]
      exact (ih _ hrest).trans ((turn_took cycle i b).2.lane_of_ne (Ne.symm hne))

/-- What a sweep does to an agent is what its turn in the sweep does. -/
theorem lane_sweep (cycle : Nat) (b : Bout) (hnodup : l.Nodup) (hmem : j ∈ l) :
    ∃ b₁ b₂, b₁.lane j = b.lane j ∧ Took cycle j b₁ b₂
      ∧ (b.sweep cycle l).2.lane j = b₂.lane j := by
  induction l generalizing b with
  | nil => exact absurd hmem List.not_mem_nil
  | cons i rest ih =>
      obtain ⟨hi, hrest⟩ := List.nodup_cons.1 hnodup
      have htook := (turn_took cycle i b).2
      rw [sweep_cons]
      -- the lane waits for the one turn of its agent
      by_cases hij : i = j
      · subst hij
        exact ⟨b, (b.turn cycle i).2, rfl, htook, lane_sweep_of_not_mem cycle _ hi⟩
      · obtain ⟨b₁, b₂, hbefore, hturn, hafter⟩ :=
          ih (b.turn cycle i).2 hrest (List.mem_of_ne_of_mem (Ne.symm hij) hmem)
        exact ⟨b₁, b₂, hbefore.trans (htook.lane_of_ne hij), hturn, hafter⟩

theorem lane_sweep_dead {agent : Agent} (cycle : Nat) (hnodup : l.Nodup) (hmem : j ∈ l)
    (hagent : b.agents[j]? = some agent) (hdead : agent.alive = false) :
    (b.sweep cycle l).2.lane j = b.lane j := by
  obtain ⟨b₁, b₂, hbefore, hturn, hafter⟩ := lane_sweep cycle b hnodup hmem
  have hagent₁ : b₁.agents[j]? = some agent := (congrArg Prod.fst hbefore).trans hagent
  rw [hafter, hturn.lane_dead hagent₁ hdead, hbefore]

theorem lane_sweep_alive {agent : Agent} (cycle : Nat) (hnodup : l.Nodup) (hmem : j ∈ l)
    (hagent : b.agents[j]? = some agent) (halive : agent.alive = true) :
    ∃ (regs : Registers) (t : Turn), t.cycle = cycle
      ∧ (b.sweep cycle l).2.lane j
        = (some (after agent regs t.status), t :: (b.lane j).2) := by
  obtain ⟨b₁, b₂, hbefore, hturn, hafter⟩ := lane_sweep cycle b hnodup hmem
  have hagent₁ : b₁.agents[j]? = some agent := (congrArg Prod.fst hbefore).trans hagent
  rw [hafter, ← hbefore]
  exact hturn.lane_alive hagent₁ halive

/-! ## The turns of a sweep -/

/-- Whether agent `i` is there and alive. -/
def isAlive (b : Bout) (i : Nat) : Bool := (b.agents[i]?.map Agent.alive).getD false

theorem isAlive_iff :
    b.isAlive i = true ↔ ∃ agent, b.agents[i]? = some agent ∧ agent.alive = true := by
  unfold isAlive
  cases hagent : b.agents[i]? with
  | none => simp
  | some agent => simp

theorem isAlive_of_lane {b b' : Bout} (h : b'.lane i = b.lane i) : b'.isAlive i = b.isAlive i :=
  congrArg (fun x : Option Agent × List Turn => (x.1.map Agent.alive).getD false) h

/-- A turn is entered just if the agent is alive, and it went on just if the agent is
    alive afterwards. -/
theorem Took.turns {b' : Bout} (h : Took cycle i b b') :
    ∃ new, b'.turns = new ++ b.turns ∧ (∀ t ∈ new, t.cycle = cycle)
      ∧ new.reverse.map Turn.agent = [i].filter b.isAlive
      ∧ new.countP (fun t => t.status.isRunning) = [i].countP b'.isAlive := by
  cases h with
  | skipped h =>
      have hdead : ¬b.isAlive i = true := by
        rw [isAlive_iff]
        rintro ⟨agent, hagent, halive⟩
        exact nomatch (h agent hagent).symm.trans halive
      refine ⟨[], rfl, nofun, ?_, ?_⟩
      · rw [List.filter_cons_of_neg hdead]
        rfl
      · rw [List.countP_singleton, if_neg hdead]
        rfl
  | @played agent status m hagent halive hstep =>
      obtain ⟨hlt, -⟩ := Array.getElem?_eq_some_iff.1 hagent
      refine ⟨[⟨cycle, i, agent.regs, b.core.opcode agent.regs.exec, status⟩], rfl, ?_, ?_, ?_⟩
      · intro t ht
        rw [List.mem_singleton.1 ht]
      · rw [List.filter_cons_of_pos (isAlive_iff.2 ⟨agent, hagent, halive⟩)]
        rfl
      · simp only [List.countP_singleton, isAlive, Array.getElem?_setIfInBounds_self_of_lt hlt,
          Option.map_some, Option.getD_some]
        cases status with
        | running =>
            have hgoes : (after agent m.regs .running).alive = true := halive
            rw [hgoes]
            rfl
        | halted reason => rfl

/-- The turns of a sweep are those of its agents that are alive before it, in order.
    As many of them went on as agents of the sweep are alive after it. -/
theorem turns_sweep (cycle : Nat) (b : Bout) (hnodup : l.Nodup) :
    ∃ new, (b.sweep cycle l).2.turns = new ++ b.turns ∧ (∀ t ∈ new, t.cycle = cycle)
      ∧ new.reverse.map Turn.agent = l.filter b.isAlive
      ∧ new.countP (fun t => t.status.isRunning) = l.countP (b.sweep cycle l).2.isAlive := by
  induction l generalizing b with
  | nil => exact ⟨[], rfl, nofun, rfl, rfl⟩
  | cons i rest ih =>
      obtain ⟨hi, hrest⟩ := List.nodup_cons.1 hnodup
      have htook := (turn_took cycle i b).2
      obtain ⟨first, hfirst, hcycle, hagents, hcount⟩ := htook.turns
      obtain ⟨later, hlater, hcycle', hagents', hcount'⟩ := ih (b.turn cycle i).2 hrest
      rw [sweep_cons]
      refine ⟨later ++ first, ?_, ?_, ?_, ?_⟩
      · rw [hlater, hfirst, List.append_assoc]
      · exact List.forall_mem_append.2 ⟨hcycle', hcycle⟩
      · -- the first turn decides about its own agent alone
        have hothers : rest.filter (b.turn cycle i).2.isAlive = rest.filter b.isAlive := by
          apply List.filter_congr
          intro j hj
          exact isAlive_of_lane (htook.lane_of_ne (ne_of_mem_of_not_mem hj hi).symm)
        rw [List.reverse_append, List.map_append, hagents, hagents', hothers, ← List.filter_append]
        rfl
      · -- the agent whose turn came first has no other turn in the sweep
        have hsame := isAlive_of_lane (lane_sweep_of_not_mem cycle (b.turn cycle i).2 hi)
        rw [List.countP_append, hcount, hcount', List.countP_singleton, List.countP_cons, hsame]

end Bout

end NibbleArena
