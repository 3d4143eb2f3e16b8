import NibbleArena.Host.Streams
import NibbleArena.Proofs.Arena.History
import NibbleArena.Proofs.Arena.Opening
import NibbleArena.Proofs.Run.Calls

/-! # Bounds of an arena — every agent stays in the core

    What is in the core stays there through everything that is done to an arena: the
    agents are placed at cells of the core, loading and stepping keep their pointers
    in it, and what happens between rounds sets pointers to zero.

    The last theorem is about both ways to use a machine.  A single run and an arena
    keep to the size of their settings however they are driven, and a run that has
    halted is at its end for good. -/

namespace NibbleArena

/-- The agent started at one of the first `n` cells and its pointers are among
    them. -/
structure Agent.InCore (n : Nat) (agent : Agent) : Prop where
  origin_lt : agent.origin < n
  regs : agent.regs.Within n

namespace Bout

/-- The core has `n` cells and all agents are in it. -/
structure InCore (n : Nat) (b : Bout) : Prop where
  size_eq : b.core.size = n
  agents : ∀ agent ∈ b.agents, agent.InCore n

namespace InCore

variable {n cycle i : Nat} {b b' : Bout} {starts : List Nat}

theorem enter (h : b.InCore n) (hstarts : ∀ o ∈ starts, o < n) (i : Nat) :
    (enter starts b i).InCore n := by
  obtain heq | ⟨agent, start, -, hstart, heq⟩ := enter_cases starts b i
  · rw [heq]
    exact h
  · rw [heq]
    refine ⟨(Core.size_writeCode _ _ _).trans h.size_eq, ?_⟩
    intro agent' hagent'
    rcases Array.mem_or_eq_of_mem_setIfInBounds hagent' with hold | rfl
    · exact h.agents agent' hold
    · have hstart' : start < n := hstarts start (List.mem_of_getElem? hstart)
      have hpos : 0 < n := by omega
      rw [h.size_eq]
      exact ⟨hstart', Nat.mod_lt _ hpos, Nat.mod_lt _ hpos⟩

theorem enterAll (h : b.InCore n) (hstarts : ∀ o ∈ starts, o < n) (l : List Nat) :
    (enterAll starts l b).InCore n := by
  induction l generalizing b with
  | nil => exact h
  | cons i rest ih => exact ih (h.enter hstarts i)

/-- A turn moves the pointers of its agent within the core. -/
theorem took (h : b.InCore n) (hturn : Took cycle i b b') : b'.InCore n := by
  refine ⟨hturn.size_core.trans h.size_eq, ?_⟩
  cases hturn with
  | skipped _ => exact h.agents
  | @played agent status m hagent halive hstep =>
      have hbefore := h.agents agent (Array.mem_of_getElem? hagent)
      have hinside : Machine.InCore ⟨b.core, agent.regs, SealedHost.sealed⟩ := by
        rw [Machine.InCore, h.size_eq]
        exact hbefore.regs
      have hafter := hinside.step
      have hsize := Machine.size_step (⟨b.core, agent.regs, SealedHost.sealed⟩ : Machine SealedHost)
      rw [hstep] at hafter hsize
      rw [Machine.InCore, hsize, h.size_eq] at hafter
      intro agent' hagent'
      rcases Array.mem_or_eq_of_mem_setIfInBounds hagent' with hold | rfl
      · exact h.agents agent' hold
      · cases status with
        | running => exact ⟨hbefore.origin_lt, hafter⟩
        | halted reason => exact ⟨hbefore.origin_lt, hafter⟩

theorem sweep (h : b.InCore n) (cycle : Nat) (l : List Nat) : (b.sweep cycle l).2.InCore n := by
  induction l generalizing b with
  | nil => exact h
  | cons i rest ih =>
      rw [sweep_cons]
      exact ih (h.took (turn_took cycle i b).2)

theorem sweeps (h : b.InCore n) (order : List Nat) (k cycle : Nat) :
    (b.sweeps order k cycle).InCore n := by
  induction k generalizing cycle b with
  | zero => exact h
  | succ k ih => exact ih (h.sweep cycle order) (cycle + 1)

end InCore

end Bout

namespace Arena

variable {σ : Type}

/-- The core has the `n` cells of the settings and all agents are in it. -/
structure InCore (n : Nat) (a : Arena σ) : Prop where
  coreSize_eq : a.settings.coreSize = n
  size_eq : a.core.size = n
  agents : ∀ agent ∈ a.agents, agent.InCore n

namespace InCore

variable {n : Nat} {a : Arena σ}

theorem loaded (h : a.InCore n) {starts : List Nat} (hstarts : ∀ o ∈ starts, o < n) :
    (a.loaded starts).InCore n := by
  have hbout : Bout.InCore n ⟨a.core, a.agents, []⟩ := ⟨h.size_eq, h.agents⟩
  exact hbout.enterAll hstarts a.order

theorem rewarded (h : a.InCore n) {b : Bout} (hb : b.InCore n) : (a.rewarded b).InCore n := by
  refine ⟨h.coreSize_eq, hb.size_eq, ?_⟩
  intro agent hagent
  obtain ⟨i, hi⟩ := Array.getElem?_of_mem hagent
  have hnodup := (Bout.pairwise_living b.agents).imp Nat.ne_of_lt
  rw [Arena.rewarded, agent_award b.agents hnodup, Option.map_eq_some_iff] at hi
  obtain ⟨before, hbefore, rfl⟩ := hi
  have hinside := hb.agents before (Array.mem_of_getElem? hbefore)
  by_cases hmem : i ∈ living b.agents
  · rw [if_pos hmem]
    exact ⟨hinside.origin_lt, hinside.regs⟩
  · rw [if_neg hmem]
    exact hinside

variable [Chooser σ]

theorem placed (h : a.InCore n) : a.placed.InCore n := by
  refine ⟨h.coreSize_eq, (size_placed a).trans h.size_eq, ?_⟩
  intro agent hagent
  obtain ⟨before, hbefore, rfl⟩ := Array.mem_map.1 hagent
  have hpos : 0 < n := h.size_eq ▸ a.core.size_pos
  exact ⟨(h.agents before hbefore).origin_lt, hpos, hpos⟩

/-- A round keeps the agents in the core, whether it is fought or not. -/
theorem runRound (h : a.InCore n) : a.runRound.2.InCore n := by
  rcases hplace : a.reset.place.1 with f | starts
  · rw [runRound_of_error hplace]
    exact h.placed
  · have hok : (Placement.place a.settings.coreSize a.reset.count a.settings.separation
      a.settings.maxLength a.draws).1 = .ok starts := hplace
    have hstarts := (Placement.place_spread hok).2.2.lt
    rw [h.coreSize_eq] at hstarts
    obtain ⟨cycles, hround⟩ := a.placed.exists_playFrom starts
    rw [runRound_of_ok hplace, hround]
    exact h.placed.rewarded ((h.placed.loaded hstarts).sweeps _ _ _)

theorem after (h : a.InCore n) (calls : List Call) : (a.after calls).InCore n :=
  @history_induction σ _ (fun _ x => x.InCore n) (fun _ _ hx => hx.runRound) calls [] a h

end InCore

theorem Opened.inCore {s : ArenaSettings} {sources : List String} {a : Arena σ}
    (h : a.Opened s sources) : a.InCore s.coreSize := by
  have hroomy := h.roomy
  have hpos : 0 < s.coreSize := by omega
  refine ⟨congrArg ArenaSettings.coreSize h.settings_eq, h.size_eq, ?_⟩
  intro agent hagent
  rw [h.agents_eq, List.mem_toArray, List.mem_map] at hagent
  obtain ⟨p, -, rfl⟩ := hagent
  exact ⟨hpos, hpos, hpos⟩

end Arena

/-- **What every reachable state keeps.**  However a run of a program of any length is
    made and driven, and whatever its host answers, its core has the size of its
    settings and both pointers are in it.  When it is halted, its machine would halt
    again on any host without a change, and no further call changes the run.  However
    an arena is used since it was opened, its core has the size of its settings, and
    the origin and both pointers of every agent are in it. -/
theorem reachable_inCore :
    (∀ (σ : Type) [Host σ] (p : Program) (host : σ) (s : RunSettings) (r₀ : Run σ)
        (calls : List Run.Call), Run.Built p host s r₀ →
      let r := r₀.after calls
      r.machine.core.size = s.coreSize ∧ (∀ v ∈ r.machine.core.cells, v.val < 16)
        ∧ r.machine.regs.cell < s.coreSize ∧ r.machine.regs.exec < s.coreSize
        ∧ ∀ reason, r.status = .halted reason →
          (∀ (τ : Type) [Host τ] (other : τ),
            Machine.step ⟨r.machine.core, r.machine.regs, other⟩
              = (.ok (.halted reason), ⟨r.machine.core, r.machine.regs, other⟩))
          ∧ ∀ later : List Run.Call, r.after later = r)
    ∧ ∀ (σ : Type) [Chooser σ] (s : ArenaSettings) (sources : List String) (draws : σ)
        (a₀ : Arena σ) (calls : List Arena.Call), Arena.new s sources draws = .ok a₀ →
      let a := a₀.after calls
      a.core.size = s.coreSize ∧ (∀ v ∈ a.core.cells, v.val < 16)
        ∧ ∀ agent ∈ a.agents, agent.origin < s.coreSize
          ∧ agent.regs.cell < s.coreSize ∧ agent.regs.exec < s.coreSize := by
  constructor
  · intro σ _ p host s r₀ calls hbuilt r
    have hsound : Run.Sound s r := Run.after_induction (fun _ h => h.step) calls hbuilt.sound
    have hinside := hsound.inCore
    rw [Machine.InCore, hsound.size_eq] at hinside
    refine ⟨hsound.size_eq, fun v _ => v.isLt, hinside.cell_lt, hinside.exec_lt, ?_⟩
    intro reason hhalted
    exact ⟨hsound.stuck reason hhalted, Run.after_of_halted hhalted⟩
  · intro σ _ s sources draws a₀ calls hnew a
    have hinside := (Arena.opened_of_new hnew).inCore.after calls
    refine ⟨hinside.size_eq, fun v _ => v.isLt, ?_⟩
    intro agent hagent
    have hagent' := hinside.agents agent hagent
    exact ⟨hagent'.origin_lt, hagent'.regs.cell_lt, hagent'.regs.exec_lt⟩

/-- A program that is longer than its core, with a host that fails once, halted in its
    second call; and two programs behind a battle and one more round. -/
theorem reachable_inCore_overlong :
    let p := Program.parse "@,$."
    let host := Streams.ofEvents [] [] [.failure ⟨.interrupted, "interrupted"⟩]
    let r₀ := Run.prepare ⟨3, 10⟩ (by decide) p host
    let r := r₀.after [.finish, .finish]
    let s : ArenaSettings := ⟨20, 2, 3, 5, 1, none⟩
    let draws := ListedWords.ofList [0, 4008636143]
    let a₀ : Arena ListedWords := ⟨s, Core.zeroed 20 (by decide),
      ((["+.", "(a)"].map Program.parse).map Agent.new).toArray, 0, 0, draws⟩
    Run.Built p host ⟨3, 10⟩ r₀ ∧ r.status = .halted .instruction ∧ r.cycles = 4
      ∧ r.machine.regs.exec < 3 ∧ (∀ later, r.after later = r)
      ∧ Arena.new s ["+.", "(a)"] draws = .ok a₀
      ∧ ∀ agent ∈ (a₀.after [.battle, .round]).agents, agent.origin < 20 := by
  intro p host r₀ r s draws a₀
  have hbuilt : Run.Built p host ⟨3, 10⟩ r₀ := .start rfl
  have hhalted : r.status = .halted .instruction := by rfl
  have hnew : Arena.new s ["+.", "(a)"] draws = .ok a₀ := rfl
  obtain ⟨hruns, harenas⟩ := reachable_inCore
  obtain ⟨-, -, -, hexec, hstays⟩ := hruns Streams p host _ r₀ [.finish, .finish] hbuilt
  obtain ⟨-, -, hagents⟩ := harenas ListedWords s _ draws a₀ [.battle, .round] hnew
  refine ⟨hbuilt, hhalted, by rfl, hexec, (hstays _ hhalted).2, hnew, ?_⟩
  intro agent hagent
  exact (hagents agent hagent).1

end NibbleArena
