import NibbleArena.Arena.Round
import NibbleArena.Proofs.Bout.Sweep

/-! # The course of a bout — what its turns come to

    `sweeps` is the bout after a number of sweeps, whatever comes of them;
    `play_sweeps` says at which of these a bout ends.

    The invariant of the sweeps is `Tally`: after `c` of them an agent that is
    alive has had `c` turns that all went on, and one that is dead has had some
    that went on and then one that halted.  Together with the end of the loop this
    gives `Fought`, which says of a bout what a reader of its report wants to know:
    how long it was, who is left and why it ended. -/

namespace NibbleArena

/-- The results of the turns of an agent, in the order of the turns. -/
def Turn.results (turns : List Turn) (i : Nat) : List Status :=
  (turns.filter fun t => t.agent = i).map Turn.status

/-- The turn was taken in the sweep `c`, and its agent died. -/
def Turn.DiesIn (t : Turn) (c : Nat) : Prop := t.cycle = c ∧ t.status ≠ .running

namespace Bout

/-- The bout after `n` sweeps, of which the first has the number `cycle`. -/
def sweeps (order : List Nat) : (n cycle : Nat) → Bout → Bout
  | 0, _, b => b
  | n + 1, cycle, b => sweeps order n (cycle + 1) (b.sweep cycle order).2

variable {b : Bout} {order : List Nat} {cycle : Nat}

/-- The last of the sweeps. -/
theorem sweeps_succ (order : List Nat) (n cycle : Nat) (b : Bout) :
    b.sweeps order (n + 1) cycle = ((b.sweeps order n cycle).sweep (cycle + n) order).2 := by
  induction n generalizing cycle b with
  | zero => rfl
  | succ n ih =>
      have hlast := ih (cycle + 1) (b.sweep cycle order).2
      rw [Nat.add_right_comm] at hlast
      exact hlast

theorem size_sweeps (order : List Nat) (n cycle : Nat) (b : Bout) :
    (b.sweeps order n cycle).core.size = b.core.size := by
  induction n generalizing cycle b with
  | zero => rfl
  | succ n ih => exact (ih (cycle + 1) _).trans (size_sweep cycle order b)

theorem map_sweeps {β : Type} {f : Agent → β}
    (hf : ∀ agent regs status, f (after agent regs status) = f agent) (order : List Nat)
    (n cycle : Nat) (b : Bout) :
    (b.sweeps order n cycle).agents.map f = b.agents.map f := by
  induction n generalizing cycle b with
  | zero => rfl
  | succ n ih => exact (ih (cycle + 1) _).trans (map_sweep hf cycle order b)

theorem count_sweeps (order : List Nat) (n cycle : Nat) (b : Bout) :
    (b.sweeps order n cycle).agents.size = b.agents.size :=
  size_eq_of_map_eq (map_sweeps standing_after order n cycle b)

/-- A bout does not fail.  It ends after the first sweep that leaves at most one
    agent alive, or when the sweeps are used up. -/
theorem play_sweeps (order : List Nat) (budget cycle : Nat) (b : Bout) :
    ∃ n ≤ budget, b.play order budget cycle = (.ok (cycle + n), b.sweeps order n cycle)
      ∧ (∀ m, 0 < m → m < n → 2 ≤ (b.sweeps order m cycle).aliveCount)
      ∧ (n < budget → (b.sweeps order n cycle).aliveCount ≤ 1) := by
  induction budget generalizing cycle b with
  | zero => exact ⟨0, Nat.le_refl 0, rfl, fun m hm hlt => absurd hlt (by omega), nofun⟩
  | succ budget ih =>
      have hok := sweep_ok cycle order b
      rcases hsweep : b.sweep cycle order with ⟨r, b'⟩
      rw [hsweep] at hok
      cases hok
      have hnext : ∀ n, b.sweeps order (n + 1) cycle = b'.sweeps order n (cycle + 1) := by
        intro n
        show (b.sweep cycle order).2.sweeps order n (cycle + 1) = _
        rw [hsweep]
      -- the first sweep decides the bout, or the rest of the budget does
      by_cases hdecided : b'.aliveCount ≤ 1
      · refine ⟨1, by omega, ?_, fun m hm hlt => absurd hlt (by omega), ?_⟩
        · simp only [play, hsweep, if_pos hdecided, hnext]
          rfl
        · intro _
          rw [hnext]
          exact hdecided
      · obtain ⟨n, hn, hplay, hlong, hend⟩ := ih (cycle + 1) b'
        refine ⟨n + 1, by omega, ?_, ?_, ?_⟩
        · simp only [play, hsweep, if_neg hdecided, hnext]
          rw [hplay, Nat.add_right_comm, Nat.add_assoc]
        · intro m hm hlt
          obtain ⟨k, rfl⟩ := Nat.exists_eq_add_of_le' hm
          rw [hnext]
          cases k with
          | zero => exact Nat.lt_of_not_le hdecided
          | succ k => exact hlong (k + 1) (by omega) (by omega)
        · intro hlt
          rw [hnext]
          exact hend (by omega)

/-! ## What each agent has done -/

/-- An agent after `c` sweeps with the results of its turns, the latest first. -/
structure Tally (c : Nat) (agent : Agent) (results : List Status) : Prop where
  alive : agent.alive = true → results = List.replicate c .running
  dead : agent.alive = false →
    ∃ k < c, ∃ reason, results = .halted reason :: List.replicate k .running

/-- Every agent has the turns that belong to `c` sweeps. -/
def Tallied (c : Nat) (b : Bout) : Prop :=
  ∀ i agent, b.agents[i]? = some agent → Tally c agent ((b.lane i).2.map Turn.status)

/-- A sweep over all agents keeps the tally. -/
theorem Tallied.sweep (h : b.Tallied cycle) (hnodup : order.Nodup)
    (hall : ∀ i < b.agents.size, i ∈ order) : (b.sweep cycle order).2.Tallied (cycle + 1) := by
  intro i agent' hagent'
  obtain ⟨hlt', -⟩ := Array.getElem?_eq_some_iff.1 hagent'
  have hlt : i < b.agents.size := size_eq_of_map_eq (map_sweep standing_after cycle order b) ▸ hlt'
  have hagent : b.agents[i]? = some b.agents[i] := Array.getElem?_eq_getElem hlt
  have htally := h i _ hagent
  cases halive : b.agents[i].alive with
  | false =>
      have hlane := lane_sweep_dead cycle hnodup (hall i hlt) hagent halive
      obtain rfl := Option.some.inj (hagent'.symm.trans ((congrArg Prod.fst hlane).trans hagent))
      obtain ⟨k, hk, reason, hresults⟩ := htally.dead halive
      rw [hlane]
      refine ⟨fun hyes => absurd hyes (by rw [halive]; decide), fun _ => ?_⟩
      exact ⟨k, Nat.lt_succ_of_lt hk, reason, hresults⟩
  | true =>
      -- the sweep adds one result to the lane, and what it is decides on which side we are
      obtain ⟨regs, t, -, hlane⟩ := lane_sweep_alive cycle hnodup (hall i hlt) hagent halive
      obtain rfl := Option.some.inj (hagent'.symm.trans (congrArg Prod.fst hlane))
      rw [hlane, List.map_cons, htally.alive halive]
      cases t.status with
      | running =>
          have hgoes : (after b.agents[i] regs .running).alive = true := halive
          exact ⟨fun _ => rfl, fun hno => absurd hno (by rw [hgoes]; decide)⟩
      | halted reason =>
          have hstops : (after b.agents[i] regs (.halted reason)).alive = false := rfl
          refine ⟨fun hyes => absurd hyes (by rw [hstops]; decide), fun _ => ?_⟩
          exact ⟨cycle, Nat.lt_succ_self cycle, reason, rfl⟩

theorem Tallied.sweeps (h : b.Tallied cycle) (hnodup : order.Nodup)
    (hall : ∀ i < b.agents.size, i ∈ order) (n : Nat) :
    (b.sweeps order n cycle).Tallied (cycle + n) := by
  induction n with
  | zero => exact h
  | succ n ih =>
      rw [sweeps_succ]
      refine ih.sweep hnodup ?_
      rw [count_sweeps]
      exact hall

/-- A bout before its first turn, with every agent alive. -/
structure Fresh (b : Bout) : Prop where
  turns_eq : b.turns = []
  alive : ∀ (i : Nat) (agent : Agent), b.agents[i]? = some agent → agent.alive = true

theorem Fresh.tallied (h : b.Fresh) : b.Tallied 0 := by
  intro i agent hagent
  have hnone : (b.lane i).2 = [] := by
    show b.turns.filter _ = []
    rw [h.turns_eq]
    rfl
  rw [hnone]
  exact ⟨fun _ => rfl, fun hno => absurd hno (by rw [h.alive i agent hagent]; decide)⟩

/-! ## Counting the agents alive -/

theorem living_eq_filter (b : Bout) :
    Arena.living b.agents = (List.range b.agents.size).filter b.isAlive := rfl

theorem mem_living {i : Nat} : i ∈ Arena.living b.agents ↔ b.isAlive i = true := by
  rw [living_eq_filter, List.mem_filter, List.mem_range, and_iff_right_iff_imp, isAlive_iff]
  rintro ⟨agent, hagent, -⟩
  exact (Array.getElem?_eq_some_iff.1 hagent).1

theorem pairwise_living (agents : Array Agent) : (Arena.living agents).Pairwise (· < ·) :=
  List.pairwise_lt_range.filter _

/-- The agents alive are counted by their numbers. -/
theorem aliveCount_eq (b : Bout) : b.aliveCount = (List.range b.agents.size).countP b.isAlive := by
  have hrange : (List.range b.agents.size).map (fun i => b.agents[i]?)
      = b.agents.toList.map some := by
    apply List.ext_getElem
    · simp
    · intro i hi hi'
      simp
  have hcount : (List.range b.agents.size).countP b.isAlive
      = ((List.range b.agents.size).map fun i => b.agents[i]?).countP
          fun agent => (agent.map Agent.alive).getD false := by
    rw [List.countP_map]
    rfl
  rw [hcount, hrange, List.countP_map]
  show b.agents.countP Agent.alive = b.agents.toList.countP Agent.alive
  rw [Array.countP_toList]

theorem length_living (b : Bout) : (Arena.living b.agents).length = b.aliveCount := by
  rw [living_eq_filter, ← List.countP_eq_length_filter, aliveCount_eq]

theorem Fresh.aliveCount (h : b.Fresh) : b.aliveCount = b.agents.size := by
  have hall : ∀ i ∈ List.range b.agents.size, b.isAlive i = true := by
    intro i hi
    have hlt := List.mem_range.1 hi
    have hagent : b.agents[i]? = some b.agents[i] := Array.getElem?_eq_getElem hlt
    exact isAlive_iff.2 ⟨_, hagent, h.alive i _ hagent⟩
  rw [aliveCount_eq, List.countP_eq_length.2 hall, List.length_range]

theorem exists_two_alive (h : 2 ≤ b.aliveCount) :
    ∃ i j, i < j ∧ b.isAlive i = true ∧ b.isAlive j = true := by
  rw [← length_living] at h
  have hlt := List.pairwise_iff_getElem.1 (pairwise_living b.agents) 0 1 (by omega) (by omega)
    (by omega)
  exact ⟨_, _, hlt, mem_living.1 (List.getElem_mem _), mem_living.1 (List.getElem_mem _)⟩

/-- The turns of each sweep bear its number, and those that went on are as many as
    the agents alive after it. -/
theorem Fresh.turns_sweeps (h : b.Fresh) (hperm : order.Perm (List.range b.agents.size)) (n : Nat) :
    (∀ t ∈ (b.sweeps order n 0).turns, t.cycle < n)
      ∧ ∀ c < n, (b.sweeps order n 0).turns.countP (fun t => t.cycle = c && t.status.isRunning)
          = (b.sweeps order (c + 1) 0).aliveCount := by
  induction n with
  | zero =>
      refine ⟨?_, nofun⟩
      intro t ht
      have hnone : (b.sweeps order 0 0).turns = [] := h.turns_eq
      rw [hnone] at ht
      exact absurd ht List.not_mem_nil
  | succ n ih =>
      obtain ⟨hold, hcount⟩ := ih
      have hnodup : order.Nodup := nodup_of_perm hperm
      obtain ⟨new, hturns, hnew, -, hrunning⟩ := turns_sweep (0 + n) (b.sweeps order n 0) hnodup
      rw [← sweeps_succ] at hturns hrunning
      rw [Nat.zero_add] at hnew
      constructor
      · intro t ht
        rw [hturns, List.mem_append] at ht
        rcases ht with ht | ht
        · rw [hnew t ht]
          exact Nat.lt_succ_self n
        · exact Nat.lt_succ_of_lt (hold t ht)
      · intro c hc
        rw [hturns, List.countP_append]
        -- the new turns bear the number of the last sweep and the old ones smaller numbers
        rcases Nat.lt_succ_iff_lt_or_eq.1 hc with hlt | rfl
        · have hnone : new.countP (fun t => t.cycle = c && t.status.isRunning) = 0 := by
            rw [List.countP_eq_zero]
            intro t ht
            simp [hnew t ht, Nat.ne_of_gt hlt]
          rw [hnone, Nat.zero_add]
          exact hcount c hlt
        · have hnone : (b.sweeps order c 0).turns.countP
              (fun t => t.cycle = c && t.status.isRunning) = 0 := by
            rw [List.countP_eq_zero]
            intro t ht
            simp [Nat.ne_of_lt (hold t ht)]
          have hall : new.countP (fun t => t.cycle = c && t.status.isRunning)
              = new.countP fun t => t.status.isRunning := by
            apply List.countP_congr
            intro t ht
            simp [hnew t ht]
          rw [hnone, Nat.add_zero, hall, hrunning, aliveCount_eq, count_sweeps]
          exact hperm.countP_eq _

/-! ## The end of a bout -/

/-- How a bout of at most `limit` sweeps went that began with `b`: it took
    `cycles` sweeps and the turns `turns`, and the survivors were left. -/
structure Fought (b : Bout) (order : List Nat) (limit cycles : Nat) (turns : List Turn)
    (survivors : List Nat) : Prop where
  cycles_le : cycles ≤ limit
  /-- No sweep was begun without two agents alive. -/
  two_alive : ∀ c < cycles, 2 ≤ (b.sweeps order c 0).aliveCount
  /-- The agents alive after a sweep are as many as its turns that went on. -/
  counted : ∀ c < cycles, turns.countP (fun t => t.cycle = c && t.status.isRunning)
    = (b.sweeps order (c + 1) 0).aliveCount
  survivor : ∀ i ∈ survivors, Turn.results turns i = List.replicate cycles .running
  fallen : ∀ i < b.agents.size, i ∉ survivors → ∃ k < cycles, ∃ reason,
    Turn.results turns i = List.replicate k .running ++ [.halted reason]
  increasing : survivors.Pairwise (· < ·)
  mem_survivors : ∀ i, i ∈ survivors ↔ (b.sweeps order cycles 0).isAlive i = true
  /-- A bout that stopped before its limit was decided. -/
  decided : cycles < limit → survivors.length ≤ 1
  /-- If nobody is left, the last ones died together. -/
  together : survivors = [] → ∃ c, cycles = c + 1 ∧ ∃ t ∈ turns, ∃ t' ∈ turns,
    t.agent ≠ t'.agent ∧ t.DiesIn c ∧ t'.DiesIn c

/-- The turns of an agent, in order. -/
theorem results_reverse (b : Bout) (i : Nat) :
    Turn.results b.turns.reverse i = ((b.lane i).2.map Turn.status).reverse := by
  show (b.turns.reverse.filter _).map Turn.status = ((b.turns.filter _).map Turn.status).reverse
  rw [List.filter_reverse, List.map_reverse]

theorem Tallied.results_of_alive {c i : Nat} (h : b.Tallied c) (halive : b.isAlive i = true) :
    Turn.results b.turns.reverse i = List.replicate c .running := by
  obtain ⟨agent, hagent, hyes⟩ := isAlive_iff.1 halive
  rw [results_reverse, (h i agent hagent).alive hyes, List.reverse_replicate]

theorem Tallied.results_of_dead {c i : Nat} (h : b.Tallied c) (hi : i < b.agents.size)
    (hdead : ¬b.isAlive i = true) : ∃ k < c, ∃ reason,
      Turn.results b.turns.reverse i = List.replicate k .running ++ [.halted reason] := by
  have hagent := Array.getElem?_eq_getElem hi
  have hno : b.agents[i].alive = false := by
    rw [← Bool.not_eq_true]
    intro hyes
    exact hdead (isAlive_iff.2 ⟨_, hagent, hyes⟩)
  obtain ⟨k, hk, reason, hresults⟩ := (h i _ hagent).dead hno
  refine ⟨k, hk, reason, ?_⟩
  rw [results_reverse, hresults, List.reverse_cons, List.reverse_replicate]

/-- An agent that is alive before a sweep over all agents and not after it has died
    in this sweep. -/
theorem exists_diesIn {i : Nat} (hnodup : order.Nodup) (hmem : i ∈ order)
    (hbefore : b.isAlive i = true) (hafter : (b.sweep cycle order).2.isAlive i = false) :
    ∃ t ∈ (b.sweep cycle order).2.turns, t.agent = i ∧ t.DiesIn cycle := by
  obtain ⟨agent, hagent, halive⟩ := isAlive_iff.1 hbefore
  obtain ⟨regs, t, hcycle, hlane⟩ := lane_sweep_alive cycle hnodup hmem hagent halive
  have ht : t ∈ (b.sweep cycle order).2.turns.filter fun t => t.agent = i := by
    show t ∈ ((b.sweep cycle order).2.lane i).2
    rw [hlane]
    exact List.mem_cons_self
  obtain ⟨hin, hagent'⟩ := List.mem_filter.1 ht
  refine ⟨t, hin, of_decide_eq_true hagent', hcycle, ?_⟩
  intro hgoes
  have hstill : (b.sweep cycle order).2.isAlive i = true := by
    refine isAlive_iff.2 ⟨after agent regs t.status, congrArg Prod.fst hlane, ?_⟩
    rw [hgoes]
    exact halive
  exact nomatch hafter.symm.trans hstill

/-- If a sweep begins with two agents alive and leaves none, two agents have died in
    it. -/
theorem exists_two_dieIn (hperm : order.Perm (List.range b.agents.size)) (htwo : 2 ≤ b.aliveCount)
    (hnone : ∀ i, (b.sweep cycle order).2.isAlive i = false) :
    ∃ t ∈ (b.sweep cycle order).2.turns, ∃ t' ∈ (b.sweep cycle order).2.turns,
      t.agent ≠ t'.agent ∧ t.DiesIn cycle ∧ t'.DiesIn cycle := by
  have hnodup : order.Nodup := nodup_of_perm hperm
  have hmem : ∀ {i}, b.isAlive i = true → i ∈ order := by
    intro i halive
    obtain ⟨agent, hagent, -⟩ := isAlive_iff.1 halive
    exact (mem_of_perm hperm).2 (Array.getElem?_eq_some_iff.1 hagent).1
  obtain ⟨i, j, hij, hi, hj⟩ := exists_two_alive htwo
  obtain ⟨t, ht, hti, hdies⟩ := exists_diesIn hnodup (hmem hi) hi (hnone i)
  obtain ⟨t', ht', htj, hdies'⟩ := exists_diesIn hnodup (hmem hj) hj (hnone j)
  refine ⟨t, ht, t', ht', ?_, hdies, hdies'⟩
  rw [hti, htj]
  exact Nat.ne_of_lt hij

/-- A bout with at least two agents, all of them alive, is fought to its end. -/
theorem Fresh.fought (h : b.Fresh) (htwo : 2 ≤ b.agents.size)
    (hperm : order.Perm (List.range b.agents.size)) (limit : Nat) :
    ∃ cycles, b.play order limit 0 = (.ok cycles, b.sweeps order cycles 0)
      ∧ b.Fought order limit cycles (b.sweeps order cycles 0).turns.reverse
          (Arena.living (b.sweeps order cycles 0).agents) := by
  have hnodup : order.Nodup := nodup_of_perm hperm
  have hall : ∀ i < b.agents.size, i ∈ order := fun _ => (mem_of_perm hperm).2
  obtain ⟨cycles, hle, hplay, hlong, hend⟩ := play_sweeps order limit 0 b
  rw [Nat.zero_add] at hplay
  have htally := h.tallied.sweeps hnodup hall cycles
  rw [Nat.zero_add] at htally
  have hbegun : ∀ c < cycles, 2 ≤ (b.sweeps order c 0).aliveCount := by
    intro c hc
    rcases Nat.eq_zero_or_pos c with rfl | hpos
    · exact h.aliveCount ▸ htwo
    · exact hlong c hpos hc
  refine ⟨cycles, hplay, hle, hbegun, ?_, ?_, ?_, pairwise_living _, fun i => mem_living, ?_, ?_⟩
  · intro c hc
    rw [List.countP_reverse]
    exact (h.turns_sweeps hperm cycles).2 c hc
  · intro i hi
    exact htally.results_of_alive (mem_living.1 hi)
  · intro i hi hdead
    rw [← count_sweeps order cycles 0 b] at hi
    rw [mem_living] at hdead
    exact htally.results_of_dead hi hdead
  · intro hlt
    rw [length_living]
    exact hend hlt
  · intro hnone
    have hdead : ∀ i, (b.sweeps order cycles 0).isAlive i = false := by
      intro i
      rw [← Bool.not_eq_true, ← mem_living, hnone]
      exact List.not_mem_nil
    -- without any sweep all agents would still be alive
    cases cycles with
    | zero =>
        obtain ⟨i, -, -, halive, -⟩ := exists_two_alive (h.aliveCount ▸ htwo)
        exact nomatch (hdead i).symm.trans halive
    | succ c =>
        rw [sweeps_succ, Nat.zero_add] at hdead ⊢
        rw [← count_sweeps order c 0 b] at hperm
        obtain ⟨t, ht, t', ht', hne, hdies, hdies'⟩ :=
          exists_two_dieIn hperm (hbegun c (Nat.lt_succ_self c)) hdead
        exact ⟨c, rfl, t, List.mem_reverse.2 ht, t', List.mem_reverse.2 ht', hne, hdies, hdies'⟩

end Bout

end NibbleArena
