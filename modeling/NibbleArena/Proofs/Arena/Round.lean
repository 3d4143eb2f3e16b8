import NibbleArena.Proofs.Bout.Course
import NibbleArena.Proofs.Placement.Apart

/-! # Rounds — a placement, a bout and a reward

    A round that has been placed cannot fail any more, so `Went` has two ways for a
    round to go: the placement fails, or the bout from the starts is fought to its
    end and rewarded.

    The reward changes the scores of the survivors and nothing else, so the agents
    alive behind the round are those alive at the end of its bout. -/

namespace NibbleArena

namespace Arena

variable {σ : Type}

/-- The bout of the current round before its first turn. -/
def loaded (a : Arena σ) (starts : List Nat) : Bout :=
  Bout.enterAll starts a.order ⟨a.core, a.agents, []⟩

/-- The report of the current round, whose bout took `cycles` sweeps up to `b`. -/
def roundOf (a : Arena σ) (starts : List Nat) (cycles : Nat) (b : Bout) : Round :=
  ⟨a.roundsPlayed, starts, a.order, b.turns.reverse, cycles, living b.agents,
    rewardOf b.agents.size (living b.agents).length⟩

/-- The arena behind a round whose bout ended with `b`. -/
def rewarded (a : Arena σ) (b : Bout) : Arena σ :=
  ⟨a.settings, b.core,
    award (rewardOf b.agents.size (living b.agents).length) (living b.agents) b.agents,
    a.rotation, a.roundsPlayed, a.draws⟩

theorem playFrom_of_play {a : Arena σ} {starts : List Nat} {cycles : Nat} {b : Bout}
    (h : (a.loaded starts).play a.order a.settings.maxCycles 0 = (.ok cycles, b)) :
    a.playFrom starts = (.ok (a.roundOf starts cycles b), a.rewarded b) := by
  obtain ⟨settings, core, agents, rotation, roundsPlayed, draws⟩ := a
  have hplay : (Bout.enterAll starts (Bout.order agents.size rotation) ⟨core, agents, []⟩).play
    (Bout.order agents.size rotation) settings.maxCycles 0 = (.ok cycles, b) := h
  simp only [playFrom, order, count, hplay]
  rfl

/-- The bout of a round does not fail. -/
theorem exists_play (a : Arena σ) (starts : List Nat) :
    ∃ cycles, (a.loaded starts).play a.order a.settings.maxCycles 0
      = (.ok cycles, (a.loaded starts).sweeps a.order cycles 0) := by
  obtain ⟨cycles, -, hplay, -⟩ :=
    Bout.play_sweeps a.order a.settings.maxCycles 0 (a.loaded starts)
  rw [Nat.zero_add] at hplay
  exact ⟨cycles, hplay⟩

/-- A round that has been placed does not fail any more. -/
theorem exists_playFrom (a : Arena σ) (starts : List Nat) :
    ∃ cycles, a.playFrom starts
      = (.ok (a.roundOf starts cycles ((a.loaded starts).sweeps a.order cycles 0)),
          a.rewarded ((a.loaded starts).sweeps a.order cycles 0)) := by
  obtain ⟨cycles, hplay⟩ := a.exists_play starts
  exact ⟨cycles, playFrom_of_play hplay⟩

/-! ## What is loaded -/

theorem size_loaded (a : Arena σ) (starts : List Nat) :
    (a.loaded starts).core.size = a.core.size := Bout.size_enterAll _ _ _

theorem standing_loaded (a : Arena σ) (starts : List Nat) :
    (a.loaded starts).agents.map Agent.standing = a.agents.map Agent.standing :=
  Bout.standing_enterAll _ _ _

theorem count_loaded (a : Arena σ) (starts : List Nat) :
    (a.loaded starts).agents.size = a.count := size_eq_of_map_eq (standing_loaded a starts)

/-- With a start for each agent, all agents are loaded and alive. -/
theorem agent_loaded {a : Arena σ} {starts : List Nat} {i : Nat} {agent : Agent} {start : Nat}
    (hagent : a.agents[i]? = some agent) (hstart : starts[i]? = some start) :
    (a.loaded starts).agents[i]? = some (agent.enteredAt a.core.size start) :=
  Bout.agent_enterAll (Bout.nodup_order _ _)
    (Bout.mem_order.2 (Array.getElem?_eq_some_iff.1 hagent).1) hagent hstart

theorem loaded_fresh {a : Arena σ} {starts : List Nat} (h : starts.length = a.count) :
    (a.loaded starts).Fresh where
  turns_eq := Bout.turns_enterAll starts a.order ⟨a.core, a.agents, []⟩
  alive := by
    intro i agent hagent
    have hlt := (Array.getElem?_eq_some_iff.1 hagent).1
    rw [count_loaded] at hlt
    have hbefore : a.agents[i]? = some a.agents[i] := Array.getElem?_eq_getElem hlt
    have hstart : starts[i]? = some starts[i] := List.getElem?_eq_getElem (h ▸ hlt)
    obtain rfl := Option.some.inj (hagent.symm.trans (agent_loaded hbefore hstart))
    rfl

/-! ## Rewards -/

/-- Awarded are the agents of the list, once each. -/
theorem agent_award {points : Nat} {l : List Nat} (agents : Array Agent) (hnodup : l.Nodup)
    (i : Nat) : (award points l agents)[i]?
      = agents[i]?.map fun agent => if i ∈ l then agent.awarded points else agent := by
  induction l generalizing agents with
  | nil => simp [award]
  | cons j rest ih =>
      obtain ⟨hj, hrest⟩ := List.nodup_cons.1 hnodup
      show (award points rest (agents.modify j (·.awarded points)))[i]? = _
      rw [ih _ hrest, Array.getElem?_modify]
      by_cases hij : j = i
      · subst hij
        simp only [hj, if_true, if_false, List.mem_cons_self, Option.map_map]
        rfl
      · simp [hij, Ne.symm hij]

/-- A reward leaves alone whatever is not a score. -/
theorem award_map {β : Type} {f : Agent → β}
    (hf : ∀ agent points, f (agent.awarded points) = f agent) (points : Nat) (l : List Nat)
    (agents : Array Agent) : (award points l agents).map f = agents.map f := by
  induction l generalizing agents with
  | nil => rfl
  | cons j rest ih =>
      show (award points rest (agents.modify j (·.awarded points))).map f = _
      rw [ih]
      apply Array.ext_getElem?
      intro i
      rw [Array.getElem?_map, Array.getElem?_map, Array.getElem?_modify]
      by_cases hij : j = i
      · rw [if_pos hij, Option.map_map]
        congr 1
        funext agent
        exact hf agent points
      · rw [if_neg hij]

/-! ## The ways of a round -/

variable [Chooser σ]

/-- The arena behind the placement of its next round. -/
def placed (a : Arena σ) : Arena σ := a.reset.place.2

/-- What the next round makes of an arena. -/
inductive Went (a : Arena σ) : Except Failure Round × Arena σ → Prop
  | unplaced {e : Failure} (hplace : a.reset.place.1 = .error e) : Went a (.error e, a.placed)
  | fought {starts : List Nat} {cycles : Nat} {b : Bout}
      (hplace : a.reset.place.1 = .ok starts) (hfresh : (a.placed.loaded starts).Fresh)
      (hend : b = (a.placed.loaded starts).sweeps a.placed.order cycles 0)
      (hfought : (a.placed.loaded starts).Fought a.placed.order a.settings.maxCycles cycles
        b.turns.reverse (living b.agents)) :
      Went a (.ok (a.placed.roundOf starts cycles b), a.placed.rewarded b)

theorem size_placed (a : Arena σ) : a.placed.core.size = a.core.size := a.core.size_clear

theorem standing_placed (a : Arena σ) :
    a.placed.agents.map Agent.standing = a.agents.map Agent.standing :=
  Array.map_map

theorem count_placed (a : Arena σ) : a.placed.count = a.count := Array.size_map

theorem runRound_of_error {a : Arena σ} {e : Failure} (h : a.reset.place.1 = .error e) :
    a.runRound = (.error e, a.placed) := by
  rcases hplace : a.reset.place with ⟨r, a₁⟩
  rw [hplace] at h
  cases h
  simp only [runRound, placed, hplace]

theorem runRound_of_ok {a : Arena σ} {starts : List Nat} (h : a.reset.place.1 = .ok starts) :
    a.runRound = a.placed.playFrom starts := by
  rcases hplace : a.reset.place with ⟨r, a₁⟩
  rw [hplace] at h
  cases h
  simp only [runRound, placed, hplace]

/-- A placement reads the settings, the number of agents and the draws. -/
theorem placement_eq (a : Arena σ) :
    (a.reset.place.1, a.placed.draws)
      = Placement.place a.settings.coreSize a.count a.settings.separation a.settings.maxLength
          a.draws := by
  have hcount : a.reset.count = a.count := Array.size_map
  rw [← hcount]
  rfl

/-- There is a start for every agent, so all of them enter. -/
theorem length_starts {a : Arena σ} {starts : List Nat} (h : a.reset.place.1 = .ok starts) :
    starts.length = a.placed.count := by
  have hok : (Placement.place a.settings.coreSize a.reset.count a.settings.separation
    a.settings.maxLength a.draws).1 = .ok starts := h
  exact (Placement.place_spread hok).1

/-- A round of two agents or more fails only in its placement. -/
theorem runRound_went (a : Arena σ) (htwo : 2 ≤ a.count) : a.Went a.runRound := by
  rcases hplace : a.reset.place.1 with e | starts
  · rw [runRound_of_error hplace]
    exact .unplaced hplace
  · have hfresh := loaded_fresh (length_starts hplace)
    have hsize : 2 ≤ (a.placed.loaded starts).agents.size := by
      rw [count_loaded, count_placed]
      exact htwo
    have hperm : a.placed.order.Perm (List.range (a.placed.loaded starts).agents.size) := by
      rw [count_loaded]
      exact Bout.order_perm _ _
    obtain ⟨cycles, hplay, hfought⟩ := hfresh.fought hsize hperm a.settings.maxCycles
    rw [runRound_of_ok hplace, playFrom_of_play hplay]
    exact .fought hplace hfresh rfl hfought

theorem size_fought (a : Arena σ) (starts order : List Nat) (cycles : Nat) :
    ((a.placed.loaded starts).sweeps order cycles 0).core.size = a.core.size :=
  (Bout.size_sweeps _ _ _ _).trans ((size_loaded _ _).trans (size_placed a))

theorem standing_fought (a : Arena σ) (starts order : List Nat) (cycles : Nat) :
    ((a.placed.loaded starts).sweeps order cycles 0).agents.map Agent.standing
      = a.agents.map Agent.standing :=
  (Bout.map_sweeps Bout.standing_after _ _ _ _).trans
    ((standing_loaded _ _).trans (standing_placed a))

omit [Chooser σ] in
/-- An agent is alive behind a round if it is one of the survivors. -/
theorem alive_rewarded (a : Arena σ) (b : Bout) (i : Nat) :
    (∃ agent, (a.rewarded b).agents[i]? = some agent ∧ agent.alive = true)
      ↔ i ∈ living b.agents := by
  have hsame : (a.rewarded b).agents.map Agent.alive = b.agents.map Agent.alive :=
    award_map (fun _ _ => rfl) _ _ _
  have hi := congrArg (fun xs : Array Bool => xs[i]?) hsame
  simp only [Array.getElem?_map] at hi
  rw [Bout.mem_living, ← Bout.isAlive_iff (b := ⟨b.core, (a.rewarded b).agents, []⟩)]
  show (((a.rewarded b).agents[i]?.map Agent.alive).getD false = true)
    ↔ ((b.agents[i]?.map Agent.alive).getD false = true)
  rw [hi]

/-- **The turns of a round.**  Every bout of two agents or more that begins with all
    of them alive is fought to its end, whatever is loaded, whoever is first and
    however few sweeps are allowed.  So a round that gives a report has been
    `Fought` by the turns of this report, and its survivors are the agents alive
    behind it. -/
theorem round_fought (σ : Type) [Chooser σ] :
    (∀ (b : Bout) (rotation limit : Nat), b.Fresh → 2 ≤ b.agents.size →
      let order := Bout.order b.agents.size rotation
      ∃ cycles, b.play order limit 0 = (.ok cycles, b.sweeps order cycles 0)
        ∧ b.Fought order limit cycles (b.sweeps order cycles 0).turns.reverse
            (living (b.sweeps order cycles 0).agents))
    ∧ ∀ (a a' : Arena σ) (r : Round), 2 ≤ a.count → a.runRound = (.ok r, a') →
      let b := a.reset.loaded r.starts
      b.Fresh ∧ b.agents.size = a.count ∧ r.order = a.reset.order
        ∧ b.Fought r.order a.settings.maxCycles r.cycles r.turns r.survivors
        ∧ ∀ i, i ∈ r.survivors ↔ ∃ agent, a'.agents[i]? = some agent ∧ agent.alive = true := by
  constructor
  · intro b rotation limit hfresh htwo order
    exact hfresh.fought htwo (Bout.order_perm _ _) limit
  · intro a a' r htwo hround b
    have hwent := runRound_went a htwo
    rw [hround] at hwent
    cases hwent with
    | fought hplace hfresh hend hfought =>
        refine ⟨hfresh, (count_loaded _ _).trans (count_placed a), rfl, hfought, ?_⟩
        intro i
        exact (alive_rewarded _ _ i).symm

/-- Two programs of one instruction on twelve cells: the first halts in its first turn
    and the other one is left. -/
theorem round_fought_duel :
    let a : Arena ListedWords := ⟨⟨12, 1, 1, 3, 1, none⟩, Core.zeroed 12 (by decide),
      (["$", ">"].map fun text => Agent.new (Program.parse text)).toArray, 0, 0,
      ListedWords.ofList []⟩
    let r : Round := ⟨1, [0, 2], [1, 0],
      [⟨0, 1, ⟨4, 2⟩, .rightTwo, .running⟩, ⟨0, 0, ⟨2, 0⟩, .halt, .halted .instruction⟩],
      1, [1], 3⟩
    2 ≤ a.count ∧ a.runRound.1 = .ok r
      ∧ (a.reset.loaded r.starts).Fought r.order 3 r.cycles r.turns r.survivors := by
  intro a r
  have htwo : 2 ≤ a.count := by decide
  have hround : a.runRound.1 = .ok r := by decide +kernel
  refine ⟨htwo, hround, ?_⟩
  exact ((round_fought ListedWords).2 a a.runRound.2 r htwo (Prod.ext hround rfl)).2.2.2.1

end Arena

end NibbleArena
