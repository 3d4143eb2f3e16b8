import NibbleArena.Proofs.Arena.Failure

/-! # Lockstep — programs have no say in where they are placed

    A placement reads the size of the core, the spacing, the number of agents and the
    state of the draws, and nothing else in a round draws.  Two arenas that agree in
    these are `InStep`.  Their next rounds are placed alike or fail alike, having drawn
    the same either way, so they are in step again behind it; what the programs do to
    the cores and to each other in the meantime can make no difference.

    A seed fixes all draws to come.  Two arenas that were opened with one seed are
    therefore in step however many rounds they have played. -/

namespace NibbleArena

theorem Bout.origin_after (agent : Agent) (regs : Registers) (status : Status) :
    (Bout.after agent regs status).origin = agent.origin := by
  cases status with
  | running => rfl
  | halted reason => rfl

namespace Arena

variable {σ : Type} {a a' a₀ a₀' : Arena σ} {starts : List Nat}

/-- Two arenas that agree in all that a placement reads. -/
structure InStep (a a' : Arena σ) : Prop where
  coreSize_eq : a.settings.coreSize = a'.settings.coreSize
  separation_eq : a.settings.separation = a'.settings.separation
  maxLength_eq : a.settings.maxLength = a'.settings.maxLength
  count_eq : a.count = a'.count
  draws_eq : a.draws = a'.draws

/-! ## Where the agents are -/

/-- All agents are loaded at their starts. -/
theorem origins_loaded (h : starts.length = a.count) :
    (a.loaded starts).agents.map Agent.origin = starts.toArray := by
  apply Array.ext
  · rw [Array.size_map, count_loaded, List.size_toArray, h]
  · intro i hi hi'
    rw [List.size_toArray] at hi'
    have hagent := agent_loaded (Array.getElem?_eq_getElem (h ▸ hi'))
      (List.getElem?_eq_getElem hi')
    rw [Array.getElem_map, (Array.getElem?_eq_some_iff.1 hagent).2]
    rfl

variable [Chooser σ]

/-- Neither the turns nor the reward of a round move an agent from its start. -/
theorem Went.origins_eq {r : Round} {b : Arena σ} (h : a.Went (.ok r, b)) :
    b.agents.map Agent.origin = r.starts.toArray := by
  cases h with
  | @fought starts cycles bout hplace hfresh hend hfought =>
      calc (a.placed.rewarded bout).agents.map Agent.origin
          = bout.agents.map Agent.origin := award_map (fun _ _ => rfl) _ _ _
        _ = (a.placed.loaded starts).agents.map Agent.origin := by
            rw [hend]
            exact Bout.map_sweeps Bout.origin_after _ _ _ _
        _ = starts.toArray := origins_loaded (length_starts hplace)

/-- The placement is all of a round that draws. -/
theorem Went.draws_eq {result : Except Failure Round × Arena σ} (h : a.Went result) :
    result.2.draws = a.placed.draws := by
  cases h with
  | unplaced hplace => rfl
  | fought hplace hfresh hend hfought => rfl

namespace InStep

/-! ## One round -/

theorem place_eq (h : InStep a a') :
    a.reset.place.1 = a'.reset.place.1 ∧ a.placed.draws = a'.placed.draws := by
  have hsame : (a.reset.place.1, a.placed.draws) = (a'.reset.place.1, a'.placed.draws) := by
    rw [placement_eq, placement_eq, h.coreSize_eq, h.separation_eq, h.maxLength_eq, h.count_eq,
      h.draws_eq]
  exact Prod.ext_iff.1 hsame

/-- Behind their next rounds, two arenas in step are in step again. -/
theorem runRound (h : InStep a a') (htwo : 2 ≤ a.count) :
    InStep a.runRound.2 a'.runRound.2 := by
  have hwent := runRound_went a htwo
  have hwent' := runRound_went a' (h.count_eq ▸ htwo)
  refine ⟨?_, ?_, ?_, ?_, ?_⟩
  · rw [hwent.kept.settings_eq, hwent'.kept.settings_eq, h.coreSize_eq]
  · rw [hwent.kept.settings_eq, hwent'.kept.settings_eq, h.separation_eq]
  · rw [hwent.kept.settings_eq, hwent'.kept.settings_eq, h.maxLength_eq]
  · rw [hwent.kept.count_eq, hwent'.kept.count_eq, h.count_eq]
  · rw [hwent.draws_eq, hwent'.draws_eq, h.place_eq.2]

/-- The next rounds of two arenas in step fail in one way, or all agents are at the same
    starts. -/
theorem placed_alike (h : InStep a a') (htwo : 2 ≤ a.count) :
    (∃ e, a.runRound.1 = .error e ∧ a'.runRound.1 = .error e)
      ∨ ∃ r r', a.runRound.1 = .ok r ∧ a'.runRound.1 = .ok r' ∧ r.starts = r'.starts
        ∧ a.runRound.2.agents.map Agent.origin = r.starts.toArray
        ∧ a'.runRound.2.agents.map Agent.origin = r'.starts.toArray := by
  have hwent := runRound_went a htwo
  have hwent' := runRound_went a' (h.count_eq ▸ htwo)
  rcases hplace : a.reset.place.1 with e | starts
  · have hplace' : a'.reset.place.1 = .error e := h.place_eq.1 ▸ hplace
    rw [runRound_of_error hplace, runRound_of_error hplace']
    exact .inl ⟨e, rfl, rfl⟩
  · have hplace' : a'.reset.place.1 = .ok starts := h.place_eq.1 ▸ hplace
    obtain ⟨cycles, hround⟩ := a.placed.exists_playFrom starts
    obtain ⟨cycles', hround'⟩ := a'.placed.exists_playFrom starts
    rw [runRound_of_ok hplace, hround] at hwent ⊢
    rw [runRound_of_ok hplace', hround'] at hwent' ⊢
    exact .inr ⟨_, _, rfl, rfl, rfl, hwent.origins_eq, hwent'.origins_eq⟩

/-! ## Any number of rounds -/

theorem afterRounds (h : InStep a a') (htwo : 2 ≤ a.count) (k : Nat) :
    InStep (a.afterRounds k) (a'.afterRounds k) := by
  induction k generalizing a a' with
  | zero => exact h
  | succ k ih =>
      have hcount := (runRound_went a htwo).kept.count_eq
      exact ih (h.runRound htwo) (hcount.symm ▸ htwo)

end InStep

/-! ## Arenas of one seed -/

omit [Chooser σ] in
/-- Arenas with one spacing, as many programs and the same draws to come are in step. -/
theorem inStep_of_new {s s' : ArenaSettings} {sources sources' : List String} {draws : σ}
    (hnew : new s sources draws = .ok a) (hnew' : new s' sources' draws = .ok a')
    (hcore : s.coreSize = s'.coreSize) (hseparation : s.separation = s'.separation)
    (hlength : s.maxLength = s'.maxLength) (hcount : sources.length = sources'.length) :
    InStep a a' := by
  obtain ⟨-, -, -, -, -, -, rfl⟩ := eq_of_new hnew
  obtain ⟨-, -, -, -, -, -, rfl⟩ := eq_of_new hnew'
  refine ⟨hcore, hseparation, hlength, ?_, rfl⟩
  simp only [count, List.size_toArray, List.length_map]
  exact hcount

/-- **Programs have no say in where they are placed.**  Take two arenas that were opened
    with the same seed, size of the core, separation, greatest length and number of
    programs; the programs, the limit of the sweeps and the number of rounds of a battle
    may be anything, and so may what else there is to draw from.  When both have
    played `k` rounds, whatever came of them, their next rounds fail with one fault, for
    want of a free cell, or put the agents at the same starts. -/
theorem placed_in_lockstep {s s' : ArenaSettings} {sources sources' : List String}
    {entropy entropy' : UInt64} {a₀ a₀' : Arena Keystream} {seed : Nat}
    (hopen : seeded s sources entropy = .ok a₀) (hopen' : seeded s' sources' entropy' = .ok a₀')
    (hseed : s.seed = some seed) (hseed' : s'.seed = some seed)
    (hcore : s.coreSize = s'.coreSize) (hseparation : s.separation = s'.separation)
    (hlength : s.maxLength = s'.maxLength) (hcount : sources.length = sources'.length)
    (k : Nat) :
    let a := a₀.afterRounds k
    let a' := a₀'.afterRounds k
    (∃ f : Fault, f.kind = .placementFailed ∧ a.runRound.1 = .error f
        ∧ a'.runRound.1 = .error f)
      ∨ ∃ r r', a.runRound.1 = .ok r ∧ a'.runRound.1 = .ok r' ∧ r.starts = r'.starts
        ∧ a.runRound.2.agents.map Agent.origin = r.starts.toArray
        ∧ a'.runRound.2.agents.map Agent.origin = r'.starts.toArray := by
  intro a a'
  have hnew : new s sources (Keystream.ofSeed (UInt64.ofNat seed)) = .ok a₀ := by
    rw [seeded, hseed] at hopen
    exact hopen
  have hnew' : new s' sources' (Keystream.ofSeed (UInt64.ofNat seed)) = .ok a₀' := by
    rw [seeded, hseed'] at hopen'
    exact hopen'
  have hopened := opened_of_new hnew
  have hkept := kept_after hopened.two (List.replicate k .round)
  have hstep : InStep a a' :=
    (inStep_of_new hnew hnew' hcore hseparation hlength hcount).afterRounds hopened.two k
  rcases hstep.placed_alike (hkept.count_eq.symm ▸ hopened.two) with ⟨e, hfails, hfails'⟩ | hplaced
  · obtain ⟨i, -, -, rfl⟩ := hopened.runRound_error hkept hfails
    exact .inl ⟨_, rfl, hfails, hfails'⟩
  · exact .inr hplaced

/-- Three programs and three others on eight cells, where some starts of the second leave
    no cell for the third: the rounds of the two arenas fail together. -/
theorem placed_in_lockstep_crowded :
    let s : ArenaSettings := ⟨8, 1, 1, 1, 3, some 7⟩
    let s' : ArenaSettings := ⟨8, 1, 1, 50, 9, some 7⟩
    let draws := Keystream.ofSeed 7
    let a₀ : Arena Keystream := ⟨s, Core.zeroed 8 (by decide),
      ((["$", ">", ">"].map Program.parse).map Agent.new).toArray, 0, 0, draws⟩
    let a₀' : Arena Keystream := ⟨s', Core.zeroed 8 (by decide),
      ((["(", "", "+"].map Program.parse).map Agent.new).toArray, 0, 0, draws⟩
    seeded s ["$", ">", ">"] 1 = .ok a₀ ∧ seeded s' ["(", "", "+"] 2 = .ok a₀'
      ∧ ∀ k, (a₀.afterRounds k).runRound.1.isOk = (a₀'.afterRounds k).runRound.1.isOk := by
  intro s s' draws a₀ a₀'
  have hopen : seeded s ["$", ">", ">"] 1 = .ok a₀ := by rfl
  have hopen' : seeded s' ["(", "", "+"] 2 = .ok a₀' := by rfl
  refine ⟨hopen, hopen', ?_⟩
  intro k
  rcases placed_in_lockstep hopen hopen' rfl rfl rfl rfl rfl rfl k with
    ⟨f, -, hfault, hfault'⟩ | ⟨r, r', hround, hround', -⟩
  · rw [hfault, hfault']
  · rw [hround, hround']
    rfl

end Arena

end NibbleArena
