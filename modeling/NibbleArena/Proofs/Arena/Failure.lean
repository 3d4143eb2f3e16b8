import NibbleArena.Proofs.Arena.History
import NibbleArena.Proofs.Arena.Opening
import NibbleArena.Proofs.Placement.Room

/-! # Failures — what a round leaves that could not be placed

    A bout does not fail, so a round fails just if its placement does, and then it
    leaves the arena as the placement has left it: `runRound_eq_error_iff`.  `Lapsed`
    says what that is.  The round has been counted and the rotation has moved on; the
    core and the agents are cleared for a round that never began; and what goes on
    from round to round stays.

    A battle is rounds played one by one up to the first that fails, so it fails with
    the fault of this round and leaves what this round leaves.

    Valid settings leave room for two agents.  A fault therefore always names the third
    agent or a later one, and an arena with two programs has no faults.  Since the agents
    and the core have found their memory when the arena was opened, no round crashes. -/

namespace NibbleArena

namespace Arena

variable {σ : Type}

/-- The arena `a'` has come from `a` by a round that was not begun. -/
structure Lapsed (a a' : Arena σ) : Prop where
  settings_eq : a'.settings = a.settings
  programs_eq : a'.programs = a.programs
  scores_eq : a'.scores = a.scores
  origins_eq : a'.agents.map Agent.origin = a.agents.map Agent.origin
  size_eq : a'.core.size = a.core.size
  zero : ∀ x, a'.core.read x = 0
  retired : ∀ agent ∈ a'.agents, agent.alive = false ∧ agent.regs = ⟨0, 0⟩
  /-- One round more, in words of 32 bits. -/
  counted : a'.roundsPlayed = Word.wrapped32 (a.roundsPlayed + 1)
  rotated : a'.rotation = (a.rotation + 1) % a.count

variable [Chooser σ]

/-- The arena behind `k` rounds, whatever came of them. -/
def afterRounds (k : Nat) (a : Arena σ) : Arena σ := a.after (List.replicate k .round)

theorem afterRounds_succ (k : Nat) (a : Arena σ) :
    a.afterRounds (k + 1) = a.runRound.2.afterRounds k := rfl

/-! ## One round -/

theorem runRound_eq_error_iff {a a' : Arena σ} {e : Failure} :
    a.runRound = (.error e, a') ↔ a.reset.place.1 = .error e ∧ a' = a.placed := by
  rcases hplace : a.reset.place.1 with e' | starts
  · rw [runRound_of_error hplace]
    constructor
    · rintro ⟨⟩
      exact ⟨rfl, rfl⟩
    · rintro ⟨hfails, rfl⟩
      cases hfails
      rfl
  · obtain ⟨cycles, hround⟩ := a.placed.exists_playFrom starts
    rw [runRound_of_ok hplace, hround]
    exact ⟨nofun, nofun⟩

theorem lapsed_placed (a : Arena σ) : Lapsed a a.placed where
  settings_eq := rfl
  programs_eq := by
    show (a.agents.map Agent.retired).toList.map Agent.program = a.agents.toList.map Agent.program
    rw [Array.toList_map, List.map_map]
    rfl
  scores_eq := by
    show (a.agents.map Agent.retired).toList.map Agent.score = a.agents.toList.map Agent.score
    rw [Array.toList_map, List.map_map]
    rfl
  origins_eq := by
    show (a.agents.map Agent.retired).map Agent.origin = _
    rw [Array.map_map]
    rfl
  size_eq := size_placed a
  zero := a.core.read_clear
  retired := by
    intro agent hagent
    obtain ⟨before, -, rfl⟩ := Array.mem_map.1 hagent
    exact ⟨rfl, rfl⟩
  counted := rfl
  rotated := rfl

/-! ## Rounds one after the other -/

/-- Rounds that are played up to the first failure end with the one that fails. -/
theorem runRounds_eq_error_iff {n : Nat} {a a' : Arena σ} {e : Failure} :
    runRounds n a = (.error e, a') ↔ ∃ k < n,
      (∀ j < k, (a.afterRounds j).runRound.1.isOk = true)
        ∧ (a.afterRounds k).runRound = (.error e, a') := by
  induction n generalizing a with
  | zero =>
      constructor
      · intro h
        cases h
      · rintro ⟨k, hk, -⟩
        exact absurd hk (Nat.not_lt_zero k)
  | succ n ih =>
      rcases hround : a.runRound with ⟨e' | r, b⟩
      · have hstop : runRounds (n + 1) a = (.error e', b) := by
          simp only [runRounds, hround]
        rw [hstop]
        constructor
        · rintro ⟨⟩
          exact ⟨0, Nat.succ_pos n, fun j hj => absurd hj (Nat.not_lt_zero j), hround⟩
        · rintro ⟨k, -, hbefore, hfails⟩
          cases k with
          | zero =>
              have hsame : a.runRound = (.error e, a') := hfails
              rw [hround] at hsame
              cases hsame
              rfl
          | succ k =>
              have hok : a.runRound.1.isOk = true := hbefore 0 (Nat.succ_pos k)
              rw [hround] at hok
              cases hok
      · have hgo : runRounds (n + 1) a = runRounds n b := by
          simp only [runRounds, hround]
        have hafter : ∀ k, a.afterRounds (k + 1) = b.afterRounds k := by
          intro k
          rw [afterRounds_succ, hround]
        rw [hgo, ih]
        -- the rounds behind the first one are counted from there
        constructor
        · rintro ⟨k, hk, hbefore, hfails⟩
          refine ⟨k + 1, by omega, ?_, ?_⟩
          · intro j hj
            cases j with
            | zero =>
                show a.runRound.1.isOk = true
                rw [hround]
                rfl
            | succ j =>
                rw [hafter]
                exact hbefore j (by omega)
          · rw [hafter]
            exact hfails
        · rintro ⟨k, hk, hbefore, hfails⟩
          cases k with
          | zero =>
              have hsame : a.runRound = (.error e, a') := hfails
              rw [hround] at hsame
              cases hsame
          | succ k =>
              rw [hafter] at hfails
              refine ⟨k, by omega, ?_, hfails⟩
              intro j hj
              have hok := hbefore (j + 1) (by omega)
              rw [hafter] at hok
              exact hok

theorem battle_eq_error_iff {a a' : Arena σ} {e : Failure} :
    a.battle = (.error e, a') ↔ ∃ k < a.settings.rounds,
      (∀ j < k, (a.afterRounds j).runRound.1.isOk = true)
        ∧ (a.afterRounds k).runRound = (.error e, a') := by
  rw [← runRounds_eq_error_iff, battle]
  rcases runRounds a.settings.rounds a with ⟨e' | ⟨⟩, b⟩
  · constructor
    · rintro ⟨⟩
      rfl
    · rintro ⟨⟩
      rfl
  · exact ⟨nofun, nofun⟩

/-! ## Arenas that were opened -/

variable {s : ArenaSettings} {sources : List String} {a₀ a : Arena σ}

/-- In an arena that was opened, a round fails with a fault that names the third agent or a
    later one. -/
theorem Opened.runRound_error (hopened : a₀.Opened s sources) {log : List (Except Failure Round)}
    (hkept : Kept a₀ log a) {e : Failure} (h : a.runRound.1 = .error e) :
    ∃ i, 2 ≤ i ∧ i < sources.length ∧ e = Placement.crowded i s.coreSize := by
  have hsettings : a.settings = s := hkept.settings_eq.trans hopened.settings_eq
  have hcount : a.placed.count = sources.length := by
    rw [count_placed, hkept.count_eq, count, hopened.agents_eq, List.size_toArray, List.length_map,
      List.length_map]
  have hplace := (runRound_eq_error_iff.1 (Prod.ext h rfl)).1
  have hfails : (Placement.place s.coreSize a.placed.count s.separation s.maxLength a.draws).1
      = .error e := hsettings ▸ hplace
  rw [hcount] at hfails
  refine Placement.place_error ?_ hopened.fits hfails
  have hroomy := hopened.roomy
  rw [hopened.reach_eq]
  omega

/-- **Failures are confined.**  However an arena has been used since it was opened,
    and whatever is drawn, a round or a battle fails only because an agent finds no
    free cell, and this agent is the third or a later one, so with two programs none
    fails.  A round that fails has lapsed.  A battle fails just if one of its rounds
    does; it stops there and keeps the scores of the rounds before. -/
theorem failures_confined {draws : σ} (calls : List Call)
    (hnew : Arena.new s sources draws = .ok a₀) :
    let a := a₀.after calls
    (∀ e, a.runRound.1 = .error e ∨ a.battle.1 = .error e →
        ∃ f i, e = .fault f ∧ f.kind = .placementFailed ∧ 2 ≤ i ∧ i < sources.length
          ∧ f = Placement.crowded i s.coreSize)
      ∧ (∀ e a', a.runRound = (.error e, a') → Lapsed a a')
      ∧ (∀ e a', a.battle = (.error e, a') ↔ ∃ k < s.rounds,
          (∀ j < k, (a.afterRounds j).runRound.1.isOk = true)
            ∧ (a.afterRounds k).runRound = (.error e, a')
            ∧ a'.scores = (a.afterRounds k).scores)
      ∧ (sources.length = 2 → a.runRound.1.isOk = true ∧ a.battle.1.isOk = true) := by
  intro a
  have hopened := opened_of_new hnew
  have hlapsed : ∀ (x : Arena σ) e x', x.runRound = (.error e, x') → Lapsed x x' := by
    intro x e x' h
    obtain ⟨-, rfl⟩ := runRound_eq_error_iff.1 h
    exact lapsed_placed x
  -- a battle fails as one of its rounds does, and that is one more call
  have hcrowded : ∀ e, a.runRound.1 = .error e ∨ a.battle.1 = .error e →
      ∃ i, 2 ≤ i ∧ i < sources.length ∧ e = Placement.crowded i s.coreSize := by
    rintro e (h | h)
    · exact hopened.runRound_error (kept_after hopened.two calls) h
    · obtain ⟨k, -, -, hround⟩ := battle_eq_error_iff.1 (Prod.ext h rfl)
      have hkept := kept_after hopened.two (calls ++ List.replicate k .round)
      rw [after_append] at hkept
      exact hopened.runRound_error hkept (congrArg Prod.fst hround)
  have hsettings : a.settings = s :=
    (kept_after hopened.two calls).settings_eq.trans hopened.settings_eq
  refine ⟨?_, hlapsed a, ?_, ?_⟩
  · intro e h
    obtain ⟨i, hle, hlt, rfl⟩ := hcrowded e h
    exact ⟨_, i, rfl, rfl, hle, hlt, rfl⟩
  · intro e a'
    rw [battle_eq_error_iff, hsettings]
    constructor
    · rintro ⟨k, hk, hbefore, hround⟩
      exact ⟨k, hk, hbefore, hround, (hlapsed _ e a' hround).scores_eq⟩
    · rintro ⟨k, hk, hbefore, hround, -⟩
      exact ⟨k, hk, hbefore, hround⟩
  · intro htwo
    have hnone : ∀ e, ¬(a.runRound.1 = .error e ∨ a.battle.1 = .error e) := by
      intro e h
      obtain ⟨i, hle, hlt, -⟩ := hcrowded e h
      omega
    constructor
    · rcases hround : a.runRound.1 with e | r
      · exact absurd (Or.inl hround) (hnone e)
      · rfl
    · rcases hbattle : a.battle.1 with e | report
      · exact absurd (Or.inr hbattle) (hnone e)
      · rfl

/-- Three programs on eight cells, whose second round cannot be placed, and two of them
    with the same draws. -/
theorem failures_confined_crowded :
    let s : ArenaSettings := ⟨8, 1, 1, 1, 3, none⟩
    let draws := ListedWords.ofList [0, 0, 2147483648]
    let three : Arena ListedWords := ⟨s, Core.zeroed 8 (by decide),
      ((["$", ">", ">"].map Program.parse).map Agent.new).toArray, 0, 0, draws⟩
    let two : Arena ListedWords := ⟨s, Core.zeroed 8 (by decide),
      (([">", ">"].map Program.parse).map Agent.new).toArray, 0, 0, draws⟩
    Arena.new s ["$", ">", ">"] draws = .ok three
      ∧ three.battle.1 = .error (Placement.crowded 2 8)
      ∧ (∃ k < 3, (∀ j < k, (three.afterRounds j).runRound.1.isOk = true)
        ∧ three.battle.2.scores = (three.afterRounds k).scores)
      ∧ three.battle.2.scores = [0, 4, 4] ∧ three.battle.2.roundsPlayed = 2
      ∧ Arena.new s [">", ">"] draws = .ok two ∧ two.battle.1.isOk = true := by
  intro s draws three two
  have hthree : Arena.new s ["$", ">", ">"] draws = .ok three := rfl
  have htwo : Arena.new s [">", ">"] draws = .ok two := rfl
  have hfault : three.battle.1 = .error (Placement.crowded 2 8) := by decide +kernel
  obtain ⟨-, -, hbattle, -⟩ := failures_confined [] hthree
  obtain ⟨k, hk, hbefore, -, hscores⟩ :=
    (hbattle (Placement.crowded 2 8) three.battle.2).1 (Prod.ext hfault rfl)
  have hleft : three.battle.2.scores = [0, 4, 4] := by decide +kernel
  have hcounted : three.battle.2.roundsPlayed = 2 := by decide +kernel
  refine ⟨hthree, hfault, ⟨k, hk, hbefore, hscores⟩, hleft, hcounted, htwo, ?_⟩
  exact ((failures_confined [] htwo).2.2.2 rfl).2

end Arena

end NibbleArena
