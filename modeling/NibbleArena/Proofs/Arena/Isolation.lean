import NibbleArena.Proofs.Arena.Lockstep
import NibbleArena.Proofs.Arena.Score

/-! # Isolation — what earlier rounds leave behind cannot be seen

    Two arenas are alike if they have the same settings, programs and rotation, draw
    from the same state, and have cores of one size.  What lies on the cores, where
    the agents are, which of them are alive and what they have scored may be anything.

    A round begins with a zero core and every agent enters at a new start, so behind
    the entry the two arenas differ in the scores alone.  The turns do not look at
    scores: a bout without its scores goes as the bout goes, `play_unscored`.  So the
    two rounds give one report, and the arenas behind them are alike again. -/

namespace NibbleArena

theorem Core.clear_eq {c d : Core} (h : c.size = d.size) : c.clear = d.clear := by
  refine ext_read ?_ ?_
  · rw [size_clear, size_clear, h]
  · intro a
    rw [read_clear, read_clear]

/-- The agent with its score forgotten. -/
def Agent.unscored (agent : Agent) : Agent := { agent with score := 0 }

namespace Bout

/-- The bout with the scores of its agents forgotten. -/
def unscored (b : Bout) : Bout := ⟨b.core, b.agents.map Agent.unscored, b.turns⟩

/-! ## The turns do not look at scores -/

theorem after_unscored (agent : Agent) (regs : Registers) (status : Status) :
    after agent.unscored regs status = (after agent regs status).unscored := by
  cases status with
  | running => rfl
  | halted reason => rfl

theorem turn_unscored (cycle i : Nat) (b : Bout) :
    b.unscored.turn cycle i = (b.turn cycle i).map id unscored := by
  obtain ⟨core, agents, turns⟩ := b
  show turn cycle i ⟨core, agents.map Agent.unscored, turns⟩ = _
  simp only [turn, Array.getElem?_map]
  cases hagent : agents[i]? with
  | none => rfl
  | some agent =>
      have halive : agent.unscored.alive = agent.alive := rfl
      have hregs : agent.unscored.regs = agent.regs := rfl
      simp only [Option.map_some, halive, hregs]
      split
      · rcases Machine.step ⟨core, agent.regs, SealedHost.sealed⟩ with ⟨f | status, m⟩
        · simp only [Prod.map, id, unscored, Array.map_setIfInBounds]
          rfl
        · simp only [Prod.map, id, unscored, Array.map_setIfInBounds, after_unscored]
      · rfl

theorem sweep_unscored (cycle : Nat) (l : List Nat) (b : Bout) :
    b.unscored.sweep cycle l = (b.sweep cycle l).map id unscored := by
  induction l generalizing b with
  | nil => rfl
  | cons i rest ih =>
      simp only [sweep, turn_unscored]
      rcases b.turn cycle i with ⟨f | ⟨⟩, b'⟩
      · rfl
      · exact ih b'

theorem aliveCount_unscored (b : Bout) : b.unscored.aliveCount = b.aliveCount := by
  show (b.agents.map Agent.unscored).countP Agent.alive = b.agents.countP Agent.alive
  rw [Array.countP_map]
  rfl

theorem play_unscored (order : List Nat) (budget cycle : Nat) (b : Bout) :
    b.unscored.play order budget cycle = (b.play order budget cycle).map id unscored := by
  induction budget generalizing cycle b with
  | zero => rfl
  | succ budget ih =>
      simp only [play, sweep_unscored]
      rcases b.sweep cycle order with ⟨f | ⟨⟩, b'⟩
      · rfl
      · simp only [Prod.map, id, aliveCount_unscored]
        split
        · rfl
        · exact ih (cycle + 1) b'

theorem living_unscored (b : Bout) : Arena.living b.unscored.agents = Arena.living b.agents := by
  rw [living_eq_filter, living_eq_filter]
  have hsize : b.unscored.agents.size = b.agents.size := Array.size_map
  have halive : b.unscored.isAlive = b.isAlive := by
    funext i
    show ((b.agents.map Agent.unscored)[i]?.map Agent.alive).getD false = _
    rw [Array.getElem?_map, Option.map_map]
    rfl
  rw [hsize, halive]

/-! ## The entry overwrites what was there -/

/-- The same code is on both cores and about to be loaded. -/
structure SameCode (b b' : Bout) : Prop where
  core_eq : b.core = b'.core
  programs_eq : b.agents.map Agent.program = b'.agents.map Agent.program

theorem SameCode.enter {b b' : Bout} (h : SameCode b b') (starts : List Nat) (i : Nat) :
    SameCode (enter starts b i) (enter starts b' i) where
  core_eq := by
    have hprogram := congrArg (fun ps : Array Program => ps[i]?) h.programs_eq
    simp only [Array.getElem?_map] at hprogram
    obtain ⟨core, agents, turns⟩ := b
    obtain ⟨core', agents', turns'⟩ := b'
    obtain rfl : core = core' := h.core_eq
    simp only [Bout.enter]
    cases hagent : agents[i]? with
    | none =>
        rw [hagent, Option.map_none, eq_comm, Option.map_eq_none_iff] at hprogram
        rw [hprogram]
    | some agent =>
        rw [hagent, Option.map_some, eq_comm, Option.map_eq_some_iff] at hprogram
        obtain ⟨agent', hagent', hsame⟩ := hprogram
        rw [hagent']
        cases starts[i]? with
        | none => rfl
        | some start => simp only [hsame]
  programs_eq := by
    have hkept := fun b : Bout => map_of_standing Prod.fst (standing_enter starts b i)
    exact (hkept b).trans (h.programs_eq.trans (hkept b').symm)

theorem SameCode.enterAll {b b' : Bout} (h : SameCode b b') (starts l : List Nat) :
    (enterAll starts l b).core = (enterAll starts l b').core := by
  induction l generalizing b b' with
  | nil => exact h.core_eq
  | cons i rest ih => exact ih (h.enter starts i)

end Bout

namespace Arena

variable {σ : Type} {a a' : Arena σ} {starts : List Nat}

/-- Two arenas that are told apart by what earlier rounds have left, and by nothing
    else. -/
structure Alike (a a' : Arena σ) : Prop where
  settings_eq : a.settings = a'.settings
  size_eq : a.core.size = a'.core.size
  programs_eq : a.agents.map Agent.program = a'.agents.map Agent.program
  rotation_eq : a.rotation = a'.rotation
  draws_eq : a.draws = a'.draws

namespace Alike

theorem count_eq (h : Alike a a') : a.count = a'.count := size_eq_of_map_eq h.programs_eq

theorem order_eq (h : Alike a a') : a.order = a'.order := by
  show Bout.order a.count a.rotation = Bout.order a'.count a'.rotation
  rw [h.count_eq, h.rotation_eq]

/-- With a start for every agent, whatever an agent was is overwritten but for its
    score. -/
theorem loaded_unscored (h : Alike a a') (hcore : a.core = a'.core)
    (hlength : starts.length = a.count) :
    (a.loaded starts).unscored = (a'.loaded starts).unscored := by
  have hcores : (a.loaded starts).core = (a'.loaded starts).core := by
    have hcode : Bout.SameCode ⟨a.core, a.agents, []⟩ ⟨a'.core, a'.agents, []⟩ :=
      ⟨hcore, h.programs_eq⟩
    show (Bout.enterAll starts a.order _).core = (Bout.enterAll starts a'.order _).core
    rw [h.order_eq]
    exact hcode.enterAll starts a'.order
  have hagents : (a.loaded starts).agents.map Agent.unscored
      = (a'.loaded starts).agents.map Agent.unscored := by
    apply Array.ext
    · rw [Array.size_map, Array.size_map, count_loaded, count_loaded, h.count_eq]
    · intro i hi hi'
      rw [Array.size_map, count_loaded] at hi hi'
      have hstart : starts[i]? = some starts[i] := List.getElem?_eq_getElem (hlength ▸ hi)
      have hagent := agent_loaded (Array.getElem?_eq_getElem hi) hstart
      have hagent' := agent_loaded (Array.getElem?_eq_getElem hi') hstart
      have hprogram := congrArg (fun ps : Array Program => ps[i]?) h.programs_eq
      simp only [Array.getElem?_map, Array.getElem?_eq_getElem hi, Array.getElem?_eq_getElem hi',
        Option.map_some, Option.some.injEq] at hprogram
      rw [Array.getElem_map, Array.getElem_map, (Array.getElem?_eq_some_iff.1 hagent).2,
        (Array.getElem?_eq_some_iff.1 hagent').2]
      simp only [Agent.unscored, Agent.enteredAt, Agent.entered, hprogram, h.size_eq]
  have hturns : (a.loaded starts).turns = (a'.loaded starts).turns :=
    (Bout.turns_enterAll starts a.order ⟨a.core, a.agents, []⟩).trans
      (Bout.turns_enterAll starts a'.order ⟨a'.core, a'.agents, []⟩).symm
  show (⟨_, _, _⟩ : Bout) = ⟨_, _, _⟩
  rw [hcores, hagents, hturns]

theorem inStep (h : Alike a a') : InStep a a' :=
  ⟨congrArg ArenaSettings.coreSize h.settings_eq, congrArg ArenaSettings.separation h.settings_eq,
    congrArg ArenaSettings.maxLength h.settings_eq, h.count_eq, h.draws_eq⟩

variable [Chooser σ]

theorem place_eq (h : Alike a a') :
    a.reset.place.1 = a'.reset.place.1 ∧ a.placed.draws = a'.placed.draws :=
  h.inStep.place_eq

theorem placed (h : Alike a a') : Alike a.placed a'.placed where
  settings_eq := h.settings_eq
  size_eq := (size_placed a).trans (h.size_eq.trans (size_placed a').symm)
  programs_eq := by
    have hkept := fun x : Arena σ => map_of_standing Prod.fst (standing_placed x)
    exact (hkept a).trans (h.programs_eq.trans (hkept a').symm)
  rotation_eq := by
    show (a.rotation + 1) % a.count = (a'.rotation + 1) % a'.count
    rw [h.rotation_eq, h.count_eq]
  draws_eq := h.place_eq.2

/-- The bouts of two arenas that are alike go the same way, but for the scores. -/
theorem fought (h : Alike a a') (hplace : a.reset.place.1 = .ok starts) :
    ∃ cycles b b', Bout.unscored b = Bout.unscored b'
      ∧ a.runRound = (.ok (a.placed.roundOf starts cycles b), a.placed.rewarded b)
      ∧ a'.runRound = (.ok (a'.placed.roundOf starts cycles b'), a'.placed.rewarded b')
      ∧ b.agents.map Agent.standing = a.agents.map Agent.standing
      ∧ b'.agents.map Agent.standing = a'.agents.map Agent.standing := by
  have hplace' : a'.reset.place.1 = .ok starts := h.place_eq.1 ▸ hplace
  have hcore : a.placed.core = a'.placed.core := Core.clear_eq h.size_eq
  have hloaded := h.placed.loaded_unscored hcore (length_starts hplace)
  obtain ⟨cycles, hplay⟩ := a.placed.exists_play starts
  obtain ⟨cycles', hplay'⟩ := a'.placed.exists_play starts
  -- without the scores the two bouts are one, so they end alike
  have hends : Prod.map id Bout.unscored
      ((a.placed.loaded starts).play a.placed.order a.placed.settings.maxCycles 0)
        = Prod.map id Bout.unscored
          ((a'.placed.loaded starts).play a'.placed.order a'.placed.settings.maxCycles 0) := by
    rw [← Bout.play_unscored, ← Bout.play_unscored, hloaded, h.placed.order_eq,
      h.placed.settings_eq]
  rw [hplay, hplay'] at hends
  obtain ⟨hcycles, hbouts⟩ := Prod.ext_iff.1 hends
  obtain rfl : cycles = cycles' := Except.ok.inj hcycles
  refine ⟨cycles, _, _, hbouts, ?_, ?_, standing_fought a _ _ _, standing_fought a' _ _ _⟩
  · rw [runRound_of_ok hplace, playFrom_of_play hplay]
  · rw [runRound_of_ok hplace', playFrom_of_play hplay']

end Alike

/-- **Isolation of the rounds.**  Two arenas with the same settings, programs, rotation
    and draws play the same round, whatever earlier rounds have left on their cores
    and with their agents.  Either both placements fail in one way, or the reports
    agree in all but the number of the round, the cores are the same behind the
    rounds, the agents are the same but for their scores, and the scores have been raised
    in the same way: a score that is a word has grown by the points of the round, in words,
    and it is their plain sum as long as that is a word.  Either way the next rounds are
    isolated again. -/
theorem round_isolated {σ : Type} [Chooser σ] {a a' : Arena σ} (h : Alike a a') :
    (∀ e, a.runRound.1 = .error e ↔ a'.runRound.1 = .error e)
    ∧ (∀ r b, a.runRound = (.ok r, b) → ∃ r' b', a'.runRound = (.ok r', b')
        ∧ r.cycles = r'.cycles ∧ r.survivors = r'.survivors ∧ r.reward = r'.reward
        ∧ r.starts = r'.starts ∧ r.order = r'.order ∧ r.turns = r'.turns
        ∧ b.core = b'.core
        ∧ b.agents.map Agent.unscored = b'.agents.map Agent.unscored
        ∧ (∀ i : Nat, b.scores[i]? = a.scores[i]?.map (r.raised i)
            ∧ b'.scores[i]? = a'.scores[i]?.map (r.raised i))
        ∧ (∀ i score : Nat, score < 2 ^ 64 →
            r.raised i score = Word.wrapped (score + r.pointsOf i))
        ∧ ∀ i score : Nat, score + r.pointsOf i < 2 ^ 64 →
            r.raised i score = score + r.pointsOf i)
    ∧ Alike a.runRound.2 a'.runRound.2 := by
  rcases hplace : a.reset.place.1 with e | starts
  · have hplace' : a'.reset.place.1 = .error e := h.place_eq.1 ▸ hplace
    rw [runRound_of_error hplace, runRound_of_error hplace']
    exact ⟨fun _ => Iff.rfl, nofun, h.placed⟩
  · obtain ⟨cycles, b, b', hbouts, hround, hround', hstanding, hstanding'⟩ := h.fought hplace
    rw [hround, hround']
    obtain ⟨hcores, hagents, hturns⟩ := Bout.mk.inj hbouts
    have hsize : b.agents.size = b'.agents.size := size_eq_of_map_eq hagents
    have hliving : living b.agents = living b'.agents := by
      rw [← Bout.living_unscored, hbouts, Bout.living_unscored]
    have hkept : ∀ (x : Arena σ) (bout : Bout),
        (x.rewarded bout).agents.map Agent.unscored = bout.agents.map Agent.unscored :=
      fun _ _ => award_map (fun _ _ => rfl) _ _ _
    have hreward : rewardOf b.agents.size (living b.agents).length
        = rewardOf b'.agents.size (living b'.agents).length := by
      rw [hsize, hliving]
    refine ⟨fun _ => ⟨nofun, nofun⟩, ?_, ?_⟩
    · rintro r arena ⟨⟩
      refine ⟨_, _, rfl, rfl, hliving, hreward, rfl, h.placed.order_eq, ?_, hcores, ?_, ?_,
        ?_, ?_⟩
      · show b.turns.reverse = b'.turns.reverse
        rw [hturns]
      · rw [hkept, hkept, hagents]
      · intro i
        have hraised : (a.placed.roundOf starts cycles b).raised i
            = (a'.placed.roundOf starts cycles b').raised i :=
          Round.raised_congr hliving hreward i
        refine ⟨scores_rewarded a.placed starts cycles hstanding i, ?_⟩
        rw [hraised]
        exact scores_rewarded a'.placed starts cycles hstanding' i
      · intro i score hword
        exact Round.raised_eq hword _ i
      · intro i score hword
        rw [Round.raised_eq (Nat.lt_of_le_of_lt (Nat.le_add_right _ _) hword),
          Word.wrapped_of_lt hword]
    · refine ⟨h.settings_eq, congrArg Core.size hcores, ?_, h.placed.rotation_eq,
        h.placed.draws_eq⟩
      have hprograms : ∀ xs : Array Agent, xs.map Agent.program
          = (xs.map Agent.unscored).map Agent.program := by
        intro xs
        rw [Array.map_map]
        rfl
      rw [hprograms, hkept, hagents, ← hkept a'.placed, ← hprograms]

/-- Two programs on twenty cells: in one arena nothing has happened yet, in the other
    one there are brackets everywhere, an agent still alive, and a count and a score that
    go on from zero. -/
theorem round_isolated_reused :
    let s : ArenaSettings := ⟨20, 2, 3, 5, 1, none⟩
    let draws := ListedWords.ofList [0, 4008636143]
    let a : Arena ListedWords := ⟨s, Core.zeroed 20 (by decide),
      (["+.", "(a)"].map fun text => Agent.new (Program.parse text)).toArray, 1, 0, draws⟩
    let a' : Arena ListedWords := ⟨s, ⟨Array.replicate 20 11, by decide⟩,
      #[⟨Program.parse "+.", 7, ⟨19, 3⟩, true, Word.max64⟩,
        ⟨Program.parse "(a)", 2, ⟨0, 8⟩, false, 3⟩],
      1, Word.max32, draws⟩
    Alike a a' ∧ a.runRound.1.isOk = true ∧ a.runRound.2.core = a'.runRound.2.core
      ∧ a.runRound.2.scores = [3, 0] ∧ a'.runRound.2.scores = [2, 3]
      ∧ a.runRound.2.roundsPlayed = 1 ∧ a'.runRound.2.roundsPlayed = 0 := by
  intro s draws a a'
  have halike : Alike a a' := ⟨rfl, rfl, by decide +kernel, rfl, rfl⟩
  have hok : a.runRound.1.isOk = true := by decide +kernel
  have hscores : a.runRound.2.scores = [3, 0] := by decide +kernel
  have hscores' : a'.runRound.2.scores = [2, 3] := by decide +kernel
  have hcounted : a.runRound.2.roundsPlayed = 1 := by decide +kernel
  have hcounted' : a'.runRound.2.roundsPlayed = 0 := by decide +kernel
  refine ⟨halike, hok, ?_, hscores, hscores', hcounted, hcounted'⟩
  obtain ⟨-, hround, -⟩ := round_isolated halike
  have hplayed : ∃ r b, a.runRound = (.ok r, b) := by
    rcases hresult : a.runRound with ⟨e | r, b⟩
    · rw [hresult] at hok
      cases hok
    · exact ⟨r, b, rfl⟩
  obtain ⟨r, b, hresult⟩ := hplayed
  obtain ⟨r', b', hresult', -, -, -, -, -, -, hcore, -⟩ := hround r b hresult
  have hleft : a.runRound.2.core = b.core := by rw [hresult]
  have hright : a'.runRound.2.core = b'.core := by rw [hresult']
  exact hleft.trans (hcore.trans hright.symm)

end Arena

end NibbleArena
