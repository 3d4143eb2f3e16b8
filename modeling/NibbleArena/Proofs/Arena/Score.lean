import Mathlib.Algebra.Order.BigOperators.Group.List
import Mathlib.Algebra.Order.Ring.Nat
import Mathlib.Data.List.Forall2
import NibbleArena.Proofs.Arena.History
import NibbleArena.Proofs.Arena.Opening

/-! # Scores — what is handed out over the rounds

    A completed round hands out the same number of points to each of its survivors
    and none to the others; a failed round hands out nothing.  The points of one
    round are the whole part of a division, so almost all of `count² - 1` is handed
    out whenever there are survivors: what is left over is less than one point for
    each of them.

    `Scored` is the invariant of the rounds: the score of an agent is what it had
    with all points it has earned since, in words.  The bounds on what is earned are
    sums over the history of the bounds on a round.  While they are words, no score
    has been wrapped. -/

namespace NibbleArena

/-- The points that a round gives to agent `i`. -/
def Round.pointsOf (r : Round) (i : Nat) : Nat := if i ∈ r.survivors then r.reward else 0

/-- The score of agent `i` behind a round. -/
def Round.raised (r : Round) (i score : Nat) : Nat :=
  if i ∈ r.survivors then Word.wrapped (score + r.reward) else score

/-- Survivors and reward decide what becomes of a score. -/
theorem Round.raised_congr {r r' : Round} (hsurvivors : r.survivors = r'.survivors)
    (hreward : r.reward = r'.reward) (i : Nat) : r.raised i = r'.raised i := by
  funext score
  rw [raised, raised, hsurvivors, hreward]

/-- A score that is a word grows by the points of the round. -/
theorem Round.raised_eq {score : Nat} (h : score < 2 ^ 64) (r : Round) (i : Nat) :
    r.raised i score = Word.wrapped (score + r.pointsOf i) := by
  by_cases hi : i ∈ r.survivors
  · rw [raised, pointsOf, if_pos hi, if_pos hi]
  · rw [raised, pointsOf, if_neg hi, if_neg hi, Nat.add_zero, Word.wrapped_of_lt h]

/-- The reward of a round among `count` agents is the one its survivors share. -/
structure Round.Fair (count : Nat) (r : Round) : Prop where
  increasing : r.survivors.Pairwise (· < ·)
  lt : ∀ i ∈ r.survivors, i < count
  reward_eq : r.reward = Arena.rewardOf count r.survivors.length

namespace Arena

/-- The points that agent `i` gets for a result. -/
def pointsOf (i : Nat) : Except Failure Round → Nat
  | .ok r => r.pointsOf i
  | .error _ => 0

/-- The points of agent `i` over a history. -/
def earned (i : Nat) (log : List (Except Failure Round)) : Nat := (log.map (pointsOf i)).sum

/-- The number of rounds that were completed. -/
def completed (log : List (Except Failure Round)) : Nat := log.countP fun result => result.isOk

end Arena

/-! ## One round -/

namespace Round.Fair

variable {count : Nat} {r : Round}

/-- The survivors are counted among all agents. -/
theorem countP_survivors (h : r.Fair count) :
    (List.range count).countP (· ∈ r.survivors) = r.survivors.length := by
  have hnodup : r.survivors.Nodup := h.increasing.imp Nat.ne_of_lt
  have hperm : ((List.range count).filter (· ∈ r.survivors)).Perm r.survivors := by
    rw [List.perm_ext_iff_of_nodup (List.nodup_range.filter _) hnodup]
    intro i
    rw [List.mem_filter, List.mem_range, decide_eq_true_iff]
    exact ⟨And.right, fun hi => ⟨h.lt i hi, hi⟩⟩
  rw [List.countP_eq_length_filter, hperm.length_eq]

theorem length_le (h : r.Fair count) : r.survivors.length ≤ count := by
  have hle := List.countP_le_length (p := (· ∈ r.survivors)) (l := List.range count)
  rw [h.countP_survivors, List.length_range] at hle
  exact hle

/-- The agents of a round get as many rewards as there are survivors. -/
theorem sum_pointsOf (h : r.Fair count) :
    ((List.range count).map r.pointsOf).sum = r.survivors.length * r.reward := by
  have hcounted : ∀ l : List Nat,
      (l.map r.pointsOf).sum = l.countP (· ∈ r.survivors) * r.reward := by
    intro l
    induction l with
    | nil => simp
    | cons i rest ih =>
        rw [List.map_cons, List.sum_cons, ih, List.countP_cons, Nat.add_mul, Nat.add_comm]
        by_cases hi : i ∈ r.survivors
        · simp [pointsOf, hi]
        · simp [pointsOf, hi]
  rw [hcounted, h.countP_survivors]

/-- Without survivors there is no reward. -/
theorem reward_none (h : r.Fair count) (hnone : r.survivors.length = 0) : r.reward = 0 := by
  rw [h.reward_eq, hnone]
  rfl

/-- What is handed out falls short of `count² - 1` by less than one point for each
    survivor. -/
theorem handed_out (h : r.Fair count) (hword : count ^ 2 - 1 < 2 ^ 64)
    (hsome : 1 ≤ r.survivors.length) :
    r.survivors.length * r.reward ≤ count ^ 2 - 1
      ∧ count ^ 2 - 1 < r.survivors.length * r.reward + r.survivors.length
      ∧ count - 1 ≤ r.reward ∧ r.reward ≤ count ^ 2 - 1 := by
  have hle := h.length_le
  have hreward : r.reward = (count ^ 2 - 1) / r.survivors.length := by
    rw [h.reward_eq, Arena.rewardOf, if_neg (Nat.ne_of_gt hsome), ← Nat.pow_two,
      Word.wrapped_of_lt hword]
  rw [hreward]
  refine ⟨Nat.mul_div_le _ _, ?_, ?_, Nat.div_le_self _ _⟩
  · have hnext := Nat.lt_mul_div_succ (count ^ 2 - 1) hsome
    rw [Nat.mul_add, Nat.mul_one] at hnext
    exact hnext
  · rw [Nat.le_div_iff_mul_le hsome]
    calc (count - 1) * r.survivors.length
        ≤ (count - 1) * count := Nat.mul_le_mul_left _ hle
      _ = count ^ 2 - count := by rw [Nat.sub_mul, Nat.one_mul, Nat.pow_two]
      _ ≤ count ^ 2 - 1 := Nat.sub_le_sub_left (by omega) _

end Round.Fair

namespace Arena

/-! ## Over the rounds -/

theorem earned_append (i : Nat) (log later : List (Except Failure Round)) :
    earned i (log ++ later) = earned i log + earned i later := by
  rw [earned, List.map_append, List.sum_append]
  rfl

/-- If `count² - 1` points for every round are a word, so are those for one round. -/
theorem points_lt {points : Nat} {log : List (Except Failure Round)}
    {result : Except Failure Round} (hword : log.length * points < 2 ^ 64)
    (hresult : result ∈ log) : points < 2 ^ 64 :=
  Nat.lt_of_le_of_lt (Nat.le_mul_of_pos_left points (List.length_pos_of_mem hresult)) hword

/-- No more is earned than `count² - 1` points for each completed round. -/
theorem sum_earned_le {count : Nat} {log : List (Except Failure Round)}
    (h : ∀ r, .ok r ∈ log → r.Fair count) (hword : log.length * (count ^ 2 - 1) < 2 ^ 64) :
    ((List.range count).map fun i => earned i log).sum ≤ completed log * (count ^ 2 - 1) := by
  induction log with
  | nil => simp [earned]
  | cons result rest ih =>
      have hless : rest.length * (count ^ 2 - 1) < 2 ^ 64 :=
        Nat.lt_of_le_of_lt (Nat.mul_le_mul_right _ (Nat.le_succ _)) hword
      have hrest := ih (fun r hr => h r (List.mem_cons_of_mem _ hr)) hless
      -- what the first result adds is bounded apart from the rest
      have hsplit : ((List.range count).map fun i => earned i (result :: rest)).sum
          = ((List.range count).map fun i => pointsOf i result).sum
            + ((List.range count).map fun i => earned i rest).sum := List.sum_map_add
      rw [hsplit, completed, List.countP_cons, Nat.add_mul, Nat.add_comm]
      refine Nat.add_le_add hrest ?_
      cases result with
      | error e => simp [pointsOf]
      | ok r =>
          have hfair := h r List.mem_cons_self
          have hsum : ((List.range count).map fun i => pointsOf i (.ok r)).sum
              = r.survivors.length * r.reward := hfair.sum_pointsOf
          rw [hsum]
          rcases Nat.eq_zero_or_pos r.survivors.length with hnone | hsome
          · rw [hnone, Nat.zero_mul]
            exact Nat.zero_le _
          · exact Nat.le_trans (hfair.handed_out (points_lt hword List.mem_cons_self) hsome).1
              (Nat.le_of_eq (Nat.one_mul _).symm)

/-- What one agent has earned is no more than what all have. -/
theorem earned_lt {count i : Nat} {log : List (Except Failure Round)}
    (h : ∀ r, .ok r ∈ log → r.Fair count) (hword : log.length * (count ^ 2 - 1) < 2 ^ 64)
    (hi : i < count) : earned i log < 2 ^ 64 :=
  calc earned i log
      ≤ ((List.range count).map fun i => earned i log).sum :=
        List.le_sum_of_mem (List.mem_map.2 ⟨i, List.mem_range.2 hi, rfl⟩)
    _ ≤ completed log * (count ^ 2 - 1) := sum_earned_le h hword
    _ ≤ log.length * (count ^ 2 - 1) := Nat.mul_le_mul_right _ List.countP_le_length
    _ < 2 ^ 64 := hword

variable {σ : Type} [Chooser σ]

omit [Chooser σ] in
theorem getElem?_scores (a : Arena σ) (i : Nat) :
    a.scores[i]? = a.agents[i]?.map Agent.score := by
  simp only [scores, List.getElem?_map, Array.getElem?_toList]

omit [Chooser σ] in
/-- An award adds points to the scores of its agents. -/
theorem score_award (points : Nat) {l : List Nat} (agents : Array Agent) (hnodup : l.Nodup)
    (i : Nat) : (award points l agents)[i]?.map Agent.score
      = (agents[i]?.map Agent.score).map fun score =>
          if i ∈ l then Word.wrapped (score + points) else score := by
  rw [agent_award agents hnodup, Option.map_map, Option.map_map]
  congr 1
  funext agent
  show (if i ∈ l then agent.awarded points else agent).score
    = if i ∈ l then Word.wrapped (agent.score + points) else agent.score
  by_cases hi : i ∈ l
  · rw [if_pos hi, if_pos hi]
    rfl
  · rw [if_neg hi, if_neg hi]

omit [Chooser σ] in
theorem score_of_standing {a : Arena σ} {agents : Array Agent}
    (h : agents.map Agent.standing = a.agents.map Agent.standing) (i : Nat) :
    agents[i]?.map Agent.score = a.scores[i]? := by
  rw [getElem?_scores, ← Array.getElem?_map, ← Array.getElem?_map]
  exact congrArg (fun scores : Array Nat => scores[i]?) (map_of_standing Prod.snd h)

omit [Chooser σ] in
/-- The reward is added to the scores that the survivors had before the bout. -/
theorem scores_rewarded {a : Arena σ} {b : Bout} (a' : Arena σ) (starts : List Nat)
    (cycles : Nat) (h : b.agents.map Agent.standing = a.agents.map Agent.standing) (i : Nat) :
    (a'.rewarded b).scores[i]? = a.scores[i]?.map ((a'.roundOf starts cycles b).raised i) := by
  rw [getElem?_scores, ← score_of_standing h]
  exact score_award _ _ ((Bout.pairwise_living b.agents).imp Nat.ne_of_lt) i

/-- The score of agent `i` behind a result. -/
def raisedBy (i : Nat) : Except Failure Round → Nat → Nat
  | .ok r, score => r.raised i score
  | .error _, score => score

omit [Chooser σ] in
theorem raisedBy_eq {score : Nat} (h : score < 2 ^ 64) (i : Nat)
    (result : Except Failure Round) :
    raisedBy i result score = Word.wrapped (score + pointsOf i result) := by
  cases result with
  | ok r => exact r.raised_eq h i
  | error e => exact (Word.wrapped_of_lt h).symm

/-- A round is fair and adds its points to the scores. -/
theorem Went.scored {a : Arena σ} {result : Except Failure Round × Arena σ} (h : a.Went result) :
    (∀ r, result.1 = .ok r → r.Fair a.count)
      ∧ ∀ i : Nat, result.2.scores[i]? = a.scores[i]?.map (raisedBy i result.1) := by
  cases h with
  | unplaced hplace =>
      refine ⟨nofun, ?_⟩
      intro i
      rw [getElem?_scores, score_of_standing (standing_placed a)]
      exact Option.map_id'.symm
  | @fought starts cycles b hplace hfresh hend hfought =>
      subst hend
      have hstanding := standing_fought a starts a.placed.order cycles
      have hcount := size_eq_of_map_eq hstanding
      constructor
      · rintro r ⟨⟩
        refine ⟨hfought.increasing, ?_, congrArg (fun count => rewardOf count _) hcount⟩
        intro i hi
        have hrange := (List.mem_filter.1 hi).1
        rw [hcount] at hrange
        exact List.mem_range.1 hrange
      · exact scores_rewarded a.placed starts cycles hstanding

/-- The scores of `a` are those of `a₀` with the points of the rounds between, in words. -/
structure Scored (a₀ : Arena σ) (log : List (Except Failure Round)) (a : Arena σ) : Prop where
  kept : Kept a₀ log a
  fair : ∀ r, .ok r ∈ log → r.Fair a₀.count
  score_eq : (∀ score ∈ a₀.scores, score < 2 ^ 64) →
    ∀ i : Nat, a.scores[i]? = a₀.scores[i]?.map fun score => Word.wrapped (score + earned i log)

theorem Scored.runRound {a₀ a : Arena σ} {log : List (Except Failure Round)}
    (h : Scored a₀ log a) (htwo : 2 ≤ a₀.count) :
    Scored a₀ (log ++ [a.runRound.1]) a.runRound.2 := by
  have hcount := h.kept.count_eq
  have hwent := runRound_went a (hcount.symm ▸ htwo)
  obtain ⟨hfair, hscore⟩ := hwent.scored
  refine ⟨h.kept.trans hwent.kept, ?_, ?_⟩
  · intro r hr
    rcases List.mem_append.1 hr with hr | hr
    · exact h.fair r hr
    · rw [← hcount]
      exact hfair r (List.mem_singleton.1 hr).symm
  · intro hwords i
    have hearned : earned i [a.runRound.1] = pointsOf i a.runRound.1 := Nat.add_zero _
    rw [hscore, h.score_eq hwords, Option.map_map, earned_append, hearned]
    congr 1
    funext score
    rw [Function.comp_apply, raisedBy_eq (Word.wrapped_lt _), Word.wrapped_add_wrapped,
      Nat.add_assoc]

theorem scored_after {a₀ : Arena σ} (htwo : 2 ≤ a₀.count) (calls : List Call) :
    Scored a₀ (history calls a₀) (a₀.after calls) := by
  have hnew : Scored a₀ [] a₀ := by
    refine ⟨Kept.refl a₀, nofun, ?_⟩
    intro hwords i
    rcases hscore : a₀.scores[i]? with _ | score
    · rfl
    · have hword := hwords score (List.mem_of_getElem? hscore)
      exact congrArg some (Word.wrapped_of_lt hword).symm
  exact history_induction (fun _ _ h => h.runRound htwo) calls hnew

omit [Chooser σ] in
theorem Opened.scores_eq {s : ArenaSettings} {sources : List String} {a : Arena σ}
    (h : a.Opened s sources) : a.scores = List.replicate a.count 0 := by
  rw [scores, count, h.agents_eq, List.size_toArray, List.length_map, List.map_map]
  exact List.map_const'

/-- The scores of an arena that was opened are the points that were earned, if these are
    words. -/
theorem Opened.scores_after {s : ArenaSettings} {sources : List String} {a₀ : Arena σ}
    (h : a₀.Opened s sources) (calls : List Call)
    (hword : (history calls a₀).length * (a₀.count ^ 2 - 1) < 2 ^ 64) :
    (a₀.after calls).scores = (List.range a₀.count).map fun i => earned i (history calls a₀) := by
  have hscored := scored_after h.two calls
  have hwords : ∀ score ∈ a₀.scores, score < 2 ^ 64 := by
    intro score hscore
    rw [h.scores_eq] at hscore
    rw [List.eq_of_mem_replicate hscore]
    decide
  apply List.ext_getElem?
  intro i
  rw [hscored.score_eq hwords, h.scores_eq, List.getElem?_map, List.getElem?_replicate]
  by_cases hi : i < a₀.count
  · rw [if_pos hi, List.getElem?_range hi, Option.map_some, Option.map_some, Nat.zero_add,
      Word.wrapped_of_lt (earned_lt hscored.fair hword hi)]
  · have hout : (List.range a₀.count)[i]? = none := by
      rw [List.getElem?_eq_none_iff, List.length_range]
      exact Nat.le_of_not_lt hi
    rw [if_neg hi, hout]
    rfl

/-- **Score accounting.**  However an arena is used, failed rounds included, the score
    of an agent is the sum of the rewards of the completed rounds that it survived.
    A completed round with survivors hands out `count² - 1` points but for less
    than one to each of them.  So no score goes down or leaves the range of a word.
    All this as long as the rounds are fewer than `2 ^ 32` and `count² - 1` points
    for every round are a word. -/
theorem scores_accounted {s : ArenaSettings} {sources : List String} {draws : σ} {a₀ : Arena σ}
    (calls : List Call) (hnew : Arena.new s sources draws = .ok a₀)
    (hfew : (history calls a₀).length < 2 ^ 32)
    (hword : (a₀.after calls).roundsPlayed * (a₀.count ^ 2 - 1) < 2 ^ 64) :
    let a := a₀.after calls
    let log := history calls a₀
    a.roundsPlayed = log.length
      ∧ a.scores = ((List.range a₀.count).map fun i => earned i log)
      ∧ (∀ r, .ok r ∈ log →
          (r.survivors.length = 0 → r.reward = 0)
          ∧ (1 ≤ r.survivors.length →
            r.survivors.length * r.reward ≤ a₀.count ^ 2 - 1
            ∧ a₀.count ^ 2 - 1 < r.survivors.length * r.reward + r.survivors.length
            ∧ a₀.count - 1 ≤ r.reward ∧ r.reward ≤ a₀.count ^ 2 - 1))
      ∧ a.scores.sum ≤ completed log * (a₀.count ^ 2 - 1)
      ∧ (∀ score ∈ a.scores, score < 2 ^ 64)
      ∧ ∀ first later, calls = first ++ later →
          List.Forall₂ (· ≤ ·) (a₀.after first).scores a.scores := by
  intro a log
  have hopened := opened_of_new hnew
  have hscored := scored_after hopened.two calls
  have hrounds : a.roundsPlayed = log.length := hscored.kept.roundsPlayed_eq hopened.unplayed hfew
  have hpoints : log.length * (a₀.count ^ 2 - 1) < 2 ^ 64 := hrounds ▸ hword
  have hscores := hopened.scores_after calls hpoints
  have hsum : a.scores.sum ≤ completed log * (a₀.count ^ 2 - 1) :=
    hscores ▸ sum_earned_le hscored.fair hpoints
  refine ⟨hrounds, hscores, ?_, hsum, ?_, ?_⟩
  · intro r hr
    have hfair := hscored.fair r hr
    exact ⟨hfair.reward_none, hfair.handed_out (points_lt hpoints hr)⟩
  · intro score hscore
    calc score
        ≤ a.scores.sum := List.le_sum_of_mem hscore
      _ ≤ completed log * (a₀.count ^ 2 - 1) := hsum
      _ ≤ log.length * (a₀.count ^ 2 - 1) := Nat.mul_le_mul_right _ List.countP_le_length
      _ < 2 ^ 64 := hpoints
  · rintro first later rfl
    have hlonger : (history (first ++ later) a₀).length * (a₀.count ^ 2 - 1) < 2 ^ 64 := hpoints
    have hfirst : (history first a₀).length * (a₀.count ^ 2 - 1) < 2 ^ 64 := by
      rw [history_append, List.length_append] at hlonger
      exact Nat.lt_of_le_of_lt (Nat.mul_le_mul_right _ (Nat.le_add_right _ _)) hlonger
    show List.Forall₂ _ _ (a₀.after (first ++ later)).scores
    rw [hopened.scores_after first hfirst, hopened.scores_after (first ++ later) hlonger,
      history_append, List.forall₂_map_left_iff, List.forall₂_map_right_iff, List.forall₂_same]
    intro i _
    rw [earned_append]
    exact Nat.le_add_right _ _

/-- A battle of three programs whose first round leaves two of them and whose second
    round cannot be placed. -/
theorem scores_accounted_crowded :
    let s : ArenaSettings := ⟨8, 1, 1, 1, 2, none⟩
    let sources := ["$", ">", ">"]
    let draws := ListedWords.ofList [0, 0, 2147483648]
    let a₀ : Arena ListedWords := ⟨s, Core.zeroed 8 (by decide),
      ((sources.map Program.parse).map Agent.new).toArray, 0, 0, draws⟩
    Arena.new s sources draws = .ok a₀ ∧ (history [.battle] a₀).length < 2 ^ 32
      ∧ (a₀.after [.battle]).roundsPlayed * (a₀.count ^ 2 - 1) < 2 ^ 64
      ∧ (a₀.after [.battle]).roundsPlayed = 2 ∧ completed (history [.battle] a₀) = 1
      ∧ (a₀.after [.battle]).scores = [0, 4, 4]
      ∧ (a₀.after [.battle]).scores.sum
        ≤ completed (history [.battle] a₀) * (a₀.count ^ 2 - 1) := by
  intro s sources draws a₀
  have hnew : Arena.new s sources draws = .ok a₀ := rfl
  have hrounds : (a₀.after [.battle]).roundsPlayed = 2 := by decide +kernel
  have hword : (a₀.after [.battle]).roundsPlayed * (a₀.count ^ 2 - 1) < 2 ^ 64 := by
    rw [hrounds]
    decide
  have hfew : (history [.battle] a₀).length < 2 ^ 32 := by
    have hlength : (history [.battle] a₀).length = 2 := by decide +kernel
    rw [hlength]
    decide
  have hcompleted : completed (history [.battle] a₀) = 1 := by decide +kernel
  have hscores : (a₀.after [.battle]).scores = [0, 4, 4] := by decide +kernel
  have haccounted := scores_accounted [.battle] hnew hfew hword
  exact ⟨hnew, hfew, hword, hrounds, hcompleted, hscores, haccounted.2.2.2.1⟩

end Arena

end NibbleArena
