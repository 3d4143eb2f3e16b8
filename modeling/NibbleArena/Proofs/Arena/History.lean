import NibbleArena.Proofs.Arena.Round

/-! # Histories — arenas that are used again and again

    An arena is used by two calls: one plays a round, the other all rounds of the
    settings, up to the first that fails.  After a failure the arena can be used on.

    `history` has the result of every round that was begun, in order.  Any calls come
    to rounds played one by one, `after_eq_rounds`.  So what each single round keeps,
    of the results so far and the arena, holds after any calls, which is
    `history_induction`.  Its first use is `Kept`, what an arena is bound to stay: the
    settings, the length of the core, the programs and the count of the rounds. -/

namespace NibbleArena

namespace Arena

variable {σ : Type} [Chooser σ]

/-- A way to use an arena. -/
inductive Call
  | round
  | battle
  deriving DecidableEq

/-- The arena behind a call, whatever came of it. -/
def call (a : Arena σ) : Call → Arena σ
  | .round => a.runRound.2
  | .battle => a.battle.2

/-- The arena behind calls in order. -/
def after (calls : List Call) (a : Arena σ) : Arena σ := calls.foldl call a

/-- The results of `n` rounds, up to the first that fails. -/
def begun : Nat → Arena σ → List (Except Failure Round)
  | 0, _ => []
  | n + 1, a =>
    match a.runRound with
    | (.error e, _) => [.error e]
    | (.ok r, a) => .ok r :: begun n a

/-- The results of the rounds that a call begins. -/
def results (a : Arena σ) : Call → List (Except Failure Round)
  | .round => [a.runRound.1]
  | .battle => begun a.settings.rounds a

/-- The results of all rounds that calls begin. -/
def history : List Call → Arena σ → List (Except Failure Round)
  | [], _ => []
  | c :: rest, a => a.results c ++ history rest (a.call c)

theorem after_append (first later : List Call) (a : Arena σ) :
    a.after (first ++ later) = (a.after first).after later := List.foldl_append

theorem history_append (first later : List Call) (a : Arena σ) :
    history (first ++ later) a = history first a ++ history later (a.after first) := by
  induction first generalizing a with
  | nil => rfl
  | cons c rest ih =>
      show a.results c ++ history (rest ++ later) (a.call c) = _
      rw [ih, ← List.append_assoc]
      rfl

/-- Rounds up to the first that fails are rounds played one by one. -/
theorem begun_eq (n : Nat) (a : Arena σ) :
    begun n a = history (List.replicate (begun n a).length .round) a
      ∧ (runRounds n a).2 = a.after (List.replicate (begun n a).length .round) := by
  induction n generalizing a with
  | zero => exact ⟨rfl, rfl⟩
  | succ n ih =>
      rcases hresult : a.runRound with ⟨e | r, a'⟩
      · -- a round that fails is the last one
        simp only [begun, runRounds, hresult]
        constructor
        · show _ = [a.runRound.1]
          rw [hresult]
        · show _ = a.runRound.2
          rw [hresult]
      · obtain ⟨hresults, hafter⟩ := ih a'
        simp only [begun, runRounds, hresult, List.length_cons, List.replicate_succ]
        constructor
        · show _ = a.runRound.1 :: history _ a.runRound.2
          rw [hresult, ← hresults]
        · show _ = a.runRound.2.after _
          rw [hresult, ← hafter]

/-- A battle leaves what its rounds leave. -/
theorem call_battle (a : Arena σ) : a.call .battle = (runRounds a.settings.rounds a).2 := by
  show a.battle.2 = _
  unfold battle
  rcases runRounds a.settings.rounds a with ⟨_ | _, a'⟩
  · rfl
  · rfl

/-- Whatever is called, it is rounds played one by one. -/
theorem after_eq_rounds (calls : List Call) (a : Arena σ) :
    ∃ k, history calls a = history (List.replicate k .round) a
      ∧ a.after calls = a.after (List.replicate k .round) := by
  induction calls generalizing a with
  | nil => exact ⟨0, rfl, rfl⟩
  | cons c rest ih =>
      have hcall : ∃ m, a.results c = history (List.replicate m .round) a
          ∧ a.call c = a.after (List.replicate m .round) := by
        cases c with
        | round => exact ⟨1, rfl, rfl⟩
        | battle =>
            obtain ⟨hresults, hafter⟩ := begun_eq a.settings.rounds a
            exact ⟨_, hresults, (call_battle a).trans hafter⟩
      obtain ⟨m, hresults, hafter⟩ := hcall
      obtain ⟨k, hresults', hafter'⟩ := ih (a.call c)
      refine ⟨m + k, ?_, ?_⟩
      · show a.results c ++ history rest (a.call c) = _
        rw [List.replicate_add, history_append, hresults', hresults, hafter]
      · show (a.call c).after rest = _
        rw [List.replicate_add, after_append, hafter', hafter]

/-- What every round keeps holds after any calls. -/
theorem history_induction {P : List (Except Failure Round) → Arena σ → Prop}
    (hround : ∀ log a, P log a → P (log ++ [a.runRound.1]) a.runRound.2)
    (calls : List Call) {log : List (Except Failure Round)} {a : Arena σ} (h : P log a) :
    P (log ++ history calls a) (a.after calls) := by
  obtain ⟨k, hresults, hafter⟩ := after_eq_rounds calls a
  rw [hresults, hafter]
  clear hresults hafter
  induction k generalizing log a with
  | zero =>
      show P (log ++ []) a
      rw [List.append_nil]
      exact h
  | succ k ih =>
      have hlater := ih (hround log a h)
      rw [List.append_assoc] at hlater
      exact hlater

/-! ## What an arena is bound to stay -/

/-- The arena `a` has come from `a₀` by rounds with these results. -/
structure Kept (a₀ : Arena σ) (log : List (Except Failure Round)) (a : Arena σ) : Prop where
  settings_eq : a.settings = a₀.settings
  size_eq : a.core.size = a₀.core.size
  programs_eq : a.agents.map Agent.program = a₀.agents.map Agent.program
  /-- The count is a word of 32 bits, if it has ever been one. -/
  counted : a₀.roundsPlayed < 2 ^ 32 →
    a.roundsPlayed = Word.wrapped32 (a₀.roundsPlayed + log.length)

namespace Kept

variable {a₀ a a' : Arena σ} {log later : List (Except Failure Round)}

omit [Chooser σ] in
theorem refl (a : Arena σ) : Kept a [] a :=
  ⟨rfl, rfl, rfl, fun hword => (Word.wrapped32_of_lt hword).symm⟩

omit [Chooser σ] in
theorem trans (h : Kept a₀ log a) (h' : Kept a later a') : Kept a₀ (log ++ later) a' where
  settings_eq := h'.settings_eq.trans h.settings_eq
  size_eq := h'.size_eq.trans h.size_eq
  programs_eq := h'.programs_eq.trans h.programs_eq
  counted := by
    intro hword
    have hcounted := h.counted hword
    have hword' : a.roundsPlayed < 2 ^ 32 := hcounted ▸ Word.wrapped32_lt _
    rw [h'.counted hword', hcounted, Word.wrapped32_add_wrapped32, List.length_append,
      Nat.add_assoc]

omit [Chooser σ] in
theorem count_eq (h : Kept a₀ log a) : a.count = a₀.count := size_eq_of_map_eq h.programs_eq

omit [Chooser σ] in
/-- An arena that was not used before has counted all of its rounds, if they are not too
    many for a word. -/
theorem roundsPlayed_eq (h : Kept a₀ log a) (hfirst : a₀.roundsPlayed = 0)
    (hfew : log.length < 2 ^ 32) : a.roundsPlayed = log.length := by
  rw [h.counted (by omega), hfirst, Nat.zero_add, Word.wrapped32_of_lt hfew]

end Kept

/-- A round keeps an arena, whether it fails or not. -/
theorem Went.kept {a : Arena σ} {result : Except Failure Round × Arena σ} (h : a.Went result) :
    Kept a [result.1] result.2 := by
  cases h with
  | unplaced hplace =>
      exact ⟨rfl, size_placed a, map_of_standing Prod.fst (standing_placed a), fun _ => rfl⟩
  | fought hplace hfresh hend hfought =>
      subst hend
      refine ⟨rfl, size_fought a _ _ _, ?_, fun _ => rfl⟩
      exact (award_map (fun _ _ => rfl) _ _ _).trans
        (map_of_standing Prod.fst (standing_fought a _ _ _))

/-- Whatever is called, an arena of two agents or more is kept. -/
theorem kept_after {a₀ : Arena σ} (htwo : 2 ≤ a₀.count) (calls : List Call) :
    Kept a₀ (history calls a₀) (a₀.after calls) := by
  have hround : ∀ log a, Kept a₀ log a → Kept a₀ (log ++ [a.runRound.1]) a.runRound.2 := by
    intro log a h
    exact h.trans (runRound_went a (h.count_eq.symm ▸ htwo)).kept
  exact history_induction hround calls (Kept.refl a₀)

end Arena

end NibbleArena
