import NibbleArena.Proofs.Arena.Failure
import NibbleArena.Proofs.Bout.Order

/-! # Fairness — every agent has every place in the order of the turns

    An arena counts its rounds and moves its rotation on in two places, and a round that
    cannot be placed has done both.  `Turned` is the invariant: however the arena is
    used, the rotation is the remainder of the rounds that were begun, so round `m` begins
    with agent `m % count` and each of its sweeps goes on from there around all agents.
    The count of the rounds is a word, and it says the same up to the largest one.

    The agents that have one place in rounds one after the other are again an order of
    the turns: the number of the round and the place are added up, and it does not
    matter which of the two goes on by one.  So over `count` rounds every agent has
    every place once. -/

namespace NibbleArena

/-- The turns of the round with the number `m` among `count` agents are in order. -/
structure Round.InTurn (count m : Nat) (r : Round) : Prop where
  number_eq : r.number = m
  order_eq : r.order = (List.range count).map fun x => (m + x) % count
  /-- A sweep comes to every agent once. -/
  order_perm : r.order.Perm (List.range count)
  /-- Sweep after sweep, the dead are passed over and nobody else. -/
  turns_eq : r.turns.map (fun t => (t.cycle, t.agent))
    = (List.range r.cycles).flatMap fun c =>
        (r.order.filter fun i => ¬Turn.Fallen r.turns c i).map fun i => (c, i)

namespace Arena

variable {σ : Type} [Chooser σ]

/-! ## One round -/

/-- A round moves the rotation on, and its turns are in order if it is played.  Its number
    is the right one if the count goes on by one. -/
theorem Went.inTurn {a : Arena σ} {result : Except Failure Round × Arena σ} (h : a.Went result)
    {m : Nat} (hrotation : a.rotation = m % a.count) :
    result.2.rotation = (m + 1) % a.count
      ∧ (Word.wrapped32 (a.roundsPlayed + 1) = m + 1 →
        ∀ r, result.1 = .ok r → r.InTurn a.count (m + 1)) := by
  have hmoved : a.placed.rotation = (m + 1) % a.count := by
    show (a.rotation + 1) % a.count = (m + 1) % a.count
    rw [hrotation, Nat.mod_add_mod]
  cases h with
  | unplaced hplace => exact ⟨hmoved, fun _ => nofun⟩
  | @fought starts cycles b hplace hfresh hend hfought =>
      subst hend
      have horder : a.placed.order = Bout.order a.count ((m + 1) % a.count) := by
        show Bout.order a.placed.count a.placed.rotation = _
        rw [count_placed, hmoved]
      have hperm : a.placed.order.Perm (List.range (a.placed.loaded starts).agents.size) := by
        rw [count_loaded]
        exact Bout.order_perm _ _
      refine ⟨hmoved, ?_⟩
      rintro hcounted r ⟨⟩
      refine ⟨hcounted, horder.trans (Bout.order_mod _ _), ?_, ?_⟩
      · show a.placed.order.Perm _
        rw [horder]
        exact Bout.order_perm _ _
      · refine (hfresh.turns_eq_order (Bout.nodup_of_perm hperm) cycles).trans ?_
        apply List.flatMap_congr
        intro c hc
        congr 1
        apply List.filter_congr
        intro i hi
        have halive := hfresh.isAlive_iff_not_fallen hperm
          (Nat.le_of_lt (List.mem_range.1 hc)) ((Bout.mem_of_perm hperm).1 hi)
        rw [Bool.eq_iff_iff, halive, decide_eq_true_iff]
        rfl

/-! ## Over the rounds -/

/-- The arena `a` has come from `a₀` by rounds with these results, and their turns were
    in order. -/
structure Turned (a₀ : Arena σ) (log : List (Except Failure Round)) (a : Arena σ) : Prop where
  kept : Kept a₀ log a
  rotation_eq : a.rotation = (a₀.roundsPlayed + log.length) % a₀.count
  inTurn : a₀.roundsPlayed + log.length < 2 ^ 32 → ∀ (j : Nat) (r : Round),
    log[j]? = some (.ok r) → r.InTurn a₀.count (a₀.roundsPlayed + j + 1)

theorem Turned.runRound {a₀ a : Arena σ} {log : List (Except Failure Round)}
    (h : Turned a₀ log a) (htwo : 2 ≤ a₀.count) :
    Turned a₀ (log ++ [a.runRound.1]) a.runRound.2 := by
  have hcount := h.kept.count_eq
  have hwent := runRound_went a (hcount.symm ▸ htwo)
  obtain ⟨hrotation, hround⟩ := hwent.inTurn (hcount.symm ▸ h.rotation_eq)
  rw [hcount] at hrotation hround
  have hlength : (log ++ [a.runRound.1]).length = log.length + 1 := List.length_append
  refine ⟨h.kept.trans hwent.kept, ?_, ?_⟩
  · rw [hrotation, hlength, Nat.add_assoc]
  · intro hfew j r hr
    rw [hlength] at hfew
    rcases Nat.lt_or_ge j log.length with hj | hj
    · rw [List.getElem?_append_left hj] at hr
      exact h.inTurn (by omega) j r hr
    · -- the new result is the last one, and the count has not been wrapped before it
      rw [List.getElem?_append_right hj, List.getElem?_singleton] at hr
      split at hr
      · have hlast : j = log.length := by omega
        have hcounted : Word.wrapped32 (a.roundsPlayed + 1)
            = a₀.roundsPlayed + log.length + 1 := by
          rw [h.kept.counted (by omega), Word.wrapped32_add_wrapped32,
            Word.wrapped32_of_lt (by omega)]
        rw [hlast]
        exact hround hcounted r (Option.some.inj hr)
      · exact nomatch hr

theorem turned_after {a₀ : Arena σ} (htwo : 2 ≤ a₀.count)
    (hrotation : a₀.rotation = a₀.roundsPlayed % a₀.count) (calls : List Call) :
    Turned a₀ (history calls a₀) (a₀.after calls) := by
  have hnone : Turned a₀ [] a₀ := ⟨Kept.refl a₀, hrotation, nofun⟩
  exact history_induction (fun _ _ h => h.runRound htwo) calls hnone

theorem length_history_rounds (k : Nat) (a : Arena σ) :
    (history (List.replicate k .round) a).length = k := by
  induction k generalizing a with
  | zero => rfl
  | succ k ih => exact congrArg (· + 1) (ih a.runRound.2)

/-- Whatever is called comes to the rounds of the history, played one by one. -/
theorem after_eq_afterRounds (calls : List Call) (a : Arena σ) :
    a.after calls = a.afterRounds (history calls a).length := by
  obtain ⟨k, hresults, hafter⟩ := after_eq_rounds calls a
  rw [hresults, length_history_rounds]
  exact hafter

omit [Chooser σ] in
/-- The order of the turns in an arena whose rotation is the remainder of a number. -/
theorem order_of_rotation {a : Arena σ} {count m : Nat} (hcount : a.count = count)
    (hrotation : a.rotation = m % count) :
    a.order = (List.range count).map fun x => (m + x) % count := by
  rw [order, hcount, hrotation, Bout.order_mod]

/-- An agent has a place in just one of `count` orders that are rotated one after the
    other. -/
theorem existsUnique_place {count i x : Nat} (hi : i < count) (hx : x < count) (m : Nat) :
    ∃! k, k < count ∧ ((List.range count).map fun x => (m + k + x) % count)[x]? = some i := by
  -- the agents with this place are in the order whose rotation is the place
  have hplace : ∀ k, ((List.range count).map fun x => (m + k + x) % count)[x]? = some i
      ↔ (k + (m + x)) % count = i := by
    intro k
    have hsum : m + k + x = k + (m + x) := by omega
    rw [List.getElem?_map, List.getElem?_range hx, Option.map_some, Option.some_inj, hsum]
  have hmem : i ∈ Bout.order count (m + x) := Bout.mem_order.2 hi
  have hnodup : (Bout.order count (m + x)).Nodup := Bout.nodup_order _ _
  obtain ⟨k, hk, hki⟩ := List.mem_map.1 hmem
  refine ⟨k, ⟨List.mem_range.1 hk, (hplace k).2 hki⟩, ?_⟩
  rintro k' ⟨hk', hki'⟩
  refine List.inj_on_of_nodup_map hnodup (List.mem_range.2 hk') hk ?_
  exact ((hplace k').1 hki').trans hki.symm

/-- **The rotation is fair.**  However an arena is used, failed rounds included, as long as
    it has begun fewer than `2 ^ 32` rounds: it has played them one by one, and the rotation
    is their count modulo the number of agents.  In round `m` every sweep has the agents
    `(m + x) % count` in the order of `x`, each of them once, and passes over those that
    have died in an earlier sweep and over nobody else.  Over `count` rounds one after the
    other, whatever comes of them and however many there were, every agent has every place
    in the order just once. -/
theorem rotation_fair {s : ArenaSettings} {sources : List String} {draws : σ} {a₀ : Arena σ}
    (hnew : Arena.new s sources draws = .ok a₀) :
    (∀ calls : List Call, (history calls a₀).length < 2 ^ 32 →
        let a := a₀.after calls
        let log := history calls a₀
        a = a₀.afterRounds log.length ∧ a.count = a₀.count ∧ a.roundsPlayed = log.length
          ∧ a.rotation = a.roundsPlayed % a₀.count
          ∧ a.order = ((List.range a₀.count).map fun x => (a.roundsPlayed + x) % a₀.count)
          ∧ ∀ (j : Nat) (r : Round), log[j]? = some (.ok r) →
              r.InTurn a₀.count (j + 1) ∧ r.order = (a₀.afterRounds (j + 1)).order)
      ∧ ∀ first i x : Nat, i < a₀.count → x < a₀.count →
          ∃! k, k < a₀.count ∧ (a₀.afterRounds (first + k + 1)).order[x]? = some i := by
  have hopened := opened_of_new hnew
  have hfirst : a₀.rotation = a₀.roundsPlayed % a₀.count := by
    obtain ⟨-, -, -, -, -, hpos, heq⟩ := eq_of_new hnew
    rw [heq]
    exact (Nat.zero_mod _).symm
  have hturned := turned_after hopened.two hfirst
  have hrotation : ∀ calls, (a₀.after calls).rotation = (history calls a₀).length % a₀.count := by
    intro calls
    rw [(hturned calls).rotation_eq, hopened.unplayed, Nat.zero_add]
  have horder : ∀ calls, (a₀.after calls).order
      = (List.range a₀.count).map fun x => ((history calls a₀).length + x) % a₀.count :=
    fun calls => order_of_rotation (hturned calls).kept.count_eq (hrotation calls)
  have hrounds : ∀ k, (a₀.afterRounds k).order
      = (List.range a₀.count).map fun x => (k + x) % a₀.count := by
    intro k
    rw [afterRounds, horder, length_history_rounds]
  constructor
  · intro calls hfew a log
    have hcounted : a.roundsPlayed = log.length :=
      (hturned calls).kept.roundsPlayed_eq hopened.unplayed hfew
    refine ⟨after_eq_afterRounds calls a₀, (hturned calls).kept.count_eq, hcounted, ?_, ?_, ?_⟩
    · rw [hcounted]
      exact hrotation calls
    · rw [hcounted]
      exact horder calls
    · intro j r hr
      have hword : a₀.roundsPlayed + (history calls a₀).length < 2 ^ 32 := by
        rw [hopened.unplayed, Nat.zero_add]
        exact hfew
      have hround := (hturned calls).inTurn hword j r hr
      rw [hopened.unplayed, Nat.zero_add] at hround
      exact ⟨hround, hround.order_eq.trans (hrounds (j + 1)).symm⟩
  · intro first i x hi hx
    simp only [hrounds, Nat.add_right_comm first _ 1]
    exact existsUnique_place hi hx (first + 1)

/-- A battle of three programs whose second round cannot be placed.  It has moved the
    rotation on all the same, so the third agent has the first turn in just one of the
    first three rounds. -/
theorem rotation_fair_crowded :
    let s : ArenaSettings := ⟨8, 1, 1, 2, 2, none⟩
    let sources := ["$", ">", ">"]
    let draws := ListedWords.ofList [0, 0, 2147483648]
    let a₀ : Arena ListedWords := ⟨s, Core.zeroed 8 (by decide),
      ((sources.map Program.parse).map Agent.new).toArray, 0, 0, draws⟩
    Arena.new s sources draws = .ok a₀ ∧ (history [.battle] a₀).length < 2 ^ 32
      ∧ (history [.battle] a₀).map Except.isOk = [true, false]
      ∧ (a₀.after [.battle]).rotation = 2 ∧ (a₀.after [.battle]).order = [2, 0, 1]
      ∧ (∃ r, (history [.battle] a₀)[0]? = some (.ok r) ∧ r.InTurn 3 1
        ∧ r.turns.map (fun t => (t.cycle, t.agent)) = [(0, 1), (0, 2), (0, 0), (1, 1), (1, 2)])
      ∧ ∃! k, k < 3 ∧ (a₀.afterRounds (0 + k + 1)).order[0]? = some 2 := by
  intro s sources draws a₀
  have hnew : Arena.new s sources draws = .ok a₀ := rfl
  obtain ⟨hcalls, hplaces⟩ := rotation_fair hnew
  have hresults : (history [.battle] a₀).map Except.isOk = [true, false] := by decide +kernel
  have hlog : (history [.battle] a₀).length = 2 :=
    (List.length_map Except.isOk).symm.trans (congrArg List.length hresults)
  have hfew : (history [.battle] a₀).length < 2 ^ 32 := by
    rw [hlog]
    decide
  obtain ⟨-, -, hplayed, hrotation, horder, hrounds⟩ := hcalls [.battle] hfew
  have hlength : (a₀.after [.battle]).roundsPlayed = 2 := hplayed.trans hlog
  have hturns : ((history [.battle] a₀)[0]?.map fun result => result.toOption.map fun r =>
      r.turns.map fun t => (t.cycle, t.agent))
        = some (some [(0, 1), (0, 2), (0, 0), (1, 1), (1, 2)]) := by
    decide +kernel
  have hcount : a₀.count = 3 := rfl
  rw [hlength, hcount] at hrotation horder
  refine ⟨hnew, hfew, hresults, hrotation, horder, ?_, hplaces 0 2 0 (by decide) (by decide)⟩
  rcases hresult : (history [.battle] a₀)[0]? with _ | _ | r
  · rw [hresult] at hturns
    cases hturns
  · rw [hresult] at hturns
    cases hturns
  · rw [hresult] at hturns
    exact ⟨r, rfl, (hrounds 0 r hresult).1, Option.some.inj (Option.some.inj hturns)⟩

end Arena

end NibbleArena
