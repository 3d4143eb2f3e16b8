import NibbleArena.Arena
import NibbleArena.Proofs.Core.Load

/-! # Opening — what an arena has been checked for

    An arena is opened after all its checks have passed, so they can be relied on
    from then on: `Opened` has what later files use of them.  The core is longer
    than two windows of one side each, no sum of a length and a separation leaves
    the range of a word, there are at least two programs, and no code is longer
    than allowed, since a text has a character for each of its opcodes.

    The agents and the core have found their memory.  The lists of a placement take no
    more, so it `Fits`. -/

namespace NibbleArena

namespace ArenaSettings

theorem lt_of_holdsTwo {s : ArenaSettings} (h : s.holdsTwo = true) :
    2 * (s.maxLength + s.separation) < s.coreSize ∧ s.maxLength + s.separation ≤ Word.max64 := by
  unfold holdsTwo span? Word.checked? at h
  by_cases hword : s.maxLength + s.separation ≤ Word.max64
  · by_cases htwice : (s.maxLength + s.separation) * 2 ≤ Word.max64
    · simp only [if_pos hword, Option.bind_some, if_pos htwice] at h
      rw [Nat.mul_comm]
      exact ⟨of_decide_eq_true h, hword⟩
    · simp only [if_pos hword, Option.bind_some, if_neg htwice] at h
      exact nomatch h
  · simp only [if_neg hword, Option.bind_none] at h
    exact nomatch h

theorem holdsTwo_of_validate {s : ArenaSettings} (h : s.validate = .ok ()) :
    s.holdsTwo = true := by
  rw [validate] at h
  by_cases hcore : s.coreSize = 0
  · rw [if_pos hcore] at h
    exact nomatch h
  · by_cases hlength : s.maxLength = 0
    · rw [if_neg hcore, if_pos hlength] at h
      exact nomatch h
    · by_cases hrounds : s.rounds = 0
      · rw [if_neg hcore, if_neg hlength, if_pos hrounds] at h
        exact nomatch h
      · rw [if_neg hcore, if_neg hlength, if_neg hrounds] at h
        by_cases hholds : s.holdsTwo = true
        · exact hholds
        · rw [if_neg hholds] at h
          exact nomatch h

theorem coreSize_pos {s : ArenaSettings} (h : s.validate = .ok ()) : 0 < s.coreSize :=
  Nat.zero_lt_of_lt (lt_of_holdsTwo (holdsTwo_of_validate h)).1

end ArenaSettings

/-- The code of a program is no longer than its text. -/
theorem Program.length_le_sourceLength (p : Program) : p.length ≤ p.sourceLength := by
  show p.code.length ≤ p.source.length
  rw [p.code_eq, ← String.length_toList]
  exact List.length_filterMap_le _ _

namespace Arena

variable {σ : Type}

theorem le_of_overlong? {limit : Nat} {ps : List Program} (h : overlong? limit ps = none)
    {p : Program} (hp : p ∈ ps) : p.sourceLength ≤ limit := by
  obtain ⟨i, hi⟩ := List.getElem?_of_mem hp
  have hmem : (p, i) ∈ ps.zipIdx := List.mem_zipIdx_iff_getElem?.2 hi
  have hnot := List.find?_eq_none.1 (Option.map_eq_none_iff.1 h) (p, i) hmem
  exact Nat.le_of_not_lt fun hlt => hnot (decide_eq_true hlt)

/-- The arena was opened with these settings and texts and has not been used. -/
structure Opened (s : ArenaSettings) (sources : List String) (a : Arena σ) : Prop where
  settings_eq : a.settings = s
  size_eq : a.core.size = s.coreSize
  agents_eq : a.agents = ((sources.map Program.parse).map Agent.new).toArray
  unplayed : a.roundsPlayed = 0
  two : 2 ≤ a.count
  roomy : 2 * (s.maxLength + s.separation) < s.coreSize
  reach_eq : Placement.reach s.separation s.maxLength = s.separation + s.maxLength
  short : ∀ text ∈ sources, (Program.parse text).length ≤ s.maxLength
  fits : Placement.Fits s.coreSize sources.length

/-- Where there is memory for the agents, there is for their starts. -/
theorem holds_starts {count : Nat} (h : Memory.Holds count Agent.bytes) :
    Memory.Holds count Memory.wordBytes :=
  Nat.le_trans (Nat.mul_le_mul_left count (show Memory.wordBytes ≤ Agent.bytes by decide)) h

/-- With valid settings it depends on the memory for the agents, their number, the lengths
    of their texts, and the memory for the core. -/
theorem new_of_valid {s : ArenaSettings} {sources : List String} {draws : σ}
    (h : s.validate = .ok ()) :
    new s sources draws
      = if ¬Memory.Holds sources.length Agent.bytes then .error (.crash .capacityOverflow)
        else if sources.length < 2 then
          .error ((Fault.tooFewAgents sources.length).during "arena::new")
        else (overlong? s.maxLength (sources.map Program.parse)).elim
          (if Memory.Holds s.coreSize 1 then
            .ok ⟨s, Core.zeroed s.coreSize (s.coreSize_pos h),
              ((sources.map Program.parse).map Agent.new).toArray, 0, 0, draws⟩
          else .error (.crash .capacityOverflow))
          fun f => .error f := by
  simp only [new, h, List.length_map]
  rcases overlong? s.maxLength (sources.map Program.parse) with _ | f
  · by_cases hmemory : Memory.Holds s.coreSize 1
    · simp only [Core.ofSize_of_holds (s.coreSize_pos h) hmemory, Option.elim_none,
        if_pos hmemory]
    · simp only [Core.ofSize_of_not_holds (s.coreSize_pos h) hmemory, Option.elim_none,
        if_neg hmemory]
  · rfl

/-- An arena is opened only when all checks have passed. -/
theorem eq_of_new {s : ArenaSettings} {sources : List String} {draws : σ} {a : Arena σ}
    (h : new s sources draws = .ok a) :
    s.validate = .ok () ∧ 2 ≤ sources.length
      ∧ overlong? s.maxLength (sources.map Program.parse) = none
      ∧ Memory.Holds sources.length Agent.bytes ∧ Memory.Holds s.coreSize 1
      ∧ ∃ hpos : 0 < s.coreSize, a = ⟨s, Core.zeroed s.coreSize hpos,
        ((sources.map Program.parse).map Agent.new).toArray, 0, 0, draws⟩ := by
  rcases hvalid : s.validate with f | ⟨⟩
  · simp only [new, hvalid] at h
    exact nomatch h
  · rw [new_of_valid hvalid] at h
    by_cases hagents : Memory.Holds sources.length Agent.bytes
    · by_cases hfew : sources.length < 2
      · rw [if_neg (not_not_intro hagents), if_pos hfew] at h
        exact nomatch h
      · rw [if_neg (not_not_intro hagents), if_neg hfew] at h
        rcases hlong : overlong? s.maxLength (sources.map Program.parse) with _ | f
        · rw [hlong, Option.elim_none] at h
          by_cases hmemory : Memory.Holds s.coreSize 1
          · rw [if_pos hmemory] at h
            exact ⟨rfl, Nat.le_of_not_lt hfew, rfl, hagents, hmemory, s.coreSize_pos hvalid,
              (Except.ok.inj h).symm⟩
          · rw [if_neg hmemory] at h
            exact nomatch h
        · rw [hlong] at h
          exact nomatch h
    · rw [if_pos hagents] at h
      exact nomatch h

theorem opened_of_new {s : ArenaSettings} {sources : List String} {draws : σ} {a : Arena σ}
    (h : new s sources draws = .ok a) : a.Opened s sources := by
  obtain ⟨hvalid, htwo, hlong, hagents, hmemory, hpos, rfl⟩ := eq_of_new h
  obtain ⟨hroomy, hword⟩ :=
    ArenaSettings.lt_of_holdsTwo (ArenaSettings.holdsTwo_of_validate hvalid)
  refine ⟨rfl, Core.size_zeroed _ hpos, rfl, rfl, ?_, hroomy, ?_, ?_,
    hmemory, holds_starts hagents⟩
  · show 2 ≤ ((sources.map Program.parse).map Agent.new).toArray.size
    rw [List.size_toArray, List.length_map, List.length_map]
    exact htwo
  · rw [Placement.reach, Nat.add_comm]
    exact Nat.min_eq_left hword
  · intro text htext
    have hp : Program.parse text ∈ sources.map Program.parse := List.mem_map_of_mem htext
    exact Nat.le_trans (Program.length_le_sourceLength _) (le_of_overlong? hlong hp)

end Arena

end NibbleArena
