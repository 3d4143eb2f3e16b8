import Mathlib.Algebra.Group.Nat.Defs
import NibbleArena.Proofs.Arena.Opening

/-! # Admission — which settings and texts an arena takes

    The checks are made on words: a sum that is too large is noticed, and the reach of a
    window stays at the top of the range.  For a core whose size is a word that makes no
    difference.  A window that is too long for a word is longer than the core, so the
    checks say what they would say of plain numbers (`validate_eq_ok_iff`).

    The checks come in a fixed order: the settings, the number of programs, and the
    programs one by one.  The first that fails gives the fault.  Two lists are made on the
    way: the agents before they are counted, and the cells of the core at the end.  There
    is no check that a memory can hold them, so what is too long for one is a crash.

    Placement adds the length and the separation once more and doubles the sum.  With
    settings that were admitted neither of these leaves the range, and the window is
    shorter than the core, so a reservation never takes all of it. -/

namespace NibbleArena

namespace ArenaSettings

variable {s : ArenaSettings} {f : Fault}

/-- The check on words is the comparison of numbers. -/
theorem holdsTwo_iff (hword : s.coreSize ≤ Word.max64) :
    s.holdsTwo = true ↔ 2 * (s.maxLength + s.separation) < s.coreSize := by
  constructor
  · intro h
    exact (lt_of_holdsTwo h).1
  · intro h
    have hsum : s.maxLength + s.separation ≤ Word.max64 := by omega
    have htwice : (s.maxLength + s.separation) * 2 ≤ Word.max64 := by omega
    unfold holdsTwo span? Word.checked?
    rw [if_pos hsum, Option.bind_some, if_pos htwice]
    exact decide_eq_true (by omega)

theorem error_ne_ok : (Except.error f : Except Fault Unit) ≠ .ok () := by
  intro h
  cases h

theorem validate_eq_ok_iff (hword : s.coreSize ≤ Word.max64) :
    s.validate = .ok ()
      ↔ 0 < s.maxLength ∧ 0 < s.rounds ∧ 2 * (s.maxLength + s.separation) < s.coreSize := by
  rw [validate, ← holdsTwo_iff hword]
  by_cases hcore : s.coreSize = 0
  · rw [if_pos hcore]
    refine iff_of_false error_ne_ok ?_
    rintro ⟨-, -, hholds⟩
    have hlt := (holdsTwo_iff hword).1 hholds
    omega
  · rw [if_neg hcore]
    by_cases hlength : s.maxLength = 0
    · rw [if_pos hlength]
      refine iff_of_false error_ne_ok ?_
      rintro ⟨hpos, -, -⟩
      exact Nat.ne_of_gt hpos hlength
    · rw [if_neg hlength]
      by_cases hrounds : s.rounds = 0
      · rw [if_pos hrounds]
        refine iff_of_false error_ne_ok ?_
        rintro ⟨-, hpos, -⟩
        exact Nat.ne_of_gt hpos hrounds
      · rw [if_neg hrounds]
        by_cases hholds : s.holdsTwo = true
        · rw [if_pos hholds]
          exact iff_of_true rfl ⟨Nat.pos_of_ne_zero hlength, Nat.pos_of_ne_zero hrounds, hholds⟩
        · rw [if_neg hholds]
          exact iff_of_false error_ne_ok fun h => hholds h.2.2

/-- Every fault of the settings is of one kind. -/
theorem kind_of_validate (h : s.validate = .error f) : f.kind = .configInvalid := by
  rw [validate] at h
  split at h
  · cases h
    rfl
  · split at h
    · cases h
      rfl
    · split at h
      · cases h
        rfl
      · split at h
        · cases h
        · cases h
          rfl

/-! ## The reach of a window -/

theorem reach_eq (h : s.validate = .ok ()) : s.reach = s.maxLength + s.separation :=
  Nat.min_eq_left (lt_of_holdsTwo (holdsTwo_of_validate h)).2

/-- Placement comes to the same reach. -/
theorem placement_reach_eq (s : ArenaSettings) :
    Placement.reach s.separation s.maxLength = s.reach := by
  rw [Placement.reach, reach, Nat.add_comm]

/-- A reservation takes a window and not all of the core. -/
theorem reserve_eq_take (h : s.validate = .ok ()) {r : Reservations} (hsize : r.size = s.coreSize)
    (start : Nat) :
    r.reserve start s.reach
      = r.take (Reservations.windowStart r.size start s.reach) (2 * s.reach) := by
  refine if_neg ?_
  have hlt := (lt_of_holdsTwo (holdsTwo_of_validate h)).1
  rw [hsize, reach_eq h]
  exact Nat.not_le_of_gt hlt

end ArenaSettings

namespace Arena

variable {σ : Type} {s : ArenaSettings} {sources : List String} {draws : σ} {f : Fault}
  {limit i : Nat} {ps : List Program} {p : Program}

/-! ## Programs that are too long -/

theorem overlong?_eq_none_iff : overlong? limit ps = none ↔ ∀ p ∈ ps, p.sourceLength ≤ limit := by
  constructor
  · intro h p hp
    exact le_of_overlong? h hp
  · intro h
    refine Option.map_eq_none_iff.2 (List.find?_eq_none.2 ?_)
    rintro ⟨p, i⟩ hmem
    have hp : p ∈ ps := List.mem_of_getElem? (List.mem_zipIdx_iff_getElem?.1 hmem)
    exact mt of_decide_eq_true (Nat.not_lt_of_ge (h p hp))

/-- The fault names the first program that is too long. -/
theorem overlong?_of_first (hp : ps[i]? = some p) (hlong : limit < p.sourceLength)
    (hfirst : ∀ j < i, ∀ q, ps[j]? = some q → q.sourceLength ≤ limit) :
    overlong? limit ps
      = some ((Fault.programTooLong i p.sourceLength limit).during "arena::new") := by
  obtain ⟨hlt, rfl⟩ := List.getElem?_eq_some_iff.1 hp
  refine Option.map_eq_some_iff.2 ⟨(ps[i], i), List.find?_eq_some_iff_getElem.2
    ⟨decide_eq_true hlong, i, ?_, ?_, ?_⟩, rfl⟩
  · rw [List.length_zipIdx]
    exact hlt
  · rw [List.getElem_zipIdx, Nat.zero_add]
  · intro j hj
    rw [List.getElem_zipIdx]
    have hshort := hfirst j hj ps[j] (List.getElem?_eq_getElem _)
    show (!decide (limit < ps[j].sourceLength)) = true
    rw [decide_eq_false (Nat.not_lt_of_ge hshort)]
    rfl

/-! ## The checks in their order -/

theorem new_of_invalid (h : s.validate = .error f) : new s sources draws = .error f := by
  simp only [new, h]

/-- The agents find their memory if `2 ^ 63` bytes are more than eleven words for each. -/
theorem holds_agents_iff {count : Nat} : Memory.Holds count Agent.bytes ↔ count * 88 < 2 ^ 63 := by
  rw [Memory.Holds, Memory.limit, Agent.bytes, Memory.wordBytes, UInt64.size]
  omega

theorem new_of_many (h : s.validate = .ok ())
    (hmany : ¬Memory.Holds sources.length Agent.bytes) :
    new s sources draws = .error (.crash .capacityOverflow) := by
  rw [new_of_valid h, if_pos hmany]

theorem new_of_few (h : s.validate = .ok ()) (hfew : sources.length < 2) :
    new s sources draws
      = .error ((Fault.tooFewAgents sources.length).during "arena::new") := by
  have hagents : Memory.Holds sources.length Agent.bytes := by
    rw [holds_agents_iff]
    omega
  rw [new_of_valid h, if_neg (not_not_intro hagents), if_pos hfew]

theorem new_of_overlong (h : s.validate = .ok ())
    (hagents : Memory.Holds sources.length Agent.bytes) (htwo : 2 ≤ sources.length)
    {text : String} (htext : sources[i]? = some text) (hlong : s.maxLength < text.length)
    (hfirst : ∀ j < i, ∀ t, sources[j]? = some t → t.length ≤ s.maxLength) :
    new s sources draws
      = .error ((Fault.programTooLong i text.length s.maxLength).during "arena::new") := by
  have hprogram : (sources.map Program.parse)[i]? = some (Program.parse text) := by
    rw [List.getElem?_map, htext]
    rfl
  have hbefore : ∀ j < i, ∀ q, (sources.map Program.parse)[j]? = some q →
      q.sourceLength ≤ s.maxLength := by
    intro j hj q hq
    rw [List.getElem?_map] at hq
    obtain ⟨t, ht, rfl⟩ := Option.map_eq_some_iff.1 hq
    exact hfirst j hj t ht
  rw [new_of_valid h, if_neg (not_not_intro hagents), if_neg (Nat.not_lt_of_ge htwo),
    overlong?_of_first hprogram hlong hbefore]
  rfl

theorem overlong?_sources_iff :
    overlong? limit (sources.map Program.parse) = none ↔ ∀ text ∈ sources, text.length ≤ limit := by
  rw [overlong?_eq_none_iff, List.forall_mem_map]
  rfl

/-- When all programs are as they should be, the core decides. -/
theorem new_of_short (h : s.validate = .ok ())
    (hagents : Memory.Holds sources.length Agent.bytes) (htwo : 2 ≤ sources.length)
    (hshort : ∀ text ∈ sources, text.length ≤ s.maxLength) :
    new s sources draws
      = if Memory.Holds s.coreSize 1 then
          .ok ⟨s, Core.zeroed s.coreSize (s.coreSize_pos h),
            ((sources.map Program.parse).map Agent.new).toArray, 0, 0, draws⟩
        else .error (.crash .capacityOverflow) := by
  rw [new_of_valid h, if_neg (not_not_intro hagents), if_neg (Nat.not_lt_of_ge htwo),
    overlong?_sources_iff.2 hshort, Option.elim_none]

/-- An arena is opened just if every check passes and both lists find their memory. -/
theorem exists_new_iff :
    (∃ a, new s sources draws = .ok a)
      ↔ s.validate = .ok () ∧ 2 ≤ sources.length ∧ (∀ text ∈ sources, text.length ≤ s.maxLength)
        ∧ s.coreSize < 2 ^ 63 ∧ sources.length * 88 < 2 ^ 63 := by
  constructor
  · rintro ⟨a, ha⟩
    obtain ⟨hvalid, htwo, hlong, hagents, hmemory, -⟩ := eq_of_new ha
    exact ⟨hvalid, htwo, overlong?_sources_iff.1 hlong, Memory.holds_one_iff.1 hmemory,
      holds_agents_iff.1 hagents⟩
  · rintro ⟨hvalid, htwo, hshort, hcore, hagents⟩
    rw [new_of_short hvalid (holds_agents_iff.2 hagents) htwo hshort,
      if_pos (Memory.holds_one_iff.2 hcore)]
    exact ⟨_, rfl⟩

/-- **Admission.**  With a core whose size is a word, settings are valid just if the
    length and the rounds are not zero and the core is longer than twice the length and
    the separation, as numbers.  An arena is opened just if the settings are valid, there
    are two programs or more, no text has more characters than allowed, and neither the
    core, with a byte for each cell, nor the list of the agents, with 88 bytes for each, is
    longer than every memory.  If it is not, the fault is about the settings, else about
    the number of programs, else about the first text that is too long, which it names.
    A list of agents that is too long is a crash as soon as the settings are valid, and a
    core that is too long is one when all the checks have passed.  With valid settings the
    reach of a window is the exact sum, in the settings as well as for a placement, twice
    the reach is a word, and a reservation takes a window that is shorter than the core. -/
theorem admission_exact (hword : s.coreSize ≤ Word.max64) :
    (s.validate = .ok ()
      ↔ 0 < s.maxLength ∧ 0 < s.rounds ∧ 2 * (s.maxLength + s.separation) < s.coreSize)
    ∧ (∀ (sources : List String) (draws : σ),
      ((∃ a, new s sources draws = .ok a)
        ↔ s.validate = .ok () ∧ 2 ≤ sources.length ∧ (∀ text ∈ sources, text.length ≤ s.maxLength)
          ∧ s.coreSize < 2 ^ 63 ∧ sources.length * 88 < 2 ^ 63)
      ∧ (s.validate ≠ .ok () →
        ∃ f, new s sources draws = .error (.fault f) ∧ s.validate = .error f
          ∧ f.kind = .configInvalid)
      ∧ (s.validate = .ok () → sources.length < 2 →
        ∃ f, new s sources draws = .error (.fault f) ∧ f.kind = .tooFewAgents)
      ∧ (s.validate = .ok () → 2 ≤ sources.length → sources.length * 88 < 2 ^ 63 →
        ∀ i text, sources[i]? = some text → s.maxLength < text.length →
        (∀ j < i, ∀ t, sources[j]? = some t → t.length ≤ s.maxLength) →
        ∃ f, new s sources draws = .error (.fault f) ∧ f.kind = .programTooLong
          ∧ f.context.lookup "agent" = some (toString (i + 1)))
      ∧ (s.validate = .ok () → 2 ^ 63 ≤ sources.length * 88 →
        new s sources draws = .error (.crash .capacityOverflow))
      ∧ (s.validate = .ok () → 2 ≤ sources.length →
        (∀ text ∈ sources, text.length ≤ s.maxLength) → 2 ^ 63 ≤ s.coreSize →
        new s sources draws = .error (.crash .capacityOverflow)))
    ∧ (s.validate = .ok () →
      s.reach = s.maxLength + s.separation
      ∧ Placement.reach s.separation s.maxLength = s.maxLength + s.separation
      ∧ Word.saturated (2 * s.reach) = 2 * s.reach
      ∧ ∀ r : Reservations, r.size = s.coreSize → ∀ start,
        r.reserve start s.reach
          = r.take (Reservations.windowStart r.size start s.reach) (2 * s.reach)
        ∧ 2 * s.reach < r.size) := by
  refine ⟨ArenaSettings.validate_eq_ok_iff hword, ?_, ?_⟩
  · intro sources draws
    refine ⟨exists_new_iff, ?_, ?_, ?_, ?_, ?_⟩
    · intro hinvalid
      cases hfault : s.validate with
      | ok u => exact absurd hfault hinvalid
      | error f => exact ⟨f, new_of_invalid hfault, rfl, ArenaSettings.kind_of_validate hfault⟩
    · intro hvalid hfew
      exact ⟨_, new_of_few hvalid hfew, rfl⟩
    · intro hvalid htwo hagents i text htext hlong hfirst
      exact ⟨_, new_of_overlong hvalid (holds_agents_iff.2 hagents) htwo htext hlong hfirst,
        rfl, rfl⟩
    · intro hvalid hmany
      exact new_of_many hvalid (mt holds_agents_iff.1 (Nat.not_lt_of_ge hmany))
    · intro hvalid htwo hshort hlarge
      by_cases hagents : Memory.Holds sources.length Agent.bytes
      · rw [new_of_short hvalid hagents htwo hshort,
          if_neg (mt Memory.holds_one_iff.1 (Nat.not_lt_of_ge hlarge))]
      · exact new_of_many hvalid hagents
  · intro hvalid
    have hreach := ArenaSettings.reach_eq hvalid
    have hlt := (ArenaSettings.validate_eq_ok_iff hword).1 hvalid
    refine ⟨hreach, ?_, ?_, ?_⟩
    · rw [ArenaSettings.placement_reach_eq, hreach]
    · exact Nat.min_eq_left (by omega)
    · intro r hsize start
      exact ⟨ArenaSettings.reserve_eq_take hvalid hsize start, by omega⟩

/-- The longest programs that the longest core can hold, one cell more between them, and a
    core with one cell more. -/
theorem admission_exact_longest :
    let s : ArenaSettings := ⟨2 ^ 63 - 1, 0, 2 ^ 62 - 1, 0, 1, none⟩
    let apart : ArenaSettings := ⟨2 ^ 63 - 1, 1, 2 ^ 62 - 1, 0, 1, none⟩
    let longer : ArenaSettings := ⟨2 ^ 63, 0, 2 ^ 62 - 1, 0, 1, none⟩
    s.coreSize ≤ Word.max64 ∧ s.validate = .ok () ∧ s.reach = 2 ^ 62 - 1
      ∧ (∃ a, new s ["$", "ü"] () = .ok a)
      ∧ (∃ f, new s ["$"] () = .error (.fault f) ∧ f.kind = .tooFewAgents)
      ∧ (∃ f, new apart ["$", "ü"] () = .error (.fault f) ∧ f.kind = .configInvalid)
      ∧ new longer ["$", "ü"] () = .error (.crash .capacityOverflow) := by
  intro s apart longer
  obtain ⟨hvalid, hnew, hreach⟩ := admission_exact (σ := Unit) (s := s) (by decide)
  obtain ⟨hvalid', hnew', -⟩ := admission_exact (σ := Unit) (s := apart) (by decide)
  obtain ⟨hvalid'', hnew'', -⟩ := admission_exact (σ := Unit) (s := longer) (by decide)
  have hok : s.validate = .ok () := hvalid.2 (by decide)
  have hnot : apart.validate ≠ .ok () := mt hvalid'.1 (by decide)
  have hshort : ∀ text ∈ ["$", "ü"], text.length ≤ 2 ^ 62 - 1 := by
    intro text htext
    have hone : ∀ t ∈ ["$", "ü"], t.length ≤ 1 := by decide
    exact Nat.le_trans (hone text htext) (by decide)
  obtain ⟨f, hf, -, hkind⟩ := (hnew' ["$", "ü"] ()).2.1 hnot
  refine ⟨by decide, hok, (hreach hok).1, ?_, ?_, ⟨f, hf, hkind⟩, ?_⟩
  · exact (hnew _ _).1.2 ⟨hok, Nat.le_refl 2, hshort, by decide, by decide⟩
  · exact (hnew ["$"] ()).2.2.1 hok (by decide)
  · exact (hnew'' _ _).2.2.2.2.2 (hvalid''.2 (by decide)) (Nat.le_refl 2) hshort (Nat.le_refl _)

/-- Valid settings and two short programs are not enough: on a core of `2 ^ 63` cells no
    arena is opened for them, and no fault says so. -/
theorem admission_unheld :
    let s : ArenaSettings := ⟨2 ^ 63, 0, 1, 0, 1, some 1⟩
    s.coreSize ≤ Word.max64 ∧ s.validate = .ok () ∧ 2 ≤ ["$", "$"].length
      ∧ (∀ text ∈ ["$", "$"], text.length ≤ s.maxLength)
      ∧ (¬∃ a, seeded s ["$", "$"] 0 = .ok a)
      ∧ (¬∃ f, seeded s ["$", "$"] 0 = .error (.fault f))
      ∧ seeded s ["$", "$"] 0 = .error (.crash .capacityOverflow) := by
  intro s
  have hvalid : s.validate = .ok () :=
    (ArenaSettings.validate_eq_ok_iff (by decide)).2 (by decide)
  have hshort : ∀ text ∈ ["$", "$"], text.length ≤ s.maxLength := by decide
  have hcrash : seeded s ["$", "$"] 0 = .error (.crash .capacityOverflow) := by
    rw [seeded, new_of_short hvalid (by decide) (by decide) hshort]
    exact if_neg (by decide)
  refine ⟨by decide, hvalid, by decide, hshort, ?_, ?_, hcrash⟩
  · rintro ⟨a, ha⟩
    rw [hcrash] at ha
    cases ha
  · rintro ⟨f, hf⟩
    rw [hcrash] at hf
    cases hf

end Arena

end NibbleArena
