import NibbleArena.Proofs.Arena.History
import NibbleArena.Proofs.Arena.Opening

/-! # Layout — how a round lies on the core before its first turn

    Starts that were placed are a reach from each other either way round, and a
    reach is the longest code with the separation.  So no program is loaded over
    another one, wherever the core ends, and `Laid` says what the core looks like:
    each program lies at its start, there is a gap behind it, and every other cell
    is zero.

    `Laid` leaves no choice for any cell.  The order in which the agents are loaded
    can therefore not be seen in what is loaded. -/

namespace NibbleArena

/-- Starts of programs that leave a gap behind each of them. -/
structure Placement.Gapped (n separation : Nat) (programs : List Program) (starts : List Nat) :
    Prop where
  length_eq : starts.length = programs.length
  start_lt : ∀ o ∈ starts, o < n
  gap : ∀ (i j : Nat) (p : Program) (o o' : Nat), i ≠ j → programs[i]? = some p →
    starts[i]? = some o → starts[j]? = some o' → p.length + separation ≤ distance n o o'

namespace Bout

/-- Programs that are about to be loaded at these starts on a core of zeros. -/
structure Spaced (n separation : Nat) (programs : List Program) (starts : List Nat) (b : Bout) :
    Prop extends Placement.Gapped n separation programs starts where
  size_eq : b.core.size = n
  zero : ∀ x, b.core.read x = 0
  programs_eq : b.agents.map Agent.program = programs.toArray
  short : ∀ p ∈ programs, p.length ≤ n

/-- Programs that lie at these starts on a core that is zero everywhere else. -/
structure Laid (n separation : Nat) (programs : List Program) (starts : List Nat) (b : Bout) :
    Prop extends Placement.Gapped n separation programs starts where
  size_eq : b.core.size = n
  count_eq : b.agents.size = programs.length
  agent : ∀ (i : Nat) (p : Program) (o : Nat), programs[i]? = some p → starts[i]? = some o →
    ∃ agent, b.agents[i]? = some agent ∧ agent.program = p ∧ agent.origin = o
      ∧ agent.regs.exec = o ∧ agent.regs.cell = (o + p.length + 1) % n ∧ agent.alive = true
  code : ∀ (i : Nat) (p : Program) (o : Nat), programs[i]? = some p → starts[i]? = some o →
    ∀ (k : Nat) (hk : k < p.code.length), b.core.read ((o + k) % n) = p.code[k].nibble
  zero : ∀ x < n, (∀ (i : Nat) (p : Program) (o : Nat), programs[i]? = some p →
    starts[i]? = some o → ∀ k < p.length, x ≠ (o + k) % n) → b.core.read x = 0

variable {n separation : Nat} {programs : List Program} {starts : List Nat} {b : Bout}

namespace Spaced

theorem program_at (h : b.Spaced n separation programs starts) (i : Nat) :
    b.agents[i]?.map Agent.program = programs[i]? := by
  rw [← Array.getElem?_map, h.programs_eq, List.getElem?_toArray]

theorem count_eq (h : b.Spaced n separation programs starts) :
    b.agents.size = programs.length := by
  have hsize := congrArg Array.size h.programs_eq
  rw [Array.size_map, List.size_toArray] at hsize
  exact hsize

/-- No program takes a cell of another one. -/
theorem not_takes (h : b.Spaced n separation programs starts) {i j k o : Nat} {p : Program}
    (hij : j ≠ i) (hp : programs[i]? = some p) (ho : starts[i]? = some o) (hk : k < p.length) :
    ¬b.Takes starts j (b.core.wrap (o + k)) := by
  rintro ⟨q, o', hq, ho', m, hm, hcell⟩
  rw [h.program_at] at hq
  -- each stretch ends before the start of the other
  have hij' := h.gap i j p o o' (Ne.symm hij) hp ho ho'
  have hji' := h.gap j i q o' o hij hq ho' ho
  rw [Core.wrap, Core.wrap, h.size_eq] at hcell
  have hpos : 0 < n := h.size_eq ▸ b.core.size_pos
  exact Placement.add_mod_ne hpos (by omega) (by omega) hcell

theorem agent_at (h : b.Spaced n separation programs starts) {order : List Nat}
    (hperm : order.Perm (List.range b.agents.size)) (i : Nat) :
    (enterAll starts order b).agents[i]?
      = b.agents[i]?.bind fun agent => starts[i]?.map (agent.enteredAt n) := by
  have hmem : i ∈ order ↔ i < b.agents.size := mem_of_perm hperm
  cases hagent : b.agents[i]? with
  | none =>
      rw [agent_enterAll_of_not_mem, hagent]
      · rfl
      · rw [hmem]
        exact Nat.not_lt.2 (Array.getElem?_eq_none_iff.1 hagent)
  | some agent =>
      have hlt : i < b.agents.size := (Array.getElem?_eq_some_iff.1 hagent).1
      have hlt' : i < starts.length := by
        rw [h.length_eq, ← h.count_eq]
        exact hlt
      have hstart : starts[i]? = some starts[i] := List.getElem?_eq_getElem hlt'
      rw [agent_enterAll (nodup_of_perm hperm) (hmem.2 hlt) hagent hstart, h.size_eq, hstart]
      rfl

/-- Loaded in any order, the programs lie where they belong. -/
theorem laid (h : b.Spaced n separation programs starts) {order : List Nat}
    (hperm : order.Perm (List.range b.agents.size)) :
    (enterAll starts order b).Laid n separation programs starts := by
  have hnodup : order.Nodup := nodup_of_perm hperm
  have hsize : (enterAll starts order b).core.size = n :=
    (size_enterAll starts order b).trans h.size_eq
  -- an agent is found in the order by its program
  have hagent : ∀ {i p}, programs[i]? = some p →
      i ∈ order ∧ ∃ agent, b.agents[i]? = some agent ∧ agent.program = p := by
    intro i p hp
    obtain ⟨agent, hagent, hprogram⟩ := Option.map_eq_some_iff.1 ((h.program_at i).trans hp)
    have hlt := (Array.getElem?_eq_some_iff.1 hagent).1
    exact ⟨(mem_of_perm hperm).2 hlt, agent, hagent, hprogram⟩
  refine ⟨h.toGapped, hsize, ?_, ?_, ?_, ?_⟩
  · exact (size_eq_of_map_eq (standing_enterAll starts order b)).trans h.count_eq
  · intro i p o hp ho
    obtain ⟨-, agent, hbefore, rfl⟩ := hagent hp
    refine ⟨agent.enteredAt n o, ?_, rfl, rfl, ?_, rfl, rfl⟩
    · rw [h.agent_at hperm, hbefore, ho]
      rfl
    · exact Nat.mod_eq_of_lt (h.start_lt o (List.mem_of_getElem? ho))
  · intro i p o hp ho k hk
    have hread := read_enterAll hnodup (hagent hp).1 ((h.program_at i).trans hp) ho
      (h.size_eq ▸ h.short p (List.mem_of_getElem? hp)) hk
      (fun j _ hne => h.not_takes hne hp ho hk)
    rw [← hread, ← Core.read_wrap _ (o + k), Core.wrap, hsize]
  · intro x hx hout
    have hkept : (enterAll starts order b).core.read x = b.core.read x := by
      apply read_enterAll_of_not_takes
      rintro i - ⟨p, o, hp, ho, k, hk, hcell⟩
      refine hout i p o ((h.program_at i).symm.trans hp) ho k hk ?_
      rw [Core.wrap, Core.wrap, h.size_eq, Nat.mod_eq_of_lt hx] at hcell
      exact hcell
    rw [hkept]
    exact h.zero x

end Spaced

/-- The core is known from the programs and the starts. -/
theorem Laid.core_eq {b' : Bout} (h : b.Laid n separation programs starts)
    (h' : b'.Laid n separation programs starts) : b.core = b'.core := by
  refine Core.ext_read (h.size_eq.trans h'.size_eq.symm) ?_
  intro x
  have hx : x % n < n := Nat.mod_lt x (h.size_eq ▸ b.core.size_pos)
  rw [← Core.read_wrap b.core, ← Core.read_wrap b'.core, Core.wrap, Core.wrap, h.size_eq,
    h'.size_eq]
  -- a cell of some code is the same in both, and any other cell is zero in both
  by_cases htaken : ∃ (i : Nat) (p : Program) (o k : Nat), programs[i]? = some p
      ∧ starts[i]? = some o ∧ k < p.length ∧ x % n = (o + k) % n
  · obtain ⟨i, p, o, k, hp, ho, hk, hcell⟩ := htaken
    rw [hcell, h.code i p o hp ho k hk, h'.code i p o hp ho k hk]
  · have hout : ∀ (i : Nat) (p : Program) (o : Nat), programs[i]? = some p →
        starts[i]? = some o → ∀ k < p.length, x % n ≠ (o + k) % n := by
      intro i p o hp ho k hk hcell
      exact htaken ⟨i, p, o, k, hp, ho, hk, hcell⟩
    rw [h.zero _ hx hout, h'.zero _ hx hout]

/-- The order in which the programs are loaded cannot be seen. -/
theorem Spaced.enterAll_eq (h : b.Spaced n separation programs starts) {order order' : List Nat}
    (hperm : order.Perm (List.range b.agents.size))
    (hperm' : order'.Perm (List.range b.agents.size)) :
    enterAll starts order b = enterAll starts order' b := by
  have hcore := (h.laid hperm).core_eq (h.laid hperm')
  have hagents : (enterAll starts order b).agents = (enterAll starts order' b).agents := by
    apply Array.ext_getElem?
    intro i
    rw [h.agent_at hperm, h.agent_at hperm']
  have hturns : (enterAll starts order b).turns = (enterAll starts order' b).turns :=
    (turns_enterAll starts order b).trans (turns_enterAll starts order' b).symm
  show (⟨(enterAll starts order b).core, (enterAll starts order b).agents,
    (enterAll starts order b).turns⟩ : Bout) = _
  rw [hcore, hagents, hturns]

end Bout

namespace Arena

variable {σ : Type} [Chooser σ] {s : ArenaSettings} {sources : List String} {a₀ a : Arena σ}
  {starts : List Nat}

/-- What is placed in an arena that was opened with valid settings is spaced. -/
theorem Opened.spaced (hopened : a₀.Opened s sources) {log : List (Except Failure Round)}
    (hkept : Kept a₀ log a) (hplace : a.reset.place.1 = .ok starts) :
    Bout.Spaced s.coreSize s.separation (sources.map Program.parse) starts
      ⟨a.placed.core, a.placed.agents, []⟩ := by
  have hsettings : a.settings = s := hkept.settings_eq.trans hopened.settings_eq
  have hprograms : a.agents.map Agent.program = (sources.map Program.parse).toArray := by
    rw [hkept.programs_eq, hopened.agents_eq, List.map_toArray, List.map_map]
    exact congrArg List.toArray (List.map_id _)
  have hcount : a.count = (sources.map Program.parse).length := by
    have hsize := congrArg Array.size hprograms
    rw [Array.size_map, List.size_toArray] at hsize
    exact hsize
  have hok : (Placement.place s.coreSize a.placed.count s.separation s.maxLength a.draws).1
      = .ok starts := hsettings ▸ hplace
  obtain ⟨hlength, -, hspread⟩ := Placement.place_spread hok
  rw [hopened.reach_eq] at hspread
  have hshort : ∀ p ∈ sources.map Program.parse, p.length ≤ s.maxLength := by
    intro p hp
    obtain ⟨text, htext, rfl⟩ := List.mem_map.1 hp
    exact hopened.short text htext
  have hroomy := hopened.roomy
  refine ⟨⟨?_, hspread.lt, ?_⟩, ?_, a.core.read_clear, ?_, ?_⟩
  · rw [hlength, count_placed, hcount]
  · intro i j p o o' hij hp ho ho'
    have hle := hshort p (List.mem_of_getElem? hp)
    have hdistance := hspread.le_distance hij ho ho'
    omega
  · exact (size_placed a).trans (hkept.size_eq.trans hopened.size_eq)
  · rw [← hprograms]
    exact Array.map_map
  · intro p hp
    have hle := hshort p hp
    omega

/-- **Clean load.**  However an arena has been used since it was opened, and whatever
    is drawn, a round that has been placed begins with every program at its start,
    on a core that is zero everywhere else, with a gap behind each program and with
    every agent alive.  Loaded in any other order, the agents make the same
    beginning. -/
theorem load_clean {s : ArenaSettings} {sources : List String} {draws : σ} {a₀ a : Arena σ}
    {starts : List Nat} (calls : List Call) (hnew : Arena.new s sources draws = .ok a₀)
    (hplace : (a₀.after calls).reset.place = (.ok starts, a)) :
    (a.loaded starts).Laid s.coreSize s.separation (sources.map Program.parse) starts
      ∧ (a.loaded starts).turns = []
      ∧ ∀ order : List Nat, order.Perm (List.range a.count) →
        Bout.enterAll starts order ⟨a.core, a.agents, []⟩ = a.loaded starts := by
  have hopened := opened_of_new hnew
  have hspaced := hopened.spaced (kept_after hopened.two calls) (congrArg Prod.fst hplace)
  obtain rfl : (a₀.after calls).placed = a := congrArg Prod.snd hplace
  have hown : (a₀.after calls).placed.order.Perm (List.range (a₀.after calls).placed.count) :=
    Bout.order_perm _ _
  refine ⟨hspaced.laid hown, Bout.turns_enterAll _ _ _, ?_⟩
  intro order hperm
  exact hspaced.enterAll_eq hperm hown

/-- Two programs on twenty cells, in the second round of their arena. -/
theorem load_clean_second :
    let s : ArenaSettings := ⟨20, 2, 3, 5, 1, none⟩
    let sources := ["+.", "(a)"]
    let a₀ : Arena ListedWords := ⟨s, Core.zeroed 20 (by decide),
      ((sources.map Program.parse).map Agent.new).toArray, 0, 0, ListedWords.ofList [0, 4008636143]⟩
    let a := (a₀.after [.battle]).placed
    Arena.new s sources (ListedWords.ofList [0, 4008636143]) = .ok a₀
      ∧ (a₀.after [.battle]).reset.place.1 = .ok [0, 14]
      ∧ (a.loaded [0, 14]).Laid 20 2 (sources.map Program.parse) [0, 14] := by
  intro s sources a₀ a
  have hnew : Arena.new s sources (ListedWords.ofList [0, 4008636143]) = .ok a₀ := rfl
  have hplace : (a₀.after [.battle]).reset.place.1 = .ok [0, 14] := by decide +kernel
  exact ⟨hnew, hplace, (load_clean [.battle] hnew (Prod.ext hplace rfl)).1⟩

end Arena

end NibbleArena
