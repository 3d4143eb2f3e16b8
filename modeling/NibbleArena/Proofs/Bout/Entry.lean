import Mathlib.Data.List.Rotate
import NibbleArena.Arena.Bout
import NibbleArena.Proofs.Core.Load

/-! # Entry — the agents of a round are loaded one after another

    The order of the turns is a rotation of all agents, so each of them is in it
    exactly once.  The agents are loaded in this order, and each load writes the
    cells that the agent takes: those of its code, from its start on.

    Two things follow by induction on the agents that are left.  A cell that none
    of them takes keeps what it holds.  A cell that just one of them takes holds
    the opcode of that agent at its place.  What an agent is after it has entered
    depends on its own program and start alone. -/

namespace NibbleArena

/-- The agent after its program was loaded into a core of `size` cells. -/
def Agent.enteredAt (agent : Agent) (size start : Nat) : Agent :=
  agent.entered start ⟨(start + agent.program.length + 1) % size, start % size⟩

/-- What neither entering nor a turn changes of an agent. -/
def Agent.standing (agent : Agent) : Program × Nat := (agent.program, agent.score)

/-- Agents of one standing agree in whatever depends on the standing alone. -/
theorem map_of_standing {β : Type} (f : Program × Nat → β) {xs ys : Array Agent}
    (h : xs.map Agent.standing = ys.map Agent.standing) :
    xs.map (f ∘ Agent.standing) = ys.map (f ∘ Agent.standing) := by
  have hf := congrArg (Array.map f) h
  rw [Array.map_map, Array.map_map] at hf
  exact hf

theorem size_eq_of_map_eq {α β : Type} {f : α → β} {xs ys : Array α} (h : xs.map f = ys.map f) :
    xs.size = ys.size := by
  have hsize := congrArg Array.size h
  rw [Array.size_map, Array.size_map] at hsize
  exact hsize

/-- Replacing a member of an array by one with the same image leaves the images
    as they are. -/
theorem map_replaced {α β : Type} {f : α → β} {xs : Array α} {i : Nat} {x y : α}
    (hx : xs[i]? = some x) (hf : f y = f x) : (xs.setIfInBounds i y).map f = xs.map f := by
  obtain ⟨hlt, rfl⟩ := Array.getElem?_eq_some_iff.1 hx
  apply Array.ext_getElem?
  intro j
  rw [Array.getElem?_map, Array.getElem?_map, Array.getElem?_setIfInBounds]
  by_cases hij : i = j
  · subst hij
    rw [if_pos rfl, if_pos hlt, Array.getElem?_eq_getElem hlt, Option.map_some, Option.map_some, hf]
  · rw [if_neg hij]

namespace Bout

/-! ## The order of the turns -/

theorem order_eq_rotate (count rotation : Nat) :
    order count rotation = (List.range count).rotate rotation := by
  apply List.ext_getElem
  · simp [order]
  · intro x hx hx'
    rw [List.getElem_rotate]
    simp [order]

theorem order_perm (count rotation : Nat) : (order count rotation).Perm (List.range count) := by
  rw [order_eq_rotate]
  exact List.rotate_perm _ _

theorem nodup_of_perm {l : List Nat} {count : Nat} (h : l.Perm (List.range count)) : l.Nodup :=
  h.nodup_iff.2 List.nodup_range

theorem mem_of_perm {l : List Nat} {count i : Nat} (h : l.Perm (List.range count)) :
    i ∈ l ↔ i < count := by
  rw [h.mem_iff, List.mem_range]

theorem nodup_order (count rotation : Nat) : (order count rotation).Nodup :=
  nodup_of_perm (order_perm count rotation)

theorem mem_order {count rotation i : Nat} : i ∈ order count rotation ↔ i < count :=
  mem_of_perm (order_perm count rotation)

/-! ## One agent -/

/-- The cell `x` is one of those that the program of agent `i` takes. -/
def Takes (starts : List Nat) (b : Bout) (i x : Nat) : Prop :=
  ∃ p start, b.agents[i]?.map Agent.program = some p ∧ starts[i]? = some start
    ∧ ∃ k < p.length, x = b.core.wrap (start + k)

variable {starts : List Nat} {b : Bout} {i j x : Nat}

theorem enter_of_some {agent : Agent} {start : Nat} (hagent : b.agents[i]? = some agent)
    (hstart : starts[i]? = some start) :
    enter starts b i
      = ⟨(b.core.writeCode (b.core.wrap start) agent.program.code).1,
          b.agents.setIfInBounds i (agent.enteredAt b.core.size start), b.turns⟩ := by
  obtain ⟨core, agents, turns⟩ := b
  simp only [enter, hagent, hstart, Core.load_eq]
  rfl

/-- An agent enters, or there is nothing to enter. -/
theorem enter_cases (starts : List Nat) (b : Bout) (i : Nat) :
    enter starts b i = b
      ∨ ∃ agent start, b.agents[i]? = some agent ∧ starts[i]? = some start
        ∧ enter starts b i
          = ⟨(b.core.writeCode (b.core.wrap start) agent.program.code).1,
              b.agents.setIfInBounds i (agent.enteredAt b.core.size start), b.turns⟩ := by
  cases hagent : b.agents[i]? with
  | none =>
      refine Or.inl ?_
      obtain ⟨core, agents, turns⟩ := b
      simp only [enter, hagent]
  | some agent =>
      cases hstart : starts[i]? with
      | none =>
          refine Or.inl ?_
          obtain ⟨core, agents, turns⟩ := b
          simp only [enter, hagent, hstart]
      | some start => exact Or.inr ⟨agent, start, rfl, rfl, enter_of_some hagent hstart⟩

@[simp] theorem size_enter (starts : List Nat) (b : Bout) (i : Nat) :
    (enter starts b i).core.size = b.core.size := by
  obtain heq | ⟨agent, start, -, -, heq⟩ := enter_cases starts b i
  · rw [heq]
  · rw [heq]
    exact Core.size_writeCode _ _ _

@[simp] theorem wrap_enter (starts : List Nat) (b : Bout) (i a : Nat) :
    (enter starts b i).core.wrap a = b.core.wrap a :=
  Core.wrap_congr (size_enter starts b i) a

theorem turns_enter (starts : List Nat) (b : Bout) (i : Nat) :
    (enter starts b i).turns = b.turns := by
  obtain heq | ⟨agent, start, -, -, heq⟩ := enter_cases starts b i
  · rw [heq]
  · rw [heq]

theorem agent_enter_of_ne (h : i ≠ j) : (enter starts b i).agents[j]? = b.agents[j]? := by
  obtain heq | ⟨agent, start, -, -, heq⟩ := enter_cases starts b i
  · rw [heq]
  · rw [heq]
    exact Array.getElem?_setIfInBounds_ne h

theorem agent_enter_self {agent : Agent} {start : Nat} (hagent : b.agents[i]? = some agent)
    (hstart : starts[i]? = some start) :
    (enter starts b i).agents[i]? = some (agent.enteredAt b.core.size start) := by
  obtain ⟨hlt, -⟩ := Array.getElem?_eq_some_iff.1 hagent
  rw [enter_of_some hagent hstart]
  exact Array.getElem?_setIfInBounds_self_of_lt hlt

theorem standing_enter (starts : List Nat) (b : Bout) (i : Nat) :
    (enter starts b i).agents.map Agent.standing = b.agents.map Agent.standing := by
  obtain heq | ⟨agent, start, hagent, -, heq⟩ := enter_cases starts b i
  · rw [heq]
  · rw [heq]
    exact map_replaced hagent rfl

theorem program_enter (starts : List Nat) (b : Bout) (i j : Nat) :
    (enter starts b i).agents[j]?.map Agent.program = b.agents[j]?.map Agent.program := by
  have h := congrArg (fun ps : Array Program => ps[j]?)
    (map_of_standing Prod.fst (standing_enter starts b i))
  simp only [Array.getElem?_map] at h
  exact h

theorem takes_enter : (enter starts b j).Takes starts i x ↔ b.Takes starts i x := by
  simp only [Takes, program_enter, wrap_enter]

theorem read_enter_of_not_takes (h : ¬b.Takes starts i (b.core.wrap x)) :
    (enter starts b i).core.read x = b.core.read x := by
  obtain heq | ⟨agent, start, hagent, hstart, heq⟩ := enter_cases starts b i
  · rw [heq]
  · rw [heq]
    refine Core.read_writeCode_of_ne ?_
    intro k hk hcell
    exact h ⟨agent.program, start, by rw [hagent]; rfl, hstart, k, hk, hcell.symm⟩

/-! ## All agents -/

variable {l : List Nat}

theorem size_enterAll (starts l : List Nat) (b : Bout) :
    (enterAll starts l b).core.size = b.core.size := by
  induction l generalizing b with
  | nil => rfl
  | cons i rest ih => exact (ih (enter starts b i)).trans (size_enter starts b i)

theorem turns_enterAll (starts l : List Nat) (b : Bout) :
    (enterAll starts l b).turns = b.turns := by
  induction l generalizing b with
  | nil => rfl
  | cons i rest ih => exact (ih (enter starts b i)).trans (turns_enter starts b i)

theorem standing_enterAll (starts l : List Nat) (b : Bout) :
    (enterAll starts l b).agents.map Agent.standing = b.agents.map Agent.standing := by
  induction l generalizing b with
  | nil => rfl
  | cons i rest ih => exact (ih (enter starts b i)).trans (standing_enter starts b i)

/-- An agent that is not loaded stays as it is. -/
theorem agent_enterAll_of_not_mem (h : j ∉ l) :
    (enterAll starts l b).agents[j]? = b.agents[j]? := by
  induction l generalizing b with
  | nil => rfl
  | cons i rest ih =>
      rw [List.mem_cons, not_or] at h
      obtain ⟨hne, hrest⟩ := h
      exact (ih hrest).trans (agent_enter_of_ne (Ne.symm hne))

/-- An agent that is loaded has entered at its start, whatever is loaded before
    and after it. -/
theorem agent_enterAll {agent : Agent} {start : Nat} (hnodup : l.Nodup) (hmem : j ∈ l)
    (hagent : b.agents[j]? = some agent) (hstart : starts[j]? = some start) :
    (enterAll starts l b).agents[j]? = some (agent.enteredAt b.core.size start) := by
  induction l generalizing b with
  | nil => exact absurd hmem List.not_mem_nil
  | cons i rest ih =>
      obtain ⟨hi, hrest⟩ := List.nodup_cons.1 hnodup
      show (enterAll starts rest (enter starts b i)).agents[j]? = _
      by_cases hij : i = j
      · subst hij
        rw [agent_enterAll_of_not_mem hi]
        exact agent_enter_self hagent hstart
      · have hlater : j ∈ rest := by
          rcases List.mem_cons.1 hmem with heq | hlater
          · exact absurd heq.symm hij
          · exact hlater
        rw [ih hrest hlater ((agent_enter_of_ne hij).trans hagent), size_enter]

/-- A cell that no loaded agent takes keeps what it holds. -/
theorem read_enterAll_of_not_takes (h : ∀ i ∈ l, ¬b.Takes starts i (b.core.wrap x)) :
    (enterAll starts l b).core.read x = b.core.read x := by
  induction l generalizing b with
  | nil => rfl
  | cons i rest ih =>
      have hrest : ∀ j ∈ rest,
          ¬(enter starts b i).Takes starts j ((enter starts b i).core.wrap x) := by
        intro j hj
        rw [takes_enter, wrap_enter]
        exact h j (List.mem_cons_of_mem i hj)
      exact (ih hrest).trans (read_enter_of_not_takes (h i List.mem_cons_self))

/-- A cell of the code of an agent that no other agent takes holds its opcode. -/
theorem read_enterAll {p : Program} {start k : Nat} (hnodup : l.Nodup) (hmem : j ∈ l)
    (hp : b.agents[j]?.map Agent.program = some p) (hstart : starts[j]? = some start)
    (hlen : p.length ≤ b.core.size) (hk : k < p.code.length)
    (hout : ∀ i ∈ l, i ≠ j → ¬b.Takes starts i (b.core.wrap (start + k))) :
    (enterAll starts l b).core.read (start + k) = p.code[k].nibble := by
  induction l generalizing b with
  | nil => exact absurd hmem List.not_mem_nil
  | cons i rest ih =>
      obtain ⟨hi, hrest⟩ := List.nodup_cons.1 hnodup
      show (enterAll starts rest (enter starts b i)).core.read (start + k) = _
      have hlater : ∀ n ∈ rest, n ≠ j →
          ¬(enter starts b i).Takes starts n ((enter starts b i).core.wrap (start + k)) := by
        intro n hn hne
        rw [takes_enter, wrap_enter]
        exact hout n (List.mem_cons_of_mem i hn) hne
      by_cases hij : i = j
      · -- the agents behind this one leave its cells as it has written them
        subst hij
        obtain ⟨agent, hagent, rfl⟩ := Option.map_eq_some_iff.1 hp
        rw [read_enterAll_of_not_takes (fun n hn => hlater n hn (by rintro rfl; exact hi hn)),
          enter_of_some hagent hstart]
        exact Core.read_writeCode hlen hk
      · have hmem' : j ∈ rest := by
          rcases List.mem_cons.1 hmem with heq | hlater
          · exact absurd heq.symm hij
          · exact hlater
        exact ih hrest hmem' ((program_enter starts b i j).trans hp)
          (by rw [size_enter]; exact hlen) hlater

end Bout

end NibbleArena
