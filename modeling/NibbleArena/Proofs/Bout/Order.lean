import NibbleArena.Proofs.Bout.Course

/-! # The order of the turns — who has a turn, and when

    A sweep goes through all agents in one order and passes over the dead ones.  The
    turns of a bout are therefore known without its machine: sweep after sweep they are
    the agents in that order that are still alive, `Fresh.turns_eq_order`.

    Who is alive can be read off the turns as well.  An agent has `Fallen` before a
    sweep if one of its earlier turns did not go on, and a bout that began with all its
    agents alive has no other way to lose one: `Fresh.isAlive_iff_not_fallen`. -/

namespace NibbleArena

/-- Agent `i` has died in a sweep before `c`. -/
def Turn.Fallen (turns : List Turn) (c i : Nat) : Prop :=
  ∃ t ∈ turns, t.agent = i ∧ t.cycle < c ∧ t.status ≠ .running

instance (turns : List Turn) (c i : Nat) : Decidable (Turn.Fallen turns c i) :=
  inferInstanceAs (Decidable (∃ t ∈ turns, t.agent = i ∧ t.cycle < c ∧ t.status ≠ .running))

namespace Bout

variable {b : Bout} {order : List Nat} {c n i : Nat}

/-- The order of a rotation that is the remainder of a count. -/
theorem order_mod (count m : Nat) :
    Bout.order count (m % count) = (List.range count).map fun x => (m + x) % count := by
  apply List.map_congr_left
  intro x _
  rw [Nat.add_mod_mod, Nat.add_comm]

/-- Later sweeps add turns with later numbers. -/
theorem turns_sweeps_of_le (hnodup : order.Nodup) (hle : c ≤ n) (b : Bout) :
    ∃ new, (b.sweeps order n 0).turns = new ++ (b.sweeps order c 0).turns
      ∧ ∀ t ∈ new, c ≤ t.cycle := by
  induction n, hle using Nat.le_induction with
  | base => exact ⟨[], rfl, nofun⟩
  | succ n hle ih =>
      obtain ⟨before, hbefore, hcycle⟩ := ih
      obtain ⟨new, hturns, hnew, -⟩ := turns_sweep (0 + n) (b.sweeps order n 0) hnodup
      rw [← sweeps_succ, hbefore, ← List.append_assoc] at hturns
      refine ⟨new ++ before, hturns, List.forall_mem_append.2 ⟨?_, hcycle⟩⟩
      intro t ht
      rw [hnew t ht]
      omega

/-- The turns of a bout, sweep after sweep, are those of the agents that are alive. -/
theorem Fresh.turns_eq_order (h : b.Fresh) (hnodup : order.Nodup) (n : Nat) :
    (b.sweeps order n 0).turns.reverse.map (fun t => (t.cycle, t.agent))
      = (List.range n).flatMap fun c =>
          (order.filter (b.sweeps order c 0).isAlive).map fun i => (c, i) := by
  induction n with
  | zero =>
      have hnone : (b.sweeps order 0 0).turns = [] := h.turns_eq
      rw [hnone]
      rfl
  | succ n ih =>
      obtain ⟨new, hturns, hnew, hagents, -⟩ := turns_sweep (0 + n) (b.sweeps order n 0) hnodup
      rw [← sweeps_succ] at hturns
      have hlast : new.reverse.map (fun t => (t.cycle, t.agent))
          = (order.filter (b.sweeps order n 0).isAlive).map fun i => (n, i) := by
        rw [← hagents, List.map_map]
        apply List.map_congr_left
        intro t ht
        rw [hnew t (List.mem_reverse.1 ht), Nat.zero_add]
        rfl
      rw [hturns, List.reverse_append, List.map_append, ih, hlast, List.range_succ,
        List.flatMap_append, List.flatMap_singleton]

/-- An agent is alive before a sweep just if none of its turns so far was its last. -/
theorem Fresh.isAlive_iff_not_fallen (h : b.Fresh)
    (hperm : order.Perm (List.range b.agents.size)) (hle : c ≤ n) (hi : i < b.agents.size) :
    (b.sweeps order c 0).isAlive i = true
      ↔ ¬Turn.Fallen (b.sweeps order n 0).turns.reverse c i := by
  have hnodup : order.Nodup := nodup_of_perm hperm
  obtain ⟨new, hturns, hnew⟩ := turns_sweeps_of_le hnodup hle b
  have hbefore := (h.turns_sweeps hperm c).1
  -- only the turns up to the sweep count, and they are all in the lane of the agent
  have hfallen : Turn.Fallen (b.sweeps order n 0).turns.reverse c i
      ↔ ∃ s ∈ ((b.sweeps order c 0).lane i).2.map Turn.status, s ≠ .running := by
    rw [hturns]
    constructor
    · rintro ⟨t, ht, hagent, hcycle, hstatus⟩
      rw [List.mem_reverse, List.mem_append] at ht
      rcases ht with ht | ht
      · exact absurd (hnew t ht) (Nat.not_le_of_lt hcycle)
      · refine ⟨t.status, List.mem_map_of_mem ?_, hstatus⟩
        exact List.mem_filter.2 ⟨ht, decide_eq_true hagent⟩
    · rintro ⟨s, hs, hstatus⟩
      obtain ⟨t, ht, rfl⟩ := List.mem_map.1 hs
      obtain ⟨hin, hagent⟩ := List.mem_filter.1 ht
      refine ⟨t, ?_, of_decide_eq_true hagent, hbefore t hin, hstatus⟩
      exact List.mem_reverse.2 (List.mem_append_right new hin)
  have hlt : i < (b.sweeps order c 0).agents.size := by
    rw [count_sweeps]
    exact hi
  have hagent : (b.sweeps order c 0).agents[i]? = some (b.sweeps order c 0).agents[i] :=
    Array.getElem?_eq_getElem hlt
  have htally := h.tallied.sweeps hnodup (fun _ => (mem_of_perm hperm).2) c i _ hagent
  rw [hfallen, isAlive_iff]
  constructor
  · rintro ⟨agent, hsome, halive⟩ ⟨s, hs, hstatus⟩
    obtain rfl := Option.some.inj (hagent.symm.trans hsome)
    rw [htally.alive halive] at hs
    exact hstatus (List.eq_of_mem_replicate hs)
  · intro hnone
    refine ⟨_, hagent, ?_⟩
    by_contra hdead
    obtain ⟨k, -, reason, hresults⟩ := htally.dead (Bool.eq_false_iff.2 hdead)
    exact hnone ⟨.halted reason, hresults ▸ List.mem_cons_self, nofun⟩

end Bout

end NibbleArena
