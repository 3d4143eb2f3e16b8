import NibbleArena.Proofs.Structured.Scan

/-! # Steps through structured code — one cell at a time

    The code of a program lies in an area of the core, and nothing is written
    into that area.  Three kinds of cells are met on the way: a plain
    instruction goes on with the next cell, the opening bracket of a loop with
    the body or behind the loop, and the closing bracket does exactly what the
    opening bracket does on the same data.  The last is what makes a loop a
    loop: coming to its end is as good as starting again. -/

namespace NibbleArena

namespace Machine

variable {σ : Type} [Host σ] {area : Nat → Prop}

/-- The next call goes on, from a cell of the area and with no write into it. -/
structure Within (area : Nat → Prop) (m : Machine σ) : Prop where
  running : m.step.1 = .ok .running
  exec : area m.regs.exec
  writes : ∀ w ∈ m.writes, ¬area w

/-- Some number of calls within the area lead from one machine to another. -/
def Reaches (area : Nat → Prop) (m m' : Machine σ) : Prop :=
  ∃ k, m.after k = m' ∧ ∀ j < k, Within area (m.after j)

variable {m m' m'' : Machine σ}

theorem Reaches.refl (area : Nat → Prop) (m : Machine σ) : Reaches area m m :=
  ⟨0, rfl, fun _ hj => absurd hj (Nat.not_lt_zero _)⟩

theorem Reaches.cons (hm : Within area m) (h : Reaches area m.step.2 m') : Reaches area m m' := by
  obtain ⟨k, hk, hin⟩ := h
  refine ⟨k + 1, ?_, ?_⟩
  · rw [after_succ]
    exact hk
  · intro j hj
    cases j with
    | zero => exact hm
    | succ j =>
        rw [after_succ]
        exact hin j (Nat.lt_of_succ_lt_succ hj)

theorem Reaches.trans (h : Reaches area m m') (h' : Reaches area m' m'') :
    Reaches area m m'' := by
  obtain ⟨k, hk, hin⟩ := h
  obtain ⟨k', hk', hin'⟩ := h'
  refine ⟨k + k', ?_, ?_⟩
  · rw [← after_after, hk]
    exact hk'
  · intro j hj
    by_cases hjk : j < k
    · exact hin j hjk
    · obtain ⟨i, rfl⟩ := Nat.exists_eq_add_of_le (Nat.le_of_not_lt hjk)
      rw [← after_after, hk]
      exact hin' i (by omega)

/-- A machine that makes the same first step gets to the same place. -/
theorem Reaches.of_step_eq (hm : Within area m) (hstep : m.step = m'.step) (hne : m' ≠ m'')
    (h : Reaches area m' m'') : Reaches area m m'' := by
  obtain ⟨k, hk, hin⟩ := h
  cases k with
  | zero => exact absurd hk hne
  | succ k =>
      refine Reaches.cons hm ⟨k, ?_, ?_⟩
      · rw [hstep, ← after_succ]
        exact hk
      · intro j hj
        rw [hstep, ← after_succ]
        exact hin (j + 1) (Nat.succ_lt_succ hj)

end Machine

namespace Data

variable {σ : Type} [Host σ] {area : Nat → Prop} {d d' : Data σ} {a : Nat} {ws : List Nat}

/-! ## Plain instructions -/

variable {op : Opcode}

theorem act_head {r : List Opcode} (h : d.core.Holds area a (op :: r)) :
    d.act (d.core.opcode (d.core.wrap a)) = d.act op := by
  rw [Core.opcode_wrap, h.head.2]

theorem step_plain {r : List Opcode} (h : d.core.Holds area a (op :: r))
    (hact : d.act op = some (ws, d')) :
    (d.machine (d.core.wrap a)).step = (.ok .running, d'.machine (d.core.wrap (a + 1))) := by
  have hsame := act_changesOnly hact
  rw [step_of_act ((act_head h).trans hact)]
  show (_, d'.machine (d'.core.offset (d.core.wrap a) 1)) = _
  rw [← hsame.wrap_eq, Core.offset_wrap_one, hsame.wrap_eq]

theorem within_plain {r : List Opcode} (h : d.core.Holds area a (op :: r))
    (hact : d.act op = some (ws, d')) (hws : ∀ w ∈ ws, ¬area w) :
    Machine.Within area (d.machine (d.core.wrap a)) where
  running := by rw [step_plain h hact]
  exec := h.head.1
  writes := by
    rw [Machine.writes_of_act ((act_head h).trans hact)]
    exact hws

/-! ## Loops -/

variable {f : BracketFamily} {body : Structured}

/-- Where a loop goes on from either of its brackets. -/
def loopNext (d : Data σ) (a : Nat) (f : BracketFamily) (body : Structured) : Nat :=
  d.core.wrap (if d.core.TestsZero d.cell f then a + (Structured.loop f body).code.length else a + 1)

theorem step_loop_opening (h : d.core.Holds area a (Structured.loop f body).code)
    (hfit : (Structured.loop f body).code.length < d.core.size) :
    (d.machine (d.core.wrap a)).step = (.ok .running, d.machine (d.loopNext a f body)) := by
  have hop : d.core.opcode (d.core.wrap a) = f.opening := by
    rw [Core.opcode_wrap]
    exact h.head.2
  rw [step_opening hop, loopNext, Structured.length_code_loop]
  by_cases hz : d.core.TestsZero d.cell f
  · rw [if_pos hz, if_pos hz, Core.matchForward?_loop h hfit]
    show (_, d.machine (d.core.offset (d.core.wrap (a + body.code.length + 1)) 1)) = _
    rw [Core.offset_wrap_one]
    rfl
  · rw [if_neg hz, if_neg hz, Core.offset_wrap_one]

/-- The closing bracket of a loop does what the opening bracket does. -/
theorem step_loop_closing (h : d.core.Holds area a (Structured.loop f body).code)
    (hfit : (Structured.loop f body).code.length < d.core.size) :
    (d.machine (d.core.wrap (a + body.code.length + 1))).step
      = (d.machine (d.core.wrap a)).step := by
  have hop : d.core.opcode (d.core.wrap (a + body.code.length + 1)) = f.closing := by
    rw [Core.opcode_wrap, Nat.add_right_comm]
    exact h.tail.right.head.2
  rw [step_loop_opening h hfit, step_closing hop, loopNext, Structured.length_code_loop]
  by_cases hz : d.core.TestsZero d.cell f
  · rw [if_pos hz, if_pos hz, Core.offset_wrap_one]
    rfl
  · rw [if_neg hz, if_neg hz, Core.matchBackward?_loop h hfit]
    show (_, d.machine (d.core.offset (d.core.wrap a) 1)) = _
    rw [Core.offset_wrap_one]

theorem within_loop_opening (h : d.core.Holds area a (Structured.loop f body).code)
    (hfit : (Structured.loop f body).code.length < d.core.size) :
    Machine.Within area (d.machine (d.core.wrap a)) where
  running := by rw [step_loop_opening h hfit]
  exec := h.head.1
  writes := by
    rw [Machine.writes_of_act_none ((act_head h).trans (d.act_opening f))]
    exact fun _ hw => nomatch hw

theorem within_loop_closing (h : d.core.Holds area a (Structured.loop f body).code)
    (hfit : (Structured.loop f body).code.length < d.core.size) :
    Machine.Within area (d.machine (d.core.wrap (a + body.code.length + 1))) where
  running := by rw [step_loop_closing h hfit, step_loop_opening h hfit]
  exec := by
    rw [Nat.add_right_comm]
    exact h.tail.right.head.1
  writes := by
    rw [Nat.add_right_comm,
      Machine.writes_of_act_none ((act_head h.tail.right).trans (d.act_closing f))]
    exact fun _ hw => nomatch hw

end Data

end NibbleArena
