import NibbleArena.Proofs.Machine.Footprint

/-! # Independence — steps on one core that may be exchanged

    Two agents step on the same core one after the other.  If the first step changes
    nothing in the footprint of the second (`Spares`), the second is the step that it
    would have been before: it leaves what it would have left in the two cells that it
    may write to, and everything else as the first step left it
    (`Agrees.read_stepped`).  So if each of the two steps spares the other, it does not
    matter which one comes first.  A cell that both may write to is no exception: it
    lies in both footprints, so neither of them changes it.

    A step that spares two others leaves them as independent of each other as they
    were (`Spares.stepped`), so what holds of two steps extends to any number of
    them. -/

namespace NibbleArena

namespace Core

variable {c d : Core} {ws : List Nat} {r s t : Registers} {a : Nat}

/-- The cells that hold something else afterwards. -/
def changed (c c' : Core) : List Nat := (List.range c.size).filter fun a => c'.read a ≠ c.read a

theorem wrap_mem_changed_iff (hsize : d.size = c.size) :
    c.wrap a ∈ c.changed d ↔ d.read a ≠ c.read a := by
  have hwrap : d.wrap (c.wrap a) = d.wrap a := by
    rw [wrap_congr hsize, wrap_congr hsize, wrap_wrap]
  have hlt : c.wrap a < c.size := c.wrap_lt a
  rw [changed, List.mem_filter, List.mem_range, decide_eq_true_iff, read_wrap, read_congr hwrap]
  exact and_iff_right hlt

/-- What lies outside of the changed cells agrees. -/
theorem agrees_of_changed (hsize : d.size = c.size) (h : ∀ a ∈ c.changed d, a ∉ ws) :
    c.Agrees ws d where
  size_eq := hsize
  read_eq := by
    intro b hb
    refine Decidable.byContradiction fun hne => ?_
    exact h _ ((wrap_mem_changed_iff hsize).2 hne) hb

/-- The step of an agent whose pointers are `r`. -/
def agentStep (c : Core) (r : Registers) : Except Fault Status × Machine SealedHost :=
  Machine.step ⟨c, r, SealedHost.sealed⟩

/-- The core behind it. -/
def stepped (c : Core) (r : Registers) : Core := (c.agentStep r).2.core

theorem stepped_changesOnly (c : Core) (r : Registers) :
    c.ChangesOnly (c.characterCells r.cell) (c.stepped r) :=
  Machine.step_changesOnly_character ⟨c, r, SealedHost.sealed⟩

/-- The step under `r` changes nothing in the footprint of the step under `s`. -/
def Spares (c : Core) (r s : Registers) : Prop := c.Agrees (c.footprint s) (c.stepped r)

theorem spares_of_changed (h : ∀ a ∈ c.changed (c.stepped r), a ∉ c.footprint s) :
    c.Spares r s :=
  agrees_of_changed (c.stepped_changesOnly r).size_eq h

/-! ## A step on a core that agrees on its footprint -/

theorem Agrees.step_eq (h : c.Agrees (c.footprint s) d) :
    (d.agentStep s).1 = (c.agentStep s).1 ∧ (d.agentStep s).2.regs = (c.agentStep s).2.regs
      ∧ (c.stepped s).Agrees (c.footprint s) (d.stepped s) := by
  have halike : Machine.Alike (c.footprint s) ⟨c, s, SealedHost.sealed⟩
      ⟨d, s, SealedHost.sealed⟩ := ⟨h, rfl, rfl⟩
  have hsteps := Machine.step_alike halike (List.Subset.refl _)
  exact ⟨hsteps.result_eq, hsteps.alike.regs_eq, hsteps.alike.agrees⟩

/-- The step leaves what it would have left in the two cells that it may write to, and
    the rest as it finds it. -/
theorem Agrees.read_stepped (h : c.Agrees (c.footprint s) d) (a : Nat) :
    (d.stepped s).read a
      = if c.wrap a ∈ c.characterCells s.cell then (c.stepped s).read a else d.read a := by
  have hsize := (c.stepped_changesOnly s).size_eq
  split
  · refine h.step_eq.2.2.read_eq a ?_
    rw [wrap_congr hsize]
    exact c.characterCells_subset s ‹_›
  · refine (d.stepped_changesOnly s).read_eq a ?_
    rw [h.characterCells_eq, h.wrap_eq]
    exact ‹_›

/-- What one step leaves where the other may write is what was there before, if the
    other is spared. -/
theorem Spares.read_eq (h : c.Spares r s) (ha : c.wrap a ∈ c.characterCells s.cell) :
    (c.stepped r).read a = c.read a :=
  Agrees.read_eq h a (c.characterCells_subset s ha)

/-- Steps that spare each other leave one core, whichever comes first. -/
theorem stepped_comm (h : c.Spares r s) (h' : c.Spares s r) :
    (c.stepped r).stepped s = (c.stepped s).stepped r := by
  have hsize : ∀ t u, ((c.stepped t).stepped u).size = c.size := by
    intro t u
    rw [((c.stepped t).stepped_changesOnly u).size_eq, (c.stepped_changesOnly t).size_eq]
  apply ext_read
  · rw [hsize, hsize]
  intro a
  rw [Agrees.read_stepped h, Agrees.read_stepped h']
  -- by who may write to the cell
  by_cases hr : c.wrap a ∈ c.characterCells r.cell
  · by_cases hs : c.wrap a ∈ c.characterCells s.cell
    · rw [if_pos hs, if_pos hr, h.read_eq hs, h'.read_eq hr]
    · rw [if_neg hs, if_pos hr]
  · by_cases hs : c.wrap a ∈ c.characterCells s.cell
    · rw [if_pos hs, if_neg hr]
    · rw [if_neg hs, if_neg hr, (c.stepped_changesOnly r).read_eq a hr,
        (c.stepped_changesOnly s).read_eq a hs]

/-- A step that spares two others does not bring one of them to touch the other. -/
theorem Spares.stepped (h : c.Spares r s) (hr : c.Spares t r) (hs : c.Spares t s) :
    (c.stepped t).Spares r s where
  size_eq := ((c.stepped t).stepped_changesOnly r).size_eq
  read_eq := by
    intro a ha
    have hwrap := Agrees.wrap_eq hs a
    rw [Agrees.footprint_eq hs (List.Subset.refl _), hwrap] at ha
    rw [Agrees.read_stepped hr]
    split
    · rw [Agrees.read_eq h a ha, Agrees.read_eq hs a ha]
    · rfl

end Core

namespace Machine

/-- **Independent steps commute.**  Two steps over the sealed host start from one core,
    each with its own pointers, on any core and for any pointers.  If neither changes a
    cell that the other looks at or writes to, both orders leave the same core, and each
    step gives the same status and leaves the same pointers in both. -/
theorem steps_commute (core : Core) (regsA regsB : Registers) :
    let a := step ⟨core, regsA, SealedHost.sealed⟩
    let b := step ⟨core, regsB, SealedHost.sealed⟩
    -- each step behind the other
    let bAfter := step ⟨a.2.core, regsB, SealedHost.sealed⟩
    let aAfter := step ⟨b.2.core, regsA, SealedHost.sealed⟩
    (∀ x ∈ core.changed a.2.core, x ∉ core.footprint regsB) →
    (∀ x ∈ core.changed b.2.core, x ∉ core.footprint regsA) →
      bAfter.2.core = aAfter.2.core
      ∧ aAfter.2.regs = a.2.regs ∧ bAfter.2.regs = b.2.regs
      ∧ ∃ statusA statusB, a.1 = .ok statusA ∧ aAfter.1 = .ok statusA
        ∧ b.1 = .ok statusB ∧ bAfter.1 = .ok statusB := by
  intro a b bAfter aAfter hA hB
  have hspares : core.Spares regsA regsB := Core.spares_of_changed hA
  have hspares' : core.Spares regsB regsA := Core.spares_of_changed hB
  obtain ⟨hstatusB, hregsB, -⟩ := Core.Agrees.step_eq hspares
  obtain ⟨hstatusA, hregsA, -⟩ := Core.Agrees.step_eq hspares'
  obtain ⟨statusA, hokA⟩ := step_sealed_ok core regsA
  obtain ⟨statusB, hokB⟩ := step_sealed_ok core regsB
  exact ⟨Core.stepped_comm hspares hspares', hregsA, hregsB, statusA, statusB, hokA,
    hstatusA.trans hokA, hokB, hstatusB.trans hokB⟩

/-- The second step jumps, and tests a cell that the first one writes to without
    changing it. -/
theorem steps_commute_jump :
    let core : Core := ⟨#[7, 11, 0, 12, 0, 0, 1, 0], by decide⟩
    let a := step ⟨core, ⟨6, 0⟩, SealedHost.sealed⟩
    let b := step ⟨core, ⟨5, 1⟩, SealedHost.sealed⟩
    let bAfter := step ⟨a.2.core, ⟨5, 1⟩, SealedHost.sealed⟩
    let aAfter := step ⟨b.2.core, ⟨6, 0⟩, SealedHost.sealed⟩
    (core.changed a.2.core = [6] ∧ core.footprint ⟨6, 0⟩ = [0, 5, 6])
      ∧ (core.changed b.2.core = [] ∧ core.footprint ⟨5, 1⟩ = [1, 4, 5, 2, 3])
      ∧ bAfter.2.core = aAfter.2.core ∧ aAfter.2.regs = ⟨6, 1⟩ ∧ bAfter.2.regs = ⟨5, 4⟩
      ∧ aAfter.1 = .ok .running ∧ bAfter.1 = .ok .running := by
  intro core a b bAfter aAfter
  have hchanged : core.changed a.2.core = [6] := by decide
  have hchanged' : core.changed b.2.core = [] := by decide
  have hfoot : core.footprint ⟨6, 0⟩ = [0, 5, 6] := by decide
  have hfoot' : core.footprint ⟨5, 1⟩ = [1, 4, 5, 2, 3] := by decide
  have hrunsA : a.1 = .ok .running := by rfl
  have hrunsB : b.1 = .ok .running := by rfl
  have hspares : ∀ x ∈ core.changed a.2.core, x ∉ core.footprint ⟨5, 1⟩ := by
    rw [hchanged, hfoot']
    decide
  have hspares' : ∀ x ∈ core.changed b.2.core, x ∉ core.footprint ⟨6, 0⟩ := by
    rw [hchanged']
    exact nofun
  obtain ⟨hcore, hregsA, hregsB, statusA, statusB, hA, hA', hB, hB'⟩ :=
    steps_commute core ⟨6, 0⟩ ⟨5, 1⟩ hspares hspares'
  refine ⟨⟨hchanged, hfoot⟩, ⟨hchanged', hfoot'⟩, hcore, hregsA, hregsB, ?_, ?_⟩
  · exact hA'.trans (hA.symm.trans hrunsA)
  · exact hB'.trans (hB.symm.trans hrunsB)

end Machine

end NibbleArena
