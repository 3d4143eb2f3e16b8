import NibbleArena.Proofs.Bracket.Depth
import NibbleArena.Proofs.Machine.Effect

/-! # Footprints — what a step depends on

    A step looks at the cell of its instruction, at the two cells of the character
    at the cell pointer and, if it tries to jump, at every cell that the search
    comes to.  These cells are its footprint.

    `Agrees` says that two cores of one size hold the same in a list of cells.  Two
    machines that differ in nothing but cells outside of a footprint make the same
    step, and their cores agree afterwards where they did before (`step_alike`).
    A whole run therefore depends on nothing but the footprints of its steps
    (`calls_alike`).

    The footprint has no more cells than the step looks at: those of a search are
    the cells of the walk up to the match, or a whole lap if there is none. -/

namespace NibbleArena

namespace Core

/-- Both cores hold the same in the cells `ws`. -/
structure Agrees (c : Core) (ws : List Nat) (d : Core) : Prop where
  size_eq : d.size = c.size
  read_eq : ∀ b, c.wrap b ∈ ws → d.read b = c.read b

/-- The two cells of the character at a pointer. -/
def characterCells (c : Core) (p : Nat) : List Nat := [c.offset p (-1), c.wrap p]

namespace Agrees

variable {c d : Core} {ws : List Nat} {p : Nat}

theorem wrap_eq (h : c.Agrees ws d) (a : Nat) : d.wrap a = c.wrap a := wrap_congr h.size_eq a

theorem offset_eq (h : c.Agrees ws d) (a : Nat) (k : Int) : d.offset a k = c.offset a k := by
  apply Int.natCast_inj.1
  rw [offset_eq_emod, offset_eq_emod, h.size_eq]

theorem characterCells_eq (h : c.Agrees ws d) (p : Nat) :
    d.characterCells p = c.characterCells p := by
  show [d.offset p (-1), d.wrap p] = _
  rw [h.offset_eq, h.wrap_eq]
  rfl

theorem opcode_eq (h : c.Agrees ws d) {b : Nat} (hb : c.wrap b ∈ ws) : d.opcode b = c.opcode b :=
  congrArg Opcode.ofNibble (h.read_eq b hb)

theorem cell_eq (h : c.Agrees ws d) (hp : c.characterCells p ⊆ ws) : d.read p = c.read p :=
  h.read_eq p (hp (List.mem_cons_of_mem _ List.mem_cons_self))

theorem readCharacter_eq (h : c.Agrees ws d) (hp : c.characterCells p ⊆ ws) :
    d.readCharacter p = c.readCharacter p := by
  have hbefore : c.wrap (c.offset p (-1)) ∈ ws := by
    rw [wrap_offset]
    exact hp List.mem_cons_self
  show Nibble.join (d.read (d.offset p (-1))) (d.read p) = _
  rw [h.offset_eq, h.read_eq _ hbefore, h.cell_eq hp]
  rfl

/-- The same write on both sides. -/
theorem write (h : c.Agrees ws d) (a : Nat) (v : Nibble) :
    (c.write a v).Agrees ws (d.write a v) where
  size_eq := by rw [size_write, size_write, h.size_eq]
  read_eq := by
    intro b hb
    rw [wrap_write] at hb
    by_cases heq : c.wrap a = c.wrap b
    · have heq' : d.wrap a = d.wrap b := by rw [h.wrap_eq, h.wrap_eq, heq]
      rw [read_write_of_eq heq, read_write_of_eq heq']
    · have hne' : d.wrap a ≠ d.wrap b := by
        rw [h.wrap_eq, h.wrap_eq]
        exact heq
      rw [read_write_of_ne heq, read_write_of_ne hne', h.read_eq b hb]

theorem assignCharacter (h : c.Agrees ws d) (p : Nat) (b : UInt8) :
    (c.assignCharacter p b).Agrees ws (d.assignCharacter p b) := by
  show ((c.write (c.offset p (-1)) _).write p _).Agrees ws
    ((d.write (d.offset p (-1)) _).write p _)
  rw [h.offset_eq]
  exact (h.write _ _).write _ _

end Agrees

/-! ## The cells of a search -/

/-- The cells that `seek` looks at. -/
def visits (c : Core) (w : Walk) : (cells pos nested : Nat) → List Nat
  | 0, _, _ => []
  | cells + 1, pos, nested =>
    let next := c.offset pos w.step
    let op := c.opcode next
    next ::
      if op = w.deeper then visits c w cells next (nested + 1)
      else if op = w.shallower then
        match nested with
        | 0 => []
        | rest + 1 => visits c w cells next rest
      else visits c w cells next nested

/-- The cells that a search along a walk looks at. -/
def searched (c : Core) (w : Walk) (a : Nat) : List Nat := c.visits w c.size (c.wrap a) 0

/-- The search that the step under `regs` jumps by, if it tries to jump. -/
def attempt (c : Core) (regs : Registers) : Option Walk :=
  match c.opcode regs.exec with
  | .loopCell => if c.read regs.cell = 0 then some BracketFamily.cell.ahead else none
  | .endCell => if c.read regs.cell = 0 then none else some BracketFamily.cell.behind
  | .loopChar => if c.readCharacter regs.cell = 0 then some BracketFamily.character.ahead else none
  | .endChar => if c.readCharacter regs.cell = 0 then none else some BracketFamily.character.behind
  | _ => none

/-- The cells that this search looks at. -/
def scanned (c : Core) (regs : Registers) : List Nat :=
  match c.attempt regs with
  | some w => c.searched w regs.exec
  | none => []

/-- The cells that the step under `regs` looks at or writes. -/
def footprint (c : Core) (regs : Registers) : List Nat :=
  c.wrap regs.exec :: (c.characterCells regs.cell ++ c.scanned regs)

theorem characterCells_subset (c : Core) (regs : Registers) :
    c.characterCells regs.cell ⊆ c.footprint regs :=
  fun _ ha => List.mem_cons_of_mem _ (List.mem_append_left _ ha)

theorem scanned_subset (c : Core) (regs : Registers) : c.scanned regs ⊆ c.footprint regs :=
  fun _ ha => List.mem_cons_of_mem _ (List.mem_append_right _ ha)

section Search

variable {c d : Core} {ws : List Nat} {w : Walk} {a : Nat}

/-- Which cells a search looks at and what it finds depends on these cells alone. -/
theorem Agrees.seek_eq (h : c.Agrees ws d) {cells pos nested : Nat}
    (hsub : c.visits w cells pos nested ⊆ ws) :
    d.visits w cells pos nested = c.visits w cells pos nested
      ∧ d.seek w.step w.deeper w.shallower cells pos nested
        = c.seek w.step w.deeper w.shallower cells pos nested := by
  induction cells generalizing pos nested with
  | zero => exact ⟨rfl, rfl⟩
  | succ cells ih =>
      rw [visits.eq_def] at hsub
      obtain ⟨hnext, hrest⟩ := List.cons_subset.1 hsub
      have hop : d.opcode (c.offset pos w.step) = c.opcode (c.offset pos w.step) := by
        apply h.opcode_eq
        rw [wrap_offset]
        exact hnext
      rw [visits.eq_def, visits.eq_def c, seek.eq_def, seek.eq_def c]
      simp only [h.offset_eq, hop, List.cons.injEq, true_and]
      by_cases hd : c.opcode (c.offset pos w.step) = w.deeper
      · simp only [hd, ↓reduceIte] at hrest ⊢
        exact ih hrest
      · by_cases hs : c.opcode (c.offset pos w.step) = w.shallower
        · simp only [hs, w.ne.symm, ↓reduceIte] at hrest ⊢
          cases nested with
          | zero => exact ⟨rfl, rfl⟩
          | succ nested => exact ih hrest
        · simp only [hd, hs, ↓reduceIte] at hrest ⊢
          exact ih hrest

theorem Agrees.search_eq (h : c.Agrees ws d) (hsub : c.searched w a ⊆ ws) :
    d.searched w a = c.searched w a ∧ d.search w a = c.search w a := by
  show d.visits w d.size (d.wrap a) 0 = _ ∧ d.seek _ _ _ d.size (d.wrap a) 0 = _
  rw [h.size_eq, h.wrap_eq]
  exact h.seek_eq hsub

section Visits

variable {cells pos nested nested' k : Nat}

/-- A search that ends on its first cell looks at no other. -/
theorem visits_found (h : (nested : Int) + 1 + w.weight (c.opcode (c.offset pos w.step)) = 0) :
    c.visits w (cells + 1) pos nested = [c.offset pos w.step] := by
  have hs : c.opcode (c.offset pos w.step) = w.shallower :=
    Walk.eq_shallower_of_weight_neg (by omega)
  rw [hs, Walk.weight_shallower] at h
  obtain rfl : nested = 0 := by omega
  rw [visits.eq_def]
  simp only [hs, w.ne.symm, ↓reduceIte]

/-- Otherwise it goes on from there, with the nesting behind the cell. -/
theorem visits_on (h : (nested' : Int) = nested + w.weight (c.opcode (c.offset pos w.step))) :
    c.visits w (cells + 1) pos nested
      = c.offset pos w.step :: c.visits w cells (c.offset pos w.step) nested' := by
  rw [visits.eq_def]
  refine congrArg (_ :: ·) ?_
  by_cases hd : c.opcode (c.offset pos w.step) = w.deeper
  · rw [hd, Walk.weight_deeper] at h
    obtain rfl : nested' = nested + 1 := by omega
    rw [if_pos hd]
  · rw [if_neg hd]
    by_cases hs : c.opcode (c.offset pos w.step) = w.shallower
    · rw [hs, Walk.weight_shallower] at h
      obtain rfl : nested = nested' + 1 := by omega
      rw [if_pos hs]
    · rw [Walk.weight_of_ne hd hs] at h
      obtain rfl : nested' = nested := by omega
      rw [if_neg hs]

/-- A search looks at the cells of its walk as long as the depth is positive. -/
theorem visits_eq_map (hle : k ≤ cells) (hpos : ∀ j < k, 0 < nested + c.depth w pos j)
    (hend : k = cells ∨ nested + c.depth w pos k = 0) :
    c.visits w cells pos nested = (List.range k).map fun j => c.along w pos (j + 1) := by
  induction cells generalizing pos nested k with
  | zero =>
      obtain rfl := Nat.le_zero.1 hle
      rfl
  | succ cells ih =>
      have hstart : ∀ x, c.depth w x 0 = 1 := fun _ => rfl
      cases k with
      | zero =>
          have hzero := hstart pos
          omega
      | succ k =>
          have hfirst : c.along w pos 1 = c.offset pos w.step := by
            rw [← along_next, along_zero, wrap_offset]
          have hcells : (List.range (k + 1)).map (fun j => c.along w pos (j + 1))
              = c.offset pos w.step
                :: (List.range k).map fun j => c.along w (c.offset pos w.step) (j + 1) := by
            simp only [along_next]
            rw [List.range_succ_eq_map, List.map_cons, List.map_map, Nat.zero_add, hfirst]
            rfl
          rw [hcells]
          by_cases hfound : (nested : Int) + 1 + w.weight (c.opcode (c.offset pos w.step)) = 0
          · -- the depth is zero at the first cell, so there is no other
            have hone : c.depth w pos 1 = _ := c.depth_succ w pos 0
            rw [hstart] at hone
            obtain rfl : k = 0 := by
              refine Nat.eq_zero_of_not_pos fun hk => ?_
              have hdepth := hpos 1 (Nat.succ_lt_succ hk)
              omega
            rw [visits_found hfound]
            rfl
          · have hweight := w.neg_one_le_weight (c.opcode (c.offset pos w.step))
            obtain ⟨nested', hn⟩ : ∃ n : Nat,
                (n : Int) = nested + w.weight (c.opcode (c.offset pos w.step)) :=
              ⟨(nested + w.weight (c.opcode (c.offset pos w.step))).toNat, by omega⟩
            rw [visits_on hn, ih (Nat.le_of_succ_le_succ hle)]
            · intro j hj
              have hdepth := hpos (j + 1) (Nat.succ_lt_succ hj)
              rw [depth_succ] at hdepth
              omega
            · rw [depth_succ] at hend
              omega

end Visits

/-- A search that succeeds looks at the cells of the walk up to the match. -/
theorem searched_of_returns {k : Nat} (h : Returns c w a k) :
    c.searched w a = (List.range k).map fun j => c.along w a (j + 1) := by
  have hpos := depth_pos h.first
  have hzero := h.depth_eq_zero
  simp only [← c.depth_wrap w a] at hpos hzero
  simp only [← c.along_wrap w a]
  exact visits_eq_map h.le_size (fun j hj => by have := hpos j hj; omega) (Or.inr (by omega))

/-- A search that fails looks at a whole lap. -/
theorem searched_of_none (h : c.search w a = none) :
    c.searched w a = (List.range c.size).map fun j => c.along w a (j + 1) := by
  have hne : ∀ j < c.size, c.depth w a j ≠ 0 := by
    intro j
    induction j using Nat.strongRecOn with
    | _ j ih =>
        intro hj hzero
        have hstart : c.depth w a 0 = 1 := rfl
        have hret : Returns c w a j := by
          refine ⟨Nat.pos_of_ne_zero ?_, Nat.le_of_lt hj, hzero, ?_⟩
          · rintro rfl
            omega
          · intro i hi
            exact ih i hi (Nat.lt_trans hi hj)
        exact nomatch h.symm.trans (search_eq_some_iff.2 ⟨j, hret, rfl⟩)
  have hpos := depth_pos hne
  simp only [← c.depth_wrap w a] at hpos
  simp only [← c.along_wrap w a]
  exact visits_eq_map (Nat.le_refl _) (fun j hj => by have := hpos j hj; omega) (Or.inl rfl)

variable {regs : Registers}

theorem Agrees.attempt_eq (h : c.Agrees ws d) (hsub : c.footprint regs ⊆ ws) :
    d.attempt regs = c.attempt regs := by
  have hcells : c.characterCells regs.cell ⊆ ws :=
    List.Subset.trans (c.characterCells_subset regs) hsub
  simp only [attempt, h.opcode_eq (hsub List.mem_cons_self), h.cell_eq hcells,
    h.readCharacter_eq hcells]

theorem Agrees.scanned_eq (h : c.Agrees ws d) (hsub : c.footprint regs ⊆ ws) :
    d.scanned regs = c.scanned regs := by
  have hscan : c.scanned regs ⊆ ws := List.Subset.trans (c.scanned_subset regs) hsub
  unfold scanned at hscan ⊢
  rw [h.attempt_eq hsub]
  cases hw : c.attempt regs with
  | none => rfl
  | some w =>
      rw [hw] at hscan
      exact (h.search_eq hscan).1

/-- Cores that agree on a footprint have the same footprint. -/
theorem Agrees.footprint_eq (h : c.Agrees ws d) (hsub : c.footprint regs ⊆ ws) :
    d.footprint regs = c.footprint regs := by
  show d.wrap regs.exec :: (d.characterCells regs.cell ++ d.scanned regs) = _
  rw [h.wrap_eq, h.characterCells_eq, h.scanned_eq hsub]
  rfl

end Search

end Core

/-! ## Steps on cores that agree -/

namespace Machine

variable {σ : Type} {ws : List Nat}

/-- Two machines that differ in nothing but cells outside of `ws`. -/
structure Alike (ws : List Nat) (m m' : Machine σ) : Prop where
  agrees : m.core.Agrees ws m'.core
  regs_eq : m'.regs = m.regs
  host_eq : m'.host = m.host

/-- Two steps that give the same result and leave machines that are alike. -/
structure AlikeSteps (ws : List Nat) (r r' : Except Fault Status × Machine σ) : Prop where
  result_eq : r'.1 = r.1
  alike : Alike ws r.2 r'.2

section Ends

variable {c d : Core} (h : c.Agrees ws d) (cell exec : Nat) (host : σ)

include h

theorem goOn_alike : AlikeSteps ws (goOn c cell exec host) (goOn d cell exec host) := by
  refine ⟨rfl, h, ?_, rfl⟩
  show (⟨cell, d.offset exec 1⟩ : Registers) = ⟨cell, c.offset exec 1⟩
  rw [h.offset_eq]

theorem jump_alike (target : Option Nat) :
    AlikeSteps ws (jump c cell exec host target) (jump d cell exec host target) := by
  cases target with
  | none => exact ⟨rfl, h, rfl, rfl⟩
  | some target => exact goOn_alike h cell target host

theorem store_alike (b : Option UInt8) :
    AlikeSteps ws (store c cell exec host b) (store d cell exec host b) := by
  cases b with
  | none => exact goOn_alike h cell exec host
  | some b => exact goOn_alike (h.assignCharacter cell b) cell exec host

end Ends

variable [Host σ] {m m' : Machine σ}

/-- A bracket jumps by the search that it attempts, or goes on. -/
theorem step_bracket {c : Core} (regs : Registers) (host : σ)
    (hop : (c.opcode regs.exec).isBracket = true) :
    step ⟨c, regs, host⟩
      = match c.attempt regs with
        | some w => jump c regs.cell regs.exec host (c.search w regs.exec)
        | none => goOn c regs.cell regs.exec host := by
  obtain ⟨cell, exec⟩ := regs
  cases hexec : c.opcode exec with
  | loopCell | endCell | loopChar | endChar =>
      simp only [step, Core.attempt, hexec]
      split <;> rfl
  | _ =>
      rw [hexec] at hop
      cases hop

/-- Machines that agree on the footprint of a step make the same step. -/
theorem step_alike (h : Alike ws m m') (hfoot : m.core.footprint m.regs ⊆ ws) :
    AlikeSteps ws m.step m'.step := by
  obtain ⟨core, ⟨cell, exec⟩, host⟩ := m
  obtain ⟨core', regs', host'⟩ := m'
  obtain ⟨hagrees, hregs, hhost⟩ := h
  obtain rfl : regs' = ⟨cell, exec⟩ := hregs
  obtain rfl : host = host' := hhost.symm
  have hcells : core.characterCells cell ⊆ ws :=
    List.Subset.trans (core.characterCells_subset ⟨cell, exec⟩) hfoot
  have hfetch : core'.opcode exec = core.opcode exec :=
    hagrees.opcode_eq (hfoot List.mem_cons_self)
  have hread : core'.read cell = core.read cell := hagrees.cell_eq hcells
  have hchar : core'.readCharacter cell = core.readCharacter cell :=
    hagrees.readCharacter_eq hcells
  cases hop : core.opcode exec with
  | halt =>
      simp only [step, hfetch, hop]
      exact ⟨rfl, hagrees, rfl, rfl⟩
  | right | left | rightTwo | leftTwo =>
      simp only [step, hfetch, hop, hagrees.offset_eq]
      exact goOn_alike hagrees _ exec host
  | incCell | decCell =>
      simp only [step, hfetch, hop, hread]
      exact goOn_alike (hagrees.write _ _) cell exec host
  | incChar | decChar =>
      simp only [step, hfetch, hop, hchar]
      exact goOn_alike (hagrees.assignCharacter _ _) cell exec host
  | output =>
      simp only [step, hfetch, hop, hchar]
      split
      · exact goOn_alike hagrees cell exec _
      · exact ⟨rfl, hagrees, rfl, rfl⟩
  | input =>
      simp only [step, hfetch, hop]
      split
      · exact store_alike hagrees cell exec _ _
      · exact ⟨rfl, hagrees, rfl, rfl⟩
  | swap =>
      simp only [step, hfetch, hop, hchar]
      exact store_alike hagrees cell exec _ _
  | loopCell | endCell | loopChar | endChar =>
      have hbracket : (core.opcode exec).isBracket = true := by
        rw [hop]
        rfl
      have hbracket' : (core'.opcode exec).isBracket = true := by
        rw [hfetch]
        exact hbracket
      have hscan := List.Subset.trans (core.scanned_subset ⟨cell, exec⟩) hfoot
      unfold Core.scanned at hscan
      rw [step_bracket ⟨cell, exec⟩ host hbracket, step_bracket ⟨cell, exec⟩ host hbracket',
        hagrees.attempt_eq hfoot]
      cases hw : core.attempt ⟨cell, exec⟩ with
      | none => exact goOn_alike hagrees cell exec host
      | some w =>
          rw [hw] at hscan
          show AlikeSteps ws (jump core cell exec host (core.search w exec))
            (jump core' cell exec host (core'.search w exec))
          rw [(hagrees.search_eq hscan).2]
          exact jump_alike hagrees cell exec host _

/-- Machines that agree on the footprints of a run make the same run. -/
theorem calls_alike (n : Nat) (h : Alike ws m m')
    (hfoot : ∀ i < n, (m.after i).core.footprint (m.after i).regs ⊆ ws) :
    (calls n m').map Prod.fst = (calls n m).map Prod.fst
      ∧ Alike ws (m.after n) (m'.after n) := by
  induction n generalizing m m' with
  | zero => exact ⟨rfl, h⟩
  | succ n ih =>
      have hstep := step_alike h (hfoot 0 (Nat.succ_pos n))
      have hlater : ∀ i < n, (m.step.2.after i).core.footprint (m.step.2.after i).regs ⊆ ws := by
        intro i hi
        rw [← after_succ]
        exact hfoot (i + 1) (Nat.succ_lt_succ hi)
      obtain ⟨hcalls, hafter⟩ := ih hstep.alike hlater
      rw [after_succ, after_succ]
      refine ⟨?_, hafter⟩
      show m'.step.1 :: (calls n m'.step.2).map Prod.fst = m.step.1 :: _
      rw [hstep.result_eq, hcalls]

end Machine

/-! ## Where a step writes -/

theorem Data.putCharacter?_writes {σ : Type} (d : Data σ) (b : Option UInt8) :
    (d.putCharacter? b).1 ⊆ d.core.characterCells d.cell := by
  cases b with
  | none => exact List.nil_subset _
  | some b => exact List.Subset.refl _

/-- An instruction writes to the two cells of its character, if at all. -/
theorem Data.act_writes {σ : Type} [Host σ] {d : Data σ} {op : Opcode} {e : List Nat × Data σ}
    (h : d.act op = some e) : e.1 ⊆ d.core.characterCells d.cell := by
  cases op with
  | right | left | rightTwo | leftTwo =>
      cases h
      exact List.nil_subset _
  | incCell | decCell =>
      cases h
      exact List.subset_cons_self _ _
  | incChar | decChar =>
      cases h
      exact List.Subset.refl _
  | output =>
      simp only [act] at h
      split at h
      · cases h
        exact List.nil_subset _
      · cases h
  | input =>
      simp only [act] at h
      split at h
      · cases h
        exact putCharacter?_writes { d with host := _ } _
      · cases h
  | swap =>
      cases h
      exact putCharacter?_writes { d with host := _ } _
  | halt | loopCell | endCell | loopChar | endChar => cases h

namespace Machine

variable {σ : Type} [Host σ]

/-- A step changes at most the two cells of the character at its cell pointer. -/
theorem step_changesOnly_character (m : Machine σ) :
    m.core.ChangesOnly (m.core.characterCells m.regs.cell) m.step.2.core := by
  refine m.step_changesOnly.mono ?_
  cases hact : m.data.act m.opcode with
  | some e =>
      have hwrites : m.writes = e.1 := writes_of_act (d := m.data) hact
      rw [hwrites]
      exact Data.act_writes hact
  | none =>
      have hwrites : m.writes = [] := writes_of_act_none (d := m.data) hact
      rw [hwrites]
      exact List.nil_subset _

end Machine

end NibbleArena
