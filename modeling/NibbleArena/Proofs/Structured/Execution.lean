import NibbleArena.Proofs.Structured.Step

/-! # Execution — stepping through the code is running the program

    A machine that starts at the first cell of a structured program, and never
    writes into the code, does what the program means: the two directions are
    `BigStep.reaches` and `runsWithin`.

    Forward the induction is on the big step.  A loop that runs its body again
    has come to its closing bracket; the induction hypothesis speaks of a start
    at the opening one, and both make the same step.

    Back there is no big step to begin with, and the calls of a loop are not cut
    into rounds.  The induction is on the program, and for a loop on the number
    of calls that are left: a round uses up at least one of them. -/

namespace NibbleArena

open Machine

/-- A machine at the opening bracket of a loop is not behind the loop. -/
theorem Structured.machine_opening_ne {σ : Type} (d d' : Data σ) {a : Nat} {f : BracketFamily}
    {body : Structured} (hfit : (loop f body).code.length < d.core.size) :
    d.machine (d.core.wrap a) ≠ d'.machine (d.core.wrap (a + (loop f body).code.length)) := by
  intro heq
  have hexec : d.core.wrap a = d.core.wrap (a + (loop f body).code.length) :=
    congrArg (fun m => m.regs.exec) heq
  exact Core.wrap_add_ne a (Nat.succ_pos _) hfit hexec.symm

variable {σ : Type} [Host σ] {area : Nat → Prop}

/-! ## From the program to the calls -/

/-- A program that ends without a write into its code is carried out by the
    machine, from the first cell of the code to the cell behind it. -/
theorem Structured.BigStep.reaches {p : Structured} {d d' : Data σ} {ws : List Nat}
    (h : BigStep p d ws d') {a : Nat} (hcode : d.core.Holds area a p.code)
    (hfit : p.code.length < d.core.size) (hws : ∀ w ∈ ws, ¬area w) :
    Reaches area (d.machine (d.core.wrap a)) (d'.machine (d.core.wrap (a + p.code.length))) := by
  induction h generalizing a with
  | skip => exact Reaches.refl area _
  | @plain op hop d d' ws hact =>
      refine Reaches.cons (Data.within_plain hcode hact hws) ?_
      rw [Data.step_plain hcode hact]
      exact Reaches.refl area _
  | @seq p q d d' d'' ws ws' first second ihfirst ihsecond =>
      rw [length_code_seq] at hfit ⊢
      obtain ⟨hws1, hws2⟩ := List.forall_mem_append.1 hws
      have hsame := first.changesOnly
      have hrest := ihsecond (hcode.right.of_changesOnly hws1 hsame)
        (by rw [hsame.size_eq]; omega) hws2
      rw [hsame.wrap_eq, hsame.wrap_eq, Nat.add_assoc] at hrest
      exact (ihfirst hcode.left (by omega) hws1).trans hrest
  | @done f body d hzero =>
      refine Reaches.cons (Data.within_loop_opening hcode hfit) ?_
      rw [Data.step_loop_opening hcode hfit, Data.loopNext, if_pos hzero]
      exact Reaches.refl area _
  | @again f body d d' d'' ws ws' hnonzero once rest ihonce ihrest =>
      obtain ⟨hws1, hws2⟩ := List.forall_mem_append.1 hws
      have hsame := once.changesOnly
      have hcode' := hcode.of_changesOnly hws1 hsame
      have hfit' : (loop f body).code.length < d'.core.size := by
        rw [hsame.size_eq]
        exact hfit
      have hlen := length_code_loop f body
      -- the round that starts at the opening bracket
      have hround : Reaches area (d.machine (d.core.wrap a))
          (d'.machine (d.core.wrap (a + 1 + body.code.length))) := by
        refine Reaches.cons (Data.within_loop_opening hcode hfit) ?_
        rw [Data.step_loop_opening hcode hfit, Data.loopNext, if_neg hnonzero]
        exact ihonce hcode.tail.left (by omega) hws1
      -- the rounds behind it, from the closing bracket
      have hnext := ihrest hcode' hfit' hws2
      have hclosing := Reaches.of_step_eq (Data.within_loop_closing hcode' hfit')
        (Data.step_loop_closing hcode' hfit') (machine_opening_ne d' d'' hfit') hnext
      rw [hsame.wrap_eq, hsame.wrap_eq, Nat.add_right_comm] at hclosing
      exact hround.trans hclosing

/-! ## From the calls to the program -/

/-- `k` calls lead out of the area; none of them fails or writes into it. -/
structure Machine.Leaves (area : Nat → Prop) (m : Machine σ) (k : Nat) : Prop where
  ok : ∀ j < k, ∃ status, (m.after j).step.1 = .ok status
  writes : ∀ j < k, ∀ w ∈ (m.after j).writes, ¬area w
  out : ¬area (m.after k).regs.exec

namespace Machine.Leaves

variable {m m' : Machine σ} {i k : Nat}

theorem drop (h : Leaves area m (i + k)) : Leaves area (m.after i) k where
  ok := by
    intro j hj
    rw [after_after]
    exact h.ok (i + j) (by omega)
  writes := by
    intro j hj
    rw [after_after]
    exact h.writes (i + j) (by omega)
  out := by
    rw [after_after]
    exact h.out

/-- From a cell of the area it takes a call to get out. -/
theorem exists_succ (h : Leaves area m k) (hin : area m.regs.exec) : ∃ n, k = n + 1 := by
  cases k with
  | zero => exact absurd hin h.out
  | succ n => exact ⟨n, rfl⟩

theorem tail (h : Leaves area m (k + 1)) : Leaves area m.step.2 k := by
  rw [Nat.add_comm] at h
  exact h.drop

/-- A machine that makes the same first step leaves with as many calls. -/
theorem of_step_eq (h : Leaves area m' (k + 1)) (hm : Within area m) (hstep : m.step = m'.step) :
    Leaves area m (k + 1) where
  ok := by
    intro j hj
    cases j with
    | zero => exact ⟨_, hm.running⟩
    | succ j =>
        rw [after_succ, hstep, ← after_succ]
        exact h.ok (j + 1) hj
  writes := by
    intro j hj
    cases j with
    | zero => exact hm.writes
    | succ j =>
        rw [after_succ, hstep, ← after_succ]
        exact h.writes (j + 1) hj
  out := by
    rw [after_succ, hstep, ← after_succ]
    exact h.out

end Machine.Leaves

namespace Structured

/-- The machine has run the program from `a` on within `k` calls. -/
def RunsWithin (area : Nat → Prop) (p : Structured) (d : Data σ) (a k : Nat) : Prop :=
  ∃ j ≤ k, ∃ ws d', BigStep p d ws d' ∧ (∀ w ∈ ws, ¬area w)
    ∧ (d.machine (d.core.wrap a)).after j = d'.machine (d.core.wrap (a + p.code.length))

theorem runsWithin_plain {op : Opcode} {hop : op.isPlain = true} {d : Data σ} {a k : Nat}
    (hcode : d.core.Holds area a (plain op hop).code)
    (h : Leaves area (d.machine (d.core.wrap a)) k) : RunsWithin area (plain op hop) d a k := by
  obtain ⟨n, rfl⟩ := h.exists_succ hcode.head.1
  cases hact : d.act op with
  | none =>
      have hplain : (d.core.opcode (d.core.wrap a)).isPlain = true := by
        rw [Core.opcode_wrap, hcode.head.2]
        exact hop
      obtain ⟨f, host, hstep⟩ :=
        Data.step_of_act_none hplain ((Data.act_head hcode).trans hact)
      obtain ⟨status, hok⟩ := h.ok 0 (Nat.succ_pos n)
      have herror : (d.machine (d.core.wrap a)).step.1 = .error f := by rw [hstep]
      exact nomatch herror.symm.trans hok
  | some e =>
      obtain ⟨ws, d'⟩ := e
      refine ⟨1, by omega, ws, d', .plain hact, ?_, ?_⟩
      · intro w hw
        have hwrites : (d.machine (d.core.wrap a)).writes = ws :=
          writes_of_act ((Data.act_head hcode).trans hact)
        exact h.writes 0 (Nat.succ_pos n) w (hwrites ▸ hw)
      · show (d.machine (d.core.wrap a)).step.2 = _
        rw [Data.step_plain hcode hact]
        rfl

/-- A loop whose body is run whenever the machine leaves it is itself run. -/
theorem runsWithin_loop {f : BracketFamily} {body : Structured} {a : Nat}
    (hbody : ∀ (k : Nat) {d : Data σ} {a : Nat}, d.core.Holds area a body.code →
      body.code.length < d.core.size → Leaves area (d.machine (d.core.wrap a)) k →
      RunsWithin area body d a k)
    (k : Nat) {d : Data σ} (hcode : d.core.Holds area a (loop f body).code)
    (hfit : (loop f body).code.length < d.core.size)
    (h : Leaves area (d.machine (d.core.wrap a)) k) : RunsWithin area (loop f body) d a k := by
  have hlen := length_code_loop f body
  induction k using Nat.strongRecOn generalizing d with
  | ind k ih =>
      obtain ⟨n, rfl⟩ := h.exists_succ hcode.head.1
      have hopening := Data.step_loop_opening hcode hfit
      by_cases hz : d.core.TestsZero d.cell f
      · refine ⟨1, by omega, [], d, .done hz, nofun, ?_⟩
        show (d.machine (d.core.wrap a)).step.2 = _
        rw [hopening, Data.loopNext, if_pos hz]
      · have hfirst : (d.machine (d.core.wrap a)).step.2 = d.machine (d.core.wrap (a + 1)) := by
          rw [hopening, Data.loopNext, if_neg hz]
        have htail := h.tail
        rw [hfirst] at htail
        obtain ⟨j, hj, ws, d', honce, hws, hafter⟩ := hbody n hcode.tail.left (by omega) htail
        obtain ⟨r, rfl⟩ := Nat.exists_eq_add_of_le hj
        have hsame := honce.changesOnly
        have hcode' := hcode.of_changesOnly hws hsame
        have hfit' : (loop f body).code.length < d'.core.size := by
          rw [hsame.size_eq]
          exact hfit
        rw [Nat.add_right_comm, ← hsame.wrap_eq (a + body.code.length + 1)] at hafter
        -- what is left of the run starts at the closing bracket
        have hclosing := htail.drop
        rw [hafter] at hclosing
        obtain ⟨r, rfl⟩ := hclosing.exists_succ (Data.within_loop_closing hcode' hfit').exec
        have hsteps := Data.step_loop_closing hcode' hfit'
        have hagain := hclosing.of_step_eq (Data.within_loop_opening hcode' hfit') hsteps.symm
        obtain ⟨j', hj', ws', d'', hrest, hws', hafter'⟩ := ih (r + 1) (by omega) hcode' hfit' hagain
        cases j' with
        | zero => exact absurd hafter' (machine_opening_ne d' d'' hfit')
        | succ j' =>
            refine ⟨j + (j' + 1) + 1, by omega, ws ++ ws', d'', .again hz honce hrest,
              List.forall_mem_append.2 ⟨hws, hws'⟩, ?_⟩
            rw [after_succ, hfirst, ← after_after, hafter, after_succ, hsteps, ← after_succ,
              hafter', hsame.wrap_eq]

/-- A machine that gets from the first cell of a program out of the code has run
    the program, if no call has failed or has written into the code. -/
theorem runsWithin (p : Structured) (k : Nat) {d : Data σ} {a : Nat}
    (hcode : d.core.Holds area a p.code) (hfit : p.code.length < d.core.size)
    (h : Leaves area (d.machine (d.core.wrap a)) k) : RunsWithin area p d a k := by
  induction p generalizing k d a with
  | skip => exact ⟨0, Nat.zero_le k, [], d, .skip, nofun, rfl⟩
  | plain op hop => exact runsWithin_plain hcode h
  | seq p q ihp ihq =>
      have hlen := length_code_seq p q
      obtain ⟨j, hj, ws, d', hp, hws, hafter⟩ := ihp k hcode.left (by omega) h
      obtain ⟨r, rfl⟩ := Nat.exists_eq_add_of_le hj
      have hsame := hp.changesOnly
      have hrest := h.drop
      rw [hafter, ← hsame.wrap_eq] at hrest
      obtain ⟨j', hj', ws', d'', hq, hws', hafter'⟩ :=
        ihq r (hcode.right.of_changesOnly hws hsame) (by rw [hsame.size_eq]; omega) hrest
      refine ⟨j + j', by omega, ws ++ ws', d'', .seq hp hq, ?_, ?_⟩
      · exact List.forall_mem_append.2 ⟨hws, hws'⟩
      · rw [← after_after, hafter, ← hsame.wrap_eq, hafter', hlen, ← Nat.add_assoc, hsame.wrap_eq]
  | loop f body ih => exact runsWithin_loop ih k hcode hfit h

/-! ## Both directions -/

/-- The cells of the code of a program that lies from `o` on. -/
def CodeCell (p : Structured) (c : Core) (o w : Nat) : Prop :=
  ∃ i < p.code.length, w = (o + i) % c.size

instance (p : Structured) (c : Core) (o w : Nat) : Decidable (p.CodeCell c o w) :=
  inferInstanceAs (Decidable (∃ i < _, _))

/-- The cell behind the code is not a cell of the code. -/
theorem not_codeCell_stop {p : Structured} {c : Core} (hfit : p.code.length < c.size) (o : Nat) :
    ¬p.CodeCell c o ((o + p.code.length) % c.size) := by
  rintro ⟨i, hi, heq⟩
  obtain ⟨k, hk⟩ := Nat.exists_eq_add_of_le (Nat.le_of_lt hi)
  rw [hk, ← Nat.add_assoc] at heq
  exact Core.wrap_add_ne (o + i) (by omega) (by omega) heq

/-- **Stepping is running the program.**  Let a core hold the code of a
    structured program from `o` on, with at least one cell to spare.  If the
    program ends without a write into its code, then finitely many calls of
    `step`, all of which go on, lead from `o` to the cell behind the code, which
    is not met before, and to exactly the data that the program ends on.
    Conversely, if calls of `step` lead from `o` to that cell for the first time
    and none of them fails or writes into the code, then the program ends on
    the data that the machine has there.  Over a host that does not fail no call
    does. -/
theorem structured_run (p : Structured) (d : Data σ) (o : Nat) (ho : o < d.core.size)
    (hfit : p.code.length < d.core.size)
    (hcode : ∀ i (h : i < p.code.length), d.core.opcode (o + i) = p.code[i]) :
    (∀ ws d', BigStep p d ws d' → (∀ w ∈ ws, ¬p.CodeCell d.core o w) →
      ∃ k, (d.machine o).after k = d'.machine ((o + p.code.length) % d.core.size)
        ∧ ∀ j < k, ((d.machine o).after j).step.1 = .ok .running
          ∧ ((d.machine o).after j).regs.exec ≠ (o + p.code.length) % d.core.size
          ∧ ∀ w ∈ ((d.machine o).after j).writes, ¬p.CodeCell d.core o w)
    ∧ ∀ k, ((d.machine o).after k).regs.exec = (o + p.code.length) % d.core.size →
      (∀ j < k, ((d.machine o).after j).regs.exec ≠ (o + p.code.length) % d.core.size) →
      (∀ j < k, ∃ status, ((d.machine o).after j).step.1 = .ok status) →
      (∀ j < k, ∀ w ∈ ((d.machine o).after j).writes, ¬p.CodeCell d.core o w) →
      ∃ ws d', BigStep p d ws d' ∧ (∀ w ∈ ws, ¬p.CodeCell d.core o w)
        ∧ (d.machine o).after k = d'.machine ((o + p.code.length) % d.core.size) := by
  have hstart : d.core.wrap o = o := Core.wrap_of_lt ho
  have hheld : d.core.Holds (p.CodeCell d.core o) o p.code := ⟨fun i hi => ⟨i, hi, rfl⟩, hcode⟩
  have hstop := p.not_codeCell_stop hfit o
  constructor
  · intro ws d' hbig hws
    obtain ⟨k, hk, hin⟩ := hbig.reaches hheld hfit hws
    rw [hstart] at hk hin
    refine ⟨k, hk, ?_⟩
    intro j hj
    have hj := hin j hj
    exact ⟨hj.running, fun heq => hstop (heq ▸ hj.exec), hj.writes⟩
  · intro k hend hfirst hok hws
    have hleaves : Leaves (p.CodeCell d.core o) (d.machine (d.core.wrap o)) k := by
      rw [hstart]
      exact ⟨hok, hws, hend ▸ hstop⟩
    obtain ⟨j, hj, ws, d', hbig, hws', hafter⟩ := p.runsWithin k hheld hfit hleaves
    rw [hstart] at hafter
    have hmet : ((d.machine o).after j).regs.exec = (o + p.code.length) % d.core.size := by
      rw [hafter]
      rfl
    have hjk : j = k := by
      by_cases hlt : j < k
      · exact absurd hmet (hfirst j hlt)
      · omega
    subst hjk
    exact ⟨ws, d', hbig, hws', hafter⟩

/-- A loop in a loop of the other family: `(~[-])`. -/
def countdown : Structured :=
  loop .cell (seq (plain .decCell rfl) (loop .character (plain .decChar rfl)))

/-- A core of ten cells that holds `countdown` across address zero, from address
    seven on, and the number three. -/
def countdownData : Data SealedHost :=
  ⟨⟨#[8, 14, 12, 0, 0, 3, 0, 11, 6, 13], by decide⟩, 5, .sealed⟩

/-- After eight calls the machine is behind the code; so the program ends, with
    the number counted down, and its end is reached by calls that go on. -/
theorem structured_run_countdown :
    ∃ ws d', BigStep countdown countdownData ws d' ∧ d'.core.read 5 = 0
      ∧ (countdownData.machine 7).after 8 = d'.machine 3
      ∧ ∃ k, (countdownData.machine 7).after k = d'.machine 3
        ∧ ∀ j < k, ((countdownData.machine 7).after j).step.1 = .ok .running := by
  have hrun := structured_run countdown countdownData 7 (by decide) (by decide) (by decide)
  have hok : ∀ j < 8, ∃ status, ((countdownData.machine 7).after j).step.1 = .ok status :=
    fun j _ => step_sealed_ok _ _
  obtain ⟨ws, d', hbig, hws, hafter⟩ := hrun.2 8 (by decide) (by decide) hok (by decide)
  obtain ⟨k, hk, hrunning⟩ := hrun.1 ws d' hbig hws
  have hcore : ((countdownData.machine 7).after 8).core = d'.core := congrArg Machine.core hafter
  refine ⟨ws, d', hbig, ?_, hafter, k, hk, fun j hj => (hrunning j hj).1⟩
  rw [← hcore]
  decide

end Structured

end NibbleArena
