import Mathlib.Data.List.Forall2
import NibbleArena.CommandLine.Session
import NibbleArena.Proofs.Arena.Opening
import NibbleArena.Proofs.Text.Wrapping

/-! # Program files — how a program is spread over lines does not matter

    A session reads a program file and joins its lines.  If the file has a text without
    line breaks with breaks put in, this is the text again, to the character.

    From there two facts about sessions carry it on.  A command reads its surroundings
    only through the joined texts of its program files, the text of its configuration, the
    standard input and the entropy, so surroundings that agree on these give the same
    outcome (`perform_congr`).  And a run looks at the code of its program and not at its
    text (`runProgram_congr`), so for a run the line breaks of a file need not even be
    taken out. -/

namespace NibbleArena

/-! ## Programs with the same code -/

section Code

variable {σ : Type} {p q : Program}

theorem Core.load_congr (h : p.code = q.code) (c : Core) (origin : Nat) :
    c.load origin p = c.load origin q := by
  rw [Core.load, Core.load, h]

theorem Run.start_congr (h : p.code = q.code) (s : RunSettings) (host : σ) :
    Run.start s p host = Run.start s q host := by
  simp only [Run.start, Run.loaded, Core.load_congr h]

theorem Run.opening_congr (h : p.code = q.code) (r : Run σ) : r.opening p = r.opening q := by
  simp only [Run.opening, Program.length, h]

end Code

namespace Text

theorem unwrapped_eq_iff {t u : String} (ht : Unbroken t.toList) :
    unwrapped u = t ↔ Wrapped t.toList u.toList := by
  rw [← joinLines_eq_iff ht, ← String.toList_inj, unwrapped, String.toList_ofList]

theorem code_unwrapped (s : String) :
    (Program.parse (unwrapped s)).code = (Program.parse s).code := by
  show decode (String.ofList (joinLines s.toList)).toList = decode s.toList
  rw [String.toList_ofList, decode_joinLines]

end Text

namespace CommandLine

open Text

variable {w w' : Surroundings} {path s t text : String} {files ts : List String}
  {command : Command} {o : RunSettings.Overrides} {log : Log}

/-! ## Files -/

theorem readText_of_read (h : w.read path = .ok text.toUTF8) : w.readText path = .ok text := by
  have htext : String.fromUTF8? text.toUTF8 = some text := dif_pos text.isValidUTF8
  simp only [Surroundings.readText, h, htext]

theorem readProgram_of_read (h : w.read path = .ok text.toUTF8) :
    w.readProgram path = .ok (unwrapped text) := by
  rw [Surroundings.readProgram, readText_of_read h]
  rfl

/-- The file at the path is a text without line breaks, with line breaks put in. -/
def Surroundings.HoldsWrapped (w : Surroundings) (path t : String) : Prop :=
  Unbroken t.toList ∧ ∃ u : String, Wrapped t.toList u.toList ∧ w.read path = .ok u.toUTF8

theorem readProgram_of_holdsWrapped (h : w.HoldsWrapped path t) : w.readProgram path = .ok t := by
  obtain ⟨ht, u, hu, hread⟩ := h
  rw [readProgram_of_read hread, (unwrapped_eq_iff ht).2 hu]

theorem readPrograms_of_holdsWrapped (h : List.Forall₂ w.HoldsWrapped files ts) :
    w.readPrograms files = .ok ts := by
  induction h with
  | nil => rfl
  | cons hfile _ ih =>
      simp only [Surroundings.readPrograms, readProgram_of_holdsWrapped hfile, ih]
      rfl

/-! ## What a command reads -/

/-- The program files of a command. -/
def Command.programs : Command → List String
  | .run file _ => [file]
  | .arena files _ _ _ => files
  | .dump file _ => [file]
  | .eval .. | .schema => []

/-- The file with the settings of a command, if there is one. -/
def Command.config? : Command → Option String
  | .arena _ config _ _ => config
  | _ => none

/-- For the command the second surroundings are as the first. -/
structure Surroundings.SameView (w w' : Surroundings) (command : Command) : Prop where
  stdin_eq : w'.stdin = w.stdin
  entropy_eq : w'.entropy = w.entropy
  programs_eq : ∀ path ∈ command.programs, w'.readProgram path = w.readProgram path
  config_eq : ∀ path ∈ command.config?, w'.readText path = w.readText path

theorem readPrograms_congr (h : ∀ path ∈ files, w'.readProgram path = w.readProgram path) :
    w'.readPrograms files = w.readPrograms files := by
  induction files with
  | nil => rfl
  | cons path files ih =>
      obtain ⟨hpath, hfiles⟩ := List.forall_mem_cons.1 h
      simp only [Surroundings.readPrograms, hpath, ih hfiles]

theorem arenaSettings_congr {config : Option String}
    (h : ∀ path ∈ config, w'.readText path = w.readText path) (o : ArenaSettings.Overrides) :
    w'.arenaSettings config o = w.arenaSettings config o := by
  cases config with
  | none => rfl
  | some path => simp only [Surroundings.arenaSettings, h path rfl]

/-- A run looks at the code of the program and at the standard input. -/
theorem runProgram_congr (hcode : (Program.parse s).code = (Program.parse t).code)
    (hstdin : w'.stdin = w.stdin) : runProgram w' s o log = runProgram w t o log := by
  simp only [runProgram, hstdin, Run.start_congr hcode, Run.opening_congr hcode]

/-- Nothing else in the surroundings counts. -/
theorem perform_congr (h : w.SameView w' command) :
    perform w' log command = perform w log command := by
  cases command with
  | run file o =>
      simp only [perform, h.programs_eq file List.mem_cons_self, runProgram_congr rfl h.stdin_eq]
  | eval program o => exact runProgram_congr rfl h.stdin_eq
  | arena files config o json =>
      have hsettings : w'.arenaSettings config o = w.arenaSettings config o :=
        arenaSettings_congr h.config_eq o
      have hprograms : w'.readPrograms files = w.readPrograms files :=
        readPrograms_congr h.programs_eq
      simp only [perform, runArena, hsettings, hprograms, h.entropy_eq]
  | schema => rfl
  | dump file coreSize =>
      simp only [perform, dumpProgram, h.programs_eq file List.mem_cons_self]

/-- The program files of the command have the same texts, each with its own line breaks.
    All else is the same. -/
structure Surroundings.Rewrapped (w w' : Surroundings) (command : Command) : Prop where
  stdin_eq : w'.stdin = w.stdin
  entropy_eq : w'.entropy = w.entropy
  programs : ∀ path ∈ command.programs, ∃ t, w.HoldsWrapped path t ∧ w'.HoldsWrapped path t
  config_eq : ∀ path ∈ command.config?, w'.read path = w.read path

theorem Surroundings.Rewrapped.sameView (h : w.Rewrapped w' command) : w.SameView w' command where
  stdin_eq := h.stdin_eq
  entropy_eq := h.entropy_eq
  programs_eq := by
    intro path hpath
    obtain ⟨t, ht, ht'⟩ := h.programs path hpath
    rw [readProgram_of_holdsWrapped ht, readProgram_of_holdsWrapped ht']
  config_eq := by
    intro path hpath
    rw [Surroundings.readText, Surroundings.readText, h.config_eq path hpath]

/-! ## Line wrapping -/

/-- The agents of an arena that was opened have the programs of its texts. -/
theorem programs_of_seeded {s : ArenaSettings} {entropy : UInt64} {a : Arena Keystream}
    (h : Arena.seeded s ts entropy = .ok a) : a.programs = ts.map Program.parse := by
  rw [Arena.programs, (Arena.opened_of_new h).agents_eq, List.map_map]
  exact List.map_id _

/-- **Line wrapping.**  To read a program file is to join the lines of its text.  A text
    without carriage returns and line feeds comes out, to the character, just if it is in
    the file with line breaks put in, each of them a line feed with or without a carriage
    return before it, and at each place as many as one likes.

    So what is run, shown or sent into an arena is this text, with its length and its
    code, and a command has the same outcome wherever the line breaks stand.  For any text
    at all the code does not change with the joining, and a file of it runs as the text
    itself does when it is given on the command line. -/
theorem wrapping_immaterial :
    (∀ s, unwrapped s = String.ofList (lines s.toList).flatten)
    ∧ (∀ t u : String, Unbroken t.toList → (unwrapped u = t ↔ Wrapped t.toList u.toList))
    ∧ (∀ (w : Surroundings) (path t : String), w.HoldsWrapped path t →
      w.readProgram path = .ok t
      ∧ ∀ log o, perform w log (.run path o) = perform w log (.eval t o))
    ∧ (∀ (w : Surroundings) (files ts : List String), List.Forall₂ w.HoldsWrapped files ts →
      w.readPrograms files = .ok ts
      ∧ ∀ s a, Arena.seeded s ts w.entropy = .ok a → a.programs = ts.map Program.parse)
    ∧ (∀ (w w' : Surroundings) (command : Command), w.Rewrapped w' command →
      ∀ log, perform w' log command = perform w log command)
    ∧ (∀ s, (Program.parse (unwrapped s)).code = (Program.parse s).code)
    ∧ (∀ (w : Surroundings) (path s : String), w.read path = .ok s.toUTF8 →
      ∀ log o, perform w log (.run path o) = perform w log (.eval s o)) := by
  refine ⟨?_, ?_, ?_, ?_, ?_, code_unwrapped, ?_⟩
  · intro s
    rw [flatten_lines]
    rfl
  · intro t u ht
    exact unwrapped_eq_iff ht
  · intro w path t h
    have hread := readProgram_of_holdsWrapped h
    refine ⟨hread, fun log o => ?_⟩
    simp only [perform, hread]
  · intro w files ts h
    exact ⟨readPrograms_of_holdsWrapped h, fun s a ha => programs_of_seeded ha⟩
  · intro w w' command h log
    exact perform_congr h.sameView
  · intro w path s h log o
    simp only [perform, readProgram_of_read h]
    exact runProgram_congr (code_unwrapped s) rfl

/-- A text in a file of one line, and in a file with breaks of both kinds, with some
    before it, behind it, and two at one place; and a text with carriage returns that are
    no part of a break. -/
theorem wrapping_immaterial_mixed :
    let t := ",[.,]"
    let u := "\n,[\r\n\n.,\r\n]\n"
    let s := "\r+\n\r\r\n."
    let w : Surroundings := ⟨fun _ => .ok t.toUTF8, [104, 105], 7⟩
    let w' : Surroundings := ⟨fun _ => .ok u.toUTF8, [104, 105], 7⟩
    let c : Surroundings := ⟨fun _ => .ok s.toUTF8, [], 0⟩
    unwrapped u = t
      ∧ w'.readPrograms ["a", "b"] = .ok [t, t]
      ∧ (∀ log, perform w' log (.run "a" {}) = perform w' log (.eval t {}))
      ∧ (∀ log, perform w' log (.dump "a" none) = perform w log (.dump "a" none))
      ∧ (∀ log o, perform w' log (.arena ["a", "b"] none o true)
        = perform w log (.arena ["a", "b"] none o true))
      ∧ unwrapped s = "\r+\r."
      ∧ ∀ log, perform c log (.run "a" {}) = perform c log (.eval s {}) := by
  intro t u s w w' c
  obtain ⟨-, hiff, hfile, hfiles, houtcome, -, hany⟩ := wrapping_immaterial
  have ht : Unbroken t.toList := by decide
  have hu : unwrapped u = t := by decide
  have hplain : ∀ path, w.HoldsWrapped path t := fun _ =>
    ⟨ht, t, (hiff t t ht).1 (by decide), rfl⟩
  have hwrapped : ∀ path, w'.HoldsWrapped path t := fun _ => ⟨ht, u, (hiff t u ht).1 hu, rfl⟩
  have hdump : w.Rewrapped w' (.dump "a" none) :=
    ⟨rfl, rfl, fun path _ => ⟨t, hplain path, hwrapped path⟩, nofun⟩
  have harena : ∀ o, w.Rewrapped w' (.arena ["a", "b"] none o true) := fun o =>
    ⟨rfl, rfl, fun path _ => ⟨t, hplain path, hwrapped path⟩, nofun⟩
  refine ⟨hu, ?_, ?_, ?_, ?_, ?_, ?_⟩
  · exact (hfiles w' _ _ (.cons (hwrapped _) (.cons (hwrapped _) .nil))).1
  · intro log
    exact (hfile w' "a" t (hwrapped _)).2 log {}
  · exact houtcome w w' _ hdump
  · intro log o
    exact houtcome w w' _ (harena o) log
  · decide
  · intro log
    exact hany c "a" s rfl log {}

end CommandLine

end NibbleArena
