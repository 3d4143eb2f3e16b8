import NibbleArena.Proofs.Core.Load

/-! # Dumps — a text, its code and the cells that hold it

    A program can be written in three ways: as a text, as the symbols of its code, and
    as the picture of a core into which it was loaded.  Symbols and opcodes belong to
    each other one to one, so reading a text keeps just its symbols, and reading
    symbols gives back the code they were written from.

    A dump has a symbol for every cell.  Loaded at address zero it is as long as the
    core, so it overwrites all of it, the last opcode in the last cell, and leaves the
    core that was dumped.  A shorter program leaves zeros behind it, and a zero is
    shown as the symbol of `halt`. -/

namespace NibbleArena

namespace Opcode

/-- The characters that stand for opcodes, in the order of the nibbles. -/
def symbols : List Char :=
  ['$', '\x7d', '\x7b', '>', '<', '@', '~', '+', '-', '.', ',', '(', ')', '[', ']', '*']

theorem symbols_eq : symbols = all.toList.map symbol := by decide

/-- A character is read as an opcode just if it is the symbol of it. -/
theorem ofSymbol?_eq_some_iff {ch : Char} {op : Opcode} :
    ofSymbol? ch = some op ↔ op.symbol = ch := by
  constructor
  · intro h
    have hfound := List.find?_some (p := fun op : Opcode => op.symbol = ch) h
    exact of_decide_eq_true hfound
  · rintro rfl
    exact ofSymbol?_symbol op

/-- The symbols are the characters that are read. -/
theorem mem_symbols_iff {ch : Char} : ch ∈ symbols ↔ ∃ op, ofSymbol? ch = some op := by
  rw [symbols_eq, List.mem_map]
  constructor
  · rintro ⟨op, -, hop⟩
    exact ⟨op, ofSymbol?_eq_some_iff.2 hop⟩
  · rintro ⟨op, hop⟩
    exact ⟨op, List.mem_of_find?_eq_some hop, ofSymbol?_eq_some_iff.1 hop⟩

end Opcode

/-! ## Text and code -/

/-- The symbols of the code are the symbols of the text. -/
theorem map_symbol_decode (text : List Char) :
    (decode text).map Opcode.symbol = text.filter (· ∈ Opcode.symbols) := by
  induction text with
  | nil => rfl
  | cons ch rest ih =>
      cases hop : Opcode.ofSymbol? ch with
      | none =>
          have hcomment : ¬ch ∈ Opcode.symbols := by
            rw [Opcode.mem_symbols_iff, hop]
            exact nofun
          rw [decode, List.filterMap_cons_none hop, List.filter_cons_of_neg (by simp [hcomment])]
          exact ih
      | some op =>
          have hsymbol : ch ∈ Opcode.symbols := Opcode.mem_symbols_iff.2 ⟨op, hop⟩
          rw [decode, List.filterMap_cons_some hop, List.filter_cons_of_pos (by simp [hsymbol]),
            List.map_cons, Opcode.ofSymbol?_eq_some_iff.1 hop]
          exact congrArg (ch :: ·) ih

/-- Symbols are read as the opcodes they were written from. -/
theorem decode_map_symbol (code : List Opcode) : decode (code.map Opcode.symbol) = code := by
  induction code with
  | nil => rfl
  | cons op rest ih =>
      rw [List.map_cons, decode, List.filterMap_cons_some (Opcode.ofSymbol?_symbol op)]
      exact congrArg (op :: ·) ih

namespace Program

theorem render_parse (t : String) :
    (parse t).render = String.ofList (t.toList.filter (· ∈ Opcode.symbols)) :=
  congrArg String.ofList (map_symbol_decode t.toList)

/-- What was written for a code is read as this code. -/
theorem code_parse_ofList (code : List Opcode) :
    (parse (String.ofList (code.map Opcode.symbol))).code = code := by
  show decode (String.ofList (code.map Opcode.symbol)).toList = code
  rw [String.toList_ofList, decode_map_symbol]

/-- A program is the one read from its symbols if there is no commentary in its text. -/
theorem parse_eq_parse_render_iff (t : String) :
    parse t = parse (parse t).render ↔ ∀ ch ∈ t.toList, ch ∈ Opcode.symbols := by
  have hsame : t = (parse t).render ↔ t.toList.filter (· ∈ Opcode.symbols) = t.toList := by
    rw [render_parse, ← String.toList_inj, String.toList_ofList, eq_comm]
  have hall := List.filter_eq_self (l := t.toList) (p := fun ch => decide (ch ∈ Opcode.symbols))
  simp only [decide_eq_true_eq] at hall
  rw [← hall, ← hsame]
  constructor
  · exact congrArg source
  · intro h
    exact congrArg parse h

theorem code_parse_append (s t : String) :
    (parse (s ++ t)).code = (parse s).code ++ (parse t).code := by
  show decode (s ++ t).toList = decode s.toList ++ decode t.toList
  rw [String.toList_append]
  exact List.filterMap_append

end Program

/-! ## Code and core -/

namespace Core

variable {c d : Core} {p : Program} {n : Nat}

theorem disassemble_eq (c : Core) :
    c.disassemble = String.ofList ((List.range c.size).map fun a => (c.opcode a).symbol) := by
  rw [disassemble, toList_cells, List.map_map]
  rfl

/-- The code of a dump has an opcode for every cell. -/
theorem code_disassemble (c : Core) :
    (Program.parse c.disassemble).code = (List.range c.size).map c.opcode := by
  have hcode := Program.code_parse_ofList ((List.range c.size).map c.opcode)
  rw [List.map_map] at hcode
  rw [disassemble_eq]
  exact hcode

/-- A dump that is loaded leaves the core that was dumped, whatever was there. -/
theorem load_disassemble (h : c.size = d.size) :
    (d.load 0 (Program.parse c.disassemble)).1 = c := by
  have hcode := c.code_disassemble
  have hlength : (Program.parse c.disassemble).length = c.size := by
    rw [Program.length, hcode, List.length_map, List.length_range]
  refine ext_read ((size_load _ _ _).trans h.symm) ?_
  intro a
  -- every address stands for one of the cells that are written
  have hlt : c.wrap a < (Program.parse c.disassemble).code.length :=
    Nat.lt_of_lt_of_eq (c.wrap_lt a) hlength.symm
  have hread := read_load (c := d) (o := 0) (Nat.le_of_eq (hlength.trans h)) hlt
  have hcell : (d.load 0 (Program.parse c.disassemble)).1.wrap a = c.wrap a :=
    wrap_congr ((size_load _ _ _).trans h.symm) a
  rw [← read_wrap, hcell, ← Nat.zero_add (c.wrap a), hread]
  simp only [hcode, List.getElem_map, List.getElem_range]
  rw [opcode_wrap]
  exact Opcode.nibble_ofNibble (c.read a)

/-- On a core of zeros a loaded program is its code, and zeros behind it. -/
theorem opcodes_load_zeroed (hn : 0 < n) (hlen : p.length ≤ n) :
    (List.range n).map ((zeroed n hn).load 0 p).1.opcode
      = p.code ++ List.replicate (n - p.length) .halt := by
  have hfits : p.length ≤ (zeroed n hn).size := by
    rw [size_zeroed]
    exact hlen
  apply List.ext_getElem
  · rw [List.length_map, List.length_range, List.length_append, List.length_replicate]
    exact (Nat.add_sub_cancel' hlen).symm
  · intro i hi hi'
    rw [List.length_map, List.length_range] at hi
    rw [List.getElem_map, List.getElem_range]
    by_cases hcode : i < p.code.length
    · have hread := read_load (o := 0) hfits hcode
      rw [Nat.zero_add] at hread
      rw [List.getElem_append_left hcode, opcode, hread, Opcode.ofNibble_nibble]
    · have hbehind : ∀ k < p.length, (zeroed n hn).wrap (0 + k) ≠ (zeroed n hn).wrap i := by
        intro k hk
        have hi' : i < (zeroed n hn).size := Nat.lt_of_lt_of_eq hi (size_zeroed n hn).symm
        rw [Nat.zero_add, wrap_of_lt (Nat.lt_of_lt_of_le hk hfits), wrap_of_lt hi']
        exact Nat.ne_of_lt (Nat.lt_of_lt_of_le hk (Nat.le_of_not_lt hcode))
      rw [List.getElem_append_right (Nat.le_of_not_lt hcode), List.getElem_replicate, opcode,
        read_load_of_ne hbehind, read_zeroed]
      rfl

theorem disassemble_load_zeroed (hn : 0 < n) (hlen : p.length ≤ n) :
    ((zeroed n hn).load 0 p).1.disassemble
      = p.render ++ String.ofList (List.replicate (n - p.length) '$') := by
  have hopcodes := congrArg (List.map Opcode.symbol) (opcodes_load_zeroed hn hlen)
  rw [List.map_map, List.map_append, List.map_replicate] at hopcodes
  rw [disassemble_eq, size_load, size_zeroed, Program.render, ← String.ofList_append]
  exact congrArg String.ofList hopcodes

/-- **Text, code and dump agree.**  A text is read as its symbols, and its symbols are
    read as the same code; the program itself comes back just from a text without
    commentary.  Two texts in a row have their codes in a row.  The dump of a core,
    loaded at zero into any core of its size, gives that core, whatever was on it.  And
    a program that fits on a core of zeros is dumped as its symbols, with the symbol of
    `halt` for every cell that is left. -/
theorem dump_agrees :
    (∀ t : String,
      (Program.parse t).render = String.ofList (t.toList.filter (· ∈ Opcode.symbols))
        ∧ (Program.parse (Program.parse t).render).code = (Program.parse t).code
        ∧ (Program.parse t = Program.parse (Program.parse t).render
          ↔ ∀ ch ∈ t.toList, ch ∈ Opcode.symbols))
    ∧ (∀ s t : String,
      (Program.parse (s ++ t)).code = (Program.parse s).code ++ (Program.parse t).code)
    ∧ (∀ c d : Core, c.size = d.size → (d.load 0 (Program.parse c.disassemble)).1 = c)
    ∧ ∀ (p : Program) (n : Nat) (hn : 0 < n), p.length ≤ n →
      ((zeroed n hn).load 0 p).1.disassemble
        = p.render ++ String.ofList (List.replicate (n - p.length) '$') := by
  refine ⟨?_, Program.code_parse_append, ?_, ?_⟩
  · intro t
    exact ⟨Program.render_parse t, Program.code_parse_ofList _, Program.parse_eq_parse_render_iff t⟩
  · intro c d h
    exact load_disassemble h
  · intro p n hn hlen
    exact disassemble_load_zeroed hn hlen

/-- A text with commentary that fills a core, and cells without an order that are
    overwritten by a dump. -/
theorem dump_agrees_full :
    let p := Program.parse "x ( ü @~)"
    let c : Core := ⟨#[11, 5, 6, 12], by decide⟩
    let d : Core := ⟨#[0, 15, 3, 1], by decide⟩
    c.size = d.size ∧ p.length ≤ 4 ∧ (d.load 0 (Program.parse c.disassemble)).1 = c
      ∧ ((zeroed 4 (by decide)).load 0 p).1.disassemble = "(@~)"
      ∧ ((zeroed 6 (by decide)).load 0 p).1.disassemble = "(@~)$$" := by
  intro p c d
  obtain ⟨-, -, hload, hdump⟩ := dump_agrees
  have hsize : c.size = d.size := rfl
  have hlength : p.length ≤ 4 := by cbv
  have hfull := hdump p 4 (by decide) hlength
  have hpart := hdump p 6 (by decide) (Nat.le_trans hlength (by decide))
  have hrest : 4 - p.length = 0 := by cbv
  have hrest' : 6 - p.length = 2 := by cbv
  rw [hrest] at hfull
  rw [hrest'] at hpart
  refine ⟨hsize, hlength, hload c d hsize, hfull.trans ?_, hpart.trans ?_⟩
  · cbv
  · cbv

end Core

end NibbleArena
