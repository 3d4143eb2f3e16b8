import Mathlib.Data.List.Basic
import Mathlib.Data.List.Induction
import NibbleArena.Proofs.CommandLine.ProgramFiles
import NibbleArena.Proofs.Json.Rendering

/-! # Configuration — which settings count in the end

    Three layers say what the settings are: the options, the document and the default.
    A document may leave out fields, give them in any order, and have members that are no
    fields between them.

    The fields are gone through as data (`Field`), so that what a document gives is the
    list of its members (`Overrides.members`).  Members are taken in one by one; the
    induction runs from the last of them, which is either unknown, and then changes
    nothing, or the member of a field that the others do not give (`gather?_of_perm`).
    Neither the order nor the spelling of the document matters for that. -/

namespace NibbleArena

namespace ArenaSettings

/-! ## Fields -/

/-- A field of the settings. -/
inductive Field
  | coreSize
  | separation
  | maxLength
  | maxCycles
  | rounds
  | seed
  deriving DecidableEq

namespace Field

/-- The fields in their order. -/
def all : List Field := [coreSize, separation, maxLength, maxCycles, rounds, seed]

/-- The name of a field in a document. -/
def key : Field → String
  | coreSize => "core_size"
  | separation => "separation"
  | maxLength => "max_length"
  | maxCycles => "max_cycles"
  | rounds => "rounds"
  | seed => "seed"

/-- The largest number that the field may be. -/
def limit : Field → Nat
  | rounds => Word.max32
  | _ => Word.max64

theorem mem_all (k : Field) : k ∈ all := by
  cases k <;> decide

theorem nodup_all : all.Nodup := by
  decide

end Field

namespace Overrides

variable {o : Overrides} {k : Field} {v : Json.Value}

/-- A seed in a document. -/
def seedValue : Option Nat → Json.Value
  | none => .null
  | some n => .natural n

/-- The value of a field in a document, if the field is given. -/
def value? (o : Overrides) : Field → Option Json.Value
  | .coreSize => o.coreSize.map .natural
  | .separation => o.separation.map .natural
  | .maxLength => o.maxLength.map .natural
  | .maxCycles => o.maxCycles.map .natural
  | .rounds => o.rounds.map .natural
  | .seed => o.seed.map seedValue

/-- The other fields. -/
def without (o : Overrides) : Field → Overrides
  | .coreSize => { o with coreSize := none }
  | .separation => { o with separation := none }
  | .maxLength => { o with maxLength := none }
  | .maxCycles => { o with maxCycles := none }
  | .rounds => { o with rounds := none }
  | .seed => { o with seed := none }

/-- The member of a field in a document, if the field is given. -/
def member? (o : Overrides) (k : Field) : Option (String × Json.Value) :=
  (o.value? k).map fun v => (k.key, v)

/-- The members of a document that gives the fields and nothing else. -/
def members (o : Overrides) : List (String × Json.Value) := Field.all.filterMap o.member?

/-- No number is larger than its field may be. -/
def InRange (o : Overrides) : Prop := ∀ k n, o.value? k = some (.natural n) → n ≤ k.limit

/-- Without a value for any field, nothing is given. -/
theorem eq_of_value? (h : ∀ k, o.value? k = none) : o = {} := by
  obtain ⟨coreSize, separation, maxLength, maxCycles, rounds, seed⟩ := o
  obtain rfl : coreSize = none := Option.map_eq_none_iff.1 (h .coreSize)
  obtain rfl : separation = none := Option.map_eq_none_iff.1 (h .separation)
  obtain rfl : maxLength = none := Option.map_eq_none_iff.1 (h .maxLength)
  obtain rfl : maxCycles = none := Option.map_eq_none_iff.1 (h .maxCycles)
  obtain rfl : rounds = none := Option.map_eq_none_iff.1 (h .rounds)
  obtain rfl : seed = none := Option.map_eq_none_iff.1 (h .seed)
  rfl

theorem value?_without_self (o : Overrides) (k : Field) : (o.without k).value? k = none := by
  cases k <;> rfl

theorem value?_without_of_ne {k' : Field} (h : k' ≠ k) (o : Overrides) :
    (o.without k).value? k' = o.value? k' := by
  cases k <;> cases k' <;> first | exact absurd rfl h | rfl

theorem InRange.without (h : o.InRange) (k : Field) : (o.without k).InRange := by
  intro k' n hn
  by_cases hk : k' = k
  · rw [hk, value?_without_self] at hn
    exact nomatch hn
  · rw [value?_without_of_ne hk] at hn
    exact h k' n hn

/-! ## Members -/

theorem members_eq_nil_iff : o.members = [] ↔ o = {} := by
  constructor
  · intro h
    refine eq_of_value? fun k => ?_
    exact Option.map_eq_none_iff.1 (List.filterMap_eq_nil_iff.1 h k k.mem_all)
  · rintro rfl
    rfl

theorem exists_field_of_mem {m : String × Json.Value} (h : m ∈ o.members) :
    ∃ k v, o.value? k = some v ∧ m = (k.key, v) := by
  obtain ⟨k, -, hk⟩ := List.mem_filterMap.1 h
  obtain ⟨v, hv, rfl⟩ := Option.map_eq_some_iff.1 hk
  exact ⟨k, v, hv, rfl⟩

/-- The member of a field stands among those of the other fields. -/
theorem members_perm (h : o.value? k = some v) :
    o.members.Perm ((k.key, v) :: (o.without k).members) := by
  have hall : Field.all.Perm (k :: Field.all.erase k) := List.perm_cons_erase k.mem_all
  have hk : o.member? k = some (k.key, v) := by
    rw [member?, h]
    rfl
  have hk' : (o.without k).member? k = none := by
    rw [member?, value?_without_self]
    rfl
  have hother : ∀ k' ∈ Field.all.erase k, o.member? k' = (o.without k).member? k' := by
    intro k' hk'
    have hne : k' ≠ k := (Field.nodup_all.mem_erase_iff.1 hk').1
    rw [member?, member?, value?_without_of_ne hne]
  have hhere := hall.filterMap o.member?
  have hthere := hall.filterMap (o.without k).member?
  rw [List.filterMap_cons_some hk, List.filterMap_congr hother] at hhere
  rw [List.filterMap_cons_none hk'] at hthere
  exact hhere.trans (hthere.symm.cons _)

/-! ## Taking in a document -/

theorem give?_natural {limit n : Nat} (h : n ≤ limit) :
    Json.give? none ((Json.Value.natural n).naturalUpTo? limit) = some (some n) := by
  rw [Json.Value.naturalUpTo?, if_pos h]
  rfl

theorem give?_seed {seed : Option Nat} (h : ∀ n, seedValue seed = .natural n → n ≤ Word.max64) :
    Json.give? none (seed? (seedValue seed)) = some (some seed) := by
  cases seed with
  | none => rfl
  | some n =>
      show Json.give? none (((Json.Value.natural n).naturalUpTo? Word.max64).map some) = _
      rw [Json.Value.naturalUpTo?, if_pos (h n rfl)]
      rfl

/-- The member of a field brings the field back. -/
theorem add?_without (h : o.InRange) (hv : o.value? k = some v) :
    (o.without k).add? k.key v = some o := by
  obtain ⟨coreSize, separation, maxLength, maxCycles, rounds, seed⟩ := o
  have hlimit : ∀ n, v = .natural n → n ≤ k.limit := by
    rintro n rfl
    exact h k n hv
  cases k with
  | seed =>
      obtain ⟨seed, rfl, rfl⟩ := Option.map_eq_some_iff.1 hv
      exact congrArg (Option.map _) (give?_seed hlimit)
  | _ =>
      obtain ⟨n, rfl, rfl⟩ := Option.map_eq_some_iff.1 hv
      exact congrArg (Option.map _) (give?_natural (hlimit n rfl))

theorem add?_of_unknown {key : String} (h : key ∉ fieldNames) (o : Overrides) (v : Json.Value) :
    o.add? key v = some o := by
  have hne : ∀ name ∈ fieldNames, key ≠ name := by
    rintro name hname rfl
    exact h hname
  rw [add?]
  all_goals exact hne _ (by decide)

end Overrides

/-- The object with these members. -/
def document (ms : List (String × Json.Value)) : Json.Value :=
  .object (ms.map fun m => (some m.1, m.2))

namespace Overrides

variable {o : Overrides} {unknown ms : List (String × Json.Value)}

theorem ofValue?_concat (ms : List (String × Json.Value)) (m : String × Json.Value) :
    ofValue? (document (ms ++ [m])) = (ofValue? (document ms)).bind fun o => o.add? m.1 m.2 := by
  show Json.gather? add? {} ((ms ++ [m]).map _) = _
  rw [List.map_append, Json.gather?, List.foldlM_append]
  refine Option.bind_congr fun o ho => ?_
  exact bind_pure _

/-- Fields are taken in, in any order and with unknown members between them. -/
theorem ofValue?_of_perm (ho : o.InRange) (hunknown : ∀ m ∈ unknown, m.1 ∉ fieldNames)
    (h : ms.Perm (o.members ++ unknown)) : ofValue? (document ms) = some o := by
  induction ms using List.reverseRecOn generalizing o unknown with
  | nil =>
      have hnil := List.append_eq_nil_iff.1 h.nil_eq.symm
      rw [members_eq_nil_iff.1 hnil.1]
      rfl
  | append_singleton ms m ih =>
      rw [ofValue?_concat]
      have hlast : (m :: ms).Perm (o.members ++ unknown) :=
        (List.perm_append_singleton m ms).symm.trans h
      rcases List.mem_append.1 (hlast.subset List.mem_cons_self) with hm | hm
      · obtain ⟨k, v, hv, rfl⟩ := exists_field_of_mem hm
        have hrest : (_ :: ms).Perm (_ :: ((o.without k).members ++ unknown)) :=
          hlast.trans ((members_perm hv).append_right unknown)
        rw [ih (ho.without k) hunknown hrest.cons_inv]
        exact add?_without ho hv
      · obtain ⟨before, after, rfl⟩ := List.append_of_mem hm
        have hrest : (m :: ms).Perm (m :: (o.members ++ (before ++ after))) :=
          hlast.trans ((List.perm_middle.append_left _).trans List.perm_middle)
        have hother : ∀ m' ∈ before ++ after, m'.1 ∉ fieldNames := by
          intro m' hm'
          refine hunknown m' (List.mem_append.2 ((List.mem_append.1 hm').imp_right ?_))
          exact List.mem_cons_of_mem m
        rw [ih ho hother hrest.cons_inv]
        exact add?_of_unknown (hunknown m hm) o m.2

end Overrides

/-- All fields of the settings. -/
def fields (s : ArenaSettings) : Overrides :=
  ⟨s.coreSize, s.separation, s.maxLength, s.maxCycles, s.rounds, some s.seed⟩

theorem inRange_default : default.fields.InRange := by
  intro k n hn
  cases k with
  | seed => exact nomatch hn
  | _ =>
      cases hn
      decide

theorem ofJson_of_perm {o : Overrides} {unknown ms : List (String × Json.Value)} {text : String}
    (ho : o.InRange) (hunknown : ∀ m ∈ unknown, m.1 ∉ Overrides.fieldNames)
    (h : ms.Perm (o.members ++ unknown)) (htext : Json.Denotes text (document ms)) :
    ofJson text = .ok (default.override o) := by
  have hread : (Json.parse? text).bind Overrides.ofValue? = some o := by
    rw [Json.parse?_of_denotes htext]
    exact Overrides.ofValue?_of_perm ho hunknown h
  rw [ofJson, hread]

end ArenaSettings

namespace CommandLine

open ArenaSettings ArenaSettings.Overrides Json

/-- **Configuration.**  A document gives some of the fields, each once, with numbers that
    are not too large, and has other members, in any order, nested as they may be, and
    with any spelling.  It is accepted, and what it does not give has its default.  A
    battle that is configured with it has for each field what the option says, else what
    the document says, else the default.

    A document of all fields of some settings gives these settings, however it is spelled,
    and so does the one that is rendered. -/
theorem configuration_effective {o : Overrides} {unknown ms : List (String × Json.Value)}
    {text : String} (ho : o.InRange) (hunknown : ∀ m ∈ unknown, m.1 ∉ fieldNames)
    (h : ms.Perm (o.members ++ unknown)) (htext : Denotes text (document ms)) :
    ofJson text = .ok (default.override o)
    ∧ (∀ (w : Surroundings) (path : String) (g : Given), w.read path = .ok text.toUTF8 →
      w.arenaSettings (some path) g.arenaOverrides
        = .ok
          { coreSize := (g.number? "core-size").getD (o.coreSize.getD default.coreSize)
            separation := (g.number? "separation").getD (o.separation.getD default.separation)
            maxLength := (g.number? "max-length").getD (o.maxLength.getD default.maxLength)
            maxCycles := (g.number? "max-cycles").getD (o.maxCycles.getD default.maxCycles)
            rounds := (g.number? "rounds").getD (o.rounds.getD default.rounds)
            seed := (g.number? "seed").or (o.seed.getD default.seed) })
    ∧ (∀ s : ArenaSettings, o = s.fields →
      ofJson text = .ok s ∧ ofJson (document ms).render = .ok s) := by
  have hread := ofJson_of_perm ho hunknown h htext
  refine ⟨hread, ?_, ?_⟩
  · intro w path g hw
    have hseed : ((g.number? "seed").map some).getD (o.seed.getD default.seed)
        = (g.number? "seed").or (o.seed.getD default.seed) := by
      cases g.number? "seed" with
      | none => rfl
      | some n => rfl
    simp only [Surroundings.arenaSettings, readText_of_read hw, hread]
    rw [← hseed]
    rfl
  · rintro s rfl
    exact ⟨hread, ofJson_of_perm ho hunknown h (denotes_render _)⟩

/-- A document with an escape in a key, blanks, a null and an unknown member, and two
    options before it; and the default, rendered the other way round. -/
theorem configuration_effective_mixed :
    let text := "\x7b\"s\\u0065ed\": null,\n\"note\":[-1.5,\x7b\x7d],\"max_cycles\":12\x7d"
    let w : Surroundings := ⟨fun _ => .ok text.toUTF8, [], 0⟩
    let g : Given := { settings := [("core-size", .number 64), ("seed", .number 7)] }
    ofJson text = .ok ⟨8000, 100, 100, 12, 10000, none⟩
      ∧ w.arenaSettings (some "arena.json") g.arenaOverrides
        = .ok ⟨64, 100, 100, 12, 10000, some 7⟩
      ∧ ofJson (document default.fields.members.reverse).render = .ok default := by
  intro text w g
  have hpieces : SpellsPieces [.char 's', .unit 0x65, .char 'e', .char 'd']
      "s\\u0065ed".toList :=
    .cons (spelled_pieceOf 's') <| .cons (spelled_unit (by omega)) <|
      .cons (spelled_pieceOf 'e') <| .cons (spelled_pieceOf 'd') .nil
  have hkey : (Token.text (some "seed")).Spelled "\"s\\u0065ed\"".toList :=
    .text hpieces (charsOfPieces?_eq_some_iff.1 rfl)
  have hnumber : Token.number.Spelled "-1.5".toList :=
    .number (List.mem_cons_of_mem _ List.mem_cons_self) (whole_toDigits 1)
      (.present (whole_toDigits 5).toDigits) .absent (List.cons_ne_nil _ _)
  have hnone : Blanks [] := nofun
  have hspells : Spells _ _ :=
    .write .openBrace <| .token hkey <| .write .colon <| .blank (c := ' ') (by decide) <|
    .write .null <| .write .comma <| .blank (c := '\n') (by decide) <|
    .write (.text (some "note")) <| .write .colon <| .write .openBracket <| .token hnumber <|
    .write .comma <| .write .openBrace <| .write .closeBrace <| .write .closeBracket <|
    .write .comma <| .write (.text (some "max_cycles")) <| .write .colon <|
    .write (.natural 12) <| .write .closeBrace <| .nil hnone
  have htext : Denotes text (document
      [("seed", .null), ("note", .array [.number, .object []]), ("max_cycles", .natural 12)]) := by
    subst text
    exact hspells
  have hrange : InRange { maxCycles := some 12, seed := some none } := by
    intro k n hn
    cases k with
    | maxCycles =>
        cases hn
        decide
    | _ => exact nomatch hn
  have hunknown : ∀ m ∈ [("note", Value.array [.number, .object []])], m.1 ∉ fieldNames :=
    List.forall_mem_singleton.2 (by decide)
  obtain ⟨hread, hconfig, -⟩ := configuration_effective hrange hunknown
    (List.perm_append_comm : ([_, _] ++ [_]).Perm ([_] ++ [_, _])) htext
  have hnothing : ∀ m ∈ ([] : List (String × Value)), m.1 ∉ fieldNames := nofun
  have hreverse : default.fields.members.reverse.Perm (default.fields.members ++ []) := by
    rw [List.append_nil]
    exact List.reverse_perm _
  obtain ⟨-, -, hall⟩ :=
    configuration_effective inRange_default hnothing hreverse (denotes_render _)
  exact ⟨hread, hconfig w _ g rfl, (hall _ rfl).2⟩

end CommandLine

end NibbleArena
