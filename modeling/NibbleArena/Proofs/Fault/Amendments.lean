import Mathlib.Data.List.DropRight
import NibbleArena.Fault

/-! # Amendments — what a fault keeps of its way up

    A fault grows by amendments, in any number and order.  Everything that was said can
    be read off the fault that comes out: the facts in the order in which they were
    noted, and the operations in the order in which they were named, the last one as the
    operation of the fault and the others, under "called", in the context.

    Each amendment adds its own entries behind the context (`context_amend`), so what one
    of them leaves in the context stays in its place under all later ones.  An operation
    is pushed into the context by the one that takes its place; an empty operation stands
    for none and leaves no entry.

    A fact with the key "called" could not be told from an operation that was pushed
    down; the laws of the context hold for amendments without one.

    The status is the last that was set, and used-up attempts count only after that. -/

namespace NibbleArena.Fault

/-- Whether an entry of the context is an operation that was pushed down. -/
def isCalled (entry : String × String) : Bool := entry.1 = "called"

/-- The list with nothing but a named operation; an empty name stands for none. -/
def named (operation : String) : List String := if operation = "" then [] else [operation]

namespace Amendment

/-- The operation that is named. -/
def operation? : Amendment → Option String
  | operation name => some name
  | _ => none

/-- The fact that is noted. -/
def fact? : Amendment → Option (String × String)
  | context key value => some (key, value)
  | _ => none

/-- The status that is set, whatever it was. -/
def status? : Amendment → Option Status
  | status s => some s
  | temporary => some .temporary
  | permanent => some .permanent
  | _ => none

/-- The entries that are added to the context of a fault with this operation. -/
def entries (current : String) : Amendment → List (String × String)
  | operation _ => (named current).map fun name => ("called", name)
  | context key value => [(key, value)]
  | _ => []

end Amendment

/-- The operations that amendments name, in order. -/
def operations (steps : List Amendment) : List String := steps.filterMap Amendment.operation?

/-- The last operation that amendments name; empty if there is none. -/
def lastOperation (steps : List Amendment) : String := (operations steps).getLastD ""

/-- The facts that amendments note, in order. -/
def facts (steps : List Amendment) : List (String × String) := steps.filterMap Amendment.fact?

/-- The last status that amendments set, or else the one before them. -/
def lastStatus (first : Status) (steps : List Amendment) : Status :=
  (steps.filterMap Amendment.status?).getLastD first

/-- The amendments behind the last one that sets the status. -/
def sinceStatus (steps : List Amendment) : List Amendment :=
  steps.rtakeWhile fun a => a.status?.isNone

/-- A new fault after amendments, the first of them first. -/
def amended (kind : Kind) (message : String) (steps : List Amendment) : Fault :=
  steps.foldl amend (new kind message)

variable {kind : Kind} {message : String} {steps : List Amendment} {i : Nat} {v : String}

/-! ## One amendment -/

theorem kind_amend (f : Fault) (a : Amendment) : (f.amend a).kind = f.kind := by
  cases a <;> rfl

theorem message_amend (f : Fault) (a : Amendment) : (f.amend a).message = f.message := by
  cases a <;> rfl

theorem operation_amend (f : Fault) (a : Amendment) :
    (f.amend a).operation = a.operation?.getD f.operation := by
  cases a <;> rfl

/-- An amendment adds its entries behind what is there. -/
theorem context_amend (f : Fault) (a : Amendment) :
    (f.amend a).context = f.context ++ a.entries f.operation := by
  cases a with
  | operation name =>
      show f.context ++ (if f.operation.isEmpty then [] else [("called", f.operation)]) = _
      rw [Amendment.entries, named]
      by_cases hempty : f.operation = ""
      · rw [if_pos hempty, if_pos (String.isEmpty_iff.2 hempty)]
        rfl
      · rw [if_neg hempty, if_neg (mt String.isEmpty_iff.1 hempty)]
        rfl
  | context key value => rfl
  | _ => exact (List.append_nil _).symm

/-! ## All amendments

    The last amendment is the one that decides, so the induction takes the amendments
    from the end. -/

theorem amended_concat (kind : Kind) (message : String) (steps : List Amendment)
    (a : Amendment) :
    amended kind message (steps ++ [a]) = (amended kind message steps).amend a :=
  List.foldl_append

theorem kind_amended (kind : Kind) (message : String) (steps : List Amendment) :
    (amended kind message steps).kind = kind := by
  induction steps using List.reverseRecOn with
  | nil => rfl
  | append_singleton steps a ih => rw [amended_concat, kind_amend, ih]

theorem message_amended (kind : Kind) (message : String) (steps : List Amendment) :
    (amended kind message steps).message = message := by
  induction steps using List.reverseRecOn with
  | nil => rfl
  | append_singleton steps a ih => rw [amended_concat, message_amend, ih]

theorem operations_concat (steps : List Amendment) (a : Amendment) :
    operations (steps ++ [a]) = operations steps ++ a.operation?.toList := by
  rw [operations, List.filterMap_append]
  cases a <;> rfl

theorem facts_concat (steps : List Amendment) (a : Amendment) :
    facts (steps ++ [a]) = facts steps ++ a.fact?.toList := by
  rw [facts, List.filterMap_append]
  cases a <;> rfl

theorem lastOperation_concat (steps : List Amendment) (a : Amendment) :
    lastOperation (steps ++ [a]) = a.operation?.getD (lastOperation steps) := by
  rw [lastOperation, operations_concat]
  cases a.operation? with
  | none => rw [Option.toList_none, List.append_nil]; rfl
  | some name => exact List.getLastD_concat

theorem operation_amended (kind : Kind) (message : String) (steps : List Amendment) :
    (amended kind message steps).operation = lastOperation steps := by
  induction steps using List.reverseRecOn with
  | nil => rfl
  | append_singleton steps a ih => rw [amended_concat, operation_amend, lastOperation_concat, ih]

/-- What an amendment adds to the context after others. -/
theorem context_concat (kind : Kind) (message : String) (steps : List Amendment)
    (a : Amendment) :
    (amended kind message (steps ++ [a])).context
      = (amended kind message steps).context ++ a.entries (lastOperation steps) := by
  rw [amended_concat, context_amend, operation_amended]

/-- Later amendments leave the context as the beginning of a longer one. -/
theorem context_prefix (kind : Kind) (message : String) (before after : List Amendment) :
    (amended kind message before).context <+: (amended kind message (before ++ after)).context := by
  induction after using List.reverseRecOn with
  | nil => exact ⟨[], by rw [List.append_nil, List.append_nil]⟩
  | append_singleton after a ih =>
      rw [← List.append_assoc, context_concat]
      exact ih.trans (List.prefix_append _ _)

/-! ## Facts and operations in the context -/

/-- No fact has the key of an operation that was pushed down. -/
def FactsApart (steps : List Amendment) : Prop :=
  ∀ key value, Amendment.context key value ∈ steps → key ≠ "called"

theorem FactsApart.of_concat {a : Amendment} (h : FactsApart (steps ++ [a])) :
    FactsApart steps :=
  fun key value hmem => h key value (List.mem_append_left _ hmem)

theorem FactsApart.isCalled_last {key value : String}
    (h : FactsApart (steps ++ [.context key value])) : isCalled (key, value) = false :=
  decide_eq_false (h key value (List.mem_append_right _ List.mem_cons_self))

theorem filter_isCalled_pushed (current : String) :
    ((named current).map fun name => ("called", name)).filter isCalled
      = (named current).map fun name => ("called", name) := by
  refine List.filter_eq_self.2 ?_
  intro entry hentry
  obtain ⟨name, -, rfl⟩ := List.mem_map.1 hentry
  rfl

theorem filter_fact_pushed (current : String) :
    ((named current).map fun name => ("called", name)).filter (!isCalled ·) = [] := by
  refine List.filter_eq_nil_iff.2 ?_
  intro entry hentry
  obtain ⟨name, -, rfl⟩ := List.mem_map.1 hentry
  exact Bool.false_ne_true

/-- The facts stand in the context in the order in which they were noted. -/
theorem facts_amended (h : FactsApart steps) :
    (amended kind message steps).context.filter (!isCalled ·) = facts steps := by
  induction steps using List.reverseRecOn with
  | nil => rfl
  | append_singleton steps a ih =>
      rw [context_concat, List.filter_append, ih h.of_concat, facts_concat]
      congr 1
      cases a with
      | operation name => exact filter_fact_pushed (lastOperation steps)
      | context key value =>
          have hkey : (!isCalled (key, value)) = true := by rw [h.isCalled_last]; rfl
          exact List.filter_cons_of_pos hkey
      | _ => rfl

theorem filter_named (name : String) : [name].filter (· ≠ "") = named name := by
  rw [named]
  by_cases hname : name = ""
  · rw [if_pos hname, hname]
    rfl
  · rw [if_neg hname]
    have hkept : decide (name ≠ "") = true := decide_eq_true hname
    exact List.filter_cons_of_pos hkept

/-- The operations that were pushed down and the current one are all that were named. -/
theorem operations_amended (h : FactsApart steps) :
    ((amended kind message steps).context.filter isCalled).map Prod.snd
        ++ named (lastOperation steps)
      = (operations steps).filter (· ≠ "") := by
  induction steps using List.reverseRecOn with
  | nil => rfl
  | append_singleton steps a ih =>
      rw [context_concat, List.filter_append, List.map_append, operations_concat,
        List.filter_append, ← ih h.of_concat, lastOperation_concat]
      cases a with
      | operation name =>
          -- the operation before becomes an entry, and the new one takes its place
          have hpushed : (((Amendment.operation name).entries (lastOperation steps)).filter
              isCalled).map Prod.snd = named (lastOperation steps) := by
            show ((((named (lastOperation steps)).map _).filter isCalled).map Prod.snd) = _
            rw [filter_isCalled_pushed, List.map_map]
            exact List.map_id _
          rw [hpushed]
          exact congrArg _ (filter_named name).symm
      | context key value =>
          have hnone : ((Amendment.context key value).entries (lastOperation steps)).filter
              isCalled = [] := by
            refine List.filter_cons_of_neg ?_
            rw [h.isCalled_last]
            exact Bool.false_ne_true
          rw [hnone, List.map_nil, List.append_nil]
          exact (List.append_nil _).symm
      | _ =>
          show (_ ++ []) ++ _ = _ ++ []
          rw [List.append_nil, List.append_nil]
          rfl

/-- An operation is pushed down as the only entry of its amendment, and only if it has a
    name. -/
theorem getElem?_pushed {current : String} {j : Nat} :
    ((named current).map fun name => ("called", name))[j]? = some ("called", v)
      ↔ current = v ∧ v ≠ "" ∧ j = 0 := by
  rw [named]
  by_cases hempty : current = ""
  · rw [if_pos hempty]
    refine iff_of_false nofun ?_
    rintro ⟨rfl, hv, -⟩
    exact hv hempty
  · rw [if_neg hempty]
    cases j with
    | zero =>
        constructor
        · intro h
          have hv : current = v := (Prod.mk.inj (Option.some.inj h)).2
          exact ⟨hv, hv ▸ hempty, rfl⟩
        · rintro ⟨rfl, -, -⟩
          rfl
    | succ j =>
        refine iff_of_false nofun ?_
        rintro ⟨-, -, hj⟩
        exact Nat.succ_ne_zero j hj

/-- The entries that were pushed down stand where the operation that took their place was
    named. -/
theorem called_amended_iff (h : FactsApart steps) :
    (amended kind message steps).context[i]? = some ("called", v)
      ↔ ∃ before name after, steps = before ++ .operation name :: after
        ∧ lastOperation before = v ∧ v ≠ ""
        ∧ (amended kind message before).context.length = i := by
  constructor
  · intro hentry
    induction steps using List.reverseRecOn with
    | nil => exact nomatch hentry
    | append_singleton steps a ih =>
        rw [context_concat] at hentry
        rcases Nat.lt_or_ge i (amended kind message steps).context.length with hlt | hge
        · rw [List.getElem?_append_left hlt] at hentry
          obtain ⟨before, name, after, rfl, hrest⟩ := ih h.of_concat hentry
          exact ⟨before, name, after ++ [a], by rw [List.append_assoc]; rfl, hrest⟩
        · rw [List.getElem?_append_right hge] at hentry
          cases a with
          | operation name =>
              obtain ⟨hv, hne, hzero⟩ := getElem?_pushed.1 hentry
              exact ⟨steps, name, [], rfl, hv, hne, by omega⟩
          | context key value =>
              -- the only entry is a fact, and those have other keys
              have hmem := List.mem_of_getElem? hentry
              have hkey := (Prod.mk.inj (List.mem_singleton.1 hmem)).1
              exact absurd hkey.symm (h key value (List.mem_append_right _ List.mem_cons_self))
          | _ => exact nomatch hentry
  · rintro ⟨before, name, after, rfl, hv, hne, rfl⟩
    obtain ⟨more, hmore⟩ := context_prefix kind message (before ++ [.operation name]) after
    rw [List.append_assoc, context_concat, List.append_assoc] at hmore
    have hentry := getElem?_pushed.2 ⟨hv, hne, rfl⟩
    obtain ⟨hlength, -⟩ := List.getElem?_eq_some_iff.1 hentry
    show (amended kind message (before ++ ([.operation name] ++ after))).context[_]? = _
    rw [← hmore, List.getElem?_append_right (Nat.le_refl _), Nat.sub_self]
    exact (List.getElem?_append_left hlength).trans hentry

/-! ## The status -/

theorem lastStatus_concat (first : Status) (steps : List Amendment) (a : Amendment) :
    lastStatus first (steps ++ [a]) = a.status?.getD (lastStatus first steps) := by
  rw [lastStatus, List.filterMap_append]
  cases a with
  | status s => exact List.getLastD_concat
  | temporary => exact List.getLastD_concat
  | permanent => exact List.getLastD_concat
  | _ => exact congrArg (List.getLastD · first) (List.append_nil _)

theorem sinceStatus_concat_set {a : Amendment} {s : Status} (h : a.status? = some s) :
    sinceStatus (steps ++ [a]) = [] := by
  refine List.rtakeWhile_concat_neg _ _ _ ?_
  rw [h]
  exact Bool.false_ne_true

theorem sinceStatus_concat_kept {a : Amendment} (h : a.status? = none) :
    sinceStatus (steps ++ [a]) = sinceStatus steps ++ [a] := by
  refine List.rtakeWhile_concat_pos _ _ _ ?_
  rw [h]
  rfl

theorem status_amend_set {f : Fault} {a : Amendment} {s : Status} (h : a.status? = some s) :
    (f.amend a).status = s := by
  cases a with
  | status _ => exact Option.some.inj h
  | temporary => exact Option.some.inj h
  | permanent => exact Option.some.inj h
  | _ => exact nomatch h

theorem status_amend_kept {f : Fault} {a : Amendment} (h : a.status? = none)
    (hne : a ≠ .persist) : (f.amend a).status = f.status := by
  cases a with
  | operation name => rfl
  | context key value => rfl
  | source causes => rfl
  | persist => exact absurd rfl hne
  | _ => exact nomatch h

theorem Status.persist_persist (s : Status) : s.persist.persist = s.persist := by
  cases s <;> rfl

theorem Status.persist_eq (s : Status) :
    s.persist = if s = .temporary then .persistent else s := by
  cases s <;> rfl

/-- The status is the one set last, marked as used up if the attempts were used up after
    that. -/
theorem status_amended (kind : Kind) (message : String) (steps : List Amendment) :
    (amended kind message steps).status
      = if .persist ∈ sinceStatus steps
        then (lastStatus kind.firstStatus steps).persist
        else lastStatus kind.firstStatus steps := by
  induction steps using List.reverseRecOn with
  | nil => rfl
  | append_singleton steps a ih =>
      rw [amended_concat, lastStatus_concat]
      cases hset : a.status? with
      | some s =>
          rw [sinceStatus_concat_set hset, if_neg List.not_mem_nil, status_amend_set hset]
          rfl
      | none =>
          rw [sinceStatus_concat_kept hset]
          by_cases hlast : a = .persist
          · have hmem : Amendment.persist ∈ sinceStatus steps ++ [a] :=
              List.mem_append_right _ (List.mem_singleton.2 hlast.symm)
            rw [if_pos hmem, hlast]
            show (amended kind message steps).status.persist
              = (lastStatus kind.firstStatus steps).persist
            rw [ih]
            split
            · exact Status.persist_persist _
            · rfl
          · have hmem : Amendment.persist ∈ sinceStatus steps ++ [a]
                ↔ Amendment.persist ∈ sinceStatus steps := by
              rw [List.mem_append, List.mem_singleton, or_iff_left (Ne.symm hlast)]
            rw [status_amend_kept hset hlast, ih]
            simp only [hmem]
            rfl

theorem isRetryable_iff (f : Fault) : f.isRetryable = true ↔ f.status = .temporary := by
  show f.status.isRetryable = true ↔ f.status = .temporary
  cases f.status <;> decide

/-- **Nothing is lost on the way up.**  After any amendments, none of them a fact with the
    key "called", a fault has the kind and the message it began with and the operation
    named last.  The facts are in its context in the order in which they were noted; the
    operations pushed down there, and the current one behind them, are all operations
    with a name, in order.  An operation is pushed down by the one named next, to the end
    of the context as it was then.  The status is the last one that was set, `persistent`
    in the place of `temporary` if the attempts were used up after that. -/
theorem amendments_kept (kind : Kind) (message : String) {steps : List Amendment}
    (h : FactsApart steps) :
    (amended kind message steps).kind = kind
    ∧ (amended kind message steps).message = message
    ∧ (amended kind message steps).operation = lastOperation steps
    ∧ (amended kind message steps).context.filter (!isCalled ·) = facts steps
    ∧ ((amended kind message steps).context.filter isCalled).map Prod.snd
        ++ named (amended kind message steps).operation
      = (operations steps).filter (· ≠ "")
    ∧ (∀ i v, (amended kind message steps).context[i]? = some ("called", v)
      ↔ ∃ before name after, steps = before ++ .operation name :: after
        ∧ lastOperation before = v ∧ v ≠ ""
        ∧ (amended kind message before).context.length = i)
    ∧ (∀ before after, steps = before ++ after →
      (amended kind message before).context <+: (amended kind message steps).context)
    ∧ (amended kind message steps).status
      = (if .persist ∈ sinceStatus steps ∧ lastStatus (new kind message).status steps = .temporary
        then .persistent
        else lastStatus (new kind message).status steps)
    ∧ ((amended kind message steps).isRetryable = true
      ↔ (amended kind message steps).status = .temporary) := by
  refine ⟨kind_amended kind message steps, message_amended kind message steps,
    operation_amended kind message steps, facts_amended h, ?_, ?_, ?_, ?_, isRetryable_iff _⟩
  · rw [operation_amended]
    exact operations_amended h
  · intro i v
    exact called_amended_iff h
  · rintro before after rfl
    exact context_prefix kind message before after
  · rw [status_amended, Status.persist_eq, ite_and]
    rfl

/-- An operation named twice, one without a name in between, and attempts that are used up
    both before and after the status was set. -/
theorem amendments_kept_retried :
    let steps : List Amendment :=
      [.operation "read", .persist, .operation "", .context "path" "a.ag", .operation "open",
        .temporary, .source ["gone"], .operation "open", .persist, .operation "run"]
    FactsApart steps
      ∧ (amended .ioFailed "no such file" steps).operation = "run"
      ∧ (amended .ioFailed "no such file" steps).context.filter (!isCalled ·)
        = [("path", "a.ag")]
      ∧ (amended .ioFailed "no such file" steps).context[0]? = some ("called", "read")
      ∧ (amended .ioFailed "no such file" steps).status = .persistent := by
  intro steps
  have happart : FactsApart steps := by
    intro key value hmem
    have hkey : key = "path" ∧ value = "a.ag" := by simpa [steps] using hmem
    rw [hkey.1]
    decide
  obtain ⟨-, -, hoperation, hfacts, -, hcalled, -, hstatus, -⟩ :=
    amendments_kept .ioFailed "no such file" happart
  have hfirst :=
    (hcalled 0 "read").2 ⟨[.operation "read", .persist], "", _, rfl, rfl, by decide, rfl⟩
  refine ⟨happart, hoperation, hfacts, hfirst, hstatus.trans ?_⟩
  decide

end NibbleArena.Fault
