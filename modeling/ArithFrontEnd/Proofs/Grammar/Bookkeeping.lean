import ArithFrontEnd.Grammar.Ledger
import ArithFrontEnd.Proofs.Grammar.WellFormed
import Mathlib.Data.List.Basic

/-!
# Ledgers keep definitions

The ledger of a definition has the symbols and the rules under the numbers of their places, and what
is given next is the number of the next place.  A declaration does to the ledger of a definition
what it does to the definition: it gives the same answer and leaves the ledger of the definition
that comes out, and when it is refused, it is so for the same reason, and it has not written
anything yet.  So every ledger that comes from declarations is that of a definition.

## Main definitions

* `Entries.numbered` — contents under the numbers of their places.
* `Definition.ledger` — the ledger that keeps a definition.
* `Ledger.outcome` — how a declaration ends on the ledger of a definition.

## Main results

* `Ledger.run_declareTerminal`, `Ledger.run_declareNonterminal`, `Ledger.run_markInherited`,
  `Ledger.run_declareRule`, `Ledger.run_setStart` — the declarations, one by one.
* `Ledger.perform_ledger`, `Ledger.performAll_initial` — **a ledger keeps the definition that its
  history of declarations gives.**
* `Grammar.isDefined_iff_ledger` — the grammars that come from ledgers are those that can be
  defined.
-/

namespace ArithFrontEnd

/-! ### Entries in order -/

namespace Entries

variable {α : Type} {es : Entries α} {xs : List α} {a : α} {first id : Nat}

/-- Contents in order, under the numbers from the first one on. -/
def numbered (first : Nat) (xs : List α) : Entries α := (List.range' first xs.length).zip xs

theorem numbers_numbered : (numbered first xs).numbers = List.range' first xs.length :=
  List.map_fst_zip (Nat.le_of_eq List.length_range')

theorem contents_numbered : (numbered first xs).contents = xs :=
  List.map_snd_zip (Nat.le_of_eq List.length_range'.symm)

theorem numbered_append (ys : List α) :
    numbered first (xs ++ ys) = numbered first xs ++ numbered (first + xs.length) ys := by
  rw [numbered, List.length_append, ← List.range'_append_1, List.zip_append List.length_range']
  rfl

theorem numbered_isPrefix {ys : List α} (h : xs <+: ys) :
    numbered first xs <+: numbered first ys := by
  obtain ⟨zs, rfl⟩ := h
  exact numbered_append zs ▸ List.prefix_append _ _

/-- What is last is under the number of its place. -/
theorem mem_numbered_concat : (xs.length, a) ∈ numbered 0 (xs ++ [a]) := by
  rw [numbered_append, Nat.zero_add]
  exact List.mem_append_right _ (List.mem_singleton_self _)

theorem map_numbered {β : Type} (f : α → β) :
    (numbered first xs).map (fun e => (e.1, f e.2)) = numbered first (xs.map f) := by
  rw [numbered, numbered, List.zip_map_right, List.length_map]
  rfl

theorem has_iff : es.has id = true ↔ id ∈ es.numbers := by
  simp [has, numbers]

theorem has_numbered : (numbered 0 xs).has id = decide (id < xs.length) := by
  rw [Bool.eq_iff_iff, has_iff, numbers_numbered, List.mem_range'_1]
  simp

/-- What is entered under the number of the next place comes last. -/
theorem enter_numbered : (numbered 0 xs).enter xs.length a = numbered 0 (xs ++ [a]) := by
  rw [enter, has_numbered, numbered_append, Nat.zero_add]
  simp [numbered]

/-- What is changed under a number is changed at its place. -/
theorem change_numbered {f : α → α} :
    (numbered 0 xs).change id f = numbered 0 (xs.modify id f) := by
  refine List.ext_getElem (by simp [numbered, change]) fun i _ _ => ?_
  simp only [change, numbered, List.getElem_map, List.getElem_zip, List.getElem_range',
    List.getElem_modify]
  grind

end Entries

namespace Definition

variable {d : Definition}

/-- The ledger of a definition. -/
def ledger (d : Definition) : Ledger where
  terminals := .numbered 0 d.terminalNames
  nonterminals := .numbered 0 d.nonterminals
  rules := .numbered 0 d.rules
  start := d.start
  nextTerminal := d.terminalNames.length
  nextNonterminal := d.nonterminals.length
  nextRule := d.rules.length

theorem empty_ledger : empty.ledger = .initial := rfl

/-- The reserved terminals come first. -/
theorem terminals_ledger (d : Definition) : d.ledger.terminals =
    Entries.numbered 0 Vocabulary.reservedNames ++
      Entries.numbered TerminalId.reserved d.terminals :=
  Entries.numbered_append _

theorem contents_rules_ledger (d : Definition) : d.ledger.rules.contents = d.rules :=
  Entries.contents_numbered

theorem has_terminals_ledger {t : TerminalId} : d.ledger.terminals.has t = d.hasTerminal t :=
  Entries.has_numbered

theorem has_nonterminals_ledger {n : NonterminalId} :
    d.ledger.nonterminals.has n = d.hasNonterminal n :=
  Entries.has_numbered

theorem terminalNames_concat (d : Definition) (name : String) :
    Vocabulary.terminalNames ⟨d.terminals ++ [name], d.nonterminals⟩ = d.terminalNames ++ [name] :=
  (List.append_assoc _ _ _).symm

theorem ledger_terminal (name : String) :
    ledger { d with terminals := d.terminals ++ [name] } =
      { d.ledger with
        terminals := d.ledger.terminals.enter d.terminalNames.length name
        nextTerminal := d.terminalNames.length + 1 } := by
  simp only [ledger, terminalNames_concat, Entries.enter_numbered, List.length_append,
    List.length_singleton]

theorem ledger_nonterminal (nonterminal : Nonterminal) :
    ledger { d with nonterminals := d.nonterminals ++ [nonterminal] } =
      { d.ledger with
        nonterminals := d.ledger.nonterminals.enter d.nonterminals.length nonterminal
        nextNonterminal := d.nonterminals.length + 1 } := by
  simp only [ledger, Vocabulary.terminalNames, Entries.enter_numbered, List.length_append,
    List.length_singleton]

theorem ledger_inherited (n : NonterminalId) (f : Nonterminal → Nonterminal) :
    ledger { d with nonterminals := d.nonterminals.modify n f } =
      { d.ledger with nonterminals := d.ledger.nonterminals.change n f } := by
  simp only [ledger, Vocabulary.terminalNames, Entries.change_numbered, List.length_modify]

theorem ledger_rule (rule : Rule) :
    ledger { d with rules := d.rules ++ [rule] } =
      { d.ledger with
        rules := d.ledger.rules.enter d.rules.length rule
        nextRule := d.rules.length + 1 } := by
  simp only [ledger, Entries.enter_numbered, List.length_append, List.length_singleton]

end Definition

namespace Ledger

variable {d : Definition} {α : Type}

/-! ### What is looked up -/

/-- Refuse for this reason, if there is one. -/
def refuse : Option DefinitionError → Keeping Unit
  | some e => throw e
  | none => pure ()

/-- Checks that are made one after another refuse for the first reason that one of them has. -/
theorem run_forM {l : Ledger} {check : α → Keeping Unit} {error? : α → Option DefinitionError}
    (h : ∀ a, (check a).run l = (refuse (error? a)).run l) (xs : List α) :
    (xs.forM check).run l = (refuse (xs.findSome? error?)).run l := by
  induction xs with
  | nil => rfl
  | cons a xs ih =>
    rw [List.forM_eq_forM, List.forM_cons, EStateM.run_bind, h, List.findSome?_cons]
    cases error? a with
    | some e => rfl
    | none => exact ih

theorem run_verifyName (name : String) :
    (verifyName name).run d.ledger = (refuse (d.nameError? name)).run d.ledger := by
  have hterminals : d.ledger.terminals.contents = d.terminalNames := Entries.contents_numbered
  have hnonterminals : d.ledger.nonterminals.contents.any (·.name == name) =
      d.nonterminalNames.contains name := by
    rw [Definition.ledger, Entries.contents_numbered, Vocabulary.nonterminalNames,
      List.contains_eq_any_beq, List.any_map]
    exact congrArg d.nonterminals.any (funext fun _ => BEq.comm)
  rw [verifyName, Definition.nameError?, EStateM.run_bind, EStateM.run_get]
  dsimp only
  rw [hterminals, hnonterminals]
  split
  · rfl
  · split
    · rfl
    · split <;> rfl

theorem run_verifySymbol (s : GrammarSymbol) :
    (verifySymbol s).run d.ledger = (refuse (d.symbolError? s)).run d.ledger := by
  cases s with
  | terminal t =>
    have htwo : ∀ n : Nat, n = 0 ∨ n = 1 ↔ n < 2 := by omega
    have hreserved : t = TerminalId.endOfInput ∨ t = TerminalId.unknown ↔
        t < TerminalId.reserved := htwo t
    simp only [verifySymbol, Definition.symbolError?, hreserved]
    split
    · rfl
    · simp only [EStateM.run_bind, EStateM.run_get, Definition.has_terminals_ledger]
      cases d.hasTerminal t <;> rfl
  | nonterminal n =>
    simp only [verifySymbol, Definition.symbolError?, EStateM.run_bind, EStateM.run_get,
      Definition.has_nonterminals_ledger]
    cases d.hasNonterminal n <;> rfl
  | action a => rfl

/-- A rule is refused if it is among those that have been declared. -/
theorem run_verifyNew {l : Ledger} (rule : Rule) (rules : List Rule) :
    (rules.forM (verifyNew rule)).run l =
      (refuse (if rules.contains rule then some .duplicateRule else none)).run l := by
  have hstep (other : Rule) : (verifyNew rule other).run l =
      (refuse (if other = rule then some .duplicateRule else none)).run l := by
    have hsame : other.left = rule.left ∧ other.right = rule.right ↔ other = rule := by
      cases other
      cases rule
      simp
    rw [verifyNew, if_congr hsame rfl rfl]
    split <;> rfl
  rw [run_forM hstep]
  congr 2
  induction rules with
  | nil => rfl
  | cons other rules ih =>
    rw [List.findSome?_cons, List.contains_cons, ih]
    by_cases heq : other = rule
    · simp [heq]
    · simp [heq, Ne.symm heq]

theorem run_following {l : Ledger} (id : Nat) (e : DefinitionError) :
    (following id e).run l = if id < Definition.maxId then .ok (id + 1) l else .error e l := by
  rw [following]
  split <;> rfl

/-! ### What is written -/

/-- How a declaration ends on the ledger of a definition, where it gives this on the definition: a
refusal leaves the ledger as it was. -/
def outcome (d : Definition) :
    Except DefinitionError (α × Definition) → EStateM.Result DefinitionError Ledger α
  | .ok (a, d') => .ok a d'.ledger
  | .error e => .error e d.ledger

theorem run_declareTerminal (name : String) :
    (declareTerminal name).run d.ledger = outcome d (d.declareTerminal name) := by
  have hnext : d.ledger.nextTerminal = d.terminalNames.length := rfl
  rw [declareTerminal, Definition.declareTerminal, EStateM.run_bind, run_verifyName]
  cases d.nameError? name with
  | some e => rfl
  | none =>
    simp only [refuse, EStateM.run_pure, EStateM.run_bind, EStateM.run_get, run_following, hnext]
    by_cases hlt : d.terminalNames.length < Definition.maxId
    · rw [if_pos hlt, if_pos hlt, outcome, Definition.ledger_terminal]
      rfl
    · rw [if_neg hlt, if_neg hlt, outcome]

theorem run_declareNonterminal (name : String) :
    (declareNonterminal name).run d.ledger = outcome d (d.declareNonterminal name) := by
  have hnext : d.ledger.nextNonterminal = d.nonterminals.length := rfl
  rw [declareNonterminal, Definition.declareNonterminal, EStateM.run_bind, run_verifyName]
  cases d.nameError? name with
  | some e => rfl
  | none =>
    simp only [refuse, EStateM.run_pure, EStateM.run_bind, EStateM.run_get, run_following, hnext]
    by_cases hlt : d.nonterminals.length < Definition.maxId
    · rw [if_pos hlt, if_pos hlt, outcome, Definition.ledger_nonterminal]
      rfl
    · rw [if_neg hlt, if_neg hlt, outcome]

theorem run_markInherited (n : NonterminalId) :
    (markInherited n).run d.ledger = outcome d ((d.markInherited n).map fun d' => ((), d')) := by
  simp only [markInherited, Definition.markInherited, EStateM.run_bind, EStateM.run_get,
    Definition.has_nonterminals_ledger]
  cases d.hasNonterminal n with
  | false => rfl
  | true =>
    simp only [if_true, Except.map, outcome, Definition.ledger_inherited]
    rfl

theorem run_setStart (n : NonterminalId) :
    (setStart n).run d.ledger = outcome d ((d.setStart n).map fun d' => ((), d')) := by
  simp only [setStart, Definition.setStart, EStateM.run_bind, EStateM.run_get,
    Definition.has_nonterminals_ledger]
  cases d.hasNonterminal n <;> rfl

theorem run_declareRule (rule : Rule) :
    (declareRule rule).run d.ledger = outcome d (d.declareRule rule) := by
  have hnext : d.ledger.nextRule = d.rules.length := rfl
  simp only [declareRule, Definition.declareRule, Definition.ruleError?, EStateM.run_bind,
    EStateM.run_get, Definition.has_nonterminals_ledger]
  cases d.hasNonterminal rule.left with
  | false => rfl
  | true =>
    simp only [if_true]
    rw [EStateM.run_bind, run_forM run_verifySymbol]
    cases rule.right.findSome? d.symbolError? with
    | some e => rfl
    | none =>
      rw [refuse, EStateM.run_pure]
      simp only [EStateM.run_bind, EStateM.run_get, d.contents_rules_ledger, run_verifyNew]
      cases d.rules.contains rule with
      | true => rfl
      | false =>
        simp only [Bool.false_eq_true, if_false, refuse, EStateM.run_pure, run_following, hnext]
        by_cases hlt : d.rules.length < Definition.maxId
        · simp only [if_pos hlt, outcome, Definition.ledger_rule]
          rfl
        · simp only [if_neg hlt, outcome]

theorem run_declare (declaration : Declaration) :
    (declare declaration).run d.ledger = outcome d (d.declare declaration) := by
  cases declaration with
  | terminal name =>
    rw [declare, Definition.declare, EStateM.run_bind, run_declareTerminal]
    cases d.declareTerminal name <;> rfl
  | nonterminal name =>
    rw [declare, Definition.declare, EStateM.run_bind, run_declareNonterminal]
    cases d.declareNonterminal name <;> rfl
  | inherited n =>
    rw [declare, Definition.declare, EStateM.run_bind, run_markInherited]
    cases d.markInherited n <;> rfl
  | rule left right =>
    rw [declare, Definition.declare, EStateM.run_bind, run_declareRule]
    cases d.declareRule ⟨left, right⟩ <;> rfl
  | start n =>
    rw [declare, Definition.declare, EStateM.run_bind, run_setStart]
    cases d.setStart n <;> rfl
  | clear => rfl

/-! ### Histories -/

theorem perform_ledger (d : Definition) (declaration : Declaration) :
    d.ledger.perform declaration =
      ((d.perform declaration).1.ledger, (d.perform declaration).2) := by
  rw [perform, Definition.perform, run_declare]
  cases d.declare declaration <;> rfl

theorem performAll_ledger (d : Definition) (history : List Declaration) :
    d.ledger.performAll history = (d.performAll history).ledger := by
  induction history generalizing d with
  | nil => rfl
  | cons declaration history ih =>
    have hstep : (d.ledger.perform declaration).1 = (d.perform declaration).1.ledger :=
      congrArg Prod.fst (perform_ledger d declaration)
    rw [performAll, List.foldl_cons, hstep]
    exact ih (d.perform declaration).1

/-- The ledger after a history is that of the definition after it. -/
theorem performAll_initial (history : List Declaration) :
    initial.performAll history = (Definition.empty.performAll history).ledger := by
  rw [← Definition.empty_ledger, performAll_ledger]

/-- The ledger of a definition gives the grammar of the definition. -/
theorem finish_ledger (d : Definition) : d.ledger.finish = d.finish := by
  have hdeclared : ∀ e ∈ Entries.numbered TerminalId.reserved d.terminals,
      decide (TerminalId.reserved ≤ e.1) = true := fun e he =>
    decide_eq_true (List.mem_range'_1.1 (List.of_mem_zip he).1).1
  have hterminals : d.ledger.terminals.filter (TerminalId.reserved ≤ ·.1) =
      Entries.numbered TerminalId.reserved d.terminals := by
    rw [d.terminals_ledger, List.filter_append, List.filter_eq_self.2 hdeclared]
    rfl
  have hnonterminals : d.ledger.nonterminals.contents = d.nonterminals := Entries.contents_numbered
  have hvocabulary : Vocabulary.mk
      (Entries.contents (d.ledger.terminals.filter (TerminalId.reserved ≤ ·.1)))
      d.ledger.nonterminals.contents = d.toVocabulary := by
    rw [hterminals, Entries.contents_numbered, hnonterminals]
  have hstart : d.ledger.start = d.start := rfl
  unfold finish Definition.finish
  rw [d.contents_rules_ledger, hstart]
  cases d.start <|> d.rules.head?.map (·.left) with
  | none => rfl
  | some start => exact congrArg (fun v => Except.ok (Grammar.mk v d.rules start)) hvocabulary

end Ledger

/-- A grammar can be defined if a ledger gives it. -/
theorem Grammar.isDefined_iff_ledger {g : Grammar} :
    g.IsDefined ↔ ∃ history, (Ledger.initial.performAll history).finish = .ok g := by
  simp only [IsDefined, Ledger.performAll_initial, Ledger.finish_ledger]

end ArithFrontEnd
