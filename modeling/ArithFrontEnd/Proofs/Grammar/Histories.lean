import ArithFrontEnd.Proofs.Grammar.Bookkeeping
import ArithFrontEnd.Proofs.Grammar.Loading

/-!
# Histories of declarations

Whatever is declared, in whatever order, a ledger stays in order.  Every symbol has a name of its
own, every rule is made of declared symbols and is there once, and the numbers of what is there are
those that have been handed out since all declarations became void for the last time.  Whether a
declaration is accepted can be read off the ledger, and one that is refused leaves no trace.

## Main definitions

* `Ledger.Sound` — names are those of one symbol each, and rules are made of declared symbols.
* `Ledger.answers`, `Declaration.Kind.handedOut` — what has been answered, and the numbers in it.
* `Ledger.Allows`, `Ledger.Holds` — when a declaration is accepted, and what is there afterwards.
* `Ledger.Retains` — nothing is lost or renumbered.
* `Ledger.InOrder` — all of this.

## Main results

* `Definition.Accepts.tidy`, `Definition.Accepts.range_count`, `Definition.Accepts.grows` — what one
  declaration does to names, numbers and everything else.
* `Ledger.performAll_inOrder` — **a ledger is in order after every history of declarations.**
-/

namespace ArithFrontEnd

open GrammarText

namespace Declaration

/-- What declarations give numbers to. -/
inductive Kind
  /-- Terminals. -/
  | terminal
  /-- Nonterminals. -/
  | nonterminal
  /-- Rules. -/
  | rule
  deriving DecidableEq, Repr

/-- What a declaration gives a number to. -/
def kind? : Declaration → Option Kind
  | .terminal _ => some .terminal
  | .nonterminal _ => some .nonterminal
  | .rule _ _ => some .rule
  | _ => none

/-- A declaration with what has been answered to it. -/
abbrev Answered := Declaration × Except DefinitionError Answer

namespace Kind

/-- The numbers that are there without declaration. -/
def reserved : Kind → List Nat
  | .terminal => [TerminalId.endOfInput, TerminalId.unknown]
  | _ => []

/-- The number that an answer hands out for this kind. -/
def number? (kind : Kind) : Answered → Option Nat
  | (declaration, .ok (.number id)) => if declaration.kind? = some kind then some id else none
  | _ => none

/-- The numbers that have been handed out, after one more answer. -/
def handOut (kind : Kind) (ids : List Nat) (a : Answered) : List Nat :=
  if a.1 = .clear then [] else ids ++ (kind.number? a).toList

/-- The numbers that have been handed out since all declarations became void for the last time. -/
def handedOut (kind : Kind) (answers : List Answered) : List Nat := answers.foldl kind.handOut []

end Kind

end Declaration

namespace Ledger

/-- The names of all symbols, the reserved terminals among them. -/
def names (l : Ledger) : List String :=
  l.terminals.contents ++ l.nonterminals.contents.map (·.name)

/-- The numbers of a kind that have an entry. -/
def numbers (l : Ledger) : Declaration.Kind → List Nat
  | .terminal => l.terminals.numbers
  | .nonterminal => l.nonterminals.numbers
  | .rule => l.rules.numbers

/-- The symbol has been declared. The reserved terminals have not; any action may be used. -/
def Declares (l : Ledger) : GrammarSymbol → Prop
  | .terminal t => t ∈ l.terminals.numbers ∧ t ≠ TerminalId.endOfInput ∧ t ≠ TerminalId.unknown
  | .nonterminal n => n ∈ l.nonterminals.numbers
  | .action _ => True

/-- Every name is that of one symbol, every rule is there once, and rules and the start symbol are
made of declared symbols. -/
structure Sound (l : Ledger) : Prop where
  /-- The reserved terminals are there. -/
  reserved : [(TerminalId.endOfInput, "#"), (TerminalId.unknown, "$unknown")] <+: l.terminals
  /-- No name is that of two symbols. -/
  nodup_names : l.names.Nodup
  /-- Names are not empty and hold no blank. -/
  isName : ∀ name ∈ l.names, IsName name
  /-- The left-hand side of a rule is declared. -/
  left : ∀ rule ∈ l.rules.contents, l.Declares (.nonterminal rule.left)
  /-- The symbols of a right-hand side are declared. -/
  right : ∀ rule ∈ l.rules.contents, ∀ s ∈ rule.right, l.Declares s
  /-- No rule is there twice. -/
  nodup_rules : l.rules.contents.Nodup
  /-- The start symbol is declared. -/
  start : ∀ n ∈ l.start, l.Declares (.nonterminal n)

/-- The declarations of a history with what is answered to them. -/
def answers (l : Ledger) : List Declaration → List Declaration.Answered
  | [] => []
  | declaration :: history =>
    (declaration, (l.perform declaration).2) :: (l.perform declaration).1.answers history

/-- The declaration makes sense: a symbol needs a new name, a rule needs declared symbols and must
not be there, and both need a number. -/
def Allows (l : Ledger) : Declaration → Prop
  | .terminal name => IsName name ∧ name ∉ l.names ∧ l.nextTerminal < Definition.maxId
  | .nonterminal name => IsName name ∧ name ∉ l.names ∧ l.nextNonterminal < Definition.maxId
  | .inherited n => l.Declares (.nonterminal n)
  | .rule left right => l.Declares (.nonterminal left) ∧ (∀ s ∈ right, l.Declares s) ∧
      ⟨left, right⟩ ∉ l.rules.contents ∧ l.nextRule < Definition.maxId
  | .start n => l.Declares (.nonterminal n)
  | .clear => True

/-- What has been declared is there under the number. -/
def Holds (l : Ledger) (id : Nat) : Declaration → Prop
  | .terminal name => (id, name) ∈ l.terminals
  | .nonterminal name => (id, ⟨name, false⟩) ∈ l.nonterminals
  | .rule left right => (id, ⟨left, right⟩) ∈ l.rules
  | _ => False

/-- What is there stays where it is. Only whether a nonterminal inherits may change. -/
structure Retains (l l' : Ledger) : Prop where
  /-- Terminals keep their numbers and names. -/
  terminals : l.terminals <+: l'.terminals
  /-- Nonterminals keep their numbers and names. -/
  nonterminals : l.nonterminals.map (fun e => (e.1, e.2.name)) <+:
    l'.nonterminals.map fun e => (e.1, e.2.name)
  /-- Rules keep their numbers and both sides. -/
  rules : l.rules <+: l'.rules

/-- The ledger is in order after a history. -/
structure InOrder (l : Ledger) (history : List Declaration) : Prop where
  /-- Names are those of one symbol each, and rules are made of declared symbols. -/
  sound : l.Sound
  /-- The numbers that have entries are those that have been handed out, and the reserved ones. -/
  numbers_eq (kind : Declaration.Kind) :
    l.numbers kind = kind.reserved ++ kind.handedOut (initial.answers history)
  /-- They are consecutive. -/
  consecutive (kind : Declaration.Kind) : ∃ n, l.numbers kind = List.range n
  /-- A declaration that makes sense is accepted, and no other one. -/
  accepts_iff (declaration : Declaration) :
    (∃ answer, (l.perform declaration).2 = .ok answer) ↔ l.Allows declaration
  /-- The number that is answered is that of what has been declared. -/
  holds (declaration : Declaration) (id : Nat) :
    (l.perform declaration).2 = .ok (.number id) → (l.perform declaration).1.Holds id declaration
  /-- A declaration that is refused changes nothing. -/
  refused (declaration : Declaration) (e : DefinitionError) :
    (l.perform declaration).2 = .error e → (l.perform declaration).1 = l
  /-- Nothing that is there changes, as long as it does not become void. -/
  retains (later : List Declaration) : .clear ∉ later → l.Retains (l.performAll later)
  /-- There is a grammar if there is a start symbol or a rule. -/
  finish_iff : (∃ g, l.finish = .ok g) ↔ l.start ≠ none ∨ l.rules ≠ []
  /-- The start symbol of the grammar is declared. -/
  finish_start (g : Grammar) : l.finish = .ok g → g.Declares (.nonterminal g.start)

end Ledger

namespace Definition

variable {d d' : Definition} {declaration : Declaration} {answer : Declaration.Answer}

/-! ### One declaration -/

/-- Every name is that of one symbol, and every rule is there once. -/
structure Tidy (d : Definition) : Prop where
  /-- No name is that of two symbols. -/
  nodup_names : (d.terminalNames ++ d.nonterminalNames).Nodup
  /-- Names are not empty and hold no blank. -/
  isName : ∀ name ∈ d.terminalNames ++ d.nonterminalNames, IsName name
  /-- No rule is there twice. -/
  nodup_rules : d.rules.Nodup

theorem empty_tidy : empty.Tidy where
  nodup_names := by decide
  isName name hname := by
    have hreserved : ∀ name ∈ Vocabulary.reservedNames,
        name.isEmpty = false ∧ name.toList.any Text.isBlank = false := by decide
    exact hreserved name hname
  nodup_rules := List.nodup_nil

/-- One more symbol keeps the names in order. -/
theorem Tidy.symbol {name : String} {v : Vocabulary} (h : d.Tidy) (hname : d.nameError? name = none)
    (hperm : (v.terminalNames ++ v.nonterminalNames).Perm
      (name :: (d.terminalNames ++ d.nonterminalNames))) :
    Definition.Tidy ⟨v, d.rules, d.start⟩ where
  nodup_names := by
    obtain ⟨-, hterminal, hnonterminal⟩ := nameError?_eq_none_iff.1 hname
    rw [hperm.nodup_iff, List.nodup_cons, List.mem_append, not_or]
    exact ⟨⟨hterminal, hnonterminal⟩, h.nodup_names⟩
  isName other hother := by
    rcases List.mem_cons.1 (hperm.mem_iff.1 hother) with rfl | hother
    · exact (nameError?_eq_none_iff.1 hname).1
    · exact h.isName other hother
  nodup_rules := h.nodup_rules

theorem nonterminalNames_concat (d : Definition) (nonterminal : Nonterminal) :
    Vocabulary.nonterminalNames ⟨d.terminals, d.nonterminals ++ [nonterminal]⟩ =
      d.nonterminalNames ++ [nonterminal.name] :=
  List.map_append

/-- The names of nonterminals stay when one of them inherits. -/
theorem nonterminalNames_inherited (d : Definition) (n : NonterminalId) :
    Vocabulary.nonterminalNames ⟨d.terminals, d.nonterminals.modify n fun nonterminal =>
      { nonterminal with inherited := true }⟩ = d.nonterminalNames := by
  refine List.ext_getElem (by simp [Vocabulary.nonterminalNames]) fun i _ _ => ?_
  simp only [Vocabulary.nonterminalNames, List.getElem_map, List.getElem_modify]
  split <;> rfl

/-- A declaration keeps a definition tidy. -/
theorem Accepts.tidy (hd : d.Accepts declaration answer d') (h : d.Tidy) : d'.Tidy := by
  cases hd with
  | @terminal name hname hlt =>
    refine h.symbol hname ?_
    rw [d.terminalNames_concat, List.append_assoc]
    exact List.perm_middle
  | @nonterminal name hname hlt =>
    refine h.symbol hname ?_
    rw [d.nonterminalNames_concat, ← List.append_assoc]
    exact List.perm_append_singleton _ _
  | @inherited n hn =>
    have hnames := d.nonterminalNames_inherited n
    exact ⟨hnames.symm ▸ h.nodup_names, hnames.symm ▸ h.isName, h.nodup_rules⟩
  | rule hrule =>
    obtain ⟨-, hnew, -⟩ := ruleError?_eq_none_iff.1 hrule
    exact ⟨h.nodup_names, h.isName, by simpa using h.nodup_rules.concat hnew⟩
  | start hn => exact ⟨h.nodup_names, h.isName, h.nodup_rules⟩
  | clear => exact empty_tidy

/-- What the definition has of a kind, with what is reserved. -/
def count (d : Definition) : Declaration.Kind → Nat
  | .terminal => d.terminalNames.length
  | .nonterminal => d.nonterminals.length
  | .rule => d.rules.length

/-- A number that is handed out is the next one of its kind. -/
theorem Accepts.number?_eq (hd : d.Accepts declaration answer d') (kind : Declaration.Kind) :
    kind.number? (declaration, .ok answer) =
      if declaration.kind? = some kind then some (d.count kind) else none := by
  cases hd <;> cases kind <;> rfl

theorem Accepts.count_eq (hd : d.Accepts declaration answer d') (hclear : declaration ≠ .clear)
    (kind : Declaration.Kind) :
    d'.count kind = d.count kind + if declaration.kind? = some kind then 1 else 0 := by
  cases hd with
  | @terminal name hname hlt =>
    have hlength := congrArg List.length (d.terminalNames_concat name)
    cases kind <;> simp_all [count, Declaration.kind?]
  | nonterminal hname hlt =>
    cases kind <;> simp [count, Declaration.kind?, Vocabulary.terminalNames]
  | inherited hn => cases kind <;> simp [count, Declaration.kind?, Vocabulary.terminalNames]
  | rule hrule => cases kind <;> simp [count, Declaration.kind?, Vocabulary.terminalNames]
  | start hn => cases kind <;> rfl
  | clear => exact absurd rfl hclear

/-- The numbers of a kind and the one that is handed out are those that are there afterwards. -/
theorem Accepts.range_count (hd : d.Accepts declaration answer d') (hclear : declaration ≠ .clear)
    (kind : Declaration.Kind) : List.range (d'.count kind) =
      List.range (d.count kind) ++ (kind.number? (declaration, .ok answer)).toList := by
  rw [hd.count_eq hclear, hd.number?_eq]
  split
  · exact List.range_succ
  · exact (List.append_nil _).symm

/-- What is there stays where it is. -/
theorem Accepts.grows (hd : d.Accepts declaration answer d') (hclear : declaration ≠ .clear) :
    d.Grows d'.toVocabulary ∧ d.rules <+: d'.rules := by
  cases hd with
  | terminal hname hlt =>
    exact ⟨⟨List.prefix_append _ _, List.prefix_rfl⟩, List.prefix_rfl⟩
  | @nonterminal name hname hlt =>
    exact ⟨⟨List.prefix_rfl, (d.nonterminalNames_concat _).symm ▸ List.prefix_append _ _⟩,
      List.prefix_rfl⟩
  | @inherited n hn =>
    exact ⟨⟨List.prefix_rfl, (d.nonterminalNames_inherited n).symm ▸ List.prefix_rfl⟩,
      List.prefix_rfl⟩
  | rule hrule => exact ⟨Vocabulary.Grows.refl _, List.prefix_append _ _⟩
  | start hn => exact ⟨Vocabulary.Grows.refl _, List.prefix_rfl⟩
  | clear => exact absurd rfl hclear

/-! ### Histories of declarations -/

theorem performAll_tidy (h : d.Tidy) (history : List Declaration) :
    (d.performAll history).Tidy :=
  performAll_induction h fun _ _ _ _ _ hd => hd.tidy

/-- What is there stays where it is, as long as it does not become void. -/
theorem performAll_grows {history : List Declaration} (hclear : .clear ∉ history) :
    d.Grows (d.performAll history).toVocabulary ∧ d.rules <+: (d.performAll history).rules := by
  refine performAll_induction (P := fun d' => d.Grows d'.toVocabulary ∧ d.rules <+: d'.rules)
    ⟨Vocabulary.Grows.refl _, List.prefix_rfl⟩ fun declaration hmem d₁ answer d' hd hkept => ?_
  obtain ⟨hgrows, hrules⟩ := hd.grows (ne_of_mem_of_not_mem hmem hclear)
  exact ⟨hkept.1.trans hgrows, hkept.2.trans hrules⟩

end Definition

namespace Ledger

variable {d d' : Definition} {declaration : Declaration} {answer : Declaration.Answer}

/-! ### The ledger of a definition -/

theorem names_ledger (d : Definition) : d.ledger.names = d.terminalNames ++ d.nonterminalNames := by
  rw [names, Definition.ledger, Entries.contents_numbered, Entries.contents_numbered]
  rfl

theorem numbers_ledger (d : Definition) (kind : Declaration.Kind) :
    d.ledger.numbers kind = List.range (d.count kind) := by
  rw [List.range_eq_range']
  cases kind <;> exact Entries.numbers_numbered

theorem declares_ledger_iff {s : GrammarSymbol} : d.ledger.Declares s ↔ d.Declares s := by
  cases s with
  | terminal t =>
    have htwo : ∀ n : Nat, n ≠ 0 ∧ n ≠ 1 ↔ 2 ≤ n := by omega
    have hreserved : t ≠ TerminalId.endOfInput ∧ t ≠ TerminalId.unknown ↔
        TerminalId.reserved ≤ t := htwo t
    rw [Declares, ← Entries.has_iff, Definition.has_terminals_ledger, hreserved,
      Vocabulary.Declares, and_comm]
  | nonterminal n =>
    rw [Declares, ← Entries.has_iff, Definition.has_nonterminals_ledger, Vocabulary.Declares]
  | action a => exact Iff.rfl

theorem sound_ledger (h : d.WellFormed) (htidy : d.Tidy) : d.ledger.Sound where
  reserved := d.terminals_ledger.symm ▸ List.prefix_append _ _
  nodup_names := names_ledger d ▸ htidy.nodup_names
  isName := names_ledger d ▸ htidy.isName
  left rule hrule := by
    rw [d.contents_rules_ledger] at hrule
    exact declares_ledger_iff.2 (h.left hrule)
  right rule hrule s hs := by
    rw [d.contents_rules_ledger] at hrule
    exact declares_ledger_iff.2 (h.right hrule hs)
  nodup_rules := d.contents_rules_ledger.symm ▸ htidy.nodup_rules
  start n hn := declares_ledger_iff.2 (h.start hn)

/-- A declaration makes sense to the ledger where the definition accepts it. -/
theorem allows_ledger_iff :
    d.ledger.Allows declaration ↔ ∃ answer d', d.Accepts declaration answer d' := by
  have hname (name : String) :
      d.nameError? name = none ↔ IsName name ∧ name ∉ d.ledger.names := by
    rw [Definition.nameError?_eq_none_iff, names_ledger, List.mem_append, not_or]
  have hnonterminal (n : NonterminalId) :
      d.hasNonterminal n = true ↔ d.ledger.Declares (.nonterminal n) :=
    (declares_ledger_iff (s := .nonterminal n)).symm
  have hrule (rule : Rule) : d.ruleError? rule = none ↔
      (d.ledger.Declares (.nonterminal rule.left) ∧ ∀ s ∈ rule.right, d.ledger.Declares s) ∧
        rule ∉ d.ledger.rules.contents ∧ d.ledger.nextRule < Definition.maxId := by
    simp only [Definition.ruleError?_eq_none_iff, declares_ledger_iff, d.contents_rules_ledger]
    exact Iff.rfl
  constructor
  · intro h
    cases declaration with
    | terminal name => exact ⟨_, _, .terminal ((hname name).2 ⟨h.1, h.2.1⟩) h.2.2⟩
    | nonterminal name => exact ⟨_, _, .nonterminal ((hname name).2 ⟨h.1, h.2.1⟩) h.2.2⟩
    | inherited n => exact ⟨_, _, .inherited ((hnonterminal n).2 h)⟩
    | rule left right => exact ⟨_, _, .rule ((hrule _).2 ⟨⟨h.1, h.2.1⟩, h.2.2⟩)⟩
    | start n => exact ⟨_, _, .start ((hnonterminal n).2 h)⟩
    | clear => exact ⟨_, _, .clear⟩
  · rintro ⟨answer, d', h⟩
    cases h with
    | terminal hnew hlt => exact ⟨((hname _).1 hnew).1, ((hname _).1 hnew).2, hlt⟩
    | nonterminal hnew hlt => exact ⟨((hname _).1 hnew).1, ((hname _).1 hnew).2, hlt⟩
    | inherited hn => exact (hnonterminal _).1 hn
    | rule hnew => exact ⟨((hrule _).1 hnew).1.1, ((hrule _).1 hnew).1.2, ((hrule _).1 hnew).2⟩
    | start hn => exact (hnonterminal _).1 hn
    | clear => trivial

/-- The number that is answered is that of what has been declared. -/
theorem holds_ledger {id : Nat} (h : (d.ledger.perform declaration).2 = .ok (.number id)) :
    (d.ledger.perform declaration).1.Holds id declaration := by
  rw [perform_ledger] at h ⊢
  generalize hd : d.perform declaration = performed at h
  obtain ⟨d', result⟩ := performed
  obtain rfl : result = .ok (.number id) := h
  cases Definition.perform_eq_ok_iff.1 hd with
  | @terminal name hname hlt =>
    change _ ∈ Entries.numbered 0 _
    rw [d.terminalNames_concat]
    exact Entries.mem_numbered_concat
  | nonterminal hname hlt => exact Entries.mem_numbered_concat
  | rule hrule => exact Entries.mem_numbered_concat

theorem retains_ledger (hgrows : d.Grows d'.toVocabulary) (hrules : d.rules <+: d'.rules) :
    d.ledger.Retains d'.ledger where
  terminals :=
    Entries.numbered_isPrefix ((List.prefix_append_right_inj _).2 hgrows.terminals)
  nonterminals := by
    simp only [Definition.ledger, Entries.map_numbered]
    exact Entries.numbered_isPrefix hgrows.nonterminals
  rules := Entries.numbered_isPrefix hrules

/-- A declaration is accepted where it makes sense. -/
theorem accepts_ledger_iff : (∃ answer, (d.ledger.perform declaration).2 = .ok answer) ↔
    d.ledger.Allows declaration := by
  rw [allows_ledger_iff, perform_ledger]
  constructor
  · rintro ⟨answer, hanswer⟩
    exact ⟨answer, _, Definition.perform_eq_ok_iff.1 (Prod.ext rfl hanswer)⟩
  · rintro ⟨answer, d', hd⟩
    exact ⟨answer, congrArg Prod.snd (Definition.perform_eq_ok_iff.2 hd)⟩

/-- A declaration that is refused changes nothing. -/
theorem perform_ledger_of_error {e : DefinitionError}
    (h : (d.ledger.perform declaration).2 = .error e) :
    (d.ledger.perform declaration).1 = d.ledger := by
  rw [perform_ledger] at h ⊢
  rcases d.perform_cases declaration with ⟨e', hperform⟩ | ⟨answer, d', -, hperform⟩
  · rw [hperform]
  · rw [hperform] at h
    cases h

/-- There is a grammar if there is a start symbol or a rule. -/
theorem finish_ledger_iff :
    (∃ g, d.ledger.finish = .ok g) ↔ d.ledger.start ≠ none ∨ d.ledger.rules ≠ [] := by
  have hrules : d.ledger.rules = [] ↔ d.rules = [] := by
    rw [← List.map_eq_nil_iff, ← Entries.contents, d.contents_rules_ledger]
  rw [finish_ledger, Definition.finish_yields.exists_ok_iff, Ne.eq_def d.ledger.rules, hrules]
  exact Iff.rfl

/-! ### Histories -/

/-- The numbers that have been handed out after one more declaration. -/
theorem perform_numbers (kind : Declaration.Kind) {ids : List Nat} (declaration : Declaration)
    (h : d.ledger.numbers kind = kind.reserved ++ ids) :
    (d.perform declaration).1.ledger.numbers kind =
      kind.reserved ++ kind.handOut ids (declaration, (d.perform declaration).2) := by
  rcases d.perform_cases declaration with ⟨e, hperform⟩ | ⟨answer, d', hd, hperform⟩
  · have hclear : declaration ≠ .clear := by
      rintro rfl
      cases hperform
    have hnone : kind.handOut ids (declaration, .error e) = ids :=
      (if_neg hclear).trans (List.append_nil _)
    rw [hperform, hnone]
    exact h
  · rw [hperform]
    by_cases hclear : declaration = .clear
    · subst hclear
      cases hd
      cases kind <;> rfl
    · rw [numbers_ledger, hd.range_count hclear, ← numbers_ledger, h, List.append_assoc,
        Declaration.Kind.handOut, if_neg hclear]

/-- The numbers that have been handed out after a history. -/
theorem performAll_numbers (kind : Declaration.Kind) {ids : List Nat} (history : List Declaration)
    (h : d.ledger.numbers kind = kind.reserved ++ ids) :
    (d.performAll history).ledger.numbers kind =
      kind.reserved ++ (d.ledger.answers history).foldl kind.handOut ids := by
  induction history generalizing d ids with
  | nil => exact h
  | cons declaration history ih =>
    rw [answers, perform_ledger, List.foldl_cons]
    exact ih (perform_numbers kind declaration h)

/-- A ledger is in order after every history of declarations. -/
theorem performAll_inOrder (history : List Declaration) :
    (initial.performAll history).InOrder history := by
  have hwellFormed := Definition.performAll_wellFormed Definition.empty_wellFormed history
  have htidy := Definition.performAll_tidy Definition.empty_tidy history
  rw [performAll_initial]
  exact {
    sound := sound_ledger hwellFormed htidy
    numbers_eq := fun kind => performAll_numbers kind history (by cases kind <;> rfl)
    consecutive := fun kind => ⟨_, numbers_ledger _ kind⟩
    accepts_iff := fun declaration => accepts_ledger_iff
    holds := fun declaration id hid => holds_ledger hid
    refused := fun declaration e he => perform_ledger_of_error he
    retains := fun later hlater => by
      obtain ⟨hgrows, hrules⟩ := Definition.performAll_grows hlater
      rw [performAll_ledger]
      exact retains_ledger hgrows hrules
    finish_iff := finish_ledger_iff
    finish_start := fun g hg =>
      (Definition.finish_wellFormed hwellFormed (finish_ledger _ ▸ hg)).start }

/-- What is refused takes no number, and the numbers begin again when all declarations are void. -/
example : (initial.answers [.terminal "a", .nonterminal "a", .nonterminal "S", .terminal "b c",
    .rule 0 [.terminal 1], .rule 0 [.terminal 2, .action 7], .rule 0 [.terminal 2, .action 7],
    .rule 0 [], .inherited 1, .clear, .start 0, .terminal "b"]).map (·.2) =
    [.ok (.number 2), .error (.terminalDeclared "a"), .ok (.number 0), .error (.badName "b c"),
      .error .reservedTerminal, .ok (.number 0), .error .duplicateRule,
      .ok (.number 1), .error .undeclaredInherited, .ok .noted, .error .undeclaredStart,
      .ok (.number 2)] := by
  decide +kernel

end Ledger

end ArithFrontEnd
