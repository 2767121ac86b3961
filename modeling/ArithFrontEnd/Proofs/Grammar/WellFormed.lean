import ArithFrontEnd.Grammar.Definition

/-!
# Grammars that have been defined

Whatever is declared, and in whatever order, a definition only speaks of symbols that it has: a rule
is refused if one of its symbols is not there, and no symbol is ever taken away, unless all
declarations become void.

## Main definitions

* `Vocabulary.Declares` — the symbols of a vocabulary.
* `Definition.WellFormed`, `Grammar.WellFormed` — the rules and the start symbol are made of them.
* `Definition.Accepts` — the declarations that a definition accepts, and what comes of them.

## Main results

* `Definition.declare_eq_ok_iff`, `Definition.perform_cases` — what a declaration can do.
* `Definition.performAll_induction` — what declarations keep holds after a history of them.
* `Definition.Accepts.wellFormed` — a declaration keeps a definition well formed.
* `Grammar.IsDefined.wellFormed` — **a grammar that can be defined is well formed.**
-/

namespace ArithFrontEnd

/-- The symbol has been declared. The reserved terminals have not; any action may be used. -/
def Vocabulary.Declares (v : Vocabulary) : GrammarSymbol → Prop
  | .terminal t => TerminalId.reserved ≤ t ∧ v.hasTerminal t = true
  | .nonterminal n => v.hasNonterminal n = true
  | .action _ => True

instance (v : Vocabulary) (s : GrammarSymbol) : Decidable (v.Declares s) :=
  match s with
  | .terminal _ => inferInstanceAs (Decidable (_ ∧ _))
  | .nonterminal _ => inferInstanceAs (Decidable (_ = true))
  | .action _ => inferInstanceAs (Decidable True)

/-- One vocabulary has the symbols of another. -/
structure Vocabulary.Extends (v v' : Vocabulary) : Prop where
  /-- No terminal is lost. -/
  terminals_le : v.terminals.length ≤ v'.terminals.length
  /-- No nonterminal is lost. -/
  nonterminals_le : v.nonterminals.length ≤ v'.nonterminals.length

namespace Vocabulary

variable {v v' : Vocabulary}

theorem hasNonterminal_iff {n : NonterminalId} :
    v.hasNonterminal n = true ↔ n < v.nonterminals.length := by simp [hasNonterminal]

theorem hasTerminal_iff {t : TerminalId} :
    v.hasTerminal t = true ↔ t < v.terminals.length + TerminalId.reserved := by
  have hreserved : reservedNames.length = TerminalId.reserved := rfl
  simp [hasTerminal, terminalNames, hreserved, Nat.add_comm]

theorem Extends.declares (h : v.Extends v') {s : GrammarSymbol} (hs : v.Declares s) :
    v'.Declares s := by
  cases s with
  | terminal t =>
    refine ⟨hs.1, hasTerminal_iff.2 (Nat.lt_of_lt_of_le (hasTerminal_iff.1 hs.2) ?_)⟩
    exact Nat.add_le_add_right h.terminals_le _
  | nonterminal n =>
    exact hasNonterminal_iff.2 (Nat.lt_of_lt_of_le (hasNonterminal_iff.1 hs) h.nonterminals_le)
  | action a => trivial

end Vocabulary

/-- The rules and the start symbol of a definition are made of declared symbols. -/
structure Definition.WellFormed (d : Definition) : Prop where
  /-- The left-hand side of a rule is declared. -/
  left {rule : Rule} (h : rule ∈ d.rules) : d.Declares (.nonterminal rule.left)
  /-- The symbols of a right-hand side are declared. -/
  right {rule : Rule} (h : rule ∈ d.rules) {s : GrammarSymbol} (hs : s ∈ rule.right) : d.Declares s
  /-- The start symbol is declared. -/
  start {n : NonterminalId} (h : d.start = some n) : d.Declares (.nonterminal n)

/-- The rules and the start symbol of a grammar are made of declared symbols. -/
structure Grammar.WellFormed (g : Grammar) : Prop where
  /-- The left-hand side of a rule is declared. -/
  left {rule : Rule} (h : rule ∈ g.rules) : g.Declares (.nonterminal rule.left)
  /-- The symbols of a right-hand side are declared. -/
  right {rule : Rule} (h : rule ∈ g.rules) {s : GrammarSymbol} (hs : s ∈ rule.right) : g.Declares s
  /-- The start symbol is declared. -/
  start : g.Declares (.nonterminal g.start)

namespace Definition

variable {d d' : Definition}

/-! ### Declarations that are accepted -/

theorem declareTerminal_eq_ok_iff {name : String} {t : TerminalId} :
    d.declareTerminal name = .ok (t, d') ↔
      d.nameError? name = none ∧ d.terminalNames.length < maxId ∧ t = d.terminalNames.length ∧
        d' = { d with terminals := d.terminals ++ [name] } := by
  unfold declareTerminal
  cases d.nameError? name with
  | some e => simp
  | none =>
    dsimp only
    split <;> simp [*, eq_comm]

theorem declareNonterminal_eq_ok_iff {name : String} {n : NonterminalId} :
    d.declareNonterminal name = .ok (n, d') ↔
      d.nameError? name = none ∧ d.nonterminals.length < maxId ∧ n = d.nonterminals.length ∧
        d' = { d with nonterminals := d.nonterminals ++ [⟨name, false⟩] } := by
  unfold declareNonterminal
  cases d.nameError? name with
  | some e => simp
  | none =>
    dsimp only
    split <;> simp [*, eq_comm]

theorem markInherited_eq_ok_iff {n : NonterminalId} : d.markInherited n = .ok d' ↔
    d.hasNonterminal n = true ∧
      d' = { d with nonterminals := d.nonterminals.modify n fun nonterminal =>
               { nonterminal with inherited := true } } := by
  unfold markInherited
  split <;> simp [*, eq_comm]

theorem setStart_eq_ok_iff {n : NonterminalId} :
    d.setStart n = .ok d' ↔ d.hasNonterminal n = true ∧ d' = { d with start := some n } := by
  unfold setStart
  split <;> simp [*, eq_comm]

theorem declareRule_eq_ok_iff {rule : Rule} {r : RuleId} : d.declareRule rule = .ok (r, d') ↔
    d.ruleError? rule = none ∧ r = d.rules.length ∧
      d' = { d with rules := d.rules ++ [rule] } := by
  unfold declareRule
  cases d.ruleError? rule <;> simp [eq_comm]

/-- A symbol can be on a right-hand side if it is declared. -/
theorem symbolError?_eq_none_iff {s : GrammarSymbol} : d.symbolError? s = none ↔ d.Declares s := by
  cases s with
  | terminal t =>
    rw [symbolError?, Vocabulary.Declares]
    split
    · next hreserved => simp [Nat.not_le.2 hreserved]
    · next hreserved =>
      rw [and_iff_right (Nat.le_of_not_lt hreserved)]
      split <;> simp [*]
  | nonterminal n =>
    rw [symbolError?, Vocabulary.Declares]
    split <;> simp [*]
  | action a => simp [symbolError?, Vocabulary.Declares]

/-- A rule can be declared if it is made of declared symbols and is not there, and if there is a
number for it. -/
theorem ruleError?_eq_none_iff {rule : Rule} : d.ruleError? rule = none ↔
    (d.Declares (.nonterminal rule.left) ∧ ∀ s ∈ rule.right, d.Declares s) ∧ rule ∉ d.rules ∧
      d.rules.length < maxId := by
  have hright : rule.right.findSome? d.symbolError? = none ↔ ∀ s ∈ rule.right, d.Declares s := by
    simp only [List.findSome?_eq_none_iff, symbolError?_eq_none_iff]
  unfold ruleError?
  split
  · next hleft =>
    have hleft : d.Declares (.nonterminal rule.left) := hleft
    cases hsome : rule.right.findSome? d.symbolError? with
    | some e => simp [← hright, hsome]
    | none =>
      rw [and_iff_right ⟨hleft, hright.1 hsome⟩]
      by_cases hmem : rule ∈ d.rules <;> simp [hmem]
  · next hleft =>
    have hleft : ¬ d.Declares (.nonterminal rule.left) := hleft
    simp [hleft]

/-- A definition accepts a declaration, answers it so, and becomes this. -/
inductive Accepts (d : Definition) : Declaration → Declaration.Answer → Definition → Prop
  /-- A terminal is numbered by its place. -/
  | terminal {name : String} (hname : d.nameError? name = none)
      (hlt : d.terminalNames.length < maxId) :
      Accepts d (.terminal name) (.number d.terminalNames.length)
        { d with terminals := d.terminals ++ [name] }
  /-- A nonterminal is numbered by its place. -/
  | nonterminal {name : String} (hname : d.nameError? name = none)
      (hlt : d.nonterminals.length < maxId) :
      Accepts d (.nonterminal name) (.number d.nonterminals.length)
        { d with nonterminals := d.nonterminals ++ [⟨name, false⟩] }
  /-- A declared nonterminal may inherit. -/
  | inherited {n : NonterminalId} (hn : d.hasNonterminal n = true) :
      Accepts d (.inherited n) .noted
        { d with nonterminals := d.nonterminals.modify n fun nonterminal =>
            { nonterminal with inherited := true } }
  /-- A rule is numbered by its place. -/
  | rule {left : NonterminalId} {right : List GrammarSymbol}
      (hrule : d.ruleError? ⟨left, right⟩ = none) :
      Accepts d (.rule left right) (.number d.rules.length)
        { d with rules := d.rules ++ [⟨left, right⟩] }
  /-- A declared nonterminal may be the start symbol. -/
  | start {n : NonterminalId} (hn : d.hasNonterminal n = true) :
      Accepts d (.start n) .noted { d with start := some n }
  /-- All declarations may become void. -/
  | clear : Accepts d .clear .noted empty

/-- A declaration gives a result exactly where it is accepted. -/
theorem declare_eq_ok_iff {declaration : Declaration} {answer : Declaration.Answer} :
    d.declare declaration = .ok (answer, d') ↔ d.Accepts declaration answer d' := by
  have hmap {α : Type} {x : Except DefinitionError α} {f : α → Declaration.Answer × Definition} :
      x.map f = .ok (answer, d') → ∃ a, x = .ok a ∧ f a = (answer, d') := by
    rcases x with e | a
    · exact fun heq => by cases heq
    · exact fun heq => ⟨a, rfl, Except.ok.inj heq⟩
  constructor
  · intro hd
    cases declaration with
    | terminal name =>
      obtain ⟨⟨t, d₁⟩, hok, ⟨⟩⟩ := hmap hd
      obtain ⟨hname, hlt, rfl, rfl⟩ := declareTerminal_eq_ok_iff.1 hok
      exact .terminal hname hlt
    | nonterminal name =>
      obtain ⟨⟨n, d₁⟩, hok, ⟨⟩⟩ := hmap hd
      obtain ⟨hname, hlt, rfl, rfl⟩ := declareNonterminal_eq_ok_iff.1 hok
      exact .nonterminal hname hlt
    | inherited n =>
      obtain ⟨d₁, hok, ⟨⟩⟩ := hmap hd
      obtain ⟨hn, rfl⟩ := markInherited_eq_ok_iff.1 hok
      exact .inherited hn
    | rule left right =>
      obtain ⟨⟨r, d₁⟩, hok, ⟨⟩⟩ := hmap hd
      obtain ⟨hrule, rfl, rfl⟩ := declareRule_eq_ok_iff.1 hok
      exact .rule hrule
    | start n =>
      obtain ⟨d₁, hok, ⟨⟩⟩ := hmap hd
      obtain ⟨hn, rfl⟩ := setStart_eq_ok_iff.1 hok
      exact .start hn
    | clear =>
      obtain ⟨⟩ := Except.ok.inj hd
      exact .clear
  · intro h
    cases h with
    | terminal hname hlt =>
      rw [declare, declareTerminal_eq_ok_iff.2 ⟨hname, hlt, rfl, rfl⟩]
      rfl
    | nonterminal hname hlt =>
      rw [declare, declareNonterminal_eq_ok_iff.2 ⟨hname, hlt, rfl, rfl⟩]
      rfl
    | inherited hn =>
      rw [declare, markInherited_eq_ok_iff.2 ⟨hn, rfl⟩]
      rfl
    | rule hrule =>
      rw [declare, declareRule_eq_ok_iff.2 ⟨hrule, rfl, rfl⟩]
      rfl
    | start hn =>
      rw [declare, setStart_eq_ok_iff.2 ⟨hn, rfl⟩]
      rfl
    | clear => rfl

theorem perform_eq_ok_iff {declaration : Declaration} {answer : Declaration.Answer} :
    d.perform declaration = (d', .ok answer) ↔ d.Accepts declaration answer d' := by
  rw [← declare_eq_ok_iff, perform]
  rcases d.declare declaration with e | ⟨answer', d''⟩
  · simp
  · simp [and_comm]

/-- A declaration is refused and changes nothing, or it is accepted. -/
theorem perform_cases (d : Definition) (declaration : Declaration) :
    (∃ e, d.perform declaration = (d, .error e)) ∨
      ∃ answer d', d.Accepts declaration answer d' ∧ d.perform declaration = (d', .ok answer) := by
  rcases hd : d.declare declaration with e | ⟨answer, d'⟩
  · exact Or.inl ⟨e, by rw [perform, hd]⟩
  · have haccepts := declare_eq_ok_iff.1 hd
    exact Or.inr ⟨answer, d', haccepts, perform_eq_ok_iff.2 haccepts⟩

/-- What every accepted declaration of a history keeps holds after the history. -/
theorem performAll_induction {P : Definition → Prop} {history : List Declaration} (h : P d)
    (step : ∀ declaration ∈ history, ∀ d answer d', d.Accepts declaration answer d' → P d → P d') :
    P (d.performAll history) := by
  induction history generalizing d with
  | nil => exact h
  | cons declaration history ih =>
    refine ih (d := (d.perform declaration).1) ?_ fun other hother =>
      step other (List.mem_cons_of_mem _ hother)
    rcases d.perform_cases declaration with ⟨e, hperform⟩ | ⟨answer, d', hd, hperform⟩
    · rw [hperform]
      exact h
    · rw [hperform]
      exact step declaration List.mem_cons_self d answer d' hd h

/-! ### What declarations keep -/

theorem empty_wellFormed : empty.WellFormed where
  left h := by cases h
  right h := by cases h
  start h := by cases h

/-- A definition may get more symbols. -/
theorem WellFormed.extend {v : Vocabulary} (h : d.WellFormed) (hext : d.toVocabulary.Extends v) :
    Definition.WellFormed ⟨v, d.rules, d.start⟩ where
  left hrule := hext.declares (h.left hrule)
  right hrule _ hs := hext.declares (h.right hrule hs)
  start hstart := hext.declares (h.start hstart)

theorem declareRule_wellFormed {rule : Rule} {r : RuleId} (h : d.WellFormed)
    (hd : d.declareRule rule = .ok (r, d')) : d'.WellFormed := by
  obtain ⟨herror, -, rfl⟩ := declareRule_eq_ok_iff.1 hd
  obtain ⟨⟨hleft, hright⟩, -⟩ := ruleError?_eq_none_iff.1 herror
  refine ⟨fun {other} hmem => ?_, fun {other} hmem {s} hs => ?_, h.start⟩
  · rcases List.mem_append.1 hmem with hmem | hmem
    · exact h.left hmem
    · rw [List.mem_singleton.1 hmem]
      exact hleft
  · rcases List.mem_append.1 hmem with hmem | hmem
    · exact h.right hmem hs
    · rw [List.mem_singleton.1 hmem] at hs
      exact hright s hs

/-- A declaration keeps a definition well formed. -/
theorem Accepts.wellFormed {declaration : Declaration} {answer : Declaration.Answer}
    (hd : d.Accepts declaration answer d') (h : d.WellFormed) : d'.WellFormed := by
  cases hd with
  | terminal hname hlt => exact h.extend ⟨by simp, Nat.le_refl _⟩
  | nonterminal hname hlt => exact h.extend ⟨Nat.le_refl _, by simp⟩
  | inherited hn => exact h.extend ⟨Nat.le_refl _, by simp⟩
  | rule hrule => exact declareRule_wellFormed h (declareRule_eq_ok_iff.2 ⟨hrule, rfl, rfl⟩)
  | start hn => exact ⟨h.left, h.right, fun {m} hm => Option.some.inj hm ▸ hn⟩
  | clear => exact empty_wellFormed

theorem performAll_wellFormed (h : d.WellFormed) (history : List Declaration) :
    (d.performAll history).WellFormed :=
  performAll_induction h fun _ _ _ _ _ hd => hd.wellFormed

/-- The grammar of a well-formed definition is well formed. -/
theorem finish_wellFormed {g : Grammar} (h : d.WellFormed) (hg : d.finish = .ok g) :
    g.WellFormed := by
  unfold finish at hg
  split at hg
  · next start hstart =>
    obtain rfl := Except.ok.inj hg
    refine ⟨h.left, h.right, ?_⟩
    -- the start symbol has been set, or is the left-hand side of the first rule
    cases hn : d.start with
    | some n =>
      rw [hn] at hstart
      obtain rfl : n = start := Option.some.inj hstart
      exact h.start hn
    | none =>
      rw [hn] at hstart
      obtain ⟨rule, hrule, rfl⟩ := Option.map_eq_some_iff.1 hstart
      exact h.left (List.mem_of_mem_head? hrule)
  · cases hg

end Definition

/-- A grammar that can be defined is well formed. -/
theorem Grammar.IsDefined.wellFormed {g : Grammar} (h : g.IsDefined) : g.WellFormed := by
  obtain ⟨history, hg⟩ := h
  exact Definition.finish_wellFormed
    (Definition.performAll_wellFormed Definition.empty_wellFormed history) hg

/-- The grammar `S -> A b`, `A -> a A`, `A -> ε`, in which a sentence may begin after a nonterminal
that is empty. -/
def Grammar.aStarB : Grammar where
  terminals := ["a", "b"]
  nonterminals := [⟨"S", false⟩, ⟨"A", false⟩]
  rules := [⟨0, [.nonterminal 1, .terminal 3]⟩, ⟨1, [.terminal 2, .nonterminal 1]⟩, ⟨1, []⟩]
  start := 0

theorem Grammar.aStarB_isDefined : Grammar.aStarB.IsDefined :=
  ⟨[.terminal "a", .terminal "b", .nonterminal "S", .nonterminal "A",
    .rule 0 [.nonterminal 1, .terminal 3], .rule 1 [.terminal 2, .nonterminal 1], .rule 1 []],
    rfl⟩

end ArithFrontEnd
