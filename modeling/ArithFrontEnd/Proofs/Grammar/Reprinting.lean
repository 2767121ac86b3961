import ArithFrontEnd.Grammar.Printer
import ArithFrontEnd.Proofs.Grammar.Loading
import ArithFrontEnd.Proofs.GrammarText.Relexing

/-!
# A grammar that is printed is loaded again

The statements that a grammar is written by have the rules of the grammar, one in each, in order.
Symbols are numbered by their first appearance in rules, and whether the alternatives of a
left-hand side stand in one statement or in several does not change where a name appears first.  So
these statements describe the grammar.  All names in them have been read, so that they are read back
from their text.

## Main definitions

* `GrammarText.NamedRule.symbolNames` — the names of the symbols in a rule.

## Main results

* `Grammar.describedNames_eq` — the names of a description are those of its rules.
* `Grammar.Reflects.statements` — **a grammar says what the statements say that it is written by.**
* `Grammar.source_eq` — the text of a grammar consists of these statements.
* `Grammar.ofText_source` — **the text of a grammar that has been loaded gives the grammar.**
-/

namespace ArithFrontEnd

open GrammarText

/-- The names of the symbols in a rule, with repetitions. -/
def GrammarText.NamedRule.symbolNames (rule : NamedRule) : List String :=
  rule.left :: rule.right.filterMap Element.name?

namespace Grammar

variable {g : Grammar} {ss : List Statement} {source : String}

/-! ### The statements of a grammar -/

theorem filterMap_name?_filter (elements : Alternative) :
    (elements.filter (· ≠ .empty)).filterMap Element.name? = elements.filterMap Element.name? := by
  rw [List.filterMap_filter]
  refine List.filterMap_congr fun e _ => ?_
  cases e <;> rfl

/-- The names in a statement appear first in the same order in its rules, one after the other. -/
theorem eraseDups_symbolNames (s : Statement) :
    s.symbolNames.eraseDups = (s.productions.flatMap NamedRule.symbolNames).eraseDups := by
  cases s with
  | start name => rfl
  | inherit name others => rfl
  | rule left alternative others =>
    rw [Statement.symbolNames, eraseDups_cons_flatMap, Statement.productions, List.flatMap_map]
    simp only [NamedRule.symbolNames, filterMap_name?_filter]

/-- The names of a description are those of its rules, in order of first appearance. -/
theorem describedNames_eq (ss : List Statement) : describedNames ss =
    ((ss.flatMap Statement.productions).flatMap NamedRule.symbolNames).eraseDups := by
  rw [describedNames, List.flatMap_assoc]
  exact eraseDups_flatMap_congr fun s _ => eraseDups_symbolNames s

theorem filter_alternative (v : Vocabulary) (rule : Rule) :
    (v.alternative rule).filter (· ≠ .empty) = rule.right.map v.element := by
  have hempty : (if rule.isEmpty then [Element.empty] else []).filter (· ≠ .empty) = [] := by
    split <;> rfl
  have hright : ∀ e ∈ rule.right.map v.element, decide (e ≠ .empty) = true := by
    intro e he
    obtain ⟨s, -, rfl⟩ := List.mem_map.1 he
    cases s <;> rfl
  rw [Vocabulary.alternative, List.filter_append, hempty, List.nil_append,
    List.filter_eq_self.2 hright]

/-- The statements of a grammar are about its start symbol, about those that inherit, and its
rules. -/
theorem forall_mem_statements_iff {p : Statement → Prop} : (∀ s ∈ g.statements, p s) ↔
    p (.start (g.nonterminalName g.start)) ∧ (∀ s ∈ g.inheritStatements, p s) ∧
      ∀ rule ∈ g.rules,
        p (.rule (g.nonterminalName rule.left) (g.toVocabulary.alternative rule) []) := by
  simp only [statements, List.forall_mem_append, List.forall_mem_singleton, List.forall_mem_map,
    and_assoc]

/-- The rules in the statements are those of the grammar. -/
theorem productions_statements (g : Grammar) :
    g.statements.flatMap Statement.productions = g.rules.map g.namedRule := by
  have hinherit : g.inheritStatements.flatMap Statement.productions = [] := by
    unfold inheritStatements
    split <;> rfl
  rw [statements, List.flatMap_append, List.flatMap_append, hinherit, List.flatMap_map]
  simp only [Statement.productions, List.map_cons, List.map_nil, filter_alternative,
    List.flatMap_singleton, List.nil_append]
  exact (List.map_eq_flatMap ..).symm

theorem start?_statements (g : Grammar) :
    g.statements.filterMap Statement.start? = [g.nonterminalName g.start] := by
  have hinherit : g.inheritStatements.filterMap Statement.start? = [] := by
    unfold inheritStatements
    split <;> rfl
  simp [statements, hinherit, Statement.start?, List.filterMap_map, Function.comp_def]

theorem left?_statements (g : Grammar) : g.statements.filterMap Statement.left? =
    g.rules.map fun rule => g.nonterminalName rule.left := by
  have hinherit : g.inheritStatements.filterMap Statement.left? = [] := by
    unfold inheritStatements
    split <;> rfl
  rw [statements, List.filterMap_append, List.filterMap_append, hinherit, List.append_nil,
    List.filterMap_map]
  simp [Statement.left?, Function.comp_def]

theorem inherited_statements (g : Grammar) :
    g.statements.flatMap Statement.inherited = g.inheritedNames := by
  have hinherit : g.inheritStatements.flatMap Statement.inherited = g.inheritedNames := by
    unfold inheritStatements
    split
    · next hnames => rw [hnames]; rfl
    · next hnames => rw [hnames]; simp [Statement.inherited]
  simp [statements, hinherit, Statement.inherited]

/-! ### What the statements describe -/

/-- The statements of a grammar have its names in the order of their numbers. -/
theorem Reflects.describedNames_statements (h : g.Reflects ss) :
    describedNames g.statements = describedNames ss := by
  rw [describedNames_eq, describedNames_eq, productions_statements, h.rules]

/-- Those that inherit are told by their names. -/
theorem Reflects.mem_inheritedNames_iff (h : g.Reflects ss) {n : NonterminalId}
    (hn : g.Declares (.nonterminal n)) :
    g.nonterminalName n ∈ g.inheritedNames ↔ g.isInherited n = true := by
  have hstated := Vocabulary.isInherited_eq_iff.1 fun n hn =>
    Bool.eq_iff_iff.2 ((h.inherited hn).trans List.contains_iff_mem.symm)
  rw [h.inherited hn, inheritedNames, List.mem_map]
  constructor
  · rintro ⟨nonterminal, hmem, hname⟩
    obtain ⟨hmem, hinherited⟩ := List.mem_filter.1 hmem
    rw [hstated nonterminal hmem, hname] at hinherited
    exact List.contains_iff_mem.1 hinherited
  · intro hmem
    obtain ⟨nonterminal, hnonterminal, hname⟩ :=
      List.mem_map.1 (Vocabulary.nonterminalName_mem hn)
    refine ⟨nonterminal, List.mem_filter.2 ⟨hnonterminal, ?_⟩, hname⟩
    rw [hstated nonterminal hnonterminal, hname]
    exact List.contains_iff_mem.2 hmem

/-- A grammar says what the statements say that it is written by. -/
theorem Reflects.statements (h : g.Reflects ss) : g.Reflects g.statements where
  wellFormed := h.wellFormed
  terminals := by rw [describedTerminals, h.describedNames_statements]; exact h.terminals
  nonterminals := by rw [describedNonterminals, h.describedNames_statements]; exact h.nonterminals
  element_inj := h.element_inj
  isNonterminalName_iff := h.isNonterminalName_iff
  rules := (productions_statements g).symm
  start := by
    rw [← List.head?_filterMap, start?_statements]
    rfl
  inherited hn := by rw [inherited_statements, h.mem_inheritedNames_iff hn]

theorem inheritedNames_subset (g : Grammar) : g.inheritedNames ⊆ g.nonterminalNames :=
  List.map_subset _ List.filter_sublist.subset

/-- The statements of a grammar make sense together. -/
theorem Reflects.coherent_statements (h : g.Reflects ss) (hss : Coherent ss) :
    Coherent g.statements where
  exists_rule := by
    rw [productions_statements, h.rules]
    exact hss.exists_rule
  start_le_one := by
    rw [start?_statements]
    exact Nat.le_refl 1
  left_isNonterminal name hname := by
    rw [left?_statements] at hname
    obtain ⟨rule, hrule, rfl⟩ := List.mem_map.1 hname
    exact h.classified.isNonterminalName_nonterminalName (h.wellFormed.left hrule)
  not_reserved := by
    rw [h.describedNames_statements]
    exact hss.not_reserved
  nodup_rules := by
    rw [productions_statements, h.rules]
    exact hss.nodup_rules
  stated_mem name hname := by
    rw [start?_statements, inherited_statements] at hname
    rw [← h.statements.nonterminals]
    rcases List.mem_append.1 hname with hname | hname
    · rw [List.mem_singleton.1 hname]
      exact Vocabulary.nonterminalName_mem h.wellFormed.start
    · exact inheritedNames_subset g hname
  terminals_le := by
    rw [describedTerminals, h.describedNames_statements]
    exact hss.terminals_le
  nonterminals_le := by
    rw [describedNonterminals, h.describedNames_statements]
    exact hss.nonterminals_le
  rules_le := by
    rw [productions_statements, h.rules]
    exact hss.rules_le

/-! ### The text of a grammar -/

/-- Texts with blanks between them are the first one and the others with a blank before each. -/
theorem intercalate_blank (text : String) (texts : List String) :
    String.intercalate " " (text :: texts) = text ++ String.join (texts.map (" " ++ ·)) := by
  induction texts generalizing text with
  | nil => simp
  | cons next texts ih =>
    rw [String.intercalate_cons_cons, ih next, List.map_cons, String.join_cons, String.append_assoc,
      String.append_assoc]

theorem line_start (name : String) : (Statement.start name).line = s!"@start {name};" := by
  have hblank : "@start " = "@start" ++ " " := rfl
  change String.intercalate " " ["@start", name] ++ ";" = "@start " ++ name ++ ";"
  rw [String.intercalate_cons_cons, String.intercalate_singleton, hblank]

theorem line_inherit (name : String) (others : List String) :
    (Statement.inherit name others).line =
      "@inherit " ++ String.intercalate " " (name :: others) ++ ";" := by
  have hblank : "@inherit " = "@inherit" ++ " " := rfl
  have htokens : (Statement.inherit name others).tokens.dropLast.map GrammarText.Token.text =
      "@inherit" :: name :: others := by
    rw [Statement.tokens, List.dropLast_concat]
    simp [GrammarText.Token.text, Function.comp_def]
  rw [Statement.line, htokens, String.intercalate_cons_cons, hblank]

theorem text_element (v : Vocabulary) (s : GrammarSymbol) :
    (v.element s).token.text = v.symbolText s := by
  cases s <;> rfl

/-- A rule is written as its statement, in which a blank stands before every element. -/
theorem line_rule (v : Vocabulary) (rule : Rule) :
    (Statement.rule (v.nonterminalName rule.left) (v.alternative rule) []).line =
      v.ruleText rule ++ ";" := by
  have htokens : (Statement.rule (v.nonterminalName rule.left) (v.alternative rule)
        []).tokens.dropLast.map GrammarText.Token.text =
      v.nonterminalName rule.left :: "->" ::
        ((if rule.isEmpty then ["ε"] else []) ++ rule.right.map v.symbolText) := by
    change ((GrammarText.Token.symbol (v.nonterminalName rule.left) :: .arrow ::
      (v.alternative rule).map Element.token) ++
        [GrammarText.Token.semicolon]).dropLast.map GrammarText.Token.text = _
    have helements : ((rule.right.map v.element).map Element.token).map GrammarText.Token.text =
        rule.right.map v.symbolText := by
      rw [List.map_map, List.map_map]
      exact List.map_congr_left fun s _ => text_element v s
    rw [List.dropLast_concat, Vocabulary.alternative, List.map_cons, List.map_cons,
      List.map_append, List.map_append, helements]
    split <;> rfl
  have harrow : " ->" = " " ++ "->" := rfl
  have hempty : (if rule.isEmpty then " ε" else "") =
      String.join ((if rule.isEmpty then ["ε"] else []).map (" " ++ ·)) := by
    split <;> rfl
  change _ = v.nonterminalName rule.left ++ " ->" ++ (if rule.isEmpty then " ε" else "") ++
    String.join (rule.right.map fun symbol => " " ++ v.symbolText symbol) ++ ";"
  rw [Statement.line, htokens, intercalate_blank, harrow, hempty]
  simp only [List.map_cons, List.map_append, List.map_map, String.join_cons, String.join_append,
    String.append_assoc, Function.comp_def]

/-- The text of a grammar consists of its statements, each on a line. -/
theorem source_eq (g : Grammar) : g.source = Text.lines (g.statements.map Statement.line) := by
  have hinherit : g.inheritLines = g.inheritStatements.map Statement.line := by
    unfold inheritLines inheritStatements
    split
    · next hnames => rw [hnames]; rfl
    · next hnames =>
      cases hnames' : g.inheritedNames with
      | nil => exact absurd hnames' hnames
      | cons name others => rw [List.map_singleton, line_inherit]
  rw [source, statements, List.map_append, List.map_append, List.map_map, hinherit,
    List.map_singleton, line_start]
  simp only [Function.comp_def, line_rule]

/-! ### Loading again -/

/-- The elements of a rule are among the tokens of the statements. -/
theorem token_mem_tokens {rule : NamedRule} {e : Element}
    (h : rule ∈ ss.flatMap Statement.productions) (he : e ∈ rule.right) :
    e.token ∈ ss.flatMap Statement.tokens := by
  obtain ⟨s, hs, hrule⟩ := List.mem_flatMap.1 h
  refine List.mem_flatMap.2 ⟨s, hs, ?_⟩
  cases s with
  | start name => cases hrule
  | inherit name others => cases hrule
  | rule left alternative others =>
    obtain ⟨elements, helements, rfl⟩ := List.mem_map.1 hrule
    exact List.mem_cons_of_mem _ (List.mem_cons_of_mem _
      (token_mem_alternativeTokens ⟨elements, helements, (List.mem_filter.1 he).1⟩))

/-- The names of nonterminals are among the tokens of the statements. -/
theorem Reflects.symbol_mem_tokens (h : g.Reflects ss) {name : String}
    (hname : name ∈ g.nonterminalNames) : .symbol name ∈ ss.flatMap Statement.tokens := by
  rw [h.nonterminals] at hname
  obtain ⟨s, hs, hname⟩ :=
    List.mem_flatMap.1 (List.mem_eraseDups.1 (List.mem_filter.1 hname).1)
  exact List.mem_flatMap.2 ⟨s, hs, GrammarText.symbol_mem_tokens hname⟩

/-- The statements of a grammar can be written if those that it says the same as can. -/
theorem Reflects.isWritten_statements (h : g.Reflects ss)
    (hwritten : ∀ t ∈ ss.flatMap Statement.tokens, t.IsWritten) :
    ∀ t ∈ g.statements.flatMap Statement.tokens, t.IsWritten := by
  have hname : ∀ name ∈ g.nonterminalNames, (GrammarText.Token.symbol name).IsWritten :=
    fun name hname => hwritten _ (h.symbol_mem_tokens hname)
  have hsemicolon : ∀ t ∈ [GrammarText.Token.semicolon], t.IsWritten :=
    List.forall_mem_singleton.2 trivial
  simp only [List.forall_mem_flatMap, forall_mem_statements_iff]
  refine ⟨?_, ?_, fun rule hrule => ?_⟩
  · have hstart := hname _ (Vocabulary.nonterminalName_mem h.wellFormed.start)
    exact List.forall_mem_cons.2 ⟨trivial, List.forall_mem_cons.2 ⟨hstart, hsemicolon⟩⟩
  · unfold inheritStatements
    split
    · simp
    · next name others hnames =>
      have hothers : ∀ t ∈ (name :: others).map GrammarText.Token.symbol, t.IsWritten := by
        rw [← hnames, List.forall_mem_map]
        exact fun name hmem => hname name (inheritedNames_subset g hmem)
      refine List.forall_mem_singleton.2 (List.forall_mem_cons.2 ⟨trivial, ?_⟩)
      exact List.forall_mem_append.2 ⟨hothers, hsemicolon⟩
  · have hleft := hname _ (Vocabulary.nonterminalName_mem (h.wellFormed.left hrule))
    have hrule : g.namedRule rule ∈ ss.flatMap Statement.productions :=
      h.rules ▸ List.mem_map_of_mem hrule
    refine List.forall_mem_cons.2 ⟨hleft, List.forall_mem_cons.2 ⟨trivial, ?_⟩⟩
    refine List.forall_mem_append.2 ⟨List.forall_mem_map.2 ?_, hsemicolon⟩
    refine List.forall_mem_append.2 ⟨fun e he => ?_, fun e he => ?_⟩
    · split at he
      · rw [List.mem_singleton.1 he]
        trivial
      · cases he
    · exact hwritten _ (token_mem_tokens hrule he)

/-- The statements of a grammar that statements have given give the grammar. -/
theorem Reflects.ofStatements_statements (h : g.Reflects ss) (hss : Coherent ss)
    (hwritten : ∀ t ∈ ss.flatMap Statement.tokens, t.IsWritten) :
    ofStatements g.statements = .ok g := by
  have hnames : ∀ name ∈ g.statements.flatMap Statement.symbolNames, IsName name := by
    intro name hname
    obtain ⟨s, hs, hname⟩ := List.mem_flatMap.1 hname
    exact isName_of_isWritten (h.isWritten_statements hwritten _
      (List.mem_flatMap.2 ⟨s, hs, GrammarText.symbol_mem_tokens hname⟩))
  have hyields := ofStatements_yields hnames
  obtain ⟨g', hg'⟩ := hyields.exists_ok_iff.2 (h.coherent_statements hss)
  -- both grammars are the one that the statements describe
  rw [hg', (hyields.of_ok hg').eq_described, ← h.statements.eq_described]

theorem exists_read_of_ofText (h : ofText source = .ok g) :
    ∃ ss, GrammarText.read source = .ok ss := by
  rw [ofText] at h
  cases hread : GrammarText.read source with
  | error e => rw [hread] at h; cases h
  | ok ss => exact ⟨ss, rfl⟩

/-- The text of a grammar that has been loaded gives the grammar again. -/
theorem ofText_source (h : ofText source = .ok g) : ofText g.source = .ok g := by
  obtain ⟨ss, hread⟩ := exists_read_of_ofText h
  have hwritten := isWritten_of_read hread
  have hyields := ofStatements_yields (isName_of_read hread)
  have hss := (ofText_eq_ok_iff hread).1 h
  have hreflects := hyields.of_ok hss
  have hagain : GrammarText.read g.source = .ok g.statements := by
    rw [source_eq]
    exact read_lines (hreflects.isWritten_statements hwritten)
  rw [ofText_eq_ok_iff hagain]
  exact hreflects.ofStatements_statements (hyields.exists_ok_iff.1 ⟨g, hss⟩) hwritten

/-- A text whose symbols look like other tokens, with the empty string written out among symbols and
two alternatives that have none. -/
def awkwardText : String :=
  "@inherit Z Ea//b;\nE -> ->x Ea//b {3} @startx | @empty {007};  // the end\n" ++
    "Ea//b -> / Z {65535} E ε | a//b; Z -> E'' {0};\nE'' -> | ε';"

/-- The grammar of the text. -/
def awkward : Grammar where
  terminals := ["->x", "@startx", "/", "a//b", "ε'"]
  nonterminals := [⟨"E", false⟩, ⟨"Ea//b", true⟩, ⟨"Z", true⟩, ⟨"E''", false⟩]
  rules := [⟨0, [.terminal 2, .nonterminal 1, .action 3, .terminal 3]⟩, ⟨0, [.action 7]⟩,
    ⟨1, [.terminal 4, .nonterminal 2, .action 65535, .nonterminal 0]⟩, ⟨1, [.terminal 5]⟩,
    ⟨2, [.nonterminal 3, .action 0]⟩, ⟨3, []⟩, ⟨3, [.terminal 6]⟩]
  start := 0

theorem ofText_source_awkward : ofText awkwardText = .ok awkward ∧
    awkward.source =
      "@start E;\n@inherit Ea//b Z;\nE -> ->x Ea//b {3} @startx;\nE -> ε {7};\n" ++
        "Ea//b -> / Z {65535} E;\nEa//b -> a//b;\nZ -> E'' {0};\nE'' -> ε;\nE'' -> ε';\n" ∧
    ofText awkward.source = .ok awkward := by
  have hload : ofText awkwardText = .ok awkward := by decide +kernel
  exact ⟨hload, by decide +kernel, ofText_source hload⟩

end Grammar

end ArithFrontEnd
