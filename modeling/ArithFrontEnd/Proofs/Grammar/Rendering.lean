import ArithFrontEnd.Grammar.Description
import ArithFrontEnd.Grammar.Printer
import ArithFrontEnd.Proofs.Grammar.WellFormed
import ArithFrontEnd.Proofs.Lists.FirstOccurrences

/-!
# Rules rendered with names

A rule is rendered with the names of its symbols and the numbers of its actions.  As long as no name
is given to two symbols, the rule can be told from what it is rendered as, and the symbol of a name
is found at its first place.  Symbols that are added change nothing.

## Main definitions

* `Vocabulary.namedRule` — a rule with names in the place of symbols.
* `Vocabulary.Grows` — one vocabulary goes on where another ends.
* `Vocabulary.Classified` — the names are those of one symbol each, nonterminals by their first
  letter.

## Main results

* `Grows.namedRule_eq` — symbols that are added do not change how a rule is rendered.
* `Classified.symbol_of_element` — **a symbol can be told from its name.**
* `Classified.namedRule_inj` — and a rule from what it is rendered as.
-/

namespace ArithFrontEnd

open GrammarText

namespace Vocabulary

/-- The rule with the names of its symbols and the numbers of its actions. -/
def namedRule (v : Vocabulary) (rule : Rule) : NamedRule :=
  ⟨v.nonterminalName rule.left, rule.right.map v.element⟩

/-- The rule is made of declared symbols. -/
def DeclaresRule (v : Vocabulary) (rule : Rule) : Prop :=
  v.Declares (.nonterminal rule.left) ∧ ∀ s ∈ rule.right, v.Declares s

/-- One vocabulary has the names of another, with the same numbers. -/
structure Grows (v v' : Vocabulary) : Prop where
  /-- The terminals come first. -/
  terminals : v.terminals <+: v'.terminals
  /-- The nonterminals come first. -/
  nonterminals : v.nonterminalNames <+: v'.nonterminalNames

/-- No name is that of two symbols, and the names of nonterminals are those that look like it. -/
structure Classified (v : Vocabulary) : Prop where
  /-- Terminals have different names. -/
  nodup_terminals : v.terminals.Nodup
  /-- Nonterminals have different names. -/
  nodup_nonterminals : v.nonterminalNames.Nodup
  /-- No terminal is named like a nonterminal. -/
  terminal {name : String} (h : name ∈ v.terminals) : isNonterminalName name = false
  /-- Every nonterminal is named like one. -/
  nonterminal {name : String} (h : name ∈ v.nonterminalNames) : isNonterminalName name = true

variable {v v' v'' : Vocabulary} {s s' : GrammarSymbol} {rule rule' : Rule}

/-! ### Declared symbols -/

/-- A declared terminal is found among the names after the reserved ones. -/
theorem declares_terminal_iff {t : TerminalId} : v.Declares (.terminal t) ↔
    ∃ i < v.terminals.length, t = TerminalId.reserved + i := by
  rw [Declares, hasTerminal_iff, Nat.add_comm]
  constructor
  · rintro ⟨hle, hlt⟩
    exact ⟨t - TerminalId.reserved, Nat.sub_lt_left_of_lt_add hle hlt,
      (Nat.add_sub_cancel' hle).symm⟩
  · rintro ⟨i, hi, rfl⟩
    exact ⟨Nat.le_add_right _ _, Nat.add_lt_add_left hi _⟩

theorem declares_nonterminal_iff {n : NonterminalId} :
    v.Declares (.nonterminal n) ↔ n < v.nonterminalNames.length := by
  rw [Declares, hasNonterminal_iff, nonterminalNames, List.length_map]

theorem terminalName_eq {i : Nat} (hi : i < v.terminals.length) :
    v.terminalName (TerminalId.reserved + i) = v.terminals[i] := by
  have hreserved : reservedNames.length = TerminalId.reserved := rfl
  rw [terminalName, terminalNames, List.getD_eq_getElem?_getD, ← hreserved,
    List.getElem?_append_right (Nat.le_add_right _ _), Nat.add_sub_cancel_left,
    List.getElem?_eq_getElem hi, Option.getD_some]

theorem nonterminalName_eq {n : NonterminalId} (hn : n < v.nonterminalNames.length) :
    v.nonterminalName n = v.nonterminalNames[n] := by
  rw [nonterminalName, List.getD_eq_getElem?_getD, List.getElem?_eq_getElem hn, Option.getD_some]

theorem terminalName_mem {t : TerminalId} (ht : v.Declares (.terminal t)) :
    v.terminalName t ∈ v.terminals := by
  obtain ⟨i, hi, rfl⟩ := declares_terminal_iff.1 ht
  rw [terminalName_eq hi]
  exact List.getElem_mem hi

theorem nonterminalName_mem {n : NonterminalId} (hn : v.Declares (.nonterminal n)) :
    v.nonterminalName n ∈ v.nonterminalNames := by
  have hlt := declares_nonterminal_iff.1 hn
  rw [nonterminalName_eq hlt]
  exact List.getElem_mem hlt

/-- What is found by a name is a declared terminal. -/
theorem declares_of_terminal? {name : String} {t : TerminalId} (h : v.terminal? name = some t) :
    v.Declares (.terminal t) := by
  obtain ⟨i, hi, rfl⟩ := Option.map_eq_some_iff.1 h
  obtain ⟨hlt, -, -⟩ := List.findIdx?_eq_some_iff_getElem.1 hi
  exact declares_terminal_iff.2 ⟨i, hlt, rfl⟩

theorem declares_of_nonterminal? {name : String} {n : NonterminalId}
    (h : v.nonterminal? name = some n) : v.Declares (.nonterminal n) := by
  obtain ⟨hlt, -, -⟩ := List.findIdx?_eq_some_iff_getElem.1 h
  exact declares_nonterminal_iff.2 hlt

/-- Which nonterminals inherit may be said of their numbers or of themselves. -/
theorem isInherited_eq_iff {p : String → Bool} :
    (∀ n, v.Declares (.nonterminal n) → v.isInherited n = p (v.nonterminalName n)) ↔
      ∀ nonterminal ∈ v.nonterminals, nonterminal.inherited = p nonterminal.name := by
  have hplace : ∀ n (hn : n < v.nonterminals.length),
      v.isInherited n = v.nonterminals[n].inherited ∧
        v.nonterminalName n = v.nonterminals[n].name := by
    intro n hn
    rw [nonterminalName_eq (by simpa [nonterminalNames] using hn), isInherited,
      List.getElem?_eq_getElem hn]
    exact ⟨rfl, List.getElem_map _⟩
  simp only [Declares, hasNonterminal_iff, List.forall_mem_iff_getElem]
  refine forall₂_congr fun n hn => ?_
  rw [(hplace n hn).1, (hplace n hn).2]

theorem nonterminal?_eq_some {name : String} (h : name ∈ v.nonterminalNames) :
    v.nonterminal? name = some (v.nonterminalNames.idxOf name) := by
  have hidx := List.idxOf_eq_getD_idxOf? name v.nonterminalNames
  cases hfound : v.nonterminalNames.idxOf? name with
  | none => exact absurd h (List.idxOf?_eq_none_iff.1 hfound)
  | some n => rw [hidx, hfound, nonterminal?, hfound, Option.getD_some]

/-- The place of a name is the nonterminal of that name. -/
theorem nonterminalName_idxOf {name : String} (h : name ∈ v.nonterminalNames) :
    v.nonterminalName (v.nonterminalNames.idxOf name) = name := by
  rw [nonterminalName_eq (List.idxOf_lt_length_of_mem h)]
  exact List.getElem_idxOf _

theorem nonterminal?_eq_none {name : String} (h : name ∉ v.nonterminalNames) :
    v.nonterminal? name = none :=
  List.idxOf?_eq_none_iff.2 h

/-! ### Growing vocabularies -/

theorem Grows.refl (v : Vocabulary) : v.Grows v := ⟨List.prefix_rfl, List.prefix_rfl⟩

theorem Grows.trans (h : v.Grows v') (h' : v'.Grows v'') : v.Grows v'' :=
  ⟨h.terminals.trans h'.terminals, h.nonterminals.trans h'.nonterminals⟩

theorem Grows.extends (h : v.Grows v') : v.Extends v' where
  terminals_le := h.terminals.length_le
  nonterminals_le := by simpa [nonterminalNames] using h.nonterminals.length_le

/-- Symbols that are added change no names. -/
theorem Grows.element_eq (h : v.Grows v') (hs : v.Declares s) : v'.element s = v.element s := by
  cases s with
  | terminal t =>
    obtain ⟨i, hi, rfl⟩ := declares_terminal_iff.1 hs
    rw [element, element, terminalName_eq hi,
      terminalName_eq (Nat.lt_of_lt_of_le hi h.terminals.length_le), h.terminals.getElem]
  | nonterminal n =>
    have hn := declares_nonterminal_iff.1 hs
    rw [element, element, nonterminalName_eq hn,
      nonterminalName_eq (Nat.lt_of_lt_of_le hn h.nonterminals.length_le), h.nonterminals.getElem]
  | action a => rfl

/-- Symbols that are added do not change how a rule is rendered. -/
theorem Grows.namedRule_eq (h : v.Grows v') (hrule : v.DeclaresRule rule) :
    v'.namedRule rule = v.namedRule rule := by
  have hleft := h.element_eq hrule.1
  simp only [element, Element.symbol.injEq] at hleft
  rw [namedRule, namedRule, hleft, List.map_congr_left fun s hs => h.element_eq (hrule.2 s hs)]

/-! ### Symbols and their names -/

/-- The names in order of first appearance, sorted by their looks, are those of one symbol each. -/
theorem classified_of_eq {names : List String}
    (hterminals : v.terminals = names.eraseDups.filter (!isNonterminalName ·))
    (hnonterminals : v.nonterminalNames = names.eraseDups.filter isNonterminalName) :
    v.Classified where
  nodup_terminals := hterminals ▸ (nodup_eraseDups names).filter _
  nodup_nonterminals := hnonterminals ▸ (nodup_eraseDups names).filter _
  terminal hname := by
    rw [hterminals] at hname
    simpa using (List.mem_filter.1 hname).2
  nonterminal hname := by
    rw [hnonterminals] at hname
    exact (List.mem_filter.1 hname).2

/-- A declared terminal is found by its name. -/
theorem Classified.idxOf_terminalName (h : v.Classified) {t : TerminalId}
    (ht : v.Declares (.terminal t)) :
    TerminalId.reserved + v.terminals.idxOf (v.terminalName t) = t := by
  obtain ⟨i, hi, rfl⟩ := declares_terminal_iff.1 ht
  rw [terminalName_eq hi, h.nodup_terminals.idxOf_getElem i hi]

/-- A declared nonterminal is found by its name. -/
theorem Classified.idxOf_nonterminalName (h : v.Classified) {n : NonterminalId}
    (hn : v.Declares (.nonterminal n)) : v.nonterminalNames.idxOf (v.nonterminalName n) = n := by
  have hlt := declares_nonterminal_iff.1 hn
  rw [nonterminalName_eq hlt, h.nodup_nonterminals.idxOf_getElem n hlt]

theorem Classified.isNonterminalName_terminalName (h : v.Classified) {t : TerminalId}
    (ht : v.Declares (.terminal t)) : isNonterminalName (v.terminalName t) = false :=
  h.terminal (terminalName_mem ht)

theorem Classified.isNonterminalName_nonterminalName (h : v.Classified) {n : NonterminalId}
    (hn : v.Declares (.nonterminal n)) : isNonterminalName (v.nonterminalName n) = true :=
  h.nonterminal (nonterminalName_mem hn)

/-- The symbol of a name, if it is that of a symbol. -/
def symbolOf? (v : Vocabulary) : Element → Option GrammarSymbol
  | .symbol name =>
    if isNonterminalName name then some (.nonterminal (v.nonterminalNames.idxOf name))
    else some (.terminal (TerminalId.reserved + v.terminals.idxOf name))
  | .action a => some (.action a)
  | .empty => none

/-- A symbol can be told from its name. -/
theorem Classified.symbolOf?_element (h : v.Classified) (hs : v.Declares s) :
    v.symbolOf? (v.element s) = some s := by
  cases s with
  | terminal t =>
    rw [element, symbolOf?, h.isNonterminalName_terminalName hs, h.idxOf_terminalName hs]
    rfl
  | nonterminal n =>
    rw [element, symbolOf?, h.isNonterminalName_nonterminalName hs, h.idxOf_nonterminalName hs]
    rfl
  | action a => rfl

/-- Different symbols have different names. -/
theorem Classified.element_inj (h : v.Classified) (hs : v.Declares s) (hs' : v.Declares s')
    (heq : v.element s = v.element s') : s = s' := by
  have hsome := h.symbolOf?_element hs
  rw [heq, h.symbolOf?_element hs'] at hsome
  exact (Option.some.inj hsome).symm

/-- A symbol is a nonterminal if its name looks like it. -/
theorem Classified.isNonterminalName_iff (h : v.Classified) {name : String} (hs : v.Declares s)
    (hname : v.element s = .symbol name) :
    isNonterminalName name = true ↔ ∃ n, s = .nonterminal n := by
  cases s with
  | terminal t =>
    obtain rfl := Element.symbol.inj hname
    simp [h.isNonterminalName_terminalName hs]
  | nonterminal n =>
    obtain rfl := Element.symbol.inj hname
    simp [h.isNonterminalName_nonterminalName hs]
  | action a => cases hname

/-- The symbols of a right-hand side can be told from their names. -/
theorem Classified.filterMap_symbolOf? (h : v.Classified) {right : List GrammarSymbol}
    (hright : ∀ s ∈ right, v.Declares s) : (right.map v.element).filterMap v.symbolOf? = right := by
  have hfound : right.filterMap (v.symbolOf? ∘ v.element) = right.filterMap some :=
    List.filterMap_congr fun s hs => h.symbolOf?_element (hright s hs)
  rw [List.filterMap_map, hfound, List.filterMap_some]

/-- A rule can be told from what it is rendered as. -/
theorem Classified.namedRule_inj (h : v.Classified) (hrule : v.DeclaresRule rule)
    (hrule' : v.DeclaresRule rule') (heq : v.namedRule rule = v.namedRule rule') :
    rule = rule' := by
  obtain ⟨hname, helements⟩ := NamedRule.mk.inj heq
  have hleft : rule.left = rule'.left := by
    rw [← h.idxOf_nonterminalName hrule.1, hname, h.idxOf_nonterminalName hrule'.1]
  have hright : rule.right = rule'.right := by
    rw [← h.filterMap_symbolOf? hrule.2, helements, h.filterMap_symbolOf? hrule'.2]
  calc rule = ⟨rule.left, rule.right⟩ := rfl
    _ = ⟨rule'.left, rule'.right⟩ := by rw [hleft, hright]
    _ = rule' := rfl

end Vocabulary
end ArithFrontEnd
