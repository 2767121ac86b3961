import ArithFrontEnd.Proofs.Grammar.Rendering
import ArithFrontEnd.Proofs.GrammarText.Flattening

/-!
# Declaring the rules of a statement

A rule of a grammar text becomes declarations: its symbols are declared where their names appear
first, and each alternative becomes a rule.  The only reasons to refuse one are a reserved name, a
rule that is there already, and a symbol or a rule that there is no number for.  What has been
declared is told by two lists, the names in the order in which they have been read and the rules as
they have been written.

## Main definitions

* `Yields` — a computation gives a result exactly under a condition.
* `AdmissibleNames`, `AdmissibleRules` — there can be symbols of these names, and these rules.
* `Definition.Renders` — the definition has the symbols of these names and the rules that read so.
* `Definition.Adds` — a right-hand side stands for the elements of an alternative.

## Main results

* `Renders.intern`, `Renders.internAll` — **symbols are refused for reserved names, or because there
  is no number for them.**
* `Renders.declareRule` — a rule is refused if it has been declared.
* `Renders.declareAlternatives` — what the alternatives of a left-hand side declare.
-/

namespace ArithFrontEnd

open GrammarText

/-! ### Computations that may be refused -/

/-- The computation gives such a result if the condition holds, and an error otherwise. -/
def Yields {ε α : Type} (condition : Prop) (such : α → Prop) : Except ε α → Prop
  | .ok a => condition ∧ such a
  | .error _ => ¬ condition

namespace Yields

variable {ε α β : Type} {p q : Prop} {P P' : α → Prop} {Q : β → Prop} {x : Except ε α}

theorem ok {a : α} (hp : p) (ha : P a) : Yields p P (.ok a : Except ε α) := ⟨hp, ha⟩

theorem error {e : ε} (hp : ¬ p) : Yields p P (.error e) := hp

/-- The condition and the result may be said differently. -/
theorem imp (h : Yields p P x) (hpq : p ↔ q) (hP : ∀ a, q → P a → P' a) : Yields q P' x := by
  cases x with
  | ok a => exact ⟨hpq.1 h.1, hP a (hpq.1 h.1) h.2⟩
  | error e => exact fun hq => h (hpq.2 hq)

/-- One computation after another is refused if one of them is. -/
theorem bind {f : α → Except ε β} (h : Yields p P x) (hf : ∀ a, P a → Yields q Q (f a)) :
    Yields (p ∧ q) Q (x.bind f) := by
  cases x with
  | error e => exact fun hpq => h hpq.1
  | ok a =>
    have hfa := hf a h.2
    change Yields (p ∧ q) Q (f a)
    cases hx : f a with
    | error e =>
      rw [hx] at hfa
      exact fun hpq => hfa hpq.2
    | ok b =>
      rw [hx] at hfa
      exact ⟨⟨h.1, hfa.1⟩, hfa.2⟩

theorem map {f : α → β} (h : Yields p P x) (hf : ∀ a, P a → Q (f a)) : Yields p Q (x.map f) := by
  cases x with
  | ok a => exact ⟨h.1, hf a h.2⟩
  | error e => exact h

theorem exists_ok_iff (h : Yields p P x) : (∃ a, x = .ok a) ↔ p := by
  cases x with
  | ok a => exact ⟨fun _ => h.1, fun _ => ⟨a, rfl⟩⟩
  | error e => exact ⟨fun ⟨a, ha⟩ => (by cases ha), fun hp => absurd hp h⟩

theorem of_ok {a : α} (h : Yields p P x) (hx : x = .ok a) : P a := by
  subst hx
  exact h.2

end Yields

/-! ### What can be declared -/

/-- There can be symbols of these names: none of them is reserved, and there are numbers for all. -/
structure AdmissibleNames (names : List String) : Prop where
  /-- No name is reserved. -/
  not_reserved : ∀ name ∈ names, name ∉ Vocabulary.reservedNames
  /-- There are numbers for the terminals. -/
  terminals_le : TerminalId.reserved + (names.eraseDups.filter (!isNonterminalName ·)).length ≤
    Definition.maxId
  /-- There are numbers for the nonterminals. -/
  nonterminals_le : (names.eraseDups.filter isNonterminalName).length ≤ Definition.maxId

/-- There can be these rules: none is given twice, and there are numbers for all. -/
structure AdmissibleRules (rules : List NamedRule) : Prop where
  /-- No rule is given twice. -/
  nodup : rules.Nodup
  /-- There are numbers for the rules. -/
  length_le : rules.length ≤ Definition.maxId

/-- There can be symbols of some names if there can be symbols of more. -/
theorem AdmissibleNames.of_append {names names' : List String}
    (h : AdmissibleNames (names ++ names')) : AdmissibleNames names where
  not_reserved name hname := h.not_reserved name (List.mem_append_left _ hname)
  terminals_le := by
    have hle := h.terminals_le
    rw [List.eraseDups_append, List.filter_append, List.length_append] at hle
    omega
  nonterminals_le := by
    have hle := h.nonterminals_le
    rw [List.eraseDups_append, List.filter_append, List.length_append] at hle
    omega

theorem AdmissibleRules.of_append {rules rules' : List NamedRule}
    (h : AdmissibleRules (rules ++ rules')) : AdmissibleRules rules where
  nodup := (List.nodup_append.1 h.nodup).1
  length_le := by
    have hle := h.length_le
    rw [List.length_append] at hle
    omega

/-- A name that has been read before needs no number. -/
theorem AdmissibleNames.again {names : List String} {name : String} (h : AdmissibleNames names)
    (hname : name ∈ names) : AdmissibleNames (names ++ [name]) := by
  have hsame : (names ++ [name]).eraseDups = names.eraseDups := by
    rw [eraseDups_concat, if_pos (List.mem_eraseDups.2 hname)]
  refine ⟨fun other hother => ?_, hsame ▸ h.terminals_le, hsame ▸ h.nonterminals_le⟩
  rcases List.mem_append.1 hother with hother | hother
  · exact h.not_reserved other hother
  · exact h.not_reserved other (List.mem_singleton.1 hother ▸ hname)

/-- One more rule needs to be new, and to have a number. -/
theorem admissibleRules_concat_iff {rules : List NamedRule} {rule : NamedRule}
    (h : AdmissibleRules rules) :
    AdmissibleRules (rules ++ [rule]) ↔ rule ∉ rules ∧ rules.length < Definition.maxId := by
  constructor
  · rintro ⟨hnodup, hle⟩
    rw [List.length_append] at hle
    exact ⟨fun hmem => (List.nodup_append.1 hnodup).2.2 _ hmem _ (List.mem_singleton_self _) rfl,
      hle⟩
  · rintro ⟨hnew, hlt⟩
    refine ⟨by simpa using h.nodup.concat hnew, ?_⟩
    rw [List.length_append]
    exact hlt

namespace Definition

variable {d d' : Definition} {name left : String} {names names' : List String}
  {rules : List NamedRule} {elements elements' : Alternative} {rule : Rule}

/-! ### What has been declared -/

/-- The definition has the symbols of these names, numbered in order of first appearance, and the
rules that read so.  Nothing has been stated of the start symbol or of inherited attributes. -/
structure Renders (d : Definition) (names : List String) (rules : List NamedRule) : Prop where
  /-- The rules are made of declared symbols. -/
  wellFormed : d.WellFormed
  /-- The terminals are those names that do not look like nonterminals. -/
  terminals : d.terminals = names.eraseDups.filter (!isNonterminalName ·)
  /-- The nonterminals are the others. -/
  nonterminals : d.nonterminals = (names.eraseDups.filter isNonterminalName).map (⟨·, false⟩)
  /-- The rules read so. -/
  reads : d.rules.map d.namedRule = rules
  /-- No start symbol has been stated. -/
  start : d.start = none
  /-- There can be symbols of these names. -/
  names : AdmissibleNames names
  /-- There can be these rules. -/
  rules : AdmissibleRules rules

theorem empty_renders : empty.Renders [] [] where
  wellFormed := empty_wellFormed
  terminals := rfl
  nonterminals := rfl
  reads := rfl
  start := rfl
  names := ⟨by simp, by decide, by decide⟩
  rules := ⟨List.nodup_nil, by decide⟩

theorem Renders.nonterminalNames (h : d.Renders names rules) :
    d.nonterminalNames = names.eraseDups.filter isNonterminalName := by
  rw [Vocabulary.nonterminalNames, h.nonterminals, List.map_map]
  exact List.map_id _

theorem Renders.mem_terminals_iff (h : d.Renders names rules) :
    name ∈ d.terminals ↔ name ∈ names ∧ isNonterminalName name = false := by
  simp [h.terminals]

theorem Renders.mem_nonterminalNames_iff (h : d.Renders names rules) :
    name ∈ d.nonterminalNames ↔ name ∈ names ∧ isNonterminalName name = true := by
  simp [h.nonterminalNames]

/-- Every name is that of one symbol. -/
theorem Renders.classified (h : d.Renders names rules) : d.Classified :=
  Vocabulary.classified_of_eq h.terminals h.nonterminalNames

theorem Renders.declaresRule (h : d.Renders names rules) (hrule : rule ∈ d.rules) :
    d.DeclaresRule rule :=
  ⟨h.wellFormed.left hrule, fun _ hs => h.wellFormed.right hrule hs⟩

/-- The definition may get more symbols. -/
theorem Renders.grow {v : Vocabulary} (h : d.Renders names rules) (hgrows : d.Grows v)
    (hterminals : v.terminals = names'.eraseDups.filter (!isNonterminalName ·))
    (hnonterminals : v.nonterminals = (names'.eraseDups.filter isNonterminalName).map (⟨·, false⟩))
    (hnames : AdmissibleNames names') : Renders ⟨v, d.rules, d.start⟩ names' rules where
  wellFormed := h.wellFormed.extend hgrows.extends
  terminals := hterminals
  nonterminals := hnonterminals
  reads := by
    rw [← h.reads]
    exact List.map_congr_left fun rule hrule => hgrows.namedRule_eq (h.declaresRule hrule)
  start := h.start
  names := hnames
  rules := h.rules

/-- A name that has been read before changes nothing. -/
theorem Renders.again (h : d.Renders names rules) (hname : name ∈ names) :
    d.Renders (names ++ [name]) rules := by
  have hsame : (names ++ [name]).eraseDups = names.eraseDups := by
    rw [eraseDups_concat, if_pos (List.mem_eraseDups.2 hname)]
  exact h.grow (Vocabulary.Grows.refl _) (hsame ▸ h.terminals) (hsame ▸ h.nonterminals)
    (h.names.again hname)

theorem eraseDups_concat_of_new (hname : name ∉ names) :
    (names ++ [name]).eraseDups = names.eraseDups ++ [name] := by
  rw [eraseDups_concat, if_neg fun hmem => hname (List.mem_eraseDups.1 hmem)]

/-- There can be one more terminal if its name is not reserved and there is a number for it. -/
theorem Renders.admissible_terminal_iff (h : d.Renders names rules) (hnew : name ∉ names)
    (hclass : isNonterminalName name = false) : AdmissibleNames (names ++ [name]) ↔
      name ∉ Vocabulary.reservedNames ∧ d.terminalNames.length < maxId := by
  have hlength : d.terminalNames.length =
      TerminalId.reserved + (names.eraseDups.filter (!isNonterminalName ·)).length :=
    h.terminals ▸ List.length_append
  have hnext : TerminalId.reserved +
      ((names ++ [name]).eraseDups.filter (!isNonterminalName ·)).length =
        d.terminalNames.length + 1 := by
    rw [eraseDups_concat_of_new hnew, List.filter_append, List.length_append, hlength,
      Nat.add_assoc, List.filter_singleton, hclass]
    rfl
  constructor
  · rintro ⟨hreserved, hle, -⟩
    rw [hnext] at hle
    exact ⟨hreserved name (List.mem_append_right _ (List.mem_singleton_self _)), hle⟩
  · rintro ⟨hreserved, hlt⟩
    refine ⟨List.forall_mem_append.2 ⟨h.names.not_reserved, List.forall_mem_singleton.2 hreserved⟩,
      hnext ▸ hlt, ?_⟩
    simpa [eraseDups_concat_of_new hnew, hclass] using h.names.nonterminals_le

/-- There can be one more nonterminal if its name is not reserved and there is a number for it. -/
theorem Renders.admissible_nonterminal_iff (h : d.Renders names rules) (hnew : name ∉ names)
    (hclass : isNonterminalName name = true) : AdmissibleNames (names ++ [name]) ↔
      name ∉ Vocabulary.reservedNames ∧ d.nonterminals.length < maxId := by
  have hlength : d.nonterminals.length = (names.eraseDups.filter isNonterminalName).length := by
    rw [h.nonterminals, List.length_map]
  have hnext : ((names ++ [name]).eraseDups.filter isNonterminalName).length =
      d.nonterminals.length + 1 := by
    rw [eraseDups_concat_of_new hnew, List.filter_append, List.length_append, hlength,
      List.filter_singleton, hclass]
    rfl
  constructor
  · rintro ⟨hreserved, -, hle⟩
    rw [hnext] at hle
    exact ⟨hreserved name (List.mem_append_right _ (List.mem_singleton_self _)), hle⟩
  · rintro ⟨hreserved, hlt⟩
    refine ⟨List.forall_mem_append.2 ⟨h.names.not_reserved, List.forall_mem_singleton.2 hreserved⟩,
      ?_, hnext ▸ hlt⟩
    simpa [eraseDups_concat_of_new hnew, hclass] using h.names.terminals_le

/-- A new name becomes a terminal. -/
theorem Renders.terminal (h : d.Renders names rules) (hnew : name ∉ names)
    (hnames : AdmissibleNames (names ++ [name])) (hclass : isNonterminalName name = false) :
    Renders { d with terminals := d.terminals ++ [name] } (names ++ [name]) rules := by
  refine h.grow ⟨List.prefix_append _ _, List.prefix_rfl⟩ ?_ ?_ hnames
  · simp [eraseDups_concat_of_new hnew, h.terminals, hclass]
  · simp [eraseDups_concat_of_new hnew, h.nonterminals, hclass]

/-- A new name becomes a nonterminal. -/
theorem Renders.nonterminal (h : d.Renders names rules) (hnew : name ∉ names)
    (hnames : AdmissibleNames (names ++ [name])) (hclass : isNonterminalName name = true) :
    Renders { d with nonterminals := d.nonterminals ++ [⟨name, false⟩] } (names ++ [name])
      rules := by
  refine h.grow ⟨List.prefix_rfl, ?_⟩ ?_ ?_ hnames
  · simp [Vocabulary.nonterminalNames]
  · simp [eraseDups_concat_of_new hnew, h.terminals, hclass]
  · simp [eraseDups_concat_of_new hnew, h.nonterminals, hclass]

/-! ### The symbol of a name -/

/-- A name can be given to a symbol if it is one and no symbol has it. -/
theorem nameError?_eq_none_iff : d.nameError? name = none ↔
    IsName name ∧ name ∉ d.terminalNames ∧ name ∉ d.nonterminalNames := by
  have hgood : IsName name ↔ (name.isEmpty || name.toList.any Text.isBlank) = false :=
    Bool.or_eq_false_iff.symm
  rw [hgood]
  unfold nameError?
  cases hbad : name.isEmpty || name.toList.any Text.isBlank with
  | true => simp
  | false => by_cases hterminal : name ∈ d.terminalNames <;> simp [hterminal]

/-- A new name can be given to a symbol if it is not reserved. -/
theorem Renders.nameError?_eq_none_iff (h : d.Renders names rules) (hname : IsName name)
    (hnew : name ∉ names) : d.nameError? name = none ↔ name ∉ Vocabulary.reservedNames := by
  have hterminal : name ∈ d.terminalNames ↔ name ∈ Vocabulary.reservedNames := by
    rw [Vocabulary.terminalNames, List.mem_append, h.mem_terminals_iff]
    exact or_iff_left fun hmem => hnew hmem.1
  have hnonterminal : name ∉ d.nonterminalNames := fun hmem =>
    hnew (h.mem_nonterminalNames_iff.1 hmem).1
  rw [Definition.nameError?_eq_none_iff, and_iff_right hname, and_iff_left hnonterminal,
    hterminal]

/-- A right-hand side stands for the elements of an alternative, whose names come after those that
have been read before. -/
structure Adds (d : Definition) (names : List String) (rules : List NamedRule)
    (elements : Alternative) (added : List GrammarSymbol × Definition) : Prop where
  /-- The names of the elements have been read. -/
  renders : added.2.Renders (names ++ elements.filterMap Element.name?) rules
  /-- No symbol has been lost. -/
  grows : d.Grows added.2.toVocabulary
  /-- The symbols of the right-hand side are declared. -/
  declares : ∀ s ∈ added.1, added.2.Declares s
  /-- They have the names of the elements. -/
  element : added.1.map added.2.element = elements.filter (· ≠ .empty)

/-- Nothing has to be declared for elements without names. -/
theorem Renders.adds {right : List GrammarSymbol} (h : d.Renders names rules)
    (hnames : elements.filterMap Element.name? = []) (hright : ∀ s ∈ right, d.Declares s)
    (helement : right.map d.element = elements.filter (· ≠ .empty)) :
    Adds d names rules elements (right, d) where
  renders := by
    rw [hnames, List.append_nil]
    exact h
  grows := Vocabulary.Grows.refl _
  declares := hright
  element := helement

/-- Some elements come after others. -/
theorem Adds.append {added added' : List GrammarSymbol × Definition}
    (h : Adds d names rules elements added)
    (h' : Adds added.2 (names ++ elements.filterMap Element.name?) rules elements' added') :
    Adds d names rules (elements ++ elements') (added.1 ++ added'.1, added'.2) where
  renders := by
    rw [List.filterMap_append, ← List.append_assoc]
    exact h'.renders
  grows := h.grows.trans h'.grows
  declares s hs := by
    rcases List.mem_append.1 hs with hs | hs
    · exact h'.grows.extends.declares (h.declares s hs)
    · exact h'.declares s hs
  element := by
    rw [List.map_append, List.filter_append, ← h.element, ← h'.element,
      List.map_congr_left fun s hs => h'.grows.element_eq (h.declares s hs)]

/-- A symbol of a name stands for the name. -/
theorem Renders.adds_symbol {s : GrammarSymbol} (h : d'.Renders (names ++ [name]) rules)
    (hgrows : d.Grows d'.toVocabulary) (hs : d'.Declares s)
    (helement : d'.element s = .symbol name) :
    Adds d names rules [.symbol name] ([s], d') where
  renders := h
  grows := hgrows
  declares _ hmem := List.mem_singleton.1 hmem ▸ hs
  element := by simp [helement]

/-- A new nonterminal is refused if its name is reserved or there is no number for it. -/
theorem Renders.declareNonterminal (h : d.Renders names rules) (hname : IsName name)
    (hnew : name ∉ names) (hclass : isNonterminalName name = true) :
    Yields (AdmissibleNames (names ++ [name]))
      (fun found => Adds d names rules [.symbol name] ([.nonterminal found.1], found.2))
      (d.declareNonterminal name) := by
  have hiff := h.admissible_nonterminal_iff hnew hclass
  rw [← h.nameError?_eq_none_iff hname hnew] at hiff
  cases hdeclared : d.declareNonterminal name with
  | error e =>
    refine Yields.error fun hnames => ?_
    obtain ⟨herror, hlt⟩ := hiff.1 hnames
    rw [declareNonterminal_eq_ok_iff.2 ⟨herror, hlt, rfl, rfl⟩] at hdeclared
    cases hdeclared
  | ok declared =>
    obtain ⟨n, d'⟩ := declared
    obtain ⟨herror, hlt, rfl, rfl⟩ := declareNonterminal_eq_ok_iff.1 hdeclared
    have hnames := hiff.2 ⟨herror, hlt⟩
    refine Yields.ok hnames
      ((h.nonterminal hnew hnames hclass).adds_symbol ⟨List.prefix_rfl, ?_⟩ ?_ ?_)
    · simp [Vocabulary.nonterminalNames]
    · simp [Vocabulary.Declares, Vocabulary.hasNonterminal]
    · simp [Vocabulary.element, Vocabulary.nonterminalName, Vocabulary.nonterminalNames]

/-- A new terminal is refused if its name is reserved or there is no number for it. -/
theorem Renders.declareTerminal (h : d.Renders names rules) (hname : IsName name)
    (hnew : name ∉ names) (hclass : isNonterminalName name = false) :
    Yields (AdmissibleNames (names ++ [name]))
      (fun found => Adds d names rules [.symbol name] ([.terminal found.1], found.2))
      (d.declareTerminal name) := by
  have hiff := h.admissible_terminal_iff hnew hclass
  rw [← h.nameError?_eq_none_iff hname hnew] at hiff
  cases hdeclared : d.declareTerminal name with
  | error e =>
    refine Yields.error fun hnames => ?_
    obtain ⟨herror, hlt⟩ := hiff.1 hnames
    rw [declareTerminal_eq_ok_iff.2 ⟨herror, hlt, rfl, rfl⟩] at hdeclared
    cases hdeclared
  | ok declared =>
    obtain ⟨t, d'⟩ := declared
    obtain ⟨herror, hlt, rfl, rfl⟩ := declareTerminal_eq_ok_iff.1 hdeclared
    have hnames := hiff.2 ⟨herror, hlt⟩
    have hlength : d.terminalNames.length = TerminalId.reserved + d.terminals.length :=
      List.length_append
    have hgrows : d.Grows ⟨d.terminals ++ [name], d.nonterminals⟩ :=
      ⟨List.prefix_append _ _, List.prefix_rfl⟩
    refine Yields.ok hnames ((h.terminal hnew hnames hclass).adds_symbol hgrows ?_ ?_)
    · rw [Vocabulary.declares_terminal_iff]
      exact ⟨d.terminals.length, by simp, hlength⟩
    · rw [Vocabulary.element, hlength, Vocabulary.terminalName_eq (by simp)]
      simp

/-- A symbol that has been declared keeps its number. -/
theorem Renders.adds_again {s : GrammarSymbol} (h : d.Renders names rules) (hmem : name ∈ names)
    (hs : d.Declares s) (helement : d.element s = .symbol name) :
    Adds d names rules [.symbol name] ([s], d) :=
  (h.again hmem).adds_symbol (Vocabulary.Grows.refl _) hs helement

/-- A name is that of a symbol, which is declared if it is new and can be. -/
theorem Renders.intern (h : d.Renders names rules) (hname : IsName name) :
    Yields (AdmissibleNames (names ++ [name]))
      (fun found => Adds d names rules [.symbol name] ([found.1], found.2)) (d.intern name) := by
  unfold Definition.intern
  by_cases hclass : isNonterminalName name = true
  · rw [if_pos hclass]
    cases hfound : d.nonterminal? name with
    | some n =>
      have hn := Vocabulary.declares_of_nonterminal? hfound
      have hnamed := Vocabulary.nonterminalName_of_nonterminal? hfound
      have hdeclared : name ∈ d.nonterminalNames := hnamed ▸ Vocabulary.nonterminalName_mem hn
      have hmem := (h.mem_nonterminalNames_iff.1 hdeclared).1
      exact Yields.ok (h.names.again hmem)
        (h.adds_again hmem hn (congrArg Element.symbol hnamed))
    | none =>
      have hnew : name ∉ names := fun hmem =>
        List.idxOf?_eq_none_iff.1 hfound (h.mem_nonterminalNames_iff.2 ⟨hmem, hclass⟩)
      exact (h.declareNonterminal hname hnew hclass).map fun found hadds => hadds
  · rw [if_neg hclass]
    rw [Bool.not_eq_true] at hclass
    cases hfound : d.terminal? name with
    | some t =>
      have ht := Vocabulary.declares_of_terminal? hfound
      have hnamed := Vocabulary.terminalName_of_terminal? hfound
      have hdeclared : name ∈ d.terminals := hnamed ▸ Vocabulary.terminalName_mem ht
      have hmem := (h.mem_terminals_iff.1 hdeclared).1
      exact Yields.ok (h.names.again hmem)
        (h.adds_again hmem ht (congrArg Element.symbol hnamed))
    | none =>
      have hnew : name ∉ names := fun hmem =>
        List.idxOf?_eq_none_iff.1 (Option.map_eq_none_iff.1 hfound)
          (h.mem_terminals_iff.2 ⟨hmem, hclass⟩)
      exact (h.declareTerminal hname hnew hclass).map fun found hadds => hadds

theorem internAll_symbol (d : Definition) (name : String) (elements : Alternative) :
    d.internAll (.symbol name :: elements) = (d.intern name).bind fun found =>
      (found.2.internAll elements).map fun added => (found.1 :: added.1, added.2) := by
  rw [Definition.internAll]
  cases d.intern name <;> rfl

/-- The symbols of an alternative are refused if there cannot be symbols of its names. -/
theorem Renders.internAll (h : d.Renders names rules)
    (hnames : ∀ name ∈ elements.filterMap Element.name?, IsName name) :
    Yields (AdmissibleNames (names ++ elements.filterMap Element.name?))
      (Adds d names rules elements) (d.internAll elements) := by
  induction elements generalizing d names with
  | nil => exact Yields.ok (by simpa using h.names) (h.adds rfl (by simp) rfl)
  | cons e elements ih =>
    cases e with
    | empty =>
      have head : Adds d names rules [.empty] ([], d) := h.adds rfl (by simp) rfl
      refine (ih head.renders hnames).imp ?_ fun _ _ => head.append
      rw [List.append_assoc]
      exact Iff.rfl
    | action a =>
      have head : Adds d names rules [.action a] ([.action a], d) :=
        h.adds rfl (by simp [Vocabulary.Declares]) rfl
      refine ((ih head.renders hnames).map fun _ => head.append).imp ?_ fun _ _ => id
      rw [List.append_assoc]
      exact Iff.rfl
    | symbol name =>
      obtain ⟨hname, hnames⟩ := List.forall_mem_cons.1 hnames
      have hcons : (Element.symbol name :: elements).filterMap Element.name? =
          name :: elements.filterMap Element.name? := rfl
      rw [internAll_symbol, hcons, List.append_cons]
      refine ((h.intern hname).bind fun _ head =>
        (ih head.renders hnames).map fun _ => head.append).imp
          ⟨And.right, fun hadmissible => ⟨hadmissible.of_append, hadmissible⟩⟩ fun _ _ => id

/-! ### Rules -/

/-- A rule has been declared if one that reads like it has. -/
theorem Renders.namedRule_mem_iff (h : d.Renders names rules) (hrule : d.DeclaresRule rule) :
    d.namedRule rule ∈ rules ↔ rule ∈ d.rules := by
  rw [← h.reads, List.mem_map]
  constructor
  · rintro ⟨other, hother, heq⟩
    exact h.classified.namedRule_inj (h.declaresRule hother) hrule heq ▸ hother
  · exact fun hmem => ⟨rule, hmem, rfl⟩

/-- A rule of declared symbols is refused if it has been declared or there is no number for it. -/
theorem Renders.declareRule (h : d.Renders names rules) (hrule : d.DeclaresRule rule) :
    Yields (AdmissibleRules (rules ++ [d.namedRule rule]))
      (fun declared => declared.2.Renders names (rules ++ [d.namedRule rule]) ∧
        declared.2.toVocabulary = d.toVocabulary) (d.declareRule rule) := by
  have hlength : d.rules.length = rules.length := by rw [← h.reads, List.length_map]
  have hiff : d.ruleError? rule = none ↔ AdmissibleRules (rules ++ [d.namedRule rule]) := by
    rw [ruleError?_eq_none_iff, admissibleRules_concat_iff h.rules, h.namedRule_mem_iff hrule,
      hlength]
    exact and_iff_right hrule
  cases hdeclared : d.declareRule rule with
  | error e =>
    refine Yields.error fun hrules => ?_
    rw [declareRule_eq_ok_iff.2 ⟨hiff.2 hrules, rfl, rfl⟩] at hdeclared
    cases hdeclared
  | ok declared =>
    obtain ⟨r, d'⟩ := declared
    have hwellFormed := declareRule_wellFormed h.wellFormed hdeclared
    obtain ⟨herror, rfl, rfl⟩ := declareRule_eq_ok_iff.1 hdeclared
    have hrules := hiff.1 herror
    refine Yields.ok hrules ⟨⟨hwellFormed, h.terminals, h.nonterminals, ?_, h.start, h.names,
      hrules⟩, rfl⟩
    rw [← h.reads]
    exact List.map_append

/-- The rule that an alternative is written as, in which the empty string is not written out. -/
def writtenRule (left : String) (elements : Alternative) : NamedRule :=
  ⟨left, elements.filter (· ≠ .empty)⟩

theorem declareAlternatives_cons (d : Definition) (n : NonterminalId) (elements : Alternative)
    (alternatives : List Alternative) :
    d.declareAlternatives n (elements :: alternatives) = (d.internAll elements).bind fun added =>
      (added.2.declareRule ⟨n, added.1⟩).bind fun declared =>
        declared.2.declareAlternatives n alternatives := by
  rw [Definition.declareAlternatives]
  cases d.internAll elements with
  | error e => rfl
  | ok added =>
    obtain ⟨right, d'⟩ := added
    dsimp only [Except.bind]
    cases d'.declareRule ⟨n, right⟩ <;> rfl

section Alternatives

variable {n : NonterminalId} {added : List GrammarSymbol × Definition}

theorem Adds.declaresRule (h : Adds d names rules elements added)
    (hn : d.Declares (.nonterminal n)) : added.2.DeclaresRule ⟨n, added.1⟩ :=
  ⟨h.grows.extends.declares hn, h.declares⟩

theorem Adds.nonterminalName_eq (h : Adds d names rules elements added)
    (hn : d.Declares (.nonterminal n)) : added.2.nonterminalName n = d.nonterminalName n :=
  Element.symbol.inj (h.grows.element_eq hn)

/-- The right-hand side that stands for an alternative gives the rule of the alternative. -/
theorem Adds.namedRule_eq (h : Adds d names rules elements added)
    (hn : d.Declares (.nonterminal n)) :
    added.2.namedRule ⟨n, added.1⟩ = writtenRule (d.nonterminalName n) elements := by
  rw [Vocabulary.namedRule, h.element, h.nonterminalName_eq hn, writtenRule]

/-- The rule of an alternative is refused if it is there already or there is no number for it. -/
theorem Adds.declareRule (h : Adds d names rules elements added) (hn : d.Declares (.nonterminal n))
    (hleft : d.nonterminalName n = left) :
    Yields (AdmissibleRules (rules ++ [writtenRule left elements]))
      (fun declared => declared.2.Renders (names ++ elements.filterMap Element.name?)
          (rules ++ [writtenRule left elements]) ∧
        declared.2.Declares (.nonterminal n) ∧ declared.2.nonterminalName n = left)
      (added.2.declareRule ⟨n, added.1⟩) := by
  have hrule := h.renders.declareRule (h.declaresRule hn)
  rw [h.namedRule_eq hn, hleft] at hrule
  refine hrule.imp Iff.rfl fun declared _ ⟨hrenders, hsame⟩ => ⟨hrenders, ?_⟩
  rw [hsame, h.nonterminalName_eq hn]
  exact ⟨h.grows.extends.declares hn, hleft⟩

/-- The alternatives of a left-hand side are refused if there cannot be symbols of the names, or if
there cannot be the rules. -/
theorem Renders.declareAlternatives {alternatives : List Alternative} (h : d.Renders names rules)
    (hn : d.Declares (.nonterminal n)) (hleft : d.nonterminalName n = left)
    (hnames : ∀ name ∈ alternatives.flatMap (·.filterMap Element.name?), IsName name) :
    Yields (AdmissibleNames (names ++ alternatives.flatMap (·.filterMap Element.name?)) ∧
        AdmissibleRules (rules ++ alternatives.map (writtenRule left)))
      (fun d' => d'.Renders (names ++ alternatives.flatMap (·.filterMap Element.name?))
        (rules ++ alternatives.map (writtenRule left)))
      (d.declareAlternatives n alternatives) := by
  induction alternatives generalizing d names rules with
  | nil => exact Yields.ok ⟨by simpa using h.names, by simpa using h.rules⟩ (by simpa using h)
  | cons elements alternatives ih =>
    rw [List.flatMap_cons, List.forall_mem_append] at hnames
    rw [declareAlternatives_cons, List.flatMap_cons, List.map_cons, List.append_cons rules,
      ← List.append_assoc names]
    have hsteps := (h.internAll hnames.1).bind fun added hadds =>
      (hadds.declareRule hn hleft).bind fun declared ⟨hrenders, hn', hleft'⟩ =>
        ih hrenders hn' hleft' hnames.2
    -- what is admitted in the end has been admitted on the way
    exact hsteps.imp ⟨fun hall => hall.2.2,
      fun hall => ⟨hall.1.of_append, hall.2.of_append, hall⟩⟩ fun _ _ => id

end Alternatives

end Definition

end ArithFrontEnd
