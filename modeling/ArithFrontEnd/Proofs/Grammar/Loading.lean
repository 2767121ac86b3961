import ArithFrontEnd.Proofs.Grammar.Declaring

/-!
# Loading a grammar is faithful

The statements of a grammar text are gone through once, and what they say about the start symbol and
about inherited attributes is kept until the end.  So it does not matter where it stands, and the
grammar is the one that the statements describe as a whole.

## Main definitions

* `Loading.Admits` — the statements can be gone through.
* `Loading.Follows` — what is known after some statements.
* `Grammar.Reflects` — the grammar says what the statements say.

## Main results

* `Loading.Follows.statements` — going through the statements.
* `Grammar.ofText_faithful` — **a text gives a grammar if its statements make sense together, and
  the grammar says what they say.**
-/

namespace ArithFrontEnd

open GrammarText

namespace Loading

variable {l l' : Loading} {done ss ss' : List Statement} {s : Statement} {name : String}

/-! ### Going through the statements -/

/-- The statements can be gone through one after another. -/
structure Admits (ss : List Statement) : Prop where
  /-- At most one start symbol is stated. -/
  start_le_one : (ss.filterMap Statement.start?).length ≤ 1
  /-- Every left-hand side is a nonterminal. -/
  left_isNonterminal : ∀ name ∈ ss.filterMap Statement.left?, isNonterminalName name = true
  /-- There can be symbols of these names. -/
  names : AdmissibleNames (ss.flatMap Statement.symbolNames)
  /-- There can be these rules. -/
  rules : AdmissibleRules (ss.flatMap Statement.productions)

/-- Some statements can be gone through if they can with others behind them. -/
theorem Admits.of_append (h : Admits (ss ++ ss')) : Admits ss where
  start_le_one := by
    have hle := h.start_le_one
    rw [List.filterMap_append, List.length_append] at hle
    exact Nat.le_trans (Nat.le_add_right _ _) hle
  left_isNonterminal name hname := h.left_isNonterminal name (by simp [hname])
  names := by
    have hnames := h.names
    rw [List.flatMap_append] at hnames
    exact hnames.of_append
  rules := by
    have hrules := h.rules
    rw [List.flatMap_append] at hrules
    exact hrules.of_append

/-- What is known after these statements. -/
structure Follows (l : Loading) (ss : List Statement) : Prop where
  /-- The symbols and rules of the statements have been declared. -/
  renders : l.definition.Renders (ss.flatMap Statement.symbolNames)
    (ss.flatMap Statement.productions)
  /-- The start symbol that is stated is known. -/
  start : l.start = (ss.filterMap Statement.start?).head?
  /-- The names that are stated to inherit are known. -/
  inherited : l.inherited = ss.flatMap Statement.inherited
  /-- The statements could be gone through. -/
  admits : Admits ss

theorem initial_follows : initial.Follows [] where
  renders := Definition.empty_renders
  start := rfl
  inherited := rfl
  admits := ⟨by simp, by simp, Definition.empty_renders.names, Definition.empty_renders.rules⟩

/-- The conditions on one more statement. -/
theorem Follows.admits_concat_iff (h : l.Follows done) : Admits (done ++ [s]) ↔
    (s.start? = none ∨ l.start = none) ∧ (∀ name ∈ s.left?, isNonterminalName name = true) ∧
      AdmissibleNames (done.flatMap Statement.symbolNames ++ s.symbolNames) ∧
      AdmissibleRules (done.flatMap Statement.productions ++ s.productions) := by
  have hone := h.admits.start_le_one
  have hstart : l.start = none ↔ done.filterMap Statement.start? = [] := by
    rw [h.start, List.head?_eq_none_iff]
  constructor
  · rintro ⟨hle, hleft, hnames, hrules⟩
    refine ⟨?_, ?_, ?_, ?_⟩
    · cases hs : s.start? with
      | none => exact Or.inl rfl
      | some name =>
        rw [List.filterMap_append, List.length_append] at hle
        exact Or.inr (hstart.2 (List.length_eq_zero_iff.1 (by simpa [hs] using hle)))
    · exact fun name hname => hleft name (by simp_all)
    · simpa using hnames
    · simpa using hrules
  · rintro ⟨honly, hleft, hnames, hrules⟩
    refine ⟨?_, ?_, ?_, ?_⟩
    · rw [List.filterMap_append]
      rcases honly with hs | hl
      · simpa [hs] using hone
      · rw [hstart.1 hl]
        exact List.length_filterMap_le _ [s]
    · rw [List.filterMap_append, List.forall_mem_append]
      exact ⟨h.admits.left_isNonterminal, fun name hname => hleft name (by simpa using hname)⟩
    · simpa using hnames
    · simpa using hrules

/-- What is known of the start symbol and of inherited attributes after one more statement. -/
theorem Follows.concat (h : l.Follows done)
    (hrenders : l'.definition.Renders (done.flatMap Statement.symbolNames ++ s.symbolNames)
      (done.flatMap Statement.productions ++ s.productions))
    (hstart : l'.start = (l.start <|> s.start?))
    (hinherited : l'.inherited = l.inherited ++ s.inherited)
    (hadmits : Admits (done ++ [s])) : l'.Follows (done ++ [s]) where
  renders := by simpa using hrenders
  start := by
    rw [hstart, h.start, List.filterMap_append, List.head?_append]
    cases hs : s.start? <;> simp [hs]
  inherited := by simp [hinherited, h.inherited]
  admits := hadmits

/-- A start symbol is refused if one has been stated. -/
theorem Follows.statement_start (h : l.Follows done) :
    Yields (Admits (done ++ [.start name])) (·.Follows (done ++ [.start name]))
      (l.statement (.start name)) := by
  have hiff : Admits (done ++ [.start name]) ↔ l.start = none := by
    simp [h.admits_concat_iff, Statement.start?, Statement.left?, Statement.symbolNames,
      Statement.productions, h.renders.names, h.renders.rules]
  rw [statement]
  cases hl : l.start with
  | some other => exact Yields.error fun hadmits => by simp [hiff.1 hadmits] at hl
  | none =>
    have hadmits := hiff.2 hl
    exact Yields.ok hadmits (h.concat
      (by simpa [Statement.symbolNames, Statement.productions] using h.renders)
      (by simp [hl, Statement.start?]) (by simp [Statement.inherited]) hadmits)

/-- Names that are to inherit are not refused at once. -/
theorem Follows.statement_inherit (h : l.Follows done) {others : List String} :
    Yields (Admits (done ++ [.inherit name others])) (·.Follows (done ++ [.inherit name others]))
      (l.statement (.inherit name others)) := by
  have hadmits : Admits (done ++ [.inherit name others]) := by
    simp [h.admits_concat_iff, Statement.start?, Statement.left?, Statement.symbolNames,
      Statement.productions, h.renders.names, h.renders.rules]
  exact Yields.ok hadmits (h.concat
    (by simpa [Statement.symbolNames, Statement.productions] using h.renders)
    (by simp [Statement.start?]) rfl hadmits)

/-- The left-hand side of a rule is found first, and then its alternatives are declared. -/
theorem statement_rule (l : Loading) (left : String) (alternative : Alternative)
    (others : List Alternative) :
    l.statement (.rule left alternative others) = (l.definition.intern left).bind fun found =>
      match found.1 with
      | .nonterminal n => (found.2.declareAlternatives n (alternative :: others)).map
          fun d' => { l with definition := d' }
      | _ => .error (.terminalOnLeft left) := by
  rw [statement]
  cases l.definition.intern left with
  | error e => rfl
  | ok found =>
    obtain ⟨symbol, d⟩ := found
    cases symbol <;> rfl

/-- The conditions on a rule. -/
theorem Follows.admits_rule_iff (h : l.Follows done) {left : String} {alternative : Alternative}
    {others : List Alternative} : Admits (done ++ [.rule left alternative others]) ↔
      AdmissibleNames (done.flatMap Statement.symbolNames ++ [left]) ∧
        isNonterminalName left = true ∧
        AdmissibleNames (done.flatMap Statement.symbolNames ++ [left] ++
          (alternative :: others).flatMap (·.filterMap Element.name?)) ∧
        AdmissibleRules (done.flatMap Statement.productions ++
          (alternative :: others).map (Definition.writtenRule left)) := by
  rw [h.admits_concat_iff, Statement.symbolNames, List.append_cons]
  constructor
  · rintro ⟨-, hclass, hnames, hrules⟩
    exact ⟨hnames.of_append, hclass left rfl, hnames, hrules⟩
  · rintro ⟨-, hclass, hnames, hrules⟩
    exact ⟨Or.inl rfl, fun name hname => Option.some.inj hname ▸ hclass, hnames, hrules⟩

/-- A rule is refused if its left-hand side is no nonterminal, if there cannot be symbols of its
names, and if there cannot be its alternatives. -/
theorem Follows.statement_rule (h : l.Follows done) {left : String} {alternative : Alternative}
    {others : List Alternative}
    (hnames : ∀ name ∈ (Statement.rule left alternative others).symbolNames, IsName name) :
    Yields (Admits (done ++ [.rule left alternative others]))
      (·.Follows (done ++ [.rule left alternative others]))
      (l.statement (.rule left alternative others)) := by
  obtain ⟨hleft, hothers⟩ := List.forall_mem_cons.1 hnames
  rw [h.admits_rule_iff, Loading.statement_rule]
  -- the start symbol and the names that inherit stay as they are
  refine ((h.renders.intern hleft).bind (Q := fun l' => l'.definition.Renders
      (done.flatMap Statement.symbolNames ++ (Statement.rule left alternative others).symbolNames)
      (done.flatMap Statement.productions ++ (Statement.rule left alternative others).productions) ∧
      l'.start = l.start ∧ l'.inherited = l.inherited) ?_).imp Iff.rfl
    fun l' hadmits ⟨hrenders, hstart, hinherited⟩ => h.concat hrenders
      (by simp [hstart, Statement.start?]) (by simp [hinherited, Statement.inherited])
      (h.admits_rule_iff.2 hadmits)
  rintro ⟨symbol, d⟩ hadds
  have hsymbol : d.Declares symbol := hadds.declares symbol (List.mem_singleton_self _)
  have helement : d.element symbol = .symbol left := by simpa using hadds.element
  have hclass := hadds.renders.classified.isNonterminalName_iff hsymbol helement
  cases symbol with
  | nonterminal n =>
    have halternatives := hadds.renders.declareAlternatives hsymbol (Element.symbol.inj helement)
      hothers
    refine (halternatives.map fun d' hrenders => ⟨?_, rfl, rfl⟩).imp
      (and_iff_right (hclass.2 ⟨n, rfl⟩)).symm fun _ _ => id
    rw [Statement.symbolNames, List.append_cons]
    exact hrenders
  | terminal t => exact Yields.error fun hall => by simpa using hclass.1 hall.1
  | action a => exact Yields.error fun hall => by simpa using hclass.1 hall.1

/-- One more statement is refused if the statements could not be gone through with it. -/
theorem Follows.statement (h : l.Follows done) (hnames : ∀ name ∈ s.symbolNames, IsName name) :
    Yields (Admits (done ++ [s])) (·.Follows (done ++ [s])) (l.statement s) := by
  cases s with
  | start name => exact h.statement_start
  | inherit name others => exact h.statement_inherit
  | rule left alternative others => exact h.statement_rule hnames

theorem statements_cons (l : Loading) (s : Statement) (ss : List Statement) :
    l.statements (s :: ss) = (l.statement s).bind fun l' => l'.statements ss := by
  rw [statements]
  cases l.statement s <;> rfl

/-- Statements are refused if they cannot be gone through. -/
theorem Follows.statements (h : l.Follows done)
    (hnames : ∀ name ∈ ss.flatMap Statement.symbolNames, IsName name) :
    Yields (Admits (done ++ ss)) (·.Follows (done ++ ss)) (l.statements ss) := by
  induction ss generalizing l done with
  | nil =>
    rw [List.append_nil]
    exact Yields.ok h.admits h
  | cons s ss ih =>
    rw [List.flatMap_cons, List.forall_mem_append] at hnames
    rw [statements_cons, List.append_cons]
    exact ((h.statement hnames.1).bind fun l' h' => ih h' hnames.2).imp
      ⟨And.right, fun hadmits => ⟨hadmits.of_append, hadmits⟩⟩ fun _ _ => id

end Loading

namespace Definition

variable {d : Definition} {names : List String}

/-! ### What is stated of nonterminals -/

/-- The definition in which the nonterminals of these names inherit as well. -/
def marking (d : Definition) (names : List String) : Definition :=
  { d with nonterminals := d.nonterminals.map fun nonterminal =>
      { nonterminal with inherited := nonterminal.inherited || names.contains nonterminal.name } }

theorem nonterminalNames_marking (d : Definition) (names : List String) :
    (d.marking names).nonterminalNames = d.nonterminalNames := by
  simp [marking, Vocabulary.nonterminalNames, Function.comp_def]

theorem marking_nil (d : Definition) : d.marking [] = d := by
  simp [marking]

theorem marking_marking (d : Definition) (name : String) (names : List String) :
    (d.marking [name]).marking names = d.marking (name :: names) := by
  simp [marking, Function.comp_def, Bool.or_assoc]

/-- The nonterminal of a name is marked at its place. -/
theorem markInherited_eq {name : String} (hnodup : d.nonterminalNames.Nodup)
    (hname : name ∈ d.nonterminalNames) :
    d.markInherited (d.nonterminalNames.idxOf name) = .ok (d.marking [name]) := by
  have hlt := List.idxOf_lt_length_of_mem hname
  have hdeclared : d.hasNonterminal (d.nonterminalNames.idxOf name) = true :=
    Vocabulary.declares_nonterminal_iff.2 hlt
  have hplace : ∀ i (hi : i < d.nonterminals.length),
      d.nonterminals[i].name = name ↔ d.nonterminalNames.idxOf name = i := by
    intro i hi
    have hi' : i < d.nonterminalNames.length := by simpa [Vocabulary.nonterminalNames] using hi
    have hget : d.nonterminalNames[i] = d.nonterminals[i].name := by
      simp [Vocabulary.nonterminalNames]
    rw [← hget]
    exact ⟨fun heq => heq ▸ hnodup.idxOf_getElem i hi', fun heq => by simp [← heq]⟩
  rw [markInherited, if_pos hdeclared, marking]
  congr 3
  refine List.ext_getElem (by simp) fun i hi _ => ?_
  rw [List.length_modify] at hi
  rw [List.getElem_modify, List.getElem_map]
  by_cases heq : d.nonterminalNames.idxOf name = i
  · simp [heq, (hplace i hi).2 heq]
  · have hne : d.nonterminals[i].name ≠ name := fun hsame => heq ((hplace i hi).1 hsame)
    simp [heq, hne]

theorem markAllInherited_yields (hnodup : d.nonterminalNames.Nodup) :
    Yields (∀ name ∈ names, name ∈ d.nonterminalNames) (· = d.marking names)
      (d.markAllInherited names) := by
  induction names generalizing d with
  | nil => exact Yields.ok (by simp) d.marking_nil.symm
  | cons name names ih =>
    rw [markAllInherited, List.forall_mem_cons]
    by_cases hname : name ∈ d.nonterminalNames
    · rw [Vocabulary.nonterminal?_eq_some hname]
      dsimp only
      rw [markInherited_eq hnodup hname]
      dsimp only
      rw [← marking_marking, and_iff_right hname, ← nonterminalNames_marking d [name]]
      exact ih (nonterminalNames_marking d [name] ▸ hnodup)
    · rw [Vocabulary.nonterminal?_eq_none hname]
      exact Yields.error fun hall => hname hall.1

theorem setStartNamed_yields {start? : Option String} (hstart : d.start = none) :
    Yields (∀ name ∈ start?, name ∈ d.nonterminalNames)
      (· = { d with start := start?.map d.nonterminalNames.idxOf }) (d.setStartNamed start?) := by
  cases start? with
  | none => exact Yields.ok (by simp) (by rw [Option.map_none, ← hstart])
  | some name =>
    rw [setStartNamed]
    by_cases hname : name ∈ d.nonterminalNames
    · have hdeclared : d.hasNonterminal (d.nonterminalNames.idxOf name) = true :=
        Vocabulary.declares_nonterminal_iff.2 (List.idxOf_lt_length_of_mem hname)
      rw [Vocabulary.nonterminal?_eq_some hname]
      dsimp only
      rw [setStart, if_pos hdeclared]
      exact Yields.ok (by simpa using hname) rfl
    · rw [Vocabulary.nonterminal?_eq_none hname]
      exact Yields.error fun hall => hname (hall name rfl)

theorem finish_yields : Yields (d.start ≠ none ∨ d.rules ≠ [])
    (fun g => g.toVocabulary = d.toVocabulary ∧ g.rules = d.rules ∧
      (d.start <|> d.rules.head?.map (·.left)) = some g.start) d.finish := by
  unfold finish
  cases d.start with
  | some n => exact Yields.ok (Or.inl (by simp)) ⟨rfl, rfl, rfl⟩
  | none =>
    cases hrules : d.rules with
    | nil => exact Yields.error (by simp)
    | cons rule rules => exact Yields.ok (Or.inr (by simp)) ⟨rfl, rfl, rfl⟩

end Definition

namespace Loading

variable {l : Loading} {ss : List Statement}

/-- The definition in which all that is known has been stated. -/
def stated (l : Loading) : Definition :=
  { l.definition.marking l.inherited with
    start := l.start.map l.definition.nonterminalNames.idxOf }

theorem finish_eq (l : Loading) :
    l.finish = ((l.definition.markAllInherited l.inherited).bind
      fun d => d.setStartNamed l.start).bind Definition.finish := by
  rw [finish]
  cases l.definition.markAllInherited l.inherited with
  | error e => rfl
  | ok d =>
    dsimp only [Except.bind]
    cases d.setStartNamed l.start <;> rfl

/-- What is known can be stated if it is of nonterminals. -/
theorem Follows.stated_yields (h : l.Follows ss) :
    Yields ((∀ name ∈ l.inherited, name ∈ l.definition.nonterminalNames) ∧
        ∀ name ∈ l.start, name ∈ l.definition.nonterminalNames) (· = l.stated)
      ((l.definition.markAllInherited l.inherited).bind fun d => d.setStartNamed l.start) := by
  refine (Definition.markAllInherited_yields h.renders.classified.nodup_nonterminals).bind ?_
  rintro _ rfl
  rw [stated, ← Definition.nonterminalNames_marking l.definition l.inherited]
  exact Definition.setStartNamed_yields h.renders.start

end Loading

namespace Grammar

variable {g : Grammar} {ss : List Statement}

/-- The grammar says what the statements say: it has their symbols, in order of first appearance,
and their rules, in order; its start symbol and the symbols that inherit are those that are
stated. -/
structure Reflects (g : Grammar) (ss : List Statement) : Prop where
  /-- The rules and the start symbol are made of declared symbols. -/
  wellFormed : g.WellFormed
  /-- The terminals are numbered in order of first appearance. -/
  terminals : g.terminals = describedTerminals ss
  /-- The nonterminals are numbered in order of first appearance. -/
  nonterminals : g.nonterminalNames = describedNonterminals ss
  /-- Symbols of the same name are the same, and only those. -/
  element_inj {s s' : GrammarSymbol} (hs : g.Declares s) (hs' : g.Declares s') :
    g.element s = g.element s' ↔ s = s'
  /-- The nonterminals are the symbols whose names look like it. -/
  isNonterminalName_iff {s : GrammarSymbol} {name : String} (hs : g.Declares s)
    (hname : g.element s = .symbol name) : isNonterminalName name = true ↔ ∃ n, s = .nonterminal n
  /-- The rules, written with names, are the alternatives. -/
  rules : g.rules.map g.namedRule = ss.flatMap Statement.productions
  /-- The start symbol is the one that is stated, or else the first left-hand side. -/
  start : (ss.findSome? Statement.start? <|> ss.findSome? Statement.left?) =
    some (g.nonterminalName g.start)
  /-- The nonterminals that inherit are those of which it is stated. -/
  inherited {n : NonterminalId} (hn : g.Declares (.nonterminal n)) :
    g.isInherited n = true ↔ g.nonterminalName n ∈ ss.flatMap Statement.inherited

/-- The first left-hand side is that of the first alternative. -/
theorem head?_productions (ss : List Statement) :
    (ss.flatMap Statement.productions).head?.map (·.left) = ss.findSome? Statement.left? := by
  induction ss with
  | nil => rfl
  | cons s ss ih =>
    cases s with
    | rule left alternative others => rfl
    | start name => exact ih
    | inherit name others => exact ih

/-- Where there is a symbol in a rule, there is a rule. -/
theorem productions_ne_nil {name : String} (h : name ∈ ss.flatMap Statement.symbolNames) :
    ss.flatMap Statement.productions ≠ [] := by
  obtain ⟨s, hs, hname⟩ := List.mem_flatMap.1 h
  intro hnil
  cases s with
  | rule left alternative others =>
    simpa [Statement.productions] using List.flatMap_eq_nil_iff.1 hnil _ hs
  | start name => cases hname
  | inherit name others => cases hname

end Grammar

namespace Loading

variable {l : Loading} {g : Grammar} {ss : List Statement}

/-- The start symbol that is stated is the only one. -/
theorem Follows.start_eq (h : l.Follows ss) {name : String}
    (hname : name ∈ ss.filterMap Statement.start?) : l.start = some name := by
  have hle := h.admits.start_le_one
  rw [h.start]
  cases hstated : ss.filterMap Statement.start? with
  | nil => simp [hstated] at hname
  | cons first others =>
    rw [hstated] at hname hle
    obtain rfl := List.length_eq_zero_iff.1 (Nat.le_zero.1 (Nat.le_of_succ_le_succ hle))
    rw [List.mem_singleton.1 hname]
    rfl

/-- All that is known can be stated if the statements make sense together. -/
theorem Follows.coherent_iff (h : l.Follows ss) : Grammar.Coherent ss ↔
    ((∀ name ∈ l.inherited, name ∈ l.definition.nonterminalNames) ∧
        ∀ name ∈ l.start, name ∈ l.definition.nonterminalNames) ∧
      (l.stated.start ≠ none ∨ l.stated.rules ≠ []) := by
  have hnames : l.definition.nonterminalNames = Grammar.describedNonterminals ss :=
    h.renders.nonterminalNames
  have hrules : l.stated.rules ≠ [] ↔ ss.flatMap Statement.productions ≠ [] := by
    rw [← h.renders.reads]
    simp [stated, Definition.marking]
  constructor
  · intro hcoherent
    refine ⟨⟨fun name hname => ?_, fun name hname => ?_⟩, Or.inr (hrules.2 hcoherent.exists_rule)⟩
    · rw [h.inherited] at hname
      exact hnames ▸ hcoherent.stated_mem name (List.mem_append_right _ hname)
    · rw [h.start] at hname
      exact hnames ▸ hcoherent.stated_mem name
        (List.mem_append_left _ (List.mem_of_mem_head? hname))
  · rintro ⟨⟨hinherited, hstart⟩, hsome⟩
    refine ⟨?_, h.admits.start_le_one, h.admits.left_isNonterminal, ?_, h.admits.rules.nodup, ?_,
      h.admits.names.terminals_le, h.admits.names.nonterminals_le, h.admits.rules.length_le⟩
    · rcases hsome with hsome | hsome
      · have hsome : l.start ≠ none := fun hnone => hsome (by simp [stated, hnone])
        obtain ⟨name, hname⟩ := Option.ne_none_iff_exists'.1 hsome
        have hmem := h.renders.mem_nonterminalNames_iff.1 (hstart name hname)
        exact Grammar.productions_ne_nil hmem.1
      · exact hrules.1 hsome
    · exact fun name hname => h.admits.names.not_reserved name (List.mem_eraseDups.1 hname)
    · intro name hname
      rw [← hnames]
      rcases List.mem_append.1 hname with hname | hname
      · exact hstart name (h.start_eq hname)
      · exact hinherited name (h.inherited ▸ hname)

/-- The start symbol is the one that is known, or else the first left-hand side. -/
theorem Follows.start_symbol (h : l.Follows ss)
    (hstart : ∀ name ∈ l.start, name ∈ l.definition.nonterminalNames) {n : NonterminalId}
    (hn : (l.stated.start <|> l.stated.rules.head?.map (·.left)) = some n) :
    l.definition.Declares (.nonterminal n) ∧
      (ss.findSome? Statement.start? <|> ss.findSome? Statement.left?) =
        some (l.definition.nonterminalName n) := by
  rw [← List.head?_filterMap, ← h.start, ← Grammar.head?_productions, ← h.renders.reads]
  cases hl : l.start with
  | some name =>
    have hname := hstart name hl
    obtain rfl : l.definition.nonterminalNames.idxOf name = n := by
      simpa [stated, hl] using hn
    refine ⟨Vocabulary.declares_nonterminal_iff.2 (List.idxOf_lt_length_of_mem hname), ?_⟩
    rw [Vocabulary.nonterminalName_idxOf hname]
    rfl
  | none =>
    have hhead : l.definition.rules.head?.map (·.left) = some n := by
      simpa [stated, hl, Definition.marking] using hn
    obtain ⟨rule, hrule, rfl⟩ := Option.map_eq_some_iff.1 hhead
    refine ⟨h.renders.wellFormed.left (List.mem_of_mem_head? hrule), ?_⟩
    simp [hrule, Vocabulary.namedRule]

/-- The nonterminals that inherit are those of which it is known. -/
theorem Follows.isInherited_stated (h : l.Follows ss) {n : NonterminalId}
    (hn : l.stated.Declares (.nonterminal n)) : l.stated.isInherited n =
      (ss.flatMap Statement.inherited).contains (l.stated.nonterminalName n) := by
  refine Vocabulary.isInherited_eq_iff.2 (fun nonterminal hmem => ?_) n hn
  -- none of them inherits before it is stated
  simp only [stated, Definition.marking, h.renders.nonterminals, h.inherited, List.map_map,
    List.mem_map, Function.comp_apply, Bool.false_or] at hmem
  obtain ⟨name, -, rfl⟩ := hmem
  rfl

/-- The grammar in which all that is known has been stated says what the statements say. -/
theorem Follows.reflects (h : l.Follows ss)
    (hstart : ∀ name ∈ l.start, name ∈ l.definition.nonterminalNames)
    (hvocabulary : g.toVocabulary = l.stated.toVocabulary) (hrules : g.rules = l.stated.rules)
    (hg : (l.stated.start <|> l.stated.rules.head?.map (·.left)) = some g.start) :
    g.Reflects ss := by
  have hrules : g.rules = l.definition.rules := hrules
  have hterminals : g.terminals = l.definition.terminals := by
    rw [hvocabulary]
    rfl
  have hnonterminals : g.nonterminalNames = l.definition.nonterminalNames := by
    rw [hvocabulary]
    exact Definition.nonterminalNames_marking _ _
  have hgrows : l.definition.Grows g.toVocabulary :=
    ⟨hterminals ▸ List.prefix_rfl, hnonterminals ▸ List.prefix_rfl⟩
  have hclassified := Vocabulary.classified_of_eq (hterminals.trans h.renders.terminals)
    (hnonterminals.trans h.renders.nonterminalNames)
  obtain ⟨hdeclared, hsymbol⟩ := h.start_symbol hstart hg
  exact {
    wellFormed := {
      left := fun hrule => hgrows.extends.declares (h.renders.wellFormed.left (hrules ▸ hrule))
      right := fun hrule _ hs =>
        hgrows.extends.declares (h.renders.wellFormed.right (hrules ▸ hrule) hs)
      start := hgrows.extends.declares hdeclared }
    terminals := hterminals.trans h.renders.terminals
    nonterminals := hnonterminals.trans h.renders.nonterminalNames
    element_inj := fun hs hs' => ⟨hclassified.element_inj hs hs', congrArg _⟩
    isNonterminalName_iff := hclassified.isNonterminalName_iff
    rules := by
      rw [hrules, ← h.renders.reads]
      exact List.map_congr_left fun rule hrule => hgrows.namedRule_eq (h.renders.declaresRule hrule)
    start := by
      rw [hsymbol, Element.symbol.inj (hgrows.element_eq hdeclared)]
    inherited := fun hn => by
      rw [hvocabulary] at hn ⊢
      rw [h.isInherited_stated hn, List.contains_iff_mem] }

/-- The statements give a grammar if they make sense together. -/
theorem Follows.finish (h : l.Follows ss) :
    Yields (Grammar.Coherent ss) (·.Reflects ss) l.finish := by
  rw [finish_eq, h.coherent_iff]
  refine (h.stated_yields.bind (Q := fun g => g.toVocabulary = l.stated.toVocabulary ∧
    g.rules = l.stated.rules ∧
      (l.stated.start <|> l.stated.rules.head?.map (·.left)) = some g.start) ?_).imp Iff.rfl
    fun g hcondition ⟨hvocabulary, hrules, hg⟩ =>
      h.reflects hcondition.1.2 hvocabulary hrules hg
  rintro _ rfl
  exact Definition.finish_yields

end Loading

namespace Grammar

variable {g : Grammar} {source : String} {ss : List Statement}

/-! ### The grammar of a text -/

theorem Coherent.admits (h : Coherent ss) : Loading.Admits ss where
  start_le_one := h.start_le_one
  left_isNonterminal := h.left_isNonterminal
  names := ⟨fun name hname => h.not_reserved name (List.mem_eraseDups.2 hname), h.terminals_le,
    h.nonterminals_le⟩
  rules := ⟨h.nodup_rules, h.rules_le⟩

theorem ofStatements_eq (ss : List Statement) :
    ofStatements ss = (Loading.initial.statements ss).bind Loading.finish := by
  rw [ofStatements]
  cases Loading.initial.statements ss <;> rfl

/-- Statements with names that can be read give a grammar if they make sense together. -/
theorem ofStatements_yields (hnames : ∀ name ∈ ss.flatMap Statement.symbolNames, IsName name) :
    Yields (Coherent ss) (·.Reflects ss) (ofStatements ss) := by
  rw [ofStatements_eq]
  exact ((Loading.initial_follows.statements hnames).bind fun l h => h.finish).imp
    ⟨And.right, fun hcoherent => ⟨hcoherent.admits, hcoherent⟩⟩ fun _ _ => id

theorem ofText_eq_ok_iff (h : GrammarText.read source = .ok ss) :
    ofText source = .ok g ↔ ofStatements ss = .ok g := by
  rw [ofText, h]
  dsimp only
  cases ofStatements ss <;> simp

theorem Reflects.classified (h : g.Reflects ss) : g.Classified :=
  Vocabulary.classified_of_eq h.terminals h.nonterminals

/-- The symbol that an element stands for is the one of its name. -/
theorem Reflects.describedSymbol?_eq (h : g.Reflects ss) : describedSymbol? ss = g.symbolOf? := by
  funext e
  cases e <;> simp [describedSymbol?, Vocabulary.symbolOf?, h.terminals, h.nonterminals]

theorem Reflects.describedRule_eq (h : g.Reflects ss) {rule : Rule} (hrule : rule ∈ g.rules) :
    describedRule ss (g.namedRule rule) = rule := by
  have hleft := h.classified.idxOf_nonterminalName (h.wellFormed.left hrule)
  have hright := h.classified.filterMap_symbolOf? fun s hs => h.wellFormed.right hrule hs
  rw [describedRule, Vocabulary.namedRule, h.describedSymbol?_eq, hright, ← h.nonterminals, hleft]

/-- The nonterminals are those of the names, each with what is stated of it. -/
theorem Reflects.nonterminals_eq (h : g.Reflects ss) :
    g.nonterminals = (described ss).nonterminals := by
  have hinherited := Vocabulary.isInherited_eq_iff.1 fun n hn =>
    Bool.eq_iff_iff.2 ((h.inherited hn).trans List.contains_iff_mem.symm)
  calc g.nonterminals
    _ = g.nonterminals.map fun nonterminal =>
        ⟨nonterminal.name, (ss.flatMap Statement.inherited).contains nonterminal.name⟩ := by
      refine (List.map_id _).symm.trans (List.map_congr_left fun nonterminal hmem => ?_)
      rw [← hinherited nonterminal hmem]
      rfl
    _ = g.nonterminalNames.map fun name =>
        ⟨name, (ss.flatMap Statement.inherited).contains name⟩ := by
      rw [Vocabulary.nonterminalNames, List.map_map]
      rfl
    _ = (described ss).nonterminals := by
      rw [h.nonterminals]
      rfl

/-- A grammar that says what the statements say is the one that they describe. -/
theorem Reflects.eq_described (h : g.Reflects ss) : g = described ss := by
  have hrules : g.rules = (described ss).rules := by
    rw [described, ← h.rules, List.map_map]
    exact (List.map_id _).symm.trans (List.map_congr_left fun rule hrule =>
      (h.describedRule_eq hrule).symm)
  have hstart : g.start = (described ss).start := by
    rw [described, describedStart, h.start, ← h.nonterminals]
    exact (h.classified.idxOf_nonterminalName h.wellFormed.start).symm
  have hterminals : g.terminals = (described ss).terminals := h.terminals
  calc g = ⟨⟨g.terminals, g.nonterminals⟩, g.rules, g.start⟩ := rfl
    _ = described ss := by rw [hterminals, h.nonterminals_eq, hrules, hstart]

/-- A grammar is loaded faithfully: a text whose statements can be read gives a grammar if and only
if they make sense together, and the grammar says what they say. -/
theorem ofText_faithful (h : GrammarText.read source = .ok ss) :
    ((∃ g, ofText source = .ok g) ↔ Coherent ss) ∧
      ∀ g, ofText source = .ok g → g.Reflects ss ∧ g = described ss := by
  have hyields := ofStatements_yields (isName_of_read h)
  refine ⟨?_, fun g hg => ?_⟩
  · simp only [ofText_eq_ok_iff h]
    exact hyields.exists_ok_iff
  · have hreflects := hyields.of_ok ((ofText_eq_ok_iff h).1 hg)
    exact ⟨hreflects, hreflects.eq_described⟩

/-- What is stated before its symbol occurs is stated of the symbol. -/
theorem ofText_faithful_stated_first :
    ∃ ss g, GrammarText.read "@inherit B; @start B; A -> B {3} x | ε; B -> y ε;" = .ok ss ∧
      Coherent ss ∧
      ofText "@inherit B; @start B; A -> B {3} x | ε; B -> y ε;" = .ok g ∧
      g.Reflects ss ∧ g = ⟨⟨["x", "y"], [⟨"A", false⟩, ⟨"B", true⟩]⟩,
        [⟨0, [.nonterminal 1, .action 3, .terminal 2]⟩, ⟨0, []⟩, ⟨1, [.terminal 3]⟩], 1⟩ := by
  have hread : GrammarText.read "@inherit B; @start B; A -> B {3} x | ε; B -> y ε;" =
      .ok [.inherit "B" [], .start "B",
        .rule "A" [.symbol "B", .action 3, .symbol "x"] [[.empty]],
        .rule "B" [.symbol "y", .empty] []] := by decide +kernel
  have hload : ofText "@inherit B; @start B; A -> B {3} x | ε; B -> y ε;" =
      .ok ⟨⟨["x", "y"], [⟨"A", false⟩, ⟨"B", true⟩]⟩,
        [⟨0, [.nonterminal 1, .action 3, .terminal 2]⟩, ⟨0, []⟩, ⟨1, [.terminal 3]⟩], 1⟩ := by
    decide +kernel
  obtain ⟨hcoherent, hreflects⟩ := ofText_faithful hread
  exact ⟨_, _, hread, hcoherent.1 ⟨_, hload⟩, hload, (hreflects _ hload).1, rfl⟩

end Grammar

end ArithFrontEnd
