import WhisperCpp.GrammarParser.Invariant
import WhisperCpp.Grammar.Safety

/-!
# What the automaton can rely on

`grammar_parser::parse` accepts texts that mention names they do not define, and texts whose rules
are left recursive. Without the former its rules are well formed; without either the automaton
returns on all of them.

## Main definitions

* `AllDefined` — a text defines every name it mentions
* `ParseState.WellFormed` — every symbol has a rule, and all rules are well formed

## Main results

* `wellFormed_parse_iff` — when the state of a text is well formed
* `terminates_parse_iff` — when the automaton returns on the rules of a text
-/

namespace WhisperCpp

namespace GrammarParser

open Grammar (Element WellFormedRule WellFormedIn NoLeftRecursion DefinedAhead denote)

/-- Every name that is mentioned is defined. -/
def AllDefined (definitions : List Definition) : Prop :=
  ∀ definition ∈ definitions, ∀ word ∈ definition.mentions,
    ∃ definition' ∈ definitions, word = definition'.name

/-- Every symbol has a rule, and all rules are well formed. -/
structure ParseState.WellFormed (state : ParseState) : Prop where
  rules : Grammar.WellFormed state.rules
  symbols : ∀ entry ∈ state.symbolIds, entry.2 < state.rules.length

/-- No run of the automaton reads past the elements of a rule. -/
def NeverReadsPast (rules : List (List Element)) : Prop :=
  ∀ start < rules.length, ∀ (chrs : List UInt32) (fuel : ℕ),
    Grammar.run fuel rules start chrs ≠ .error .outOfBounds

theorem neverReadsPast_of_wellFormed {rules : List (List Element)} (h : Grammar.WellFormed rules) :
    NeverReadsPast rules := fun _ hstart chrs fuel he =>
  Fault.noConfusion ((Grammar.run_meets h fuel hstart chrs).of_error he)

/-! ### Well-formed states -/

theorem parse_eq_of_ok {src : Text} {definitions : List Definition}
    (h : readGrammar src = .ok definitions) : parse src = compileGrammar definitions {} := by
  rw [parse, tryParse_eq, h]
  rfl

theorem parse_eq_of_error {src : Text} {e : ParseError} (h : readGrammar src = .error e) :
    parse src = {} := by
  rw [parse, tryParse_eq, h]
  rfl

theorem Valid.mem_rules {state : ParseState} (h : Valid state) {rule : List Element}
    (hrule : rule ∈ state.rules) (hne : rule ≠ []) : WellFormedRule state.size rule := by
  obtain ⟨id, hid, rfl⟩ := List.mem_iff_getElem.mp hrule
  have heq : state.ruleOf id = state.rules[id] := by
    rw [ParseState.ruleOf, List.getElem?_eq_getElem hid, Option.getD_some]
  rw [← heq] at hne ⊢
  exact h.rules id hne

theorem lt_length_of_ruleOf_ne_nil {state : ParseState} {id : ℕ} (h : state.ruleOf id ≠ []) :
    id < state.rules.length := by
  by_contra hid
  rw [ParseState.ruleOf, List.getElem?_eq_none (Nat.le_of_not_lt hid)] at h
  exact h rfl

/-- When all symbols have a rule the state is well formed. -/
theorem Valid.wellFormed {state : ParseState} (h : Valid state)
    (hall : ∀ entry ∈ state.symbolIds, state.ruleOf entry.2 ≠ []) : state.WellFormed := by
  have hlt : ∀ entry ∈ state.symbolIds, entry.2 < state.rules.length := fun entry hentry =>
    lt_length_of_ruleOf_ne_nil (hall entry hentry)
  have hlen : state.rules.length = state.size := by
    refine le_antisymm h.length ?_
    by_contra hlt'
    obtain ⟨name, hentry⟩ := h.exists_entry (Nat.lt_of_not_le hlt')
    exact lt_irrefl _ (hlt _ hentry)
  refine ⟨fun rule hrule => ?_, hlt⟩
  rw [hlen]
  refine h.mem_rules hrule ?_
  obtain ⟨id, hid, rfl⟩ := List.mem_iff_getElem.mp hrule
  obtain ⟨name, hentry⟩ := h.exists_entry (hlen ▸ hid)
  have := hall _ hentry
  rwa [ParseState.ruleOf, List.getElem?_eq_getElem hid, Option.getD_some] at this

theorem wellFormed_compileGrammar_iff (definitions : List Definition) :
    (compileGrammar definitions {}).WellFormed ↔ AllDefined definitions := by
  have hcomp := compiled_compileGrammar definitions
  constructor
  · intro hwf definition hd word hword
    obtain ⟨id, hid⟩ := hcomp.named definition hd word (.inr hword)
    have hlt := hwf.symbols _ hid
    have hrule : (compileGrammar definitions {}).ruleOf id ≠ [] := by
      rw [ParseState.ruleOf, List.getElem?_eq_getElem hlt]
      exact wellFormedRule_ne_nil (hwf.rules _ (List.getElem_mem hlt))
    rcases hcomp.rules _ hid with ⟨hgen, -⟩ | ⟨word', hname, hiff, -⟩
    · exact absurd rfl (hgen.ne_word word)
    · obtain rfl := Subtype.ext hname
      exact hiff.mp hrule
  · intro hdef
    refine hcomp.valid.wellFormed fun entry hentry => ?_
    rcases hcomp.rules _ hentry with ⟨-, hrule⟩ | ⟨word, -, hiff, definition, hd, hword⟩
    · exact hrule
    · rw [hiff]
      rcases hword with hword | hword
      · exact ⟨definition, hd, hword⟩
      · exact hdef definition hd word hword

/-- **What `grammar_parser::parse` returns is well formed** — and then no run of the automaton reads
past a rule — iff the text is rejected or defines every name it mentions. -/
theorem wellFormed_parse_iff (src : Text) :
    (parse src = {} ∨ (parse src).WellFormed ∧ NeverReadsPast (parse src).rules) ↔
      ∀ definitions, readGrammar src = .ok definitions → AllDefined definitions := by
  cases hread : readGrammar src with
  | error e => exact iff_of_true (.inl (parse_eq_of_error hread)) nofun
  | ok definitions =>
    rw [parse_eq_of_ok hread]
    constructor
    · rintro (hempty | ⟨hwf, -⟩) _ ⟨⟩
      · rw [← wellFormed_compileGrammar_iff, hempty]
        exact ⟨nofun, nofun⟩
      · exact (wellFormed_compileGrammar_iff definitions).mp hwf
    · intro hdef
      have hwf := (wellFormed_compileGrammar_iff definitions).mpr (hdef definitions rfl)
      exact .inr ⟨hwf, neverReadsPast_of_wellFormed hwf.rules⟩

/-- `root ::= foo` -/
def undefinedText : Text := [114, 111, 111, 116, 32, 58, 58, 61, 32, 102, 111, 111]

/-- The text `root ::= foo` is accepted, and its only rule refers to a second one. -/
theorem not_wellFormed_parse_undefinedText : ¬ (parse undefinedText = {} ∨
    (parse undefinedText).WellFormed ∧ NeverReadsPast (parse undefinedText).rules) := by
  have hparse : parse undefinedText =
      ⟨[([114, 111, 111, 116], 0), ([102, 111, 111], 1)], [[⟨.ruleRef, 1⟩, ⟨.endRule, 0⟩]]⟩ := by
    decide
  rw [hparse]
  rintro (h | ⟨⟨h, -⟩, -⟩)
  · cases h
  · exact absurd h (by decide)

/-! ### Termination -/

/-- The automaton returns, for every start rule and all code points. -/
def Terminates (rules : List (List Element)) : Prop :=
  ∀ start < rules.length, ∀ chrs : List UInt32,
    ∃ g, Fuel.Returns (fun fuel => Grammar.run fuel rules start chrs) g

theorem copyRule_ne_ok_of_mem {rules vecRules : List (List Element)}
    (h : rules.mapM Grammar.copyRule = .ok vecRules) : ∀ rule ∈ rules, rule ≠ [] := by
  induction rules generalizing vecRules with
  | nil => nofun
  | cons rule rules ih =>
    rw [List.mapM_cons] at h
    obtain ⟨rule', hcopy, h⟩ := Fuel.bind_eq_ok_iff.mp h
    obtain ⟨rules', hmap, -⟩ := Fuel.bind_eq_ok_iff.mp h
    refine List.forall_mem_cons.mpr ⟨?_, ih hmap⟩
    rintro rfl
    cases hcopy

/-- Rules that are well formed where they are there at all: the automaton returns on them iff none
is missing, none is left recursive, and no reference it comes to is out of range. -/
theorem terminates_iff {n : ℕ} {rules : List (List Element)} (hne : rules ≠ [])
    (hwf : ∀ rule ∈ rules, rule ≠ [] → WellFormedRule n rule) :
    Terminates rules ↔
      (∀ rule ∈ rules, rule ≠ []) ∧ NoLeftRecursion rules ∧ DefinedAhead rules := by
  constructor
  · intro h
    obtain ⟨g, k, hk⟩ := h 0 (List.length_pos_iff.mpr hne) []
    obtain ⟨g', hinit, -⟩ := Fuel.bind_eq_ok_iff.mp (hk k le_rfl)
    obtain ⟨vecRules, hmap, -⟩ := Fuel.bind_eq_ok_iff.mp hinit
    have hall := copyRule_ne_ok_of_mem hmap
    exact ⟨hall, Grammar.definedAhead_of_run_returns
      (fun rule hrule => hwf rule hrule (hall rule hrule)) h⟩
  · rintro ⟨hall, hrec, hdef⟩ start hstart chrs
    obtain ⟨g, hret, -⟩ := Grammar.run_returns (n := n)
      (fun rule hrule => hwf rule hrule (hall rule hrule)) hrec hdef hstart chrs
    exact ⟨g, hret⟩

/-- **The automaton returns on the rules of an accepted text** iff every symbol up to the last rule
has a rule, no rule is left recursive, and no reference it comes to is out of range. -/
theorem terminates_parse_iff (src : Text) :
    ((parse src).rules ≠ [] → Terminates (parse src).rules) ↔
      ((∀ rule ∈ (parse src).rules, rule ≠ []) ∧ NoLeftRecursion (parse src).rules ∧
        DefinedAhead (parse src).rules) := by
  by_cases hne : (parse src).rules = []
  · rw [hne]
    exact iff_of_true (fun h => absurd rfl h)
      ⟨nofun, Grammar.noLeftRecursion_of_ready nofun, fun _ _ halt => nomatch halt⟩
  · have hvalid : Valid (parse src) := by
      cases hread : readGrammar src with
      | error e => exact parse_eq_of_error hread ▸ valid_empty
      | ok definitions =>
        exact parse_eq_of_ok hread ▸ (compiled_compileGrammar definitions).valid
    rw [← terminates_iff hne fun _ => hvalid.mem_rules]
    exact forall_prop_of_true hne

/-- `root ::= ("a"*)*` -/
def nestedStarText : Text := [114, 111, 111, 116, 32, 58, 58, 61, 32, 40, 34, 97, 34, 42, 41, 42]

/-- The rules of `root ::= ("a"*)*`: the last one is the outer repetition, of something that can be
empty. -/
def nestedStarRules : List (List Element) :=
  [[⟨.ruleRef, 3⟩, ⟨.endRule, 0⟩],
    [⟨.ruleRef, 2⟩, ⟨.endRule, 0⟩],
    [⟨.char, 97⟩, ⟨.ruleRef, 2⟩, ⟨.alt, 0⟩, ⟨.endRule, 0⟩],
    [⟨.ruleRef, 1⟩, ⟨.ruleRef, 3⟩, ⟨.alt, 0⟩, ⟨.endRule, 0⟩]]

theorem leftRecursive_nestedStarRules : LeftmostGrammar.LeftRecursive (denote nestedStarRules) 3 := by
  refine .single ⟨[.ref 1], [], List.mem_cons_self .., ?_⟩
  refine LeftmostGrammar.Yields.ref (u := []) (v := []) (List.mem_cons_self ..) ?_ .nil
  exact LeftmostGrammar.Yields.ref (u := []) (v := [])
    (List.mem_cons_of_mem _ (List.mem_cons_self ..)) .nil .nil

/-- The parser lets through a grammar on which the automaton recurses without end: the repetition of
something that can be empty is left recursive. -/
theorem not_terminates_parse_nestedStarText :
    ¬ ((parse nestedStarText).rules ≠ [] → Terminates (parse nestedStarText).rules) := by
  have hparse : (parse nestedStarText).rules = nestedStarRules := by decide
  rw [hparse]
  intro h
  have hwf : Grammar.WellFormed nestedStarRules := by decide
  exact ((terminates_iff (List.cons_ne_nil _ _) fun rule hrule _ => hwf rule hrule).mp
    (h (List.cons_ne_nil _ _))).2.1 3 leftRecursive_nestedStarRules

end GrammarParser

end WhisperCpp
