import WhisperCpp.GrammarParser.Syntax
import WhisperCpp.Grammar.Denotation
import Mathlib.Data.Nat.Digits.Lemmas

/-!
# What the parser keeps true of its state

Symbol ids are handed out when a name is first seen, rules are stored when their definition ends,
and sub-rules are generated in between. Through all of it the symbol table numbers its symbols by
age, every rule that is stored is well formed as a rule over the symbols so far, and a symbol
without a rule is a name that has been referenced and not yet defined.

## Main definitions

* `Valid` — the invariant of the parser's state
* `Extends` — what compiling a piece of syntax does to the state

## Main results

* `compiled_compileGrammar` — the invariant after any text, and which symbols have a rule
-/

namespace WhisperCpp

namespace GrammarParser

open Grammar (Gretype Element WellFormedRule AtSymbol wellFormedFrom wellFormedFrom_cons
  wellFormedRule_iff mayFollow)

/-! ### Names of symbols -/

/-- The name of a symbol that `generate_symbol_id` made. -/
def Generated (name : Name) (id : ℕ) : Prop :=
  ∃ base : Word, name = base.val ++ ascii '_' :: toDecimal id

theorem toDecimal_injective : Function.Injective toDecimal := by
  have hdigit : ∀ d < 10, (48 + d).toUInt8.toNat - 48 = d := by decide
  have hinv : ∀ n, Nat.ofDigits 10 ((toDecimal n).reverse.map fun c => c.toNat - 48) = n := by
    intro n
    rw [toDecimal]
    split_ifs with h0
    · subst h0
      rfl
    · have hmap : ((Nat.digits 10 n).map fun d => (48 + d).toUInt8).map (fun c => c.toNat - 48) =
          Nat.digits 10 n := by
        rw [List.map_map]
        exact (List.map_congr_left fun d hd => hdigit d (Nat.digits_lt_base (by decide) hd)).trans
          (List.map_id _)
      rw [← List.map_reverse, List.reverse_reverse, hmap, Nat.ofDigits_digits]
  intro m n h
  rw [← hinv m, h, hinv]

theorem takeWhile_generated (base : Word) (digits : Name) :
    (base.val ++ ascii '_' :: digits).takeWhile isWordChar = base.val := by
  have hbase : ∀ c ∈ base.val, isWordChar c = true := List.all_eq_true.mp base.property
  rw [List.takeWhile_append_of_pos hbase, List.takeWhile_cons_of_neg (by decide), List.append_nil]

/-- No name of a text is the name of a generated symbol. -/
theorem Generated.ne_word {name : Name} {id : ℕ} (h : Generated name id) (word : Word) :
    name ≠ word.val := by
  obtain ⟨base, rfl⟩ := h
  intro heq
  have hmem : ascii '_' ∈ word.val := by rw [← heq]; simp
  exact absurd (List.all_eq_true.mp word.property _ hmem) (by decide)

/-- Generated names tell their ids. -/
theorem Generated.unique {name : Name} {i j : ℕ} (hi : Generated name i) (hj : Generated name j) :
    i = j := by
  obtain ⟨base, rfl⟩ := hi
  obtain ⟨base', heq⟩ := hj
  have hbase := congrArg (List.takeWhile isWordChar) heq
  rw [takeWhile_generated, takeWhile_generated] at hbase
  rw [hbase] at heq
  exact toDecimal_injective (List.cons.inj (List.append_cancel_left heq)).2

/-! ### The state -/

/-- The number of symbols. -/
def ParseState.size (state : ParseState) : ℕ := state.symbolIds.length

/-- The rule of a symbol, empty if it has none yet. -/
def ParseState.ruleOf (state : ParseState) (id : ℕ) : List Element := state.rules[id]?.getD []

/-- The invariant of the parser's state. -/
structure Valid (state : ParseState) : Prop where
  /-- Symbols are numbered by age. -/
  ids : state.symbolIds.map Prod.snd = List.range state.size
  /-- No name is in the table twice. -/
  names : (state.symbolIds.map Prod.fst).Nodup
  /-- Every symbol is a name of the text or a generated one. -/
  keys : ∀ entry ∈ state.symbolIds, (∃ word : Word, entry.1 = word.val) ∨
    Generated entry.1 entry.2
  /-- There are no rules but those of symbols. -/
  length : state.rules.length ≤ state.size
  /-- Every rule that has been stored is well formed. -/
  rules : ∀ id, state.ruleOf id ≠ [] → WellFormedRule state.size (state.ruleOf id)

theorem valid_empty : Valid {} := by
  refine ⟨rfl, List.nodup_nil, nofun, le_rfl, fun id h => absurd ?_ h⟩
  simp [ParseState.ruleOf]

theorem Valid.id_lt {state : ParseState} (h : Valid state) {entry : Name × ℕ}
    (hentry : entry ∈ state.symbolIds) : entry.2 < state.size := by
  rw [← List.mem_range, ← h.ids]
  exact List.mem_map_of_mem hentry

theorem Valid.exists_entry {state : ParseState} (h : Valid state) {id : ℕ} (hid : id < state.size) :
    ∃ name, (name, id) ∈ state.symbolIds := by
  rw [← List.mem_range, ← h.ids] at hid
  obtain ⟨⟨name, _⟩, hentry, rfl⟩ := List.mem_map.mp hid
  exact ⟨name, hentry⟩

theorem Valid.id_unique {state : ParseState} (h : Valid state) {name : Name} {i j : ℕ}
    (hi : (name, i) ∈ state.symbolIds) (hj : (name, j) ∈ state.symbolIds) : i = j :=
  congrArg Prod.snd (List.inj_on_of_nodup_map h.names hi hj rfl)

theorem Valid.name_unique {state : ParseState} (h : Valid state) {k l : Name} {id : ℕ}
    (hk : (k, id) ∈ state.symbolIds) (hl : (l, id) ∈ state.symbolIds) : k = l :=
  congrArg Prod.fst (List.inj_on_of_nodup_map (h.ids ▸ List.nodup_range) hk hl rfl)

theorem Valid.ruleOf_size {state : ParseState} (h : Valid state) : state.ruleOf state.size = [] := by
  rw [ParseState.ruleOf, List.getElem?_eq_none h.length, Option.getD_none]

theorem lookup_eq_none {symbolIds : List (Name × ℕ)} {name : Name}
    (h : name ∉ symbolIds.map Prod.fst) : symbolIds.lookup name = none := by
  induction symbolIds with
  | nil => rfl
  | cons entry symbolIds ih =>
    rw [List.map_cons, List.mem_cons, not_or] at h
    rw [List.lookup_cons, beq_false_of_ne h.1]
    exact ih h.2

theorem mem_of_lookup_eq_some {symbolIds : List (Name × ℕ)} {name : Name} {id : ℕ}
    (h : symbolIds.lookup name = some id) : (name, id) ∈ symbolIds := by
  induction symbolIds with
  | nil => cases h
  | cons entry symbolIds ih =>
    rw [List.lookup_cons] at h
    by_cases hn : name = entry.1
    · rw [beq_iff_eq.mpr hn] at h
      cases h
      subst hn
      exact List.mem_cons_self ..
    · rw [beq_false_of_ne hn] at h
      exact List.mem_cons_of_mem _ (ih h)

theorem wellFormedRule_ne_nil {n : ℕ} {rule : List Element} (h : WellFormedRule n rule) :
    rule ≠ [] := by
  rintro rfl
  obtain ⟨e, he, -⟩ := h.ends
  cases he

/-- A well-formed rule stays well formed when there are more symbols. -/
theorem wellFormedRule_mono {m n : ℕ} (hmn : m ≤ n) {rule : List Element}
    (h : WellFormedRule m rule) : WellFormedRule n rule :=
  ⟨h.ends, h.endsOnce, fun e he ht => lt_of_lt_of_le (h.refs e he ht) hmn, h.start, h.classes⟩

/-- A new symbol keeps the invariant. -/
theorem Valid.newSymbol {state : ParseState} (h : Valid state) {name : Name}
    (hnew : name ∉ state.symbolIds.map Prod.fst)
    (hkey : (∃ word : Word, name = word.val) ∨ Generated name state.size) :
    Valid { state with symbolIds := state.symbolIds ++ [(name, state.size)] } where
  ids := by simp [ParseState.size, h.ids, List.range_succ]
  names := by
    rw [List.map_append, List.nodup_append]
    refine ⟨h.names, List.nodup_singleton _, fun a ha b hb => ?_⟩
    rw [List.map_singleton, List.mem_singleton] at hb
    subst hb
    exact ne_of_mem_of_not_mem ha hnew
  keys := by
    simp only [List.mem_append, List.mem_singleton]
    rintro entry (hentry | rfl)
    exacts [h.keys entry hentry, hkey]
  length := h.length.trans (by simp [ParseState.size])
  rules id hid := wellFormedRule_mono (by simp [ParseState.size]) (h.rules id hid)

theorem getSymbolId_of_mem {state : ParseState} (h : Valid state) {name : Name} {id : ℕ}
    (hmem : (name, id) ∈ state.symbolIds) : getSymbolId state name = (id, state) := by
  rw [getSymbolId]
  cases hl : state.symbolIds.lookup name with
  | some id' => rw [h.id_unique hmem (mem_of_lookup_eq_some hl)]
  | none =>
    have hnot : ∀ {l : List (Name × ℕ)}, (name, id) ∈ l → l.lookup name ≠ none := by
      intro l hl
      induction l with
      | nil => cases hl
      | cons entry l ih =>
        rw [List.lookup_cons]
        by_cases hn : name = entry.1
        · rw [beq_iff_eq.mpr hn]
          exact nofun
        · rw [beq_false_of_ne hn]
          exact ih ((List.mem_cons.mp hl).resolve_left (fun heq => hn (congrArg Prod.fst heq)))
    exact absurd hl (hnot hmem)

theorem getSymbolId_of_not_mem {state : ParseState} {name : Name}
    (hnew : name ∉ state.symbolIds.map Prod.fst) :
    getSymbolId state name =
      (state.size, { state with symbolIds := state.symbolIds ++ [(name, state.size)] }) := by
  rw [getSymbolId, lookup_eq_none hnew]
  rfl

/-- The name that is generated is a new one. -/
theorem Valid.generated_not_mem {state : ParseState} (h : Valid state) {name : Name}
    (hname : Generated name state.size) : name ∉ state.symbolIds.map Prod.fst := by
  intro hmem
  obtain ⟨entry, hentry, rfl⟩ := List.mem_map.mp hmem
  rcases h.keys entry hentry with ⟨word, hword⟩ | hgen
  · exact hname.ne_word word hword
  · exact absurd (hgen.unique hname) (ne_of_lt (h.id_lt hentry))

theorem generateSymbolId_eq {state : ParseState} (h : Valid state) (base : Word) :
    ∃ name, Generated name state.size ∧ generateSymbolId state base.val =
      (state.size, { state with symbolIds := state.symbolIds ++ [(name, state.size)] }) := by
  have hgen : Generated (base.val ++ ascii '_' :: toDecimal state.size) state.size := ⟨base, rfl⟩
  have hset : setSymbolId state.symbolIds (base.val ++ ascii '_' :: toDecimal state.size) state.size =
      state.symbolIds ++ [(base.val ++ ascii '_' :: toDecimal state.size, state.size)] := by
    rw [setSymbolId, lookup_eq_none (h.generated_not_mem hgen)]
  exact ⟨_, hgen, congrArg (fun symbolIds => (state.size, { state with symbolIds })) hset⟩

/-- `add_rule` gives one symbol a rule, and leaves the others theirs. -/
theorem ruleOf_addRule (state : ParseState) (ruleId : ℕ) (rule : List Element) (id : ℕ) :
    (addRule state ruleId rule).ruleOf id = if id = ruleId then rule else state.ruleOf id := by
  simp only [ParseState.ruleOf, addRule]
  by_cases hid : id = ruleId
  · subst hid
    rw [if_pos rfl, List.getElem?_set_self (by simp; omega), Option.getD_some]
  · rw [if_neg hid, List.getElem?_set_ne (Ne.symm hid), List.getElem?_append]
    split_ifs with hlt
    · rfl
    · rw [List.getElem?_eq_none (Nat.le_of_not_lt hlt), List.getElem?_replicate]
      split_ifs <;> rfl

/-- `add_rule` keeps the invariant, for a well-formed rule of a symbol. -/
theorem Valid.addRule {state : ParseState} (h : Valid state) {ruleId : ℕ}
    (hid : ruleId < state.size) {rule : List Element} (hrule : WellFormedRule state.size rule) :
    Valid (addRule state ruleId rule) where
  ids := h.ids
  names := h.names
  keys := h.keys
  length := by
    have := h.length
    simp only [GrammarParser.addRule, List.length_set, List.length_append, List.length_replicate,
      ParseState.size] at *
    omega
  rules id hne := by
    rw [ruleOf_addRule] at hne ⊢
    split_ifs at hne ⊢
    · exact hrule
    · exact h.rules id hne

/-! ### Well-formed pieces of rules -/

/-- Elements that can stand in front of any well-formed rest of a rule, over `n` symbols or
more. -/
def Fragment (n : ℕ) (elements : List Element) : Prop :=
  ∀ m, n ≤ m → ∀ rest, AtSymbol m rest → AtSymbol m (elements ++ rest)

theorem fragment_nil {n : ℕ} : Fragment n [] := fun _ _ _ h => h

theorem Fragment.append {n : ℕ} {xs ys : List Element} (hx : Fragment n xs) (hy : Fragment n ys) :
    Fragment n (xs ++ ys) := fun m hm rest h => by
  rw [List.append_assoc]
  exact hx m hm _ (hy m hm rest h)

theorem Fragment.mono {m n : ℕ} (hmn : m ≤ n) {xs : List Element} (h : Fragment m xs) :
    Fragment n xs := fun k hk => h k (hmn.trans hk)

/-- What can stand behind an `ALT` can stand behind anything. -/
theorem wellFormedFrom_of_atSymbol {n : ℕ} {prev : Gretype} {pos : List Element}
    (h : AtSymbol n pos) : wellFormedFrom n prev pos = true := by
  cases pos with
  | nil => exact h
  | cons e rest =>
    obtain ⟨hf, hr⟩ := wellFormedFrom_cons.mp h
    refine wellFormedFrom_cons.mpr ⟨?_, hr⟩
    cases ht : e.type <;> rw [ht] at hf <;> first | rfl | cases hf

theorem atSymbol_endRule {n : ℕ} : AtSymbol n [⟨.endRule, 0⟩] :=
  wellFormedFrom_cons.mpr ⟨rfl, nofun, by simp⟩

theorem fragment_ruleRef {n id : ℕ} (h : id < n) : Fragment n [⟨.ruleRef, id⟩] :=
  fun _ hm _ hrest => wellFormedFrom_cons.mpr ⟨rfl, fun _ => lt_of_lt_of_le h hm, by simpa using wellFormedFrom_of_atSymbol hrest⟩

theorem fragment_alt {n : ℕ} : Fragment n [⟨.alt, 0⟩] := fun _ _ _ hrest =>
  wellFormedFrom_cons.mpr ⟨rfl, nofun, by simpa using wellFormedFrom_of_atSymbol hrest⟩

theorem fragment_literal {n : ℕ} (chars : List ℕ) :
    Fragment n (chars.map fun value => ⟨.char, value⟩) := by
  induction chars with
  | nil => exact fragment_nil
  | cons value chars ih =>
    intro m hm rest hrest
    exact wellFormedFrom_cons.mpr
      ⟨rfl, nofun, by simpa using wellFormedFrom_of_atSymbol (ih m hm rest hrest)⟩

/-- Alternate code points can stand behind anything that ends a class element. -/
theorem wellFormedFrom_classElements {n : ℕ} {startType prev : Gretype}
    (hstart : startType = .char ∨ startType = .charNot ∨ startType = .charAlt)
    (hprev : mayFollow prev startType = true) (ranges : List (ℕ × Option ℕ)) {rest : List Element}
    (hrest : AtSymbol n rest) :
    wellFormedFrom n prev (classElements startType ranges ++ rest) = true := by
  induction ranges generalizing startType prev with
  | nil => exact wellFormedFrom_of_atSymbol hrest
  | cons range ranges ih =>
    obtain ⟨lower, _ | upper⟩ := range
    · rw [classElements, rangeElements, List.append_assoc, List.singleton_append]
      refine wellFormedFrom_cons.mpr ⟨hprev, ?_, ?_⟩ <;>
        rcases hstart with rfl | rfl | rfl
      iterate 3 rintro ⟨⟩
      iterate 3 simpa using ih (.inr (.inr rfl)) rfl
    · rw [classElements, rangeElements, List.append_assoc, List.cons_append, List.singleton_append]
      have hupper : ∀ p, mayFollow p .charRngUpper = true → wellFormedFrom n p
          (⟨.charRngUpper, upper⟩ :: (classElements .charAlt ranges ++ rest)) = true := fun p hp =>
        wellFormedFrom_cons.mpr ⟨hp, (by rintro ⟨⟩), by simpa using ih (.inr (.inr rfl)) rfl⟩
      refine wellFormedFrom_cons.mpr ⟨hprev, ?_, ?_⟩ <;>
        rcases hstart with rfl | rfl | rfl
      iterate 3 rintro ⟨⟩
      iterate 3 simpa using hupper _ rfl

theorem fragment_charClass {n : ℕ} (negated : Bool) (ranges : List (ℕ × Option ℕ)) :
    Fragment n (classElements (if negated then .charNot else .char) ranges) :=
  fun _ _ _ hrest => by
  cases negated
  · exact wellFormedFrom_classElements (.inl rfl) rfl ranges hrest
  · exact wellFormedFrom_classElements (.inr (.inl rfl)) rfl ranges hrest

/-- A fragment ended by `END` is a well-formed rule. -/
theorem Fragment.wellFormedRule {n : ℕ} {xs : List Element} (h : Fragment n xs) :
    WellFormedRule n (xs ++ [⟨.endRule, 0⟩]) := 
  wellFormedRule_iff.mpr (h n le_rfl _ atSymbol_endRule)

theorem wellFormedRule_subRule {n id : ℕ} (op : RepOp) (hid : id < n) {sym : List Element}
    (h : Fragment n sym) : WellFormedRule n (op.subRule id sym) := by
  have hrep : Fragment n (if op = .star ∨ op = .plus then [⟨.ruleRef, id⟩] else []) := by
    split_ifs
    exacts [fragment_ruleRef hid, fragment_nil]
  have hagain : Fragment n (if op = .plus then sym else []) := by
    split_ifs
    exacts [h, fragment_nil]
  exact (((h.append hrep).append fragment_alt).append hagain).wellFormedRule

/-! ### Compiling -/

mutual

/-- The names an item mentions. -/
def Item.mentions : Item → List Word
  | .literal _ => []
  | .charClass _ _ => []
  | .ref name => [name]
  | .group first others => mentionsSequence first ++ mentionsOthers others
  | .rep _ item => item.mentions

/-- The names a sequence mentions. -/
def mentionsSequence : List Item → List Word
  | [] => []
  | item :: items => item.mentions ++ mentionsSequence items

/-- The names some alternates mention. -/
def mentionsOthers : List (List Item) → List Word
  | [] => []
  | seq :: others => mentionsSequence seq ++ mentionsOthers others

end

/-- What compiling a piece of syntax that mentions `words` does to the state: it keeps the
invariant, adds the names it mentions, without a rule, and generated symbols, with a rule, and
leaves the rules of all symbols there were. -/
structure Extends (words : List Word) (state state' : ParseState) : Prop where
  valid : Valid state'
  grows : ∃ new, state'.symbolIds = state.symbolIds ++ new ∧ ∀ entry ∈ new,
    ((∃ word ∈ words, entry.1 = word.val) ∧ state'.ruleOf entry.2 = []) ∨
      (Generated entry.1 entry.2 ∧ state'.ruleOf entry.2 ≠ [])
  mentioned : ∀ word ∈ words, ∃ id, (word.val, id) ∈ state'.symbolIds
  frame : ∀ id < state.size, state'.ruleOf id = state.ruleOf id

theorem Extends.refl {state : ParseState} (h : Valid state) : Extends [] state state :=
  ⟨h, ⟨[], by simp⟩, nofun, fun _ _ => rfl⟩

theorem Extends.subset {words : List Word} {state state' : ParseState}
    (h : Extends words state state') {entry : Name × ℕ} (hentry : entry ∈ state.symbolIds) :
    entry ∈ state'.symbolIds := by
  obtain ⟨new, heq, -⟩ := h.grows
  rw [heq]
  exact List.mem_append_left _ hentry

theorem Extends.size_le {words : List Word} {state state' : ParseState}
    (h : Extends words state state') : state.size ≤ state'.size := by
  obtain ⟨new, heq, -⟩ := h.grows
  rw [ParseState.size, ParseState.size, heq, List.length_append]
  omega

theorem Extends.trans {words words' : List Word} {state state' state'' : ParseState}
    (h : Extends words state state') (h' : Extends words' state' state'') :
    Extends (words ++ words') state state'' := by
  refine ⟨h'.valid, ?_, fun word hword => ?_, fun id hid => ?_⟩
  · obtain ⟨new, heq, hnew⟩ := h.grows
    obtain ⟨new', heq', hnew'⟩ := h'.grows
    refine ⟨new ++ new', by rw [heq', heq, List.append_assoc], fun entry hentry => ?_⟩
    rcases List.mem_append.mp hentry with hentry | hentry
    · have hmem : entry ∈ state'.symbolIds := by rw [heq]; exact List.mem_append_right _ hentry
      have hid := h.valid.id_lt hmem
      rw [h'.frame _ hid]
      exact (hnew entry hentry).imp_left fun ⟨⟨word, hword, hname⟩, hrule⟩ =>
        ⟨⟨word, List.mem_append_left _ hword, hname⟩, hrule⟩
    · exact (hnew' entry hentry).imp_left fun ⟨⟨word, hword, hname⟩, hrule⟩ =>
        ⟨⟨word, List.mem_append_right _ hword, hname⟩, hrule⟩
  · rcases List.mem_append.mp hword with hword | hword
    · obtain ⟨id, hid⟩ := h.mentioned word hword
      exact ⟨id, h'.subset hid⟩
    · exact h'.mentioned word hword
  · rw [h'.frame id (lt_of_lt_of_le hid h.size_le), h.frame id hid]

/-- A reference: the symbol is there already, or is a new one without a rule. -/
theorem extends_getSymbolId {state : ParseState} (h : Valid state) (name : Word) :
    Extends [name] state (getSymbolId state name.val).2 ∧
      (name.val, (getSymbolId state name.val).1) ∈ (getSymbolId state name.val).2.symbolIds := by
  by_cases hmem : name.val ∈ state.symbolIds.map Prod.fst
  · obtain ⟨⟨_, id⟩, hentry, rfl⟩ := List.mem_map.mp hmem
    rw [getSymbolId_of_mem h hentry]
    exact ⟨⟨h, ⟨[], by simp⟩, by simpa using ⟨id, hentry⟩, fun _ _ => rfl⟩, hentry⟩
  · rw [getSymbolId_of_not_mem hmem]
    have hin : (name.val, state.size) ∈ state.symbolIds ++ [(name.val, state.size)] := by simp
    refine ⟨⟨h.newSymbol hmem (.inl ⟨name, rfl⟩), ⟨_, rfl, fun entry hentry => .inl ?_⟩,
      fun word hword => ?_, fun _ _ => rfl⟩, hin⟩
    · obtain rfl := List.mem_singleton.mp hentry
      exact ⟨⟨name, List.mem_singleton_self _, rfl⟩, h.ruleOf_size⟩
    · obtain rfl := List.mem_singleton.mp hword
      exact ⟨state.size, hin⟩

theorem valid_generateSymbolId {state : ParseState} (h : Valid state) (base : Word) :
    Valid (generateSymbolId state base.val).2 ∧ (generateSymbolId state base.val).1 = state.size ∧
      (generateSymbolId state base.val).2.size = state.size + 1 := by
  obtain ⟨name, hgen, heq⟩ := generateSymbolId_eq h base
  rw [heq]
  exact ⟨h.newSymbol (h.generated_not_mem hgen) (.inr hgen), rfl, by simp [ParseState.size]⟩

/-- A symbol is generated, more is compiled, and the symbol is given its rule. -/
theorem Extends.generate {words : List Word} {state state' : ParseState} (h : Valid state)
    {base : Word} {rule : List Element}
    (hinner : Extends words (generateSymbolId state base.val).2 state')
    (hrule : WellFormedRule state'.size rule) :
    Extends words state (addRule state' (generateSymbolId state base.val).1 rule) := by
  obtain ⟨name, hgen, heq⟩ := generateSymbolId_eq h base
  rw [heq] at hinner ⊢
  have hsize : state.size + 1 ≤ state'.size := by simpa [ParseState.size] using hinner.size_le
  refine ⟨hinner.valid.addRule hsize hrule, ?_, hinner.mentioned, fun id hid => ?_⟩
  · obtain ⟨new, hnew, hall⟩ := hinner.grows
    refine ⟨(name, state.size) :: new, by
      change state'.symbolIds = _
      rw [hnew, List.append_assoc, List.singleton_append], fun entry hentry => ?_⟩
    rcases List.mem_cons.mp hentry with rfl | hentry'
    · exact .inr ⟨hgen, by rw [ruleOf_addRule, if_pos rfl]; exact wellFormedRule_ne_nil hrule⟩
    · -- symbols from inside are other ones
      have hmem : entry ∈ state'.symbolIds := by rw [hnew]; exact List.mem_append_right _ hentry'
      have hne : entry.2 ≠ state.size := by
        intro hid
        have hmem' : (name, entry.2) ∈ state'.symbolIds := by
          rw [hid]
          exact hinner.subset (by simp)
        have hname : entry.1 = name := hinner.valid.name_unique hmem hmem'
        have hnodup := hinner.valid.names
        rw [hnew, List.map_append, List.nodup_append] at hnodup
        exact hnodup.2.2 name (by simp) _ (List.mem_map_of_mem hentry') hname.symm
      rw [ruleOf_addRule, if_neg hne]
      exact hall entry hentry'
  · rw [ruleOf_addRule, if_neg (ne_of_lt hid)]
    exact hinner.frame id (by simpa [ParseState.size] using Nat.lt_succ_of_lt hid)

mutual

theorem extends_compileItem (ruleName : Word) : ∀ (item : Item) {state : ParseState},
    Valid state → Extends item.mentions state (compileItem ruleName item state).1 ∧
      Fragment (compileItem ruleName item state).1.size (compileItem ruleName item state).2
  | .literal chars, _, h => ⟨.refl h, fragment_literal chars⟩
  | .charClass negated ranges, _, h => ⟨.refl h, fragment_charClass negated ranges⟩
  | .ref name, _, h =>
    have hext := extends_getSymbolId h name
    ⟨hext.1, fragment_ruleRef (hext.1.valid.id_lt hext.2)⟩
  | .group first others, state, h => by
    obtain ⟨hgen, hid, hsize⟩ := valid_generateSymbolId h ruleName
    obtain ⟨hfirst, hrule⟩ := extends_compileSequence ruleName first hgen
    obtain ⟨hothers, hrest⟩ := extends_compileOthers ruleName others hfirst.valid
    have hext := Extends.generate h (hfirst.trans hothers)
      ((hrule.mono hothers.size_le).append hrest).wellFormedRule
    have hlt : (generateSymbolId state ruleName.val).1 <
        (generateSymbolId state ruleName.val).2.size := by
      rw [hid, hsize]
      exact Nat.lt_succ_self _
    exact ⟨hext, fragment_ruleRef (lt_of_lt_of_le hlt (hfirst.trans hothers).size_le)⟩
  | .rep op item, state, h => by
    obtain ⟨hitem, hsym⟩ := extends_compileItem ruleName item h
    obtain ⟨hgen, hid, hsize⟩ := valid_generateSymbolId hitem.valid ruleName
    have hlt : (generateSymbolId (compileItem ruleName item state).1 ruleName.val).1 <
        (generateSymbolId (compileItem ruleName item state).1 ruleName.val).2.size := by
      rw [hid, hsize]
      exact Nat.lt_succ_self _
    have hext := Extends.generate hitem.valid (.refl hgen)
      (wellFormedRule_subRule op hlt (hsym.mono (by omega)))
    exact ⟨List.append_nil item.mentions ▸ hitem.trans hext, fragment_ruleRef hlt⟩

theorem extends_compileSequence (ruleName : Word) : ∀ (items : List Item) {state : ParseState},
    Valid state → Extends (mentionsSequence items) state (compileSequence ruleName items state).1 ∧
      Fragment (compileSequence ruleName items state).1.size
        (compileSequence ruleName items state).2
  | [], _, h => ⟨.refl h, fragment_nil⟩
  | item :: items, _, h =>
    have hitem := extends_compileItem ruleName item h
    have hitems := extends_compileSequence ruleName items hitem.1.valid
    ⟨hitem.1.trans hitems.1, (hitem.2.mono hitems.1.size_le).append hitems.2⟩

theorem extends_compileOthers (ruleName : Word) : ∀ (others : List (List Item))
    {state : ParseState}, Valid state →
      Extends (mentionsOthers others) state (compileOthers ruleName others state).1 ∧
        Fragment (compileOthers ruleName others state).1.size (compileOthers ruleName others state).2
  | [], _, h => ⟨.refl h, fragment_nil⟩
  | seq :: others, _, h =>
    have hseq := extends_compileSequence ruleName seq h
    have hothers := extends_compileOthers ruleName others hseq.1.valid
    ⟨hseq.1.trans hothers.1, (fragment_alt.append (hseq.2.mono hothers.1.size_le)).append hothers.2⟩

end

/-! ### Definitions -/

/-- The names a definition mentions behind its `::=`. -/
def Definition.mentions (definition : Definition) : List Word :=
  mentionsSequence definition.first ++ mentionsOthers definition.others

/-- What is known of the state once some definitions have been compiled. -/
structure Compiled (definitions : List Definition) (state : ParseState) : Prop where
  valid : Valid state
  /-- All names are there. -/
  named : ∀ definition ∈ definitions, ∀ word, (word = definition.name ∨ word ∈ definition.mentions) →
    ∃ id, (word.val, id) ∈ state.symbolIds
  /-- A generated symbol has a rule; a name is defined or mentioned, and has a rule iff it is
  defined. -/
  rules : ∀ entry ∈ state.symbolIds,
    (Generated entry.1 entry.2 ∧ state.ruleOf entry.2 ≠ []) ∨
      ∃ word : Word, entry.1 = word.val ∧
        (state.ruleOf entry.2 ≠ [] ↔ ∃ definition ∈ definitions, word = definition.name) ∧
        ∃ definition ∈ definitions, word = definition.name ∨ word ∈ definition.mentions

theorem Compiled.compileRule {definitions : List Definition} {state : ParseState}
    (h : Compiled definitions state) (definition : Definition) :
    Compiled (definitions ++ [definition]) (compileRule state definition) := by
  obtain ⟨hget, hmem⟩ := extends_getSymbolId h.valid definition.name
  obtain ⟨hfirst, hrule⟩ := extends_compileSequence definition.name definition.first hget.valid
  obtain ⟨hothers, hrest⟩ := extends_compileOthers definition.name definition.others hfirst.valid
  have hext := hget.trans (hfirst.trans hothers)
  have hwf := ((hrule.mono hothers.size_le).append hrest).wellFormedRule
  have hmem' := (hfirst.trans hothers).subset hmem
  have hvalid := hothers.valid.addRule (hothers.valid.id_lt hmem') hwf
  set id := (getSymbolId state definition.name.val).1
  set state' := (compileOthers definition.name definition.others
    (compileSequence definition.name definition.first
      (getSymbolId state definition.name.val).2).1).1
  refine ⟨hvalid, fun d hd word hword => ?_, fun entry hentry => ?_⟩
  · rcases List.mem_append.mp hd with hd | hd
    · obtain ⟨id, hid⟩ := h.named d hd word hword
      exact ⟨id, hext.subset hid⟩
    · obtain rfl := List.mem_singleton.mp hd
      exact hext.mentioned word (List.mem_cons.mpr hword)
  · change entry ∈ state'.symbolIds at hentry
    change (_ ∧ (addRule state' id _).ruleOf entry.2 ≠ []) ∨ ∃ word : Word, _ ∧
      ((addRule state' id _).ruleOf entry.2 ≠ [] ↔ _) ∧ _
    rw [ruleOf_addRule]
    by_cases hid : entry.2 = id
    · -- the symbol that is defined
      rw [if_pos hid]
      have hentry' : (entry.1, id) ∈ state'.symbolIds := hid ▸ hentry
      refine .inr ⟨definition.name, hext.valid.name_unique hentry' hmem', ?_, ?_⟩
      · exact iff_of_true (wellFormedRule_ne_nil hwf) ⟨definition, by simp, rfl⟩
      · exact ⟨definition, by simp, .inl rfl⟩
    · rw [if_neg hid]
      have hother : ∀ word : Word, entry.1 = word.val → word ≠ definition.name := by
        rintro word hname rfl
        have hmem'' : (entry.1, id) ∈ state'.symbolIds := hname ▸ hmem'
        exact hid (hext.valid.id_unique hentry hmem'')
      have hdefined : ∀ word : Word, entry.1 = word.val →
          ((∃ d ∈ definitions ++ [definition], word = d.name) ↔
            ∃ d ∈ definitions, word = d.name) := by
        intro word hname
        simp [or_and_right, exists_or, hother word hname]
      obtain ⟨new, hnew, hall⟩ := hext.grows
      rw [hnew] at hentry
      rcases List.mem_append.mp hentry with hold | hentry
      · rw [hext.frame _ (h.valid.id_lt hold)]
        refine (h.rules entry hold).imp_right fun ⟨word, hname, hiff, d, hd, hword⟩ => ?_
        exact ⟨word, hname, hiff.trans (hdefined word hname).symm, d, List.mem_append_left _ hd, hword⟩
      · refine ((hall entry hentry).symm).imp_right fun ⟨⟨word, hword, hname⟩, hrule⟩ => ?_
        refine ⟨word, hname, ?_, definition, by simp, List.mem_cons.mp hword⟩
        rw [hdefined word hname]
        refine iff_of_false (not_not_intro hrule) ?_
        rintro ⟨d, hd, rfl⟩
        obtain ⟨id', hold⟩ := h.named d hd _ (.inl rfl)
        have hnodup := hext.valid.names
        rw [hnew, List.map_append, List.nodup_append] at hnodup
        exact hnodup.2.2 _ (List.mem_map_of_mem hold) _ (List.mem_map_of_mem hentry) hname.symm

theorem compiled_compileGrammar (definitions : List Definition) :
    Compiled definitions (compileGrammar definitions {}) := by
  induction definitions using List.reverseRecOn with
  | nil => exact ⟨valid_empty, nofun, nofun⟩
  | append_singleton definitions definition ih =>
    rw [compileGrammar, List.foldl_append]
    exact ih.compileRule definition

end GrammarParser

end WhisperCpp
