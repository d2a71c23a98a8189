import WhisperCpp.GrammarParser.Parse
import WhisperCpp.Library.Fuel

/-!
# Syntax trees of grammar texts

The parser produces rules while it reads. Here the two are taken apart: `readGrammar` only reads,
and gives the definitions of a text as syntax trees; `compileGrammar` only produces rules. The
parser is their composition, so what it does to its state can be proved by structural induction.

## Main definitions

* `Item`, `Definition` — syntax trees
* `readGrammar` — the definitions of a text
* `compileGrammar` — the state they are turned into

## Main results

* `tryParse_eq` — parsing is reading, then compiling
-/

namespace WhisperCpp

namespace GrammarParser

open Grammar (Gretype Element)

/-- A name as it is written in a text: word characters only. -/
abbrev Word := { name : Name // name.all isWordChar = true }

/-- What a sequence consists of. -/
inductive Item where
  /-- `"abc"` -/
  | literal (chars : List ℕ)
  /-- `[abc]`, `[^a-z]`: code points and ranges -/
  | charClass (negated : Bool) (ranges : List (ℕ × Option ℕ))
  /-- the name of a rule -/
  | ref (name : Word)
  /-- `( … | … )` -/
  | group (first : List Item) (others : List (List Item))
  /-- an item with a repetition operator behind it -/
  | rep (op : RepOp) (item : Item)

/-- `name ::= first | others …` -/
structure Definition where
  name : Word
  first : List Item
  others : List (List Item)

/-- An item that produces no elements: `""` or `[]`. Nothing can be repeated there. -/
def Item.isEmpty : Item → Bool
  | .literal chars => chars.isEmpty
  | .charClass _ ranges => ranges.isEmpty
  | _ => false

/-! ### Reading -/

/-- The name in front of a text. -/
def readName (src : Text) : Except ParseError (Word × Text) :=
  if (src.takeWhile isWordChar).isEmpty then .error (.expectingName src)
  else .ok (⟨src.takeWhile isWordChar, List.all_takeWhile⟩, src.dropWhile isWordChar)

/-- The characters of a literal, up to its closing quote. -/
def readLiteral : ℕ → Text → Except ParseError (List ℕ × Text)
  | 0, _ => .error .outOfFuel
  | fuel + 1, pos =>
    if peek pos = quote then .ok ([], pos) else do
      let (value, pos) ← parseChar pos
      let (chars, pos) ← readLiteral fuel pos
      return (value :: chars, pos)

/-- One code point or range of a character class. -/
def readRange (pos : Text) : Except ParseError ((ℕ × Option ℕ) × Text) := do
  let (lower, pos) ← parseChar pos
  if peek pos = ascii '-' ∧ peek pos.tail ≠ ascii ']' then
    let (upper, pos) ← parseChar pos.tail
    return ((lower, some upper), pos)
  else return ((lower, none), pos)

/-- The ranges of a character class, up to its closing bracket. -/
def readRanges : ℕ → Text → Except ParseError (List (ℕ × Option ℕ) × Text)
  | 0, _ => .error .outOfFuel
  | fuel + 1, pos =>
    if peek pos = ascii ']' then .ok ([], pos) else do
      let (range, pos) ← readRange pos
      let (ranges, pos) ← readRanges fuel pos
      return (range :: ranges, pos)

mutual

/-- The rest of a sequence; `items` are those read so far, last one first. -/
def readSequence (isNested : Bool) : ℕ → Text → List Item → Except ParseError (List Item × Text)
  | 0, _, _ => .error .outOfFuel
  | fuel + 1, pos, items =>
    if peek pos = 0 then .ok (items.reverse, pos)
    else if peek pos = quote then do
      let (chars, pos) ← readLiteral fuel pos.tail
      readSequence isNested fuel (parseSpace pos.tail isNested) (.literal chars :: items)
    else if peek pos = ascii '[' then do
      let negated := peek pos.tail == ascii '^'
      let (ranges, pos) ← readRanges fuel (if negated then pos.tail.tail else pos.tail)
      readSequence isNested fuel (parseSpace pos.tail isNested) (.charClass negated ranges :: items)
    else if isWordChar (peek pos) then do
      let (name, nameEnd) ← readName pos
      readSequence isNested fuel (parseSpace nameEnd isNested) (.ref name :: items)
    else if peek pos = ascii '(' then do
      let (first, others, pos) ← readAlternates true fuel (parseSpace pos.tail true)
      if peek pos = ascii ')' then
        readSequence isNested fuel (parseSpace pos.tail isNested) (.group first others :: items)
      else .error (.expectingParen pos)
    else
      match repOp (peek pos) with
      | none => .ok (items.reverse, pos)
      | some op =>
        match items with
        | [] => .error (.expectingItem pos)
        | item :: items =>
          if item.isEmpty then .error (.expectingItem pos)
          else readSequence isNested fuel (parseSpace pos.tail isNested) (.rep op item :: items)

/-- The alternates of a rule or a group. -/
def readAlternates (isNested : Bool) : ℕ → Text →
    Except ParseError (List Item × List (List Item) × Text)
  | 0, _ => .error .outOfFuel
  | fuel + 1, src => do
    let (first, pos) ← readSequence isNested fuel src []
    let (others, pos) ← readOthers isNested fuel pos
    return (first, others, pos)

/-- The alternates behind the first one. -/
def readOthers (isNested : Bool) : ℕ → Text → Except ParseError (List (List Item) × Text)
  | 0, _ => .error .outOfFuel
  | fuel + 1, pos =>
    if peek pos = ascii '|' then do
      let (seq, pos) ← readSequence isNested fuel (parseSpace pos.tail true) []
      let (others, pos) ← readOthers isNested fuel pos
      return (seq :: others, pos)
    else .ok ([], pos)

end

/-- One definition. -/
def readRule (fuel : ℕ) (src : Text) : Except ParseError (Definition × Text) := do
  let (name, nameEnd) ← readName src
  let pos ← parseDefinedAs nameEnd
  let (first, others, pos) ← readAlternates false fuel pos
  let pos ← parseNewline pos
  return (⟨name, first, others⟩, parseSpace pos true)

/-- All definitions of a text. -/
def readRules : ℕ → Text → Except ParseError (List Definition)
  | 0, _ => .error .outOfFuel
  | fuel + 1, pos =>
    if peek pos = 0 then .ok [] else do
      let (definition, pos) ← readRule fuel pos
      let definitions ← readRules fuel pos
      return definition :: definitions

/-- The definitions of a grammar text. -/
def readGrammar (src : Text) : Except ParseError (List Definition) :=
  readRules (2 * src.length + 3) (parseSpace src true)

/-! ### Compiling -/

/-- The elements of one code point or range. -/
def rangeElements (type : Gretype) : ℕ × Option ℕ → List Element
  | (lower, none) => [⟨type, lower⟩]
  | (lower, some upper) => [⟨type, lower⟩, ⟨.charRngUpper, upper⟩]

/-- The elements of a character class, the first of type `startType`. -/
def classElements (startType : Gretype) : List (ℕ × Option ℕ) → List Element
  | [] => []
  | range :: ranges => rangeElements startType range ++ classElements .charAlt ranges

mutual

/-- The elements of an item, with the rules it needs added to the state. -/
def compileItem (ruleName : Word) : Item → ParseState → ParseState × List Element
  | .literal chars, state => (state, chars.map fun value => ⟨.char, value⟩)
  | .charClass negated ranges, state =>
    (state, classElements (if negated then .charNot else .char) ranges)
  | .ref name, state =>
    let (refRuleId, state) := getSymbolId state name.val
    (state, [⟨.ruleRef, refRuleId⟩])
  | .group first others, state =>
    let (subRuleId, state) := generateSymbolId state ruleName.val
    let (state, rule) := compileSequence ruleName first state
    let (state, rest) := compileOthers ruleName others state
    (addRule state subRuleId (rule ++ rest ++ [⟨.endRule, 0⟩]), [⟨.ruleRef, subRuleId⟩])
  | .rep op item, state =>
    let (state, sym) := compileItem ruleName item state
    let (subRuleId, state) := generateSymbolId state ruleName.val
    (addRule state subRuleId (op.subRule subRuleId sym), [⟨.ruleRef, subRuleId⟩])

/-- The elements of a sequence. -/
def compileSequence (ruleName : Word) : List Item → ParseState → ParseState × List Element
  | [], state => (state, [])
  | item :: items, state =>
    let (state, sym) := compileItem ruleName item state
    let (state, rest) := compileSequence ruleName items state
    (state, sym ++ rest)

/-- The elements of the alternates behind the first one. -/
def compileOthers (ruleName : Word) : List (List Item) → ParseState → ParseState × List Element
  | [], state => (state, [])
  | seq :: others, state =>
    let (state, rule) := compileSequence ruleName seq state
    let (state, rest) := compileOthers ruleName others state
    (state, ⟨.alt, 0⟩ :: rule ++ rest)

end

/-- The rule of some alternates, added under the id it was given. -/
def compileAlternates (ruleName : Word) (first : List Item) (others : List (List Item))
    (ruleId : ℕ) (state : ParseState) : ParseState :=
  let (state, rule) := compileSequence ruleName first state
  let (state, rest) := compileOthers ruleName others state
  addRule state ruleId (rule ++ rest ++ [⟨.endRule, 0⟩])

/-- One definition, added to the state. -/
def compileRule (state : ParseState) (definition : Definition) : ParseState :=
  let (ruleId, state) := getSymbolId state definition.name.val
  compileAlternates definition.name definition.first definition.others ruleId state

/-- The state of a list of definitions. -/
def compileGrammar (definitions : List Definition) (state : ParseState) : ParseState :=
  definitions.foldl compileRule state

/-! ### Parsing is reading, then compiling -/

theorem parseName_eq (src : Text) :
    parseName src = (fun (name, nameEnd) => (name.val, nameEnd)) <$> readName src := by
  rw [parseName, readName]
  split_ifs <;> rfl

theorem literalLoop_eq (fuel : ℕ) (pos : Text) (out : List Element) :
    literalLoop fuel pos out = (fun (chars, pos) =>
      (pos, out ++ chars.map fun value => ⟨.char, value⟩)) <$> readLiteral fuel pos := by
  induction fuel generalizing pos out with
  | zero => rfl
  | succ fuel ih =>
    rw [literalLoop, readLiteral]
    by_cases hq : peek pos = quote
    · rw [if_pos hq, if_pos hq]
      exact congrArg Except.ok (by simp)
    · rw [if_neg hq, if_neg hq, map_bind]
      refine bind_congr fun (value, pos) => ?_
      simp only [ih, map_eq_pure_bind, bind_assoc, pure_bind, List.map_cons, List.append_assoc,
        List.cons_append, List.nil_append]

theorem classLoop_eq {startType : Gretype} {lastSymStart : ℕ} (fuel : ℕ) (pos : Text)
    (out : List Element) (hlast : lastSymStart ≤ out.length) :
    classLoop startType lastSymStart fuel pos out = (fun (ranges, pos) =>
      (pos, out ++ classElements (if lastSymStart < out.length then .charAlt else startType)
        ranges)) <$> readRanges fuel pos := by
  induction fuel generalizing pos out with
  | zero => rfl
  | succ fuel ih =>
    rw [classLoop, readRanges]
    by_cases hq : peek pos = ascii ']'
    · rw [if_pos hq, if_pos hq]
      exact congrArg Except.ok (by simp [classElements])
    · -- behind the first element of the class, all are alternates
      have hnext : ∀ (rest : Text) (more : List Element), more ≠ [] →
          classLoop startType lastSymStart fuel rest (out ++ more) = (fun (ranges, pos) =>
            (pos, out ++ more ++ classElements .charAlt ranges)) <$> readRanges fuel rest := by
        intro rest more hmore
        have hlen := List.length_pos_iff.mpr hmore
        rw [ih rest _ (by rw [List.length_append]; omega),
          if_pos (by rw [List.length_append]; omega)]
      rw [if_neg hq, if_neg hq, map_bind, readRange, bind_assoc]
      refine bind_congr fun (lower, pos) => ?_
      by_cases hrange : peek pos = ascii '-' ∧ peek pos.tail ≠ ascii ']'
      · simp only [if_pos hrange, bind_assoc]
        refine bind_congr fun (upper, pos) => ?_
        simp only [List.append_assoc, pure_bind, map_bind, map_pure]
        rw [hnext _ _ (by simp), map_eq_pure_bind]
        simp [classElements, rangeElements]
      · simp only [if_neg hrange, pure_bind, map_bind, map_pure]
        rw [hnext _ _ (by simp), map_eq_pure_bind]
        simp [classElements, rangeElements]

theorem compileSequence_append_singleton (ruleName : Word) (items : List Item) (item : Item)
    (state : ParseState) :
    compileSequence ruleName (items ++ [item]) state =
      let (state, sym) := compileSequence ruleName items state
      let (state, rest) := compileItem ruleName item state
      (state, sym ++ rest) := by
  induction items generalizing state with
  | nil => simp [compileSequence]
  | cons item' items ih =>
    rw [List.cons_append, compileSequence, compileSequence]
    simp only [ih, List.append_assoc]

theorem compileItem_eq_nil_iff (ruleName : Word) (item : Item) (state : ParseState) :
    (compileItem ruleName item state).2 = [] ↔ item.isEmpty = true := by
  cases item with
  | literal chars => cases chars <;> simp [compileItem, Item.isEmpty]
  | charClass negated ranges =>
    cases ranges with
    | nil => simp [compileItem, Item.isEmpty, classElements]
    | cons range ranges =>
      obtain ⟨lower, upper⟩ := range
      cases upper <;> simp [compileItem, Item.isEmpty, classElements, rangeElements]
  | ref name => simp [compileItem, Item.isEmpty]
  | group first others => simp [compileItem, Item.isEmpty]
  | rep op item => simp [compileItem, Item.isEmpty]

/-- Where the last item of a sequence starts, the items being listed last one first. -/
def lastSymStart (ruleName : Word) (state : ParseState) : List Item → ℕ
  | [] => 0
  | _ :: items => (compileSequence ruleName items.reverse state).2.length

private theorem parse_eq (fuel : ℕ) :
    (∀ (ruleName : Word) isNested state pos out items,
      parseSequence ruleName.val isNested fuel (compileSequence ruleName items.reverse state).1 pos
        (out ++ (compileSequence ruleName items.reverse state).2)
        (out.length + lastSymStart ruleName state items) =
      (fun (items, pos) => ((compileSequence ruleName items state).1, pos,
        out ++ (compileSequence ruleName items state).2)) <$>
        readSequence isNested fuel pos items) ∧
    (∀ (ruleName : Word) isNested state src ruleId,
      parseAlternates ruleName.val isNested fuel state src ruleId = (fun (first, others, pos) =>
        (compileAlternates ruleName first others ruleId state, pos)) <$>
        readAlternates isNested fuel src) ∧
    ∀ (ruleName : Word) isNested state pos rule,
      alternatesLoop ruleName.val isNested fuel state pos rule = (fun (others, pos) =>
        ((compileOthers ruleName others state).1, pos,
          rule ++ (compileOthers ruleName others state).2)) <$> readOthers isNested fuel pos := by
  induction fuel with
  | zero => exact ⟨fun _ _ _ _ _ _ => rfl, fun _ _ _ _ _ => rfl, fun _ _ _ _ _ => rfl⟩
  | succ fuel ih =>
  obtain ⟨ihSequence, ihAlternates, ihOthers⟩ := ih
  refine ⟨fun ruleName isNested state pos out items => ?_,
    fun ruleName isNested state src ruleId => ?_, fun ruleName isNested state pos rule => ?_⟩
  · -- one more item, behind those read so far
    have hnext : ∀ (item : Item) (pos : Text),
        parseSequence ruleName.val isNested fuel
          (compileItem ruleName item (compileSequence ruleName items.reverse state).1).1 pos
          (out ++ (compileSequence ruleName items.reverse state).2 ++
            (compileItem ruleName item (compileSequence ruleName items.reverse state).1).2)
          (out ++ (compileSequence ruleName items.reverse state).2).length =
        (fun (items, pos) => ((compileSequence ruleName items state).1, pos,
          out ++ (compileSequence ruleName items state).2)) <$>
          readSequence isNested fuel pos (item :: items) := by
      intro item pos
      have := ihSequence ruleName isNested state pos out (item :: items)
      rw [List.reverse_cons, compileSequence_append_singleton] at this
      rw [← this, List.length_append, List.append_assoc]
      rfl
    rw [parseSequence, readSequence]
    by_cases h0 : peek pos = 0
    · rw [if_pos h0, if_pos h0]
      rfl
    rw [if_neg h0, if_neg h0]
    by_cases hquote : peek pos = quote
    · rw [if_pos hquote, if_pos hquote, literalLoop_eq, map_bind, bind_map_left]
      exact bind_congr fun (chars, pos) => hnext (.literal chars) _
    rw [if_neg hquote, if_neg hquote]
    by_cases hclass : peek pos = ascii '['
    · rw [if_pos hclass, if_pos hclass]
      simp only [classLoop_eq _ _ _ le_rfl, if_neg (lt_irrefl _), map_bind, bind_map_left]
      exact bind_congr fun (ranges, pos) => hnext (.charClass _ ranges) _
    rw [if_neg hclass, if_neg hclass]
    by_cases hword : isWordChar (peek pos) = true
    · rw [if_pos hword, if_pos hword, parseName_eq, bind_map_left, map_bind]
      exact bind_congr fun (name, nameEnd) => hnext (.ref name) _
    rw [if_neg hword, if_neg hword]
    by_cases hgroup : peek pos = ascii '('
    · rw [if_pos hgroup, if_pos hgroup, map_bind]
      simp only [ihAlternates, bind_map_left]
      refine bind_congr fun (first, others, pos) => ?_
      by_cases hclose : peek pos = ascii ')'
      · simp only [if_pos hclose]
        exact hnext (.group first others) _
      · simp only [if_neg hclose]
        rfl
    rw [if_neg hgroup, if_neg hgroup]
    cases repOp (peek pos) with
    | none => rfl
    | some op =>
    cases items with
    | nil =>
      simp only [List.reverse_nil, compileSequence, List.append_nil, lastSymStart, Nat.add_zero,
        if_true]
      rfl
    | cons item items =>
    have hempty := compileItem_eq_nil_iff ruleName item
      (compileSequence ruleName items.reverse state).1
    have hrep := ihSequence ruleName isNested state (parseSpace pos.tail isNested) out
      (.rep op item :: items)
    simp only [List.reverse_cons, compileSequence_append_singleton, lastSymStart] at hrep ⊢
    by_cases hitem : item.isEmpty = true
    · rw [if_pos (by rw [hempty.mpr hitem]; simp), if_pos hitem]
      rfl
    · have hlen : (compileItem ruleName item (compileSequence ruleName items.reverse state).1).2.length
          ≠ 0 := fun h => hitem (hempty.mp (List.length_eq_zero_iff.mp h))
      rw [if_neg (by simp only [List.length_append]; omega), if_neg hitem, ← hrep]
      simp [← List.append_assoc, ← List.length_append, compileItem]
  · rw [parseAlternates, readAlternates, map_bind]
    have hseq := ihSequence ruleName isNested state src [] []
    simp only [List.reverse_nil, compileSequence, List.append_nil, lastSymStart, List.length_nil,
      Nat.add_zero] at hseq
    rw [hseq, bind_map_left]
    refine bind_congr fun (first, pos) => ?_
    simp only [ihOthers, bind_map_left, map_bind, map_pure]
    exact bind_congr fun (others, pos) => by simp [compileAlternates]
  · rw [alternatesLoop, readOthers]
    by_cases hbar : peek pos = ascii '|'
    · rw [if_pos hbar, if_pos hbar, map_bind]
      have hseq := ihSequence ruleName isNested state (parseSpace pos.tail true)
        (rule ++ [⟨.alt, 0⟩]) []
      simp only [List.reverse_nil, compileSequence, List.append_nil, lastSymStart,
        Nat.add_zero] at hseq
      simp only [hseq, bind_map_left, ihOthers, map_bind, map_pure]
      refine bind_congr fun (seq, pos) => ?_
      rw [map_eq_pure_bind]
      exact bind_congr fun (others, pos) => by simp [compileOthers]
    · rw [if_neg hbar, if_neg hbar]
      exact congrArg Except.ok (by simp [compileOthers])

theorem parseRule_eq (fuel : ℕ) (state : ParseState) (src : Text) :
    parseRule fuel state src =
      (fun (definition, pos) => (compileRule state definition, pos)) <$> readRule fuel src := by
  rw [parseRule, readRule, parseName_eq, bind_map_left, map_bind]
  refine bind_congr fun (name, nameEnd) => ?_
  simp only [map_bind, (parse_eq fuel).2.1, bind_map_left, map_pure]
  rfl

theorem parseRules_eq (fuel : ℕ) (state : ParseState) (pos : Text) :
    parseRules fuel state pos =
      (fun definitions => compileGrammar definitions state) <$> readRules fuel pos := by
  induction fuel generalizing state pos with
  | zero => rfl
  | succ fuel ih =>
    rw [parseRules, readRules]
    by_cases h0 : peek pos = 0
    · rw [if_pos h0, if_pos h0]
      rfl
    · rw [if_neg h0, if_neg h0, parseRule_eq, bind_map_left, map_bind]
      refine bind_congr fun (definition, pos) => ?_
      simp only [ih, map_eq_pure_bind, bind_assoc, pure_bind]
      rfl

/-- **Parsing is reading, then compiling.** -/
theorem tryParse_eq (src : Text) :
    tryParse src = (fun definitions => compileGrammar definitions {}) <$> readGrammar src :=
  parseRules_eq ..

/-! ### The fuel is enough

Every round of a loop and every call one level down has consumed a byte. -/

/-- A reader that is given enough fuel, and whose `rest` is shorter than `n`. -/
abbrev Leaves {α : Type} (rest : α → Text) (n : ℕ) : Except ParseError α → Prop :=
  Fuel.Meets (· ≠ .outOfFuel) fun a => (rest a).length < n

theorem length_parseSpaceFrom_le (newlineOk inComment : Bool) (pos : Text) :
    (parseSpaceFrom newlineOk inComment pos).length ≤ pos.length := by
  induction pos generalizing inComment with
  | nil => simp [parseSpaceFrom]
  | cons c rest ih =>
    rw [parseSpaceFrom]
    split_ifs
    · exact (ih _).trans (Nat.le_succ _)
    · exact (ih _).trans (Nat.le_succ _)
    · exact le_rfl

theorem length_parseSpace_le (pos : Text) (newlineOk : Bool) :
    (parseSpace pos newlineOk).length ≤ pos.length := length_parseSpaceFrom_le ..

theorem length_pos_of_peek {pos : Text} (h : peek pos ≠ 0) : 0 < pos.length := by
  cases pos with
  | nil => exact absurd rfl h
  | cons c rest => exact Nat.succ_pos _

theorem length_decodeUtf8Loop_le (k value : ℕ) (pos : Text) :
    (decodeUtf8Loop k value pos).2.length ≤ pos.length := by
  induction k generalizing value pos with
  | zero => cases pos <;> exact le_rfl
  | succ k ih =>
    cases pos with
    | nil => exact le_rfl
    | cons c rest =>
      rw [decodeUtf8Loop]
      split
      · exact le_rfl
      · exact (ih _ _).trans (Nat.le_succ _)

theorem leaves_parseHex {src : Text} {size n : ℕ} (h : src.length < n) :
    Leaves Prod.snd n (parseHex src size) := by
  have hloop : ∀ k value (pos : Text), pos.length < n →
      ∀ r, parseHexLoop k value pos = some r → r.2.length < n := by
    intro k
    induction k with
    | zero => rintro value pos hpos r hr; cases hr; exact hpos
    | succ k ih =>
      intro value pos hpos r hr
      cases pos with
      | nil => cases hr
      | cons c rest =>
        rw [parseHexLoop] at hr
        cases hd : hexDigit c with
        | none => rw [hd] at hr; cases hr
        | some digit =>
          rw [hd] at hr
          exact ih _ rest (Nat.lt_of_succ_lt hpos) r hr
  rw [parseHex]
  split
  next r hr => exact hloop _ _ _ h _ hr
  next => exact ParseError.noConfusion

theorem leaves_parseChar (pos : Text) : Leaves Prod.snd pos.length (parseChar pos) := by
  rw [parseChar]
  by_cases hb : peek pos = backslash
  · have hlen : pos.tail.tail.length < pos.length := by
      have hne : peek pos ≠ 0 := by rw [hb]; decide
      have := length_pos_of_peek hne
      simp only [List.length_tail]
      omega
    rw [if_pos hb]
    simp only
    split_ifs
    iterate 3 exact leaves_parseHex hlen
    iterate 4 exact hlen
    exact ParseError.noConfusion
  · rw [if_neg hb]
    split_ifs with h0
    · exact ParseError.noConfusion
    · have := length_pos_of_peek h0
      refine lt_of_le_of_lt (length_decodeUtf8Loop_le _ _ _) ?_
      rw [List.length_tail]
      omega

theorem leaves_readName (pos : Text) : Leaves Prod.snd pos.length (readName pos) := by
  rw [readName]
  split_ifs with h
  · exact ParseError.noConfusion
  · have hlen := congrArg List.length (List.takeWhile_append_dropWhile (p := isWordChar) (l := pos))
    have hpos : 0 < (pos.takeWhile isWordChar).length := by
      rw [List.length_pos_iff]
      simpa using h
    rw [List.length_append] at hlen
    change (pos.dropWhile isWordChar).length < pos.length
    omega

theorem leaves_readLiteral {fuel : ℕ} {pos : Text} (h : pos.length < fuel) :
    Leaves Prod.snd (pos.length + 1) (readLiteral fuel pos) := by
  induction fuel generalizing pos with
  | zero => exact absurd h (Nat.not_lt_zero _)
  | succ fuel ih =>
    rw [readLiteral]
    split_ifs
    · exact Nat.lt_succ_self _
    · exact (leaves_parseChar pos).bind fun (value, pos') hpos' =>
        (ih (lt_of_lt_of_le hpos' (Nat.le_of_lt_succ h))).bind fun (chars, rest) hrest =>
          lt_of_lt_of_le hrest (Nat.succ_le_succ (Nat.le_of_lt hpos'))

theorem leaves_readRange (pos : Text) : Leaves Prod.snd pos.length (readRange pos) := by
  refine (leaves_parseChar pos).bind fun (lower, pos') hpos' => ?_
  have htail : pos'.tail.length ≤ pos'.length := by simp
  simp only
  split_ifs
  · exact (leaves_parseChar pos'.tail).bind fun (upper, rest) hrest =>
      lt_trans (lt_of_lt_of_le hrest htail) hpos'
  · exact hpos'

theorem leaves_readRanges {fuel : ℕ} {pos : Text} (h : pos.length < fuel) :
    Leaves Prod.snd (pos.length + 1) (readRanges fuel pos) := by
  induction fuel generalizing pos with
  | zero => exact absurd h (Nat.not_lt_zero _)
  | succ fuel ih =>
    rw [readRanges]
    split_ifs
    · exact Nat.lt_succ_self _
    · exact (leaves_readRange pos).bind fun (range, pos') hpos' =>
        (ih (lt_of_lt_of_le hpos' (Nat.le_of_lt_succ h))).bind fun (ranges, rest) hrest =>
          lt_of_lt_of_le hrest (Nat.succ_le_succ (Nat.le_of_lt hpos'))

private theorem leaves_read (fuel : ℕ) :
    (∀ isNested pos items, 2 * pos.length + 1 ≤ fuel →
      Leaves Prod.snd (pos.length + 1) (readSequence isNested fuel pos items)) ∧
    (∀ isNested src, 2 * src.length + 2 ≤ fuel →
      Leaves (fun r => r.2.2) (src.length + 1) (readAlternates isNested fuel src)) ∧
    ∀ isNested pos, 2 * pos.length + 1 ≤ fuel →
      Leaves Prod.snd (pos.length + 1) (readOthers isNested fuel pos) := by
  induction fuel with
  | zero => exact ⟨fun _ _ _ h => by omega, fun _ _ h => by omega, fun _ _ h => by omega⟩
  | succ fuel ih =>
  obtain ⟨ihSequence, ihAlternates, ihOthers⟩ := ih
  refine ⟨fun isNested pos items h => ?_, fun isNested src h => ?_, fun isNested pos h => ?_⟩
  · -- another round, on a shorter text
    have hnext : ∀ (rest : Text) (items : List Item), rest.length < pos.length →
        Leaves Prod.snd (pos.length + 1)
          (readSequence isNested fuel (parseSpace rest isNested) items) := by
      intro rest items hrest
      have hspace := length_parseSpace_le rest isNested
      exact (ihSequence isNested _ items (by omega)).mono fun a ha =>
        lt_of_lt_of_le ha (by omega)
    have htail : ∀ {rest : Text}, rest.length < pos.length → rest.tail.length < pos.length := by
      intro rest hrest
      rw [List.length_tail]
      omega
    rw [readSequence]
    by_cases h0 : peek pos = 0
    · rw [if_pos h0]
      exact Nat.lt_succ_self _
    rw [if_neg h0]
    have hpos := length_pos_of_peek h0
    have htailPos : pos.tail.length < pos.length := by rw [List.length_tail]; omega
    split_ifs
    · exact (leaves_readLiteral (by omega)).bind fun (chars, rest) hrest =>
        hnext _ _ (htail (lt_of_lt_of_le hrest htailPos))
    · simp only
      have hlen : (if (peek pos.tail == ascii '^') = true then pos.tail.tail else pos.tail).length
          < pos.length := by
        split_ifs
        exacts [htail htailPos, htailPos]
      exact (leaves_readRanges (by omega)).bind fun (ranges, rest) hrest =>
        hnext _ _ (htail (lt_of_lt_of_le hrest hlen))
    · exact (leaves_readName pos).bind fun (name, nameEnd) hname => hnext _ _ hname
    · have hspace := length_parseSpace_le pos.tail true
      refine (ihAlternates true _ (by omega)).bind fun (first, others, rest) hrest => ?_
      simp only at hrest ⊢
      split_ifs
      · exact hnext _ _ (htail (by omega))
      · exact ParseError.noConfusion
    · cases repOp (peek pos) with
      | none => exact Nat.lt_succ_self _
      | some op =>
        cases items with
        | nil => exact ParseError.noConfusion
        | cons item items =>
          simp only
          split_ifs
          · exact ParseError.noConfusion
          · exact hnext _ _ htailPos
  · rw [readAlternates]
    refine (ihSequence isNested src [] (by omega)).bind fun (first, pos) hpos => ?_
    exact (ihOthers isNested pos (by simp only at hpos; omega)).bind fun (others, rest) hrest =>
      lt_of_lt_of_le hrest hpos
  · rw [readOthers]
    split_ifs with hbar
    · have hne : peek pos ≠ 0 := by rw [hbar]; decide
      have hlen := length_pos_of_peek hne
      have hspace := length_parseSpace_le pos.tail true
      rw [List.length_tail] at hspace
      refine (ihSequence isNested _ [] (by omega)).bind fun (seq, rest) hrest => ?_
      simp only at hrest
      refine (ihOthers isNested rest (by omega)).bind fun (others, rest') hrest' => ?_
      simp only at hrest'
      change rest'.length < _
      omega
    · exact Nat.lt_succ_self _

theorem leaves_readRule {fuel : ℕ} {src : Text} (h : 2 * src.length + 2 ≤ fuel) :
    Leaves Prod.snd src.length (readRule fuel src) := by
  refine (leaves_readName src).bind fun (name, nameEnd) hname => ?_
  have hdefined : Leaves id (nameEnd.length + 1) (parseDefinedAs nameEnd) := by
    rw [parseDefinedAs]
    have hspace := length_parseSpace_le nameEnd false
    have hspace' := length_parseSpace_le (parseSpace nameEnd false).tail.tail.tail true
    simp only [List.length_tail] at hspace'
    split_ifs
    · change (parseSpace (parseSpace nameEnd false).tail.tail.tail true).length < _
      omega
    · exact ParseError.noConfusion
  refine hdefined.bind fun pos hpos => ?_
  simp only [id] at hpos hname
  refine ((leaves_read fuel).2.1 false pos (by omega)).bind fun (first, others, rest) hrest => ?_
  have hnewline : Leaves id (rest.length + 1) (parseNewline rest) := by
    rw [parseNewline]
    split_ifs
    iterate 3
      simp only [Fuel.Meets, id, List.length_tail]
      omega
    · exact Nat.lt_succ_self _
    · exact ParseError.noConfusion
  refine hnewline.bind fun end_ hend => ?_
  have hspace := length_parseSpace_le end_ true
  simp only [id] at hend hrest
  change (parseSpace end_ true).length < _
  omega

theorem readRules_ne_outOfFuel {fuel : ℕ} {pos : Text} (h : 2 * pos.length + 3 ≤ fuel) :
    readRules fuel pos ≠ .error .outOfFuel := by
  have hmeets : Fuel.Meets (· ≠ ParseError.outOfFuel) (fun _ => True) (readRules fuel pos) := by
    induction fuel generalizing pos with
    | zero => omega
    | succ fuel ih =>
      rw [readRules]
      split_ifs
      · trivial
      · exact (leaves_readRule (by omega)).bind fun (definition, rest) hrest =>
          (ih (by simp only at hrest; omega)).bind fun _ _ => trivial
  exact fun he => hmeets.of_error he rfl

/-- **The fuel of the parser is enough**, for every text. -/
theorem tryParse_ne_outOfFuel (src : Text) : tryParse src ≠ .error .outOfFuel := by
  rw [tryParse_eq]
  have hlen := length_parseSpace_le src true
  have : readRules (2 * src.length + 3) (parseSpace src true) ≠ .error .outOfFuel :=
    readRules_ne_outOfFuel (by omega)
  rw [readGrammar]
  cases hr : readRules (2 * src.length + 3) (parseSpace src true) with
  | ok definitions => exact nofun
  | error e =>
    rintro he
    cases he
    exact this hr

end GrammarParser

end WhisperCpp
