import WhisperCpp.Grammar.Automaton
import Mathlib.Data.Nat.Digits.Defs

/-!
# The grammar parser

`grammar_parser::parse`, which reads an extended Backus-Naur form and produces the rules the
automaton runs on. A `const char *` is the rest of the text as bytes, with `0` where it ends; a
`throw` is an error, and `parse` catches all of them. Symbol ids are `uint32_t` in the source; a
symbol table is taken to stay below `2 ^ 32` entries.

## Main definitions

* `ParseState` — the symbol table and the rules
* `parseSequence`, `parseAlternates` — the recursive descent, with its rewriting of repetitions
* `parseRule`, `parse` — one definition; a whole text
-/

namespace WhisperCpp

namespace GrammarParser

open Grammar (Gretype Element)

/-- The rest of a C string. -/
abbrev Text := List UInt8

/-- A `std::string`. -/
abbrev Name := List UInt8

/-- What the parser throws, and where. -/
inductive ParseError where
  /-- `expecting <size> hex chars at` -/
  | expectingHexChars (size : ℕ) (src : Text)
  /-- `expecting name at` -/
  | expectingName (src : Text)
  /-- `unknown escape at` -/
  | unknownEscape (src : Text)
  /-- `unexpected end of input` -/
  | unexpectedEnd
  /-- `expecting ')' at` -/
  | expectingParen (pos : Text)
  /-- `expecting preceding item to */+/? at` -/
  | expectingItem (pos : Text)
  /-- `expecting ::= at` -/
  | expectingDefinition (pos : Text)
  /-- `expecting newline or end at` -/
  | expectingNewline (pos : Text)
  /-- Not a throw: the bound on loops and recursion ran out. -/
  | outOfFuel
  deriving DecidableEq, Repr

/-- The byte of an ASCII character. -/
def ascii (c : Char) : UInt8 := c.toNat.toUInt8

/-- `"` -/
def quote : UInt8 := 34

/-- The character that starts an escape. -/
def backslash : UInt8 := 92

/-- `*pos`. -/
def peek (pos : Text) : UInt8 := pos.headD 0

/-! ### The symbol table and the rules -/

/-- `parse_state`. The `std::map` is kept as the list of its entries, oldest first. -/
structure ParseState where
  symbolIds : List (Name × ℕ) := []
  rules : List (List Element) := []
  deriving DecidableEq, Repr

/-- `get_symbol_id`: the id of a name, a new one if the name is new. -/
def getSymbolId (state : ParseState) (name : Name) : ℕ × ParseState :=
  let nextId := state.symbolIds.length
  match state.symbolIds.lookup name with
  | some id => (id, state)
  | none => (nextId, { state with symbolIds := state.symbolIds ++ [(name, nextId)] })

/-- `std::to_string`, in bytes. -/
def toDecimal (n : ℕ) : Name := if n = 0 then [48] else
  (Nat.digits 10 n).reverse.map fun d => (48 + d).toUInt8

/-- `symbol_ids[name] = id`. -/
def setSymbolId (symbolIds : List (Name × ℕ)) (name : Name) (id : ℕ) : List (Name × ℕ) :=
  match symbolIds.lookup name with
  | some _ => symbolIds.map fun entry => if entry.1 = name then (name, id) else entry
  | none => symbolIds ++ [(name, id)]

/-- `generate_symbol_id`: a new id, for a symbol named after `baseName`. -/
def generateSymbolId (state : ParseState) (baseName : Name) : ℕ × ParseState :=
  let nextId := state.symbolIds.length
  (nextId, { state with
    symbolIds := setSymbolId state.symbolIds (baseName ++ ascii '_' :: toDecimal nextId) nextId })

/-- `add_rule`. -/
def addRule (state : ParseState) (ruleId : ℕ) (rule : List Element) : ParseState :=
  let rules := state.rules ++ List.replicate (ruleId + 1 - state.rules.length) []
  { state with rules := rules.set ruleId rule }

/-! ### Characters, names and space -/

/-- The continuation bytes of `decode_utf8`, at most `k` of them. -/
def decodeUtf8Loop : ℕ → ℕ → Text → ℕ × Text
  | k + 1, value, c :: rest =>
    if c = 0 then (value, c :: rest) else decodeUtf8Loop k ((value <<< 6) + (c &&& 0x3F).toNat) rest
  | _, value, pos => (value, pos)

/-- `lookup[first_byte >> 4]` of `decode_utf8`. -/
def utf8Length (firstByte : UInt8) : ℕ :=
  match (firstByte >>> 4).toNat with
  | 12 | 13 => 2
  | 14 => 3
  | 15 => 4
  | _ => 1

/-- `decode_utf8`. -/
def decodeUtf8 (src : Text) : ℕ × Text :=
  let firstByte := peek src
  let len := utf8Length firstByte
  let mask : ℕ := (1 <<< (8 - len)) - 1
  decodeUtf8Loop (len - 1) (firstByte.toNat &&& mask) src.tail

/-- `is_word_char`. -/
def isWordChar (c : UInt8) : Bool :=
  (ascii 'a' ≤ c && c ≤ ascii 'z') || (ascii 'A' ≤ c && c ≤ ascii 'Z') || c == ascii '-' ||
    (ascii '0' ≤ c && c ≤ ascii '9')

/-- The value of a hexadecimal digit. -/
def hexDigit (c : UInt8) : Option ℕ :=
  if ascii 'a' ≤ c ∧ c ≤ ascii 'f' then some (c.toNat - 97 + 10)
  else if ascii 'A' ≤ c ∧ c ≤ ascii 'F' then some (c.toNat - 65 + 10)
  else if ascii '0' ≤ c ∧ c ≤ ascii '9' then some (c.toNat - 48)
  else none

/-- The loop of `parse_hex`, with `k` digits to come. -/
def parseHexLoop : ℕ → ℕ → Text → Option (ℕ × Text)
  | 0, value, pos => some (value, pos)
  | _ + 1, _, [] => none
  | k + 1, value, c :: rest =>
    match hexDigit c with
    | some digit => parseHexLoop k ((value <<< 4) + digit) rest
    | none => none

/-- `parse_hex`. -/
def parseHex (src : Text) (size : ℕ) : Except ParseError (ℕ × Text) :=
  match parseHexLoop size 0 src with
  | some result => .ok result
  | none => .error (.expectingHexChars size src)

/-- `parse_space`. A `#` starts a comment, which ends before the end of the line. -/
def parseSpaceFrom (newlineOk : Bool) : Bool → Text → Text
  | _, [] => []
  | inComment, c :: rest =>
    let isNewline := c = ascii '\r' ∨ c = ascii '\n'
    if inComment ∧ c ≠ 0 ∧ ¬ isNewline then parseSpaceFrom newlineOk true rest
    else if c = ascii ' ' ∨ c = ascii '\t' ∨ c = ascii '#' ∨ (newlineOk ∧ isNewline) then
      parseSpaceFrom newlineOk (c == ascii '#') rest
    else c :: rest

/-- `parse_space`. -/
def parseSpace (src : Text) (newlineOk : Bool) : Text := parseSpaceFrom newlineOk false src

/-- `parse_name`: the name, and the text behind it. -/
def parseName (src : Text) : Except ParseError (Name × Text) :=
  if (src.takeWhile isWordChar).isEmpty then .error (.expectingName src)
  else .ok (src.takeWhile isWordChar, src.dropWhile isWordChar)

/-- `parse_char`. -/
def parseChar (src : Text) : Except ParseError (ℕ × Text) :=
  if peek src = backslash then
    let c := peek src.tail
    let rest := src.tail.tail
    if c = ascii 'x' then parseHex rest 2
    else if c = ascii 'u' then parseHex rest 4
    else if c = ascii 'U' then parseHex rest 8
    else if c = ascii 't' then .ok (9, rest)
    else if c = ascii 'r' then .ok (13, rest)
    else if c = ascii 'n' then .ok (10, rest)
    else if c = backslash ∨ c = quote ∨ c = ascii '[' ∨ c = ascii ']' then .ok (c.toNat, rest)
    else .error (.unknownEscape src)
  else if peek src = 0 then .error .unexpectedEnd
  else .ok (decodeUtf8 src)

/-! ### Sequences and alternates -/

/-- The `while (*pos != '"')` loop over a literal. -/
def literalLoop : ℕ → Text → List Element → Except ParseError (Text × List Element)
  | 0, _, _ => .error .outOfFuel
  | fuel + 1, pos, out =>
    if peek pos = quote then .ok (pos, out) else do
      let (value, pos) ← parseChar pos
      literalLoop fuel pos (out ++ [⟨.char, value⟩])

/-- The `while (*pos != ']')` loop over a character class. -/
def classLoop (startType : Gretype) (lastSymStart : ℕ) :
    ℕ → Text → List Element → Except ParseError (Text × List Element)
  | 0, _, _ => .error .outOfFuel
  | fuel + 1, pos, out =>
    if peek pos = ascii ']' then .ok (pos, out) else do
      let (value, pos) ← parseChar pos
      let type := if lastSymStart < out.length then .charAlt else startType
      let out := out ++ [⟨type, value⟩]
      if peek pos = ascii '-' ∧ peek pos.tail ≠ ascii ']' then
        let (value, pos) ← parseChar pos.tail
        classLoop startType lastSymStart fuel pos (out ++ [⟨.charRngUpper, value⟩])
      else classLoop startType lastSymStart fuel pos out

/-- A repetition operator. -/
inductive RepOp where
  /-- `*` -/
  | star
  /-- `+` -/
  | plus
  /-- `?` -/
  | opt
  deriving DecidableEq, Repr

/-- The operator a byte stands for. -/
def repOp (c : UInt8) : Option RepOp :=
  if c = ascii '*' then some .star
  else if c = ascii '+' then some .plus
  else if c = ascii '?' then some .opt
  else none

/-- The rule that a repetition is rewritten to:
`S* --> S' ::= S S' |`, `S+ --> S' ::= S S' | S` and `S? --> S' ::= S |`. -/
def RepOp.subRule (op : RepOp) (subRuleId : ℕ) (sym : List Element) : List Element :=
  sym ++ (if op = .star ∨ op = .plus then [⟨.ruleRef, subRuleId⟩] else []) ++ [⟨.alt, 0⟩] ++
    (if op = .plus then sym else []) ++ [⟨.endRule, 0⟩]

mutual

/-- `parse_sequence`, from some round of its loop on; the first starts with
`lastSymStart = out.length`. -/
def parseSequence (ruleName : Name) (isNested : Bool) : ℕ → ParseState → Text → List Element → ℕ →
    Except ParseError (ParseState × Text × List Element)
  | 0, _, _, _, _ => .error .outOfFuel
  | fuel + 1, state, pos, out, lastSymStart =>
    if peek pos = 0 then .ok (state, pos, out)
    else if peek pos = quote then do
      let lastSymStart := out.length
      let (pos, out) ← literalLoop fuel pos.tail out
      parseSequence ruleName isNested fuel state (parseSpace pos.tail isNested) out lastSymStart
    else if peek pos = ascii '[' then do
      let negated := peek pos.tail == ascii '^'
      let startType := if negated then .charNot else .char
      let lastSymStart := out.length
      let (pos, out) ← classLoop startType lastSymStart fuel
        (if negated then pos.tail.tail else pos.tail) out
      parseSequence ruleName isNested fuel state (parseSpace pos.tail isNested) out lastSymStart
    else if isWordChar (peek pos) then do
      let (name, nameEnd) ← parseName pos
      let (refRuleId, state) := getSymbolId state name
      parseSequence ruleName isNested fuel state (parseSpace nameEnd isNested)
        (out ++ [⟨.ruleRef, refRuleId⟩]) out.length
    else if peek pos = ascii '(' then do
      let (subRuleId, state) := generateSymbolId state ruleName
      let (state, pos) ←
        parseAlternates ruleName true fuel state (parseSpace pos.tail true) subRuleId
      if peek pos = ascii ')' then
        parseSequence ruleName isNested fuel state (parseSpace pos.tail isNested)
          (out ++ [⟨.ruleRef, subRuleId⟩]) out.length
      else .error (.expectingParen pos)
    else
      match repOp (peek pos) with
      | none => .ok (state, pos, out)
      | some op =>
        if lastSymStart = out.length then .error (.expectingItem pos)
        else
          let (subRuleId, state) := generateSymbolId state ruleName
          let state := addRule state subRuleId (op.subRule subRuleId (out.drop lastSymStart))
          parseSequence ruleName isNested fuel state (parseSpace pos.tail isNested)
            (out.take lastSymStart ++ [⟨.ruleRef, subRuleId⟩]) lastSymStart

/-- `parse_alternates`. -/
def parseAlternates (ruleName : Name) (isNested : Bool) : ℕ → ParseState → Text → ℕ →
    Except ParseError (ParseState × Text)
  | 0, _, _, _ => .error .outOfFuel
  | fuel + 1, state, src, ruleId => do
    let (state, pos, rule) ← parseSequence ruleName isNested fuel state src [] 0
    let (state, pos, rule) ← alternatesLoop ruleName isNested fuel state pos rule
    return (addRule state ruleId (rule ++ [⟨.endRule, 0⟩]), pos)

/-- The `while (*pos == '|')` loop of `parse_alternates`. -/
def alternatesLoop (ruleName : Name) (isNested : Bool) : ℕ → ParseState → Text → List Element →
    Except ParseError (ParseState × Text × List Element)
  | 0, _, _, _ => .error .outOfFuel
  | fuel + 1, state, pos, rule =>
    if peek pos = ascii '|' then do
      let rule := rule ++ [⟨.alt, 0⟩]
      let (state, pos, rule) ←
        parseSequence ruleName isNested fuel state (parseSpace pos.tail true) rule rule.length
      alternatesLoop ruleName isNested fuel state pos rule
    else .ok (state, pos, rule)

end

/-! ### Rules -/

/-- The end of a definition: a newline, or the end of the text. -/
def parseNewline (pos : Text) : Except ParseError Text :=
  if peek pos = ascii '\r' then
    .ok (if peek pos.tail = ascii '\n' then pos.tail.tail else pos.tail)
  else if peek pos = ascii '\n' then .ok pos.tail
  else if peek pos = 0 then .ok pos
  else .error (.expectingNewline pos)

/-- The `::=` of a definition, and the space around it. -/
def parseDefinedAs (nameEnd : Text) : Except ParseError Text :=
  let pos := parseSpace nameEnd false
  if peek pos = ascii ':' ∧ peek pos.tail = ascii ':' ∧ peek pos.tail.tail = ascii '=' then
    .ok (parseSpace pos.tail.tail.tail true)
  else .error (.expectingDefinition pos)

/-- `parse_rule`. -/
def parseRule (fuel : ℕ) (state : ParseState) (src : Text) :
    Except ParseError (ParseState × Text) := do
  let (name, nameEnd) ← parseName src
  let (ruleId, state) := getSymbolId state name
  let pos ← parseDefinedAs nameEnd
  let (state, pos) ← parseAlternates name false fuel state pos ruleId
  let pos ← parseNewline pos
  return (state, parseSpace pos true)

/-- The `while (*pos)` loop of `parse`. -/
def parseRules : ℕ → ParseState → Text → Except ParseError ParseState
  | 0, _, _ => .error .outOfFuel
  | fuel + 1, state, pos =>
    if peek pos = 0 then .ok state else do
      let (state, pos) ← parseRule fuel state pos
      parseRules fuel state pos

/-- The `try` block of `parse`. No text runs out of this much fuel. -/
def tryParse (src : Text) : Except ParseError ParseState :=
  parseRules (2 * src.length + 3) {} (parseSpace src true)

/-- `parse`: the rules of a text, or the empty state if there is an error in it. -/
def parse (src : Text) : ParseState :=
  match tryParse src with
  | .ok state => state
  | .error _ => {}

/-- `root ::= "a"` -/
example : parse [114, 32, 58, 58, 61, 32, 34, 97, 34] =
    ⟨[([114], 0)], [[⟨.char, 97⟩, ⟨.endRule, 0⟩]]⟩ := by decide

end GrammarParser

end WhisperCpp
