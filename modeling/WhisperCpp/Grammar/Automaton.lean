import WhisperCpp.Fault

/-!
# The grammar automaton

The pushdown automaton that constrains sampling to a grammar: `whisper_grammar_init`,
`whisper_grammar_advance_stack`, `whisper_grammar_match_char` and `whisper_grammar_accept`.

A `const whisper_grammar_element *` points into a rule; here it is the rest of the rule from that
element on, so that `pos + 1` is the tail and a read past the last element is a read of `[]`. A
stack is kept with its top (`stack.back()`) in front.

## Main definitions

* `Element`, `Pos`, `Stack` — grammar elements, pointers to them, pushdown stacks
* `matchChar` — whether a code point satisfies the character class at a position
* `advanceStack` — the stacks a stack expands to, all with a character class on top
* `accept`, `init` — one code point read by all stacks; the initial stacks
* `feed` — `accept` for every code point of a list, as `whisper_grammar_accept_token` does
-/

namespace WhisperCpp

namespace Grammar

/-- `whisper_gretype`. -/
inductive Gretype where
  /-- End of a rule definition. -/
  | endRule
  /-- Start of an alternate definition for the rule. -/
  | alt
  /-- Non-terminal element: reference to a rule. -/
  | ruleRef
  /-- Terminal element: a code point. -/
  | char
  /-- Inverse char(s): `[^a]`, `[^a-b]`, `[^abc]`. -/
  | charNot
  /-- Makes the preceding `char` or `charAlt` an inclusive range: `[a-z]`. -/
  | charRngUpper
  /-- Adds an alternate code point to the preceding class: `[ab]`, `[a-zA]`. -/
  | charAlt
  deriving DecidableEq, Repr

/-- `whisper_grammar_element`: its type, and a code point or a rule id. -/
structure Element where
  type : Gretype
  value : ℕ
  deriving DecidableEq, Repr

/-- A pointer into a rule, as the elements from there on. -/
abbrev Pos := List Element

/-- A pushdown stack, top first. -/
abbrev Stack := List Pos

/-- `END` or `ALT`. -/
def Gretype.isEnd : Gretype → Bool
  | .endRule | .alt => true
  | _ => false

/-- `whisper_grammar_is_end_of_sequence`. -/
def isEndOfSequence : Pos → Except Fault Bool
  | [] => .error .outOfBounds
  | e :: _ => .ok e.type.isEnd

/-- The `do … while (pos->type == CHAR_ALT)` loop of `whisper_grammar_match_char`. -/
def matchCharLoop (chr : UInt32) : Bool → Pos → Except Fault (Bool × Pos)
  | found, lo :: hi :: rest =>
    if hi.type = .charRngUpper then
      let found := found || (decide (lo.value ≤ chr.toNat) && decide (chr.toNat ≤ hi.value))
      match rest with
      | [] => .error .outOfBounds
      | e :: rest =>
        if e.type = .charAlt then matchCharLoop chr found (e :: rest) else .ok (found, e :: rest)
    else
      let found := found || decide (lo.value = chr.toNat)
      if hi.type = .charAlt then matchCharLoop chr found (hi :: rest) else .ok (found, hi :: rest)
  | _, _ => .error .outOfBounds

/-- `whisper_grammar_match_char`: whether `chr` satisfies the class at a position, and the
position behind the class. -/
def matchChar (pos : Pos) (chr : UInt32) : Except Fault (Bool × Pos) :=
  match pos with
  | [] => .error .outOfBounds
  | e :: _ =>
    if e.type = .char ∨ e.type = .charNot then do
      let (found, pos) ← matchCharLoop chr false pos
      return (found == decide (e.type = .char), pos)
    else .error .assertFailed

/-- `if (!whisper_grammar_is_end_of_sequence(pos)) new_stack.push_back(pos);` -/
def pushUnlessEnd (pos : Pos) (stack : Stack) : Except Fault Stack := do
  return if ← isEndOfSequence pos then stack else pos :: stack

/-- The loop over the alternates of a rule: `step` at the start of every alternate, then a scan
to its end; another round behind an `ALT`, none behind `END`. -/
def forAlternates {σ : Type} (step : Pos → σ → Except Fault σ) :
    Bool → Pos → σ → Except Fault σ
  | _, [], _ => .error .outOfBounds
  | atStart, e :: rest, s => do
    let s ← if atStart then step (e :: rest) s else pure s
    match e.type with
    | .endRule => pure s
    | .alt => forAlternates step true rest s
    | _ => forAlternates step false rest s

/-- `whisper_grammar_advance_stack`: the stacks that `stack` expands to, appended to `newStacks`.
The recursion of the source has no guard; `fuel` bounds its depth. -/
def advanceStack (rules : List (List Element)) :
    ℕ → Stack → List Stack → Except Fault (List Stack)
  | 0, _, _ => .error .outOfFuel
  | _ + 1, [], newStacks => .ok (newStacks ++ [[]])
  | _ + 1, [] :: _, _ => .error .outOfBounds
  | fuel + 1, (e :: next) :: below, newStacks =>
    match e.type with
    | .ruleRef =>
      match rules[e.value]? with
      | none => .error .outOfBounds
      | some subpos =>
        forAlternates (fun subpos newStacks => do
          let newStack ← pushUnlessEnd next below
          let newStack ← pushUnlessEnd subpos newStack
          advanceStack rules fuel newStack newStacks) true subpos newStacks
    | .char | .charNot => .ok (newStacks ++ [(e :: next) :: below])
    -- a stack should never be left on the end of an alternate or inside a range
    | _ => .error .assertFailed

/-- What `whisper_grammar_accept` does with one stack. -/
def acceptStack (rules : List (List Element)) (fuel : ℕ) (chr : UInt32)
    (newStacks : List Stack) : Stack → Except Fault (List Stack)
  | [] => .ok newStacks
  | pos :: below => do
    let (matched, pos) ← matchChar pos chr
    if matched then
      let newStack ← pushUnlessEnd pos below
      advanceStack rules fuel newStack newStacks
    else return newStacks

/-- `whisper_grammar_accept`: all stacks read one code point. -/
def accept (rules : List (List Element)) (fuel : ℕ) (stackVec : List Stack) (chr : UInt32) :
    Except Fault (List Stack) :=
  stackVec.foldlM (acceptStack rules fuel chr) []

/-- The copy of a rule that `whisper_grammar_init` makes: up to the first `END`. -/
def copyRule : Pos → Except Fault (List Element)
  | [] => .error .outOfBounds
  | e :: rest =>
    if e.type = .endRule then .ok [⟨.endRule, 0⟩] else do
      let rest ← copyRule rest
      return e :: rest

/-- `whisper_grammar`, less `partial_utf8`. -/
structure State where
  rules : List (List Element)
  stackVec : List Stack

/-- `whisper_grammar_init`: the copied rules and the stacks of the start rule. -/
def init (fuel : ℕ) (rules : List (List Element)) (iStartRule : ℕ) : Except Fault State := do
  let vecRules ← rules.mapM copyRule
  match rules[iStartRule]? with
  | none => .error .outOfBounds
  | some pos =>
    let stackVec ← forAlternates (fun pos stackVec => do
      let stack ← pushUnlessEnd pos []
      advanceStack vecRules fuel stack stackVec) true pos []
    return ⟨vecRules, stackVec⟩

/-- `whisper_grammar_accept` for every code point of a list in turn. -/
def feed (rules : List (List Element)) (fuel : ℕ) (stackVec : List Stack) (chrs : List UInt32) :
    Except Fault (List Stack) :=
  chrs.foldlM (accept rules fuel) stackVec

/-- The state after `whisper_grammar_init` and one `whisper_grammar_accept` for each code point
of `chrs`. -/
def run (fuel : ℕ) (rules : List (List Element)) (iStartRule : ℕ) (chrs : List UInt32) :
    Except Fault State := do
  let grammar ← init fuel rules iStartRule
  let stackVec ← feed grammar.rules fuel grammar.stackVec chrs
  return { grammar with stackVec }

end Grammar

end WhisperCpp
