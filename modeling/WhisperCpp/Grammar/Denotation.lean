import WhisperCpp.Grammar.Automaton
import WhisperCpp.Library.LeftmostGrammar

/-!
# What grammar elements mean

The elements of a rule are decoded, from the right, into the alternates of a context-free grammar
over code points: a run of `CHAR`/`CHAR_NOT`, `CHAR_RNG_UPPER` and `CHAR_ALT` is one class of code
points, a `RULE_REF` one nonterminal. Decoding is total; `WellFormedRule` says which element
lists are rules.

## Main definitions

* `decode`, `alternates`, `denote` — elements to alternates, rules to a grammar
* `form` — a pushdown stack as a sentential form
* `WellFormedRule`, `WellFormed` — the shape the automaton relies on
* `AtSymbol` — a position in a well-formed rule that is not inside a class

## Main results

* `wellFormedRule_iff` — the element-wise conditions, as one scan of the rule
* `matchChar_eq` — at a class, `whisper_grammar_match_char` decides the decoded class
* `forAlternates_eq` — the loop over the alternates meets each decoded alternate once
-/

namespace WhisperCpp

namespace Grammar

open LeftmostGrammar

/-! ### Decoding -/

/-- What the elements from some position on contribute to their rule. -/
structure Decoded where
  /-- The code point of a `CHAR_RNG_UPPER` at the position. -/
  upper : Option ℕ
  /-- The ranges that `CHAR_ALT` elements from the position on add to a class. -/
  ranges : List (ℕ × ℕ)
  /-- The symbols up to the end of the alternate. -/
  seq : Form UInt32 ℕ
  /-- The alternates behind this one. -/
  later : List (Form UInt32 ℕ)

/-- Whether a code point lies in one of the ranges. -/
def inRanges (ranges : List (ℕ × ℕ)) (chr : UInt32) : Bool :=
  ranges.any fun r => decide (r.1 ≤ chr.toNat) && decide (chr.toNat ≤ r.2)

/-- Whether a code point is in a class given by its ranges, inverted for `CHAR_NOT`. -/
def inClass (positive : Bool) (ranges : List (ℕ × ℕ)) (chr : UInt32) : Bool :=
  inRanges ranges chr == positive

/-- The ranges of a class whose first element has code point `value`. -/
def Decoded.rangesFrom (value : ℕ) (d : Decoded) : List (ℕ × ℕ) :=
  (value, d.upper.getD value) :: d.ranges

/-- One element in front of a decoded rest. -/
def decodeElement (e : Element) (d : Decoded) : Decoded :=
  match e.type with
  | .endRule => ⟨none, [], [], []⟩
  | .alt => ⟨none, [], [], d.seq :: d.later⟩
  | .ruleRef => ⟨none, [], .ref e.value :: d.seq, d.later⟩
  | .char => ⟨none, [], .cls (inClass true (d.rangesFrom e.value)) :: d.seq, d.later⟩
  | .charNot => ⟨none, [], .cls (inClass false (d.rangesFrom e.value)) :: d.seq, d.later⟩
  | .charRngUpper => ⟨some e.value, d.ranges, d.seq, d.later⟩
  | .charAlt => ⟨none, d.rangesFrom e.value, d.seq, d.later⟩

/-- Decode a rule from some position on. -/
def decode (pos : Pos) : Decoded := pos.foldr decodeElement ⟨none, [], [], []⟩

theorem decode_cons (e : Element) (pos : Pos) :
    decode (e :: pos) = decodeElement e (decode pos) := rfl

/-- The alternates of a rule. -/
def alternates (rule : List Element) : List (Form UInt32 ℕ) :=
  (decode rule).seq :: (decode rule).later

/-- The grammar of a list of rules. -/
def denote (rules : List (List Element)) : LeftmostGrammar.Grammar UInt32 ℕ := fun n =>
  (rules[n]?.map alternates).getD []

/-- A stack stands for the symbols from its top to its bottom. -/
def form (stack : Stack) : Form UInt32 ℕ := stack.flatMap fun pos => (decode pos).seq

@[simp] theorem form_nil : form [] = [] := rfl

@[simp] theorem form_cons (pos : Pos) (stack : Stack) :
    form (pos :: stack) = (decode pos).seq ++ form stack := rfl

theorem denote_of_getElem? {rules : List (List Element)} {n : ℕ} {rule : List Element}
    (h : rules[n]? = some rule) : denote rules n = alternates rule := by
  simp [denote, h]

/-! ### Well-formed rules -/

/-- Whether an element of type `next` may stand directly behind one of type `prev`: a range needs
its lower end, and an alternate code point a class to be added to. -/
def mayFollow (prev next : Gretype) : Bool :=
  match next, prev with
  | .charRngUpper, .char | .charRngUpper, .charNot | .charRngUpper, .charAlt => true
  | .charRngUpper, _ => false
  | .charAlt, .char | .charAlt, .charNot | .charAlt, .charAlt | .charAlt, .charRngUpper => true
  | .charAlt, _ => false
  | _, _ => true

/-- A rule of a grammar with `nRules` rules: alternates, terminated by `END`. -/
structure WellFormedRule (nRules : ℕ) (rule : List Element) : Prop where
  /-- The rule is non-empty and its last element is `END`. -/
  ends : ∃ e, rule.getLast? = some e ∧ e.type = .endRule
  /-- `END` occurs only at the end. -/
  endsOnce : ∀ e ∈ rule.dropLast, e.type ≠ .endRule
  /-- Every `RULE_REF` is in range. -/
  refs : ∀ e ∈ rule, e.type = .ruleRef → e.value < nRules
  /-- No rule starts with an element that modifies a class. -/
  start : ∀ e, rule.head? = some e → mayFollow .alt e.type
  /-- Every `CHAR_RNG_UPPER` and `CHAR_ALT` directly follows an element of its class. -/
  classes : rule.IsChain fun a b => mayFollow a.type b.type

/-- All rules are well formed, as rules of a grammar with `nRules` rules. -/
def WellFormedIn (nRules : ℕ) (rules : List (List Element)) : Prop :=
  ∀ rule ∈ rules, WellFormedRule nRules rule

/-- All rules are well formed. -/
def WellFormed (rules : List (List Element)) : Prop := WellFormedIn rules.length rules

/-- `WellFormedRule` as one scan, `prev` being the type of the element before the position. -/
def wellFormedFrom (nRules : ℕ) (prev : Gretype) : Pos → Bool
  | [] => false
  | e :: rest =>
    mayFollow prev e.type && (e.type != .ruleRef || decide (e.value < nRules)) &&
      if e.type = .endRule then rest.isEmpty else wellFormedFrom nRules e.type rest

theorem wellFormedFrom_cons {n : ℕ} {prev : Gretype} {e : Element} {rest : Pos} :
    wellFormedFrom n prev (e :: rest) = true ↔
      mayFollow prev e.type ∧ (e.type = .ruleRef → e.value < n) ∧
        if e.type = .endRule then rest = [] else wellFormedFrom n e.type rest = true := by
  rw [wellFormedFrom]
  by_cases h : e.type = .endRule <;> by_cases h' : e.type = .ruleRef <;> simp [h, h', and_assoc]

private theorem wellFormedFrom_iff {n : ℕ} {prev : Gretype} {pos : Pos} :
    wellFormedFrom n prev pos = true ↔
      (∃ e, pos.getLast? = some e ∧ e.type = .endRule) ∧
      (∀ e ∈ pos.dropLast, e.type ≠ .endRule) ∧
      (∀ e ∈ pos, e.type = .ruleRef → e.value < n) ∧
      (∀ e, pos.head? = some e → mayFollow prev e.type) ∧
      pos.IsChain fun a b => mayFollow a.type b.type := by
  induction pos generalizing prev with
  | nil => simp [wellFormedFrom]
  | cons e rest ih =>
    rw [wellFormedFrom_cons]
    cases rest with
    | nil =>
      by_cases h : e.type = .endRule
      · simp [h]
      · simp [h, wellFormedFrom]
    | cons e' rest =>
      by_cases h : e.type = .endRule
      · simp [h]
      · rw [if_neg h, ih]
        simp only [List.getLast?_cons_cons, List.dropLast_cons_cons, List.mem_cons,
          List.head?_cons, Option.some.injEq, List.isChain_cons_cons]
        constructor
        · rintro ⟨hf, hr, hl, hd, hrs, hh, hc⟩
          refine ⟨hl, ?_, ?_, by rintro _ rfl; exact hf, hh _ rfl, hc⟩
          · rintro x (rfl | hx)
            exacts [h, hd x hx]
          · rintro x (rfl | hx)
            exacts [hr, hrs x hx]
        · rintro ⟨hl, hd, hrs, hh, hf, hc⟩
          exact ⟨hh _ rfl, hrs _ (.inl rfl), hl, fun x hx => hd x (.inr hx),
            fun x hx => hrs x (.inr hx), by rintro _ rfl; exact hf, hc⟩

/-- The element-wise conditions on a rule are one scan of it. -/
theorem wellFormedRule_iff {n : ℕ} {rule : List Element} :
    WellFormedRule n rule ↔ wellFormedFrom n .alt rule = true := by
  rw [wellFormedFrom_iff]
  exact ⟨fun h => ⟨h.ends, h.endsOnce, h.refs, h.start, h.classes⟩,
    fun ⟨h₁, h₂, h₃, h₄, h₅⟩ => ⟨h₁, h₂, h₃, h₄, h₅⟩⟩

instance (n : ℕ) (rule : List Element) : Decidable (WellFormedRule n rule) :=
  decidable_of_iff _ wellFormedRule_iff.symm

instance (rules : List (List Element)) : Decidable (WellFormed rules) :=
  inferInstanceAs (Decidable (∀ rule ∈ rules, WellFormedRule rules.length rule))

/-- A position in a well-formed rule that is not inside a class: what `mayFollow` allows behind
an `ALT`. -/
def AtSymbol (n : ℕ) (pos : Pos) : Prop := wellFormedFrom n .alt pos = true

theorem WellFormedRule.atSymbol {n : ℕ} {rule : List Element} (h : WellFormedRule n rule) :
    AtSymbol n rule := wellFormedRule_iff.mp h

/-! ### A class -/

/-- Inside a class: an element that gives a code point of it. -/
def Gretype.isLower : Gretype → Bool
  | .char | .charNot | .charAlt => true
  | _ => false

/-- An element that modifies the class before it. -/
def Gretype.isModifier : Gretype → Bool
  | .charRngUpper | .charAlt => true
  | _ => false

/-- The position behind the class whose first element stands right before `pos`. -/
def skipClass (pos : Pos) : Pos := pos.dropWhile fun e => e.type.isModifier

theorem skipClass_cons (e : Element) (rest : Pos) :
    skipClass (e :: rest) = if e.type.isModifier then skipClass rest else e :: rest :=
  List.dropWhile_cons ..

theorem exists_cons_of_wellFormedFrom {n : ℕ} {prev : Gretype} {pos : Pos}
    (h : wellFormedFrom n prev pos = true) : ∃ e rest, pos = e :: rest := by
  cases pos with
  | nil => simp [wellFormedFrom] at h
  | cons e rest => exact ⟨e, rest, rfl⟩

theorem wellFormedFrom_tail {n : ℕ} {prev : Gretype} {e : Element} {rest : Pos}
    (h : wellFormedFrom n prev (e :: rest) = true) (he : e.type ≠ .endRule) :
    wellFormedFrom n e.type rest = true := by
  have := (wellFormedFrom_cons.mp h).2.2
  rwa [if_neg he] at this

theorem atSymbol_of_not_isModifier {n : ℕ} {prev : Gretype} {e : Element} {rest : Pos}
    (h : wellFormedFrom n prev (e :: rest) = true) (he : e.type.isModifier = false) :
    AtSymbol n (e :: rest) := by
  rw [AtSymbol, wellFormedFrom_cons] at *
  refine ⟨?_, h.2⟩
  cases ht : e.type <;> simp_all [mayFollow, Gretype.isModifier]

theorem AtSymbol.not_isModifier {n : ℕ} {e : Element} {rest : Pos} (h : AtSymbol n (e :: rest)) :
    e.type.isModifier = false := by
  have hf := (wellFormedFrom_cons.mp h).1
  cases ht : e.type <;> simp_all [mayFollow, Gretype.isModifier]

theorem atSymbol_skipClass {n : ℕ} {prev : Gretype} {pos : Pos}
    (h : wellFormedFrom n prev pos = true) : AtSymbol n (skipClass pos) := by
  induction pos generalizing prev with
  | nil => simp [wellFormedFrom] at h
  | cons e rest ih =>
    rw [skipClass_cons]
    by_cases hm : e.type.isModifier = true
    · rw [if_pos hm]
      exact ih (wellFormedFrom_tail h (by rintro he; rw [he] at hm; cases hm))
    · rw [if_neg hm]
      exact atSymbol_of_not_isModifier h (by simpa using hm)

theorem decode_skipClass (pos : Pos) :
    (decode (skipClass pos)).seq = (decode pos).seq ∧
      (decode (skipClass pos)).later = (decode pos).later := by
  induction pos with
  | nil => exact ⟨rfl, rfl⟩
  | cons e rest ih =>
    rw [skipClass_cons]
    split
    next hm =>
      rw [decode_cons, decodeElement]
      cases ht : e.type <;> simp_all [Gretype.isModifier]
    next => exact ⟨rfl, rfl⟩

theorem decode_upper_of_ne {e : Element} {rest : Pos} (h : e.type ≠ .charRngUpper) :
    (decode (e :: rest)).upper = none := by
  rw [decode_cons, decodeElement]
  cases ht : e.type <;> simp_all

theorem decode_ranges_of_ne {e : Element} {rest : Pos} (hu : e.type ≠ .charRngUpper)
    (ha : e.type ≠ .charAlt) : (decode (e :: rest)).ranges = [] := by
  rw [decode_cons, decodeElement]
  cases ht : e.type <;> simp_all

theorem decode_charRngUpper {e : Element} {rest : Pos} (h : e.type = .charRngUpper) :
    (decode (e :: rest)).upper = some e.value ∧
      (decode (e :: rest)).ranges = (decode rest).ranges := by
  rw [decode_cons, decodeElement, h]
  exact ⟨rfl, rfl⟩

theorem decode_charAlt {e : Element} {rest : Pos} (h : e.type = .charAlt) :
    (decode (e :: rest)).ranges = (decode rest).rangesFrom e.value := by
  rw [decode_cons, decodeElement, h]

theorem inRanges_cons (r : ℕ × ℕ) (ranges : List (ℕ × ℕ)) (chr : UInt32) :
    inRanges (r :: ranges) chr =
      ((decide (r.1 ≤ chr.toNat) && decide (chr.toNat ≤ r.2)) || inRanges ranges chr) := rfl

/-- A range with equal ends is one code point. -/
theorem decide_range_self (value : ℕ) (chr : UInt32) :
    (decide (value ≤ chr.toNat) && decide (chr.toNat ≤ value)) = decide (value = chr.toNat) := by
  rw [Bool.eq_iff_iff]
  simp only [Bool.and_eq_true, decide_eq_true_eq]
  omega

/-- The loop of `whisper_grammar_match_char` reads the ranges of a class and stops behind it. -/
theorem matchCharLoop_eq {n : ℕ} {prev : Gretype} {chr : UInt32} {found : Bool} {e : Element}
    {rest : Pos} (hl : e.type.isLower = true) (h : wellFormedFrom n prev (e :: rest) = true) :
    matchCharLoop chr found (e :: rest) =
      .ok (found || inRanges ((decode rest).rangesFrom e.value) chr, skipClass rest) := by
  induction hk : rest.length using Nat.strong_induction_on generalizing prev found e rest with
  | _ k ih =>
  have hrest := wellFormedFrom_tail h (by rintro he; rw [he] at hl; cases hl)
  obtain ⟨hi, rest, rfl⟩ := exists_cons_of_wellFormedFrom hrest
  rw [matchCharLoop, skipClass_cons, Decoded.rangesFrom, inRanges_cons]
  by_cases hu : hi.type = .charRngUpper
  · -- a range: two elements are consumed
    have hrest₂ := wellFormedFrom_tail hrest (by rw [hu]; nofun)
    obtain ⟨c, rest, rfl⟩ := exists_cons_of_wellFormedFrom hrest₂
    rw [if_pos hu, if_pos (by rw [hu]; rfl), (decode_charRngUpper hu).1,
      (decode_charRngUpper hu).2, Option.getD_some]
    by_cases hc : c.type = .charAlt
    · simp only [if_pos hc]
      rw [ih rest.length (by simp at hk; omega) (by rw [hc]; rfl) hrest₂ rfl, decode_charAlt hc,
        Bool.or_assoc, skipClass_cons, if_pos (by rw [hc]; rfl)]
    · have hcu : c.type ≠ .charRngUpper := by
        intro hc'
        have := (wellFormedFrom_cons.mp hrest₂).1
        rw [hu, hc'] at this
        cases this
      simp only [if_neg hc]
      rw [decode_ranges_of_ne hcu hc, skipClass_cons, if_neg (by
        cases ht : c.type <;> simp_all [Gretype.isModifier])]
      simp [inRanges]
  · -- a single code point
    rw [if_neg hu, decode_upper_of_ne hu, Option.getD_none, decide_range_self]
    by_cases hc : hi.type = .charAlt
    · simp only [if_pos hc]
      rw [ih rest.length (by simp at hk; omega) (by rw [hc]; rfl) hrest rfl, decode_charAlt hc,
        Bool.or_assoc, if_pos (by rw [hc]; rfl)]
    · simp only [if_neg hc]
      rw [decode_ranges_of_ne hu hc, if_neg (by
        cases ht : hi.type <;> simp_all [Gretype.isModifier])]
      simp [inRanges]

/-- At a class, `whisper_grammar_match_char` decides the decoded class and stops behind it. -/
theorem matchChar_eq {n : ℕ} {e : Element} {rest : Pos} (h : AtSymbol n (e :: rest))
    (he : e.type = .char ∨ e.type = .charNot) :
    ∃ p, (decode (e :: rest)).seq = .cls p :: (decode (skipClass rest)).seq ∧
      ∀ chr, matchChar (e :: rest) chr = .ok (p chr, skipClass rest) := by
  refine ⟨inClass (decide (e.type = .char)) ((decode rest).rangesFrom e.value), ?_, fun chr => ?_⟩
  · rw [(decode_skipClass rest).1, decode_cons, decodeElement]
    rcases he with he | he <;> simp [he]
  · have hl : e.type.isLower = true := by rcases he with he | he <;> rw [he] <;> rfl
    simp only [matchChar, if_pos he, matchCharLoop_eq hl h, Bool.false_or]
    rfl

theorem AtSymbol.skipClass {n : ℕ} {e : Element} {rest : Pos} (h : AtSymbol n (e :: rest))
    (he : e.type ≠ .endRule) : AtSymbol n (skipClass rest) :=
  atSymbol_skipClass (wellFormedFrom_tail h he)

/-! ### A reference, and the end of an alternate -/

theorem decode_ruleRef {e : Element} {rest : Pos} (he : e.type = .ruleRef) :
    (decode (e :: rest)).seq = .ref e.value :: (decode rest).seq := by
  rw [decode_cons, decodeElement, he]

theorem AtSymbol.ruleRef {n : ℕ} {e : Element} {rest : Pos} (h : AtSymbol n (e :: rest))
    (he : e.type = .ruleRef) : e.value < n ∧ AtSymbol n rest := by
  refine ⟨(wellFormedFrom_cons.mp h).2.1 he, ?_⟩
  have hrest := wellFormedFrom_tail h (by rw [he]; nofun)
  obtain ⟨c, rest, rfl⟩ := exists_cons_of_wellFormedFrom hrest
  have hf := (wellFormedFrom_cons.mp hrest).1
  refine atSymbol_of_not_isModifier hrest ?_
  cases hc : c.type <;> simp_all [mayFollow, Gretype.isModifier]

theorem decode_isEnd {e : Element} {rest : Pos} (he : e.type.isEnd = true) :
    (decode (e :: rest)).seq = [] := by
  rw [decode_cons, decodeElement]
  cases ht : e.type <;> simp_all [Gretype.isEnd]

/-- A position a stack can hold: a symbol stands there. -/
def Placed (n : ℕ) (pos : Pos) : Prop :=
  AtSymbol n pos ∧ ∃ e rest, pos = e :: rest ∧ e.type.isEnd = false

/-- A stack of positions at symbols. -/
def PlacedStack (n : ℕ) (stack : Stack) : Prop := ∀ pos ∈ stack, Placed n pos

theorem placedStack_nil {n : ℕ} : PlacedStack n [] := fun _ h => nomatch h

theorem placedStack_cons {n : ℕ} {pos : Pos} {stack : Stack} :
    PlacedStack n (pos :: stack) ↔ Placed n pos ∧ PlacedStack n stack :=
  List.forall_mem_cons

/-- What stands at a placed position: a reference or a class. -/
theorem Placed.cases {n : ℕ} {pos : Pos} (h : Placed n pos) :
    ∃ e rest, pos = e :: rest ∧ (e.type = .ruleRef ∨ e.type = .char ∨ e.type = .charNot) := by
  obtain ⟨hat, e, rest, rfl, hend⟩ := h
  have hm := hat.not_isModifier
  refine ⟨e, rest, rfl, ?_⟩
  cases ht : e.type <;> simp_all [Gretype.isEnd, Gretype.isModifier]

/-- The stack of a symbol is not empty, and neither is its form. -/
theorem form_eq_nil_iff {n : ℕ} {stack : Stack} (h : PlacedStack n stack) :
    form stack = [] ↔ stack = [] := by
  cases stack with
  | nil => simp
  | cons pos stack =>
    obtain ⟨hpos, -⟩ := placedStack_cons.mp h
    obtain ⟨e, rest, rfl, he⟩ := hpos.cases
    rw [form_cons, decode_cons, decodeElement]
    rcases he with he | he | he <;> simp [he]

/-- Pushing a position unless its alternate ends there. -/
theorem pushUnlessEnd_eq {n : ℕ} {pos : Pos} {stack : Stack} (hpos : AtSymbol n pos)
    (hstack : PlacedStack n stack) :
    ∃ stack', pushUnlessEnd pos stack = .ok stack' ∧ PlacedStack n stack' ∧
      form stack' = (decode pos).seq ++ form stack := by
  obtain ⟨e, rest, rfl⟩ := exists_cons_of_wellFormedFrom hpos
  by_cases he : e.type.isEnd = true
  · refine ⟨stack, ?_, hstack, by rw [decode_isEnd he, List.nil_append]⟩
    simp [pushUnlessEnd, isEndOfSequence, he, bind, Except.bind, pure, Except.pure]
  · refine ⟨(e :: rest) :: stack, ?_, ?_, rfl⟩
    · simp [pushUnlessEnd, isEndOfSequence, he, bind, Except.bind, pure, Except.pure]
    · exact placedStack_cons.mpr ⟨⟨hpos, e, rest, rfl, by simpa using he⟩, hstack⟩

/-! ### The alternates of a rule -/

/-- The starts of the alternates behind the one a position is in. -/
def laterStarts : Pos → List Pos
  | [] => []
  | e :: rest => if e.type = .alt then rest :: laterStarts rest else laterStarts rest

theorem map_decode_laterStarts {n : ℕ} {prev : Gretype} {pos : Pos}
    (h : wellFormedFrom n prev pos = true) :
    (laterStarts pos).map (fun p => (decode p).seq) = (decode pos).later := by
  induction pos generalizing prev with
  | nil => simp [wellFormedFrom] at h
  | cons e rest ih =>
    by_cases hend : e.type = .endRule
    · have := (wellFormedFrom_cons.mp h).2.2
      rw [if_pos hend] at this
      subst this
      simp [laterStarts, hend, decode_cons, decodeElement]
    · have ih := ih (wellFormedFrom_tail h hend)
      rw [laterStarts, decode_cons, decodeElement]
      cases ht : e.type <;> simp_all

theorem atSymbol_of_mem_laterStarts {n : ℕ} {prev : Gretype} {pos p : Pos}
    (h : wellFormedFrom n prev pos = true) (hp : p ∈ laterStarts pos) : AtSymbol n p := by
  induction pos generalizing prev with
  | nil => simp [laterStarts] at hp
  | cons e rest ih =>
    by_cases hend : e.type = .endRule
    · have := (wellFormedFrom_cons.mp h).2.2
      rw [if_pos hend] at this
      subst this
      simp [laterStarts, hend] at hp
    · have hrest := wellFormedFrom_tail h hend
      rw [laterStarts] at hp
      split at hp
      next halt =>
        rcases List.mem_cons.mp hp with rfl | hp
        · rwa [halt] at hrest
        · exact ih hrest hp
      next => exact ih hrest hp

/-- **The loop over the alternates** takes one step at the start of each. -/
theorem forAlternates_eq {σ : Type} {n : ℕ} {prev : Gretype} {step : Pos → σ → Except Fault σ}
    {pos : Pos} (h : wellFormedFrom n prev pos = true) (atStart : Bool) (s : σ) :
    forAlternates step atStart pos s =
      ((if atStart then [pos] else []) ++ laterStarts pos).foldlM (fun s p => step p s) s := by
  induction pos generalizing prev atStart s with
  | nil => simp [wellFormedFrom] at h
  | cons e rest ih =>
    have key : ∀ s, forAlternates step false (e :: rest) s =
        (laterStarts (e :: rest)).foldlM (fun s p => step p s) s := by
      intro s
      rw [forAlternates, if_neg Bool.false_ne_true]
      simp only [pure_bind]
      by_cases hend : e.type = .endRule
      · have := (wellFormedFrom_cons.mp h).2.2
        rw [if_pos hend] at this
        subst this
        simp [laterStarts, hend]
      · have hrest := wellFormedFrom_tail h hend
        rw [laterStarts]
        by_cases halt : e.type = .alt
        · rw [if_pos halt, halt, ih hrest]
          rfl
        · rw [if_neg halt]
          have := ih hrest false s
          cases ht : e.type <;> simp_all
    rw [forAlternates]
    cases atStart with
    | false => exact key s
    | true =>
      change (step (e :: rest) s >>= fun s => _) = (step (e :: rest) s >>= fun s => _)
      congr 1
      funext s
      exact key s

end Grammar

end WhisperCpp
