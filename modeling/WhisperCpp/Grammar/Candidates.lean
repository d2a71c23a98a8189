import Mathlib.Algebra.Order.BigOperators.Group.List
import Mathlib.Algebra.Order.Ring.Nat
import WhisperCpp.Grammar.Acceptance

/-!
# Rejecting candidate tokens

`whisper_grammar_reject_candidates` filters all candidate tokens at once: it narrows the list of
rejects stack by stack, and under each stack all candidates whose next code point matches go on
together to the stacks behind it. `whisper_grammar_accept` advances all stacks breadth-first
instead. The two agree on a stack set that is not empty.

## Main definitions

* `PartialUtf8`, `Candidate` — a token's code points, and the character it may end inside of
* `matchPartialChar` — whether a class can still match an incomplete character
* `rejectCandidates` — the candidates that no stack can take
* `Completes` — the code points an incomplete character can become

## Main results

* `rejectCandidates_returns` — rejection is failing acceptance, and loses no multiplicity
* `matchPartialChar_char_iff` — the test for an incomplete character is exact on a plain class
-/

namespace WhisperCpp

namespace Grammar

open LeftmostGrammar Fuel

/-- `whisper_partial_utf8`: the bits of an incomplete character, and how many bytes it lacks
(`-1` for an invalid sequence). -/
structure PartialUtf8 where
  value : UInt32
  nRemain : ℤ
  deriving DecidableEq, Repr

/-- `whisper_grammar_candidate`: `code_points` points into the zero-terminated code points of the
token, `pos` elements behind its start. -/
structure Candidate where
  id : ℕ
  codePoints : List UInt32
  pos : ℕ
  partialUtf8 : PartialUtf8
  deriving DecidableEq, Repr

/-- `*tok.code_points`, the terminating zero included. -/
def Candidate.head (tok : Candidate) : UInt32 := tok.codePoints.getD tok.pos 0

/-- The `do … while` loop of `whisper_grammar_match_partial_char`. -/
def matchPartialLoop (isPositiveChar : Bool) (low high : ℕ) : Pos → Except Fault Bool
  | lo :: hi :: rest =>
    if hi.type = .charRngUpper then
      if lo.value ≤ high ∧ low ≤ hi.value then .ok isPositiveChar
      else match rest with
        | [] => .error .outOfBounds
        | e :: rest =>
          if e.type = .charAlt then matchPartialLoop isPositiveChar low high (e :: rest)
          else .ok !isPositiveChar
    else
      if low ≤ lo.value ∧ lo.value ≤ high then .ok isPositiveChar
      else if hi.type = .charAlt then matchPartialLoop isPositiveChar low high (hi :: rest)
      else .ok !isPositiveChar
  | _ => .error .outOfBounds

/-- The least code point an incomplete character could complete to, as
`whisper_grammar_match_partial_char` computes it. -/
def PartialUtf8.low (p : PartialUtf8) : ℕ :=
  let low := p.value.toNat <<< (p.nRemain.toNat * 6) % 2 ^ 32
  if low = 0 then
    if p.nRemain = 2 then 1 <<< 11 else if p.nRemain = 3 then 1 <<< 16 else low
  else low

/-- The greatest one. -/
def PartialUtf8.high (p : PartialUtf8) : ℕ :=
  p.value.toNat <<< (p.nRemain.toNat * 6) % 2 ^ 32 ||| (1 <<< (p.nRemain.toNat * 6) - 1)

/-- `whisper_grammar_match_partial_char`. -/
def matchPartialChar (pos : Pos) (p : PartialUtf8) : Except Fault Bool :=
  match pos with
  | [] => .error .outOfBounds
  | e :: _ =>
    if e.type = .char ∨ e.type = .charNot then
      -- invalid sequence or 7-bit char split across 2 bytes (overlong)
      if p.nRemain < 0 ∨ (p.nRemain = 1 ∧ p.value.toNat < 2) then .ok false
      else matchPartialLoop (decide (e.type = .char)) p.low p.high pos
    else .error .assertFailed

/-- The loop of `whisper_grammar_reject_candidates_for_stack` over its candidates: the rejected
ones, and those that go on with their next code point. -/
def sortCandidate (stackPos : Pos) (acc : List Candidate × List Candidate) (tok : Candidate) :
    Except Fault (List Candidate × List Candidate) :=
  if tok.head = 0 then
    -- reached end of full codepoints in token, reject iff it ended in a partial sequence
    -- that cannot satisfy this position in grammar
    if tok.partialUtf8.nRemain ≠ 0 then do
      if ← matchPartialChar stackPos tok.partialUtf8 then return acc
      else return (acc.1 ++ [tok], acc.2)
    else .ok acc
  else do
    let (matched, _) ← matchChar stackPos tok.head
    if matched then return (acc.1, acc.2 ++ [{ tok with pos := tok.pos + 1 }])
    else return (acc.1 ++ [tok], acc.2)

/-- `whisper_grammar_reject_candidates_for_stack`; `rejectNext` is the call to
`whisper_grammar_reject_candidates` it ends in. -/
def rejectCandidatesForStack (rules : List (List Element)) (fuel : ℕ)
    (rejectNext : List Stack → List Candidate → Except Fault (List Candidate))
    (candidates : List Candidate) : Stack → Except Fault (List Candidate)
  | [] => .ok (candidates.filter fun tok => tok.head ≠ 0 ∨ tok.partialUtf8.nRemain ≠ 0)
  | stackPos :: below => do
    let (rejects, nextCandidates) ← candidates.foldlM (sortCandidate stackPos) ([], [])
    let (_, stackPosAfter) ← matchChar stackPos 0
    let stackAfter ← pushUnlessEnd stackPosAfter below
    let nextStacks ← advanceStack rules fuel stackAfter []
    let nextRejects ← rejectNext nextStacks nextCandidates
    return rejects ++ nextRejects.map fun tok => { tok with pos := tok.pos - 1 }

/-- `whisper_grammar_reject_candidates`. `fuel` bounds the depth of the mutual recursion, and that
of `whisper_grammar_advance_stack` below it. -/
def rejectCandidates (rules : List (List Element)) :
    ℕ → List Stack → List Candidate → Except Fault (List Candidate)
  | _, [], _ => .ok []
  | _, _ :: _, [] => .ok []
  | 0, _ :: _, _ :: _ => .error .outOfFuel
  | fuel + 1, stackVec, candidates =>
    stackVec.foldlM (rejectCandidatesForStack rules fuel (rejectCandidates rules fuel)) candidates

/-! ### The class at a position, again -/

/-- Whether one of the ranges meets `[low, high]`. -/
def meetsRanges (ranges : List (ℕ × ℕ)) (low high : ℕ) : Bool :=
  ranges.any fun r => decide (r.1 ≤ high) && decide (low ≤ r.2)

theorem meetsRanges_cons (r : ℕ × ℕ) (ranges : List (ℕ × ℕ)) (low high : ℕ) :
    meetsRanges (r :: ranges) low high =
      ((decide (r.1 ≤ high) && decide (low ≤ r.2)) || meetsRanges ranges low high) := rfl

/-- One round of the loop at a single code point. -/
theorem matchPartialLoop_single {positive : Bool} {low high : ℕ} {lo hi : Element} {rest : Pos}
    (hu : hi.type ≠ .charRngUpper) :
    matchPartialLoop positive low high (lo :: hi :: rest) =
      if low ≤ lo.value ∧ lo.value ≤ high then .ok positive
      else if hi.type = .charAlt then matchPartialLoop positive low high (hi :: rest)
      else .ok !positive := by
  cases rest <;> rw [matchPartialLoop, if_neg hu]

/-- One round of the loop at a range. -/
theorem matchPartialLoop_range {positive : Bool} {low high : ℕ} {lo hi e : Element} {rest : Pos}
    (hu : hi.type = .charRngUpper) :
    matchPartialLoop positive low high (lo :: hi :: e :: rest) =
      if lo.value ≤ high ∧ low ≤ hi.value then .ok positive
      else if e.type = .charAlt then matchPartialLoop positive low high (e :: rest)
      else .ok !positive := by
  rw [matchPartialLoop, if_pos hu]

/-- The loop of `whisper_grammar_match_partial_char` looks for a range that meets `[low, high]`. -/
theorem matchPartialLoop_eq {n : ℕ} {prev : Gretype} {positive : Bool} {low high : ℕ} {e : Element}
    {rest : Pos} (hl : e.type.isLower = true) (h : wellFormedFrom n prev (e :: rest) = true) :
    matchPartialLoop positive low high (e :: rest) =
      .ok (meetsRanges ((decode rest).rangesFrom e.value) low high == positive) := by
  induction hk : rest.length using Nat.strong_induction_on generalizing prev e rest with
  | _ k ih =>
  have hrest := wellFormedFrom_tail h (by rintro he; rw [he] at hl; cases hl)
  obtain ⟨hi, rest, rfl⟩ := exists_cons_of_wellFormedFrom hrest
  rw [Decoded.rangesFrom, meetsRanges_cons]
  by_cases hu : hi.type = .charRngUpper
  · -- a range: two elements are consumed
    have hrest₂ := wellFormedFrom_tail hrest (by rw [hu]; rintro ⟨⟩)
    obtain ⟨c, rest, rfl⟩ := exists_cons_of_wellFormedFrom hrest₂
    rw [matchPartialLoop_range hu, (decode_charRngUpper hu).1, (decode_charRngUpper hu).2,
      Option.getD_some]
    by_cases hm : e.value ≤ high ∧ low ≤ hi.value
    · simp [hm]
    · rw [if_neg hm, show (decide (e.value ≤ high) && decide (low ≤ hi.value)) = false by simpa using hm,
        Bool.false_or]
      by_cases hc : c.type = .charAlt
      · simp only [if_pos hc]
        rw [ih rest.length (by simp at hk; omega) (by rw [hc]; rfl) hrest₂ rfl, decode_charAlt hc]
      · have hcu : c.type ≠ .charRngUpper := by
          intro hc'
          have := (wellFormedFrom_cons.mp hrest₂).1
          rw [hu, hc'] at this
          cases this
        simp only [if_neg hc]
        rw [decode_ranges_of_ne hcu hc]
        simp [meetsRanges]
  · -- a single code point
    rw [matchPartialLoop_single hu, decode_upper_of_ne hu, Option.getD_none]
    by_cases hm : low ≤ e.value ∧ e.value ≤ high
    · simp [hm]
    · rw [if_neg hm, show (decide (e.value ≤ high) && decide (low ≤ e.value)) = false by
        rw [Bool.and_comm]; simpa using hm, Bool.false_or]
      by_cases hc : hi.type = .charAlt
      · simp only [if_pos hc]
        rw [ih rest.length (by simp at hk; omega) (by rw [hc]; rfl) hrest rfl, decode_charAlt hc]
      · simp only [if_neg hc]
        rw [decode_ranges_of_ne hu hc]
        simp [meetsRanges]

/-- At a class, `whisper_grammar_match_partial_char` returns. -/
theorem matchPartialChar_eq {n : ℕ} {e : Element} {rest : Pos} (h : AtSymbol n (e :: rest))
    (he : e.type = .char ∨ e.type = .charNot) (p : PartialUtf8) :
    matchPartialChar (e :: rest) p =
      .ok (if p.nRemain < 0 ∨ (p.nRemain = 1 ∧ p.value.toNat < 2) then false
        else meetsRanges ((decode rest).rangesFrom e.value) p.low p.high
          == decide (e.type = .char)) := by
  rw [matchPartialChar, if_pos he]
  split
  · rfl
  · exact matchPartialLoop_eq (by rcases he with he | he <;> rw [he] <;> rfl) h

/-! ### Reading with the stacks at hand -/

variable {rules : List (List Element)}

/-- A stack the automaton holds between two code points. -/
def StackOk (rules : List (List Element)) (s : Stack) : Prop :=
  PlacedStack rules.length s ∧ Ready (form s)

theorem Represents.stackOk {stackVec : List Stack} {F : Set (Form UInt32 ℕ)}
    (h : Represents rules.length stackVec F) (hF : ∀ f ∈ F, Ready f) :
    ∀ s ∈ stackVec, StackOk rules s :=
  fun s hs => ⟨h.placed s hs, hF _ (h.form_mem hs)⟩

/-- `next` is what `acceptStack` computes on the stacks the automaton holds. -/
def IsNext (rules : List (List Element)) (next : Stack → UInt32 → List Stack) : Prop :=
  ∀ s, StackOk rules s → ∀ chr, (∀ t ∈ next s chr, StackOk rules t) ∧
    ∀ acc, Returns (fun fuel => acceptStack rules fuel chr acc s) (acc ++ next s chr)

theorem denote_ne_nil_of_lt {m : ℕ} (h : m < rules.length) : denote rules m ≠ [] := by
  rw [denote_of_getElem? (List.getElem?_eq_getElem h)]
  exact List.cons_ne_nil _ _

variable (hwf : WellFormed rules) (hrec : NoLeftRecursion rules)

include hwf hrec

/-- The expansion of a stack is never empty. -/
theorem ne_nil_of_represents {s : Stack} (hs : PlacedStack rules.length s) {out : List Stack}
    (hout : Represents rules.length out {g | Frontier (denote rules) (form s) g}) : out ≠ [] :=
  hout.ne_nil_iff.mpr <| exists_frontier
    (fun _ _ halt _ hm => denote_ne_nil_of_lt (ref_lt_of_mem_denote hwf halt hm))
    (hrec.acc _) fun _ hm => denote_ne_nil_of_lt (ref_lt_of_mem_form hs hm)

/-- What `acceptStack` computes, as a function of the stack and the code point. -/
theorem exists_next : ∃ next, IsNext rules next := by
  have h : ∀ (s : Stack) (chr : UInt32), ∃ out : List Stack, StackOk rules s →
      (∀ t ∈ out, StackOk rules t) ∧
        ∀ acc, Returns (fun fuel => acceptStack rules fuel chr acc s) (acc ++ out) := by
    intro s chr
    by_cases hs : StackOk rules s
    · obtain ⟨out, hrep, hret⟩ := acceptStack_returns hwf hs.1 hs.2 chr fun p rest hform _ =>
        expandable_of_forall_ref hwf hrec fun _ hk =>
          ref_lt_of_mem_form hs.1 (hform ▸ List.mem_cons_of_mem _ hk)
      exact ⟨out, fun _ => ⟨hrep.stackOk fun f ⟨_, _, _, _, hf⟩ => hf.2, hret⟩⟩
    · exact ⟨[], fun hs' => absurd hs' hs⟩
  choose next hnext using h
  exact ⟨next, fun s hs chr => hnext s chr hs⟩

omit hwf hrec

/-- The stacks left of `stackVec` after some code points, given what one stack becomes. -/
def reads (next : Stack → UInt32 → List Stack) (stackVec : List Stack) (chrs : List UInt32) :
    List Stack :=
  chrs.foldl (fun stackVec chr => stackVec.flatMap fun s => next s chr) stackVec

@[simp] theorem reads_nil (next : Stack → UInt32 → List Stack) (stackVec : List Stack) :
    reads next stackVec [] = stackVec := rfl

theorem reads_cons (next : Stack → UInt32 → List Stack) (stackVec : List Stack) (chr : UInt32)
    (chrs : List UInt32) : reads next stackVec (chr :: chrs) =
      reads next (stackVec.flatMap fun s => next s chr) chrs := rfl

/-- The stacks read on independently of each other. -/
theorem mem_reads_iff {next : Stack → UInt32 → List Stack} {stackVec : List Stack}
    {chrs : List UInt32} {t : Stack} :
    t ∈ reads next stackVec chrs ↔ ∃ s ∈ stackVec, t ∈ reads next [s] chrs := by
  induction chrs generalizing stackVec with
  | nil => simp
  | cons chr chrs ih =>
    rw [reads_cons, ih]
    simp only [List.mem_flatMap, reads_cons, List.flatMap_cons, List.flatMap_nil, List.append_nil]
    constructor
    · rintro ⟨s', ⟨s, hs, hs'⟩, ht⟩
      exact ⟨s, hs, ih.mpr ⟨s', hs', ht⟩⟩
    · rintro ⟨s, hs, ht⟩
      obtain ⟨s', hs', ht⟩ := ih.mp ht
      exact ⟨s', ⟨s, hs, hs'⟩, ht⟩

theorem IsNext.stackOk_reads {next : Stack → UInt32 → List Stack} (hnext : IsNext rules next)
    {stackVec : List Stack} (hok : ∀ s ∈ stackVec, StackOk rules s) (chrs : List UInt32) :
    ∀ s ∈ reads next stackVec chrs, StackOk rules s := by
  induction chrs generalizing stackVec with
  | nil => exact hok
  | cons chr chrs ih =>
    refine ih fun t ht => ?_
    obtain ⟨s, hs, ht⟩ := List.mem_flatMap.mp ht
    exact (hnext s (hok s hs) chr).1 t ht

theorem IsNext.feed_returns {next : Stack → UInt32 → List Stack} (hnext : IsNext rules next)
    {stackVec : List Stack} (hok : ∀ s ∈ stackVec, StackOk rules s) (chrs : List UInt32) :
    Returns (fun fuel => feed rules fuel stackVec chrs) (reads next stackVec chrs) := by
  induction chrs generalizing stackVec with
  | nil => exact returns_ok _
  | cons chr chrs ih =>
    have haccept : Returns (fun fuel => accept rules fuel stackVec chr)
        (stackVec.flatMap fun s => next s chr) :=
      returns_foldlM_flatMap (f := fun fuel acc s => acceptStack rules fuel chr acc s) stackVec
        (fun s hs acc => (hnext s (hok s hs) chr).2 acc) []
    refine haccept.bind (ih fun t ht => ?_)
    obtain ⟨s, hs, ht⟩ := List.mem_flatMap.mp ht
    exact (hnext s (hok s hs) chr).1 t ht

/-- The stack is left when the token's code points end, and its incomplete character fits. -/
def CanEnd (s : Stack) (p : PartialUtf8) : Prop :=
  p.nRemain = 0 ∨ ∃ pos below, s = pos :: below ∧ matchPartialChar pos p = .ok true

/-- No stack lets the token end: there is none, or the token ends inside a character that no stack
can match. -/
theorem forall_not_canEnd_iff {left : List Stack} {p : PartialUtf8} :
    (∀ t ∈ left, ¬ CanEnd t p) ↔ left = [] ∨ (p.nRemain ≠ 0 ∧ ∀ pos below, pos :: below ∈ left →
      matchPartialChar pos p ≠ .ok true) := by
  constructor
  · intro h
    cases left with
    | nil => exact .inl rfl
    | cons s left =>
      refine .inr ⟨fun hn => h s (List.mem_cons_self ..) (.inl hn), fun pos below hmem htrue => ?_⟩
      exact h _ hmem (.inr ⟨pos, below, rfl, htrue⟩)
  · rintro (rfl | ⟨hn, h⟩) t ht
    · cases ht
    · rintro (h0 | ⟨pos, below, rfl, htrue⟩)
      exacts [hn h0, h pos below ht htrue]

/-- No stack left after the rest of the token lets it end there. -/
def Rejected (next : Stack → UInt32 → List Stack) (stackVec : List Stack) (tok : Candidate) : Prop :=
  ∀ t ∈ reads next stackVec (tok.codePoints.drop tok.pos), ¬ CanEnd t tok.partialUtf8

theorem rejected_iff {next : Stack → UInt32 → List Stack} {stackVec : List Stack}
    {tok : Candidate} : Rejected next stackVec tok ↔ ∀ s ∈ stackVec, Rejected next [s] tok := by
  constructor
  · intro h s hs t ht
    exact h t (mem_reads_iff.mpr ⟨s, hs, ht⟩)
  · intro h t ht
    obtain ⟨s, hs, ht⟩ := mem_reads_iff.mp ht
    exact h s hs t ht

/-! ### One stack -/

/-- The code points of a token from its position on. -/
def Candidate.rest (tok : Candidate) : List UInt32 := tok.codePoints.drop tok.pos

/-- The token one code point further. -/
def Candidate.next (tok : Candidate) : Candidate := { tok with pos := tok.pos + 1 }

theorem Candidate.rest_eq {tok : Candidate} (h0 : 0 ∉ tok.codePoints) :
    (tok.head = 0 → tok.rest = []) ∧
      (tok.head ≠ 0 → tok.rest = tok.head :: tok.next.rest) := by
  rcases Nat.lt_or_ge tok.pos tok.codePoints.length with hlt | hge
  · have hhead : tok.head = tok.codePoints[tok.pos] := by
      rw [Candidate.head, List.getD_eq_getElem?_getD, List.getElem?_eq_getElem hlt, Option.getD_some]
    refine ⟨fun h => ?_, fun _ => ?_⟩
    · rw [hhead] at h
      exact absurd (h ▸ List.getElem_mem hlt) h0
    · rw [Candidate.rest, List.drop_eq_getElem_cons hlt, hhead]
      rfl
  · refine ⟨fun _ => List.drop_eq_nil_of_le hge, fun h => absurd ?_ h⟩
    rw [Candidate.head, List.getD_eq_getElem?_getD, List.getElem?_eq_none hge, Option.getD_none]

/-- At a class that decides `p`, and `q` for incomplete characters: the token is rejected. -/
def Candidate.failsAt (p : UInt32 → Bool) (q : PartialUtf8 → Bool) (tok : Candidate) : Bool :=
  if tok.head = 0 then decide (tok.partialUtf8.nRemain ≠ 0) && !q tok.partialUtf8 else !p tok.head

/-- At a class that decides `p`: the token goes on behind its next code point. -/
def Candidate.goesOn (p : UInt32 → Bool) (tok : Candidate) : Bool :=
  decide (tok.head ≠ 0) && p tok.head

/-- Sorting the candidates at a class on top of the stack. -/
theorem foldlM_sortCandidate_eq {pos : Pos} {p : UInt32 → Bool} {q : PartialUtf8 → Bool}
    (hmatch : ∀ chr, ∃ after, matchChar pos chr = .ok (p chr, after))
    (hpart : ∀ u, matchPartialChar pos u = .ok (q u)) (candidates : List Candidate)
    (acc : List Candidate × List Candidate) :
    candidates.foldlM (sortCandidate pos) acc = .ok (acc.1 ++ candidates.filter (·.failsAt p q),
      acc.2 ++ (candidates.filter (·.goesOn p)).map Candidate.next) := by
  induction candidates generalizing acc with
  | nil => simp [pure, Except.pure]
  | cons tok candidates ih =>
    obtain ⟨after, hm⟩ := hmatch tok.head
    have hstep : sortCandidate pos acc tok = .ok
        (if tok.failsAt p q then acc.1 ++ [tok] else acc.1,
          if tok.goesOn p then acc.2 ++ [tok.next] else acc.2) := by
      by_cases h0 : tok.head = 0
      · by_cases hn : tok.partialUtf8.nRemain = 0
        · simp [sortCandidate, Candidate.failsAt, Candidate.goesOn, h0, hn]
        · cases hq : q tok.partialUtf8 <;>
            simp [sortCandidate, Candidate.failsAt, Candidate.goesOn, h0, hn, hpart, hq, bind,
              Except.bind, pure, Except.pure]
      · cases hp : p tok.head <;>
          simp [sortCandidate, Candidate.failsAt, Candidate.goesOn, Candidate.next, h0, hm, hp, bind,
            Except.bind, pure, Except.pure]
    rw [List.foldlM_cons, hstep]
    change candidates.foldlM (sortCandidate pos) _ = _
    rw [ih, List.filter_cons, List.filter_cons]
    cases tok.failsAt p q <;> cases tok.goesOn p <;> simp

open Classical in
/-- A property that is the disjoint union of two filters a list into both parts. -/
theorem filter_perm_append {α : Type*} (l : List α) {P Q R : α → Prop}
    (h : ∀ a ∈ l, P a ↔ Q a ∨ R a) (hdisj : ∀ a ∈ l, Q a → ¬ R a) :
    (l.filter P).Perm (l.filter Q ++ l.filter R) := by
  induction l with
  | nil => simp
  | cons a l ih =>
    have ih := ih (fun b hb => h b (List.mem_cons_of_mem _ hb))
      fun b hb => hdisj b (List.mem_cons_of_mem _ hb)
    have ha := h a (List.mem_cons_self ..)
    have hd := hdisj a (List.mem_cons_self ..)
    rw [List.filter_cons, List.filter_cons, List.filter_cons]
    by_cases hQ : Q a
    · simpa [ha, hQ, hd hQ] using ih
    · by_cases hR : R a
      · simpa [ha, hQ, hR] using (ih.cons a).trans List.perm_middle.symm
      · simpa [ha, hQ, hR] using ih

variable {next : Stack → UInt32 → List Stack}

/-- The empty stack takes a token only when the token is at its end. -/
theorem next_nil (hnext : IsNext rules next) (chr : UInt32) : next [] chr = [] :=
  ((hnext [] ⟨placedStack_nil, ready_nil⟩ chr).2 []).unique (returns_ok _)

theorem reads_nil_stackVec (chrs : List UInt32) : reads next [] chrs = [] := by
  induction chrs with
  | nil => rfl
  | cons chr chrs ih => exact ih

theorem rejected_nil_iff (hnext : IsNext rules next) {tok : Candidate} (h0 : 0 ∉ tok.codePoints) :
    Rejected next [[]] tok ↔ tok.head ≠ 0 ∨ tok.partialUtf8.nRemain ≠ 0 := by
  change (∀ t ∈ reads next [[]] tok.rest, _) ↔ _
  by_cases hhead : tok.head = 0
  · rw [(Candidate.rest_eq h0).1 hhead, reads_nil]
    simp [CanEnd, hhead]
  · rw [(Candidate.rest_eq h0).2 hhead, reads_cons, List.flatMap_singleton, next_nil hnext,
      reads_nil_stackVec]
    simp [hhead]

/-- A class on top: the token fails here, or goes on and is rejected by the stacks behind. -/
theorem rejected_cons_iff {pos : Pos} {below : Stack} {p : UInt32 → Bool} {q : PartialUtf8 → Bool}
    {nextStacks : List Stack} (hpart : ∀ u, matchPartialChar pos u = .ok (q u))
    (hnx : ∀ chr, next (pos :: below) chr = if p chr then nextStacks else []) {tok : Candidate}
    (h0 : 0 ∉ tok.codePoints) : Rejected next [pos :: below] tok ↔
      tok.failsAt p q = true ∨ (tok.goesOn p = true ∧ Rejected next nextStacks tok.next) := by
  change (∀ t ∈ reads next [pos :: below] tok.rest, _) ↔ _
  by_cases hhead : tok.head = 0
  · rw [(Candidate.rest_eq h0).1 hhead, reads_nil]
    simp [CanEnd, Candidate.failsAt, Candidate.goesOn, hhead, hpart]
  · rw [(Candidate.rest_eq h0).2 hhead, reads_cons, List.flatMap_singleton, hnx]
    cases hp : p tok.head with
    | true => simp [Candidate.failsAt, Candidate.goesOn, hhead, hp, Rejected, Candidate.rest,
        Candidate.next]
    | false => simp [Candidate.failsAt, Candidate.goesOn, hhead, hp, reads_nil_stackVec]

open Classical in
/-- **`whisper_grammar_reject_candidates_for_stack`** keeps the candidates the stack rejects, given
that the call for the stacks behind does. -/
theorem rejectCandidatesForStack_returns (hwf : WellFormed rules) (hrec : NoLeftRecursion rules)
    (hnext : IsNext rules next) {s : Stack} (hs : StackOk rules s) {k : ℕ}
    (ih : ∀ stackVec, stackVec ≠ [] → (∀ s ∈ stackVec, StackOk rules s) →
      ∀ candidates : List Candidate,
        (∀ tok ∈ candidates, 0 ∉ tok.codePoints ∧ tok.rest.length < k) →
        ∃ rejects, Returns (fun fuel => rejectCandidates rules fuel stackVec candidates) rejects ∧
          rejects.Perm (candidates.filter (Rejected next stackVec)))
    {candidates : List Candidate}
    (hc : ∀ tok ∈ candidates, 0 ∉ tok.codePoints ∧ tok.rest.length ≤ k) :
    ∃ rejects, Returns (fun fuel =>
        rejectCandidatesForStack rules fuel (rejectCandidates rules fuel) candidates s) rejects ∧
      rejects.Perm (candidates.filter (Rejected next [s])) := by
  cases s with
  | nil =>
    refine ⟨_, returns_ok _, List.Perm.of_eq (List.filter_congr fun tok htok => ?_)⟩
    exact decide_eq_decide.mpr (rejected_nil_iff hnext (hc tok htok).1).symm
  | cons pos below =>
  obtain ⟨hpos, hbelow⟩ := placedStack_cons.mp hs.1
  obtain ⟨p, s, hform, hps, hread, haccept⟩ := exists_read rules hpos hbelow hs.2
  have hmatch : ∀ chr, ∃ after, matchChar pos chr = .ok (p chr, after) := fun chr =>
    (hread chr).imp fun _ h => h.1
  obtain ⟨q, hpart⟩ : ∃ q : PartialUtf8 → Bool, ∀ u, matchPartialChar pos u = .ok (q u) := by
    obtain ⟨e, rest, rfl, he⟩ := hpos.cases
    rcases he with he | he
    · have := hs.2
      rw [form_cons, decode_ruleRef he] at this
      exact this.elim
    · exact ⟨_, fun u => matchPartialChar_eq hpos.1 he u⟩
  -- the stacks behind the class
  obtain ⟨nextStacks, hrep, hadv⟩ := advanceStack_returns hwf hps 
    (expandable_of_forall_ref hwf hrec fun _ => ref_lt_of_mem_form hps)
  have hne := ne_nil_of_represents hwf hrec hps hrep
  have hok := hrep.stackOk fun f hf => hf.2
  have hnx : ∀ chr, next (pos :: below) chr = if p chr then nextStacks else [] := by
    intro chr
    refine ((hnext _ hs chr).2 []).unique ?_
    cases hp : p chr with
    | true => exact (hadv []).congr fun fuel => by rw [haccept, if_pos hp]
    | false => exact (returns_ok _).congr fun fuel => by rw [haccept, hp]; rfl
  -- the call for them
  obtain ⟨nextRejects, hret, hperm⟩ : ∃ rejects,
      Returns (fun fuel => rejectCandidates rules fuel nextStacks
        ((candidates.filter (·.goesOn p)).map Candidate.next)) rejects ∧
      rejects.Perm (((candidates.filter (·.goesOn p)).map Candidate.next).filter
        (Rejected next nextStacks)) := by
    refine ih nextStacks hne hok _ fun tok htok => ?_
    obtain ⟨tok, hmem, rfl⟩ := List.mem_map.mp htok
    obtain ⟨htok, hgo⟩ := List.mem_filter.mp hmem
    obtain ⟨h0, hlen⟩ := hc tok htok
    refine ⟨h0, ?_⟩
    have hhead : tok.head ≠ 0 := by
      rw [Candidate.goesOn, Bool.and_eq_true, decide_eq_true_eq] at hgo
      exact hgo.1
    rw [(Candidate.rest_eq h0).2 hhead, List.length_cons] at hlen
    omega
  obtain ⟨after, hm, hpush⟩ := hread 0
  refine ⟨candidates.filter (·.failsAt p q) ++
    nextRejects.map (fun tok => { tok with pos := tok.pos - 1 }), ?_, ?_⟩
  · refine ((hadv []).bind (g := fun fuel nextStacks =>
      rejectCandidates rules fuel nextStacks
        ((candidates.filter (·.goesOn p)).map Candidate.next) >>= fun nextRejects =>
      .ok (candidates.filter (·.failsAt p q) ++
        nextRejects.map (fun tok => { tok with pos := tok.pos - 1 })))
      (hret.bind (g := fun _ nextRejects => .ok _) (returns_ok _))).congr fun fuel => ?_
    rw [rejectCandidatesForStack, foldlM_sortCandidate_eq hmatch hpart, hm]
    change (pushUnlessEnd after below >>= _) = _
    rw [hpush]
    rfl
  · have hsplit := filter_perm_append candidates (P := Rejected next [pos :: below])
      (Q := fun tok => tok.failsAt p q = true)
      (R := fun tok => tok.goesOn p = true ∧ Rejected next nextStacks tok.next)
      (fun tok htok => rejected_cons_iff hpart hnx (hc tok htok).1)
      (fun tok _ hf hg => by
        simp only [Candidate.failsAt, Candidate.goesOn] at hf hg
        by_cases hhead : tok.head = 0 <;> simp_all)
    refine List.Perm.trans ?_ hsplit.symm
    refine List.Perm.append (by simp) ?_
    refine (hperm.map _).trans (List.Perm.of_eq ?_)
    rw [List.filter_map, List.map_map, List.filter_filter]
    have hback : ((fun tok : Candidate => { tok with pos := tok.pos - 1 }) ∘ Candidate.next) = id := by
      funext tok
      simp [Candidate.next]
    rw [hback, List.map_id]
    refine List.filter_congr fun tok _ => ?_
    simp [Bool.and_comm]

open Classical in
/-- The loop over the stacks keeps the candidates that all of them reject. -/
theorem foldlM_rejectCandidatesForStack_returns {k : ℕ} {stackVec : List Stack}
    (hstack : ∀ s ∈ stackVec, ∀ candidates : List Candidate,
      (∀ tok ∈ candidates, 0 ∉ tok.codePoints ∧ tok.rest.length ≤ k) →
      ∃ rejects, Returns (fun fuel =>
          rejectCandidatesForStack rules fuel (rejectCandidates rules fuel) candidates s) rejects ∧
        rejects.Perm (candidates.filter (Rejected next [s])))
    (candidates : List Candidate)
    (hc : ∀ tok ∈ candidates, 0 ∉ tok.codePoints ∧ tok.rest.length ≤ k) :
    ∃ rejects, Returns (fun fuel => stackVec.foldlM
        (rejectCandidatesForStack rules fuel (rejectCandidates rules fuel)) candidates) rejects ∧
      rejects.Perm (candidates.filter (Rejected next stackVec)) := by
  induction stackVec generalizing candidates with
  | nil =>
    refine ⟨candidates, returns_ok _, List.Perm.of_eq (List.filter_eq_self.mpr fun tok _ => ?_).symm⟩
    simp [Rejected, reads_nil_stackVec]
  | cons s stackVec ih =>
    obtain ⟨mid, hmid, hpmid⟩ := hstack s (List.mem_cons_self ..) candidates hc
    obtain ⟨out, hout, hpout⟩ := ih (fun s hs => hstack s (List.mem_cons_of_mem _ hs)) mid
      fun tok htok =>
        hc tok (List.mem_filter.mp (hpmid.mem_iff.mp htok)).1
    refine ⟨out, hmid.bind (g := fun fuel mid => stackVec.foldlM
      (rejectCandidatesForStack rules fuel (rejectCandidates rules fuel)) mid) hout, ?_⟩
    refine hpout.trans ((hpmid.filter _).trans (List.Perm.of_eq ?_))
    rw [List.filter_filter]
    refine List.filter_congr fun tok _ => ?_
    rw [← Bool.decide_and, decide_eq_decide, and_comm]
    rw [show Rejected next (s :: stackVec) tok ↔ _ from rejected_iff, List.forall_mem_cons,
      ← rejected_iff]

open Classical in
/-- **`whisper_grammar_reject_candidates`** keeps the candidates that every stack rejects. -/
theorem rejectCandidates_perm (hwf : WellFormed rules) (hrec : NoLeftRecursion rules)
    (hnext : IsNext rules next) (k : ℕ) {stackVec : List Stack} (hne : stackVec ≠ [])
    (hok : ∀ s ∈ stackVec, StackOk rules s) (candidates : List Candidate)
    (hc : ∀ tok ∈ candidates, 0 ∉ tok.codePoints ∧ tok.rest.length ≤ k) :
    ∃ rejects, Returns (fun fuel => rejectCandidates rules fuel stackVec candidates) rejects ∧
      rejects.Perm (candidates.filter (Rejected next stackVec)) := by
  induction k using Nat.strong_induction_on generalizing stackVec candidates with
  | _ k ih =>
  obtain ⟨rejects, hret, hperm⟩ := foldlM_rejectCandidatesForStack_returns (k := k)
    (fun s hs candidates hc =>
      rejectCandidatesForStack_returns hwf hrec hnext (hok s hs) (k := k)
        (fun stackVec hne hok candidates hc => by
          cases candidates with
          | nil =>
            obtain ⟨s, stackVec, rfl⟩ := List.exists_cons_of_ne_nil hne
            exact ⟨[], (returns_ok []).congr fun fuel => by cases fuel <;> rfl, .refl _⟩
          | cons tok candidates =>
            have hk := (hc tok (List.mem_cons_self ..)).2
            exact ih (k - 1) (by omega) hne hok _ fun tok htok =>
              ⟨(hc tok htok).1, by have := (hc tok htok).2; omega⟩) hc) candidates hc
  obtain ⟨s, stackVec, rfl⟩ := List.exists_cons_of_ne_nil hne
  cases candidates with
  | nil => exact ⟨[], (returns_ok []).congr fun fuel => by cases fuel <;> rfl, .refl _⟩
  | cons tok candidates => exact ⟨rejects, hret.succ fun _ => rfl, hperm⟩

/-! ### What an incomplete character can become -/

/-- The code points an incomplete character can become: those whose leading bits it holds, less
the overlong encodings of smaller ones. -/
def Completes (p : PartialUtf8) (chr : UInt32) : Prop :=
  0 < p.nRemain ∧ chr.toNat / 2 ^ (p.nRemain.toNat * 6) = p.value.toNat ∧
    (p.nRemain = 1 → 2 ≤ p.value.toNat) ∧
    (p.nRemain = 2 → p.value = 0 → 2 ^ 11 ≤ chr.toNat) ∧
    (p.nRemain = 3 → p.value = 0 → 2 ^ 16 ≤ chr.toNat)

/-- At most three bytes are missing, and completing the character does not overflow. -/
def PartialUtf8.Valid (p : PartialUtf8) : Prop :=
  p.nRemain ≤ 3 ∧ p.value.toNat * 2 ^ (p.nRemain.toNat * 6) + 2 ^ (p.nRemain.toNat * 6) ≤ 2 ^ 32

theorem PartialUtf8.high_eq {p : PartialUtf8} (hp : p.Valid) :
    p.high = p.value.toNat * 2 ^ (p.nRemain.toNat * 6) + (2 ^ (p.nRemain.toNat * 6) - 1) := by
  have hpos : 0 < 2 ^ (p.nRemain.toNat * 6) := Nat.two_pow_pos _
  have hlt : p.value.toNat * 2 ^ (p.nRemain.toNat * 6) < 2 ^ 32 := by have := hp.2; omega
  rw [PartialUtf8.high, Nat.mod_eq_of_lt (by rwa [Nat.shiftLeft_eq]), Nat.one_shiftLeft,
    ← Nat.shiftLeft_add_eq_or_of_lt (by omega), Nat.shiftLeft_eq]

theorem PartialUtf8.low_eq {p : PartialUtf8} (hp : p.Valid) :
    p.low = if p.value.toNat = 0 ∧ p.nRemain = 2 then 2 ^ 11
      else if p.value.toNat = 0 ∧ p.nRemain = 3 then 2 ^ 16
      else p.value.toNat * 2 ^ (p.nRemain.toNat * 6) := by
  have hpos : 0 < 2 ^ (p.nRemain.toNat * 6) := Nat.two_pow_pos _
  have hlt : p.value.toNat * 2 ^ (p.nRemain.toNat * 6) < 2 ^ 32 := by have := hp.2; omega
  have hzero : p.value.toNat * 2 ^ (p.nRemain.toNat * 6) = 0 ↔ p.value.toNat = 0 := by
    rw [Nat.mul_eq_zero]
    omega
  simp only [PartialUtf8.low, Nat.shiftLeft_eq, Nat.mod_eq_of_lt hlt, hzero]
  by_cases h0 : p.value.toNat = 0 <;> by_cases h2 : p.nRemain = 2 <;>
    by_cases h3 : p.nRemain = 3 <;> simp [h0, h2, h3]

/-- The range `whisper_grammar_match_partial_char` computes is that of the completions. -/
theorem completes_iff {p : PartialUtf8} (hp : p.Valid) (chr : UInt32) :
    Completes p chr ↔ 0 < p.nRemain ∧ ¬ (p.nRemain = 1 ∧ p.value.toNat < 2) ∧
      p.low ≤ chr.toNat ∧ chr.toNat ≤ p.high := by
  have hv : p.value = 0 ↔ p.value.toNat = 0 := by rw [← UInt32.toNat_inj]; rfl
  rw [Completes, PartialUtf8.low_eq hp, PartialUtf8.high_eq hp, hv,
    Nat.div_eq_iff (Nat.two_pow_pos _)]
  have hn := hp.1
  obtain h | h | h | h : p.nRemain ≤ 0 ∨ p.nRemain = 1 ∨ p.nRemain = 2 ∨ p.nRemain = 3 := by omega
  · omega
  · rw [show 2 ^ (p.nRemain.toNat * 6) = 64 by rw [h]; rfl]
    split_ifs <;> omega
  · rw [show 2 ^ (p.nRemain.toNat * 6) = 4096 by rw [h]; rfl]
    split_ifs <;> omega
  · rw [show 2 ^ (p.nRemain.toNat * 6) = 262144 by rw [h]; rfl]
    split_ifs <;> omega

theorem PartialUtf8.low_le_high {p : PartialUtf8} (hp : p.Valid) (hn : 0 < p.nRemain) :
    p.low ≤ p.high ∧ p.high < 2 ^ 32 := by
  rw [PartialUtf8.low_eq hp, PartialUtf8.high_eq hp]
  have hv := hp.2
  obtain h | h | h : p.nRemain = 1 ∨ p.nRemain = 2 ∨ p.nRemain = 3 := by have := hp.1; omega
  · rw [show 2 ^ (p.nRemain.toNat * 6) = 64 by rw [h]; rfl] at *
    split_ifs <;> omega
  · rw [show 2 ^ (p.nRemain.toNat * 6) = 4096 by rw [h]; rfl] at *
    split_ifs <;> omega
  · rw [show 2 ^ (p.nRemain.toNat * 6) = 262144 by rw [h]; rfl] at *
    split_ifs <;> omega

/-- A class without inversion whose ranges are not empty. -/
def PlainClass (pos : Pos) : Prop :=
  ∃ e rest, pos = e :: rest ∧ e.type = .char ∧
    ∀ r ∈ (decode rest).rangesFrom e.value, r.1 ≤ r.2

/-- On a plain class the test for an incomplete character is exact: it passes iff one of the code
points the character can become is in the class. -/
theorem matchPartialChar_char_iff {n : ℕ} {pos : Pos} (h : AtSymbol n pos) (hpos : PlainClass pos)
    {p : PartialUtf8} (hp : p.Valid) (hn : p.nRemain ≠ 0) :
    matchPartialChar pos p = .ok true ↔
      ∃ chr after, Completes p chr ∧ matchChar pos chr = .ok (true, after) := by
  obtain ⟨e, rest, rfl, he, hord⟩ := hpos
  have hmatch : ∀ chr, matchChar (e :: rest) chr =
      .ok (inRanges ((decode rest).rangesFrom e.value) chr, skipClass rest) := by
    intro chr
    have hl : e.type.isLower = true := by rw [he]; rfl
    simp [matchChar, he, matchCharLoop_eq hl h, bind, Except.bind, pure, Except.pure]
  rw [matchPartialChar_eq h (.inl he)]
  simp only [he, hmatch, completes_iff hp]
  by_cases hinv : p.nRemain < 0 ∨ (p.nRemain = 1 ∧ p.value.toNat < 2)
  · rw [if_pos hinv]
    constructor
    · rintro ⟨⟩
    · rintro ⟨chr, -, ⟨h0, hov, -⟩, -⟩
      rcases hinv with hneg | hov'
      · omega
      · exact absurd hov' hov
  · rw [if_neg hinv]
    obtain ⟨hnonneg, hov⟩ := not_or.mp hinv
    have hpos : 0 < p.nRemain := by omega
    obtain ⟨hle, hlt⟩ := PartialUtf8.low_le_high hp hpos
    simp only [decide_true, Except.ok.injEq, Prod.mk.injEq, meetsRanges, inRanges, beq_true,
      List.any_eq_true, Bool.and_eq_true, decide_eq_true_eq]
    constructor
    · rintro ⟨r, hr, hlow, hhigh⟩
      -- the larger of the two lower ends is in both ranges
      have hr' := hord r hr
      have hc : (UInt32.ofNat (max p.low r.1)).toNat = max p.low r.1 :=
        UInt32.toNat_ofNat_of_lt' (by change _ < 2 ^ 32; omega)
      exact ⟨UInt32.ofNat (max p.low r.1), _, ⟨hpos, hov, by omega, by omega⟩,
        ⟨r, hr, by omega, by omega⟩, rfl⟩
    · rintro ⟨chr, -, ⟨-, -, hlow, hhigh⟩, ⟨r, hr, h₁, h₂⟩, -⟩
      exact ⟨r, hr, by omega, by omega⟩

/-! ### Rejection is failing acceptance -/

/-- Some code point that completes the character satisfies the class on top of the stack. -/
def CanMatchPartial (s : Stack) (p : PartialUtf8) : Prop :=
  ∃ pos below, s = pos :: below ∧
    ∃ chr after, Completes p chr ∧ matchChar pos chr = .ok (true, after)

/-- Accepting the token's code points one by one empties the stack set, or no stack left can
still match its incomplete character. -/
def ShouldReject (rules : List (List Element)) (stackVec : List Stack) (tok : Candidate) : Prop :=
  ∃ left, Returns (fun fuel => feed rules fuel stackVec tok.codePoints) left ∧
    (left = [] ∨ (tok.partialUtf8.nRemain ≠ 0 ∧ ∀ s ∈ left, ¬ CanMatchPartial s tok.partialUtf8))

/-- **Rejection agrees with acceptance**, on a stack set that is not empty: a candidate is rejected
iff accepting its code points empties the set or `whisper_grammar_match_partial_char` fails on
every stack left. No candidate is rejected more often than it is listed. Where the stacks left
stand at plain classes, that test is exact. -/
theorem rejectCandidates_returns (hwf : WellFormed rules) (hrec : NoLeftRecursion rules)
    {start : ℕ} (hstart : start < rules.length) {chrs : List UInt32} {g : State}
    (hrun : Returns (fun fuel => run fuel rules start chrs) g) (hne : g.stackVec ≠ [])
    {candidates : List Candidate} (hc : ∀ tok ∈ candidates, tok.pos = 0 ∧ 0 ∉ tok.codePoints) :
    ∃ rejects, Returns (fun fuel => rejectCandidates g.rules fuel g.stackVec candidates) rejects ∧
      rejects.Subperm candidates ∧
      ((candidates.map (·.id)).Nodup → (rejects.map (·.id)).Nodup) ∧
      (∀ tok ∈ candidates, tok ∈ rejects ↔
        ∃ left, Returns (fun fuel => feed g.rules fuel g.stackVec tok.codePoints) left ∧
          (left = [] ∨ (tok.partialUtf8.nRemain ≠ 0 ∧ ∀ pos below, pos :: below ∈ left →
            matchPartialChar pos tok.partialUtf8 ≠ .ok true))) ∧
      ∀ tok ∈ candidates, tok.partialUtf8.Valid →
        (∀ left, Returns (fun fuel => feed g.rules fuel g.stackVec tok.codePoints) left →
          ∀ pos below, pos :: below ∈ left → PlainClass pos) →
        (tok ∈ rejects ↔ ShouldReject g.rules g.stackVec tok) := by
  obtain ⟨g', hrun', hlen, hgwf, hden, hrep⟩ := run_returns hwf hrec (definedAhead_of_wellFormed hwf) hstart chrs
  obtain rfl := hrun.unique hrun'
  have hgrec : NoLeftRecursion g.rules := by rw [NoLeftRecursion, hden]; exact hrec
  rw [← hlen] at hrep hgwf
  have hok := hrep.stackOk fun f ⟨_, _, hf⟩ => hf.ready
  obtain ⟨next, hnext⟩ := exists_next hgwf hgrec
  obtain ⟨k, hk⟩ : ∃ k, ∀ tok ∈ candidates, tok.codePoints.length ≤ k :=
    ⟨_, fun tok htok => List.le_sum_of_mem (List.mem_map.mpr ⟨tok, htok, rfl⟩)⟩
  classical
  obtain ⟨rejects, hret, hperm⟩ := rejectCandidates_perm hgwf hgrec hnext k hne hok
    candidates fun tok htok => ⟨(hc tok htok).2, by
      have := hk tok htok
      rw [Candidate.rest, List.length_drop]
      omega⟩
  have hsub : rejects.Subperm candidates := hperm.subperm.trans (List.filter_sublist ..).subperm
  have hmem : ∀ tok ∈ candidates, (tok ∈ rejects ↔
      ∀ t ∈ reads next g.stackVec tok.codePoints, ¬ CanEnd t tok.partialUtf8) := by
    intro tok htok
    rw [hperm.mem_iff, List.mem_filter, decide_eq_true_eq, Rejected, (hc tok htok).1,
      List.drop_zero]
    exact and_iff_right htok
  -- what is left of the stacks is what `next` says
  have hleft : ∀ {tok : Candidate} {P : List Stack → Prop},
      (∃ left, Returns (fun fuel => feed g.rules fuel g.stackVec tok.codePoints) left ∧ P left) ↔
        P (reads next g.stackVec tok.codePoints) := by
    intro tok P
    have hfeed := hnext.feed_returns hok tok.codePoints
    constructor
    · rintro ⟨left, hl, hP⟩
      rwa [hl.unique hfeed] at hP
    · exact fun hP => ⟨_, hfeed, hP⟩
  have hcode : ∀ tok ∈ candidates, (tok ∈ rejects ↔
      ∃ left, Returns (fun fuel => feed g.rules fuel g.stackVec tok.codePoints) left ∧
        (left = [] ∨ (tok.partialUtf8.nRemain ≠ 0 ∧ ∀ pos below, pos :: below ∈ left →
          matchPartialChar pos tok.partialUtf8 ≠ .ok true))) := by
    intro tok htok
    rw [hmem tok htok, hleft]
    exact forall_not_canEnd_iff
  refine ⟨rejects, hret, hsub, fun hnodup => ?_, hcode,
    fun tok htok hvalid hplain => ?_⟩
  · exact (hperm.map _).nodup_iff.mpr (hnodup.sublist ((List.filter_sublist ..).map _))
  rw [hcode tok htok, ShouldReject, hleft, hleft]
  refine or_congr_right (and_congr_right fun hn => ?_)
  have hread := hnext.stackOk_reads hok tok.codePoints
  constructor
  · rintro h s hs ⟨pos, below, rfl, hex⟩
    have hat := (placedStack_cons.mp (hread _ hs).1).1.1
    exact h pos below hs ((matchPartialChar_char_iff hat
      (hplain _ (hnext.feed_returns hok _) pos below hs) hvalid hn).mpr hex)
  · intro h pos below hs htrue
    have hat := (placedStack_cons.mp (hread _ hs).1).1.1
    exact h _ hs ⟨pos, below, rfl, (matchPartialChar_char_iff hat
      (hplain _ (hnext.feed_returns hok _) pos below hs) hvalid hn).mp htrue⟩

/-- `rejectCandidates_returns` for `root ::= "a" root | "b"` after `"a"`, with the tokens `"ab"`
and `"c"`: the first is kept, the second rejected. -/
theorem rejectCandidates_returns_ab :
    ∃ g, Returns (fun fuel => run fuel abRules 0 [97]) g ∧
      Returns (fun fuel => rejectCandidates g.rules fuel g.stackVec
        [⟨0, [97, 98], 0, ⟨0, 0⟩⟩, ⟨1, [99], 0, ⟨0, 0⟩⟩]) [⟨1, [99], 0, ⟨0, 0⟩⟩] ∧
      ShouldReject g.rules g.stackVec ⟨1, [99], 0, ⟨0, 0⟩⟩ := by
  have hrun : Returns (fun fuel => run fuel abRules 0 [97])
      ⟨abRules, [abRules, [[⟨.char, 98⟩, ⟨.endRule, 0⟩]]]⟩ := ⟨2, fun fuel hfuel => by
    obtain ⟨k, rfl⟩ := Nat.exists_eq_add_of_le' hfuel
    rfl⟩
  obtain ⟨rejects, hret, -, -, -, hrej⟩ := rejectCandidates_returns (by decide)
    (noLeftRecursion_of_ready (by decide)) (by decide) hrun (by decide)
    (show ∀ tok ∈ [(⟨0, [97, 98], 0, ⟨0, 0⟩⟩ : Candidate), ⟨1, [99], 0, ⟨0, 0⟩⟩],
      tok.pos = 0 ∧ 0 ∉ tok.codePoints by decide)
  have hret' : Returns (fun fuel => rejectCandidates abRules fuel
      [abRules, [[⟨.char, 98⟩, ⟨.endRule, 0⟩]]]
      [⟨0, [97, 98], 0, ⟨0, 0⟩⟩, ⟨1, [99], 0, ⟨0, 0⟩⟩]) [⟨1, [99], 0, ⟨0, 0⟩⟩] :=
    ⟨4, fun fuel hfuel => by
      obtain ⟨k, rfl⟩ := Nat.exists_eq_add_of_le' hfuel
      rfl⟩
  obtain rfl := hret.unique hret'
  refine ⟨_, hrun, hret', (hrej _ (by decide) (by unfold PartialUtf8.Valid; decide) ?_).mp
    (List.mem_cons_self ..)⟩
  intro left hleft pos below hmem
  obtain rfl := hleft.unique (returns_ok [])
  cases hmem

/-- What acceptance and rejection would have to agree on, for one list of candidates. -/
def AgreesWithAcceptance (rules : List (List Element)) (start : ℕ) (chrs : List UInt32)
    (candidates : List Candidate) : Prop :=
  ∀ g rejects, Returns (fun fuel => run fuel rules start chrs) g →
    Returns (fun fuel => rejectCandidates g.rules fuel g.stackVec candidates) rejects →
    ∀ tok ∈ candidates, tok ∈ rejects ↔ ShouldReject g.rules g.stackVec tok

/-- `root ::= "a"`. -/
def aRules : List (List Element) := [[⟨.char, 97⟩, ⟨.endRule, 0⟩]]

/-- `root ::= [^é]`. -/
def notEacuteRules : List (List Element) := [[⟨.charNot, 0xE9⟩, ⟨.endRule, 0⟩]]

/-- Where the conditions of `rejectCandidates_returns` matter. After `"b"` no stack of
`root ::= "a"` is left, and nothing is rejected; a zero code point ends a token; and under `[^é]`
the first byte `0xC3` of `"à"` is rejected, though `"à"` is accepted. -/
theorem not_agreesWithAcceptance :
    (WellFormed aRules ∧ NoLeftRecursion aRules ∧
      WellFormed notEacuteRules ∧ NoLeftRecursion notEacuteRules) ∧
    ¬ AgreesWithAcceptance aRules 0 [98] [⟨0, [97], 0, ⟨0, 0⟩⟩] ∧
    ¬ AgreesWithAcceptance aRules 0 [] [⟨0, [0], 0, ⟨0, 0⟩⟩] ∧
    ¬ AgreesWithAcceptance notEacuteRules 0 [] [⟨0, [], 0, ⟨3, 1⟩⟩] := by
  refine ⟨⟨by decide, noLeftRecursion_of_ready (by decide), by decide,
    noLeftRecursion_of_ready (by decide)⟩, fun h => ?_, fun h => ?_, fun h => ?_⟩
  · refine absurd ((h ⟨aRules, []⟩ [] ⟨2, fun fuel hfuel => ?_⟩ ⟨2, fun fuel hfuel => ?_⟩ _
      (List.mem_cons_self ..)).mpr ⟨[], returns_ok _, .inl rfl⟩) List.not_mem_nil
    all_goals
      obtain ⟨k, rfl⟩ := Nat.exists_eq_add_of_le' hfuel
      rfl
  · refine absurd ((h ⟨aRules, [aRules]⟩ [] ⟨2, fun fuel hfuel => ?_⟩ ⟨2, fun fuel hfuel => ?_⟩ _
      (List.mem_cons_self ..)).mpr ⟨[], returns_ok _, .inl rfl⟩) List.not_mem_nil
    all_goals
      obtain ⟨k, rfl⟩ := Nat.exists_eq_add_of_le' hfuel
      rfl
  · obtain ⟨left, hleft, hrej⟩ := (h ⟨notEacuteRules, [notEacuteRules]⟩ [⟨0, [], 0, ⟨3, 1⟩⟩]
      ⟨2, fun fuel hfuel => by obtain ⟨k, rfl⟩ := Nat.exists_eq_add_of_le' hfuel; rfl⟩
      ⟨2, fun fuel hfuel => by obtain ⟨k, rfl⟩ := Nat.exists_eq_add_of_le' hfuel; rfl⟩ _
      (List.mem_cons_self ..)).mp (List.mem_cons_self ..)
    obtain rfl := hleft.unique (returns_ok [notEacuteRules])
    rcases hrej with hnil | ⟨-, hnone⟩
    · cases hnil
    · refine hnone _ (List.mem_cons_self ..) ⟨_, _, rfl, 0xE0, _, ?_, rfl⟩
      unfold Completes
      decide

end Grammar

end WhisperCpp
