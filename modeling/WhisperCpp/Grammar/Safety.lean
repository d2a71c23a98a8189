import WhisperCpp.Grammar.Acceptance

/-!
# The automaton stays inside well-formed rules

On well-formed rules nothing but the depth of the recursion can stop the automaton: it never reads
past the elements of a rule, and never meets an element its assertions exclude. Left recursion is
allowed here.

## Main results

* `advanceStack_meets`, `accept_meets`, `init_meets`, `run_meets`
-/

namespace WhisperCpp

namespace Grammar

open LeftmostGrammar Fuel

variable {rules : List (List Element)}

/-- All stacks are ones the automaton holds between two code points. -/
def Held (n : ℕ) (stackVec : List Stack) : Prop :=
  ∀ s ∈ stackVec, PlacedStack n s ∧ Ready (form s)

theorem held_nil {n : ℕ} : Held n [] := nofun

theorem Held.push {n : ℕ} {stackVec : List Stack} (h : Held n stackVec) {s : Stack}
    (hs : PlacedStack n s) (hready : Ready (form s)) : Held n (stackVec ++ [s]) := by
  intro t ht
  rcases List.mem_append.mp ht with ht | ht
  · exact h t ht
  · obtain rfl := List.mem_singleton.mp ht
    exact ⟨hs, hready⟩

theorem advanceStack_meets (hwf : WellFormed rules) (fuel : ℕ) {stack : Stack}
    (hstack : PlacedStack rules.length stack) {acc : List Stack} (hacc : Held rules.length acc) :
    Meets (· = .outOfFuel) (Held rules.length) (advanceStack rules fuel stack acc) := by
  induction fuel generalizing stack acc with
  | zero => exact rfl
  | succ fuel ih =>
  cases stack with
  | nil => exact hacc.push placedStack_nil ready_nil
  | cons pos below =>
  obtain ⟨hpos, hbelow⟩ := placedStack_cons.mp hstack
  obtain ⟨e, next, rfl, he⟩ := hpos.cases
  rcases he with he | he
  · obtain ⟨hlt, hnext⟩ := hpos.1.ruleRef he
    have hat : AtSymbol rules.length rules[e.value] := (hwf _ (List.getElem_mem hlt)).atSymbol
    rw [advanceStack_ruleRef he (List.getElem?_eq_getElem hlt) hat]
    refine Meets.foldlM hacc fun acc hacc subpos hsubpos => ?_
    obtain ⟨s, hs, -, hdo⟩ := exists_unfolded hnext (atSymbol_of_mem_starts hat hsubpos) hbelow
    rw [hdo]
    exact ih hs hacc
  · obtain ⟨p, hseq, -⟩ := matchChar_eq hpos.1 he
    have hheld := hacc.push hstack (by rw [form_cons, hseq]; exact ready_cls)
    rw [advanceStack]
    rcases he with he | he <;> simp only [he] <;> exact hheld

theorem accept_meets (hwf : WellFormed rules) (fuel : ℕ) {stackVec : List Stack}
    (h : Held rules.length stackVec) (chr : UInt32) :
    Meets (· = .outOfFuel) (Held rules.length) (accept rules fuel stackVec chr) := by
  refine Meets.foldlM held_nil fun acc hacc stack hstack => ?_
  obtain ⟨hs, hready⟩ := h stack hstack
  cases stack with
  | nil => exact hacc
  | cons pos below =>
  obtain ⟨hpos, hbelow⟩ := placedStack_cons.mp hs
  obtain ⟨p, s, -, hs, -, hread⟩ := exists_read rules hpos hbelow hready
  rw [hread]
  split_ifs
  · exact advanceStack_meets hwf fuel hs hacc
  · exact hacc

theorem feed_meets (hwf : WellFormed rules) (fuel : ℕ) {stackVec : List Stack}
    (h : Held rules.length stackVec) (chrs : List UInt32) :
    Meets (· = .outOfFuel) (Held rules.length) (feed rules fuel stackVec chrs) :=
  Meets.foldlM h fun _ h chr _ => accept_meets hwf fuel h chr

theorem init_meets (hwf : WellFormed rules) (fuel : ℕ) {start : ℕ} (hstart : start < rules.length) :
    Meets (· = .outOfFuel) (fun g => g.rules.length = rules.length ∧ WellFormed g.rules ∧
      Held rules.length g.stackVec) (init fuel rules start) := by
  obtain ⟨vecRules, hmap, hlen, hvwf, -⟩ := exists_vecRules hwf
  have hvwf : WellFormed vecRules := by rwa [WellFormed, hlen]
  have hat : AtSymbol rules.length rules[start] := (hwf _ (List.getElem_mem hstart)).atSymbol
  rw [init_eq (List.getElem?_eq_getElem hstart) hat hmap]
  refine Meets.bind (P := Held rules.length) (Meets.foldlM held_nil fun acc hacc pos hpos => ?_)
    fun stackVec hheld => ⟨hlen, hvwf, hheld⟩
  obtain ⟨s, hs, hps, -⟩ := pushUnlessEnd_eq (atSymbol_of_mem_starts hat hpos) placedStack_nil
  rw [hs]
  exact hlen ▸ advanceStack_meets hvwf fuel (hlen ▸ hps) (hlen ▸ hacc)

/-- **No run over well-formed rules reads past a rule.** -/
theorem run_meets (hwf : WellFormed rules) (fuel : ℕ) {start : ℕ} (hstart : start < rules.length)
    (chrs : List UInt32) : Meets (· = .outOfFuel) (fun _ => True) (run fuel rules start chrs) :=
  (init_meets hwf fuel hstart).bind fun _ ⟨hlen, hgwf, hheld⟩ =>
    (feed_meets hgwf fuel (hlen ▸ hheld) chrs).bind fun _ _ => trivial

end Grammar

end WhisperCpp
