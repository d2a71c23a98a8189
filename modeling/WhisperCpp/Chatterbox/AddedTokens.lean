import WhisperCpp.Chatterbox.Gpt2Bpe
import WhisperCpp.Library.GreedySpans
import WhisperCpp.Library.StableSort

/-!
# The order of the added tokens

`gpt2_bpe::tokenize` goes through `token_to_id` for the added tokens, in an order that is not known,
and sorts the places where it has found them by their start only. An empty token is found at the same
place forever. Of two tokens that are found at the same place the first one is taken.

## Main definitions

* `Gpt2Bpe.tokenizeIn` — `tokenize`, with the added tokens in the order of the map
* `Found`, `Gpt2Bpe.IsSpan` — where an added token is found
* `Gpt2Bpe.OrderFree` — the ids of a text are the same for every order

## Main results

* `Gpt2Bpe.orderFree_iff` — when they are
* `Gpt2Bpe.not_forkless_of_prefix` — where they are not: two tokens, one in front of the other
-/

namespace WhisperCpp

namespace Chatterbox

open Search SortUnique StableSort GreedySpans Fuel

/-- The places where a token is found from `pos` on: the first one, and then those behind its end. -/
inductive Found (tok text : List UInt8) : ℕ → ℕ → Prop
  | here {pos p : ℕ} : findFrom tok text pos = some p → Found tok text pos p
  | later {pos p q : ℕ} : findFrom tok text pos = some p → Found tok text (p + tok.length) q →
    Found tok text pos q

/-- Where a span ends. -/
def AddedSpan.stop (sp : AddedSpan) : ℕ := sp.start + sp.len

namespace Gpt2Bpe

variable (b : Gpt2Bpe)

/-- `gpt2_bpe::tokenize`, with the added tokens in the order of the iteration. -/
def tokenizeIn (entries : List (List UInt8 × ℕ)) (split : List UInt8 → List (List UInt8))
    (tie : ℕ → ℕ) (text : List UInt8) (fuel : ℕ) : Except Unit (List ℕ) :=
  if text = [] then .ok []
  else do
    let spans ← spansFrom text entries fuel
    .ok (b.tokenizeFrom split text 0 (cleanSpans 0 (sortBy AddedSpan.start tie spans)))

/-- The ids of a text are the same for every order of the iteration, whatever the sort does with
spans that start at the same place. -/
def OrderFree (split : List UInt8 → List (List UInt8)) (text : List UInt8) : Prop :=
  ∀ tie : ℕ → ℕ, ∃ ids, ∀ entries : List (List UInt8 × ℕ), entries.Perm b.addedTokens →
    Returns (b.tokenizeIn entries split tie text) ids

/-- A place where an added token is found. -/
def IsSpan (text : List UInt8) (sp : AddedSpan) : Prop :=
  ∃ e ∈ b.addedTokens, Found e.1 text 0 sp.start ∧ sp.len = e.1.length ∧ sp.id = e.2

variable {b} {split : List UInt8 → List (List UInt8)} {text : List UInt8}

/-- `tokenize` takes one of the orders. -/
theorem tokenize_eq (tie : ℕ → ℕ) :
    b.tokenize split tie text = b.tokenizeIn b.addedTokens split tie text := rfl

theorem cleanSpans_eq (c : ℕ) (spans : List AddedSpan) :
    cleanSpans c spans = keep AddedSpan.start AddedSpan.stop c spans := by
  induction spans generalizing c with
  | nil => rfl
  | cons sp rest ih => simp [cleanSpans, keep, ih, AddedSpan.stop]

/-! ### What is found -/

theorem mem_findAll {tok : List UInt8} {fuel pos p : ℕ} {found : List ℕ}
    (h : findAll tok text fuel pos = .ok found) : p ∈ found ↔ Found tok text pos p := by
  induction fuel generalizing pos found with
  | zero => cases h
  | succ fuel ih =>
    rw [findAll] at h
    cases hfind : findFrom tok text pos with
    | none =>
      rw [hfind] at h
      cases h
      refine iff_of_false List.not_mem_nil fun hp => ?_
      cases hp with
      | here h => simp [hfind] at h
      | later h => simp [hfind] at h
    | some start =>
      rw [hfind] at h
      obtain ⟨more, hmore, hok⟩ := bind_eq_ok_iff.mp h
      cases hok
      rw [List.mem_cons, ih hmore]
      constructor
      · rintro (rfl | hp)
        · exact .here hfind
        · exact .later hfind hp
      · intro hp
        cases hp with
        | here h => exact .inl (Option.some.inj (h.symm.trans hfind))
        | later h hp =>
          obtain rfl := Option.some.inj (h.symm.trans hfind)
          exact .inr hp

/-- A token that is found has its place in the text. -/
theorem le_of_found {tok : List UInt8} {pos p : ℕ} (h : Found tok text pos p) :
    p + tok.length ≤ text.length := by
  induction h with
  | here h => exact (of_findFrom h).2.1
  | later _ _ ih => exact ih

/-- The spans of the first token come first, and each one is found. -/
theorem spansFrom_cons {e : List UInt8 × ℕ} {rest : List (List UInt8 × ℕ)} {fuel : ℕ}
    {spans : List AddedSpan} (h : spansFrom text (e :: rest) fuel = .ok spans) :
    ∃ (found : List ℕ) (more : List AddedSpan),
      spans = found.map (fun pos => ⟨pos, e.1.length, e.2⟩) ++ more ∧
      (∀ p, p ∈ found ↔ Found e.1 text 0 p) ∧ spansFrom text rest fuel = .ok more := by
  rw [spansFrom] at h
  obtain ⟨found, hfound, h⟩ := bind_eq_ok_iff.mp h
  obtain ⟨more, hmore, hok⟩ := bind_eq_ok_iff.mp h
  cases hok
  exact ⟨found, more, rfl, fun p => mem_findAll hfound, hmore⟩

theorem mem_spansFrom {entries : List (List UInt8 × ℕ)} {fuel : ℕ} {spans : List AddedSpan}
    {sp : AddedSpan} (h : spansFrom text entries fuel = .ok spans) : sp ∈ spans ↔
      ∃ e ∈ entries, Found e.1 text 0 sp.start ∧ sp.len = e.1.length ∧ sp.id = e.2 := by
  induction entries generalizing spans with
  | nil =>
    cases h
    simp
  | cons e rest ih =>
    obtain ⟨found, more, rfl, hfound, hmore⟩ := spansFrom_cons h
    rw [List.mem_append, ih hmore, List.exists_mem_cons_iff, List.mem_map]
    refine or_congr_left ⟨?_, ?_⟩
    · rintro ⟨p, hp, rfl⟩
      exact ⟨(hfound p).mp hp, rfl, rfl⟩
    · rintro ⟨hp, hlen, hid⟩
      exact ⟨sp.start, (hfound _).mpr hp, by rw [← hlen, ← hid]⟩

/-- The sorted spans of any order list all places. -/
theorem lists_spansFrom {entries : List (List UInt8 × ℕ)} (hperm : entries.Perm b.addedTokens)
    {fuel : ℕ} {spans : List AddedSpan} (h : spansFrom text entries fuel = .ok spans)
    (tie : ℕ → ℕ) : Lists AddedSpan.start (b.IsSpan text) (sortBy AddedSpan.start tie spans) := by
  refine ⟨pairwise_sortBy, fun sp => ?_⟩
  rw [mem_sortBy, mem_spansFrom h, IsSpan]
  exact exists_congr fun e => and_congr_left fun _ => hperm.mem_iff

/-- Every order returns. -/
theorem exists_spansFrom (split : List UInt8 → List (List UInt8)) {entries : List (List UInt8 × ℕ)} (hperm : entries.Perm b.addedTokens)
    (hne : ∀ e ∈ b.addedTokens, e.1 ≠ []) (htext : text ≠ []) (tie : ℕ → ℕ) :
    ∃ fuel spans, spansFrom text entries fuel = .ok spans ∧
      Returns (b.tokenizeIn entries split tie text) (b.tokenizeFrom split text 0
        (keep AddedSpan.start AddedSpan.stop 0 (sortBy AddedSpan.start tie spans))) := by
  obtain ⟨spans, hspans, -⟩ := spansFrom_returns (fun e he => hne e (hperm.mem_iff.mp he)) text
  obtain ⟨fuel, hfuel⟩ := hspans.exists_ok
  refine ⟨fuel, spans, hfuel, ?_⟩
  rw [← cleanSpans_eq]
  have hbind := hspans.bind (g := fun _ spans => .ok (b.tokenizeFrom split text 0
    (cleanSpans 0 (sortBy AddedSpan.start tie spans)))) (returns_ok _)
  exact hbind.congr fun fuel => by rw [tokenizeIn, if_neg htext]

theorem start_lt_stop (hne : ∀ e ∈ b.addedTokens, e.1 ≠ []) {sp : AddedSpan}
    (h : b.IsSpan text sp) : sp.start < sp.stop := by
  obtain ⟨e, he, -, hlen, -⟩ := h
  have hpos := List.length_pos_iff.mpr (hne e he)
  rw [AddedSpan.stop]
  omega

/-- The token of an id. -/
theorem eq_of_id {e e' : List UInt8 × ℕ} (he : e ∈ b.addedTokens) (he' : e' ∈ b.addedTokens)
    (hid : e.2 = e'.2) : e = e' := by
  have htok := (of_mem_addedTokens he).1
  rw [hid, (of_mem_addedTokens he').1] at htok
  exact Prod.ext (Option.some.inj htok).symm hid

theorem IsSpan.eq_of_id {sp sp' : AddedSpan} (h : b.IsSpan text sp) (h' : b.IsSpan text sp')
    (hstart : sp.start = sp'.start) (hid : sp.id = sp'.id) : sp = sp' := by
  obtain ⟨e, he, -, hlen, heq⟩ := h
  obtain ⟨e', he', -, hlen', heq'⟩ := h'
  obtain rfl := Gpt2Bpe.eq_of_id he he' (by rw [← heq, ← heq', hid])
  cases sp
  cases sp'
  simp_all

/-! ### Forks -/

/-- The id of a span stands behind what is in front of it. -/
theorem exists_tokenizeFrom (split : List UInt8 → List (List UInt8)) (text : List UInt8)
    (kept : List AddedSpan) (cursor p : ℕ) : ∃ front, ∀ (sp : AddedSpan) (rest : List AddedSpan),
      sp.start = p → ∃ ids, b.tokenizeFrom split text cursor (kept ++ sp :: rest) =
        front ++ sp.id :: ids := by
  induction kept generalizing cursor with
  | nil =>
    refine ⟨if cursor < p then b.tokenizeFragment split ((text.drop cursor).take (p - cursor))
      else [], ?_⟩
    rintro sp rest rfl
    exact ⟨_, rfl⟩
  | cons x kept ih =>
    obtain ⟨front, hfront⟩ := ih (x.start + x.len)
    refine ⟨(if cursor < x.start then
      b.tokenizeFragment split ((text.drop cursor).take (x.start - cursor)) else []) ++
        x.id :: front, ?_⟩
    intro sp rest hsp
    obtain ⟨ids, hids⟩ := hfront sp rest hsp
    exact ⟨ids, by rw [List.cons_append, tokenizeFrom, hids, List.append_assoc]; rfl⟩

/-- A token that is the first of the iteration is taken where it may be kept next. -/
theorem exists_order (split : List UInt8 → List (List UInt8)) (hne : ∀ e ∈ b.addedTokens, e.1 ≠ []) (htext : text ≠ []) {c : ℕ}
    {sp : AddedSpan} (hsp : Next AddedSpan.start (b.IsSpan text) c sp) :
    ∃ entries spans fuel, entries.Perm b.addedTokens ∧ spansFrom text entries fuel = .ok spans ∧
      (sortBy AddedSpan.start id spans).find? (fun x => c ≤ x.start) = some sp ∧
      Returns (b.tokenizeIn entries split id text) (b.tokenizeFrom split text 0
        (keep AddedSpan.start AddedSpan.stop 0 (sortBy AddedSpan.start id spans))) := by
  obtain ⟨e, he, hfound, hlen, hid⟩ := hsp.mem
  have hperm : (e :: b.addedTokens.erase e).Perm b.addedTokens := (List.perm_cons_erase he).symm
  obtain ⟨fuel, spans, hspans, hreturns⟩ := exists_spansFrom split hperm hne htext id
  have hlists := lists_spansFrom hperm hspans id
  refine ⟨_, spans, fuel, hperm, hspans, ?_, hreturns⟩
  obtain ⟨x, hx⟩ := hlists.exists_find? hsp
  have hnext := hlists.next_of_find? hx
  have hstart : x.start = sp.start :=
    Nat.le_antisymm (hnext.first sp hsp.mem hsp.le) (hsp.first x hnext.mem hnext.le)
  -- `x` is the first of the spans that start there, before and after the sort
  have hfilter : ((sortBy AddedSpan.start id spans).filter fun y => y.start = sp.start).head? =
      some x := by
    obtain ⟨-, before, after, heq, hbefore⟩ := List.find?_eq_some_iff_append.mp hx
    have hnil : before.filter (fun y => y.start = sp.start) = [] := by
      rw [List.filter_eq_nil_iff]
      intro y hy
      have hlt : ¬ c ≤ y.start := by simpa using hbefore y hy
      have hle := hsp.le
      simp only [decide_eq_true_eq]
      omega
    rw [heq, List.filter_append, hnil, List.nil_append, List.filter_cons_of_pos (by simpa using hstart)]
    rfl
  rw [sortBy_id, filter_sort] at hfilter
  obtain ⟨found, more, rfl, hmem, -⟩ := spansFrom_cons hspans
  have hp : sp.start ∈ found := (hmem _).mpr hfound
  rw [List.filter_append, List.head?_append] at hfilter
  cases hhead : (((found.map fun pos => (⟨pos, e.1.length, e.2⟩ : AddedSpan)).filter
      fun y => y.start = sp.start).head?) with
  | none =>
    have hnil := List.filter_eq_nil_iff.mp (List.head?_eq_none_iff.mp hhead)
    have hnot := hnil _ (List.mem_map_of_mem hp)
    simp at hnot
  | some y =>
    rw [hhead, Option.some_or] at hfilter
    obtain rfl := Option.some.inj hfilter
    obtain ⟨hy, -⟩ := List.mem_filter.mp (List.mem_of_mem_head? hhead)
    obtain ⟨pos, -, rfl⟩ := List.mem_map.mp hy
    rw [hx]
    simp only at hstart
    rw [hstart, ← hlen, ← hid]

/-- A token that is in front of the text is found there. -/
theorem found_zero {tok : List UInt8} (h : tok <+: text) : Found tok text 0 0 := by
  have hfirst : FirstAt tok (text.drop 0) 0 := ⟨Nat.zero_le _, h, nofun⟩
  refine .here ?_
  rw [findFrom, if_pos (Nat.zero_le _), findSub_eq_some_iff.mpr hfirst]
  rfl

/-- Two tokens of which one starts with the other make a fork. -/
theorem not_forkless_of_prefix {e e' : List UInt8 × ℕ} (he : e ∈ b.addedTokens)
    (he' : e' ∈ b.addedTokens) (hne : e ≠ e') (hpre : e.1 <+: text) (hpre' : e'.1 <+: text) :
    ¬ Forkless AddedSpan.start AddedSpan.stop (b.IsSpan text) := by
  intro h
  have hnext : ∀ {e : List UInt8 × ℕ}, e ∈ b.addedTokens → e.1 <+: text →
      Next AddedSpan.start (b.IsSpan text) 0 ⟨0, e.1.length, e.2⟩ := fun he hpre =>
    ⟨⟨_, he, found_zero hpre, rfl, rfl⟩, le_rfl, fun _ _ _ => Nat.zero_le _⟩
  have heq := h 0 .zero _ _ (hnext he hpre) (hnext he' hpre')
  exact hne (eq_of_id he he' (AddedSpan.mk.inj heq).2.2)

/-- A vocabulary of `n` tokens, with an empty one behind them. -/
def withEmpty (n : ℕ) : Gpt2Bpe := ⟨List.replicate n [97] ++ [[]], []⟩

theorem lastIndexFrom_append_singleton (s : List UInt8) (i : ℕ) (l : List (List UInt8)) :
    lastIndexFrom s i (l ++ [s]) = some (i + l.length) := by
  induction l generalizing i with
  | nil => simp [lastIndexFrom]
  | cons t l ih =>
    rw [List.cons_append, lastIndexFrom, ih, Option.some_or, List.length_cons, Nat.add_right_comm,
      Nat.add_assoc]

theorem mem_addedTokens_withEmpty {n : ℕ} (h : 50257 ≤ n) :
    ([], n) ∈ (withEmpty n).addedTokens := by
  have hid : (withEmpty n).tokenToId [] = some n := by
    rw [tokenToId, withEmpty, lastIndexFrom_append_singleton, List.length_replicate, Nat.zero_add]
  have htok : (withEmpty n).idToToken[n]? = some [] := getElem?_of_tokenToId hid
  rw [addedTokens, List.mem_filter, decide_eq_true_eq]
  exact ⟨List.mem_zipIdx_iff_getElem?.mpr htok, h, hid⟩

end Gpt2Bpe

end Chatterbox

end WhisperCpp
