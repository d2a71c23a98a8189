import WhisperCpp.Chatterbox.Gpt2Bpe
import WhisperCpp.Chatterbox.MtlSpecials
import WhisperCpp.Library.BpeRounds

/-!
# The merge loops and the reference

Both tokenizers merge one pair at a time. The reference merges all occurrences of the pair with the
lowest rank in a round. They differ where a part of a merge is also the result of a later one: the
join may then be taken by a pair of lower rank before the other occurrences are merged.

A merge is a string with a space between its parts. There are fewer than `2 ^ 31` merges.

## Main definitions

* `written`, `mergeRank` — a merge as a string, and the rank of a pair
* `referenceBpe` — the reference
* `mergesOf` — merges by their parts
* `PartsKnown` — the parts of a merge are characters or results of earlier merges
* `LayeredMerges` — no part of a merge is the result of it or of a later one

## Main results

* `mergeLoops_eq_reference` — the two loops and the reference
-/

namespace WhisperCpp

namespace Chatterbox

open Bpe

/-- A merge as a string. -/
def written (left right : List UInt8) : List UInt8 := left ++ [32] ++ right

/-- The rank of a pair is the last index of its merge. -/
def mergeRank (merges : List (List UInt8)) (left right : List UInt8) : Option ℤ :=
  (lastIndexFrom (written left right) 0 merges).map Int.ofNat

/-- The reference, for the symbols of a word. -/
def referenceBpe (merges symbols : List (List UInt8)) : List (List UInt8) :=
  mergeRounds (mergeRank merges) symbols

/-- The parts of every merge are characters or results of earlier merges. -/
def PartsKnown (merges : List (List UInt8)) : Prop :=
  ∀ (j : ℕ) (u v : List UInt8), merges[j]? = some (written u v) → ∀ part ∈ [u, v], splitChars part = [part] ∨
    ∃ (i : ℕ) (x y : List UInt8), i < j ∧ merges[i]? = some (written x y) ∧ x ++ y = part

/-- What a merge gives is a part of later merges only. -/
def LayeredMerges (merges : List (List UInt8)) : Prop :=
  ∀ (i j : ℕ) (x y u v : List UInt8), merges[i]? = some (written x y) → merges[j]? = some (written u v) →
    x ++ y = u ∨ x ++ y = v → i < j

section Merges

variable {merges : List (List UInt8)} {left right x y u v : List UInt8} {r : ℤ}

/-- Without other spaces, a string is one merge. -/
theorem written_inj (hleft : 32 ∉ left) (hright : 32 ∉ right)
    (h : written u v = written left right) : u = left ∧ v = right := by
  have hcount : u.count 32 + 1 + v.count 32 = left.count 32 + 1 + right.count 32 := by
    have hcount := congrArg (List.count 32) h
    simp only [written, List.count_append, List.count_singleton_self] at hcount
    exact hcount
  have hu : 32 ∉ u := by
    rw [← List.count_eq_zero] at hleft hright ⊢
    omega
  have htake : ∀ {l r : List UInt8}, 32 ∉ l → (written l r).takeWhile (· != 32) = l := by
    intro l r hl
    have hall : ∀ c ∈ l, (c != 32) = true := fun c hc => by
      simpa using ne_of_mem_of_not_mem hc hl
    rw [written, List.append_assoc, List.takeWhile_append_of_pos hall]
    simp
  have heq : u = left := by rw [← htake hu (r := v), h, htake hleft]
  subst heq
  exact ⟨rfl, List.append_cancel_left h⟩

theorem getElem?_of_mergeRank (h : mergeRank merges left right = some r) :
    ∃ i : ℕ, r = i ∧ merges[i]? = some (written left right) := by
  obtain ⟨i, hi, rfl⟩ := Option.map_eq_some_iff.mp h
  obtain ⟨k, rfl, hk⟩ := Gpt2Bpe.getElem?_of_lastIndexFrom hi
  exact ⟨0 + k, rfl, by rwa [Nat.zero_add]⟩

/-- Pairs of the same rank are the same merge. -/
theorem written_eq_of_mergeRank (h : mergeRank merges x y = some r)
    (h' : mergeRank merges u v = some r) : written x y = written u v := by
  obtain ⟨i, rfl, hi⟩ := getElem?_of_mergeRank h
  obtain ⟨j, hj, hj'⟩ := getElem?_of_mergeRank h'
  obtain rfl := Int.ofNat_inj.mp hj
  exact Option.some.inj (hi.symm.trans hj')

theorem LayeredMerges.layered (h : LayeredMerges merges) : Layered (mergeRank merges) := by
  intro x y u v r s hr hs hjoin
  obtain ⟨i, rfl, hi⟩ := getElem?_of_mergeRank hr
  obtain ⟨j, rfl, hj⟩ := getElem?_of_mergeRank hs
  exact Int.ofNat_lt.mpr (h i j x y u v hi hj hjoin)

theorem mergeRank_lt (h : merges.length < 2 ^ 31) (hr : mergeRank merges x y = some r) :
    r < 2 ^ 31 - 1 := by
  obtain ⟨i, rfl, hi⟩ := getElem?_of_mergeRank hr
  obtain ⟨hlt, -⟩ := List.getElem?_eq_some_iff.mp hi
  omega

/-- The ranks of the multilingual tokenizer are those of Turbo. -/
theorem lookup_ranksOf (merges : List (List UInt8)) (key : List UInt8) :
    (ranksOf (merges.map .str)).lookup key = (lastIndexFrom key 0 merges).map Int.ofNat := by
  have hfrom : ∀ n, ((((merges.map Json.str).zipIdx n).filterMap fun e =>
      e.1.asStr.map fun str => (str, (e.2 : ℤ))).reverse).lookup key =
        (lastIndexFrom key n merges).map Int.ofNat := by
    induction merges with
    | nil => exact fun n => rfl
    | cons m merges ih =>
      intro n
      rw [List.map_cons, List.zipIdx_cons, List.filterMap_cons_some (by rfl), List.reverse_cons,
        List.lookup_append, ih, lastIndexFrom]
      cases lastIndexFrom key (n + 1) merges with
      | some i => rfl
      | none =>
        by_cases hm : m = key
        · simp [hm]
        · have hne : key ≠ m := Ne.symm hm
          simp [hm, hne]
  exact hfrom 0

/-! ### Merges by their parts -/

/-- The merges with the given parts. -/
def mergesOf (parts : List (List UInt8 × List UInt8)) : List (List UInt8) :=
  parts.map fun m => written m.1 m.2

variable {parts : List (List UInt8 × List UInt8)}

/-- Where the parts have no spaces, a merge has no others. -/
theorem getElem_of_written (hplain : ∀ m ∈ parts, 32 ∉ m.1 ∧ 32 ∉ m.2) {j : ℕ}
    (hj : (mergesOf parts)[j]? = some (written u v)) :
    ∃ h : j < parts.length, parts[j] = (u, v) := by
  rw [mergesOf, List.getElem?_map, Option.map_eq_some_iff] at hj
  obtain ⟨m, hm, hwritten⟩ := hj
  obtain ⟨h, rfl⟩ := List.getElem?_eq_some_iff.mp hm
  obtain ⟨hleft, hright⟩ := hplain _ (List.getElem_mem h)
  obtain ⟨rfl, rfl⟩ := written_inj hleft hright hwritten.symm
  exact ⟨h, rfl⟩

theorem layeredMerges_mergesOf (hplain : ∀ m ∈ parts, 32 ∉ m.1 ∧ 32 ∉ m.2)
    (h : ∀ i j : Fin parts.length,
      parts[i].1 ++ parts[i].2 = parts[j].1 ∨ parts[i].1 ++ parts[i].2 = parts[j].2 → i < j) :
    LayeredMerges (mergesOf parts) := by
  intro i j x y u v hi hj hjoin
  obtain ⟨hlt, hxy⟩ := getElem_of_written hplain hi
  obtain ⟨hlt', huv⟩ := getElem_of_written hplain hj
  refine h ⟨i, hlt⟩ ⟨j, hlt'⟩ ?_
  simpa [hxy, huv] using hjoin

theorem partsKnown_mergesOf (hplain : ∀ m ∈ parts, 32 ∉ m.1 ∧ 32 ∉ m.2)
    (h : ∀ j : Fin parts.length, ∀ part ∈ [parts[j].1, parts[j].2], splitChars part = [part] ∨
      ∃ i : Fin parts.length, i < j ∧ parts[i].1 ++ parts[i].2 = part) :
    PartsKnown (mergesOf parts) := by
  intro j u v hj part hpart
  obtain ⟨hlt, huv⟩ := getElem_of_written hplain hj
  refine (h ⟨j, hlt⟩ part (by simpa [huv] using hpart)).imp_right ?_
  rintro ⟨i, hij, hjoin⟩
  refine ⟨i, parts[i].1, parts[i].2, hij, ?_, hjoin⟩
  rw [mergesOf, List.getElem?_map, List.getElem?_eq_getElem i.isLt]
  rfl

end Merges

/-! ### Words -/

section Words

variable {cps : List ℕ}

theorem charLength_eq (c : UInt8) : charLength c = (utf8Lead c).elim 0 Prod.snd + 1 := by
  rw [charLength, utf8Lead]
  split_ifs <;> rfl

/-- Both tokenizers take the encoded code points of a word for its characters. -/
theorem splitChars_cpsToUtf8 (h : ∀ cp ∈ cps, cp < 0x200000) :
    splitChars (cpsToUtf8 cps) = cps.map utf8Append := by
  induction cps with
  | nil => rw [cpsToUtf8, List.flatMap_nil, splitChars, List.map_nil]
  | cons cp cps ih =>
    obtain ⟨hcp, hcps⟩ := List.forall_mem_cons.mp h
    obtain ⟨b0, tail, heq, hlead, -⟩ := exists_utf8Append hcp
    rw [cpsToUtf8, List.flatMap_cons, heq, List.cons_append, splitChars, charLength_eq, hlead,
      Nat.add_sub_cancel, List.take_left, List.drop_left, List.map_cons, heq]
    exact congrArg _ (ih hcps)

theorem utf8Chars_cpsToUtf8 (h : ∀ cp ∈ cps, cp < 0x200000) :
    utf8Chars (cpsToUtf8 cps) = cps.map utf8Append := by
  induction cps with
  | nil => rw [cpsToUtf8, List.flatMap_nil, utf8Chars, List.map_nil]
  | cons cp cps ih =>
    obtain ⟨hcp, hcps⟩ := List.forall_mem_cons.mp h
    obtain ⟨b0, tail, heq, -, hdecode⟩ := exists_utf8Append hcp
    rw [cpsToUtf8, List.flatMap_cons, heq, List.cons_append, utf8Chars, hdecode, List.take_left,
      List.drop_left, List.map_cons, heq]
    exact congrArg _ (ih hcps)

/-- The words that Turbo merges are encoded code points. -/
theorem bytesToUnicodeStr_eq (raw : List UInt8) :
    bytesToUnicodeStr raw = cpsToUtf8 (raw.map fun c => codePointOf c.toNat) := by
  rw [bytesToUnicodeStr, cpsToUtf8, List.flatMap_map]
  rfl

/-- So are the words of the multilingual tokenizer. -/
theorem mem_wordsOf {s word : List UInt8} (h : word ∈ wordsOf s) :
    ∃ cps, word = cpsToUtf8 cps ∧ ∀ cp ∈ cps, cp < 0x200000 := by
  obtain ⟨cps, hcps, rfl⟩ := List.mem_map.mp h
  exact ⟨cps, rfl, fun cp hcp => lt_of_mem_utf8ToCps (infix_of_mem_chunks hcps |>.subset hcp)⟩

end Words

/-- **The two merge loops** give the same parts of every word of encoded code points, and with layered
merges each gives what the reference gives, for every word. -/
theorem mergeLoops_eq_reference {merges : List (List UInt8)} (hlen : merges.length < 2 ^ 31)
    {b : Gpt2Bpe} (hb : b.merges = merges) {t : MtlTokenizer}
    (ht : t.bpeRanks = ranksOf (merges.map .str)) :
    (LayeredMerges merges → ∀ word, b.bpeMerge word = referenceBpe merges (splitChars word) ∧
        t.partsOf word = referenceBpe merges (utf8Chars word)) ∧
      ∀ cps : List ℕ, (∀ cp ∈ cps, cp < 0x200000) →
        b.bpeMerge (cpsToUtf8 cps) = t.partsOf (cpsToUtf8 cps) := by
  have hrank : b.findRank = mergeRank merges := by rw [← hb]; rfl
  have hrank' : (fun left right => t.bpeRanks.lookup (left ++ [32] ++ right)) = mergeRank merges := by
    funext left right
    rw [ht, lookup_ranksOf, mergeRank, written]
  refine ⟨fun hlayered word => ?_, fun cps hcps => ?_⟩
  · have hloop := mergeAll_eq_mergeRounds hlayered.layered fun x y r hr => mergeRank_lt hlen hr
    rw [Gpt2Bpe.bpeMerge, MtlTokenizer.partsOf, hrank, hrank', hloop, hloop, referenceBpe,
      referenceBpe]
    exact ⟨rfl, rfl⟩
  · rw [Gpt2Bpe.bpeMerge, MtlTokenizer.partsOf, hrank, hrank', splitChars_cpsToUtf8 hcps,
      utf8Chars_cpsToUtf8 hcps]

/-- Of `aab`, with the merge of `a` and `b`. -/
theorem mergeLoops_aab : Gpt2Bpe.withToken.bpeMerge [97, 97, 98] =
    referenceBpe [[97, 32, 98]] (splitChars [97, 97, 98]) := by
  have hlayered : LayeredMerges (mergesOf [([97], [98])]) := layeredMerges_mergesOf (by decide)
    (by decide)
  have ht : ({ MtlTokenizer.negative with bpeRanks := [([97, 32, 98], 0)] } : MtlTokenizer).bpeRanks =
      ranksOf ((mergesOf [([97], [98])]).map .str) := by decide
  exact ((mergeLoops_eq_reference (by decide) rfl ht).1 hlayered _).1

/-- `b c`, `a b`, `ab c`, `abc a` and `a bc`: the result of the last merge is a part of the one
before. -/
def twoWays : List (List UInt8 × List UInt8) :=
  [([98], [99]), ([97], [98]), ([97, 98], [99]), ([97, 98, 99], [97]), ([97], [98, 99])]

theorem partsKnown_twoWays : PartsKnown (mergesOf twoWays) := by
  refine partsKnown_mergesOf (by decide) ?_
  decide +kernel

/-- Of `abcabc` the loop merges `abc a` before the second `a bc`. -/
theorem not_forall_mergeLoops : ¬ ∀ (merges : List (List UInt8)) (b : Gpt2Bpe) (word : List UInt8),
    PartsKnown merges → b.merges = merges →
    b.bpeMerge word = referenceBpe merges (splitChars word) := by
  intro h
  have heq := h (mergesOf twoWays) ⟨[], mergesOf twoWays⟩ [97, 98, 99, 97, 98, 99] partsKnown_twoWays
    rfl
  have hloop : (⟨[], mergesOf twoWays⟩ : Gpt2Bpe).bpeMerge [97, 98, 99, 97, 98, 99] =
      [[97, 98, 99, 97], [98, 99]] := by decide +kernel
  have hreference : referenceBpe (mergesOf twoWays) (splitChars [97, 98, 99, 97, 98, 99]) =
      [[97, 98, 99], [97, 98, 99]] := by decide +kernel
  rw [hloop, hreference] at heq
  exact absurd heq (by decide)

end Chatterbox

end WhisperCpp
