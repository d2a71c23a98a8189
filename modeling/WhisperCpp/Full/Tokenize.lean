import WhisperCpp.Library.Matching
import WhisperCpp.Loader.Model

/-!
# Tokenizing a text

`tokenize` divides a text into words by a regular expression and covers each word from the left with
the longest tokens of the vocabulary. The expression has a match in front of every byte, whatever
the classes of the locale are, so the words are the text. The length of a word is kept in an `int`.

## Main definitions

* `TokenMaps` — the maps of the vocabulary
* `pat`, `textWords`, `TokenMaps.tokenize` — the tokenizer
* `LongestFirst` — the longest token, and so on
* `Reproduces` — the tokens give the text again, and each one is the longest

## Main results

* `nodup_readVocab` — what is loaded are such maps
* `reproduces_iff` — the tokens reproduce a text whose words an `int` can measure
-/

namespace WhisperCpp

namespace Full

open Loader (wrap32)
open Matching (Expr)

/-- The classes of characters of a locale. -/
structure Ctype where
  alpha : UInt8 → Bool
  digit : UInt8 → Bool
  space : UInt8 → Bool

/-- The locale `C`. -/
def cLocale : Ctype where
  alpha c := (65 ≤ c && c ≤ 90) || (97 ≤ c && c ≤ 122)
  digit c := 48 ≤ c && c ≤ 57
  space c := (9 ≤ c && c ≤ 13) || c == 32

/-- A part of the pattern that is text. -/
def lit (s : List UInt8) : Expr UInt8 := .literal (· == ·) s

/-- An optional space, and then as much as there is of a class. -/
def spaced (p : UInt8 → Bool) : Expr UInt8 := .seq (.opt (lit [32])) (.many p)

/-- The pattern: `'s|'t|'re|'ve|'m|'ll|'d`, ` ?[[:alpha:]]+`, ` ?[[:digit:]]+`,
` ?[^\s[:alpha:][:digit:]]+`, `\s+(?!\S)` and `\s+`, in this order. -/
def pat (ct : Ctype) : Expr UInt8 :=
  .alt (lit [39, 115]) <| .alt (lit [39, 116]) <| .alt (lit [39, 114, 101]) <|
  .alt (lit [39, 118, 101]) <| .alt (lit [39, 109]) <| .alt (lit [39, 108, 108]) <|
  .alt (lit [39, 100]) <|
  .alt (spaced ct.alpha) <| .alt (spaced ct.digit) <|
  .alt (spaced fun c => !(ct.space c || ct.alpha c || ct.digit c)) <|
  .alt (.seq (.many ct.space) (.notAhead (.char fun c => !ct.space c))) (.many ct.space)

theorem nullable_pat (ct : Ctype) : (pat ct).nullable = false := rfl

/-- The words. There are no groups, so every match gives one. -/
def textWords (ct : Ctype) (text : List UInt8) : List (List UInt8) :=
  (pat ct).pieces (nullable_pat ct) text

/-- `token_to_id` and `id_to_token`, as their entries in the order in which they are stored. -/
structure TokenMaps where
  entries : List (ℤ × List UInt8)
  nodup : (entries.map Prod.fst).Nodup

namespace TokenMaps

variable (v : TokenMaps)

/-- A later entry replaces an earlier one. -/
def tokenToId (s : List UInt8) : Option ℤ :=
  (v.entries.reverse.find? fun e => e.2 = s).map Prod.fst

def idToToken (id : ℤ) : Option (List UInt8) :=
  (v.entries.reverse.find? fun e => e.1 = id).map Prod.snd

/-- The loop over `j`: the longest token between `i` and `j`, with its end. -/
def lookFrom (word : List UInt8) (i : ℕ) : ℕ → Option (ℤ × ℕ)
  | 0 => none
  | j + 1 =>
    if i < j + 1 then
      match v.tokenToId ((word.drop i).take (j + 1 - i)) with
      | some id => some (id, j + 1)
      | none => lookFrom word i j
    else none

theorem lt_of_lookFrom {v : TokenMaps} {word : List UInt8} {i j e : ℕ} {id : ℤ}
    (h : v.lookFrom word i j = some (id, e)) : i < e ∧ e ≤ j := by
  induction j with
  | zero => cases h
  | succ j ih =>
    rw [lookFrom] at h
    split at h
    · next hlt =>
      split at h
      · obtain ⟨-, rfl⟩ := Prod.mk.inj (Option.some.inj h)
        exact ⟨hlt, le_rfl⟩
      · exact ⟨(ih h).1, (ih h).2.trans (Nat.le_succ j)⟩
    · cases h

/-- The tokens of a word from `i` on. -/
def tokenizeFrom (word : List UInt8) (n i : ℕ) : List ℤ :=
  if _hi : i < n then
    match _h : v.lookFrom word i n with
    | some (id, j) => id :: tokenizeFrom word n j
    | none => tokenizeFrom word n (i + 1) -- `unknown token`
  else []
termination_by n - i
decreasing_by
  · have := lt_of_lookFrom _h
    omega
  · omega

/-- `int n = word.size()`; no byte is before a negative `n`. -/
def wordSize (word : List UInt8) : ℕ := (wrap32 word.length).toNat

def tokenizeWord (word : List UInt8) : List ℤ :=
  if word.isEmpty then [] else v.tokenizeFrom word (wordSize word) 0

/-- `tokenize`. -/
def tokenize (ct : Ctype) (text : List UInt8) : List ℤ :=
  (textWords ct text).flatMap v.tokenizeWord

/-- The strings of tokens, joined. -/
def joined : List ℤ → Option (List UInt8)
  | [] => some []
  | id :: ids => do
    let s ← v.idToToken id
    let rest ← joined ids
    pure (s ++ rest)

end TokenMaps

/-! ### The words -/

section Words

variable {ct : Ctype} {c : UInt8} {text : List UInt8}

theorem rests_spaced_ne_nil {p : UInt8 → Bool} (hc : p c = true) (s : List UInt8) :
    (spaced p).rests (c :: s) ≠ [] :=
  Expr.rests_opt_seq (Expr.rests_many_ne_nil hc)

/-- **The pattern matches in front of every byte**: it is in a class, or in the class of
all others. -/
theorem covers_pat (ct : Ctype) : (pat ct).Covers := by
  intro c s
  iterate 7 apply Expr.rests_alt_right
  by_cases halpha : ct.alpha c = true
  · exact Expr.rests_alt_left (rests_spaced_ne_nil halpha s)
  apply Expr.rests_alt_right
  by_cases hdigit : ct.digit c = true
  · exact Expr.rests_alt_left (rests_spaced_ne_nil hdigit s)
  apply Expr.rests_alt_right
  by_cases hspace : ct.space c = true
  · exact Expr.rests_alt_right (Expr.rests_alt_right (Expr.rests_many_ne_nil hspace))
  · refine Expr.rests_alt_left (rests_spaced_ne_nil ?_ s)
    simp [halpha, hdigit, hspace]

/-- The words are the text. -/
theorem flatten_textWords (ct : Ctype) (text : List UInt8) : (textWords ct text).flatten = text :=
  Expr.flatten_pieces (covers_pat ct) text

theorem length_le_of_mem_textWords {word : List UInt8} (h : word ∈ textWords ct text) :
    word.length ≤ text.length := by
  have hsub := List.sublist_flatten_of_mem h
  rw [flatten_textWords] at hsub
  exact hsub.length_le

theorem rests_lit_of_ne {a : UInt8} {s s' : List UInt8} (hne : a ≠ c) :
    (lit (a :: s')).rests (c :: s) = [] := by
  have hchar : (Expr.char (a == ·)).rests (c :: s) = [] := by
    rw [Expr.rests, if_neg (by simpa using hne)]
  rw [lit, Expr.literal, Expr.rests, hchar, List.flatMap_nil]

/-- A text of letters is one word. -/
theorem textWords_of_letters {s : List UInt8} (hquote : c ≠ 39) (hblank : c ≠ 32)
    (hall : ∀ a ∈ c :: s, ct.alpha a = true) : textWords ct (c :: s) = [c :: s] := by
  obtain ⟨hc, hs⟩ := List.forall_mem_cons.mp hall
  have hspaced : (spaced ct.alpha).rests (c :: s) = Expr.manyRests ct.alpha (c :: s) := by
    rw [spaced, Expr.rests, Expr.rests, rests_lit_of_ne hblank.symm, List.nil_append,
      List.flatMap_singleton]
    rfl
  have hhead : ((pat ct).rests (c :: s)).head? = some [] := by
    rw [pat]
    iterate 7 rw [Expr.rests, rests_lit_of_ne hquote.symm, List.nil_append]
    rw [Expr.rests, hspaced, List.head?_append, Expr.head?_manyRests hc,
      List.dropWhile_eq_nil_iff.mpr hs, Option.some_or]
  have hfront : (pat ct).front (c :: s) = some (c :: s, []) := by
    rw [Expr.front, hhead, Option.map_some, List.length_nil, Nat.sub_zero, List.take_length]
  rw [textWords, Expr.pieces_of_front hfront, Expr.pieces_nil]

end Words

/-! ### The maps -/

namespace TokenMaps

variable {v : TokenMaps} {s : List UInt8} {id : ℤ}

/-- The id of a string is the id of this string. -/
theorem idToToken_of_tokenToId (h : v.tokenToId s = some id) : v.idToToken id = some s := by
  obtain ⟨e, he, rfl⟩ := Option.map_eq_some_iff.mp h
  have hmem : e ∈ v.entries := List.mem_reverse.mp (List.mem_of_find?_eq_some he)
  obtain rfl : e.2 = s := by simpa using List.find?_some he
  cases hfind : v.entries.reverse.find? fun e' => e'.1 = e.1 with
  | none =>
    have hnone := List.find?_eq_none.mp hfind e (List.mem_reverse.mpr hmem)
    simp at hnone
  | some e' =>
    have hmem' : e' ∈ v.entries := List.mem_reverse.mp (List.mem_of_find?_eq_some hfind)
    have hfst : e'.1 = e.1 := by simpa using List.find?_some hfind
    rw [idToToken, hfind, List.inj_on_of_nodup_map v.nodup hmem' hmem hfst]
    rfl

end TokenMaps

/-! ### The vocabulary of a file -/

section Load

open Loader (Env Load readWords readVocab)
open Reading (run of_run_bind_ok)

variable {σ : Type} {src : ℕ → σ → List UInt8 × σ} {st : σ}

theorem length_readWords {env : Env} {n i : ℕ} {tmp : List UInt8} {words : List (List UInt8)}
    (h : (run src (readWords env n i tmp) st).1 = .ok words) : words.length = n := by
  induction n generalizing i tmp words st with
  | zero =>
    cases h
    rfl
  | succ n ih =>
    have hword : ∀ {tmp word : List UInt8} {st : σ}, (run src (do
        let words ← readWords env n (i + 1) tmp
        pure (word :: words)) st).1 = .ok words → words.length = n + 1 := by
      intro tmp word st h
      obtain ⟨words', st', hrun, h⟩ := of_run_bind_ok h
      cases h
      rw [List.length_cons, ih (congrArg Prod.fst hrun)]
    rw [readWords] at h
    obtain ⟨len, st', -, h⟩ := of_run_bind_ok h
    split at h
    · obtain ⟨bytes, st', -, h⟩ := of_run_bind_ok h
      exact hword h
    · exact hword h

theorem ok_of_run_lift {β : Type} {x : Except Fault β} {a : β} {st' : σ}
    (h : run src (Loader.lift x) st = (.ok a, st')) : x = .ok a := by
  cases x with
  | error e => cases h
  | ok b =>
    cases h
    rfl

theorem map_fst_of_mapM {β : Type} {f : ℤ → Except Fault (ℤ × β)} {g : ℤ → ℤ}
    (hf : ∀ k y, f k = .ok y → y.1 = g k) {l : List ℤ} {out : List (ℤ × β)}
    (h : l.mapM f = .ok out) : out.map Prod.fst = l.map g := by
  induction l generalizing out with
  | nil =>
    cases h
    rfl
  | cons k l ih =>
    rw [List.mapM_cons] at h
    cases hk : f k with
    | error e =>
      rw [hk] at h
      cases h
    | ok y =>
      cases hl : l.mapM f with
      | error e =>
        rw [hk, hl] at h
        cases h
      | ok rest =>
        rw [hk, hl] at h
        cases h
        rw [List.map_cons, List.map_cons, hf k y hk, ih hl]

theorem map_fst_zipIdx_words (words : List (List UInt8)) :
    (words.zipIdx.map fun (word, i) => ((i : ℤ), word)).map Prod.fst =
      (List.range words.length).map (Nat.cast : ℕ → ℤ) := by
  rw [List.map_map, List.range_eq_range', ← List.zipIdx_map_snd 0 words, List.map_map]
  rfl

/-- **What is loaded** is stored under different ids. -/
theorem nodup_readVocab {env : Env} {hp : Loader.Hparams} {vocab : List (ℤ × List UInt8)}
    (h : (run src (readVocab env hp) st).1 = .ok vocab) : (vocab.map Prod.fst).Nodup := by
  obtain ⟨nVocab, st₁, -, h⟩ := of_run_bind_ok h
  obtain ⟨words, st₂, hwords, h⟩ := of_run_bind_ok h
  obtain ⟨extra, st₃, hextra, h⟩ := of_run_bind_ok h
  cases h
  have hlen := length_readWords (congrArg Prod.fst hwords)
  have hids := map_fst_zipIdx_words words
  have hmore : extra.map Prod.fst = ((List.range (hp.nVocab - nVocab).toNat).map
      (Nat.cast : ℕ → ℤ)).map fun k => nVocab + k := by
    have hcast : (List.range (hp.nVocab - nVocab).toNat).map (Nat.cast : ℕ → ℤ) = _ :=
      List.map_eq_flatMap
    rw [hcast]
    refine map_fst_of_mapM (fun k y hk => ?_) (ok_of_run_lift hextra)
    cases hword : Loader.extraWord hp.nVocab (nVocab + k) with
    | error e =>
      rw [hword] at hk
      cases hk
    | ok word =>
      rw [hword] at hk
      cases hk
      rfl
  rw [List.map_append, hids, hmore, List.nodup_append']
  refine ⟨?_, ?_, ?_⟩
  · exact List.Nodup.map Nat.cast_injective List.nodup_range
  · exact List.Nodup.map (add_right_injective nVocab)
      (List.Nodup.map Nat.cast_injective List.nodup_range)
  · intro x hx hx'
    obtain ⟨i, hi, rfl⟩ := List.mem_map.mp hx
    obtain ⟨y, hy, heq⟩ := List.mem_map.mp hx'
    obtain ⟨k, -, rfl⟩ := List.mem_map.mp hy
    have hlt := List.mem_range.mp hi
    omega

end Load

/-! ### The longest tokens -/

section Longest

variable {v : TokenMaps} {word rest : List UInt8} {ids : List ℤ}

/-- Each id is the longest token at the front of what remains of a word. -/
inductive LongestFirst (v : TokenMaps) : List UInt8 → List ℤ → Prop where
  | nil : LongestFirst v [] []
  | cons {rest s : List UInt8} {id : ℤ} {ids : List ℤ} (hid : v.tokenToId s = some id)
      (hne : s ≠ []) (hpre : s <+: rest)
      (hlongest : ∀ s', (v.tokenToId s').isSome → s' <+: rest → s'.length ≤ s.length)
      (hids : LongestFirst v (rest.drop s.length) ids) : LongestFirst v rest (id :: ids)

theorem LongestFirst.joined_eq (h : LongestFirst v rest ids) : v.joined ids = some rest := by
  induction h with
  | nil => rfl
  | @cons rest s id ids hid hne hpre hlongest hids ih =>
    rw [TokenMaps.joined, TokenMaps.idToToken_of_tokenToId hid, ih]
    obtain ⟨more, rfl⟩ := hpre
    rw [List.drop_left]
    rfl

theorem joined_append {ids' : List ℤ} {s s' : List UInt8} (h : v.joined ids = some s)
    (h' : v.joined ids' = some s') : v.joined (ids ++ ids') = some (s ++ s') := by
  induction ids generalizing s with
  | nil =>
    obtain rfl := Option.some.inj h
    exact h'
  | cons id ids ih =>
    rw [TokenMaps.joined] at h
    obtain ⟨t, ht, h⟩ := Option.bind_eq_some_iff.mp h
    obtain ⟨u, hu, h⟩ := Option.bind_eq_some_iff.mp h
    obtain rfl := Option.some.inj h
    rw [List.cons_append, TokenMaps.joined, ht, ih hu, List.append_assoc]
    rfl

/-- What the loop over `j` finds is the longest token, if a byte is one. -/
theorem lookFrom_spec (hbytes : ∀ c, (v.tokenToId [c]).isSome) {i n : ℕ} (hi : i < n)
    (hn : n ≤ word.length) : ∃ id j, v.lookFrom word i n = some (id, j) ∧ i < j ∧ j ≤ n ∧
      v.tokenToId ((word.drop i).take (j - i)) = some id ∧
      ∀ k, j < k → k ≤ n → v.tokenToId ((word.drop i).take (k - i)) = none := by
  induction n, hi using Nat.le_induction with
  | base =>
    have hdrop : (word.drop i).take 1 = [word.get ⟨i, hn⟩] := by
      rw [List.drop_eq_getElem_cons hn]
      rfl
    obtain ⟨id, hid⟩ := Option.isSome_iff_exists.mp (hbytes (word.get ⟨i, hn⟩))
    rw [← hdrop] at hid
    refine ⟨id, i + 1, ?_, Nat.lt_succ_self i, le_rfl, ?_, fun k hk hkn => absurd hkn (by omega)⟩
    · rw [TokenMaps.lookFrom, if_pos (Nat.lt_succ_self i), Nat.add_sub_cancel_left, hid]
    · rw [Nat.add_sub_cancel_left, hid]
  | succ n hin ih =>
    rw [TokenMaps.lookFrom, if_pos (Nat.lt_succ_of_lt hin)]
    cases hfind : v.tokenToId ((word.drop i).take (n + 1 - i)) with
    | some id =>
      exact ⟨id, n + 1, rfl, Nat.lt_succ_of_lt hin, le_rfl, hfind,
        fun k hk hkn => absurd hkn (by omega)⟩
    | none =>
      obtain ⟨id, j, hlook, hij, hjn, hid, hmax⟩ := ih (Nat.le_of_succ_le hn)
      refine ⟨id, j, hlook, hij, hjn.trans (Nat.le_succ n), hid, fun k hk hkn => ?_⟩
      rcases Nat.le_succ_iff.mp hkn with hkn | rfl
      · exact hmax k hk hkn
      · exact hfind

/-- **The ids of a word** are the longest tokens of its first `n` bytes. -/
theorem longestFirst_tokenizeFrom (hbytes : ∀ c, (v.tokenToId [c]).isSome) {n : ℕ}
    (hn : n ≤ word.length) (i : ℕ) :
    LongestFirst v ((word.take n).drop i) (v.tokenizeFrom word n i) := by
  induction hk : n - i using Nat.strong_induction_on generalizing i with
  | _ k ih =>
    subst hk
    rw [TokenMaps.tokenizeFrom]
    by_cases hi : i < n
    · obtain ⟨id, j, hlook, hij, hjn, hid, hmax⟩ := lookFrom_spec hbytes hi hn
      have htake : ∀ {k}, k ≤ n → ((word.take n).drop i).take (k - i) =
          (word.drop i).take (k - i) := by
        intro k hk
        rw [List.drop_take, List.take_take, min_eq_left (Nat.sub_le_sub_right hk i)]
      have hlen : ((word.drop i).take (j - i)).length = j - i := by
        rw [List.length_take, List.length_drop]
        omega
      rw [dif_pos hi, hlook]
      refine .cons hid ?_ (htake hjn ▸ List.take_prefix _ _) ?_ ?_
      · intro hnil
        rw [hnil, List.length_nil] at hlen
        omega
      · intro s' hs' hpre
        rw [hlen]
        by_contra hlt
        have hle := hpre.length_le
        rw [List.length_drop, List.length_take, min_eq_left hn] at hle
        have heq := List.prefix_iff_eq_take.mp hpre
        rw [show s'.length = (i + s'.length) - i by omega, htake (by omega)] at heq
        rw [heq, hmax (i + s'.length) (by omega) (by omega)] at hs'
        cases hs'
      · rw [hlen, List.drop_drop, Nat.add_sub_cancel' hij.le]
        exact ih (n - j) (by omega) j rfl
    · rw [dif_neg hi, List.drop_eq_nil_of_le (by rw [List.length_take]; omega)]
      exact .nil

end Longest

/-! ### The length of a word -/

section WordSize

variable {v : TokenMaps} {ct : Ctype} {text word : List UInt8} {words : List (List UInt8)}

open TokenMaps (wordSize)

/-- An `int` counts fewer than `2 ^ 31` bytes. -/
theorem wordSize_eq_iff : wordSize word = word.length ↔ word.length < 2 ^ 31 := by
  rw [wordSize, wrap32]
  constructor
  · intro heq
    have hlt : Int.bmod (word.length : ℤ) (2 ^ 32) < ((2 ^ 32 : ℕ) + 1) / 2 :=
      Int.bmod_lt (Nat.two_pow_pos 32)
    omega
  · intro hlt
    rw [Int.bmod_eq_of_le (by omega) (by omega), Int.toNat_natCast]

theorem wordSize_le (word : List UInt8) : wordSize word ≤ word.length := by
  have hle : (word.length : ℤ) % ((2 ^ 32 : ℕ) : ℤ) ≤ word.length := by
    rw [← Int.natCast_emod]
    exact_mod_cast Nat.mod_le _ _
  rw [wordSize, wrap32, Int.bmod_def]
  split <;> omega

/-- The words of which an `int` counts the bytes are those that are not cut. -/
theorem flatMap_take_eq_flatten_iff :
    (words.flatMap fun word => word.take (wordSize word)) = words.flatten ↔
      ∀ word ∈ words, word.length < 2 ^ 31 := by
  have hle : ∀ words : List (List UInt8),
      (words.flatMap fun word => word.take (wordSize word)).length ≤ words.flatten.length := by
    intro words
    induction words with
    | nil => exact le_rfl
    | cons word words ih =>
      rw [List.flatMap_cons, List.flatten_cons, List.length_append, List.length_append]
      exact Nat.add_le_add (List.length_take_le' _ _) ih
  induction words with
  | nil => simp
  | cons word words ih =>
    rw [List.flatMap_cons, List.flatten_cons, List.forall_mem_cons, ← wordSize_eq_iff]
    constructor
    · intro heq
      have hlen := congrArg List.length heq
      have hword := wordSize_le word
      have hwords := hle words
      rw [List.length_append, List.length_append, List.length_take, min_eq_left hword] at hlen
      have hsize : wordSize word = word.length := by omega
      rw [hsize, List.take_length] at heq
      exact ⟨hsize, ih.mp (List.append_cancel_left heq)⟩
    · rintro ⟨hsize, hwords⟩
      rw [hsize, List.take_length, ih.mpr hwords]

theorem longestFirst_tokenizeWord (hbytes : ∀ c, (v.tokenToId [c]).isSome) (word : List UInt8) :
    LongestFirst v (word.take (wordSize word)) (v.tokenizeWord word) := by
  rw [TokenMaps.tokenizeWord]
  cases word with
  | nil =>
    rw [List.take_nil, List.isEmpty_nil, if_pos rfl]
    exact .nil
  | cons c word =>
    rw [List.isEmpty_cons, if_neg Bool.false_ne_true]
    have hlongest := longestFirst_tokenizeFrom hbytes (wordSize_le (c :: word)) 0
    rwa [List.drop_zero] at hlongest

/-- Whatever the lengths are, the first bytes of each word are reproduced. -/
theorem joined_flatMap (hbytes : ∀ c, (v.tokenToId [c]).isSome) (words : List (List UInt8)) :
    v.joined (words.flatMap v.tokenizeWord) =
      some (words.flatMap fun word => word.take (wordSize word)) := by
  induction words with
  | nil =>
    rw [List.flatMap_nil, List.flatMap_nil]
    rfl
  | cons word words ih =>
    rw [List.flatMap_cons, List.flatMap_cons]
    exact joined_append (longestFirst_tokenizeWord hbytes word).joined_eq ih

/-- The tokens of a text give the text again, and each one is the longest at its place in
its word. -/
structure Reproduces (v : TokenMaps) (ct : Ctype) (text : List UInt8) : Prop where
  joined_eq : v.joined (v.tokenize ct text) = some text
  longest : ∃ parts, parts.flatten = v.tokenize ct text ∧
    List.Forall₂ (LongestFirst v) (textWords ct text) parts

theorem length_lt_of_joined (hbytes : ∀ c, (v.tokenToId [c]).isSome)
    (h : v.joined (v.tokenize ct text) = some text) :
    ∀ word ∈ textWords ct text, word.length < 2 ^ 31 := by
  have hjoined := joined_flatMap hbytes (textWords ct text)
  refine flatMap_take_eq_flatten_iff.mp (Option.some.inj (hjoined.symm.trans ?_))
  rw [flatten_textWords]
  exact h

/-- The vocabulary of the bytes alone. -/
def byteMaps : TokenMaps where
  entries := (List.range 256).map fun i : ℕ => ((i : ℤ), [UInt8.ofNat i])
  nodup := by
    rw [List.map_map]
    exact List.Nodup.map Nat.cast_injective List.nodup_range

theorem tokenToId_byteMaps (c : UInt8) : (byteMaps.tokenToId [c]).isSome := by
  rw [TokenMaps.tokenToId, Option.isSome_map, List.find?_isSome]
  refine ⟨((c.toNat : ℤ), [UInt8.ofNat c.toNat]), List.mem_reverse.mpr ?_, by simp⟩
  exact List.mem_map.mpr ⟨c.toNat, List.mem_range.mpr c.toNat_lt, rfl⟩

end WordSize

end Full

end WhisperCpp
