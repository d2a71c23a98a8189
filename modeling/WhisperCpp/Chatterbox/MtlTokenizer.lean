import WhisperCpp.Chatterbox.Json
import WhisperCpp.Library.Bpe
import WhisperCpp.Library.SortUnique

/-!
# The multilingual tokenizer

`mtl_tokenizer` is loaded from a JSON description and gives the ids of a text. The ids of the
vocabulary are numbers of the description. A negative one is no obstacle to loading, and when a part
of a word is looked up it is returned.

What `(int32_t)` makes of the text of a number is a parameter: out of range it is undefined. There
are fewer than `2 ^ 31` merges. Of the texts of ids only the number is kept, since `encode` reads no
more of them.

## Main definitions

* `MtlTokenizer`, `loadFromJson` — the description
* `MtlTokenizer.encode` — the ids
* `MtlTokenizer.pieces` — the parts of words that are looked up

## Main results

* `MtlTokenizer.inRange_iff` — when the ids are in the vocabulary
-/

namespace WhisperCpp

namespace Chatterbox

open Bpe SortUnique

/-! ### Loading -/

/-- `added_token`. -/
structure AddedToken where
  content : List UInt8
  id : ℤ
  deriving DecidableEq

/-- `mtl_tokenizer`. The entries of `m_vocab` have different keys, those of `m_bpe_ranks` are the
newest first, and of `m_id_to_token` there is the size. -/
structure MtlTokenizer where
  vocab : List (List UInt8 × ℤ)
  idToTokenSize : ℤ
  bpeRanks : List (List UInt8 × ℤ)
  addedTokens : List AddedToken
  unkToken : List UInt8
  sotId : ℤ
  eotId : ℤ
  unkId : ℤ
  spaceId : ℤ
  deriving DecidableEq

/-- The numbers of an object, converted. -/
def numbersOf (toInt32 : List UInt8 → ℤ) (members : List (List UInt8 × Json)) :
    List (List UInt8 × ℤ) :=
  members.filterMap fun kv => kv.2.asNum.map fun number => (kv.1, toInt32 number)

/-- The strings of an array with their indices, the newest first. -/
def ranksOf (values : List Json) : List (List UInt8 × ℤ) :=
  (values.zipIdx.filterMap fun e => e.1.asStr.map fun str => (str, (e.2 : ℤ))).reverse

/-- An added token that has a content and an id. -/
def addedTokenOf (toInt32 : List UInt8 → ℤ) (a : Json) : Option AddedToken := do
  let members ← a.asObj
  let content ← (members.lookup (bytesOf "content")).bind Json.asStr
  let number ← (members.lookup (bytesOf "id")).bind Json.asNum
  some ⟨content, toInt32 number⟩

/-- `find_added_id`. -/
def findAddedId (vocab : List (List UInt8 × ℤ)) (added : List AddedToken) (c : List UInt8) : ℤ :=
  match added.find? fun t => t.content == c with
  | some t => t.id
  | none => (vocab.lookup c).getD (-1)

/-- The greatest id, or `-1`. -/
def maxId (vocab : List (List UInt8 × ℤ)) (added : List AddedToken) : ℤ :=
  (vocab.map Prod.snd ++ added.map AddedToken.id).foldl max (-1)

/-- `load_from_json` for a tokenizer with the given `m_unk_token`. Nothing is known of the order of
added tokens of the same length. The number of ids has to be an `int32_t`. -/
def loadFromJson (toInt32 : List UInt8 → ℤ) (tie : ℕ → ℕ) (unkToken blob : List UInt8) :
    Option MtlTokenizer := do
  let root ← (parseJson blob).toOption.bind Json.asObj
  let model ← (root.lookup (bytesOf "model")).bind Json.asObj
  let type ← (model.lookup (bytesOf "type")).bind Json.asStr
  guard (type = bytesOf "BPE")
  let vocab ← (model.lookup (bytesOf "vocab")).bind Json.asObj
  let merges ← (model.lookup (bytesOf "merges")).bind Json.asArr
  let mVocab := numbersOf toInt32 vocab
  let mUnkToken := ((model.lookup (bytesOf "unk_token")).bind Json.asStr).getD unkToken
  let added := ((root.lookup (bytesOf "added_tokens")).bind Json.asArr).getD []
  let mAddedTokens := sortBy (fun t => -(t.content.length : ℤ)) tie
    (added.filterMap (addedTokenOf toInt32))
  let t : MtlTokenizer :=
    { vocab := mVocab
      idToTokenSize := maxId mVocab mAddedTokens + 1
      bpeRanks := ranksOf merges
      addedTokens := mAddedTokens
      unkToken := mUnkToken
      sotId := findAddedId mVocab mAddedTokens (bytesOf "[START]")
      eotId := findAddedId mVocab mAddedTokens (bytesOf "[STOP]")
      unkId := findAddedId mVocab mAddedTokens mUnkToken
      spaceId := findAddedId mVocab mAddedTokens (bytesOf "[SPACE]") }
  guard (0 ≤ t.sotId ∧ 0 ≤ t.eotId ∧ 0 ≤ t.unkId)
  guard (t.idToTokenSize < 2 ^ 31)
  some t

/-! ### Encoding -/

/-- `k_supported`. -/
def supportedLanguages : List (List UInt8) :=
  ["en", "es", "fr", "de", "it", "pt", "nl", "pl", "tr", "sv", "da", "fi", "no", "el", "ms", "sw",
    "ar", "ko"].map bytesOf

/-- The languages that need preprocessing. -/
def preprocessedLanguages : List (List UInt8) := ["ja", "he", "ru", "zh", "hi"].map bytesOf

/-- What `encode` throws. -/
inductive EncodeError where
  /-- `mtl_tokenizer: language '<language_id>' requires preprocessing not included in this build` -/
  | requiresPreprocessing (languageId : List UInt8)
  /-- `mtl_tokenizer: unsupported language '<language_id>'` -/
  | unsupportedLanguage (languageId : List UInt8)
  deriving DecidableEq, Repr

/-- The text in its normal form. -/
def normalized (text languageId : List UInt8) : List UInt8 :=
  let txt := nfkdNormalize (utf8Lowercase text)
  if languageId = bytesOf "ko" then koreanNormalize txt else txt

/-- The text that is split: with the language in front, and spaces as tokens. -/
def prepared (text languageId : List UInt8) : List UInt8 :=
  let txt := normalized text languageId
  let txt := if languageId = [] then txt else bytesOf "[" ++ languageId ++ bytesOf "]" ++ txt
  txt.flatMap fun c => if c = 32 then bytesOf "[SPACE]" else [c]

/-- The text before a token, if there is any. -/
def flushBuf (buf : List UInt8) : List (List UInt8 × ℤ) := if buf = [] then [] else [(buf, -1)]

/-- The split of a text at the added tokens, where `buf` is in front of it. -/
def segments (added : List AddedToken) (buf txt : List UInt8) : List (List UInt8 × ℤ) :=
  match txt with
  | [] => flushBuf buf
  | c :: rest =>
    match added.find? fun t => t.content ≠ [] ∧ t.content <+: c :: rest with
    | some t =>
      flushBuf buf ++ (t.content, t.id) :: segments added [] (rest.drop (t.content.length - 1))
    | none => segments added (buf ++ [c]) rest
termination_by txt.length
decreasing_by
  all_goals
    simp only [List.length_drop, List.length_cons]
    omega

/-- The runs of word characters and of other characters. -/
def chunks (cps : List ℕ) : List (List ℕ) :=
  match _h : cps.dropWhile cpIsSpace with
  | [] => []
  | c :: rest =>
    (c :: rest.takeWhile fun d => !cpIsSpace d && cpIsWord d == cpIsWord c) ::
      chunks (rest.dropWhile fun d => !cpIsSpace d && cpIsWord d == cpIsWord c)
termination_by cps.length
decreasing_by
  have hle := (List.dropWhile_sublist cpIsSpace (l := cps)).length_le
  have hrest := (List.dropWhile_sublist (l := rest)
    fun d => !cpIsSpace d && cpIsWord d == cpIsWord c).length_le
  rw [_h, List.length_cons] at hle
  omega

/-- The words of a segment. -/
def wordsOf (s : List UInt8) : List (List UInt8) := (chunks (utf8ToCps s)).map cpsToUtf8

/-- The characters of a word. -/
def utf8Chars : List UInt8 → List (List UInt8)
  | [] => []
  | b0 :: rest =>
    (b0 :: rest.take (utf8Decode b0 rest).2) :: utf8Chars (rest.drop (utf8Decode b0 rest).2)
termination_by word => word.length
decreasing_by
  rw [List.length_drop, List.length_cons]
  omega

namespace MtlTokenizer

variable (t : MtlTokenizer)

/-- `vocab_size`. -/
def vocabSize : ℤ := t.idToTokenSize

/-- The parts of a word after all merges. -/
def partsOf (word : List UInt8) : List (List UInt8) :=
  mergeAll (fun left right => t.bpeRanks.lookup (left ++ [32] ++ right)) (2 ^ 31 - 1)
    (utf8Chars word)

/-- `bpe_word`. -/
def bpeWord (word : List UInt8) : List ℤ :=
  (t.partsOf word).map fun part => (t.vocab.lookup part).getD t.unkId

/-- The ids of one segment. -/
def segmentIds (seg : List UInt8 × ℤ) : List ℤ :=
  if 0 ≤ seg.2 then [seg.2] else (wordsOf seg.1).flatMap t.bpeWord

/-- `mtl_tokenizer::encode`. -/
def encode (text languageId : List UInt8) : Except EncodeError (List ℤ) :=
  if languageId ∈ preprocessedLanguages then .error (.requiresPreprocessing languageId)
  else if languageId ≠ [] ∧ languageId ∉ supportedLanguages then
    .error (.unsupportedLanguage languageId)
  else .ok ((segments t.addedTokens [] (prepared text languageId)).flatMap t.segmentIds)

/-- The parts of words that are looked up for a text. -/
def pieces (text languageId : List UInt8) : List (List UInt8) :=
  (segments t.addedTokens [] (prepared text languageId)).flatMap fun seg =>
    if 0 ≤ seg.2 then [] else (wordsOf seg.1).flatMap t.partsOf

/-! ### Ids -/

/-- What loading establishes. -/
structure Loaded : Prop where
  size_eq : t.idToTokenSize = maxId t.vocab t.addedTokens + 1
  sotId_eq : t.sotId = findAddedId t.vocab t.addedTokens (bytesOf "[START]")
  eotId_eq : t.eotId = findAddedId t.vocab t.addedTokens (bytesOf "[STOP]")
  unkId_eq : t.unkId = findAddedId t.vocab t.addedTokens t.unkToken
  unkId_nonneg : 0 ≤ t.unkId

variable {t}

theorem loaded_of_loadFromJson {toInt32 : List UInt8 → ℤ} {tie : ℕ → ℕ} {unkToken blob : List UInt8}
    (h : loadFromJson toInt32 tie unkToken blob = some t) : t.Loaded := by
  rw [loadFromJson] at h
  simp only [Option.bind_eq_bind, Option.bind_eq_some_iff, Option.guard_eq_some', Option.some.injEq,
    exists_const] at h
  obtain ⟨_, -, _, -, _, -, -, _, -, _, -, ⟨-, -, hunk⟩, -, rfl⟩ := h
  exact ⟨rfl, rfl, rfl, rfl, hunk⟩

theorem le_maxId {vocab : List (List UInt8 × ℤ)} {added : List AddedToken} {id : ℤ}
    (h : id ∈ vocab.map Prod.snd ++ added.map AddedToken.id) : id ≤ maxId vocab added := by
  have hfold : ∀ (l : List ℤ) (init : ℤ), init ≤ l.foldl max init ∧ ∀ x ∈ l, x ≤ l.foldl max init := by
    intro l
    induction l with
    | nil => exact fun init => ⟨le_rfl, nofun⟩
    | cons a l ih =>
      intro init
      obtain ⟨hinit, hl⟩ := ih (max init a)
      rw [List.foldl_cons, List.forall_mem_cons]
      exact ⟨(le_max_left _ _).trans hinit, (le_max_right _ _).trans hinit, hl⟩
  exact (hfold _ _).2 id h

theorem mem_of_lookup {vocab : List (List UInt8 × ℤ)} {key : List UInt8} {id : ℤ}
    (h : vocab.lookup key = some id) : (key, id) ∈ vocab := by
  obtain ⟨l₁, l₂, rfl, -⟩ := List.lookup_eq_some_iff.mp h
  exact List.mem_append_right _ List.mem_cons_self

theorem Loaded.lt_of_lookup (h : t.Loaded) {part : List UInt8} {id : ℤ}
    (hpart : t.vocab.lookup part = some id) : id < t.vocabSize := by
  have hmem := mem_of_lookup hpart
  have hle := @le_maxId t.vocab t.addedTokens id
    (List.mem_append_left _ (List.mem_map_of_mem (f := Prod.snd) hmem))
  rw [vocabSize, h.size_eq]
  exact Int.lt_add_one_of_le hle

theorem Loaded.lt_of_mem (h : t.Loaded) {a : AddedToken} (ha : a ∈ t.addedTokens) :
    a.id < t.vocabSize := by
  have hle := @le_maxId t.vocab t.addedTokens a.id
    (List.mem_append_right _ (List.mem_map_of_mem (f := AddedToken.id) ha))
  rw [vocabSize, h.size_eq]
  exact Int.lt_add_one_of_le hle

/-- The unknown token is an added token or in the vocabulary. -/
theorem Loaded.unkId_lt (h : t.Loaded) : t.unkId < t.vocabSize := by
  have hnonneg := h.unkId_nonneg
  rw [h.unkId_eq, findAddedId] at hnonneg ⊢
  split
  · rename_i a ha
    exact h.lt_of_mem (List.mem_of_find?_eq_some ha)
  · rename_i hnone
    rw [hnone] at hnonneg
    cases hlookup : t.vocab.lookup t.unkToken with
    | none =>
      rw [hlookup] at hnonneg
      exact absurd hnonneg (by decide)
    | some id => exact h.lt_of_lookup hlookup

/-- A segment is text between the added tokens, or one of them, and has its place in the text. -/
theorem mem_segments {added : List AddedToken} {buf txt : List UInt8} {seg : List UInt8 × ℤ}
    (h : seg ∈ segments added buf txt) :
    (seg.2 = -1 ∨ ∃ a ∈ added, seg = (a.content, a.id)) ∧ seg.1 <:+: buf ++ txt := by
  have hbuf : ∀ {buf} (txt : List UInt8), seg ∈ flushBuf buf →
      seg.2 = -1 ∧ seg.1 <:+: buf ++ txt := by
    intro buf txt hseg
    rw [flushBuf] at hseg
    split at hseg
    · cases hseg
    · rw [List.mem_singleton.mp hseg]
      exact ⟨rfl, (List.prefix_append _ _).isInfix⟩
  induction buf, txt using segments.induct added with
  | case1 buf =>
    rw [segments] at h
    exact ⟨.inl (hbuf [] h).1, (hbuf _ h).2⟩
  | case2 buf c rest a ha ih =>
    rw [segments, ha] at h
    have hfound : a.content ≠ [] ∧ a.content <+: c :: rest := by
      simpa only [decide_eq_true_eq] using List.find?_some ha
    rcases List.mem_append.mp h with h | h
    · exact ⟨.inl (hbuf [] h).1, (hbuf _ h).2⟩
    · rcases List.mem_cons.mp h with rfl | h
      · refine ⟨.inr ⟨a, List.mem_of_find?_eq_some ha, rfl⟩, ?_⟩
        exact hfound.2.isInfix.trans (List.suffix_append _ _).isInfix
      · have hsuffix := (List.drop_suffix (a.content.length - 1) rest).trans (List.suffix_cons c rest)
        exact ⟨(ih h).1, (ih h).2.trans (hsuffix.trans (List.suffix_append _ _)).isInfix⟩
  | case3 buf c rest hnone ih =>
    rw [segments, hnone] at h
    have hseg := ih h
    rwa [List.append_assoc] at hseg

/-- Ids that are returned for a word. -/
theorem mem_bpeWord {word : List UInt8} {id : ℤ} : id ∈ t.bpeWord word ↔
    ∃ part ∈ t.partsOf word, t.vocab.lookup part = some id ∨
      t.vocab.lookup part = none ∧ id = t.unkId := by
  rw [bpeWord, List.mem_map]
  refine exists_congr fun part => and_congr_right fun _ => ?_
  cases t.vocab.lookup part with
  | none => simp [eq_comm]
  | some id' => simp

theorem Loaded.lt_of_mem_segmentIds (h : t.Loaded) {txt : List UInt8} {seg : List UInt8 × ℤ}
    (hseg : seg ∈ segments t.addedTokens [] txt) {id : ℤ} (hid : id ∈ t.segmentIds seg) :
    id < t.vocabSize := by
  rw [segmentIds] at hid
  split at hid
  · rename_i hnonneg
    obtain rfl := List.mem_singleton.mp hid
    rcases (mem_segments hseg).1 with hneg | ⟨a, ha, rfl⟩
    · rw [hneg] at hnonneg
      exact absurd hnonneg (by decide)
    · exact h.lt_of_mem ha
  · obtain ⟨word, -, hid⟩ := List.mem_flatMap.mp hid
    obtain ⟨part, -, hpart | ⟨-, rfl⟩⟩ := mem_bpeWord.mp hid
    · exact h.lt_of_lookup hpart
    · exact h.unkId_lt

theorem eq_of_encode {text languageId : List UInt8} {ids : List ℤ}
    (h : t.encode text languageId = .ok ids) :
    ids = (segments t.addedTokens [] (prepared text languageId)).flatMap t.segmentIds := by
  rw [encode] at h
  split at h
  · cases h
  · split at h
    · cases h
    · exact (Except.ok.inj h).symm

/-- **The ids of a text are in the vocabulary** iff no part of a word that is looked up has a
negative one. -/
theorem inRange_iff {toInt32 : List UInt8 → ℤ} {tie : ℕ → ℕ} {unkToken blob : List UInt8}
    (hload : loadFromJson toInt32 tie unkToken blob = some t) {text languageId : List UInt8}
    {ids : List ℤ} (hencode : t.encode text languageId = .ok ids) :
    (∀ id ∈ ids, 0 ≤ id ∧ id < t.vocabSize) ↔
      ∀ part ∈ t.pieces text languageId, ∀ id, t.vocab.lookup part = some id → 0 ≤ id := by
  have h := loaded_of_loadFromJson hload
  obtain rfl := eq_of_encode hencode
  constructor
  · intro hids part hpart id hid
    obtain ⟨seg, hseg, hpart⟩ := List.mem_flatMap.mp hpart
    refine (hids id (List.mem_flatMap.mpr ⟨seg, hseg, ?_⟩)).1
    split at hpart
    · cases hpart
    · rename_i hneg
      obtain ⟨word, hword, hpart⟩ := List.mem_flatMap.mp hpart
      rw [segmentIds, if_neg hneg]
      exact List.mem_flatMap.mpr ⟨word, hword, mem_bpeWord.mpr ⟨part, hpart, .inl hid⟩⟩
  · intro hpieces id hid
    obtain ⟨seg, hseg, hid⟩ := List.mem_flatMap.mp hid
    refine ⟨?_, h.lt_of_mem_segmentIds hseg hid⟩
    rw [segmentIds] at hid
    split at hid
    · rename_i hnonneg
      rwa [List.mem_singleton.mp hid]
    · rename_i hneg
      obtain ⟨word, hword, hid⟩ := List.mem_flatMap.mp hid
      obtain ⟨part, hpart, hlookup | ⟨-, rfl⟩⟩ := mem_bpeWord.mp hid
      · refine hpieces part (List.mem_flatMap.mpr ⟨seg, hseg, ?_⟩) id hlookup
        rw [if_neg hneg]
        exact List.mem_flatMap.mpr ⟨word, hword, hpart⟩
      · exact h.unkId_nonneg

/-- The conversion of an integer that is in range. -/
def readInt : List UInt8 → ℤ
  | [] => 0
  | c :: rest =>
    let decimal (digits : List UInt8) : ℤ := digits.foldl (fun v d => 10 * v + (d.toNat - 48 : ℕ)) 0
    if c = 45 then -decimal rest else decimal (c :: rest)

/-- A description with `-5` for `a`. -/
def negativeJson : List UInt8 :=
  bytesOf ("\x7b\"model\":\x7b\"type\":\"BPE\",\"vocab\":\x7b\"[START]\":0,\"[STOP]\":1," ++
    "\"[UNK]\":2,\"a\":-5\x7d,\"merges\":[]\x7d\x7d")

/-- What is loaded from it. -/
def negative : MtlTokenizer where
  vocab := [(bytesOf "[START]", 0), (bytesOf "[STOP]", 1), (bytesOf "[UNK]", 2), (bytesOf "a", -5)]
  idToTokenSize := 3
  bpeRanks := []
  addedTokens := []
  unkToken := bytesOf "[UNK]"
  sotId := 0
  eotId := 1
  unkId := 2
  spaceId := -1

theorem loadFromJson_negative :
    loadFromJson readInt id (bytesOf "[UNK]") negativeJson = some negative := by decide +kernel

theorem inRange_negative : (0 : ℤ) ≤ 2 ∧ 2 < negative.vocabSize := by
  have hencode : negative.encode (bytesOf "b") (bytesOf "") = .ok [2] := by decide +kernel
  refine (inRange_iff loadFromJson_negative hencode).mpr ?_ 2 (List.mem_singleton_self 2)
  have hpieces : negative.pieces (bytesOf "b") (bytesOf "") = [bytesOf "b"] := by decide +kernel
  intro part hpart id hid
  rw [hpieces] at hpart
  rw [List.mem_singleton.mp hpart] at hid
  have hnone : negative.vocab.lookup (bytesOf "b") = none := by decide +kernel
  rw [hnone] at hid
  cases hid

/-- `a` is given the id `-5`. -/
theorem not_forall_inRange : ¬ ∀ (toInt32 : List UInt8 → ℤ) (tie : ℕ → ℕ)
    (unkToken blob : List UInt8) (t : MtlTokenizer) (text languageId : List UInt8) (ids : List ℤ),
    loadFromJson toInt32 tie unkToken blob = some t → t.encode text languageId = .ok ids →
    ∀ id ∈ ids, 0 ≤ id ∧ id < t.vocabSize := by
  intro h
  have hencode : negative.encode (bytesOf "a") (bytesOf "") = .ok [-5] := by decide +kernel
  have hrange := h readInt id (bytesOf "[UNK]") negativeJson negative (bytesOf "a") (bytesOf "")
    [-5] loadFromJson_negative hencode (-5) (List.mem_singleton_self _)
  exact absurd hrange.1 (by decide)

end MtlTokenizer

end Chatterbox

end WhisperCpp
