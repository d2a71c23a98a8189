import WhisperCpp.Library.Bpe
import WhisperCpp.Library.Fuel
import WhisperCpp.Library.Search
import WhisperCpp.Library.SortUnique
import Mathlib.Algebra.Group.Int.Defs

/-!
# The tokenizer of Turbo

`gpt2_bpe` cuts a text at its added tokens, what is left by a regular expression into words, and the
words, with every byte as a printable character, by byte pair encoding into parts. A part that is no
token is spelled with the symbols of bytes. The symbols are those of the whole word, though, so it is
right only for a word of one part.

The regular expression is a parameter. There are fewer than `2 ^ 31` tokens and merges.

## Main definitions

* `bytesToUnicodeStr`, `unicodeToBytes` — bytes as characters, and back
* `Gpt2Bpe`, `Gpt2Bpe.tokenize` — the tokenizer
* `Gpt2Bpe.decode` — the text of ids
* `Gpt2Bpe.WordRestored` — the parts of a word are tokens, or there is only one

## Main results

* `Gpt2Bpe.Restores` — what ids decode to, or how much more
* `Gpt2Bpe.restores_iff` — when the ids decode to the text
-/

namespace WhisperCpp

namespace Chatterbox

open Search Bpe SortUnique Fuel

/-! ### Bytes as characters -/

/-- `cpt_to_utf8`. -/
def cptToUtf8 (cp : ℕ) : List UInt8 :=
  if cp < 0x80 then [.ofNat cp]
  else if cp < 0x800 then [.ofNat (0xC0 ||| (cp >>> 6)), .ofNat (0x80 ||| (cp &&& 0x3F))]
  else if cp < 0x10000 then
    [.ofNat (0xE0 ||| (cp >>> 12)), .ofNat (0x80 ||| ((cp >>> 6) &&& 0x3F)),
      .ofNat (0x80 ||| (cp &&& 0x3F))]
  else
    [.ofNat (0xF0 ||| (cp >>> 18)), .ofNat (0x80 ||| ((cp >>> 12) &&& 0x3F)),
      .ofNat (0x80 ||| ((cp >>> 6) &&& 0x3F)), .ofNat (0x80 ||| (cp &&& 0x3F))]

/-- The bytes that are characters of their own. -/
def isDirect (c : ℕ) : Bool :=
  (0x21 ≤ c && c ≤ 0x7E) || (0xA1 ≤ c && c ≤ 0xAC) || (0xAE ≤ c && c ≤ 0xFF)

/-- The code point for a byte. The others are numbered from 256 on. -/
def codePointOf (c : ℕ) : ℕ :=
  if isDirect c then c else 256 + ((List.range c).filter fun d => !isDirect d).length

/-- `byte_to_unicode`. -/
def byteToUnicode (c : UInt8) : List UInt8 := cptToUtf8 (codePointOf c.toNat)

/-- `bytes_to_unicode_str`. -/
def bytesToUnicodeStr (raw : List UInt8) : List UInt8 := raw.flatMap byteToUnicode

/-- The length of a character by its first byte. -/
def charLength (c : UInt8) : ℕ :=
  if c &&& 0xE0 == 0xC0 then 2 else if c &&& 0xF0 == 0xE0 then 3 else if c &&& 0xF8 == 0xF0 then 4
  else 1

/-- The characters of a string. -/
def splitChars : List UInt8 → List (List UInt8)
  | [] => []
  | c :: rest =>
    (c :: rest.take (charLength c - 1)) :: splitChars (rest.drop (charLength c - 1))
termination_by token => token.length
decreasing_by
  rw [List.length_drop, List.length_cons]
  omega

/-- The byte with a code point. -/
def byteOf (cp : ℕ) : Option UInt8 :=
  if cp < 256 then if isDirect cp then some (.ofNat cp) else none
  else (((List.range 256).filter fun d => !isDirect d)[cp - 256]?).map .ofNat

/-- The byte of a character. -/
def unmapSymbol : List UInt8 → Option UInt8
  | [x] => byteOf x.toNat
  | [x, y] => byteOf (((x.toNat &&& 0x1F) <<< 6) ||| (y.toNat &&& 0x3F))
  | _ => none

/-- The inverse of `bytes_to_unicode_str`. -/
def unicodeToBytes (s : List UInt8) : Option (List UInt8) := (splitChars s).mapM unmapSymbol

section Symbols

/-- What is used of the character of a byte. -/
def symbolOk (c : UInt8) : Bool :=
  unmapSymbol (byteToUnicode c) == some c &&
    match byteToUnicode c with
    | [x] => x == c && decide (x < 0x80) && charLength x == 1
    | [x, _] => decide (0x80 ≤ x) && charLength x == 2
    | _ => false

theorem symbolOk_all : ∀ i : Fin 256, symbolOk (.ofNat i) = true := by decide +kernel

theorem symbolOk_eq_true (c : UInt8) : symbolOk c = true := by
  have h := symbolOk_all ⟨c.toNat, c.toNat_lt⟩
  rwa [UInt8.ofNat_toNat] at h

theorem unmapSymbol_byteToUnicode (c : UInt8) : unmapSymbol (byteToUnicode c) = some c :=
  beq_iff_eq.mp (Bool.and_eq_true_iff.mp (symbolOk_eq_true c)).1

/-- A byte is its own character, or that has two bytes that are not ASCII in front. -/
theorem byteToUnicode_cases (c : UInt8) :
    (byteToUnicode c = [c] ∧ c < 0x80 ∧ charLength c = 1) ∨
      ∃ x y, byteToUnicode c = [x, y] ∧ 0x80 ≤ x ∧ charLength x = 2 := by
  have h := (Bool.and_eq_true_iff.mp (symbolOk_eq_true c)).2
  split at h
  · rename_i x hx
    rw [Bool.and_eq_true, Bool.and_eq_true, beq_iff_eq, beq_iff_eq, decide_eq_true_eq] at h
    obtain ⟨⟨rfl, hlt⟩, hlen⟩ := h
    exact .inl ⟨hx, hlt, hlen⟩
  · rename_i x y hxy
    rw [Bool.and_eq_true, beq_iff_eq, decide_eq_true_eq] at h
    exact .inr ⟨x, y, hxy, h⟩
  · cases h

theorem bytesToUnicodeStr_append (a b : List UInt8) :
    bytesToUnicodeStr (a ++ b) = bytesToUnicodeStr a ++ bytesToUnicodeStr b := List.flatMap_append

theorem bytesToUnicodeStr_cons (c : UInt8) (raw : List UInt8) :
    bytesToUnicodeStr (c :: raw) = byteToUnicode c ++ bytesToUnicodeStr raw := List.flatMap_cons

theorem bytesToUnicodeStr_singleton (c : UInt8) : bytesToUnicodeStr [c] = byteToUnicode c :=
  List.flatMap_singleton ..

/-- The characters of mapped bytes are those of the bytes. -/
theorem splitChars_bytesToUnicodeStr (raw : List UInt8) :
    splitChars (bytesToUnicodeStr raw) = raw.map byteToUnicode := by
  induction raw with
  | nil => rw [bytesToUnicodeStr, List.flatMap_nil, splitChars, List.map_nil]
  | cons c raw ih =>
    rw [bytesToUnicodeStr_cons, List.map_cons, ← ih]
    rcases byteToUnicode_cases c with ⟨heq, -, hlen⟩ | ⟨x, y, heq, -, hlen⟩
    · rw [heq, List.singleton_append, splitChars, hlen]
      rfl
    · rw [heq, List.cons_append, List.singleton_append, splitChars, hlen]
      rfl

theorem unicodeToBytes_bytesToUnicodeStr (raw : List UInt8) :
    unicodeToBytes (bytesToUnicodeStr raw) = some raw := by
  rw [unicodeToBytes, splitChars_bytesToUnicodeStr]
  induction raw with
  | nil => rfl
  | cons c raw ih =>
    rw [List.map_cons, List.mapM_cons, ih, unmapSymbol_byteToUnicode]
    rfl

theorem bytesToUnicodeStr_injective : Function.Injective bytesToUnicodeStr := by
  intro a b h
  have hbytes := unicodeToBytes_bytesToUnicodeStr a
  rw [h, unicodeToBytes_bytesToUnicodeStr] at hbytes
  exact (Option.some.inj hbytes).symm

/-- Only ASCII is its own string of characters; everything else gets longer. -/
theorem bytesToUnicodeStr_ascii (raw : List UInt8) :
    ((bytesToUnicodeStr raw).all (· < 0x80) = true → bytesToUnicodeStr raw = raw) ∧
      (¬ (bytesToUnicodeStr raw).all (· < 0x80) = true →
        raw.length < (bytesToUnicodeStr raw).length) := by
  induction raw with
  | nil => exact ⟨fun _ => rfl, fun h => absurd rfl h⟩
  | cons c raw ih =>
    obtain ⟨ih1, ih2⟩ := ih
    have hle : raw.length ≤ (bytesToUnicodeStr raw).length := by
      by_cases hall : (bytesToUnicodeStr raw).all (· < 0x80) = true
      · exact (congrArg List.length (ih1 hall)).ge
      · exact (ih2 hall).le
    rw [bytesToUnicodeStr_cons, List.all_append, Bool.and_eq_true]
    rcases byteToUnicode_cases c with ⟨heq, hlt, -⟩ | ⟨x, y, heq, hge, -⟩
    · have hc : ([c] : List UInt8).all (· < 0x80) = true := by
        rw [List.all_cons, decide_eq_true hlt]
        rfl
      rw [heq, List.singleton_append, List.length_cons, List.length_cons]
      refine ⟨fun h => by rw [ih1 h.2], fun h => ?_⟩
      have hraw := ih2 fun hall => h ⟨hc, hall⟩
      omega
    · rw [heq]
      refine ⟨fun h => ?_, fun _ => ?_⟩
      · have hx := List.all_eq_true.mp h.1 x List.mem_cons_self
        exact absurd (of_decide_eq_true hx) (UInt8.not_lt.mpr hge)
      · rw [List.length_append, List.length_cons, List.length_cons, List.length_cons]
        omega

end Symbols

/-! ### The tokenizer -/

/-- The last index of a string, from number `i` on. -/
def lastIndexFrom (s : List UInt8) : ℕ → List (List UInt8) → Option ℕ
  | _, [] => none
  | i, t :: rest => (lastIndexFrom s (i + 1) rest).or (if t = s then some i else none)

/-- `gpt2_bpe`, with the list behind `bpe_ranks`. -/
structure Gpt2Bpe where
  idToToken : List (List UInt8)
  merges : List (List UInt8)

/-- `added_span`. -/
structure AddedSpan where
  start : ℕ
  len : ℕ
  id : ℕ

/-- `text.find(tok, pos)`. -/
def findFrom (tok text : List UInt8) (pos : ℕ) : Option ℕ :=
  if pos ≤ text.length then (findSub tok (text.drop pos)).map (pos + ·) else none

/-- The loop that finds a token from `pos` on. It does not end for an empty token. -/
def findAll (tok text : List UInt8) : ℕ → ℕ → Except Unit (List ℕ)
  | 0, _ => .error ()
  | fuel + 1, pos =>
    match findFrom tok text pos with
    | none => .ok []
    | some start => do
      let more ← findAll tok text fuel (start + tok.length)
      .ok (start :: more)

/-- The spans that do not overlap, the earliest ones kept. -/
def cleanSpans : ℕ → List AddedSpan → List AddedSpan
  | _, [] => []
  | lastEnd, sp :: rest =>
    if lastEnd ≤ sp.start then sp :: cleanSpans (sp.start + sp.len) rest
    else cleanSpans lastEnd rest

/-- The text between the spans. -/
def fragmentsFrom (text : List UInt8) : ℕ → List AddedSpan → List (List UInt8)
  | cursor, [] => if cursor < text.length then [text.drop cursor] else []
  | cursor, sp :: rest =>
    (if cursor < sp.start then [(text.drop cursor).take (sp.start - cursor)] else []) ++
      fragmentsFrom text (sp.start + sp.len) rest

namespace Gpt2Bpe

/-- `load_from_arrays`. -/
def loadFromArrays (tokens merges : List (List UInt8)) : Option Gpt2Bpe :=
  if tokens = [] then none else some ⟨tokens, merges⟩

variable (b : Gpt2Bpe)

/-- `token_to_id`. A later token takes the place of an equal one. -/
def tokenToId (s : List UInt8) : Option ℕ := lastIndexFrom s 0 b.idToToken

/-- `find_rank`. -/
def findRank (left right : List UInt8) : Option ℤ :=
  (lastIndexFrom (left ++ [32] ++ right) 0 b.merges).map Int.ofNat

/-- `bpe_merge`. -/
def bpeMerge (token : List UInt8) : List (List UInt8) :=
  mergeAll b.findRank (2 ^ 31 - 1) (splitChars token)

/-- The entries of `token_to_id` with an id from 50257 on. -/
def addedTokens : List (List UInt8 × ℕ) :=
  b.idToToken.zipIdx.filter fun e => 50257 ≤ e.2 ∧ b.tokenToId e.1 = some e.2

/-- The spans of added tokens. -/
def spansFrom (text : List UInt8) : List (List UInt8 × ℕ) → ℕ → Except Unit (List AddedSpan)
  | [], _ => .ok []
  | e :: rest, fuel => do
    let found ← findAll e.1 text fuel 0
    let more ← spansFrom text rest fuel
    .ok (found.map (fun pos => ⟨pos, e.1.length, e.2⟩) ++ more)

/-- The ids of one word: those of its parts, or of the symbols of its bytes. -/
def tokenizeWord (word : List UInt8) : List ℕ :=
  (b.bpeMerge (bytesToUnicodeStr word)).flatMap fun part =>
    match b.tokenToId part with
    | some id => [id]
    | none => word.filterMap fun c => b.tokenToId (byteToUnicode c)

variable (split : List UInt8 → List (List UInt8))

/-- `tokenize_fragment`. -/
def tokenizeFragment (frag : List UInt8) : List ℕ := (split frag).flatMap b.tokenizeWord

/-- The ids of the text from `cursor` on. -/
def tokenizeFrom (text : List UInt8) : ℕ → List AddedSpan → List ℕ
  | cursor, [] => if cursor < text.length then b.tokenizeFragment split (text.drop cursor) else []
  | cursor, sp :: rest =>
    (if cursor < sp.start then
      b.tokenizeFragment split ((text.drop cursor).take (sp.start - cursor)) else []) ++
      sp.id :: tokenizeFrom text (sp.start + sp.len) rest

/-- `gpt2_bpe::tokenize`. Nothing is known of the order of spans with the same start. -/
def tokenize (tie : ℕ → ℕ) (text : List UInt8) (fuel : ℕ) : Except Unit (List ℕ) :=
  if text = [] then .ok []
  else do
    let spans ← spansFrom text b.addedTokens fuel
    .ok (b.tokenizeFrom split text 0 (cleanSpans 0 (sortBy AddedSpan.start tie spans)))

/-! ### Decoding -/

/-- The text of an id. An added token is its literal. -/
def decodeId (id : ℕ) : Option (List UInt8) :=
  if 50257 ≤ id then b.idToToken[id]? else b.idToToken[id]?.bind unicodeToBytes

/-- The text of ids. -/
def decode : List ℕ → Option (List UInt8)
  | [] => some []
  | id :: ids => (b.decodeId id).bind fun x => (decode ids).map (x ++ ·)

/-- The id of a part decodes to the bytes of it. -/
def PlainId (id : ℕ) (part : List UInt8) : Prop := id < 50257 ∨ part.all (· < 0x80) = true

/-- The bytes of a part are restored: it is a token, or it is no token and all of the word. -/
def PartRestored (word part : List UInt8) : Prop :=
  match b.tokenToId part with
  | some id => PlainId id part
  | none => part = bytesToUnicodeStr word ∧
      ∀ c ∈ word, ∃ id, b.tokenToId (byteToUnicode c) = some id ∧ PlainId id (byteToUnicode c)

/-- The bytes of a word are restored. -/
def WordRestored (word : List UInt8) : Prop :=
  ∀ part ∈ b.bpeMerge (bytesToUnicodeStr word), b.PartRestored word part

/-- The bytes of the text between the added tokens are restored. -/
def FragmentsRestored (text : List UInt8) (spans : List AddedSpan) : Prop :=
  ∀ frag ∈ fragmentsFrom text 0 spans, ∀ word ∈ split frag, b.WordRestored word

/-! ### What ids decode to -/

/-- The ids decode to the text if `ok` holds, and to something longer if not. -/
def Restores (ok : Prop) (text : List UInt8) (ids : List ℕ) : Prop :=
  ∃ out, b.decode ids = some out ∧ (ok → out = text) ∧ (¬ ok → text.length < out.length)

section Decoding

variable {b : Gpt2Bpe} {split : List UInt8 → List (List UInt8)} {ok ok' : Prop}
  {text text' word : List UInt8} {ids ids' : List ℕ}

theorem decode_append (ids ids' : List ℕ) : b.decode (ids ++ ids') =
    (b.decode ids).bind fun x => (b.decode ids').map (x ++ ·) := by
  induction ids with
  | nil =>
    rw [List.nil_append, decode, Option.bind_some]
    cases b.decode ids' <;> rfl
  | cons id ids ih =>
    rw [List.cons_append, decode, decode, ih]
    cases b.decodeId id with
    | none => rfl
    | some x =>
      cases b.decode ids with
      | none => rfl
      | some y =>
        cases b.decode ids' with
        | none => rfl
        | some z => simp

theorem restores_nil : b.Restores True [] [] := ⟨[], rfl, fun _ => rfl, fun h => absurd trivial h⟩

theorem Restores.length_le (h : b.Restores ok text ids) :
    ∃ out, b.decode ids = some out ∧ text.length ≤ out.length := by
  obtain ⟨out, hout, hok, hnot⟩ := h
  by_cases h : ok
  · exact ⟨out, hout, (congrArg List.length (hok h)).ge⟩
  · exact ⟨out, hout, (hnot h).le⟩

theorem Restores.congr (h : b.Restores ok text ids) (hiff : ok ↔ ok') :
    b.Restores ok' text ids := by
  obtain ⟨out, hout, hok, hnot⟩ := h
  exact ⟨out, hout, fun h => hok (hiff.mpr h), fun h => hnot fun h' => h (hiff.mp h')⟩

/-- Ids of one text behind ids of another. -/
theorem Restores.append (h : b.Restores ok text ids) (h' : b.Restores ok' text' ids') :
    b.Restores (ok ∧ ok') (text ++ text') (ids ++ ids') := by
  obtain ⟨out, hout, hle⟩ := h.length_le
  obtain ⟨out', hout', hle'⟩ := h'.length_le
  obtain ⟨_, heq, hok, hnot⟩ := h
  obtain ⟨_, heq', hok', hnot'⟩ := h'
  obtain rfl := Option.some.inj (hout.symm.trans heq)
  obtain rfl := Option.some.inj (hout'.symm.trans heq')
  refine ⟨out ++ out', ?_, fun h => by rw [hok h.1, hok' h.2], fun h => ?_⟩
  · rw [decode_append, hout, hout']
    rfl
  · rw [List.length_append, List.length_append]
    by_cases hleft : ok
    · have hlt := hnot' fun hright => h ⟨hleft, hright⟩
      omega
    · have hlt := hnot hleft
      omega

/-- **Ids decode to the text iff it is restored.** -/
theorem Restores.decode_eq_iff (h : b.Restores ok text ids) : b.decode ids = some text ↔ ok := by
  obtain ⟨out, hout, hok, hnot⟩ := h
  rw [hout, Option.some_inj]
  refine ⟨fun heq => ?_, hok⟩
  by_contra hno
  have hlt := hnot hno
  rw [heq] at hlt
  exact lt_irrefl _ hlt

/-- Ids of several texts. -/
theorem restores_flatMap {ids : List UInt8 → List ℕ} {ok : List UInt8 → Prop}
    {texts : List (List UInt8)} (h : ∀ x ∈ texts, b.Restores (ok x) x (ids x)) :
    b.Restores (∀ x ∈ texts, ok x) texts.flatten (texts.flatMap ids) := by
  induction texts with
  | nil => exact restores_nil.congr (iff_of_true trivial nofun)
  | cons x texts ih =>
    obtain ⟨hx, hrest⟩ := List.forall_mem_cons.mp h
    rw [List.flatten_cons, List.flatMap_cons]
    exact (hx.append (ih hrest)).congr List.forall_mem_cons.symm

/-! ### Words -/

theorem getElem?_of_lastIndexFrom {s : List UInt8} {i j : ℕ} {l : List (List UInt8)}
    (h : lastIndexFrom s i l = some j) : ∃ k, j = i + k ∧ l[k]? = some s := by
  induction l generalizing i with
  | nil => cases h
  | cons t rest ih =>
    rw [lastIndexFrom, Option.or_eq_some_iff] at h
    rcases h with h | ⟨-, h⟩
    · obtain ⟨k, rfl, hk⟩ := ih h
      exact ⟨k + 1, by omega, hk⟩
    · split at h
      · rename_i ht
        obtain rfl := Option.some.inj h
        exact ⟨0, rfl, congrArg some ht⟩
      · cases h

theorem lastIndexFrom_isSome {s : List UInt8} {i : ℕ} {l : List (List UInt8)} (h : s ∈ l) :
    ∃ j, lastIndexFrom s i l = some j := by
  induction l generalizing i with
  | nil => cases h
  | cons t rest ih =>
    rw [lastIndexFrom]
    rcases List.mem_cons.mp h with rfl | hrest
    · rw [if_pos rfl]
      cases lastIndexFrom s (i + 1) rest with
      | none => exact ⟨i, rfl⟩
      | some j => exact ⟨j, rfl⟩
    · obtain ⟨j, hj⟩ := @ih (i + 1) hrest
      exact ⟨j, by rw [hj, Option.some_or]⟩

theorem getElem?_of_tokenToId {s : List UInt8} {id : ℕ} (h : b.tokenToId s = some id) :
    b.idToToken[id]? = some s := by
  obtain ⟨k, rfl, hk⟩ := getElem?_of_lastIndexFrom h
  rwa [Nat.zero_add]

/-- The id of a part. -/
theorem restores_part {raw : List UInt8} {id : ℕ}
    (h : b.tokenToId (bytesToUnicodeStr raw) = some id) :
    b.Restores (PlainId id (bytesToUnicodeStr raw)) raw [id] := by
  have htoken := getElem?_of_tokenToId h
  obtain ⟨hascii, hlonger⟩ := bytesToUnicodeStr_ascii raw
  have hdecode : b.decode [id] = b.decodeId id := by
    rw [decode, decode]
    cases b.decodeId id with
    | none => rfl
    | some x => exact congrArg some (List.append_nil x)
  rw [Restores, hdecode, decodeId, htoken, PlainId]
  split
  · rename_i hid
    refine ⟨_, rfl, fun h => ?_, fun h => hlonger fun hall => h (.inr hall)⟩
    exact hascii (h.resolve_left (Nat.not_lt.mpr hid))
  · rename_i hid
    refine ⟨raw, unicodeToBytes_bytesToUnicodeStr raw, fun _ => rfl, fun h => ?_⟩
    exact absurd (.inl (Nat.lt_of_not_le hid)) h

/-- The symbols of the bytes of a word. -/
theorem restores_symbols (hbytes : ∀ c, byteToUnicode c ∈ b.idToToken) (word : List UInt8) :
    b.Restores (∀ c ∈ word, ∃ id, b.tokenToId (byteToUnicode c) = some id ∧
      PlainId id (byteToUnicode c)) word
      (word.filterMap fun c => b.tokenToId (byteToUnicode c)) := by
  induction word with
  | nil => exact restores_nil.congr (iff_of_true trivial nofun)
  | cons c word ih =>
    obtain ⟨id, hid⟩ := @lastIndexFrom_isSome _ 0 _ (hbytes c)
    have hc : b.Restores (PlainId id (byteToUnicode c)) [c] [id] := by
      have hpart := @restores_part b [c] id
      rw [bytesToUnicodeStr_singleton] at hpart
      exact hpart hid
    rw [List.filterMap_cons_some (f := fun c => b.tokenToId (byteToUnicode c)) hid]
    refine (hc.append ih).congr ?_
    rw [List.forall_mem_cons]
    refine and_congr_left fun _ => ⟨fun h => ⟨id, hid, h⟩, ?_⟩
    rintro ⟨id', hid', h⟩
    obtain rfl := Option.some.inj (hid.symm.trans hid')
    exact h

/-- The parts of a word are the characters of parts of its bytes. -/
theorem exists_bpeMerge (b : Gpt2Bpe) (word : List UInt8) : ∃ slices : List (List UInt8),
    b.bpeMerge (bytesToUnicodeStr word) = slices.map bytesToUnicodeStr ∧ slices.flatten = word := by
  have hmap : splitChars (bytesToUnicodeStr word) =
      (word.map fun c => [c]).map bytesToUnicodeStr := by
    rw [splitChars_bytesToUnicodeStr, List.map_map]
    exact List.map_congr_left fun c _ => (bytesToUnicodeStr_singleton c).symm
  refine ⟨_, by rw [bpeMerge, hmap, mergeAll_map bytesToUnicodeStr_append], ?_⟩
  rw [flatten_mergeAll, ← List.flatMap_def]
  exact List.flatMap_singleton' word

/-- What is emitted for a part. If it is no token, these are the symbols of the word, and that is too
much unless the part is all of it. -/
theorem restores_slice (hbytes : ∀ c, byteToUnicode c ∈ b.idToToken) {s : List UInt8}
    (hs : s.Sublist word) : b.Restores (b.PartRestored word (bytesToUnicodeStr s)) s
      (match b.tokenToId (bytesToUnicodeStr s) with
        | some id => [id]
        | none => word.filterMap fun c => b.tokenToId (byteToUnicode c)) := by
  rw [PartRestored]
  cases hid : b.tokenToId (bytesToUnicodeStr s) with
  | some id => exact restores_part hid
  | none =>
    have hword := restores_symbols hbytes word
    by_cases heq : s = word
    · rw [heq]
      exact hword.congr (and_iff_right rfl).symm
    · obtain ⟨out, hout, hle⟩ := hword.length_le
      have hlt : s.length < word.length :=
        lt_of_le_of_ne hs.length_le fun hlen => heq (hs.eq_of_length hlen)
      refine ⟨out, hout, fun h => ?_, fun _ => hlt.trans_le hle⟩
      exact absurd (bytesToUnicodeStr_injective h.1) heq

/-- **A word.** -/
theorem restores_word (hbytes : ∀ c, byteToUnicode c ∈ b.idToToken) (word : List UInt8) :
    b.Restores (b.WordRestored word) word (b.tokenizeWord word) := by
  obtain ⟨slices, hparts, hflat⟩ := exists_bpeMerge b word
  have hslices := restores_flatMap fun s hs => restores_slice hbytes
    (hflat ▸ List.sublist_flatten_of_mem hs)
  rw [hflat] at hslices
  rw [tokenizeWord, WordRestored, hparts, List.flatMap_map]
  exact hslices.congr List.forall_mem_map.symm

/-! ### Texts -/

/-- A fragment of the text. -/
theorem restores_fragment (hbytes : ∀ c, byteToUnicode c ∈ b.idToToken)
    (hsplit : ∀ frag, (split frag).flatten = frag) (frag : List UInt8) :
    b.Restores (∀ word ∈ split frag, b.WordRestored word) frag (b.tokenizeFragment split frag) := by
  have hwords := restores_flatMap fun word (_ : word ∈ split frag) => restores_word hbytes word
  rwa [hsplit] at hwords

/-- The spans follow each other from `cursor` on, and each is a token of the text. -/
def SpansOf (b : Gpt2Bpe) (text : List UInt8) : ℕ → List AddedSpan → Prop
  | _, [] => True
  | cursor, sp :: rest => cursor ≤ sp.start ∧
      (∃ tok, b.idToToken[sp.id]? = some tok ∧ 50257 ≤ sp.id ∧ sp.len = tok.length ∧
        tok <+: text.drop sp.start) ∧ SpansOf b text (sp.start + sp.len) rest

/-- **The text from `cursor` on.** -/
theorem restores_from (hbytes : ∀ c, byteToUnicode c ∈ b.idToToken)
    (hsplit : ∀ frag, (split frag).flatten = frag) {cursor : ℕ} {spans : List AddedSpan}
    (hspans : SpansOf b text cursor spans) :
    b.Restores (∀ frag ∈ fragmentsFrom text cursor spans, ∀ word ∈ split frag, b.WordRestored word)
      (text.drop cursor) (b.tokenizeFrom split text cursor spans) := by
  induction spans generalizing cursor with
  | nil =>
    rw [fragmentsFrom, tokenizeFrom]
    split
    · exact (restores_fragment hbytes hsplit _).congr (by rw [List.forall_mem_singleton])
    · rename_i hend
      rw [List.drop_of_length_le (Nat.le_of_not_lt hend)]
      exact restores_nil.congr (iff_of_true trivial nofun)
  | cons sp rest ih =>
    obtain ⟨hle, ⟨tok, htoken, hid, hlen, more, hmore⟩, hrest⟩ := hspans
    have hspan : b.Restores True tok [sp.id] := by
      refine ⟨tok, ?_, fun _ => rfl, fun h => absurd trivial h⟩
      rw [decode, decode, decodeId, if_pos hid, htoken]
      exact congrArg some (List.append_nil tok)
    have hbehind : text.drop (sp.start + sp.len) = more := by
      rw [← List.drop_drop, ← hmore, hlen, List.drop_left]
    have htext : text.drop cursor =
        (text.drop cursor).take (sp.start - cursor) ++ (tok ++ text.drop (sp.start + sp.len)) := by
      have hdrop : (text.drop cursor).drop (sp.start - cursor) = text.drop sp.start := by
        rw [List.drop_drop, Nat.add_sub_cancel' hle]
      rw [hbehind, hmore, ← hdrop, List.take_append_drop]
    have hfront : b.Restores
        (∀ frag ∈ if cursor < sp.start then [(text.drop cursor).take (sp.start - cursor)] else [],
          ∀ word ∈ split frag, b.WordRestored word)
        ((text.drop cursor).take (sp.start - cursor))
        (if cursor < sp.start then
          b.tokenizeFragment split ((text.drop cursor).take (sp.start - cursor)) else []) := by
      split
      · exact (restores_fragment hbytes hsplit _).congr (by rw [List.forall_mem_singleton])
      · rename_i hstart
        rw [Nat.sub_eq_zero_of_le (Nat.le_of_not_lt hstart), List.take_zero]
        exact restores_nil.congr (iff_of_true trivial nofun)
    have hall := hfront.append (hspan.append (ih hrest))
    rw [← htext] at hall
    rw [fragmentsFrom, tokenizeFrom]
    refine hall.congr ?_
    rw [List.forall_mem_append, true_and]

/-! ### Spans -/

theorem of_findFrom {tok : List UInt8} {pos start : ℕ} (h : findFrom tok text pos = some start) :
    pos ≤ start ∧ start + tok.length ≤ text.length ∧ tok <+: text.drop start := by
  rw [findFrom] at h
  split at h
  · rename_i hpos
    obtain ⟨p, hp, rfl⟩ := Option.map_eq_some_iff.mp h
    have hfirst := findSub_eq_some_iff.mp hp
    have hend := hfirst.add_length_le
    rw [List.length_drop] at hend
    exact ⟨Nat.le_add_right _ _, by omega, prefix_drop_of_firstAt_drop hfirst⟩
  · cases h

/-- Where a token is found. -/
theorem findAll_returns {tok : List UInt8} (htok : tok ≠ []) (text : List UInt8) (pos : ℕ) :
    ∃ found, Returns (fun fuel => findAll tok text fuel pos) found ∧
      ∀ p ∈ found, tok <+: text.drop p := by
  -- the rest of the text gets shorter
  induction hgap : text.length + 1 - pos using Nat.strong_induction_on generalizing pos with
  | _ gap ih =>
    cases hfind : findFrom tok text pos with
    | none => exact ⟨[], (returns_ok []).succ fun n => by rw [findAll, hfind], nofun⟩
    | some start =>
      obtain ⟨hle, hend, hpre⟩ := of_findFrom hfind
      have hlen := List.length_pos_iff.mpr htok
      obtain ⟨more, hmore, hmem⟩ := ih _ (by omega) (start + tok.length) rfl
      refine ⟨start :: more, ?_, List.forall_mem_cons.mpr ⟨hpre, hmem⟩⟩
      have hbind := hmore.bind (g := fun _ found => .ok (start :: found)) (returns_ok (start :: more))
      exact hbind.succ fun n => by rw [findAll, hfind]

/-- The search for an empty token finds it at the same place forever. -/
theorem findAll_nil {pos : ℕ} (hpos : pos ≤ text.length) (fuel : ℕ) :
    findAll [] text fuel pos = .error () := by
  induction fuel with
  | zero => rfl
  | succ fuel ih =>
    have hfirst : FirstAt [] (text.drop pos) 0 := ⟨Nat.zero_le _, List.nil_prefix, nofun⟩
    have hfind : findFrom [] text pos = some pos := by
      rw [findFrom, if_pos hpos, findSub_eq_some_iff.mpr hfirst]
      rfl
    rw [findAll, hfind]
    show (findAll [] text fuel pos >>= _) = _
    rw [ih]
    rfl

/-- The spans are places of the tokens. -/
theorem spansFrom_returns {entries : List (List UInt8 × ℕ)} (h : ∀ e ∈ entries, e.1 ≠ [])
    (text : List UInt8) : ∃ spans, Returns (spansFrom text entries) spans ∧
      ∀ sp ∈ spans, ∃ e ∈ entries, sp.id = e.2 ∧ sp.len = e.1.length ∧
        e.1 <+: text.drop sp.start := by
  induction entries with
  | nil => exact ⟨[], returns_ok [], nofun⟩
  | cons e rest ih =>
    obtain ⟨he, hrest⟩ := List.forall_mem_cons.mp h
    obtain ⟨found, hfound, hpre⟩ := findAll_returns he text 0
    obtain ⟨more, hmore, hmem⟩ := ih hrest
    refine ⟨found.map (fun pos => ⟨pos, e.1.length, e.2⟩) ++ more, ?_, fun sp hsp => ?_⟩
    · exact hfound.bind (hmore.bind (returns_ok _))
    · rcases List.mem_append.mp hsp with hsp | hsp
      · obtain ⟨pos, hpos, rfl⟩ := List.mem_map.mp hsp
        exact ⟨e, List.mem_cons_self, rfl, rfl, hpre pos hpos⟩
      · obtain ⟨e', he', hplace⟩ := hmem sp hsp
        exact ⟨e', List.mem_cons_of_mem _ he', hplace⟩

theorem spansFrom_of_nil_mem {entries : List (List UInt8 × ℕ)} {id : ℕ} (h : ([], id) ∈ entries)
    (text : List UInt8) (fuel : ℕ) : spansFrom text entries fuel = .error () := by
  induction entries with
  | nil => cases h
  | cons e rest ih =>
    rw [spansFrom]
    cases hfound : findAll e.1 text fuel 0 with
    | error => rfl
    | ok found =>
      rcases List.mem_cons.mp h with rfl | hrest
      · rw [findAll_nil (Nat.zero_le _)] at hfound
        cases hfound
      · rw [ih hrest]
        rfl

theorem of_mem_addedTokens {e : List UInt8 × ℕ} (h : e ∈ b.addedTokens) :
    b.idToToken[e.2]? = some e.1 ∧ 50257 ≤ e.2 := by
  have hcond := of_decide_eq_true (List.mem_filter.mp h).2
  exact ⟨getElem?_of_tokenToId hcond.2, hcond.1⟩

/-- What is kept of spans follows each other. -/
theorem spansOf_cleanSpans {cursor : ℕ} {spans : List AddedSpan}
    (h : ∀ sp ∈ spans, ∃ e ∈ b.addedTokens, sp.id = e.2 ∧ sp.len = e.1.length ∧
      e.1 <+: text.drop sp.start) : SpansOf b text cursor (cleanSpans cursor spans) := by
  induction spans generalizing cursor with
  | nil => exact trivial
  | cons sp rest ih =>
    obtain ⟨⟨e, he, hid, hlen, hpre⟩, hrest⟩ := List.forall_mem_cons.mp h
    rw [cleanSpans]
    split
    · rename_i hle
      obtain ⟨htoken, hge⟩ := of_mem_addedTokens he
      rw [← hid] at htoken hge
      exact ⟨hle, ⟨e.1, htoken, hge, hlen, hpre⟩, ih hrest⟩
    · exact ih hrest

end Decoding

/-- **The ids of a text decode to it** if no added token is empty, and the words between the added
tokens are restored. -/
theorem restores_iff (b : Gpt2Bpe) (split : List UInt8 → List (List UInt8))
    (hsplit : ∀ frag, (split frag).flatten = frag) (hbytes : ∀ c, byteToUnicode c ∈ b.idToToken)
    (tie : ℕ → ℕ) (text : List UInt8) :
    (∃ ids, Returns (b.tokenize split tie text) ids ∧ b.decode ids = some text) ↔
      text = [] ∨ (∀ e ∈ b.addedTokens, e.1 ≠ []) ∧
        ∀ spans, Returns (spansFrom text b.addedTokens) spans →
          b.FragmentsRestored split text (cleanSpans 0 (sortBy AddedSpan.start tie spans)) := by
  by_cases htext : text = []
  · refine iff_of_true ⟨[], ⟨0, fun fuel _ => ?_⟩, by rw [htext, decode]⟩ (.inl htext)
    rw [tokenize, if_pos htext]
  rw [or_iff_right htext]
  by_cases hempty : ∀ e ∈ b.addedTokens, e.1 ≠ []
  · obtain ⟨spans, hspans, hplaces⟩ := spansFrom_returns hempty text
    have hreturns : Returns (b.tokenize split tie text)
        (b.tokenizeFrom split text 0 (cleanSpans 0 (sortBy AddedSpan.start tie spans))) := by
      have hbind := hspans.bind (g := fun _ spans => .ok (b.tokenizeFrom split text 0
        (cleanSpans 0 (sortBy AddedSpan.start tie spans)))) (returns_ok _)
      exact hbind.congr fun fuel => by rw [tokenize, if_neg htext]
    have hof : SpansOf b text 0 (cleanSpans 0 (sortBy AddedSpan.start tie spans)) :=
      spansOf_cleanSpans fun sp hsp => hplaces sp ((mem_sortBy AddedSpan.start tie).mp hsp)
    have hfrom := restores_from hbytes hsplit hof
    rw [List.drop_zero] at hfrom
    rw [and_iff_right hempty]
    constructor
    · rintro ⟨ids, hids, hdecode⟩ spans' hspans'
      obtain rfl := hspans.unique hspans'
      obtain rfl := hreturns.unique hids
      exact hfrom.decode_eq_iff.mp hdecode
    · intro h
      exact ⟨_, hreturns, hfrom.decode_eq_iff.mpr (h spans hspans)⟩
  · refine iff_of_false ?_ fun h => hempty h.1
    rintro ⟨ids, hids, -⟩
    push Not at hempty
    obtain ⟨⟨tok, id⟩, he, rfl⟩ := hempty
    obtain ⟨fuel, hok⟩ := hids.exists_ok
    rw [tokenize, if_neg htext, spansFrom_of_nil_mem he] at hok
    cases hok

/-- The characters of all bytes. -/
def symbols : List (List UInt8) := (List.range 256).map fun i => byteToUnicode (.ofNat i)

theorem byteToUnicode_mem_symbols (c : UInt8) : byteToUnicode c ∈ symbols :=
  List.mem_map.mpr ⟨c.toNat, List.mem_range.mpr c.toNat_lt, by rw [UInt8.ofNat_toNat]⟩

/-- A fragment that is one word. -/
def oneWord (frag : List UInt8) : List (List UInt8) := if frag = [] then [] else [frag]

theorem flatten_oneWord (frag : List UInt8) : (oneWord frag).flatten = frag := by
  rw [oneWord]
  split
  · rename_i hnil
    rw [hnil]
    rfl
  · exact List.flatten_singleton

/-- The merge of `a` and `b`, with a token for them. -/
def withToken : Gpt2Bpe := ⟨symbols ++ [[97, 98]], [[97, 32, 98]]⟩

theorem restores_withToken : ∃ ids,
    Returns (withToken.tokenize oneWord id [97, 98]) ids ∧ withToken.decode ids = some [97, 98] := by
  have hadded : withToken.addedTokens = [] := by decide +kernel
  have hbytes : ∀ c, byteToUnicode c ∈ withToken.idToToken := fun c =>
    List.mem_append_left _ (byteToUnicode_mem_symbols c)
  refine (restores_iff withToken oneWord flatten_oneWord hbytes id [97, 98]).mpr (.inr ⟨?_, ?_⟩)
  · rw [hadded]
    nofun
  · intro spans hspans
    rw [hadded] at hspans
    obtain rfl := hspans.unique (returns_ok [])
    intro frag hfrag word hword part hpart
    obtain rfl := List.mem_singleton.mp hfrag
    obtain rfl := List.mem_singleton.mp hword
    have hparts : withToken.bpeMerge (bytesToUnicodeStr [97, 98]) = [[97, 98]] := by decide +kernel
    have hid : withToken.tokenToId [97, 98] = some 256 := by decide +kernel
    rw [show List.drop 0 [97, 98] = ([97, 98] : List UInt8) from rfl, hparts] at hpart
    obtain rfl := List.mem_singleton.mp hpart
    rw [PartRestored, hid]
    exact .inl (by decide)

/-- The same merge without the token. -/
def withoutToken : Gpt2Bpe := ⟨symbols, [[97, 32, 98]]⟩

/-- Of `abc` the part `ab` is no token, and is spelled as all of the word. -/
theorem not_forall_restored : ¬ ∀ (tokens merges : List (List UInt8)) (b : Gpt2Bpe)
    (split : List UInt8 → List (List UInt8)) (tie : ℕ → ℕ) (text : List UInt8),
    loadFromArrays tokens merges = some b → (∀ frag, (split frag).flatten = frag) →
    (∀ c, byteToUnicode c ∈ tokens) →
    ∃ ids, Returns (b.tokenize split tie text) ids ∧ b.decode ids = some text := by
  intro h
  have hload : loadFromArrays symbols [[97, 32, 98]] = some withoutToken :=
    if_neg (List.ne_nil_of_mem (byteToUnicode_mem_symbols 0))
  obtain ⟨ids, hids, hdecode⟩ := h symbols [[97, 32, 98]] withoutToken oneWord id [97, 98, 99] hload
    flatten_oneWord byteToUnicode_mem_symbols
  have hadded : withoutToken.addedTokens = [] := by decide +kernel
  have hreturns : Returns (withoutToken.tokenize oneWord id [97, 98, 99])
      (withoutToken.tokenizeFrom oneWord [97, 98, 99] 0 []) := by
    refine ⟨0, fun fuel _ => ?_⟩
    rw [tokenize, if_neg (List.cons_ne_nil _ _), hadded]
    rfl
  have hout : withoutToken.decode (withoutToken.tokenizeFrom oneWord [97, 98, 99] 0 []) =
      some [97, 98, 99, 99] := by decide +kernel
  rw [hids.unique hreturns, hout] at hdecode
  exact absurd hdecode (by decide)

end Gpt2Bpe

end Chatterbox

end WhisperCpp
