import Mathlib.Data.Nat.Notation
import Mathlib.Data.List.DropRight
import Mathlib.Data.List.Infix

/-!
# Token ids as text

`detokenize` writes the pieces of a token sequence one after the other, each marker `▁` as a space,
and strips the spaces in front. A piece is written without a look at its neighbours, so that a longer
sequence has a longer text; the streams rely on it when they cut the new text off what they had.

## Main definitions

* `BpeVocab`, `detokenize`, `tokenIsWordStart` — the vocabulary and its text
* `Transcript`, `Transcript.append` — what a stream has written, and its next segment

## Main results

* `detokenize_isPrefix` — the text of a prefix is a prefix of the text
* `Transcript.append_text` — the text grows by the text of the segment
-/

namespace WhisperCpp

namespace Parakeet

/-- `static_cast<int>` of a size: the lower 32 bits, as a signed number. -/
def castInt (n : ℕ) : ℤ := ((n : ℤ) + 2147483648) % 4294967296 - 2147483648

theorem castInt_of_lt {n : ℕ} (h : n < 2147483648) : castInt n = n := by
  rw [castInt]
  omega

theorem castInt_le (n : ℕ) : castInt n ≤ n := by
  rw [castInt]
  omega

theorem castInt_of_ge {n : ℕ} (h : 2147483648 ≤ n) (hlt : n < 4294967296) : castInt n < 0 := by
  rw [castInt]
  omega

attribute [irreducible] castInt

/-- A string is its bytes. -/
abbrev Text := List UInt8

/-- What `BpeVocab` says about the text of a token. -/
structure BpeVocab where
  pieces : List Text
  blankId : ℤ
  bosId : ℤ
  eosId : ℤ
  padId : ℤ

/-- A space. -/
def space : UInt8 := 0x20

/-- The loop over the bytes of a piece: the marker `▁` is written as a space. -/
def spaced : Text → Text
  | c0 :: c1 :: c2 :: rest =>
    if c0 = 0xE2 ∧ c1 = 0x96 ∧ c2 = 0x81 then space :: spaced rest
    else c0 :: spaced (c1 :: c2 :: rest)
  | c0 :: rest => c0 :: spaced rest
  | [] => []

variable (vocab : BpeVocab)

/-- The ids without a piece, and those of the special tokens. -/
def skipsToken (id : ℤ) : Bool :=
  decide (id < 0) || decide (castInt vocab.pieces.length ≤ id) || id == vocab.blankId ||
    id == vocab.bosId || id == vocab.eosId || id == vocab.padId

/-- What a token adds to the text. -/
def tokenText (id : ℤ) : Text :=
  if skipsToken vocab id then [] else spaced (vocab.pieces.getD id.toNat [])

/-- `detokenize`. -/
def detokenize (tokenIds : List ℤ) : Text :=
  (tokenIds.flatMap (tokenText vocab)).dropWhile (· == space)

/-- `token_is_word_start`. -/
def tokenIsWordStart (id : ℤ) : Bool :=
  !skipsToken vocab id && [0xE2, 0x96, 0x81].isPrefixOf (vocab.pieces.getD id.toNat [])

/-! ### A longer sequence has a longer text -/

theorem dropWhile_isPrefix {α : Type*} (p : α → Bool) {l m : List α} (h : l <+: m) :
    l.dropWhile p <+: m.dropWhile p := by
  obtain ⟨rest, rfl⟩ := h
  induction l with
  | nil => exact List.nil_prefix
  | cons a l ih =>
    rw [List.cons_append, List.dropWhile_cons, List.dropWhile_cons]
    split_ifs
    · exact ih
    · exact ⟨rest, rfl⟩

/-- **The text of a prefix is a prefix of the text.** -/
theorem detokenize_isPrefix {ids tokenIds : List ℤ} (h : ids <+: tokenIds) :
    detokenize vocab ids <+: detokenize vocab tokenIds := by
  obtain ⟨rest, rfl⟩ := h
  refine dropWhile_isPrefix _ ?_
  rw [List.flatMap_append]
  exact List.prefix_append _ _

@[simp] theorem detokenize_nil : detokenize vocab [] = [] := rfl

/-! ### What a stream has written -/

/-- `std::string::substr` up to the end; it throws if the string is shorter than `pos`. -/
def substr (s : Text) (pos : ℕ) : Option Text := if s.length < pos then none else some (s.drop pos)

/-- `cumulative_token_ids` and `cumulative_text` of a stream. -/
structure Transcript where
  tokenIds : List ℤ
  text : Text
  text_eq : text = detokenize vocab tokenIds

namespace Transcript

variable {vocab}

/-- Before the first window. -/
def empty : Transcript vocab := ⟨[], [], rfl⟩

/-- The tokens of a window are appended, and the whole text is written again. -/
def extend (t : Transcript vocab) (winTokens : List ℤ) : Transcript vocab :=
  ⟨t.tokenIds ++ winTokens, detokenize vocab (t.tokenIds ++ winTokens), rfl⟩

theorem text_isPrefix (t : Transcript vocab) (winTokens : List ℤ) :
    t.text <+: (t.extend winTokens).text := by
  rw [t.text_eq]
  exact detokenize_isPrefix vocab (List.prefix_append _ _)

/-- **The incremental text does not throw.** -/
theorem isSome_substr (t : Transcript vocab) (winTokens : List ℤ) :
    (substr (t.extend winTokens).text t.text.length).isSome = true := by
  rw [substr, if_neg (not_lt.2 (t.text_isPrefix winTokens).length_le)]
  rfl

/-- `win_text`: what the whole text has behind the text before. -/
def winText (t : Transcript vocab) (winTokens : List ℤ) : Text :=
  (substr (t.extend winTokens).text t.text.length).get (t.isSome_substr winTokens)

/-- The text grows by the text of the window. -/
theorem text_append_winText (t : Transcript vocab) (winTokens : List ℤ) :
    t.text ++ t.winText winTokens = (t.extend winTokens).text := by
  obtain ⟨rest, hrest⟩ := t.text_isPrefix winTokens
  have hsub : substr (t.extend winTokens).text t.text.length = some rest := by
    rw [substr, if_neg (not_lt.2 (t.text_isPrefix winTokens).length_le), ← hrest, List.drop_left]
  have hget : t.winText winTokens = rest := Option.get_of_eq_some _ hsub
  rw [hget, hrest]

end Transcript

end Parakeet

end WhisperCpp
