import WhisperCpp.Chatterbox.Json
import WhisperCpp.Chatterbox.SplitText
import WhisperCpp.Library.Replace
import WhisperCpp.Library.Squeeze

/-!
# Text for Supertonic

`supertonic_preprocess_text` decomposes a text, drops symbols, spells a few abbreviations, takes
spaces from in front of punctuation, and ends the text with a period if nothing else ends it. The
functions for UTF-8 and the decomposition are copies of those of the multilingual tokenizer of
Chatterbox, without the canonical order.

## Main definitions

* `nfkdCps` — the decomposition
* `filterCp` — what is done with one code point
* `normalizedText` — the passes
* `preprocessText`, `textToIds`
-/

namespace WhisperCpp

namespace Supertonic

open Chatterbox Replace Squeeze

/-! ### Code points -/

/-- The decomposition of a text. -/
def nfkdCps (text : List UInt8) : List ℕ := (utf8ToCps text).flatMap appendNfkdCp

/-- The ranges of `is_emoji_or_symbol`. -/
def emojiRanges : List (ℕ × ℕ) :=
  [(0x1F600, 0x1F64F), (0x1F300, 0x1F5FF), (0x1F680, 0x1F6FF), (0x1F700, 0x1F77F),
    (0x1F780, 0x1F7FF), (0x1F800, 0x1F8FF), (0x1F900, 0x1F9FF), (0x1FA00, 0x1FA6F),
    (0x1FA70, 0x1FAFF), (0x2600, 0x26FF), (0x2700, 0x27BF), (0x1F1E6, 0x1F1FF)]

/-- `is_emoji_or_symbol`. -/
def isEmojiOrSymbol (cp : ℕ) : Bool := emojiRanges.any fun range => range.1 ≤ cp && cp ≤ range.2

/-- Dashes, brackets and quotes become ASCII. -/
def plainCp (cp : ℕ) : ℕ :=
  if cp = 0x2013 ∨ cp = 0x2011 ∨ cp = 0x2014 then 45
  else if cp = 95 ∨ cp = 91 ∨ cp = 93 ∨ cp = 124 ∨ cp = 47 ∨ cp = 35 ∨ cp = 0x2192 ∨ cp = 0x2190 then
    32
  else if cp = 0x201C ∨ cp = 0x201D then 34
  else if cp = 0x2018 ∨ cp = 0x2019 ∨ cp = 0x00B4 ∨ cp = 96 then 39
  else cp

/-- What is dropped although it is no emoji: `♥`, `☆`, `♡`, `©` and `\`. -/
def isDropped (cp : ℕ) : Bool :=
  cp == 0x2665 || cp == 0x2606 || cp == 0x2661 || cp == 0x00A9 || cp == 92

/-- The body of the loop over the decomposition. -/
def filterCp (cp : ℕ) : Option ℕ :=
  if isEmojiOrSymbol cp then none
  else if isDropped (plainCp cp) then none
  else if cpIsSpace (plainCp cp) then some 32
  else some (plainCp cp)

/-- What goes on as a string. -/
def filteredCps (text : List UInt8) : List ℕ := (nfkdCps text).filterMap filterCp

/-! ### Strings -/

/-- The calls of `replace_all` that spell something. -/
def spellings : List (List UInt8 × List UInt8) :=
  [(bytesOf "@", bytesOf " at "), (bytesOf "e.g.,", bytesOf "for example, "),
    (bytesOf "i.e.,", bytesOf "that is, ")]

/-- `,`, `.`, `!`, `?`, `;`, `:` and the apostrophe. -/
def closeMarks : List UInt8 := [44, 46, 33, 63, 59, 58, 39]

/-- The calls of `replace_all` that take a space from in front of a mark. -/
def tightenings : List (List UInt8 × List UInt8) := closeMarks.map fun mark => ([32, mark], [mark])

/-- `collapse_spaces`. -/
def collapseSpaces (s : List UInt8) : List UInt8 := (squeeze isWs 32 true s).rdropWhile (· == 32)

/-- What ends a text. -/
def terminalPuncts : List ℕ :=
  [46, 33, 63, 59, 58, 44, 39, 34, 41, 93, 125, 0x2026, 0x3002, 0x300D, 0x300F, 0x3011, 0x3009,
    0x300B, 0x203A, 0x00BB]

/-- `has_terminal_punct`. -/
def hasTerminalPunct (s : List UInt8) : Bool :=
  match (utf8ToCps s).getLast? with
  | none => false
  | some cp => decide (cp ∈ terminalPuncts)

/-- The passes over the string of a text. -/
def normalizedString (s : List UInt8) : List UInt8 :=
  let s := replaceEach spellings s
  let s := replaceEach tightenings s
  -- `"`, the apostrophe and the backtick, each until there are no two
  let s := dedupe 96 (dedupe 39 (dedupe 34 s))
  let s := collapseSpaces s
  if hasTerminalPunct s then s else s ++ [46]

/-- What is wrapped. -/
def normalizedText (text : List UInt8) : List UInt8 := normalizedString (cpsToUtf8 (filteredCps text))

/-- `is_supported_language`. -/
def supportedLanguages : List String := ["en", "ko", "es", "pt", "fr"]

/-- `supertonic_preprocess_text`. -/
def preprocessText (text : List UInt8) (language wrapMode : String) : Except String (List UInt8) :=
  if language ∉ supportedLanguages then .error ("invalid Supertonic language: " ++ language)
  else
    let s := normalizedText text
    let opening := bytesOf "<" ++ bytesOf language ++ bytesOf ">"
    if wrapMode = "none" then .ok s
    else if wrapMode = "prefix" then .ok (opening ++ s ++ [32])
    else if wrapMode = "open_close" then
      .ok (opening ++ s ++ bytesOf "</" ++ bytesOf language ++ bytesOf ">")
    else .error ("invalid Supertonic language_wrap_mode: " ++ wrapMode)

/-- The id of a code point. -/
def indexerId (unicodeIndexer : List ℤ) (cp : ℕ) : Except String ℤ :=
  match unicodeIndexer[cp]? with
  | none => .error "unsupported character outside Unicode indexer"
  | some id => if id < 0 then .error ("unsupported character U+" ++ toString cp) else .ok id

/-- `supertonic_text_to_ids`: the ids, or the text of the error. -/
def textToIds (unicodeIndexer : List ℤ) (wrapMode : String) (text : List UInt8) (language : String) :
    Except String (List ℤ) := do
  let normalized ← preprocessText text language wrapMode
  (utf8ToCps normalized).mapM (indexerId unicodeIndexer)

end Supertonic

end WhisperCpp
