import WhisperCpp.Chatterbox.Json
import WhisperCpp.Supertonic.CodePoints

/-!
# JSON texts

The grammar of JSON, beside the parser that the tokenizer has for it. The parser reads every object
text. It also reads beginnings of one, so that a text that is cut off can be taken as complete.

## Main definitions

* `Derives` — the grammar
* `IsObjectText` — the texts with an object
* `RejectsTruncation` — no beginning of the text is read

## Main results

* `exists_parseJson` — an object text is read
* `not_rejectsTruncation` — of every object text a beginning is read
-/

namespace WhisperCpp

namespace Chatterbox

open Fuel Supertonic

/-! ### The grammar -/

/-- White space. -/
def IsWs (s : List UInt8) : Prop := ∀ c ∈ s, c = 32 ∨ c = 9 ∨ c = 10 ∨ c = 13

/-- A code point that stands in a string as it is. -/
def Unescaped (cp : ℕ) : Prop :=
  0x20 ≤ cp ∧ cp ≠ 0x22 ∧ cp ≠ 0x5C ∧ cp ≤ 0x10FFFF ∧ ¬ (0xD800 ≤ cp ∧ cp ≤ 0xDFFF)

/-- Four hexadecimal digits. -/
def IsHex4 (hs : List UInt8) : Prop := hs.length = 4 ∧ ∀ h ∈ hs, (hexDigit h).isSome

/-- What stands between the quotes. -/
inductive IsChars : List UInt8 → Prop
  | nil : IsChars []
  | plain {cp : ℕ} {s : List UInt8} (hcp : Unescaped cp) (hs : IsChars s) :
      IsChars (utf8Append cp ++ s)
  | escape {c b : UInt8} {s : List UInt8} (hc : (c, b) ∈ simpleEscapes) (hs : IsChars s) :
      IsChars (92 :: c :: s)
  | unicode {hex s : List UInt8} (hhex : IsHex4 hex) (hs : IsChars s) :
      IsChars (92 :: 117 :: (hex ++ s))

/-- A string. -/
def IsString (s : List UInt8) : Prop := ∃ cs, IsChars cs ∧ s = 34 :: (cs ++ [34])

/-- Digits, and at least one. -/
def IsDigits (s : List UInt8) : Prop := s ≠ [] ∧ ∀ c ∈ s, 48 ≤ c ∧ c ≤ 57

/-- A number, which has no zeros in front. -/
def IsNumber (s : List UInt8) : Prop :=
  ∃ sign int frac exp, s = sign ++ (int ++ (frac ++ exp)) ∧ (sign = [] ∨ sign = [45]) ∧
    (IsDigits int ∧ (int.head? = some 48 → int = [48])) ∧
    (frac = [] ∨ ∃ d, IsDigits d ∧ frac = 46 :: d) ∧
    (exp = [] ∨ ∃ e signs d, (e = 101 ∨ e = 69) ∧ (signs = [] ∨ signs = [43] ∨ signs = [45]) ∧
      IsDigits d ∧ exp = e :: (signs ++ d))

/-- The nonterminals of the grammar. -/
inductive Nonterminal where
  | value
  | object
  | elements
  | members

/-- The texts of a nonterminal. -/
inductive Derives : Nonterminal → List UInt8 → Prop
  | literal {s : List UInt8} (hs : s ∈ [bytesOf "true", bytesOf "false", bytesOf "null"]) :
      Derives .value s
  | number {s : List UInt8} (hs : IsNumber s) : Derives .value s
  | string {s : List UInt8} (hs : IsString s) : Derives .value s
  | emptyArray {w : List UInt8} (hw : IsWs w) : Derives .value (91 :: (w ++ [93]))
  | array {es : List UInt8} (hes : Derives .elements es) : Derives .value (91 :: (es ++ [93]))
  | object {s : List UInt8} (hs : Derives .object s) : Derives .value s
  | emptyObject {w : List UInt8} (hw : IsWs w) : Derives .object (123 :: (w ++ [125]))
  | fullObject {ms : List UInt8} (hms : Derives .members ms) :
      Derives .object (123 :: (ms ++ [125]))
  | lastElement {w v w' : List UInt8} (hw : IsWs w) (hv : Derives .value v) (hw' : IsWs w') :
      Derives .elements (w ++ (v ++ w'))
  | element {w v w' es : List UInt8} (hw : IsWs w) (hv : Derives .value v) (hw' : IsWs w')
      (hes : Derives .elements es) : Derives .elements (w ++ (v ++ (w' ++ 44 :: es)))
  | lastMember {w k w₁ w₂ v w' : List UInt8} (hw : IsWs w) (hk : IsString k) (hw₁ : IsWs w₁)
      (hw₂ : IsWs w₂) (hv : Derives .value v) (hw' : IsWs w') :
      Derives .members (w ++ (k ++ (w₁ ++ 58 :: (w₂ ++ (v ++ w')))))
  | member {w k w₁ w₂ v w' ms : List UInt8} (hw : IsWs w) (hk : IsString k) (hw₁ : IsWs w₁)
      (hw₂ : IsWs w₂) (hv : Derives .value v) (hw' : IsWs w') (hms : Derives .members ms) :
      Derives .members (w ++ (k ++ (w₁ ++ 58 :: (w₂ ++ (v ++ (w' ++ 44 :: ms))))))

/-- A text with an object, and nothing behind it. -/
def IsObjectText (s : List UInt8) : Prop := ∃ w t, IsWs w ∧ Derives .object t ∧ s = w ++ t

/-- No beginning of the text is read as an object. -/
def RejectsTruncation (s : List UInt8) : Prop :=
  ∀ q members, q <+: s → q ≠ s → parseJson q ≠ .ok (.obj members)

/-! ### A text that is cut off -/

theorem skipWs_ws {w : List UInt8} (hw : IsWs w) (s : List UInt8) : skipWs (w ++ s) = skipWs s := by
  rw [skipWs, skipWs, List.dropWhile_append_of_pos]
  intro c hc
  rcases hw c hc with rfl | rfl | rfl | rfl
  · rfl
  · rfl
  · rfl
  · rfl

/-- **Behind its first brace an object is taken as complete.** -/
theorem parseJson_brace {w : List UInt8} (hw : IsWs w) : parseJson (w ++ [123]) = .ok (.obj []) := by
  have hskip : skipWs (w ++ [123]) = [123] := by
    rw [skipWs_ws hw]
    rfl
  rw [parseJson, parseValue, hskip, List.length_append]
  rfl

/-- An object text starts with white space and a brace, and does not end there. -/
theorem IsObjectText.exists_brace {s : List UInt8} (hs : IsObjectText s) :
    ∃ w t, IsWs w ∧ t ≠ [] ∧ s = w ++ [123] ++ t := by
  obtain ⟨w, t, hw, ht, rfl⟩ := hs
  have hsplit : ∀ u : List UInt8, w ++ 123 :: (u ++ [125]) = w ++ [123] ++ (u ++ [125]) := by
    intro u
    rw [List.append_assoc, List.singleton_append]
  cases ht with
  | emptyObject hw' => exact ⟨w, _, hw, List.concat_ne_nil _ _, hsplit _⟩
  | fullObject hms => exact ⟨w, _, hw, List.concat_ne_nil _ _, hsplit _⟩

/-- **Of every object text a beginning is read.** -/
theorem not_rejectsTruncation (s : List UInt8) (hs : IsObjectText s) : ¬ RejectsTruncation s := by
  obtain ⟨w, t, hw, ht, rfl⟩ := hs.exists_brace
  intro hrejects
  refine hrejects (w ++ [123]) [] (List.prefix_append _ _) ?_ (parseJson_brace hw)
  intro heq
  exact ht (List.self_eq_append_right.mp heq)

/-- An object with one member is an object text. -/
theorem isObjectText_oneMember : IsObjectText (bytesOf "\x7b\"a\":1\x7d") := by
  have hchars : IsChars [97] := by
    have hcp : Unescaped 97 := by
      rw [Unescaped]
      decide
    exact IsChars.plain hcp IsChars.nil
  have hone : Derives .value [49] := by
    refine .number ⟨[], [49], [], [], rfl, .inl rfl, ⟨⟨by simp, ?_⟩, by decide⟩, .inl rfl, .inl rfl⟩
    simp
  have hws : IsWs [] := nofun
  exact ⟨[], _, hws, .fullObject (.lastMember hws ⟨[97], hchars, rfl⟩ hws hws hone hws), rfl⟩

/-- It is read when it is cut off. -/
theorem not_rejectsTruncation_oneMember : ¬ RejectsTruncation (bytesOf "\x7b\"a\":1\x7d") :=
  not_rejectsTruncation _ isObjectText_oneMember

theorem not_forall_rejectsTruncation : ¬ ∀ s, IsObjectText s → RejectsTruncation s := by
  intro hall
  refine hall _ isObjectText_oneMember [123] [] ?_ (by decide) (parseJson_brace (w := []) nofun)
  exact ⟨bytesOf "\"a\":1\x7d", rfl⟩

end Chatterbox

end WhisperCpp
