import WhisperCpp.Chatterbox.Normalize
import WhisperCpp.Library.Fuel

/-!
# The JSON parser

The parser that the multilingual tokenizer has for its description. A text is the rest of the bytes.
A number is kept as its text. What ends in the middle of an array or an object, behind a comma or
behind the bracket, is taken as complete.

## Main definitions

* `Json`
* `parseString`, `parseValue` — the descent
* `parseJson` — with enough fuel

## Main results

* `meets_parseValue`, `parseJson_ne_outOfFuel` — the fuel is enough
-/

namespace WhisperCpp

namespace Chatterbox

open Fuel

/-- The bytes of an ASCII string. -/
def bytesOf (s : String) : List UInt8 := s.toList.map fun c => .ofNat c.toNat

/-- `json_value`. The members of an object have different keys. -/
inductive Json where
  | null
  | bool (boolean : Bool)
  | num (number : List UInt8)
  | str (str : List UInt8)
  | arr (arr : List Json)
  | obj (obj : List (List UInt8 × Json))

namespace Json

/-- The members of an object. -/
def asObj : Json → Option (List (List UInt8 × Json))
  | obj members => some members
  | _ => none

/-- The values of an array. -/
def asArr : Json → Option (List Json)
  | arr values => some values
  | _ => none

/-- A string. -/
def asStr : Json → Option (List UInt8)
  | str s => some s
  | _ => none

/-- The text of a number. -/
def asNum : Json → Option (List UInt8)
  | num text => some text
  | _ => none

end Json

/-- What the parser throws. -/
inductive JsonError where
  /-- `JSON: <msg>` -/
  | fail (msg : String)
  /-- Not a throw: the bound on the recursion ran out. -/
  | outOfFuel
  deriving DecidableEq, Repr

/-- The parser of a value that is in front of the rest. -/
abbrev JsonParser (α : Type) := List UInt8 → Except JsonError (α × List UInt8)

/-- `skip_ws`. -/
def skipWs (s : List UInt8) : List UInt8 :=
  s.dropWhile fun c => c == 32 || c == 9 || c == 10 || c == 13

/-! ### Strings -/

/-- A hexadecimal digit. -/
def hexDigit (h : UInt8) : Option ℕ :=
  if 48 ≤ h ∧ h ≤ 57 then some (h.toNat - 48)
  else if 97 ≤ h ∧ h ≤ 102 then some (h.toNat - 97 + 10)
  else if 65 ≤ h ∧ h ≤ 70 then some (h.toNat - 65 + 10)
  else none

/-- `try_parse_hex4`. -/
def tryParseHex4 (q : List UInt8) : Option ℕ :=
  (q.take 4).foldlM (fun v h => (hexDigit h).map ((v <<< 4) ||| ·)) 0

/-- The second half of a surrogate pair. -/
def continuation (s : List UInt8) : Option ℕ :=
  if 6 ≤ s.length ∧ s.take 2 = bytesOf "\\u" then
    (tryParseHex4 (s.drop 2)).filter fun cp2 => 0xDC00 ≤ cp2 ∧ cp2 ≤ 0xDFFF
  else none

/-- The bytes that an escape stands for, and the number of bytes behind the `u`. -/
def parseUnicode (s : List UInt8) : Except JsonError (List UInt8 × ℕ) :=
  if s.length < 4 then .error (.fail "short \\u")
  else
    match tryParseHex4 s with
    | none => .error (.fail "bad hex")
    | some cp =>
      if 0xD800 ≤ cp ∧ cp ≤ 0xDBFF then
        match continuation (s.drop 4) with
        | none => .ok (utf8Append 0xFFFD, 4)
        | some cp2 => .ok (utf8Append (0x10000 + ((cp - 0xD800) <<< 10) + (cp2 - 0xDC00)), 10)
      else if 0xDC00 ≤ cp ∧ cp ≤ 0xDFFF then .ok (utf8Append 0xFFFD, 4)
      else .ok (utf8Append cp, 4)

/-- The escapes of one character. -/
def simpleEscapes : List (UInt8 × UInt8) :=
  [(34, 34), (92, 92), (47, 47), (98, 8), (102, 12), (110, 10), (114, 13), (116, 9)]

/-- The bytes that an escape stands for, and the number of bytes behind the backslash. -/
def parseEscape : List UInt8 → Except JsonError (List UInt8 × ℕ)
  | [] => .error (.fail "bad escape")
  | c :: rest =>
    match simpleEscapes.lookup c with
    | some b => .ok ([b], 1)
    | none =>
      if c = 117 then (parseUnicode rest).map fun r => (r.1, r.2 + 1)
      else .error (.fail "bad escape char")

/-- A string behind its first quote. -/
def parseChars (s : List UInt8) : Except JsonError (List UInt8 × List UInt8) :=
  match s with
  | [] => .error (.fail "unterminated string")
  | c :: rest =>
    if c = 34 then .ok ([], rest)
    else if c = 92 then
      match parseEscape rest with
      | .error e => .error e
      | .ok (out, n) => (parseChars (rest.drop n)).map fun r => (out ++ r.1, r.2)
    else (parseChars rest).map fun r => (c :: r.1, r.2)
termination_by s.length
decreasing_by
  all_goals
    simp only [List.length_drop, List.length_cons]
    omega

/-- `parse_string`. -/
def parseString : JsonParser (List UInt8)
  | [] => .error (.fail "expected string")
  | c :: rest => if c = 34 then parseChars rest else .error (.fail "expected string")

/-! ### Values -/

/-- `emplace`: the first member with a key is kept. -/
def emplace (members : List (List UInt8 × Json)) (key : List UInt8) (v : Json) :
    List (List UInt8 × Json) :=
  if (members.lookup key).isSome then members else members ++ [(key, v)]

/-- The loop over the members of an object. -/
def parseMembers (value : JsonParser Json) :
    ℕ → List (List UInt8 × Json) → JsonParser (List (List UInt8 × Json))
  | 0, _, _ => .error .outOfFuel
  | _ + 1, members, [] => .ok (members, [])
  | fuel + 1, members, s => do
    let (key, s) ← parseString (skipWs s)
    match skipWs s with
    | 58 :: s =>
      let (v, s) ← value s
      match skipWs s with
      | 44 :: s => parseMembers value fuel (emplace members key v) s
      | 125 :: s => .ok (emplace members key v, s)
      | _ => .error (.fail "expected , or \x7d")
    | _ => .error (.fail "expected :")

/-- The loop over the values of an array. -/
def parseElements (value : JsonParser Json) : ℕ → List Json → JsonParser (List Json)
  | 0, _, _ => .error .outOfFuel
  | _ + 1, values, [] => .ok (values, [])
  | fuel + 1, values, s => do
    let (v, s) ← value s
    match skipWs s with
    | 44 :: s => parseElements value fuel (values ++ [v]) s
    | 93 :: s => .ok (values ++ [v], s)
    | _ => .error (.fail "expected , or ]")

/-- A character of a number. -/
def isNumberChar (c : UInt8) : Bool :=
  (48 ≤ c && c ≤ 57) || c == 46 || c == 101 || c == 69 || c == 43 || c == 45

/-- The text of a number that starts with `c`. -/
def numberText (c : UInt8) (rest : List UInt8) : List UInt8 := c :: rest.takeWhile isNumberChar

/-- `parse_value`. -/
def parseValue : ℕ → JsonParser Json
  | 0, _ => .error .outOfFuel
  | fuel + 1, s =>
    match skipWs s with
    | [] => .error (.fail "unexpected eof")
    | c :: rest =>
      if c = 34 then do
        let (str, rest) ← parseString (c :: rest)
        .ok (.str str, rest)
      else if c = 123 then
        match skipWs rest with
        | 125 :: rest => .ok (.obj [], rest)
        | rest => do
          let (members, rest) ← parseMembers (parseValue fuel) fuel [] rest
          .ok (.obj members, rest)
      else if c = 91 then
        match skipWs rest with
        | 93 :: rest => .ok (.arr [], rest)
        | rest => do
          let (values, rest) ← parseElements (parseValue fuel) fuel [] rest
          .ok (.arr values, rest)
      else if c = 116 ∨ c = 102 then
        if bytesOf "true" <+: c :: rest then .ok (.bool true, (c :: rest).drop 4)
        else if bytesOf "false" <+: c :: rest then .ok (.bool false, (c :: rest).drop 5)
        else .error (.fail "bad literal")
      else if c = 110 then
        if bytesOf "null" <+: c :: rest then .ok (.null, (c :: rest).drop 4)
        else .error (.fail "bad null")
      else if c = 45 ∨ (48 ≤ c ∧ c ≤ 57) then
        .ok (.num (numberText c rest), rest.dropWhile isNumberChar)
      else .error (.fail "bad token")

/-- A whole text. What is behind the value is not read. -/
def parseJson (blob : List UInt8) : Except JsonError Json :=
  (parseValue (blob.length + 1) blob).map Prod.fst

section Fuel

/-- The error is a throw. -/
def IsThrow (e : JsonError) : Prop := e ≠ .outOfFuel

theorem length_skipWs_le (s : List UInt8) : (skipWs s).length ≤ s.length :=
  (List.dropWhile_sublist _).length_le

theorem meets_parseEscape (s : List UInt8) :
    Meets IsThrow (fun _ => True) (parseEscape s) := by
  cases s with
  | nil => rintro ⟨⟩
  | cons c rest =>
    rw [parseEscape]
    split
    · exact trivial
    · split
      · rw [parseUnicode]
        repeat' split
        all_goals first | exact trivial | rintro ⟨⟩
      · rintro ⟨⟩

theorem meets_parseChars (s : List UInt8) :
    Meets IsThrow (fun r => r.2.length ≤ s.length) (parseChars s) := by
  induction s using parseChars.induct with
  | case1 =>
    rw [parseChars]
    exact nofun
  | case2 rest =>
    rw [parseChars, if_pos rfl]
    exact Nat.le_succ _
  | case3 rest e he h =>
    rw [parseChars, if_neg h, if_pos rfl, he]
    exact (meets_parseEscape rest).of_error he
  | case4 rest out n hn h ih =>
    rw [parseChars, if_neg h, if_pos rfl, hn]
    show Meets _ _ ((parseChars (rest.drop n)).map _)
    cases hrest : parseChars (rest.drop n) with
    | error e => exact ih.of_error hrest
    | ok r =>
      have hle := ih.of_ok hrest
      rw [List.length_drop] at hle
      show r.2.length ≤ rest.length + 1
      omega
  | case5 c rest h h' ih =>
    rw [parseChars, if_neg h, if_neg h']
    cases hrest : parseChars rest with
    | error e => exact ih.of_error hrest
    | ok r => exact (ih.of_ok hrest).trans (Nat.le_succ _)

theorem meets_parseString (s : List UInt8) :
    Meets IsThrow (fun r => r.2.length < s.length) (parseString s) := by
  cases s with
  | nil => exact nofun
  | cons c rest =>
    rw [parseString]
    split
    · exact (meets_parseChars rest).mono fun r hle => Nat.lt_succ_of_le hle
    · exact nofun

variable {value : JsonParser Json} {n : ℕ}

theorem meets_parseMembers
    (hvalue : ∀ s, s.length < n → Meets IsThrow (fun r => r.2.length < s.length) (value s))
    {fuel : ℕ} {s : List UInt8} (members : List (List UInt8 × Json)) (hfuel : s.length < fuel)
    (hn : s.length ≤ n) :
    Meets IsThrow (fun r => r.2.length ≤ s.length) (parseMembers value fuel members s) := by
  induction fuel generalizing s members with
  | zero => exact absurd hfuel (Nat.not_lt_zero _)
  | succ fuel ih =>
    cases s with
    | nil => exact Nat.le_refl _
    | cons c rest =>
      have hle := length_skipWs_le (c :: rest)
      rw [parseMembers]
      · refine (meets_parseString _).bind fun ⟨key, s₁⟩ hkey => ?_
        have hcolon := length_skipWs_le s₁
        show Meets _ _ (match skipWs s₁ with | 58 :: s => _ | _ => _)
        simp only at hkey
        split
        · rename_i s₂ hs₂
          rw [hs₂, List.length_cons] at hcolon
          refine (hvalue s₂ (by omega)).bind fun ⟨v, s₃⟩ hv => ?_
          have hcomma := length_skipWs_le s₃
          simp only at hv
          show Meets _ _ (match skipWs s₃ with | 44 :: s => _ | 125 :: s => _ | _ => _)
          split
          · rename_i s₄ hs₄
            rw [hs₄, List.length_cons] at hcomma
            refine (ih _ (by omega) (by omega)).mono fun r hr => ?_
            omega
          · rename_i s₄ hs₄
            rw [hs₄, List.length_cons] at hcomma
            show s₄.length ≤ _
            omega
          · exact nofun
        · exact nofun
      · exact nofun

theorem meets_parseElements
    (hvalue : ∀ s, s.length < n → Meets IsThrow (fun r => r.2.length < s.length) (value s))
    {fuel : ℕ} {s : List UInt8} (values : List Json) (hfuel : s.length < fuel)
    (hn : s.length < n) :
    Meets IsThrow (fun r => r.2.length ≤ s.length) (parseElements value fuel values s) := by
  induction fuel generalizing s values with
  | zero => exact absurd hfuel (Nat.not_lt_zero _)
  | succ fuel ih =>
    cases s with
    | nil => exact Nat.le_refl _
    | cons c rest =>
      rw [parseElements]
      · refine (hvalue _ hn).bind fun ⟨v, s₁⟩ hv => ?_
        have hcomma := length_skipWs_le s₁
        simp only at hv
        show Meets _ _ (match skipWs s₁ with | 44 :: s => _ | 93 :: s => _ | _ => _)
        split
        · rename_i s₂ hs₂
          rw [hs₂, List.length_cons] at hcomma
          refine (ih _ (by omega) (by omega)).mono fun r hr => ?_
          omega
        · rename_i s₂ hs₂
          rw [hs₂, List.length_cons] at hcomma
          show s₂.length ≤ _
          omega
        · exact nofun
      · exact nofun

/-- **As much fuel as there are bytes is enough**, and a value takes bytes. -/
theorem meets_parseValue {fuel : ℕ} {s : List UInt8} (hfuel : s.length < fuel) :
    Meets IsThrow (fun r => r.2.length < s.length) (parseValue fuel s) := by
  induction fuel generalizing s with
  | zero => exact absurd hfuel (Nat.not_lt_zero _)
  | succ fuel ih =>
    have hle := length_skipWs_le s
    rw [parseValue]
    split
    · exact nofun
    · rename_i c rest hs
      rw [hs, List.length_cons] at hle
      have hws := length_skipWs_le rest
      split
      · refine (meets_parseString (c :: rest)).bind fun r hr => ?_
        rw [List.length_cons] at hr
        show r.2.length < s.length
        omega
      split
      · split
        · rename_i rest' hrest
          rw [hrest, List.length_cons] at hws
          show rest'.length < s.length
          omega
        · refine (meets_parseMembers @ih _ (by omega) (by omega)).bind fun r hr => ?_
          show r.2.length < s.length
          omega
      split
      · split
        · rename_i rest' hrest
          rw [hrest, List.length_cons] at hws
          show rest'.length < s.length
          omega
        · refine (meets_parseElements @ih _ (by omega) (by omega)).bind fun r hr => ?_
          show r.2.length < s.length
          omega
      have hdrop : ∀ k, ((c :: rest).drop (k + 1)).length < s.length := by
        intro k
        rw [List.length_drop, List.length_cons]
        omega
      split
      · split
        · exact hdrop 3
        · split
          · exact hdrop 4
          · exact nofun
      split
      · split
        · exact hdrop 3
        · exact nofun
      split
      · have hdigits := (List.dropWhile_sublist isNumberChar (l := rest)).length_le
        show (rest.dropWhile isNumberChar).length < s.length
        omega
      · exact nofun

theorem parseJson_ne_outOfFuel (blob : List UInt8) : parseJson blob ≠ .error .outOfFuel := by
  have hmeets := @meets_parseValue (blob.length + 1) blob (Nat.lt_succ_self _)
  intro h
  rw [parseJson] at h
  cases hvalue : parseValue (blob.length + 1) blob with
  | error e =>
    rw [hvalue] at h
    exact hmeets.of_error hvalue (Except.error.inj h)
  | ok r =>
    rw [hvalue] at h
    cases h

end Fuel

end Chatterbox

end WhisperCpp
