import Mathlib.Data.UInt
import WhisperCpp.Library.Replace
import WhisperCpp.Library.Squeeze

/-!
# The punctuation of Turbo

`punc_norm` begins a text with a capital, makes one space of several, replaces punctuation that the
model has rarely seen, and sees to it that there is some at the end. An ellipsis becomes a comma and
a space after the spaces have been seen to, so in front of a space there are two; and of a text of
spaces nothing is left.

## Main definitions

* `puncNorm`
* `PuncNormal` — what the text is for
* `Settles` — when it comes out so

## Main results

* `puncNorm_eq_self` — the normal form stays
* `puncNormal_iff` — when it is reached
-/

namespace WhisperCpp

namespace Chatterbox

open Replace Squeeze

/-! ### The function -/

/-- `You need to add some text for me to talk.` -/
def needText : List UInt8 :=
  [89, 111, 117, 32, 110, 101, 101, 100, 32, 116, 111, 32, 97, 100, 100, 32, 115, 111, 109, 101, 32,
    116, 101, 120, 116, 32, 102, 111, 114, 32, 109, 101, 32, 116, 111, 32, 116, 97, 108, 107, 46]

/-- From `a` to `z`. -/
def isLower (c : UInt8) : Bool := 97 ≤ c && c ≤ 122

/-- The first letter as a capital. -/
def capitalizeFirst : List UInt8 → List UInt8
  | [] => []
  | c :: t => if isLower c then (c - 97 + 65) :: t else c :: t

/-- The bytes of `…`. -/
def ellipsis : List UInt8 := [0xE2, 0x80, 0xA6]

/-- The calls of `replace_all` in front of the one for ` ,`: `…`, `:`, `—` and `–`. -/
def earlyPunctuation : List (List UInt8 × List UInt8) :=
  [(ellipsis, [44, 32]), ([58], [44]), ([0xE2, 0x80, 0x94], [45]), ([0xE2, 0x80, 0x93], [45])]

/-- And behind it: `“`, `”`, `‘` and `’`. -/
def curlyQuotes : List (List UInt8 × List UInt8) :=
  [([0xE2, 0x80, 0x9C], [34]), ([0xE2, 0x80, 0x9D], [34]), ([0xE2, 0x80, 0x98], [39]),
    ([0xE2, 0x80, 0x99], [39])]

/-- The calls of `replace_all`. -/
def uncommonPunctuation : List (List UInt8 × List UInt8) :=
  earlyPunctuation ++ ([32, 44], [44]) :: curlyQuotes

/-- What is stripped at the end: a space, a tab and the ends of lines. -/
def isTrailing (b : UInt8) : Bool := b == 32 || b == 9 || b == 10 || b == 13

/-- `.`, `!`, `?`, `-` and `,`. -/
def sentenceEnds : List UInt8 := [46, 33, 63, 45, 44]

/-- A period is added to text that does not end in punctuation. -/
def withPeriod (t : List UInt8) : List UInt8 :=
  match t.getLast? with
  | none => t
  | some last => if last ∈ sentenceEnds then t else t ++ [46]

/-- `gpt2_bpe::punc_norm`. -/
def puncNorm (text : List UInt8) : List UInt8 :=
  if text = [] then needText
  else
    let t := capitalizeFirst text
    let t := squeeze (fun c => c == 32) 32 false t
    let t := replaceEach uncommonPunctuation t
    let t := t.rdropWhile isTrailing
    withPeriod t

/-- What `punc_norm` is for. -/
structure PuncNormal (r : List UInt8) : Prop where
  ending : ∃ last, r.getLast? = some last ∧ last ∈ sentenceEnds
  common : ∀ p ∈ uncommonPunctuation, ¬ p.1 <:+: r
  spaces : ¬ [32, 32] <:+: r

/-- There is nothing to normalise, or something is left, and an ellipsis in front of a space is in
front of nothing else. -/
def Settles (text : List UInt8) : Prop :=
  text = [] ∨ (∃ b ∈ text, isTrailing b = false) ∧
    ∀ u v, text = u ++ (ellipsis ++ 32 :: v) → ∀ b ∈ v, isTrailing b = true

/-! ### The parts of it -/

section Parts

variable {s t u v r : List UInt8} {c : UInt8}

theorem getLast?_withPeriod (h : t ≠ []) :
    ∃ last, (withPeriod t).getLast? = some last ∧ last ∈ sentenceEnds := by
  obtain ⟨last, hlast⟩ := Option.ne_none_iff_exists'.mp (List.getLast?_eq_none_iff.not.mpr h)
  rw [withPeriod, hlast]
  by_cases hin : last ∈ sentenceEnds
  · exact ⟨last, by simp [hin, hlast], hin⟩
  · exact ⟨46, by simp [hin], by decide⟩

theorem withPeriod_eq_self (h : ∃ last, t.getLast? = some last ∧ last ∈ sentenceEnds) :
    withPeriod t = t := by
  obtain ⟨last, hlast, hin⟩ := h
  simp [withPeriod, hlast, hin]

theorem prefix_withPeriod (t : List UInt8) : t <+: withPeriod t := by
  rw [withPeriod]
  split
  · exact List.prefix_rfl
  · split_ifs
    · exact List.prefix_rfl
    · exact List.prefix_append _ _

theorem not_infix_withPeriod {q : List UInt8} (hq : 46 ∉ q) (h : ¬ q <:+: t) :
    ¬ q <:+: withPeriod t := by
  rw [withPeriod]
  split
  · exact h
  · split_ifs
    · exact h
    · exact fun hin => h (infix_of_concat hq hin)

/-- Only the first letter is another one, if at all. -/
theorem capitalizeFirst_append (hne : s ≠ []) (v : List UInt8) :
    capitalizeFirst (s ++ v) = capitalizeFirst s ++ v := by
  obtain ⟨c, s, rfl⟩ := List.exists_cons_of_ne_nil hne
  rw [List.cons_append, capitalizeFirst, capitalizeFirst]
  split_ifs <;> rfl

theorem capitalizeFirst_of_head (h : ∀ c ∈ s.head?, isLower c = false) : capitalizeFirst s = s := by
  cases s with
  | nil => rfl
  | cons c s => simp [capitalizeFirst, h c rfl]

theorem capitalizeFirst_ellipsis (v : List UInt8) :
    capitalizeFirst (ellipsis ++ v) = ellipsis ++ v :=
  capitalizeFirst_append (by decide) v

/-- What is used of a letter and its capital. -/
def capitalOk (c : UInt8) : Bool :=
  !isLower c || (!isLower (c - 97 + 65) && !isTrailing (c - 97 + 65) && !isTrailing c &&
    c - 97 + 65 != 0xE2)

theorem capitalOk_all : ∀ i : Fin 256, capitalOk (.ofNat i) = true := by decide +kernel

theorem capital_of_isLower (h : isLower c = true) : isLower (c - 97 + 65) = false ∧
    isTrailing (c - 97 + 65) = false ∧ isTrailing c = false ∧ c - 97 + 65 ≠ 0xE2 := by
  have hok := capitalOk_all ⟨c.toNat, c.toNat_lt⟩
  rw [UInt8.ofNat_toNat, capitalOk, h] at hok
  simpa [and_assoc] using hok

theorem isLower_head?_capitalizeFirst (s : List UInt8) :
    ∀ c ∈ (capitalizeFirst s).head?, isLower c = false := by
  cases s with
  | nil => nofun
  | cons d s =>
    intro c hc
    rw [capitalizeFirst] at hc
    split_ifs at hc with hd
    · obtain rfl := Option.some.inj hc
      exact (capital_of_isLower hd).1
    · obtain rfl := Option.some.inj hc
      simpa using hd

/-- A letter is no space, and a capital neither. -/
theorem exists_isTrailing_capitalizeFirst (s : List UInt8) :
    (∃ b ∈ capitalizeFirst s, isTrailing b = false) ↔ ∃ b ∈ s, isTrailing b = false := by
  cases s with
  | nil => rfl
  | cons c s =>
    rw [capitalizeFirst]
    split_ifs with hc
    · obtain ⟨-, hcap, hletter, -⟩ := capital_of_isLower hc
      simp [hcap, hletter]
    · rfl

/-- An ellipsis was there before. -/
theorem exists_of_capitalizeFirst (h : capitalizeFirst s = u ++ (ellipsis ++ v)) :
    ∃ u', s = u' ++ (ellipsis ++ v) := by
  cases s with
  | nil => simp [capitalizeFirst, ellipsis] at h
  | cons c s =>
    rw [capitalizeFirst] at h
    cases u with
    | cons d u =>
      have hs : s = u ++ (ellipsis ++ v) := by
        split_ifs at h
        · exact (List.cons.inj h).2
        · exact (List.cons.inj h).2
      exact ⟨c :: u, by rw [hs, List.cons_append]⟩
    | nil =>
      split_ifs at h with hc
      · exact absurd (List.cons.inj h).1 (capital_of_isLower hc).2.2.2
      · exact ⟨[], h⟩

/-! ### One call after another -/

theorem puncNorm_of_ne_nil {text : List UInt8} (h : text ≠ []) :
    puncNorm text = withPeriod ((replaceEach uncommonPunctuation
      (squeeze (fun c => c == 32) 32 false (capitalizeFirst text))).rdropWhile isTrailing) := by
  rw [puncNorm, if_neg h]

/-- **The normal form stays.** -/
theorem puncNorm_eq_self (h : PuncNormal r) (hhead : ∀ c ∈ r.head?, isLower c = false) :
    puncNorm r = r := by
  obtain ⟨⟨last, hlast, hin⟩, hcommon, hspaces⟩ := h
  have hne : r ≠ [] := by
    rintro rfl
    cases hlast
  have hend : isTrailing last = false := by
    have hall : ∀ l ∈ sentenceEnds, isTrailing l = false := by simp [sentenceEnds, isTrailing]
    exact hall last hin
  have hstrip : r.rdropWhile isTrailing = r := by
    rw [List.rdropWhile_eq_self_iff]
    intro hl
    rw [List.getLast_eq_iff_getLast?_eq_some hl |>.mpr hlast, hend]
    simp
  rw [puncNorm_of_ne_nil hne, capitalizeFirst_of_head hhead,
    squeeze_eq_self (by simp) hspaces (by simp), replaceEach_eq_self hcommon, hstrip,
    withPeriod_eq_self ⟨last, hlast, hin⟩]

/-- Two spaces come from an ellipsis in front of one. -/
theorem not_infix_replaceAll_ellipsis (hspaces : ¬ [32, 32] <:+: s)
    (hell : ¬ ellipsis ++ [32] <:+: s) : ¬ [32, 32] <:+: replaceAll ellipsis [44, 32] s := by
  have hpat : ellipsis ≠ [] := by decide
  have hhead : ∀ {v}, 32 ∈ (replaceAll ellipsis [44, 32] v).head? → 32 ∈ v.head? := by
    intro v h
    exact (head?_replaceAll hpat h (by decide)).resolve_right (by decide)
  induction s using replace_induction hpat with
  | nil => simp
  | found v ih =>
    have hv : v <:+: ellipsis ++ v := (List.suffix_append ellipsis v).isInfix
    rw [replaceAll_pattern hpat, List.cons_append, List.singleton_append, List.infix_cons_iff,
      List.infix_cons_iff]
    rintro (hpre | hpre | hin)
    · exact absurd (List.cons_prefix_cons.mp hpre).1 (by decide)
    · obtain ⟨x, hx⟩ := (List.cons_prefix_cons.mp hpre).2
      have hstart : 32 ∈ v.head? := hhead (by rw [← hx]; rfl)
      obtain ⟨v, rfl⟩ := List.head?_eq_some_iff.mp hstart
      exact hell ⟨[], v, by simp⟩
    · exact ih (fun h => hspaces (h.trans hv)) (fun h => hell (h.trans hv)) hin
  | other c s hnot ih =>
    have hs : s <:+: c :: s := (List.suffix_cons c s).isInfix
    rw [replaceAll_cons hnot, List.infix_cons_iff]
    rintro (hpre | hin)
    · obtain ⟨rfl, x, hx⟩ := List.cons_prefix_cons.mp hpre
      have hstart : 32 ∈ s.head? := hhead (by rw [← hx]; rfl)
      obtain ⟨s, rfl⟩ := List.head?_eq_some_iff.mp hstart
      exact hspaces ⟨[], s, rfl⟩
    · exact ih (fun h => hspaces (h.trans hs)) (fun h => hell (h.trans hs)) hin

/-- A space in front of a comma is left if there were two. -/
theorem infix_of_replaceAll_comma (h : [32, 44] <:+: replaceAll [32, 44] [44] s) :
    [32, 32, 44] <:+: s := by
  have hpat : ([32, 44] : List UInt8) ≠ [] := by decide
  induction s using replace_induction hpat with
  | nil => simp at h
  | found v ih =>
    rw [replaceAll_pattern hpat, List.singleton_append, List.infix_cons_iff] at h
    rcases h with hpre | hin
    · exact absurd (List.cons_prefix_cons.mp hpre).1 (by decide)
    · exact (ih hin).trans (List.suffix_append _ v).isInfix
  | other c s hnot ih =>
    rw [replaceAll_cons hnot, List.infix_cons_iff] at h
    rcases h with hpre | hin
    · obtain ⟨rfl, x, hx⟩ := List.cons_prefix_cons.mp hpre
      -- the comma was there, or is what another space and a comma became
      cases s using replace_induction hpat with
      | nil => simp at hx
      | found v ih => exact ⟨[], v, by simp⟩
      | other d s hnot' ih =>
        rw [replaceAll_cons hnot'] at hx
        obtain ⟨rfl, -⟩ := List.cons.inj hx
        exact absurd ⟨s, rfl⟩ hnot
    · exact (ih hin).trans (List.suffix_cons c s).isInfix

/-- **What the calls leave.** -/
theorem not_infix_uncommonPunctuation (hspaces : ¬ [32, 32] <:+: s)
    (hell : ¬ ellipsis ++ [32] <:+: s) :
    (∀ p ∈ uncommonPunctuation, ¬ p.1 <:+: replaceEach uncommonPunctuation s) ∧
      ¬ [32, 32] <:+: replaceEach uncommonPunctuation s := by
  have hmarks : ∀ p ∈ earlyPunctuation ++ curlyQuotes, ∀ p' ∈ uncommonPunctuation,
      p'.1 ≠ [] ∧ p'.2 ≠ [] ∧ ∀ x ∈ p.1, x ∉ p'.2 := by
    simp [uncommonPunctuation, earlyPunctuation, curlyQuotes, ellipsis]
  -- what is behind the ellipses brings no space
  have hearly : ¬ [32, 32] <:+: replaceEach earlyPunctuation s := by
    rw [earlyPunctuation, replaceEach_cons]
    exact not_infix_replaceEach (by simp) (by simp)
      (not_infix_replaceAll_ellipsis hspaces hell)
  have hcomma : ¬ [32, 44] <:+: replaceEach uncommonPunctuation s := by
    rw [uncommonPunctuation, replaceEach_append, replaceEach_cons]
    refine not_infix_replaceEach (by simp) (by simp [curlyQuotes]) fun h => hearly ?_
    exact List.IsInfix.trans ⟨[], [44], rfl⟩ (infix_of_replaceAll_comma h)
  refine ⟨fun p hp => ?_, ?_⟩
  · rw [uncommonPunctuation, List.mem_append, List.mem_cons] at hp
    rcases hp with hp | rfl | hp
    · refine not_infix_replaceEach_of_mem ?_ (hmarks p (List.mem_append_left _ hp))
      exact List.mem_append_left _ hp
    · exact hcomma
    · refine not_infix_replaceEach_of_mem ?_ (hmarks p (List.mem_append_right _ hp))
      exact List.mem_append_right _ (List.mem_cons_of_mem _ hp)
  · rw [uncommonPunctuation, replaceEach_append]
    exact not_infix_replaceEach (by simp) (by simp [curlyQuotes]) hearly

/-! ### In front of what is stripped -/

/-- What is stripped is not replaced. -/
theorem replaceEach_append_trailing (h : ∀ b ∈ v, isTrailing b = true) (u : List UInt8) :
    replaceEach uncommonPunctuation (u ++ v) = replaceEach uncommonPunctuation u ++ v := by
  have hlast : ∀ p ∈ uncommonPunctuation, ∃ l ∈ p.1.getLast?, isTrailing l = false := by decide
  refine replaceEach_append_of_last (fun p hp => ?_) u
  obtain ⟨l, hl, hfalse⟩ := hlast p hp
  refine ⟨l, hl, fun hv => ?_⟩
  rw [h l hv] at hfalse
  cases hfalse

/-- An ellipsis in front of a space was in front of one before. -/
theorem exists_of_squeeze_ellipsis
    (h : squeeze (fun c => c == 32) 32 false (capitalizeFirst s) = u ++ (ellipsis ++ 32 :: t)) :
    ∃ x v, s = x ++ (ellipsis ++ 32 :: v) ∧ t = squeeze (fun c => c == 32) 32 true v := by
  have hspace : ∀ x ∈ ellipsis, (x == 32) = false := by simp [ellipsis]
  obtain ⟨u', v', hcap, -, hrest⟩ := eq_append_of_squeeze (by decide) hspace rfl h
  obtain ⟨x, rfl⟩ := exists_of_capitalizeFirst hcap
  cases v' with
  | nil => simp [squeeze] at hrest
  | cons c v =>
    rw [squeeze] at hrest
    split_ifs at hrest with hc hfalse
    · cases hfalse
    · rw [beq_iff_eq] at hc
      exact ⟨x, v, by rw [hc], (List.cons.inj hrest).2⟩
    · rw [← (List.cons.inj hrest).1] at hc
      exact absurd rfl hc

/-- **Before the calls** an ellipsis stands in front of no space, up to what is stripped. -/
theorem not_infix_core (hell : ∀ u v, s = u ++ (ellipsis ++ 32 :: v) →
    ∀ b ∈ v, isTrailing b = true) : ¬ ellipsis ++ [32] <:+:
      (squeeze (fun c => c == 32) 32 false (capitalizeFirst s)).rdropWhile isTrailing := by
  rintro ⟨x, y, hcore⟩
  have hsplit : x ++ (ellipsis ++ [32]) ++ y = x ++ ellipsis ++ 32 :: y := by simp
  -- something behind the space is not stripped
  have hexists : ∃ b ∈ y, isTrailing b = false := by
    by_contra hall
    have hstrip : ∀ b ∈ 32 :: y, isTrailing b = true := by
      intro b hb
      rcases List.mem_cons.mp hb with rfl | hb
      · rfl
      · by_contra hb'
        exact hall ⟨b, hb, by simpa using hb'⟩
    have hidem := congrArg (fun t => (t.rdropWhile isTrailing).length) hcore
    have hle := (List.rdropWhile_prefix isTrailing (x ++ ellipsis)).length_le
    have hlen := congrArg List.length hcore
    rw [hsplit] at hidem hlen
    simp only [rdropWhile_append_of_all hstrip, List.rdropWhile_idempotent] at hidem
    rw [List.length_append, List.length_cons] at hlen
    omega
  obtain ⟨b, hb, hfalse⟩ := hexists
  obtain ⟨w, hw⟩ := List.rdropWhile_prefix isTrailing
    (squeeze (fun c => c == 32) 32 false (capitalizeFirst s))
  rw [← hcore, hsplit, List.append_assoc, List.append_assoc, List.cons_append] at hw
  obtain ⟨u, v, hs, hsq⟩ := exists_of_squeeze_ellipsis hw.symm
  have hmem : b ∈ squeeze (fun c => c == 32) 32 true v := hsq ▸ List.mem_append_left w hb
  rcases mem_squeeze hmem with hv | rfl
  · rw [hell u v hs b hv] at hfalse
    cases hfalse
  · cases hfalse

/-- It makes no difference whether it is stripped before or behind the calls. -/
theorem rdropWhile_replaceEach (s : List UInt8) :
    (replaceEach uncommonPunctuation s).rdropWhile isTrailing =
      (replaceEach uncommonPunctuation (s.rdropWhile isTrailing)).rdropWhile isTrailing := by
  have hw : ∀ x ∈ s.rtakeWhile isTrailing, isTrailing x = true :=
    fun x hx => List.mem_rtakeWhile_imp hx
  conv_lhs => rw [← @List.rdropWhile_append_rtakeWhile UInt8 isTrailing s]
  rw [replaceEach_append_trailing hw, rdropWhile_append_of_all hw]

theorem head?_of_isPrefix {P : UInt8 → Prop} (h : t <+: s) (hs : ∀ c ∈ s.head?, P c) :
    ∀ c ∈ t.head?, P c := by
  intro c hc
  obtain ⟨t, rfl⟩ := List.head?_eq_some_iff.mp hc
  obtain ⟨w, rfl⟩ := h
  exact hs c rfl

/-- What the calls get. -/
theorem collapsed_spec (hs : ∃ b ∈ s, isTrailing b = false)
    (hr : squeeze (fun c => c == 32) 32 false (capitalizeFirst s) = r) :
    (∃ b ∈ r, isTrailing b = false) ∧ ∀ c ∈ r.head?, isLower c = false := by
  have hlower := isLower_head?_capitalizeFirst s
  rw [← exists_isTrailing_capitalizeFirst] at hs
  generalize capitalizeFirst s = t at hs hr hlower
  subst hr
  constructor
  · obtain ⟨x, hx, hfalse⟩ := hs
    refine ⟨x, mem_squeeze_of_not ?_ hx, hfalse⟩
    rw [beq_eq_false_iff_ne]
    rintro rfl
    cases hfalse
  · intro c hc
    cases t with
    | nil => cases hc
    | cons d t =>
      rw [squeeze] at hc
      split_ifs at hc with hd hfalse
      · cases hfalse
      · obtain rfl := Option.some.inj hc
        rfl
      · exact hlower c hc

/-- What is stripped and ended with a period. -/
theorem puncNormal_withPeriod (hcommon : ∀ p ∈ uncommonPunctuation, ¬ p.1 <:+: t)
    (hspaces : ¬ [32, 32] <:+: t) (hne : t ≠ []) (hhead : ∀ c ∈ t.head?, isLower c = false) :
    PuncNormal (withPeriod t) ∧ ∀ c ∈ (withPeriod t).head?, isLower c = false := by
  have hperiod : ∀ p ∈ uncommonPunctuation, 46 ∉ p.1 := by decide
  refine ⟨⟨getLast?_withPeriod hne, fun p hp => ?_, ?_⟩, ?_⟩
  · exact not_infix_withPeriod (hperiod p hp) (hcommon p hp)
  · exact not_infix_withPeriod (by decide) hspaces
  · obtain ⟨x, hx⟩ := prefix_withPeriod t
    rwa [← hx, List.head?_append_of_ne_nil t hne]

/-- **The normal form is reached.** -/
theorem puncNormal_puncNorm (hs : ∃ b ∈ s, isTrailing b = false)
    (hell : ∀ u v, s = u ++ (ellipsis ++ 32 :: v) → ∀ b ∈ v, isTrailing b = true) :
    PuncNormal (puncNorm s) ∧ ∀ c ∈ (puncNorm s).head?, isLower c = false := by
  have hne : s ≠ [] := by
    rintro rfl
    simp at hs
  have hcore := not_infix_core hell
  rw [puncNorm_of_ne_nil hne, rdropWhile_replaceEach]
  generalize hb : squeeze (fun c => c == 32) 32 false (capitalizeFirst s) = b at hcore
  obtain ⟨hsome, hhead⟩ := collapsed_spec hs hb
  have hpre := List.rdropWhile_prefix isTrailing b
  have hspaces : ¬ [32, 32] <:+: b.rdropWhile isTrailing := by
    intro h
    rw [← hb] at h hpre
    exact not_infix_squeeze rfl (h.trans hpre.isInfix)
  have hkept := exists_mem_rdropWhile hsome
  have hstart := head?_of_isPrefix hpre hhead
  generalize b.rdropWhile isTrailing = core at hcore hspaces hkept hstart
  obtain ⟨hcommon, htwo⟩ := not_infix_uncommonPunctuation hspaces hcore
  have hleft : ∃ x ∈ replaceEach uncommonPunctuation core, isTrailing x = false :=
    exists_mem_replaceEach (by decide) hkept
  have hcalls : ∀ c ∈ (replaceEach uncommonPunctuation core).head?, isLower c = false :=
    head?_replaceEach
      (by simp [uncommonPunctuation, earlyPunctuation, curlyQuotes, ellipsis, isLower]) hstart
  generalize replaceEach uncommonPunctuation core = t at hcommon htwo hleft hcalls
  have hstrip := List.rdropWhile_prefix isTrailing t
  refine puncNormal_withPeriod (fun p hp h => hcommon p hp (h.trans hstrip.isInfix))
    (fun h => htwo (h.trans hstrip.isInfix)) ?_ (head?_of_isPrefix hstrip hcalls)
  obtain ⟨x, hx, -⟩ := exists_mem_rdropWhile hleft
  exact List.ne_nil_of_mem hx

/-! ### Behind an ellipsis and a space -/

/-- A space in front of `c`, and not everything from there on is stripped. -/
def Spoiled (c : UInt8) (t : List UInt8) : Prop :=
  ∃ x y, t = x ++ 32 :: c :: y ∧ ∃ b ∈ c :: y, isTrailing b = false

theorem Spoiled.replaceAll {pat rep : List UInt8} (hpat : pat ≠ []) (hspace : 32 ∉ pat)
    (hc : c ∉ pat) (hrep : ∃ b ∈ rep, isTrailing b = false) (h : Spoiled c t) :
    Spoiled c (replaceAll pat rep t) := by
  obtain ⟨x, y, rfl, hy⟩ := h
  have hrest : Replace.replaceAll pat rep (c :: y) = c :: Replace.replaceAll pat rep y := by
    simpa using replaceAll_append_cons hpat hc [] y
  refine ⟨Replace.replaceAll pat rep x, Replace.replaceAll pat rep y, ?_, ?_⟩
  · rw [replaceAll_append_cons hpat hspace, hrest]
  · rw [← hrest]
    exact exists_mem_replaceAll hpat hrep hy

theorem Spoiled.replaceEach {ps : List (List UInt8 × List UInt8)}
    (hps : ∀ p ∈ ps, p.1 ≠ [] ∧ 32 ∉ p.1 ∧ c ∉ p.1 ∧ ∃ b ∈ p.2, isTrailing b = false)
    (h : Spoiled c t) : Spoiled c (replaceEach ps t) := by
  induction ps generalizing t with
  | nil => exact h
  | cons p ps ih =>
    obtain ⟨⟨hpat, hspace, hc, hrep⟩, hps⟩ := List.forall_mem_cons.mp hps
    exact ih hps (h.replaceAll hpat hspace hc hrep)

/-- The ellipsis brings a space. -/
theorem spoiled_replaceAll_ellipsis (x : List UInt8) {y : List UInt8}
    (hy : ∃ b ∈ y, isTrailing b = false) :
    Spoiled 32 (replaceAll ellipsis [44, 32] (x ++ (ellipsis ++ 32 :: y))) := by
  have hpat : ellipsis ≠ [] := by decide
  have hcut : (0xE2 : UInt8) ∉ ellipsis.tail := by decide
  have hspace : (32 : UInt8) ∉ ellipsis := by decide
  have hleft : replaceAll ellipsis [44, 32] (x ++ (ellipsis ++ 32 :: y)) =
      replaceAll ellipsis [44, 32] x ++ replaceAll ellipsis [44, 32] (ellipsis ++ 32 :: y) :=
    replaceAll_append hpat hcut x _
  have hright : replaceAll ellipsis [44, 32] (32 :: y) = 32 :: replaceAll ellipsis [44, 32] y := by
    simpa using replaceAll_append_cons hpat hspace [] y
  have hrep : ∃ b ∈ ([44, 32] : List UInt8), isTrailing b = false := by decide
  obtain ⟨b, hb, hfalse⟩ := exists_mem_replaceAll hpat hrep hy
  rw [hleft, replaceAll_pattern hpat, hright]
  exact ⟨replaceAll ellipsis [44, 32] x ++ [44], replaceAll ellipsis [44, 32] y, by simp, b,
    List.mem_cons_of_mem 32 hb, hfalse⟩

/-- A comma takes one of two spaces. -/
theorem Spoiled.replaceAll_comma (h : Spoiled 32 t) :
    ∃ c ∈ ([32, 44] : List UInt8), Spoiled c (Replace.replaceAll [32, 44] [44] t) := by
  obtain ⟨x, y, rfl, hy⟩ := h
  have hpat : ([32, 44] : List UInt8) ≠ [] := by decide
  have hcut : (32 : UInt8) ∉ ([32, 44] : List UInt8).tail := by decide
  have hfirst : ¬ [32, 44] <+: 32 :: 32 :: y := by simp
  rw [replaceAll_append hpat hcut, replaceAll_cons hfirst]
  by_cases hcomma : [32, 44] <+: 32 :: y
  · obtain ⟨v, hv⟩ := hcomma
    rw [← hv, replaceAll_pattern hpat]
    exact ⟨44, by simp, _, _, rfl, 44, by simp, rfl⟩
  · have hrep : ∃ b ∈ ([44] : List UInt8), isTrailing b = false := by decide
    have hkept := exists_mem_replaceAll hpat hrep hy
    rw [replaceAll_cons hcomma] at hkept ⊢
    exact ⟨32, by simp, _, _, rfl, hkept⟩

/-- **An ellipsis in front of a space spoils the text.** -/
theorem spoiled_uncommonPunctuation (x : List UInt8) {y : List UInt8}
    (hy : ∃ b ∈ y, isTrailing b = false) : ∃ c ∈ ([32, 44] : List UInt8),
      Spoiled c (replaceEach uncommonPunctuation (x ++ (ellipsis ++ 32 :: y))) := by
  have hquotes : ∀ c ∈ ([32, 44] : List UInt8), ∀ p ∈ curlyQuotes, p.1 ≠ [] ∧ 32 ∉ p.1 ∧
      c ∉ p.1 ∧ ∃ b ∈ p.2, isTrailing b = false := by simp [curlyQuotes, isTrailing]
  have hearly : Spoiled 32 (replaceEach earlyPunctuation (x ++ (ellipsis ++ 32 :: y))) := by
    rw [earlyPunctuation, replaceEach_cons]
    exact (spoiled_replaceAll_ellipsis x hy).replaceEach (by decide)
  rw [uncommonPunctuation, replaceEach_append, replaceEach_cons]
  obtain ⟨c, hc, hspoiled⟩ := hearly.replaceAll_comma
  exact ⟨c, hc, hspoiled.replaceEach (hquotes c hc)⟩

/-- It stays in front of a space until then. -/
theorem exists_squeeze_ellipsis {b : UInt8} (hs : s = u ++ (ellipsis ++ 32 :: v)) (hb : b ∈ v)
    (hfalse : isTrailing b = false) : ∃ x y,
      squeeze (fun c => c == 32) 32 false (capitalizeFirst s) = x ++ (ellipsis ++ 32 :: y) ∧
        ∃ b ∈ y, isTrailing b = false := by
  have hspace : ∀ x ∈ ellipsis, (x == 32) = false := by simp [ellipsis]
  have hcap : ∃ u', capitalizeFirst s = u' ++ (ellipsis ++ 32 :: v) := by
    cases u with
    | nil => exact ⟨[], by rw [hs, List.nil_append, capitalizeFirst_ellipsis]⟩
    | cons c u => exact ⟨capitalizeFirst (c :: u), by rw [hs, capitalizeFirst_append (by simp)]⟩
  obtain ⟨u', hu'⟩ := hcap
  refine ⟨squeeze (fun c => c == 32) 32 false u', squeeze (fun c => c == 32) 32 true v, ?_, b,
    mem_squeeze_of_not ?_ hb, hfalse⟩
  · rw [hu', squeeze_append_of_not (by decide) hspace]
    simp [squeeze]
  · rw [beq_eq_false_iff_ne]
    rintro rfl
    cases hfalse

/-- **What is spoiled** is not the normal form of anything. -/
theorem Spoiled.not_puncNormal (hc : c ∈ ([32, 44] : List UInt8)) (h : Spoiled c t) :
    ¬ PuncNormal (withPeriod (t.rdropWhile isTrailing)) := by
  obtain ⟨x, y, rfl, hy⟩ := h
  intro hnormal
  have hin : [32, c] <:+: withPeriod ((x ++ 32 :: c :: y).rdropWhile isTrailing) := by
    refine List.IsInfix.trans ?_ (prefix_withPeriod _).isInfix
    have hsplit : x ++ 32 :: c :: y = (x ++ [32]) ++ c :: y := by simp
    rw [hsplit, rdropWhile_append_of_exists hy]
    obtain ⟨d, t, ht⟩ := List.exists_cons_of_ne_nil
      (List.ne_nil_of_mem (exists_mem_rdropWhile hy).choose_spec.1)
    have hpre := List.rdropWhile_prefix isTrailing (c :: y)
    rw [ht] at hpre ⊢
    obtain rfl := (List.cons_prefix_cons.mp hpre).1
    exact ⟨x, t, by simp⟩
  rw [List.mem_pair] at hc
  rcases hc with rfl | rfl
  · exact hnormal.spaces hin
  · exact hnormal.common ([32, 44], [44]) (by decide) hin

/-- **Nothing is left of spaces.** -/
theorem puncNorm_of_trailing (hne : s ≠ []) (hs : ∀ b ∈ s, isTrailing b = true) :
    puncNorm s = [] := by
  have hcap : capitalizeFirst s = s := by
    refine capitalizeFirst_of_head fun c hc => ?_
    by_contra hlower
    rw [Bool.not_eq_false] at hlower
    have hletter := (capital_of_isLower hlower).2.2.1
    rw [hs c (List.mem_of_mem_head? hc)] at hletter
    cases hletter
  have hall : ∀ b ∈ squeeze (fun c => c == 32) 32 false s, isTrailing b = true := by
    intro b hb
    rcases mem_squeeze hb with hb | rfl
    · exact hs b hb
    · rfl
  have hcalls := replaceEach_append_trailing hall []
  have hnil : replaceEach uncommonPunctuation ([] : List UInt8) = [] :=
    replaceEach_eq_self (by decide)
  rw [hnil, List.nil_append] at hcalls
  rw [puncNorm_of_ne_nil hne, hcap, hcalls, List.rdropWhile_eq_nil_iff.mpr hall]
  rfl

end Parts

/-! ### When it comes out -/

/-- **The normal form** comes out and stays if there is no text, or something in it besides what is
stripped, and behind an ellipsis and a space only that. -/
theorem puncNormal_iff (text : List UInt8) :
    (PuncNormal (puncNorm text) ∧ puncNorm (puncNorm text) = puncNorm text) ↔ Settles text := by
  constructor
  · rintro ⟨hnormal, -⟩
    by_cases hne : text = []
    · exact .inl hne
    · refine .inr ⟨?_, fun u v htext b hb => ?_⟩
      · by_contra hall
        rw [puncNorm_of_trailing hne fun b hb => by simpa using fun h => hall ⟨b, hb, h⟩] at hnormal
        obtain ⟨last, hlast, -⟩ := hnormal.ending
        cases hlast
      · by_contra hfalse
        rw [Bool.not_eq_true] at hfalse
        obtain ⟨x, y, hcollapsed, hy⟩ := exists_squeeze_ellipsis htext hb hfalse
        obtain ⟨c, hc, hspoiled⟩ := spoiled_uncommonPunctuation x hy
        rw [puncNorm_of_ne_nil hne, hcollapsed] at hnormal
        exact hspoiled.not_puncNormal hc hnormal
  · rintro (rfl | ⟨hs, hell⟩)
    · have hnormal : PuncNormal needText := ⟨⟨46, rfl, by decide⟩, by decide, by decide⟩
      exact ⟨hnormal, puncNorm_eq_self hnormal (by simp [puncNorm, needText, isLower])⟩
    · obtain ⟨hnormal, hhead⟩ := puncNormal_puncNorm hs hell
      exact ⟨hnormal, puncNorm_eq_self hnormal hhead⟩

/-- Nothing is left of three spaces, and there are two in what `a… b` becomes. -/
theorem not_forall_puncNormal : puncNorm [32, 32, 32] = [] ∧
    [32, 32] <:+: puncNorm [97, 0xE2, 0x80, 0xA6, 32, 98] ∧
      ¬ ∀ text, PuncNormal (puncNorm text) ∧ puncNorm (puncNorm text) = puncNorm text := by
  have hnil : puncNorm [32, 32, 32] = [] := puncNorm_of_trailing (by simp) (by simp [isTrailing])
  have htwo : puncNorm [97, 0xE2, 0x80, 0xA6, 32, 98] = [65, 44, 32, 32, 98, 46] := by
    decide +kernel
  refine ⟨hnil, by rw [htwo]; decide, fun h => ?_⟩
  obtain ⟨last, hlast, -⟩ := (h [32, 32, 32]).1.ending
  rw [hnil] at hlast
  cases hlast

end Chatterbox

end WhisperCpp
