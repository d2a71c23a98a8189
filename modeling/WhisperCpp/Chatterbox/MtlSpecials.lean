import WhisperCpp.Chatterbox.MtlTokenizer

/-!
# Special tokens in a text

A text never has `[START]` or `[STOP]` in its normal form. Lowercase has no `S`, and what the
decomposition gives back is the `SM` of one sign. A space becomes `[SPACE]`. So no `S` comes before a
`T`, and this stays so in every part of the text, as bytes or as code points.

The ids of the two tokens may still be ids of something else.

## Main definitions

* `NoSt`, `Tidy` — no `S` before a `T`, in code points and in bytes that are not longer than needed
* `MtlTokenizer.OwnIds` — no other token has the ids of the two

## Main results

* `tidy_normalized`, `tidy_prepared` — texts
* `MtlTokenizer.encode_avoids` — the ids of a text
-/

namespace WhisperCpp

namespace Chatterbox

open Bpe

/-! ### No `S` before a `T` -/

/-- Code points that may be next to each other. -/
def NotSt (a b : ℕ) : Prop := a = 0x53 → b ≠ 0x54

/-- No `S` before a `T` in a list of code points. -/
def NoSt (cps : List ℕ) : Prop := cps.IsChain NotSt

/-- Bytes that may be next to each other: what starts with `0xE0` or `0xF0` is not too long. -/
def Adjacent (a b : UInt8) : Prop :=
  (a = 0x53 → b ≠ 0x54) ∧ (a = 0xE0 → 0xA0 ≤ b) ∧ (a = 0xF0 → 0x90 ≤ b)

instance : DecidableRel Adjacent := fun _ _ => inferInstanceAs (Decidable (_ ∧ _ ∧ _))

/-- No `S` before a `T`, and none is hidden in bytes that are too long. -/
structure Tidy (s : List UInt8) : Prop where
  chain : s.IsChain Adjacent
  short : ∀ b ∈ s, b ≠ 0xC0 ∧ b ≠ 0xC1

section Lists

variable {α β : Type*} {l : List α}

theorem isChain_of_forall_mem {R : α → α → Prop} (h : ∀ a ∈ l, ∀ b, R a b) : l.IsChain R := by
  induction l with
  | nil => exact .nil
  | cons a l ih =>
    obtain ⟨ha, hl⟩ := List.forall_mem_cons.mp h
    rw [List.isChain_cons]
    exact ⟨fun b _ => ha b, ih hl⟩

/-- A chain of blocks. -/
theorem isChain_flatMap {R : α → α → Prop} {S : β → β → Prop} {f : α → List β} (h : l.IsChain R)
    (hne : ∀ a ∈ l, f a ≠ []) (hblock : ∀ a ∈ l, (f a).IsChain S)
    (hjoin : ∀ a ∈ l, ∀ b ∈ l, R a b → ∀ x ∈ (f a).getLast?, ∀ y ∈ (f b).head?, S x y) :
    (l.flatMap f).IsChain S := by
  induction l with
  | nil => exact .nil
  | cons a l ih =>
    obtain ⟨hne, hne'⟩ := List.forall_mem_cons.mp hne
    obtain ⟨hblock, hblock'⟩ := List.forall_mem_cons.mp hblock
    have hmem : ∀ {b}, b ∈ l → b ∈ a :: l := List.mem_cons_of_mem a
    rw [List.flatMap_cons, List.isChain_append]
    refine ⟨hblock, ih h.tail hne' hblock' fun b hb c hc => hjoin b (hmem hb) c (hmem hc), ?_⟩
    intro x hx y hy
    cases l with
    | nil => cases hy
    | cons b l =>
      have hb := (List.isChain_cons_cons.mp h).1
      have hhead : (f b).head? = some y := by
        rw [List.flatMap_cons, List.head?_append_of_ne_nil _ (hne' b List.mem_cons_self)] at hy
        exact hy
      exact hjoin a List.mem_cons_self b (hmem List.mem_cons_self) hb x hx y hhead

end Lists

theorem NoSt.part {l m : List ℕ} (h : NoSt l) (hm : m <:+: l) : NoSt m := by
  exact List.IsChain.infix h hm

theorem Tidy.part {s t : List UInt8} (h : Tidy s) (ht : t <:+: s) : Tidy t :=
  ⟨ List.IsChain.infix h.chain ht, fun b hb => h.short b (ht.subset hb)⟩

/-- **The two tokens are in no such text.** -/
theorem Tidy.not_special {s : List UInt8} (h : Tidy s) :
    ¬ bytesOf "[START]" <:+: s ∧ ¬ bytesOf "[STOP]" <:+: s := by
  have hst : ¬ ([0x53, 0x54] : List UInt8).IsChain Adjacent := by decide
  constructor
  · intro hsub
    exact hst ((h.part hsub).part ⟨bytesOf "[", bytesOf "ART]", by decide⟩).chain
  · intro hsub
    exact hst ((h.part hsub).part ⟨bytesOf "[", bytesOf "OP]", by decide⟩).chain

/-! ### The normal form -/

/-- The code points with an `S` in their decomposition that are no lowercase. -/
def capitals : List ℕ :=
  [0x015A, 0x015C, 0x015E, 0x0160, 0x0218, 0x1E60, 0x1E62, 0x1E64, 0x1E66, 0x1E68, 0x24C8, 0xFF33]

/-- Every decomposition with an `S` is one of a capital, or `SM`. -/
theorem mtlNfkdTable_s : ∀ e ∈ mtlNfkdTable,
    e.2 ≠ [] ∧ (0x53 ∈ e.2 → e.2 = [0x53, 0x4D] ∨ e.1 ∈ capitals) := by decide +kernel

theorem mtlNfkdTable_lt : ∀ e ∈ mtlNfkdTable, ∀ c ∈ e.2, c < 0x200000 := by decide +kernel

/-- Lowercase has no capitals. -/
theorem mtlLowerTable_s : ∀ e ∈ mtlLowerTable,
    ∀ c ∈ e.2, c ≠ 0x53 ∧ c ∉ capitals ∧ c < 0x200000 := by decide +kernel

theorem findEntry_capitals : ∀ c ∈ capitals, findEntry mtlLowerTable c 0 698 ≠ none := by
  decide +kernel

theorem mem_of_findEntry {α : Type} {table : List (ℕ × α)} {cp lo hi : ℕ} {a : α}
    (h : findEntry table cp lo hi = some a) : (cp, a) ∈ table := by
  induction lo, hi using findEntry.induct table cp with
  | case1 lo hi hlt hnone =>
    rw [findEntry, if_pos hlt, hnone] at h
    cases h
  | case2 lo hi hlt e he heq =>
    rw [findEntry, if_pos hlt, he] at h
    simp only [heq, if_pos] at h
    obtain rfl := Option.some.inj h
    exact heq ▸ List.mem_of_getElem? he
  | case3 lo hi hlt e he hne hlow ih =>
    rw [findEntry, if_pos hlt, he] at h
    simp only [hne, hlow, if_false, if_true] at h
    exact ih h
  | case4 lo hi hlt e he hne hlow ih =>
    rw [findEntry, if_pos hlt, he] at h
    simp only [hne, hlow, if_false] at h
    exact ih h
  | case5 lo hi hlt =>
    rw [findEntry, if_neg hlt] at h
    cases h

/-- What lowercase is made of. -/
theorem of_mem_appendLowercaseCp {cp x : ℕ} (hcp : cp < 0x200000)
    (h : x ∈ appendLowercaseCp cp) : x ≠ 0x53 ∧ x ∉ capitals ∧ x < 0x200000 := by
  rw [appendLowercaseCp] at h
  split at h
  · rename_i hupper
    obtain rfl := List.mem_singleton.mp h
    have hall : ∀ c ∈ capitals, 0x7A < c := by decide
    exact ⟨by omega, fun hmem => absurd (hall _ hmem) (by omega), by omega⟩
  · rename_i hupper
    split at h
    · rename_i data hdata
      exact mtlLowerTable_s _ (mem_of_findEntry hdata) x h
    · rename_i hnone
      obtain rfl := List.mem_singleton.mp h
      exact ⟨by omega, fun hmem => findEntry_capitals x hmem hnone, hcp⟩

theorem of_mem_hangulParts {base x : ℕ} (h : x ∈ hangulParts base) :
    0x1100 ≤ x ∧ x ≤ 0x11C2 + base := by
  rw [hangulParts, List.mem_append] at h
  have hdiv := Nat.div_le_self base (21 * 28)
  have hmod := Nat.mod_lt base (show 0 < 28 by decide)
  have hv : base % (21 * 28) / 28 < 21 := by
    rw [Nat.div_lt_iff_lt_mul (by decide)]
    exact Nat.mod_lt _ (by decide)
  rcases h with h | h
  · rcases List.mem_cons.mp h with rfl | h
    · omega
    · obtain rfl := List.mem_singleton.mp h
      omega
  · split at h
    · obtain rfl := List.mem_singleton.mp h
      omega
    · cases h

theorem hangulParts_ne_nil (base : ℕ) : hangulParts base ≠ [] := nofun

theorem lt_of_mem_appendNfkdCp {cp x : ℕ} (hcp : cp < 0x200000) (hx : x ∈ appendNfkdCp cp) :
    x < 0x200000 := by
  rw [appendNfkdCp] at hx
  split at hx
  · have hle := (of_mem_hangulParts hx).2
    omega
  · split at hx
    · rename_i data hdata
      exact mtlNfkdTable_lt _ (mem_of_findEntry hdata) x hx
    · rwa [List.mem_singleton.mp hx]

/-- What a decomposition is made of. -/
theorem appendNfkdCp_spec {cp : ℕ} (hs : cp ≠ 0x53) (hcapital : cp ∉ capitals)
    (hcp : cp < 0x200000) : appendNfkdCp cp ≠ [] ∧
      (appendNfkdCp cp = [0x53, 0x4D] ∨ 0x53 ∉ appendNfkdCp cp) ∧
      ∀ x ∈ appendNfkdCp cp, x < 0x200000 := by
  rw [appendNfkdCp]
  split
  · rename_i hangul
    refine ⟨hangulParts_ne_nil _, .inr fun h => ?_, fun x hx => ?_⟩
    · have hge := (of_mem_hangulParts h).1
      omega
    · have hle := (of_mem_hangulParts hx).2
      omega
  · split
    · rename_i data hdata
      have hmem := mem_of_findEntry hdata
      obtain ⟨hne, hdata⟩ := mtlNfkdTable_s _ hmem
      refine ⟨hne, ?_, mtlNfkdTable_lt _ hmem⟩
      by_cases hin : 0x53 ∈ data
      · exact .inl ((hdata hin).resolve_right hcapital)
      · exact .inr hin
    · refine ⟨nofun, .inr fun h => hs (List.mem_singleton.mp h).symm, fun x hx => ?_⟩
      rwa [List.mem_singleton.mp hx]

/-- The decomposition of lowercase. -/
theorem noSt_flatMap_appendNfkdCp {cps : List ℕ}
    (h : ∀ x ∈ cps, x ≠ 0x53 ∧ x ∉ capitals ∧ x < 0x200000) :
    NoSt (cps.flatMap appendNfkdCp) ∧ ∀ x ∈ cps.flatMap appendNfkdCp, x < 0x200000 := by
  have hspec := fun x hx => appendNfkdCp_spec (h x hx).1 (h x hx).2.1 (h x hx).2.2
  constructor
  · refine isChain_flatMap (R := fun _ _ => True) (isChain_of_forall_mem fun _ _ _ => trivial)
      (fun a ha => (hspec a ha).1) (fun a ha => ?_) fun a ha b _ _ x hx y _ => ?_
    · rcases (hspec a ha).2.1 with hsm | hno
      · rw [hsm]
        exact List.isChain_pair.mpr fun _ => by decide
      · exact isChain_of_forall_mem fun x hx y heq => absurd (heq ▸ hx) hno
    · rcases (hspec a ha).2.1 with hsm | hno
      · rw [hsm] at hx
        obtain rfl := Option.some.inj hx
        exact nofun
      · exact fun heq => absurd (heq ▸ List.mem_of_getLast? hx) hno
  · intro x hx
    obtain ⟨a, ha, hx⟩ := List.mem_flatMap.mp hx
    exact (hspec a ha).2.2 x hx

theorem mem_canonicalReorder {cps : List ℕ} {x : ℕ} (h : x ∈ canonicalReorder cps) : x ∈ cps := by
  induction cps using canonicalReorder.induct with
  | case1 cps hnil =>
    rwa [canonicalReorder, if_pos hnil] at h
  | case2 cps hne ih =>
    rw [canonicalReorder, if_neg hne, List.mem_append, List.mem_append,
      List.mem_insertionSort] at h
    rcases h with (h | h) | h
    · exact (List.takeWhile_sublist _).subset h
    · exact (List.dropWhile_sublist _).subset ((List.takeWhile_sublist _).subset h)
    · exact (List.dropWhile_sublist _).subset ((List.dropWhile_sublist _).subset (ih h))

/-- Only marks change their places, and `S` and `T` are none. -/
theorem NoSt.canonicalReorder {cps : List ℕ} (h : NoSt cps) : NoSt (canonicalReorder cps) := by
  have hs : isStarter 0x53 = true := by rfl
  have ht : isStarter 0x54 = true := by rfl
  induction cps using Chatterbox.canonicalReorder.induct with
  | case1 cps hnil =>
    rwa [Chatterbox.canonicalReorder, if_pos hnil]
  | case2 cps hne ih =>
    rw [Chatterbox.canonicalReorder, if_neg hne]
    have hmark : ∀ x ∈ ((cps.dropWhile isStarter).takeWhile fun cp => !isStarter cp).insertionSort
        (fun a b => combiningClass a ≤ combiningClass b), isStarter x = false := by
      intro x hx
      rw [List.mem_insertionSort] at hx
      simpa using List.mem_takeWhile_imp hx
    have hsorted : ((cps.dropWhile isStarter).takeWhile fun cp => !isStarter cp).insertionSort
        (fun a b => combiningClass a ≤ combiningClass b) ≠ [] := by
      have hhead := List.head_dropWhile_not isStarter hne
      intro hnil
      have hlen := congrArg List.length hnil
      rw [List.length_insertionSort, ← List.cons_head_tail hne, List.takeWhile_cons, hhead] at hlen
      cases hlen
    generalize ((cps.dropWhile isStarter).takeWhile fun cp => !isStarter cp).insertionSort
      (fun a b => combiningClass a ≤ combiningClass b) = sorted at hmark hsorted ⊢
    have hrest := ih (h.part ((List.dropWhile_suffix _).trans (List.dropWhile_suffix _)).isInfix)
    refine List.isChain_append.mpr ⟨List.isChain_append.mpr ⟨?_, ?_, ?_⟩, hrest, ?_⟩
    · exact h.part (List.takeWhile_prefix _).isInfix
    · exact isChain_of_forall_mem fun x hx y heq => by
        rw [← heq, hmark x hx] at hs
        cases hs
    · intro x _ y hy _ heq
      rw [← heq, hmark y (List.mem_of_mem_head? hy)] at ht
      cases ht
    · intro x hx y _ heq
      rw [List.getLast?_append_of_ne_nil _ hsorted] at hx
      rw [← heq, hmark x (List.mem_of_getLast? hx)] at hs
      cases hs

/-! ### Bytes -/

/-- A byte that may be before any other. -/
def Quiet (b : UInt8) : Prop := b ≠ 0x53 ∧ b ≠ 0xC0 ∧ b ≠ 0xC1 ∧ b ≠ 0xE0 ∧ b ≠ 0xF0

instance : DecidablePred Quiet := fun _ => inferInstanceAs (Decidable (_ ∧ _ ∧ _ ∧ _ ∧ _))

theorem Quiet.adjacent {a : UInt8} (h : Quiet a) (b : UInt8) : Adjacent a b :=
  ⟨fun heq => absurd heq h.1, fun heq => absurd heq h.2.2.2.1, fun heq => absurd heq h.2.2.2.2⟩

theorem tidy_of_forall_quiet {s : List UInt8} (h : ∀ b ∈ s, Quiet b) : Tidy s :=
  ⟨isChain_of_forall_mem fun b hb => (h b hb).adjacent, fun b hb => ⟨(h b hb).2.1, (h b hb).2.2.1⟩⟩

theorem Tidy.cons {a : UInt8} {s : List UInt8} (h : Tidy s) (ha : a ≠ 0xC0 ∧ a ≠ 0xC1)
    (hs : ∀ b ∈ s.head?, Adjacent a b) : Tidy (a :: s) :=
  ⟨List.isChain_cons.mpr ⟨hs, h.chain⟩, List.forall_mem_cons.mpr ⟨ha, h.short⟩⟩

/-- A byte that is not the first one of a code point. -/
theorem quiet_continuation (x : ℕ) : Quiet (.ofNat (0x80 ||| (x &&& 0x3F))) := by
  have hall : ∀ y : Fin 64, Quiet (.ofNat (0x80 ||| y)) := by decide +kernel
  exact hall ⟨x &&& 0x3F, Nat.and_lt_two_pow x (n := 6) (by decide)⟩

/-- The first byte of a code point, and the second one if the first has no bits. -/
theorem leads : (∀ x : Fin 32, 2 ≤ x.val →
      0x80 ≤ UInt8.ofNat (0xC0 ||| x) ∧ Quiet (.ofNat (0xC0 ||| x))) ∧
    (∀ x : Fin 16, 0x80 ≤ UInt8.ofNat (0xE0 ||| x) ∧ (x.val ≠ 0 → Quiet (.ofNat (0xE0 ||| x)))) ∧
    (∀ x : Fin 8, 0x80 ≤ UInt8.ofNat (0xF0 ||| x) ∧ (x.val ≠ 0 → Quiet (.ofNat (0xF0 ||| x)))) ∧
    (∀ y : Fin 64, 32 ≤ y.val → Adjacent 0xE0 (.ofNat (0x80 ||| y))) ∧
    ∀ y : Fin 64, 16 ≤ y.val → Adjacent 0xF0 (.ofNat (0x80 ||| y)) := by
  decide +kernel

/-- A code point is its byte, or starts with a byte that is not ASCII and goes on quietly. -/
theorem utf8Append_cases {cp : ℕ} (h : cp < 0x200000) :
    (utf8Append cp = [.ofNat cp] ∧ cp < 0x80) ∨
      ∃ a b rest, utf8Append cp = a :: b :: rest ∧ 0x80 ≤ a ∧ (a ≠ 0xC0 ∧ a ≠ 0xC1) ∧
        Adjacent a b ∧ ∀ c ∈ b :: rest, Quiet c := by
  obtain ⟨hlead2, hlead3, hlead4, hE0, hF0⟩ := leads
  have hquiet : ∀ {a : UInt8}, Quiet a → (a ≠ 0xC0 ∧ a ≠ 0xC1) ∧ ∀ b, Adjacent a b :=
    fun ha => ⟨⟨ha.2.1, ha.2.2.1⟩, ha.adjacent⟩
  have hand : ∀ x, x < 64 → x &&& 0x3F = x := fun x hx =>
    Nat.and_two_pow_sub_one_of_lt_two_pow (n := 6) hx
  rw [utf8Append]
  split
  · exact .inl ⟨rfl, ‹_›⟩
  refine .inr ?_
  split
  · rename_i hge hlt
    have hx : 2 ≤ cp >>> 6 ∧ cp >>> 6 < 32 := by
      rw [Nat.shiftRight_eq_div_pow]
      omega
    obtain ⟨ha, hq⟩ := hlead2 ⟨cp >>> 6, hx.2⟩ hx.1
    refine ⟨_, _, _, rfl, ha, (hquiet hq).1, (hquiet hq).2 _, ?_⟩
    exact List.forall_mem_singleton.mpr (quiet_continuation _)
  split
  · rename_i hge _ hlt
    have hx : cp >>> 12 < 16 := by
      rw [Nat.shiftRight_eq_div_pow]
      omega
    obtain ⟨ha, hq⟩ := hlead3 ⟨cp >>> 12, hx⟩
    have htail : ∀ c ∈ [UInt8.ofNat (0x80 ||| ((cp >>> 6) &&& 0x3F)),
        UInt8.ofNat (0x80 ||| (cp &&& 0x3F))], Quiet c :=
      List.forall_mem_cons.mpr ⟨quiet_continuation _,
        List.forall_mem_singleton.mpr (quiet_continuation _)⟩
    by_cases h0 : cp >>> 12 = 0
    · have hy : 32 ≤ cp >>> 6 ∧ cp >>> 6 < 64 := by
        rw [Nat.shiftRight_eq_div_pow] at h0 ⊢
        omega
      have hadj := hE0 ⟨cp >>> 6, hy.2⟩ hy.1
      rw [h0, hand _ hy.2] at *
      exact ⟨_, _, _, rfl, by decide, by decide, hadj, htail⟩
    · exact ⟨_, _, _, rfl, ha, (hquiet (hq h0)).1, (hquiet (hq h0)).2 _, htail⟩
  · rename_i hge
    have hx : cp >>> 18 < 8 := by
      rw [Nat.shiftRight_eq_div_pow]
      omega
    obtain ⟨ha, hq⟩ := hlead4 ⟨cp >>> 18, hx⟩
    have htail : ∀ c ∈ [UInt8.ofNat (0x80 ||| ((cp >>> 12) &&& 0x3F)),
        UInt8.ofNat (0x80 ||| ((cp >>> 6) &&& 0x3F)), UInt8.ofNat (0x80 ||| (cp &&& 0x3F))],
        Quiet c :=
      List.forall_mem_cons.mpr ⟨quiet_continuation _, List.forall_mem_cons.mpr
        ⟨quiet_continuation _, List.forall_mem_singleton.mpr (quiet_continuation _)⟩⟩
    by_cases h0 : cp >>> 18 = 0
    · have hy : 16 ≤ cp >>> 12 ∧ cp >>> 12 < 64 := by
        rw [Nat.shiftRight_eq_div_pow] at h0 ⊢
        omega
      have hadj := hF0 ⟨cp >>> 12, hy.2⟩ hy.1
      rw [h0, hand _ hy.2] at *
      exact ⟨_, _, _, rfl, by decide, by decide, hadj, htail⟩
    · exact ⟨_, _, _, rfl, ha, (hquiet (hq h0)).1, (hquiet (hq h0)).2 _, htail⟩

theorem toNat_ofNat_of_lt {cp : ℕ} (h : cp < 0x80) : (UInt8.ofNat cp).toNat = cp := by
  rw [UInt8.toNat_ofNat']
  exact Nat.mod_eq_of_lt (by omega)

/-- **Code points written as bytes.** -/
theorem tidy_cpsToUtf8 {cps : List ℕ} (h : NoSt cps) (hlt : ∀ cp ∈ cps, cp < 0x200000) :
    Tidy (cpsToUtf8 cps) := by
  have hblock : ∀ cp ∈ cps, Tidy (utf8Append cp) ∧ utf8Append cp ≠ [] := by
    intro cp hcp
    rcases utf8Append_cases (hlt cp hcp) with ⟨heq, hascii⟩ | ⟨a, b, rest, heq, -, ha, hab, hquiet⟩
    · rw [heq]
      refine ⟨⟨List.isChain_singleton _, List.forall_mem_singleton.mpr ?_⟩, List.cons_ne_nil _ _⟩
      have hnat := toNat_ofNat_of_lt hascii
      constructor
      · intro hC0
        rw [hC0, show (0xC0 : UInt8).toNat = 0xC0 from rfl] at hnat
        omega
      · intro hC1
        rw [hC1, show (0xC1 : UInt8).toNat = 0xC1 from rfl] at hnat
        omega
    · rw [heq]
      refine ⟨(tidy_of_forall_quiet hquiet).cons ha fun y hy => ?_, List.cons_ne_nil _ _⟩
      obtain rfl := Option.some.inj hy
      exact hab
  constructor
  · refine isChain_flatMap h (fun a ha => (hblock a ha).2) (fun a ha => (hblock a ha).1.chain) ?_
    intro a ha b hb hab x hx y hy
    rcases utf8Append_cases (hlt a ha) with ⟨heq, hascii⟩ | ⟨_, _, _, heq, -, -, -, hquiet⟩
    · rw [heq] at hx
      obtain rfl : UInt8.ofNat a = x := Option.some.inj hx
      have hnat := toNat_ofNat_of_lt hascii
      refine ⟨fun hS hT => ?_, fun hE0 => ?_, fun hF0 => ?_⟩
      · rw [hS] at hnat
        rcases utf8Append_cases (hlt b hb) with ⟨heq', hascii'⟩ | ⟨_, _, _, heq', hge, -⟩
        · rw [heq', hT] at hy
          have hnat' := toNat_ofNat_of_lt hascii'
          rw [Option.some.inj hy] at hnat'
          exact hab hnat.symm hnat'.symm
        · rw [heq', hT] at hy
          rw [Option.some.inj hy] at hge
          exact absurd hge (by decide)
      · rw [hE0, show (0xE0 : UInt8).toNat = 0xE0 from rfl] at hnat
        omega
      · rw [hF0, show (0xF0 : UInt8).toNat = 0xF0 from rfl] at hnat
        omega
    · rw [heq, List.getLast?_cons_cons] at hx
      exact (hquiet x (List.mem_of_getLast? hx)).adjacent y
  · intro b hb
    obtain ⟨cp, hcp, hb⟩ := List.mem_flatMap.mp hb
    exact (hblock cp hcp).1.short b hb

theorem le_of_utf8Follow {x y : ℕ} {rest : List UInt8} (h : utf8Follow x rest = some y) :
    x * 64 ^ rest.length ≤ y := by
  induction rest generalizing x with
  | nil =>
    obtain rfl := Option.some.inj h
    rw [List.length_nil, Nat.pow_zero, Nat.mul_one]
  | cons b rest ih =>
    rw [utf8Follow] at h
    split at h
    · refine le_trans ?_ (ih h)
      rw [List.length_cons, Nat.pow_succ, Nat.mul_comm _ 64, ← Nat.mul_assoc]
      refine Nat.mul_le_mul_right _ (le_trans ?_ Nat.left_le_or)
      rw [Nat.shiftLeft_eq]
    · cases h

/-- What the first bytes of a tidy text say: there are bits, or the second byte has enough. -/
theorem utf8Lead_cases : ∀ i : Fin 256, UInt8.ofNat i ≠ 0xC0 → UInt8.ofNat i ≠ 0xC1 →
    ∀ p ∈ utf8Lead (.ofNat i), 2 ≤ p.1 ∧ p.2 = 1 ∨ 1 ≤ p.1 ∧ 2 ≤ p.2 ∨
      UInt8.ofNat i = 0xE0 ∧ p = (0, 2) ∨ UInt8.ofNat i = 0xF0 ∧ p = (0, 3) := by
  decide +kernel

theorem second_byte : ∀ i : Fin 256, UInt8.ofNat i &&& 0xC0 == 0x80 →
    (0xA0 ≤ UInt8.ofNat i → 32 ≤ (UInt8.ofNat i &&& 0x3F).toNat) ∧
      (0x90 ≤ UInt8.ofNat i → 16 ≤ (UInt8.ofNat i &&& 0x3F).toNat) := by
  decide +kernel

/-- Bytes that are not ASCII are not read as ASCII. -/
theorem Tidy.le_utf8Decode {b0 : UInt8} {rest : List UInt8} (h : Tidy (b0 :: rest))
    (hb0 : 0x80 ≤ b0) : 0x80 ≤ (utf8Decode b0 rest).1 := by
  rw [utf8Decode, if_neg (UInt8.not_lt.mpr hb0)]
  split
  · decide
  rename_i x extra hlead
  split
  · decide
  rename_i hlen
  split
  · decide
  rename_i y hfollow
  show 0x80 ≤ y
  have htake : (rest.take extra).length = extra := by
    rw [List.length_take]
    omega
  have hle := le_of_utf8Follow hfollow
  rw [htake] at hle
  obtain ⟨hC0, hC1⟩ := h.short b0 List.mem_cons_self
  have hcases := utf8Lead_cases ⟨b0.toNat, b0.toNat_lt⟩
  rw [UInt8.ofNat_toNat] at hcases
  -- with no bits in the first byte, those of the second are read
  have hsecond : ∀ n, extra = n + 1 → x = 0 → ∃ b ∈ rest.head?, b &&& 0xC0 == 0x80 ∧
      (b &&& 0x3F).toNat * 64 ^ n ≤ y := by
    rintro n rfl rfl
    cases rest with
    | nil => exact absurd (Nat.zero_lt_succ _) hlen
    | cons b rest =>
      rw [List.take_succ_cons, utf8Follow] at hfollow
      split at hfollow
      · rename_i hmark
        have hmore := le_of_utf8Follow hfollow
        rw [Nat.zero_shiftLeft, Nat.zero_or, List.length_take, Nat.min_eq_left] at hmore
        · exact ⟨b, rfl, hmark, hmore⟩
        · rw [List.length_cons] at hlen
          omega
      · cases hfollow
  rcases hcases hC0 hC1 (x, extra) hlead with ⟨hx, rfl⟩ | ⟨hx, hextra⟩ | ⟨hE0, hp⟩ | ⟨hF0, hp⟩
  · omega
  · have hpow : 64 ^ 2 ≤ 64 ^ extra := Nat.pow_le_pow_right (by decide) hextra
    exact le_trans (le_trans (by decide) hpow) (le_trans (Nat.le_mul_of_pos_left _ hx) hle)
  · obtain ⟨rfl, rfl⟩ := Prod.mk.inj hp
    obtain ⟨b, hb, hmark, hy⟩ := hsecond 1 rfl rfl
    have hadj := ((List.isChain_cons.mp h.chain).1 b hb).2.1 hE0
    have hbits := second_byte ⟨b.toNat, b.toNat_lt⟩
    rw [UInt8.ofNat_toNat] at hbits
    have h32 := (hbits hmark).1 hadj
    omega
  · obtain ⟨rfl, rfl⟩ := Prod.mk.inj hp
    obtain ⟨b, hb, hmark, hy⟩ := hsecond 2 rfl rfl
    have hadj := ((List.isChain_cons.mp h.chain).1 b hb).2.2 hF0
    have hbits := second_byte ⟨b.toNat, b.toNat_lt⟩
    rw [UInt8.ofNat_toNat] at hbits
    have h16 := (hbits hmark).2 hadj
    omega

/-- **Bytes read as code points.** -/
theorem Tidy.noSt {s : List UInt8} (h : Tidy s) : NoSt (utf8ToCps s) := by
  induction s using utf8ToCps.induct with
  | case1 =>
    rw [utf8ToCps]
    exact .nil
  | case2 b0 rest ih =>
    have hrest : Tidy rest := h.part (List.suffix_cons b0 rest).isInfix
    rw [utf8ToCps]
    refine List.isChain_cons.mpr ⟨?_, ih (hrest.part (List.drop_suffix _ _).isInfix)⟩
    -- ASCII is read from its byte
    have hascii : ∀ {b : UInt8} {rest : List UInt8} {c : ℕ}, Tidy (b :: rest) → c < 0x80 →
        (utf8Decode b rest).1 = c → b.toNat = c ∧ utf8Decode b rest = (c, 0) := by
      intro b rest c htidy hc heq
      have hlt : b < 0x80 := by
        by_contra hge
        have hle := htidy.le_utf8Decode (UInt8.not_lt.mp hge)
        omega
      rw [utf8Decode, if_pos hlt] at heq ⊢
      exact ⟨heq, by rw [← heq]⟩
    intro y hy hS hT
    obtain ⟨hb0, hdecode⟩ := hascii h (by decide) hS
    rw [hdecode, List.drop_zero] at hy
    cases rest with
    | nil =>
      rw [utf8ToCps] at hy
      cases hy
    | cons b rest =>
      rw [utf8ToCps] at hy
      have hb := (hascii hrest (by decide) ((Option.some.inj hy).trans hT)).1
      have hadj := (List.isChain_cons_cons.mp h.chain).1.1
      exact hadj (UInt8.toNat_inj.mp hb0) (UInt8.toNat_inj.mp hb)

/-! ### Texts -/

theorem tidy_nfkdNormalize (text : List UInt8) : ∃ cps, nfkdNormalize (utf8Lowercase text) =
    cpsToUtf8 cps ∧ NoSt cps ∧ ∀ cp ∈ cps, cp < 0x200000 := by
  have hlower : ∀ x ∈ (utf8ToCps text).flatMap appendLowercaseCp,
      x ≠ 0x53 ∧ x ∉ capitals ∧ x < 0x200000 := by
    intro x hx
    obtain ⟨cp, hcp, hx⟩ := List.mem_flatMap.mp hx
    exact of_mem_appendLowercaseCp (lt_of_mem_utf8ToCps hcp) hx
  obtain ⟨hst, hlt⟩ := noSt_flatMap_appendNfkdCp hlower
  refine ⟨_, ?_, hst.canonicalReorder, fun cp hcp => hlt cp (mem_canonicalReorder hcp)⟩
  rw [nfkdNormalize, utf8Lowercase, utf8ToCps_cpsToUtf8 fun x hx => (hlower x hx).2.2]

/-- Korean is taken apart, and nothing else is changed. -/
theorem tidy_koreanNormalize {cps : List ℕ} (h : NoSt cps) (hlt : ∀ cp ∈ cps, cp < 0x200000) :
    Tidy (koreanNormalize (cpsToUtf8 cps)) := by
  have hcases : ∀ cp, (if 0xAC00 ≤ cp ∧ cp ≤ 0xD7AF then hangulParts (cp - 0xAC00) else [cp]) = [cp] ∨
      0xAC00 ≤ cp ∧ cp ≤ 0xD7AF ∧ (if 0xAC00 ≤ cp ∧ cp ≤ 0xD7AF then hangulParts (cp - 0xAC00)
        else [cp]) = hangulParts (cp - 0xAC00) := by
    intro cp
    by_cases hcp : 0xAC00 ≤ cp ∧ cp ≤ 0xD7AF
    · exact .inr ⟨hcp.1, hcp.2, if_pos hcp⟩
    · exact .inl (if_neg hcp)
  rw [koreanNormalize, utf8ToCps_cpsToUtf8 hlt]
  have hchain : NoSt (cps.flatMap fun cp =>
      if 0xAC00 ≤ cp ∧ cp ≤ 0xD7AF then hangulParts (cp - 0xAC00) else [cp]) := by
    refine isChain_flatMap h (fun a _ => ?_) (fun a _ => ?_) fun a _ b _ hab x hx y hy hS hT => ?_
    · rcases hcases a with heq | ⟨-, -, heq⟩
      · rw [heq]
        exact List.cons_ne_nil _ _
      · rw [heq]
        exact hangulParts_ne_nil _
    · rcases hcases a with heq | ⟨-, -, heq⟩
      · rw [heq]
        exact List.isChain_singleton _
      · rw [heq]
        refine isChain_of_forall_mem fun x hx y hS => ?_
        have hge := (of_mem_hangulParts hx).1
        omega
    · have hx := List.mem_of_getLast? hx
      have hy := List.mem_of_mem_head? hy
      rcases hcases a with heq | ⟨-, -, heq⟩
      · rcases hcases b with heq' | ⟨-, -, heq'⟩
        · rw [heq, List.mem_singleton] at hx
          rw [heq', List.mem_singleton] at hy
          exact hab (hx ▸ hS) (hy ▸ hT)
        · rw [heq'] at hy
          have hge := (of_mem_hangulParts hy).1
          omega
      · rw [heq] at hx
        have hge := (of_mem_hangulParts hx).1
        omega
  have hsub : ∀ l : List ℕ, (l.dropWhile cpIsSpace).rdropWhile cpIsSpace <:+: l := fun l =>
    (List.rdropWhile_prefix cpIsSpace _).isInfix.trans (List.dropWhile_suffix cpIsSpace).isInfix
  refine tidy_cpsToUtf8 (hchain.part (hsub _)) fun x hx => ?_
  obtain ⟨cp, hcp, hx⟩ := List.mem_flatMap.mp ((hsub _).subset hx)
  rcases hcases cp with heq | ⟨-, hle, heq⟩
  · rw [heq, List.mem_singleton] at hx
    rw [hx]
    exact hlt cp hcp
  · rw [heq] at hx
    have hbound := (of_mem_hangulParts hx).2
    omega

theorem tidy_normalized (text languageId : List UInt8) : Tidy (normalized text languageId) := by
  obtain ⟨cps, heq, hst, hlt⟩ := tidy_nfkdNormalize text
  rw [normalized, heq]
  split
  · exact tidy_koreanNormalize hst hlt
  · exact tidy_cpsToUtf8 hst hlt

theorem Tidy.append {s t : List UInt8} (hs : ∀ b ∈ s, Quiet b) (ht : Tidy t) : Tidy (s ++ t) := by
  have hquiet := tidy_of_forall_quiet hs
  refine ⟨List.isChain_append.mpr ⟨hquiet.chain, ht.chain, fun x hx y _ => ?_⟩, fun b hb => ?_⟩
  · exact (hs x (List.mem_of_getLast? hx)).adjacent y
  · exact (List.mem_append.mp hb).elim (hquiet.short b) (ht.short b)

/-- **The text that is split.** -/
theorem tidy_prepared (text : List UInt8) {languageId : List UInt8}
    (h : languageId = [] ∨ languageId ∈ supportedLanguages) : Tidy (prepared text languageId) := by
  have hlanguage : ∀ l ∈ supportedLanguages, ∀ b ∈ bytesOf "[" ++ l ++ bytesOf "]", Quiet b := by
    decide +kernel
  have htxt : Tidy (if languageId = [] then normalized text languageId
      else bytesOf "[" ++ languageId ++ bytesOf "]" ++ normalized text languageId) := by
    split
    · exact tidy_normalized _ _
    · rename_i hne
      exact Tidy.append (hlanguage languageId (h.resolve_left hne)) (tidy_normalized _ _)
  rw [prepared]
  have hspace : bytesOf "[SPACE]" = [91, 83, 80, 65, 67, 69, 93] := by decide
  constructor
  · refine isChain_flatMap htxt.chain (fun a _ => ?_) (fun a _ => ?_) fun a _ b _ hab x hx y hy => ?_
    · split
      · rw [hspace]
        exact List.cons_ne_nil _ _
      · exact List.cons_ne_nil _ _
    · split
      · rw [hspace]
        decide
      · exact List.isChain_singleton _
    · split at hx
      · rw [hspace] at hx
        obtain rfl : (93 : UInt8) = x := Option.some.inj hx
        exact Quiet.adjacent (by decide) y
      · obtain rfl : a = x := Option.some.inj hx
        split at hy
        · rename_i hb
          rw [hspace] at hy
          obtain rfl : (91 : UInt8) = y := Option.some.inj hy
          rw [hb] at hab
          exact ⟨fun _ => by decide, fun hE0 => absurd (hab.2.1 hE0) (by decide),
            fun hF0 => absurd (hab.2.2 hF0) (by decide)⟩
        · obtain rfl : b = y := Option.some.inj hy
          exact hab
  · intro b hb
    obtain ⟨a, ha, hb⟩ := List.mem_flatMap.mp hb
    split at hb
    · have hall : ∀ b ∈ bytesOf "[SPACE]", b ≠ 0xC0 ∧ b ≠ 0xC1 := by decide +kernel
      exact hall b hb
    · rw [List.mem_singleton.mp hb]
      exact htxt.short a ha

/-! ### What is looked up -/

theorem infix_of_mem_chunks {cps chunk : List ℕ} (h : chunk ∈ chunks cps) : chunk <:+: cps := by
  induction cps using chunks.induct with
  | case1 cps hnil =>
    rw [chunks, hnil] at h
    cases h
  | case2 cps c rest hcons ih =>
    have hsuffix : c :: rest <:+ cps := hcons ▸ List.dropWhile_suffix _
    rw [chunks, hcons] at h
    rcases List.mem_cons.mp h with rfl | h
    · have hprefix := List.takeWhile_prefix (l := rest)
        fun d => !cpIsSpace d && cpIsWord d == cpIsWord c
      exact ((List.cons_prefix_cons.mpr ⟨rfl, hprefix⟩).isInfix).trans hsuffix.isInfix
    · have hrest := (List.dropWhile_suffix (l := rest)
        fun d => !cpIsSpace d && cpIsWord d == cpIsWord c).trans (List.suffix_cons c rest)
      exact (ih h).trans (hrest.trans hsuffix).isInfix

theorem flatten_utf8Chars (word : List UInt8) : (utf8Chars word).flatten = word := by
  induction word using utf8Chars.induct with
  | case1 => rw [utf8Chars, List.flatten_nil]
  | case2 b0 rest ih =>
    rw [utf8Chars, List.flatten_cons, ih, List.cons_append, List.take_append_drop]

/-- The words of a tidy text are tidy. -/
theorem Tidy.of_mem_wordsOf {s word : List UInt8} (h : Tidy s) (hword : word ∈ wordsOf s) :
    Tidy word := by
  obtain ⟨chunk, hchunk, rfl⟩ := List.mem_map.mp hword
  have hsub := infix_of_mem_chunks hchunk
  exact tidy_cpsToUtf8 (h.noSt.part hsub) fun cp hcp =>
    lt_of_mem_utf8ToCps (hsub.subset hcp)

namespace MtlTokenizer

variable {t : MtlTokenizer}

theorem infix_of_mem_partsOf {word part : List UInt8} (h : part ∈ t.partsOf word) :
    part <:+: word := by
  have hsub := List.infix_of_mem_flatten h
  rwa [partsOf, flatten_mergeAll, flatten_utf8Chars] at hsub

/-- The spellings of the two tokens. -/
def specials : List (List UInt8) := [bytesOf "[START]", bytesOf "[STOP]"]

/-- No other added token or key of the vocabulary has an id of the two, and the unknown token has
none. -/
structure OwnIds (t : MtlTokenizer) : Prop where
  added : ∀ a ∈ t.addedTokens, a.content ∉ specials → a.id ≠ t.sotId ∧ a.id ≠ t.eotId
  vocab : ∀ key id, t.vocab.lookup key = some id → key ∉ specials → id ≠ t.sotId ∧ id ≠ t.eotId
  unk : t.unkId ≠ t.sotId ∧ t.unkId ≠ t.eotId

theorem Tidy.not_mem_specials {s part : List UInt8} (h : Tidy s) (hpart : part <:+: s) :
    part ∉ specials := by
  obtain ⟨hstart, hstop⟩ := (h.part hpart).not_special
  intro hmem
  rcases List.mem_cons.mp hmem with rfl | hmem
  · exact hstart (List.infix_refl _)
  · exact hstop (List.mem_singleton.mp hmem ▸ List.infix_refl _)

/-- **The ids of a text are not those of `[START]` and `[STOP]`**, and these are not spelled by its
normal form. -/
theorem encode_avoids (hown : t.OwnIds) {text languageId : List UInt8} {ids : List ℤ}
    (hencode : t.encode text languageId = .ok ids) :
    (¬ bytesOf "[START]" <:+: normalized text languageId ∧
      ¬ bytesOf "[STOP]" <:+: normalized text languageId) ∧ t.sotId ∉ ids ∧ t.eotId ∉ ids := by
  refine ⟨(tidy_normalized text languageId).not_special, ?_⟩
  have hlanguage : languageId = [] ∨ languageId ∈ supportedLanguages := by
    by_contra hno
    rw [encode] at hencode
    split at hencode
    · cases hencode
    · rw [if_pos (not_or.mp hno)] at hencode
      cases hencode
  have htxt := tidy_prepared text hlanguage
  obtain rfl := eq_of_encode hencode
  have hids : ∀ id ∈ (segments t.addedTokens [] (prepared text languageId)).flatMap t.segmentIds,
      id ≠ t.sotId ∧ id ≠ t.eotId := by
    intro id hid
    obtain ⟨seg, hseg, hid⟩ := List.mem_flatMap.mp hid
    have hsub := (mem_segments hseg).2
    rw [List.nil_append] at hsub
    rw [segmentIds] at hid
    split at hid
    · rename_i hnonneg
      obtain rfl := List.mem_singleton.mp hid
      rcases (mem_segments hseg).1 with hneg | ⟨a, ha, rfl⟩
      · rw [hneg] at hnonneg
        exact absurd hnonneg (by decide)
      · exact hown.added a ha (Tidy.not_mem_specials htxt hsub)
    · obtain ⟨word, hword, hid⟩ := List.mem_flatMap.mp hid
      have htidy := (htxt.part hsub).of_mem_wordsOf hword
      obtain ⟨part, hpart, hlookup | ⟨-, rfl⟩⟩ := mem_bpeWord.mp hid
      · exact hown.vocab part id hlookup
          (Tidy.not_mem_specials htidy (infix_of_mem_partsOf hpart))
      · exact hown.unk
  exact ⟨fun h => (hids _ h).1 rfl, fun h => (hids _ h).2 rfl⟩

/-- A vocabulary of four tokens. -/
def fourTokens (a : ℤ) : MtlTokenizer where
  vocab := [(bytesOf "[START]", 0), (bytesOf "[STOP]", 1), (bytesOf "[UNK]", 2), (bytesOf "a", a)]
  idToTokenSize := max 3 (a + 1)
  bpeRanks := []
  addedTokens := [⟨bytesOf "[START]", 0⟩, ⟨bytesOf "[UNK]", 2⟩]
  unkToken := bytesOf "[UNK]"
  sotId := 0
  eotId := 1
  unkId := 2
  spaceId := -1

theorem encode_avoids_fourTokens :
    (fourTokens 3).sotId ∉ ([2, 2, 2, 2, 2, 3] : List ℤ) ∧
      (fourTokens 3).eotId ∉ ([2, 2, 2, 2, 2, 3] : List ℤ) := by
  have hown : OwnIds (fourTokens 3) := by
    refine ⟨by decide +kernel, fun key id hlookup => ?_, by decide⟩
    have hall : ∀ e ∈ (fourTokens 3).vocab, e.1 ∉ specials → e.2 ≠ 0 ∧ e.2 ≠ 1 := by decide +kernel
    exact hall (key, id) (mem_of_lookup hlookup)
  have hencode : (fourTokens 3).encode (bytesOf "[A") (bytesOf "en") = .ok [2, 2, 2, 2, 2, 3] := by
    decide +kernel
  exact (encode_avoids hown hencode).2

/-- A description with the id of `[START]` for `a`. -/
def sharedJson : List UInt8 :=
  bytesOf ("\x7b\"model\":\x7b\"type\":\"BPE\",\"vocab\":\x7b\"[START]\":0,\"[STOP]\":1," ++
    "\"[UNK]\":2,\"a\":0\x7d,\"merges\":[]\x7d,\"added_tokens\":[" ++
    "\x7b\"content\":\"[START]\",\"id\":0\x7d,\x7b\"content\":\"[UNK]\",\"id\":2\x7d]\x7d")

/-- `a` has the id of `[START]`, and three signs that are no lowercase are decomposed to `UNK`. -/
theorem not_forall_avoids : (¬ ∀ (toInt32 : List UInt8 → ℤ) (tie : ℕ → ℕ)
    (unkToken blob : List UInt8) (t : MtlTokenizer) (text languageId : List UInt8) (ids : List ℤ),
    loadFromJson toInt32 tie unkToken blob = some t → languageId ∈ supportedLanguages →
    t.encode text languageId = .ok ids → t.sotId ∉ ids ∧ t.eotId ∉ ids) ∧
    ¬ ∀ text, normalized text (bytesOf "en") ≠ bytesOf "[UNK]" := by
  constructor
  · intro h
    have hload : loadFromJson readInt id (bytesOf "[UNK]") sharedJson = some (fourTokens 0) := by
      decide +kernel
    have hencode : (fourTokens 0).encode (bytesOf "a") (bytesOf "en") = .ok [2, 2, 2, 2, 0] := by
      decide +kernel
    have havoids := h readInt id (bytesOf "[UNK]") sharedJson (fourTokens 0) (bytesOf "a")
      (bytesOf "en") [2, 2, 2, 2, 0] hload (by decide +kernel) hencode
    exact havoids.1 (by decide)
  · intro h
    refine h ([0x5B, 0xE1, 0xB5, 0x81, 0xE1, 0xB4, 0xBA, 0xE1, 0xB4, 0xB7, 0x5D] : List UInt8) ?_
    decide +kernel

end MtlTokenizer

end Chatterbox

end WhisperCpp
