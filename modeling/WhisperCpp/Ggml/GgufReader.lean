import WhisperCpp.Ggml.GgufRoundTrip
import Mathlib.Algebra.BigOperators.Group.List.Basic

/-!
# What is read

Of every buffer that the reader accepts, the context is well formed: keys and names are distinct,
every value is one of its type, every tensor is behind the ones before it, and the data are a part
of the buffer. A tensor whose number of bytes, brought up to the alignment, is not a number of 64 bits
is accepted too, with no data.

## Main definitions

* `Accepted` — a well-formed context of a buffer

## Main results

* `accepted_of_initFromBuffer` — what is read is well formed
-/

namespace WhisperCpp

namespace Gguf

open Ggml Consumer
open Loader (ofBytes)

/-- What is known of a pair. -/
def Kv.Sound (kv : Kv) : Prop := kv.key ≠ [] ∧ kv.Typed

/-- What is known of a tensor. -/
structure TensorInfo.Sound (ti : TensorInfo) : Prop where
  name : 0 ∉ ti.name ∧ ti.name.length < 64
  dims : ∀ j, 0 ≤ ti.ne j
  elements : checkElements ti.ne = .ok ()
  type : checkType ti.type ti.ne = .ok ()

/-- A context of a buffer. -/
structure Accepted (buf : List UInt8) (c : Context) : Prop where
  version : c.version = 2 ∨ c.version = 3
  keys : (c.kv.map Kv.key).Nodup
  kv : ∀ kv ∈ c.kv, kv.Sound
  alignment : findAlignment c.kv = .ok c.alignment
  names : (c.info.map TensorInfo.name).Nodup
  info : ∀ ti ∈ c.info, ti.Sound
  offsets : ∀ front ti back, c.info = front ++ ti :: back → ti.offset = totalSize c.alignment front
  size : c.size = totalSize c.alignment c.info ∧ c.size < 2 ^ 64
  data : c.data = some ((buf.drop c.offset).take c.size) ∧ c.offset + c.size ≤ buf.length
  /-- The data of a tensor are among the data, unless the padding of its size wraps around. -/
  inBounds : ∀ ti ∈ c.info, ti.nbytes + c.alignment ≤ 2 ^ 64 → ti.offset + ti.nbytes ≤ c.size

/-! ### Pairs -/

section Pairs

variable {key : List UInt8} {isArray : Bool} {n size : ℕ} {elem : Reader (List UInt8)}
  {P : List UInt8 → Prop}

theorem ensures_lift {α : Type} {r : Except Stop α} : Ensures (lift r) fun a => r = .ok a := by
  intro s a s' heq
  rw [lift] at heq
  cases r with
  | error e => cases heq
  | ok b =>
    cases heq
    rfl

/-- A value alone or a vector of values. -/
theorem ensures_readValues (h : Ensures elem P) :
    Ensures (readValues elem size isArray n) fun l =>
      (∀ x ∈ l, P x) ∧ (isArray = false → l.length = 1) := by
  cases isArray with
  | true =>
    rw [readValues, if_pos rfl, readVector]
    split_ifs with hn
    · exact ensures_fail
    · refine ensures_true.bind fun _ _ => ?_
      have hnil : ∀ x ∈ ([] : List (List UInt8)), P x := List.forall_mem_nil P
      exact (ensures_collect hnil (fun l hl => h.mono fun a ha x hx => by
        rcases List.mem_append.mp hx with hx | hx
        · exact hl x hx
        · rwa [List.mem_singleton.mp hx]) n).mono fun l hl => ⟨hl.1, (by rintro ⟨⟩)⟩
  | false =>
    refine h.bind fun v hv => ensures_pure ⟨fun x hx => ?_, fun _ => rfl⟩
    rwa [List.mem_singleton.mp hx]

/-- Numbers in pieces of their size. -/
theorem length_flatten_pieces {parts : List (List UInt8)} (h : ∀ p ∈ parts, p.length = size)
    (hone : isArray = false → parts.length = 1) :
    size ∣ parts.flatten.length ∧ (isArray = false → parts.flatten.length = size) := by
  have hlen : parts.flatten.length = parts.length * size := by
    rw [List.length_flatten, List.sum_eq_card_nsmul _ size (by simpa using h), List.length_map,
      Nat.nsmul_eq_mul]
  rw [hlen]
  refine ⟨Nat.dvd_mul_left _ _, fun hnot => ?_⟩
  rw [hone hnot, Nat.one_mul]

theorem boolByte_eq (b : UInt8) : boolByte b = 0 ∨ boolByte b = 1 := by
  rw [boolByte]
  split_ifs
  · exact .inr rfl
  · exact .inl rfl

/-- The elements that are read are of the type. -/
theorem ensures_readElements (type : GgufType) :
    Ensures (readElements key isArray n type) fun kv => kv.key = key ∧ kv.Typed := by
  have hnumbers (t : GgufType) :
      Ensures (readValues (Consumer.take .rejected t.size) t.size isArray n) fun l =>
        (∀ x ∈ l, x.length = t.size) ∧ (isArray = false → l.length = 1) :=
    ensures_readValues ensures_take
  by_cases hstring : type = .string
  · subst hstring
    refine (ensures_readValues (P := fun _ => True) ensures_true).bind fun strings hstrings =>
      ensures_pure ⟨rfl, nofun, fun _ => ⟨rfl, hstrings.2⟩, fun h => absurd rfl h, nofun⟩
  · by_cases hbool : type = .bool
    · subst hbool
      refine (hnumbers .bool).bind fun parts hparts => ensures_pure ⟨rfl, ?_⟩
      obtain ⟨hdvd, hone⟩ := length_flatten_pieces hparts.1 hparts.2
      rw [← List.length_map boolByte] at hdvd hone
      refine ⟨nofun, nofun, fun _ => ⟨rfl, hdvd, hone⟩, fun _ b hb => ?_⟩
      obtain ⟨b, -, rfl⟩ := List.mem_map.mp hb
      exact boolByte_eq b
    · by_cases harray : type = .array
      · subst harray
        exact ensures_fail
      · have hread := (hnumbers type).bind (Q := fun kv : Kv => kv.key = key ∧ kv.Typed)
          (f := fun parts => pure ⟨key, isArray, type, parts.flatten, []⟩) fun parts hparts =>
            ensures_pure ⟨rfl, harray, fun h => absurd h hstring,
              fun _ => ⟨rfl, length_flatten_pieces hparts.1 hparts.2⟩, fun h => absurd h hbool⟩
        cases type <;> first | exact hread | contradiction

theorem ensures_readEmplace (type : GgufType) :
    Ensures (readEmplace key isArray type n) fun kv => kv.key = key ∧ kv.Sound := by
  refine (ensures_readElements type).bind fun kv hkv => ?_
  split_ifs with hkey
  · exact ensures_fail
  · exact ensures_pure ⟨hkv.1, by rwa [hkv.1], hkv.2⟩

/-- **A pair** has a key that the ones before it do not have. -/
theorem ensures_readKv (previous : List Kv) :
    Ensures (readKv previous) fun kv => kv.key ∉ previous.map Kv.key ∧ kv.Sound := by
  refine ensures_true.bind fun key _ => ?_
  split_ifs with hkey
  · exact ensures_fail
  · refine ensures_true.bind fun code _ => ?_
    have hread (isArray : Bool) (type : GgufType) (n : ℕ) :
        Ensures (readEmplace key isArray type n) fun kv =>
          kv.key ∉ previous.map Kv.key ∧ kv.Sound :=
      (ensures_readEmplace type).mono fun kv hkv => ⟨hkv.1 ▸ hkey, hkv.2⟩
    split
    · exact ensures_fail
    · refine ensures_true.bind fun code _ => ensures_true.bind fun n _ => ?_
      split
      · exact ensures_fail
      · exact hread _ _ _
    · exact hread _ _ _

theorem ensures_readKvs (n : ℕ) : Ensures (Consumer.collect readKv n []) fun l =>
    (l.map Kv.key).Nodup ∧ ∀ kv ∈ l, kv.Sound := by
  have hnil : (([] : List Kv).map Kv.key).Nodup ∧ ∀ kv ∈ ([] : List Kv), kv.Sound :=
    ⟨List.nodup_nil, nofun⟩
  refine (ensures_collect hnil (fun l hl => (ensures_readKv l).mono fun kv hkv => ?_) n).mono
    fun l hl => hl.1
  refine ⟨?_, fun x hx => ?_⟩
  · rw [List.map_append, List.map_singleton, ← List.concat_eq_append]
    exact hl.1.concat hkv.1
  · rcases List.mem_append.mp hx with hx | hx
    · exact hl.2 x hx
    · rw [List.mem_singleton.mp hx]
      exact hkv.2

end Pairs

/-! ### Tensors -/

section Tensors

variable {alignment size total : ℕ} {l : List TensorInfo}

theorem ensures_readDim : Ensures readDim fun x => 0 ≤ x := by
  refine ensures_true.bind fun x _ => ?_
  split_ifs with hx
  · exact ensures_fail
  · exact ensures_pure (not_lt.mp hx)

/-- The name up to the first zero. -/
theorem cStr_sound (s : List UInt8) : 0 ∉ cStr s ∧ (cStr s).length ≤ s.length := by
  refine ⟨fun hmem => ?_, (List.takeWhile_sublist _).length_le⟩
  have hne := List.mem_takeWhile_imp hmem
  simp at hne

theorem getD_nonneg {dims : List ℤ} (h : ∀ x ∈ dims, 0 ≤ x) (j : ℕ) : 0 ≤ dims.getD j 1 := by
  rw [List.getD_eq_getElem?_getD]
  cases hj : dims[j]? with
  | none => decide
  | some x => exact h x (List.mem_of_getElem? hj)

/-- **A tensor** has a name that the ones before it do not have. -/
theorem ensures_readTensorInfo (previous : List TensorInfo) :
    Ensures (readTensorInfo previous) fun ti =>
      ti.name ∉ previous.map TensorInfo.name ∧ ti.Sound := by
  refine ensures_true.bind fun name _ => ?_
  split_ifs with hlen hname
  · exact ensures_fail
  · exact ensures_fail
  refine ensures_true.bind fun n _ => ?_
  split_ifs with hn
  · exact ensures_fail
  have hnil : ∀ x ∈ ([] : List ℤ), 0 ≤ x := nofun
  have hdims : Ensures (Consumer.collect (fun _ => readDim) n []) fun l =>
      (∀ x ∈ l, 0 ≤ x) ∧ l.length = ([] : List ℤ).length + n :=
    ensures_collect hnil (fun l hl => ensures_readDim.mono fun a ha x hx => by
      rcases List.mem_append.mp hx with hx | hx
      · exact hl x hx
      · rwa [List.mem_singleton.mp hx]) n
  refine hdims.bind fun dims hdims => ensures_lift.bind fun _ helements =>
    ensures_true.bind fun type _ => ?_
  split_ifs with htype
  · refine ensures_lift.bind fun _ hcheck => ensures_true.bind fun offset _ => ensures_pure ?_
    obtain ⟨hzero, hle⟩ := cStr_sound name
    exact ⟨hname, ⟨hzero, by show (cStr name).length < 64; omega⟩, fun j => getD_nonneg hdims.1 j,
      helements, hcheck⟩
  · exact ensures_fail

theorem ensures_readTensorInfos (n : ℕ) : Ensures (Consumer.collect readTensorInfo n []) fun l =>
    (l.map TensorInfo.name).Nodup ∧ ∀ ti ∈ l, ti.Sound := by
  have hnil : (([] : List TensorInfo).map TensorInfo.name).Nodup ∧
      ∀ ti ∈ ([] : List TensorInfo), ti.Sound := ⟨List.nodup_nil, nofun⟩
  refine (ensures_collect hnil (fun l hl => (ensures_readTensorInfo l).mono fun ti hti => ?_)
    n).mono fun l hl => hl.1
  refine ⟨?_, fun x hx => ?_⟩
  · rw [List.map_append, List.map_singleton, ← List.concat_eq_append]
    exact hl.1.concat hti.1
  · rcases List.mem_append.mp hx with hx | hx
    · exact hl.2 x hx
    · rw [List.mem_singleton.mp hx]
      exact hti.2

/-- **Tensors that are accepted** lie one behind the other. -/
theorem of_dataSize (hsize : size < 2 ^ 64) (h : dataSize alignment size l = .ok total) :
    total = size + totalSize alignment l ∧ total < 2 ^ 64 ∧
      ∀ front ti back, l = front ++ ti :: back → ti.offset = size + totalSize alignment front := by
  induction l generalizing size with
  | nil =>
    cases h
    exact ⟨rfl, hsize, fun front ti back heq => by simp at heq⟩
  | cons t l ih =>
    rw [dataSize] at h
    split_ifs at h with hoffset hover
    obtain ⟨htotal, hlt, hrest⟩ := ih (by omega) h
    refine ⟨by rw [htotal, totalSize_cons, Nat.add_assoc], hlt, fun front ti back heq => ?_⟩
    cases front with
    | nil =>
      cases heq
      exact not_not.mp hoffset
    | cons u front =>
      cases heq
      rw [hrest front ti back rfl, totalSize_cons, Nat.add_assoc]

end Tensors

/-! ### The place in the buffer -/

section Places

variable {elem : Reader (List UInt8)} {isArray : Bool} {key : List UInt8} {n : ℕ}

theorem keeps_readNum (k : ℕ) : Keeps (readNum k) := keeps_take.bind fun _ => keeps_pure _

theorem keeps_readI64 : Keeps readI64 := (keeps_readNum 8).bind fun _ => keeps_pure _

theorem lift_eq_ok {α : Type} {r : Except Stop α} {a : α} {s s' : ℕ × List UInt8}
    (h : lift r s = .ok (a, s')) : s' = s ∧ r = .ok a := by
  rw [lift] at h
  cases r with
  | error e => cases h
  | ok b =>
    cases h
    exact ⟨rfl, rfl⟩

theorem keeps_lift {α : Type} (r : Except Stop α) : Keeps (lift r) := by
  intro l s a s' hat heq
  rw [lift] at heq
  cases r with
  | error e => cases heq
  | ok b =>
    cases heq
    exact hat

theorem keeps_readString : Keeps readString := by
  refine (keeps_readNum 8).bind fun size => ?_
  split_ifs
  · exact keeps_fail
  · exact keeps_take

theorem keeps_readValues (h : Keeps elem) (size : ℕ) : Keeps (readValues elem size isArray n) := by
  rw [readValues]
  split_ifs with harray
  · rw [readVector]
    split_ifs with hn
    · exact keeps_fail
    · exact keeps_need.bind fun _ => keeps_collect (fun _ => h) n []
  · exact h.bind fun _ => keeps_pure _

theorem keeps_readElements (type : GgufType) : Keeps (readElements key isArray n type) := by
  cases type with
  | array => exact keeps_fail
  | string => exact (keeps_readValues keeps_readString 8).bind fun _ => keeps_pure _
  | _ => exact (keeps_readValues keeps_take _).bind fun _ => keeps_pure _

theorem keeps_readEmplace (type : GgufType) : Keeps (readEmplace key isArray type n) := by
  refine (keeps_readElements type).bind fun kv => ?_
  split_ifs
  · exact keeps_fail
  · exact keeps_pure kv

theorem keeps_readKv (previous : List Kv) : Keeps (readKv previous) := by
  refine keeps_readString.bind fun key => ?_
  split_ifs
  · exact keeps_fail
  refine (keeps_readNum 4).bind fun code => ?_
  split
  · exact keeps_fail
  · refine (keeps_readNum 4).bind fun code => (keeps_readNum 8).bind fun n => ?_
    split
    · exact keeps_fail
    · exact keeps_readEmplace _
  · exact keeps_readEmplace _

theorem keeps_readDim : Keeps readDim := by
  refine keeps_readI64.bind fun x => ?_
  split_ifs
  · exact keeps_fail
  · exact keeps_pure x

theorem keeps_readTensorInfo (previous : List TensorInfo) : Keeps (readTensorInfo previous) := by
  refine keeps_readString.bind fun name => ?_
  split_ifs
  · exact keeps_fail
  · exact keeps_fail
  refine (keeps_readNum 4).bind fun n => ?_
  split_ifs
  · exact keeps_fail
  refine (keeps_collect (fun _ => keeps_readDim) n []).bind fun dims =>
    (keeps_lift _).bind fun _ => (keeps_readNum 4).bind fun type => ?_
  split_ifs
  · exact (keeps_lift _).bind fun _ => (keeps_readNum 8).bind fun offset => keeps_pure _
  · exact keeps_fail

theorem keeps_readVersion : Keeps readVersion := by
  refine (keeps_readNum 4).bind fun version => ?_
  split_ifs
  · exact keeps_fail
  · exact keeps_pure version

theorem keeps_readCount (size : ℕ) : Keeps (readCount size) := by
  refine keeps_readI64.bind fun n => ?_
  split_ifs
  · exact keeps_fail
  · exact keeps_pure _

theorem keeps_readMeta : Keeps readMeta := by
  refine keeps_take.bind fun magic => ?_
  split_ifs
  · exact keeps_fail
  exact keeps_readVersion.bind fun _ => (keeps_readCount _).bind fun nTensors =>
    (keeps_readCount _).bind fun nKv => (keeps_collect keeps_readKv nKv []).bind fun _ =>
      (keeps_lift _).bind fun _ => (keeps_collect keeps_readTensorInfo nTensors []).bind fun _ =>
        keeps_pure _

end Places

/-! ### The whole -/

section Whole

variable {buf : List UInt8} {c c' : Context} {s s' : ℕ × List UInt8}

theorem ensures_readVersion : Ensures readVersion fun v => v = 2 ∨ v = 3 := by
  refine ensures_true.bind fun v _ => ?_
  split_ifs with hv
  · exact ensures_fail
  · refine ensures_pure ?_
    rw [not_or, not_or, not_or] at hv
    omega

/-- What is known in front of the data. -/
structure MetaSound (c : Context) : Prop where
  version : c.version = 2 ∨ c.version = 3
  keys : (c.kv.map Kv.key).Nodup
  kv : ∀ kv ∈ c.kv, kv.Sound
  alignment : findAlignment c.kv = .ok c.alignment
  names : (c.info.map TensorInfo.name).Nodup
  info : ∀ ti ∈ c.info, ti.Sound

theorem ensures_readMeta : Ensures readMeta MetaSound := by
  refine ensures_true.bind fun magic _ => ?_
  split_ifs
  · exact ensures_fail
  refine ensures_readVersion.bind fun version hversion => ensures_true.bind fun nTensors _ =>
    ensures_true.bind fun nKv _ => (ensures_readKvs nKv).bind fun kv hkv =>
      ensures_lift.bind fun alignment halignment =>
        (ensures_readTensorInfos nTensors).bind fun info hinfo => ensures_pure ?_
  exact ⟨hversion, hkv.1, hkv.2, halignment, hinfo.1, hinfo.2⟩

theorem ofBytes_lt (bytes : List UInt8) : ofBytes bytes < 256 ^ bytes.length := by
  induction bytes with
  | nil => decide
  | cons b bytes ih =>
    have hcons : ofBytes (b :: bytes) = b.toNat + 256 * ofBytes bytes := rfl
    have hb := b.toNat_lt
    rw [hcons, List.length_cons, pow_succ]
    omega

/-- The number of bytes of a value that counts its elements. -/
theorem length_data {kv : Kv} {n : ℕ} (hstring : kv.type ≠ .string) (h : kv.getNe = .ok n) :
    kv.data.length = n * kv.type.size := by
  rw [Kv.getNe, if_neg hstring] at h
  split_ifs at h with hmod
  cases h
  rw [Nat.div_mul_cancel (Nat.dvd_of_mod_eq_zero (not_not.mp hmod))]

/-- The alignment is in four bytes. -/
theorem alignment_lt {kv : List Kv} {alignment : ℕ} (h : findAlignment kv = .ok alignment) :
    alignment < 2 ^ 32 := by
  obtain ⟨a, hget, ha⟩ := Fuel.bind_eq_ok_iff.mp h
  split_ifs at ha
  cases ha
  rw [getAlignment] at hget
  split at hget
  · cases hget
    decide
  · rename_i pair hfind
    obtain ⟨ne, hne, hif⟩ := Fuel.bind_eq_ok_iff.mp hget
    split_ifs at hif with hbad
    cases hif
    rw [not_or, not_not, not_not] at hbad
    have hlen := length_data (by rw [hbad.2]; nofun) hne
    have hlt := ofBytes_lt pair.data
    rw [hlen, hbad.1, hbad.2] at hlt
    exact hlt

/-- What is read behind the front. -/
theorem readData_cases (hlen : buf.length < 2 ^ 63) (hat : At buf s) (hpos : 0 < c.alignment)
    (hlt : c.alignment < 2 ^ 32) (h : readData c s = .ok (c', s')) :
    ∃ s₁ size data, At buf s₁ ∧ dataSize c.alignment 0 c.info = .ok size ∧
      Consumer.take Stop.rejected size s₁ = .ok (data, s') ∧
        c' = { c with offset := s₁.1, size := size, data := some data } := by
  have hle := hat.1
  have hpad := le_pad (x := s.1) hpos (by omega)
  obtain ⟨_, s₁, hseek, h⟩ := bind_eq_ok h
  have hplace : At buf s₁ := by
    obtain ⟨front, s₀, htell, hseek⟩ := bind_eq_ok hseek
    cases htell
    split_ifs at hseek
    · rw [Consumer.seek] at hseek
      split_ifs at hseek with hshort
      cases hseek
      have hforward := hat.forward (n := pad s.1 c.alignment - s.1) (by omega)
      rwa [Nat.add_sub_cancel' hpad] at hforward
    · exact keeps_pure () _ _ _ _ hat hseek
  obtain ⟨offset, s₂, htell, h⟩ := bind_eq_ok h
  cases htell
  obtain ⟨size, s₂, hsize, h⟩ := bind_eq_ok h
  obtain ⟨rfl, hdata⟩ := lift_eq_ok hsize
  obtain ⟨data, s₃, htake, h⟩ := bind_eq_ok h
  cases h
  exact ⟨_, size, data, hplace, hdata, htake, rfl⟩

/-- **The data** are a part of the buffer. -/
theorem of_readData (hmeta : MetaSound c) (hlen : buf.length < 2 ^ 63) (hat : At buf s)
    (h : readData c s = .ok (c', s')) : Accepted buf c' := by
  obtain ⟨s₁, size, data, ⟨hplace, hrest⟩, hsize, htake, rfl⟩ := readData_cases hlen hat
    (alignment_pos hmeta.alignment) (alignment_lt hmeta.alignment) h
  obtain ⟨htotal, hsmall, hoffsets⟩ := of_dataSize (by decide) hsize
  rw [Nat.zero_add] at htotal
  rw [Consumer.take] at htake
  split_ifs at htake with hshort
  cases htake
  refine ⟨hmeta.version, hmeta.keys, hmeta.kv, hmeta.alignment, hmeta.names, hmeta.info,
    fun front ti back heq => ?_, ⟨htotal, hsmall⟩, ⟨?_, ?_⟩, fun ti hti hbytes => ?_⟩
  · rw [hoffsets front ti back heq, Nat.zero_add]
  · rw [hrest]
  · rw [hrest, List.length_drop] at hshort
    show s₁.1 + size ≤ buf.length
    omega
  · obtain ⟨front, back, heq⟩ := List.append_of_mem hti
    have hle := le_pad (alignment_pos hmeta.alignment) hbytes
    show ti.offset + ti.nbytes ≤ size
    rw [hoffsets front ti back heq, Nat.zero_add, htotal, heq, totalSize, totalSize,
      List.map_append, List.map_cons, List.sum_append, List.sum_cons]
    omega

/-- A tensor of almost 2⁶⁴ bytes is accepted with no data. -/
example : checkElements ![2 ^ 61 - 1, 1, 1, 1] = .ok () ∧
    checkType 28 ![2 ^ 61 - 1, 1, 1, 1] = .ok () ∧
      dataSize 32 0 [⟨ascii "t", 28, ![2 ^ 61 - 1, 1, 1, 1], 0, none⟩] = .ok 0 :=
  ⟨rfl, rfl, rfl⟩

end Whole

end Gguf

end WhisperCpp
