import Mathlib.Tactic.SplitIfs
import WhisperCpp.Library.Fuel
import WhisperCpp.Parakeet.SpeakerCache

/-!
# The rows of the speaker cache

Embeddings and predictions travel in arrays of their own. Here they are put together: a cache holds
rows, each an embedding with its prediction, and every function is an operation on rows.

## Main definitions

* `CacheRows` — the rows of the cache and of the FIFO
* `HasRows` — the arrays of a cache hold such rows
* `RowStep` — what a call does to the rows

## Main results

* `streamingUpdate_rows` — `streaming_update` does that, and only a negative length makes it throw
-/

namespace WhisperCpp

namespace Parakeet

open Rows Fuel

/-! ### Rows with their predictions -/

/-- An embedding and its prediction. -/
abbrev SpeakerRow (K : Type*) := List K × List K

/-- The rows of the cache and of the FIFO. -/
structure CacheRows (K : Type*) where
  spk : List (SpeakerRow K)
  fifo : List (SpeakerRow K)

section Rows

variable {K L : Type*} [Zero K] (dims : SpeakerDims) (cfg : SpeakerCacheConfig K)

/-- The arrays of a cache hold rows. The predictions of the cache are there when they are valid, and
when it is about to be compressed. -/
structure HasRows (s : SpeakerCache K) (v : CacheRows K) : Prop where
  spk : Holds dims.d s.spkcache (v.spk.map Prod.fst)
  spkPreds : s.spkcachePredsValid = true ∨ cfg.spkcacheLen < s.nRows →
    Holds dims.numSpks s.spkcachePreds (v.spk.map Prod.snd)
  nRows : v.spk.length = s.nRows
  fifo : Holds dims.d s.fifo (v.fifo.map Prod.fst)
  fifoPreds : Holds dims.numSpks s.fifoPreds (v.fifo.map Prod.snd)
  nFifo : v.fifo.length = s.nFifo
  mean : s.meanSilEmb.length = dims.d

variable {dims cfg} {E : Fault → Prop} {s : SpeakerCache K} {v : CacheRows K}
  {m : List (SpeakerRow K)} {predsFull : List K}

theorem hasRows_reset : HasRows dims cfg (.reset dims) ⟨[], []⟩ where
  spk := holds_nil _
  spkPreds _ := holds_nil _
  nRows := rfl
  fifo := holds_nil _
  fifoPreds := holds_nil _
  nFifo := rfl
  mean := List.length_replicate

/-! ### Appending

`m` are the rows that the model gets, with its predictions for them. -/

/-- The rows of the FIFO, with new predictions, and `n` rows of the chunk from row `lc` on. -/
def CacheRows.appended (v : CacheRows K) (m : List (SpeakerRow K)) (lc n : ℕ) :
    List (SpeakerRow K) :=
  (m.drop v.spk.length).take v.fifo.length ++ (m.drop (v.spk.length + v.fifo.length + lc)).take n

theorem CacheRows.appended_fst {K : Type*} {v : CacheRows K} {m : List (SpeakerRow K)}
    {pre : List (List K)} (lc n : ℕ)
    (hm : m.map Prod.fst = v.spk.map Prod.fst ++ v.fifo.map Prod.fst ++ pre) :
    (v.appended m lc n).map Prod.fst = v.fifo.map Prod.fst ++ (pre.drop lc).take n := by
  have hspk : (m.map Prod.fst).drop v.spk.length = v.fifo.map Prod.fst ++ pre := by
    rw [hm, List.append_assoc]
    exact List.drop_left' (List.length_map ..)
  have hpre : (m.map Prod.fst).drop (v.spk.length + v.fifo.length) = pre := by
    rw [← List.drop_drop, hspk]
    exact List.drop_left' (List.length_map ..)
  rw [appended, List.map_append, List.map_take, List.map_take, List.map_drop, List.map_drop, hspk,
    ← List.drop_drop, hpre, List.take_left' (List.length_map ..)]

theorem CacheRows.appended_length {K : Type*} {v : CacheRows K} {m : List (SpeakerRow K)}
    {pre : List (List K)} {lc n : ℕ}
    (hm : m.map Prod.fst = v.spk.map Prod.fst ++ v.fifo.map Prod.fst ++ pre)
    (hn : lc + n ≤ pre.length) : (v.appended m lc n).length = v.fifo.length + n := by
  have hmap := congrArg List.length (v.appended_fst lc n hm)
  rw [List.length_map, List.length_append, List.length_map, List.length_take,
    List.length_drop] at hmap
  omega

theorem refreshFifoPreds_rows (hp : Holds dims.numSpks predsFull (m.map Prod.snd)) {i n : ℕ}
    (hn : i + n ≤ m.length) :
    Meets E (fun p => Holds dims.numSpks p (((m.drop i).take n).map Prod.snd))
      (refreshFifoPreds dims predsFull i n) := by
  rw [refreshFifoPreds]
  split_ifs with h
  · have hzero := holds_replicate (w := dims.numSpks) n (0 : K)
    obtain ⟨flat, hcopy, hrows⟩ := hzero.copy_front Fault.outOfBounds hp (j := i) (n := n)
      (Nat.le_of_eq List.length_replicate.symm) (by rwa [List.length_map])
    rw [List.drop_replicate, Nat.sub_self, List.replicate_zero, List.append_nil] at hrows
    rw [List.map_take, List.map_drop]
    exact meets_of_ok hcopy hrows
  · obtain rfl : n = 0 := by omega
    rw [List.take_zero]
    exact holds_nil _

/-- A chunk is appended, and the FIFO gets new predictions. -/
theorem appendChunk_rows (h : HasRows dims cfg s v) {pre : List (List K)} {lc n : ℕ}
    {committedChunk : List K}
    (hm : m.map Prod.fst = v.spk.map Prod.fst ++ v.fifo.map Prod.fst ++ pre)
    (hp : Holds dims.numSpks predsFull (m.map Prod.snd))
    (hc : Holds dims.d committedChunk (pre.drop lc)) (hn : lc + n ≤ pre.length) :
    Meets E (fun s' => HasRows dims cfg s' ⟨v.spk, v.appended m lc n⟩ ∧
        s'.spkcachePredsValid = s.spkcachePredsValid)
      (appendChunk dims s committedChunk n predsFull s.nRows s.nFifo lc) := by
  have hlen : m.length = s.nRows + s.nFifo + pre.length := by
    have hmap := congrArg List.length hm
    rwa [List.length_append, List.length_append, List.length_map, List.length_map, List.length_map,
      h.nRows, h.nFifo] at hmap
  have hold : (((m.drop s.nRows).take s.nFifo).map Prod.snd).length = s.nFifo := by
    rw [List.length_map, List.length_take, List.length_drop]
    omega
  have hnew : (v.appended m lc n).length = s.nFifo + n := by
    rw [v.appended_length hm hn, h.nFifo]
  obtain ⟨fifo, hfifo, hfifoRows⟩ := h.fifo.append Fault.outOfBounds 0 hc (j := 0) (n := n)
    (by rw [List.length_drop]; omega)
  rw [List.length_map, h.nFifo] at hfifo
  rw [List.drop_zero, ← v.appended_fst lc n hm] at hfifoRows
  rw [appendChunk]
  refine (refreshFifoPreds_rows hp (by omega)).bind fun p hpreds => ?_
  obtain ⟨preds, hfifoPreds, hpredsRows⟩ := hpreds.append Fault.outOfBounds 0 hp
    (j := s.nRows + s.nFifo + lc) (n := n) (by rw [List.length_map]; omega)
  rw [hold] at hfifoPreds
  rw [← List.map_drop, ← List.map_take, ← List.map_append, ← h.nRows, ← h.nFifo] at hpredsRows
  refine Meets.bind_ok hfifo (Meets.bind_ok hfifoPreds ?_)
  exact ⟨⟨h.spk, h.spkPreds, h.nRows, hfifoRows, hpredsRows, hnew, h.mean⟩, rfl⟩

/-! ### Popping -/

/-- The frames that leave the FIFO make room for the chunk. -/
theorem popOut_bounds {K : Type*} (cfg : SpeakerCacheConfig K) {nFifo n : ℕ} (hn : 0 < n)
    (hover : cfg.fifoLen < (nFifo + n : ℕ)) :
    popOut cfg (nFifo + n) n nFifo ≤ nFifo + n ∧
      ((nFifo + n - popOut cfg (nFifo + n) n nFifo : ℕ) : ℤ) ≤ max 0 cfg.fifoLen := by
  simp only [popOut]
  split_ifs <;> omega

/-- Only the silence statistics change. -/
theorem updateSilenceProfile_rows {L : Type*} [One K] [Add K] [Sub K] [Mul K] [LT K] [DecidableLT K]
    [Zero L] [Add L] [Mul L] [Div L] [NatCast L] (O : FloatOps K L) (h : HasRows dims cfg s v)
    {pop : ℕ} (hpop : pop ≤ s.nFifo) :
    Meets E (fun s' => HasRows dims cfg s' v ∧ s'.spkcachePredsValid = s.spkcachePredsValid)
      (updateSilenceProfile O dims cfg s s.fifo s.fifoPreds pop) := by
  have hembs : pop * dims.d ≤ s.fifo.length := by
    rw [h.fifo.length, List.length_map, h.nFifo]
    exact Nat.mul_le_mul_right _ hpop
  have hpreds : pop * dims.numSpks ≤ s.fifoPreds.length := by
    rw [h.fifoPreds.length, List.length_map, h.nFifo]
    exact Nat.mul_le_mul_right _ hpop
  simp only [updateSilenceProfile]
  split
  · exact ⟨h, rfl⟩
  · rw [if_neg (by omega)]
    split
    · exact ⟨h, rfl⟩
    · refine ⟨⟨h.spk, h.spkPreds, h.nRows, h.fifo, h.fifoPreds, h.nFifo, ?_⟩, rfl⟩
      rw [List.length_map, List.length_range]

/-- The rows of the cache; without predictions of its own, with those of the model. -/
def CacheRows.kept (v : CacheRows K) (m : List (SpeakerRow K)) (valid : Bool) :
    List (SpeakerRow K) :=
  if valid then v.spk else m.take v.spk.length

theorem CacheRows.kept_fst {K : Type*} {v : CacheRows K} {m : List (SpeakerRow K)}
    (hm : (m.take v.spk.length).map Prod.fst = v.spk.map Prod.fst) (valid : Bool) :
    (v.kept m valid).map Prod.fst = v.spk.map Prod.fst := by
  rw [kept]
  split_ifs
  · rfl
  · exact hm

theorem CacheRows.kept_length {K : Type*} {v : CacheRows K} {m : List (SpeakerRow K)}
    (hm : (m.take v.spk.length).map Prod.fst = v.spk.map Prod.fst) (valid : Bool) :
    (v.kept m valid).length = v.spk.length := by
  rw [← List.length_map (f := Prod.fst), v.kept_fst hm valid, List.length_map]

theorem seedSpkcachePreds_rows (hp : Holds dims.numSpks predsFull (m.map Prod.snd)) {i n : ℕ}
    (hi : i ≤ m.length) :
    Meets E (fun p => Holds dims.numSpks p ((m.take i).map Prod.snd ++
        List.replicate n (List.replicate dims.numSpks 0)))
      (seedSpkcachePreds dims predsFull i (i + n)) := by
  have hzero := holds_replicate (w := dims.numSpks) (i + n) (0 : K)
  rw [seedSpkcachePreds]
  split_ifs with h
  · obtain ⟨flat, hcopy, hrows⟩ := hzero.copy_front Fault.outOfBounds hp (j := 0) (n := i)
      (by rw [List.length_replicate]; omega) (by rw [List.length_map]; omega)
    rw [List.drop_replicate, Nat.add_sub_cancel_left, List.drop_zero, ← List.map_take] at hrows
    exact meets_of_ok hcopy hrows
  · obtain rfl : i = 0 := by omega
    rw [Nat.zero_add] at hzero ⊢
    exact hzero

/-- The predictions of the cache and of the popped frames. -/
theorem pushPreds_rows (h : HasRows dims cfg s v)
    (hp : Holds dims.numSpks predsFull (m.map Prod.snd)) (hm : s.nRows ≤ m.length) {pop : ℕ}
    (hpop : pop ≤ s.nFifo) :
    Meets E (fun p => s.spkcachePredsValid = true ∨ cfg.spkcacheLen < (s.nRows + pop : ℕ) →
        Holds dims.numSpks p ((v.kept m s.spkcachePredsValid ++ v.fifo.take pop).map Prod.snd))
      (pushPreds dims cfg s pop predsFull) := by
  have hfifo : 0 + pop ≤ (v.fifo.map Prod.snd).length := by
    rw [List.length_map, h.nFifo]
    omega
  simp only [pushPreds]
  split_ifs with hvalid hover
  · obtain ⟨preds, hcopy, hrows⟩ := (h.spkPreds (.inl hvalid)).append Fault.outOfBounds 0
      h.fifoPreds hfifo
    rw [List.length_map, h.nRows] at hcopy
    refine meets_of_ok hcopy fun _ => ?_
    rwa [CacheRows.kept, if_pos hvalid, List.map_append, List.map_take]
  · refine (seedSpkcachePreds_rows hp hm).bind fun seeded hseeded => ?_
    obtain ⟨preds, hcopy, hrows⟩ := hseeded.copy_back Fault.outOfBounds h.fifoPreds (j := 0)
      (by rwa [List.length_replicate])
    rw [List.length_replicate, List.length_map, List.length_take, Nat.min_eq_left hm] at hcopy
    rw [List.length_replicate] at hrows
    refine meets_of_ok hcopy fun _ => ?_
    rwa [CacheRows.kept, if_neg hvalid, List.map_append, h.nRows, List.map_take (l := v.fifo)]
  · exact fun hcontra => (hcontra.elim hvalid hover).elim

/-- The popped frames are pushed on the cache. -/
theorem pushPopped_rows (h : HasRows dims cfg s v)
    (hp : Holds dims.numSpks predsFull (m.map Prod.snd))
    (hm : (m.take v.spk.length).map Prod.fst = v.spk.map Prod.fst) {pop : ℕ}
    (hpop : pop ≤ s.nFifo) :
    Meets E (fun s' => HasRows dims cfg s'
          ⟨v.kept m s.spkcachePredsValid ++ v.fifo.take pop, v.fifo⟩ ∧
        s'.spkcachePredsValid = s.spkcachePredsValid)
      (pushPopped dims cfg s pop predsFull) := by
  have hlen : s.nRows ≤ m.length := by
    have hmap := congrArg List.length hm
    rw [List.length_map, List.length_take, List.length_map] at hmap
    have hn := h.nRows
    omega
  have hkept := v.kept_fst hm s.spkcachePredsValid
  obtain ⟨spk, hcopy, hrows⟩ := h.spk.append Fault.outOfBounds 0 h.fifo (j := 0) (n := pop)
    (by rw [List.length_map, h.nFifo]; omega)
  rw [List.length_map, h.nRows] at hcopy
  rw [List.drop_zero, ← List.map_take, ← hkept, ← List.map_append] at hrows
  have hnew : (v.kept m s.spkcachePredsValid ++ v.fifo.take pop).length = s.nRows + pop := by
    rw [List.length_append, List.length_take, v.kept_length hm, h.nRows, h.nFifo,
      Nat.min_eq_left hpop]
  rw [pushPopped]
  refine Meets.bind_ok hcopy ((pushPreds_rows h hp hlen hpop).bind fun preds hpreds => ?_)
  exact ⟨⟨hrows, hpreds, hnew, h.fifo, h.fifoPreds, h.nFifo, h.mean⟩, rfl⟩

theorem moveToFront_rows {w : ℕ} {flat : List K} {rows : List (List K)} (h : Holds w flat rows)
    {pop remaining : ℕ} (hn : pop + remaining = rows.length) :
    Meets E (fun flat' => Holds w (resize flat' (remaining * w) 0) (rows.drop pop))
      (moveToFront w flat pop remaining) := by
  rw [moveToFront]
  split_ifs with hrem
  · obtain ⟨flat', hcopy, hrows⟩ := h.shift Fault.outOfBounds 0 hn
    exact meets_of_ok hcopy hrows
  · obtain rfl : remaining = 0 := by omega
    have hnone := h.resize_le 0 (Nat.zero_le rows.length)
    rwa [List.take_zero, ← List.drop_of_length_le (i := pop) (Nat.le_of_eq hn.symm)] at hnone

/-- The popped frames are dropped from the FIFO. -/
theorem dropPopped_rows (h : HasRows dims cfg s v) {pop : ℕ} (hpop : pop ≤ s.nFifo) :
    Meets E (fun s' => HasRows dims cfg s' ⟨v.spk, v.fifo.drop pop⟩ ∧
        s'.spkcachePredsValid = s.spkcachePredsValid)
      (dropPopped dims s pop) := by
  have hembs : pop + (s.nFifo - pop) = (v.fifo.map Prod.fst).length := by
    rw [List.length_map, h.nFifo]
    omega
  have hpreds : pop + (s.nFifo - pop) = (v.fifo.map Prod.snd).length := by
    rw [List.length_map, h.nFifo]
    omega
  have hrest : (v.fifo.drop pop).length = s.nFifo - pop := by rw [List.length_drop, h.nFifo]
  rw [dropPopped]
  refine (moveToFront_rows h.fifo hembs).bind fun fifo hfifo => ?_
  refine (moveToFront_rows h.fifoPreds hpreds).bind fun fifoPreds hfifoPreds => ?_
  rw [← List.map_drop] at hfifo hfifoPreds
  exact ⟨⟨h.spk, h.spkPreds, h.nRows, hfifo, hfifoPreds, hrest, h.mean⟩, rfl⟩

/-! ### Compressing -/

/-- A row of silence. -/
def IsSilence (dims : SpeakerDims) (mean : List K) (x : SpeakerRow K) : Prop :=
  (x.1 = mean ∨ x.1 = List.replicate dims.d 0) ∧ x.2 = List.replicate dims.numSpks 0

/-- The first `n` rows are gathered. Each is a picked row or silence; the others are zero. -/
theorem gather_first {rows : List (SpeakerRow K)} {mean embIn predsIn : List K}
    {pick : ℕ → Option ℕ} (hmean : mean.length = dims.d)
    (hin : ∀ r t, pick r = some t → Holds dims.d embIn (rows.map Prod.fst) ∧
      Holds dims.numSpks predsIn (rows.map Prod.snd) ∧ t < rows.length)
    {n k : ℕ} :
    Meets E (fun acc => ∃ done : List (SpeakerRow K), done.length = n ∧
        Holds dims.d acc.1 (done.map Prod.fst ++ List.replicate k (List.replicate dims.d 0)) ∧
        Holds dims.numSpks acc.2
          (done.map Prod.snd ++ List.replicate k (List.replicate dims.numSpks 0)) ∧
        ∀ x ∈ done, x ∈ rows ∨ IsSilence dims mean x)
      ((List.range n).foldlM (gatherRow dims mean embIn predsIn pick)
        (List.replicate ((n + k) * dims.d) 0, List.replicate ((n + k) * dims.numSpks) 0)) := by
  induction n generalizing k with
  | zero =>
    rw [Nat.zero_add]
    exact ⟨[], rfl, holds_replicate k 0, holds_replicate k 0, fun x hx => nomatch hx⟩
  | succ n ih =>
    have hmeanRows : Holds dims.d mean [mean] :=
      ⟨List.flatten_singleton.symm, fun r hr => by rw [List.mem_singleton.1 hr, hmean]⟩
    rw [List.range_succ, List.foldlM_append, Nat.succ_add_eq_add_succ]
    refine ih.bind fun acc ⟨done, hlen, hembs, hpreds, hdone⟩ => ?_
    rw [List.foldlM_cons, gatherRow]
    cases hpick : pick n with
    | none =>
      obtain ⟨spk, hcopy, hrows⟩ := hembs.copy_row Fault.outOfBounds hmeanRows (t := 0) rfl
      rw [List.length_map, hlen] at hcopy
      refine (Meets.bind_ok hcopy ?_).bind fun acc hacc => hacc
      refine ⟨done ++ [(mean, List.replicate dims.numSpks 0)], ?_, ?_, ?_, ?_⟩
      · rw [List.length_append, hlen, List.length_singleton]
      · rwa [List.map_append]
      · rw [List.map_append, List.append_assoc]
        exact hpreds
      · refine List.forall_mem_append.2 ⟨hdone, fun x hx => .inr ?_⟩
        rw [List.mem_singleton.1 hx]
        exact ⟨.inl rfl, rfl⟩
    | some t =>
      obtain ⟨hembIn, hpredsIn, ht⟩ := hin n t hpick
      have hrow : rows[t]? = some rows[t] := List.getElem?_eq_getElem ht
      have hfst : (rows.map Prod.fst)[t]? = some rows[t].1 := by
        rw [List.getElem?_map, hrow, Option.map_some]
      have hsnd : (rows.map Prod.snd)[t]? = some rows[t].2 := by
        rw [List.getElem?_map, hrow, Option.map_some]
      obtain ⟨spk, hcopy, hspkRows⟩ := hembs.copy_row Fault.outOfBounds hembIn hfst
      obtain ⟨preds, hcopy', hpredsRows⟩ := hpreds.copy_row Fault.outOfBounds hpredsIn hsnd
      rw [List.length_map, hlen] at hcopy hcopy'
      refine (Meets.bind_ok hcopy (Meets.bind_ok hcopy' ?_)).bind fun acc hacc => hacc
      refine ⟨done ++ [rows[t]], ?_, ?_, ?_, ?_⟩
      · rw [List.length_append, hlen, List.length_singleton]
      · rwa [List.map_append]
      · rwa [List.map_append]
      · refine List.forall_mem_append.2 ⟨hdone, fun x hx => .inl ?_⟩
        rw [List.mem_singleton.1 hx]
        exact List.getElem_mem ht

/-- Arrays hold rows, each one of `rows` or silence. -/
def HoldsOf (dims : SpeakerDims) (rows : List (SpeakerRow K)) (mean : List K) (n : ℕ)
    (arrays : List K × List K) : Prop :=
  ∃ out : List (SpeakerRow K), out.length = n ∧ Holds dims.d arrays.1 (out.map Prod.fst) ∧
    Holds dims.numSpks arrays.2 (out.map Prod.snd) ∧ ∀ x ∈ out, x ∈ rows ∨ IsSilence dims mean x

theorem holdsOf_zero (rows : List (SpeakerRow K)) (mean : List K) (n : ℕ) :
    HoldsOf dims rows mean n
      (List.replicate (n * dims.d) 0, List.replicate (n * dims.numSpks) 0) := by
  refine ⟨List.replicate n (List.replicate dims.d 0, List.replicate dims.numSpks 0),
    List.length_replicate, ?_, ?_, fun x hx => .inr ?_⟩
  · rw [List.map_replicate]
    exact holds_replicate n 0
  · rw [List.map_replicate]
    exact holds_replicate n 0
  · rw [List.eq_of_mem_replicate hx]
    exact ⟨.inr rfl, rfl⟩

theorem gather_rows {rows : List (SpeakerRow K)} {mean embIn predsIn : List K}
    {pick : ℕ → Option ℕ} (hmean : mean.length = dims.d)
    (hin : ∀ r t, pick r = some t → Holds dims.d embIn (rows.map Prod.fst) ∧
      Holds dims.numSpks predsIn (rows.map Prod.snd) ∧ t < rows.length) (n : ℕ) :
    Meets E (HoldsOf dims rows mean n) (gather dims mean embIn predsIn pick n) := by
  rw [gather]
  refine (gather_first hmean hin (k := 0)).mono fun acc ⟨done, hlen, hembs, hpreds, hdone⟩ => ?_
  rw [List.replicate_zero, List.append_nil] at hembs hpreds
  exact ⟨done, hlen, hembs, hpreds, hdone⟩

theorem silenceOnly_rows (rows : List (SpeakerRow K)) (mean : List K) (n : ℕ) :
    Meets E (HoldsOf dims rows mean n) (silenceOnly dims mean n) := by
  rw [silenceOnly]
  split_ifs with hmean
  · exact gather_rows hmean (fun _ _ hpick => Option.some_ne_none _ hpick.symm |>.elim) n
  · exact holdsOf_zero rows mean n

theorem pickedFrame_lt {topk : List ℕ} {nTotal nFrames r t : ℕ}
    (h : pickedFrame topk nTotal nFrames r = some t) : t < nFrames := by
  rw [pickedFrame] at h
  split at h
  · cases h
  · split_ifs at h with hmax hsil
    cases h
    exact Nat.lt_of_not_le hsil

section Compress

variable {L : Type*} [One K] [Add K] [Sub K] [Mul K] [Neg K] [IntCast K] [LT K] [DecidableLT K]
  [DecidableEq K] (O : FloatOps K L) (N : NthElement)

theorem gatherTopk_rows {rows : List (SpeakerRow K)} {mean embIn predsIn : List K}
    (hmean : mean.length = dims.d) (hembs : Holds dims.d embIn (rows.map Prod.fst))
    (hpreds : Holds dims.numSpks predsIn (rows.map Prod.snd)) (n : ℕ) :
    Meets E (HoldsOf dims rows mean n)
      (gatherTopk O N dims cfg mean embIn predsIn rows.length n) := by
  have hlen : predsIn.length = rows.length * dims.numSpks := by
    rw [hpreds.length, List.length_map]
  rw [gatherTopk, if_neg (by omega)]
  exact gather_rows hmean (fun _ _ hpick => ⟨hembs, hpreds, pickedFrame_lt hpick⟩) n

/-- The compressed cache has the rows asked for, each one of the old ones or silence. Only a negative
length makes it throw. -/
theorem compressSpeakerCache_rows {spk fifo : List (SpeakerRow K)} (h : HasRows dims cfg s ⟨[], fifo⟩)
    {embIn predsIn : List K} (hembs : Holds dims.d embIn (spk.map Prod.fst))
    (hpreds : Holds dims.numSpks predsIn (spk.map Prod.snd)) :
    Meets (fun e => e = .uncaught ∧ cfg.spkcacheLen < 0)
      (fun s' => s'.spkcachePredsValid = true ∧ 0 ≤ cfg.spkcacheLen ∧
        ∃ out, HasRows dims cfg s' ⟨out, fifo⟩ ∧ (out.length : ℤ) = cfg.spkcacheLen ∧
          ∀ x ∈ out, x ∈ spk ∨ IsSilence dims s'.meanSilEmb x)
      (compressSpeakerCache O N dims cfg s embIn predsIn spk.length) := by
  have hdone : ∀ arrays : List K × List K, 0 ≤ cfg.spkcacheLen →
      HoldsOf dims spk s.meanSilEmb cfg.spkcacheLen.toNat arrays →
      ∃ out, HasRows dims cfg
          { s with
            spkcache := arrays.1
            spkcachePreds := arrays.2
            nRows := cfg.spkcacheLen.toNat
            spkcachePredsValid := true } ⟨out, fifo⟩ ∧ (out.length : ℤ) = cfg.spkcacheLen ∧
        ∀ x ∈ out, x ∈ spk ∨ IsSilence dims s.meanSilEmb x := by
    rintro arrays hpos ⟨out, hlen, hout, houtPreds, hmem⟩
    refine ⟨out, ⟨hout, fun _ => houtPreds, hlen, h.fifo, h.fifoPreds, h.nFifo, h.mean⟩, ?_, hmem⟩
    rw [hlen, Int.toNat_of_nonneg hpos]
  have hmean : (if s.meanSilEmb.length ≠ dims.d then List.replicate dims.d 0 else s.meanSilEmb) =
      s.meanSilEmb := if_neg (not_not.2 h.mean)
  simp only [compressSpeakerCache, hmean]
  split_ifs with hneg hnone hsil
  · exact ⟨rfl, hneg⟩
  · exact ⟨rfl, by omega, hdone _ (by omega) (holdsOf_zero spk s.meanSilEmb _)⟩
  · refine (silenceOnly_rows spk s.meanSilEmb _).bind fun arrays harrays => ?_
    exact ⟨rfl, by omega, hdone arrays (by omega) harrays⟩
  · refine (gatherTopk_rows O N h.mean hembs hpreds _).bind fun arrays harrays => ?_
    exact ⟨rfl, by omega, hdone arrays (by omega) harrays⟩

/-! ### The update -/

/-- What a call does to the rows `spk` of the cache, where `kept` are these rows with predictions and
`fifo` are the rows of the FIFO with the chunk, of which `pop` leave. -/
inductive RowStep (dims : SpeakerDims) (cfg : SpeakerCacheConfig K)
    (spk kept fifo : List (SpeakerRow K)) (pop : ℕ) (valid : Bool) (s' : SpeakerCache K) :
    CacheRows K → Prop
  | keep : (fifo.length : ℤ) ≤ cfg.fifoLen → s'.spkcachePredsValid = valid →
      RowStep dims cfg spk kept fifo pop valid s' ⟨spk, fifo⟩
  | move : cfg.fifoLen < fifo.length → ((kept.length + pop : ℕ) : ℤ) ≤ cfg.spkcacheLen →
      s'.spkcachePredsValid = valid →
      RowStep dims cfg spk kept fifo pop valid s' ⟨kept ++ fifo.take pop, fifo.drop pop⟩
  | compress {out : List (SpeakerRow K)} : cfg.fifoLen < fifo.length →
      cfg.spkcacheLen < (kept.length + pop : ℕ) → s'.spkcachePredsValid = true →
      0 ≤ cfg.spkcacheLen → (out.length : ℤ) = cfg.spkcacheLen →
      (∀ x ∈ out, x ∈ kept ++ fifo.take pop ∨ IsSilence dims s'.meanSilEmb x) →
      RowStep dims cfg spk kept fifo pop valid s' ⟨out, fifo.drop pop⟩

variable [Zero L] [Add L] [Mul L] [Div L] [NatCast L]

theorem streamingUpdate_rows (h : HasRows dims cfg s v) {pre : List (List K)} {lc n : ℕ}
    {committedChunk : List K}
    (hm : m.map Prod.fst = v.spk.map Prod.fst ++ v.fifo.map Prod.fst ++ pre)
    (hp : Holds dims.numSpks predsFull (m.map Prod.snd))
    (hc : Holds dims.d committedChunk (pre.drop lc)) (hn : lc + n ≤ pre.length) (hpos : 0 < n) :
    Meets (fun e => e = .uncaught ∧ cfg.spkcacheLen < 0)
      (fun s' => ∃ v', HasRows dims cfg s' v' ∧
        RowStep dims cfg v.spk (v.kept m s.spkcachePredsValid) (v.appended m lc n)
          (popOut cfg (s.nFifo + n) n s.nFifo) s.spkcachePredsValid s' v')
      (streamingUpdate O N dims cfg s committedChunk n predsFull s.nRows s.nFifo lc) := by
  have hspk : (m.take v.spk.length).map Prod.fst = v.spk.map Prod.fst := by
    rw [List.map_take, hm, List.append_assoc]
    exact List.take_left' (List.length_map ..)
  have hnew : (v.appended m lc n).length = s.nFifo + n := by
    rw [v.appended_length hm hn, h.nFifo]
  rw [streamingUpdate]
  refine (appendChunk_rows h hm hp hc hn).bind fun s₁ ⟨h₁, hvalid₁⟩ => ?_
  have hnFifo : s₁.nFifo = s.nFifo + n := h₁.nFifo.symm.trans hnew
  split_ifs with hover
  · have hpop := (popOut_bounds cfg hpos (hnFifo ▸ hover)).1
    rw [← hnew] at hpop hnFifo
    rw [hnFifo] at hover ⊢
    rw [← hnew]
    generalize popOut cfg (v.appended m lc n).length n s.nFifo = pop at hpop ⊢
    refine (updateSilenceProfile_rows O h₁ (hnFifo ▸ hpop)).bind fun s₂ ⟨h₂, hvalid₂⟩ => ?_
    refine (pushPopped_rows h₂ hp hspk (h₂.nFifo ▸ hpop)).bind fun s₃ ⟨h₃, hvalid₃⟩ => ?_
    refine (dropPopped_rows h₃ (h₃.nFifo ▸ hpop)).bind fun s₄ ⟨h₄, hvalid₄⟩ => ?_
    have hvalid : s₂.spkcachePredsValid = s.spkcachePredsValid := hvalid₂.trans hvalid₁
    rw [hvalid] at h₄ hvalid₃
    have hnRows : s₄.nRows = (v.kept m s.spkcachePredsValid).length + pop := by
      rw [← h₄.nRows, List.length_append, List.length_take, Nat.min_eq_left hpop]
      rfl
    rw [compressOnOverflow]
    split_ifs with hspkOver
    · have hempty : HasRows dims cfg { s₄ with spkcache := [], spkcachePreds := [], nRows := 0 }
          ⟨[], (v.appended m lc n).drop pop⟩ :=
        ⟨holds_nil _, fun _ => holds_nil _, rfl, h₄.fifo, h₄.fifoPreds, h₄.nFifo, h₄.mean⟩
      rw [← h₄.nRows]
      refine (compressSpeakerCache_rows O N hempty h₄.spk (h₄.spkPreds (.inr hspkOver))).mono ?_
      rintro s' ⟨hvalid', hlen, out, hout, houtLen, hmem⟩
      exact ⟨_, hout, .compress hover (hnRows ▸ hspkOver) hvalid' hlen houtLen hmem⟩
    · exact ⟨_, h₄, .move hover (hnRows ▸ Int.not_lt.1 hspkOver) (hvalid₄.trans hvalid₃)⟩
  · exact ⟨_, h₁, .keep (by rw [hnew, ← hnFifo]; exact Int.not_lt.1 hover) hvalid₁⟩

end Compress

end Rows

end Parakeet

end WhisperCpp
