import WhisperCpp.Library.Assignment
import WhisperCpp.Library.SortUnique
import WhisperCpp.Parakeet.SortformerSession

/-!
# The speakers of consecutive windows

Every window numbers its speakers anew. `compute_slot_remap_` gives them the numbers that they had in
the window before, where their segments overlap the most, and the numbers that are left to the rest.

## Main definitions

* `overlaps` — how long a speaker of this window and one of the window before speak at once
* `greedy`, `fill` — the two loops
* `computeSlotRemap` — `compute_slot_remap_`

## Main results

* `assigning_greedy`, `assigning_fill` — both loops keep the assignment injective
* `computeSlotRemap_perm` — the numbers are permuted
-/

namespace WhisperCpp

namespace Parakeet

open SortUnique (sortBy sortBy_perm)

section Definitions

-- arithmetic of doubles: no law is used
variable {K : Type*} [LinearOrder K] [Zero K] [Add K] [Sub K]

/-- The segment of one of the speakers. -/
def InSlots (numSpks : ℕ) (s : StreamingDiarizationSegment K) : Prop :=
  0 ≤ s.speakerId ∧ s.speakerId < numSpks

instance (numSpks : ℕ) (s : StreamingDiarizationSegment K) : Decidable (InSlots numSpks s) :=
  inferInstanceAs (Decidable (_ ∧ _))

/-- `O`, after the pair of segments `c` and `p`. -/
def addOverlap (numSpks : ℕ) (c : StreamingDiarizationSegment K) (o : ℕ → ℕ → K)
    (p : StreamingDiarizationSegment K) : ℕ → ℕ → K :=
  if InSlots numSpks p then
    let a := max c.startS p.startS
    let b := min c.endS p.endS
    if a < b then
      Function.update o c.speakerId.toNat
        (Function.update (o c.speakerId.toNat) p.speakerId.toNat
          (o c.speakerId.toNat p.speakerId.toNat + (b - a)))
    else o
  else o

/-- The overlap matrix `O`. -/
def overlaps (numSpks : ℕ) (cur prev : List (StreamingDiarizationSegment K)) : ℕ → ℕ → K :=
  cur.foldl
    (fun o c => if InSlots numSpks c then prev.foldl (addOverlap numSpks c) o else o) fun _ _ => 0

/-- `order`: the local ids by their best overlap, best first. Of equal ones nothing is known. -/
def slotOrder (numSpks : ℕ) (o : ℕ → ℕ → K) (tie : ℕ → ℕ) : List (K × ℕ) :=
  sortBy (fun e : K × ℕ => OrderDual.toDual e.1) tie
    ((List.range numSpks).map fun i => ((List.range numSpks).foldl (fun m j => max m (o i j)) 0, i))

/-- `remap` and `taken`. An entry that is not set is `-1` in the source. -/
structure Slots where
  remap : ℕ → Option ℕ
  taken : ℕ → Bool

/-- No speaker has a number. -/
def Slots.empty : Slots := ⟨fun _ => none, fun _ => false⟩

/-- `remap[i] = j; taken[j] = true`. -/
def Slots.assign (s : Slots) (i j : ℕ) : Slots :=
  ⟨Function.update s.remap i (some j), Function.update s.taken j true⟩

@[simp] theorem Slots.remap_assign (s : Slots) (i j : ℕ) :
    (s.assign i j).remap = Function.update s.remap i (some j) := rfl

@[simp] theorem Slots.taken_assign (s : Slots) (i j : ℕ) :
    (s.assign i j).taken = Function.update s.taken j true := rfl

/-- The session id that is not taken and overlaps local id `i` the most. -/
def bestSlot (numSpks : ℕ) (o : ℕ → ℕ → K) (taken : ℕ → Bool) (i : ℕ) : Option ℕ :=
  ((List.range numSpks).foldl (fun (best : Option ℕ × K) j =>
    if taken j then best else if best.2 < o i j then (some j, o i j) else best) (none, 0)).1

/-- The body of the greedy loop. -/
def greedyStep (numSpks : ℕ) (o : ℕ → ℕ → K) (s : Slots) (pr : K × ℕ) : Slots :=
  if pr.1 ≤ 0 then s
  else
    match bestSlot numSpks o s.taken pr.2 with
    | some j => s.assign pr.2 j
    | none => s

/-- The greedy loop. -/
def greedy (numSpks : ℕ) (o : ℕ → ℕ → K) (tie : ℕ → ℕ) : Slots :=
  (slotOrder numSpks o tie).foldl (greedyStep numSpks o) .empty

end Definitions

/-- `while (next < num_spks && taken[next]) ++next`. -/
def nextFree (numSpks : ℕ) (taken : ℕ → Bool) (next : ℕ) : ℕ :=
  if next < numSpks ∧ taken next then nextFree numSpks taken (next + 1) else next
termination_by numSpks - next

/-- The body of the last loop, with what `i` gets when nothing is left. -/
def fillStep (fallback : ℕ → ℕ) (numSpks : ℕ) (acc : Slots × ℕ) (i : ℕ) : Slots × ℕ :=
  if acc.1.remap i ≠ none then acc
  else
    let next := nextFree numSpks acc.1.taken acc.2
    if next < numSpks then (acc.1.assign i next, next + 1)
    else ({ acc.1 with remap := Function.update acc.1.remap i (some (fallback i)) }, next)

/-- The last loop: the lowest numbers that are left. -/
def fill (fallback : ℕ → ℕ) (numSpks : ℕ) (s : Slots) : Slots :=
  ((List.range numSpks).foldl (fillStep fallback numSpks) (s, 0)).1

/-- `compute_slot_remap_`, with the fallback as a parameter. -/
def computeSlotRemapWith {K : Type*} [LinearOrder K] [Zero K] [Add K] [Sub K]
    (fallback : ℕ → ℕ) (tie : ℕ → ℕ) (prev cur : List (StreamingDiarizationSegment K))
    (numSpks : ℕ) : List (Option ℕ) :=
  if prev = [] then (List.range numSpks).map some
  else
    (List.range numSpks).map
      (fill fallback numSpks (greedy numSpks (overlaps numSpks cur prev) tie)).remap

/-- `compute_slot_remap_`: entry `i` is the session id of local id `i`. -/
def computeSlotRemap {K : Type*} [LinearOrder K] [Zero K] [Add K] [Sub K]
    (tie : ℕ → ℕ) (prev cur : List (StreamingDiarizationSegment K)) (numSpks : ℕ) :
    List (Option ℕ) :=
  computeSlotRemapWith (fun i => i) tie prev cur numSpks

/-! ### Both loops assign -/

/-- What the loops keep: the numbers are given away at most once, and those are taken. -/
structure Assigning (numSpks : ℕ) (s : Slots) : Prop where
  assignment : IsAssignment numSpks s.remap
  taken_iff : ∀ j < numSpks, s.taken j = true ↔ ∃ i < numSpks, s.remap i = some j

section Assign

variable {numSpks : ℕ} {s : Slots} {i j : ℕ}

theorem assigning_empty (numSpks : ℕ) : Assigning numSpks .empty :=
  ⟨.none numSpks, fun _ _ => ⟨nofun, nofun⟩⟩

/-- A number that is not taken is given to a speaker without one. -/
theorem Assigning.assign (h : Assigning numSpks s) (hi : i < numSpks) (hnone : s.remap i = none)
    (hj : j < numSpks) (hfree : s.taken j = false) : Assigning numSpks (s.assign i j) where
  assignment := by
    refine h.assignment.update hj fun i' hi' heq => ?_
    have htaken := (h.taken_iff j hj).2 ⟨i', hi', heq⟩
    rw [hfree] at htaken
    cases htaken
  taken_iff k hk := by
    rw [Slots.taken_assign, Slots.remap_assign]
    obtain rfl | hne := eq_or_ne k j
    · rw [Function.update_self]
      exact iff_of_true rfl ⟨i, hi, Function.update_self ..⟩
    · rw [Function.update_of_ne hne, h.taken_iff k hk]
      refine exists_congr fun i' => and_congr_right fun _ => ?_
      obtain rfl | hne' := eq_or_ne i' i
      · rw [Function.update_self, hnone]
        exact iff_of_false nofun fun heq => hne (Option.some.inj heq).symm
      · rw [Function.update_of_ne hne']

/-- A number that is not taken is left, as long as a speaker has none. -/
theorem Assigning.exists_free (h : Assigning numSpks s) (hi : i < numSpks) (hnone : s.remap i = none) :
    ∃ j < numSpks, s.taken j = false := by
  obtain ⟨j, hj, hfree⟩ := IsAssignment.exists_free hi hnone
  refine ⟨j, hj, Bool.eq_false_iff.2 fun htaken => ?_⟩
  obtain ⟨i', hi', heq⟩ := (h.taken_iff j hj).1 htaken
  exact hfree i' hi' heq

end Assign

/-! ### The greedy loop -/

section Greedy

variable {K : Type*} [LinearOrder K] [Zero K] [Add K] [Sub K] {numSpks : ℕ} {o : ℕ → ℕ → K}
  {taken : ℕ → Bool} {i j : ℕ} {s : Slots}

omit [Add K] [Sub K] in
theorem bestSlot_spec (h : bestSlot numSpks o taken i = some j) : j < numSpks ∧ taken j = false := by
  have hfold : ∀ (js : List ℕ) (best : Option ℕ × K),
      (js.foldl (fun (best : Option ℕ × K) j =>
        if taken j then best else if best.2 < o i j then (some j, o i j) else best) best).1 = some j →
      best.1 = some j ∨ j ∈ js ∧ taken j = false := by
    intro js
    induction js with
    | nil => exact fun best hbest => .inl hbest
    | cons k js ih =>
      intro best hbest
      rw [List.foldl_cons] at hbest
      obtain hbest | ⟨hmem, hfree⟩ := ih _ hbest
      · split at hbest
        · exact .inl hbest
        · rename_i hfree
          split at hbest
          · obtain rfl := Option.some.inj hbest
            exact .inr ⟨List.mem_cons_self, Bool.eq_false_iff.2 hfree⟩
          · exact .inl hbest
      · exact .inr ⟨List.mem_cons_of_mem _ hmem, hfree⟩
  rw [bestSlot] at h
  obtain h | ⟨hmem, hfree⟩ := hfold _ _ h
  · cases h
  · exact ⟨List.mem_range.1 hmem, hfree⟩

omit [Add K] [Sub K] in
/-- A pass of the loop gives at most the local id at hand a number. -/
theorem assigning_greedyStep {pr : K × ℕ} (h : Assigning numSpks s) (hi : pr.2 < numSpks)
    (hnone : s.remap pr.2 = none) :
    Assigning numSpks (greedyStep numSpks o s pr) ∧
      ∀ i ≠ pr.2, (greedyStep numSpks o s pr).remap i = s.remap i := by
  rw [greedyStep]
  split
  · exact ⟨h, fun _ _ => rfl⟩
  · split
    · rename_i j hj
      obtain ⟨hlt, hfree⟩ := bestSlot_spec hj
      exact ⟨h.assign hi hnone hlt hfree, fun i hne => Function.update_of_ne hne _ _⟩
    · exact ⟨h, fun _ _ => rfl⟩

omit [Add K] [Sub K] in
/-- **The greedy loop** visits every local id once. -/
theorem assigning_greedy (numSpks : ℕ) (o : ℕ → ℕ → K) (tie : ℕ → ℕ) :
    Assigning numSpks (greedy numSpks o tie) := by
  have hids : ((slotOrder numSpks o tie).map Prod.snd).Perm (List.range numSpks) := by
    refine (sortBy_perm.map Prod.snd).trans (.of_eq ?_)
    rw [List.map_map]
    exact List.map_id _
  have hloop : ∀ (order : List (K × ℕ)) (s : Slots), (order.map Prod.snd).Nodup →
      (∀ pr ∈ order, pr.2 < numSpks ∧ s.remap pr.2 = none) → Assigning numSpks s →
      Assigning numSpks (order.foldl (greedyStep numSpks o) s) := by
    intro order
    induction order with
    | nil => exact fun s _ _ hs => hs
    | cons pr order ih =>
      intro s hnodup horder hs
      rw [List.map_cons, List.nodup_cons] at hnodup
      obtain ⟨hlt, hnone⟩ := horder pr List.mem_cons_self
      obtain ⟨hstep, hkept⟩ := assigning_greedyStep (o := o) hs hlt hnone
      refine ih _ hnodup.2 (fun pr' hpr' => ?_) hstep
      obtain ⟨hlt', hnone'⟩ := horder pr' (List.mem_cons_of_mem _ hpr')
      refine ⟨hlt', (hkept pr'.2 fun heq => hnodup.1 ?_).trans hnone'⟩
      rw [← heq]
      exact List.mem_map_of_mem hpr'
  refine hloop _ _ (hids.nodup_iff.2 List.nodup_range) (fun pr hpr => ⟨?_, rfl⟩)
    (assigning_empty numSpks)
  exact List.mem_range.1 (hids.mem_iff.1 (List.mem_map_of_mem hpr))

end Greedy

/-! ### The last loop -/

section Fill

variable {numSpks : ℕ} {taken : ℕ → Bool} {next j : ℕ} {s : Slots} {acc : Slots × ℕ} {i : ℕ}

/-- The search goes on to the first number that is not taken. -/
theorem nextFree_spec (hbefore : ∀ k < next, taken k = true) (hj : j < numSpks)
    (hfree : taken j = false) :
    nextFree numSpks taken next < numSpks ∧ taken (nextFree numSpks taken next) = false ∧
      ∀ k < nextFree numSpks taken next, taken k = true := by
  induction next using nextFree.induct numSpks taken with
  | case1 next hgo ih =>
    rw [nextFree, if_pos hgo]
    refine ih fun k hk => ?_
    obtain hlt | rfl := Nat.lt_succ_iff_lt_or_eq.1 hk
    · exact hbefore k hlt
    · exact hgo.2
  | case2 next hstop =>
    rw [nextFree, if_neg hstop]
    have hle : next ≤ j := by
      by_contra hlt
      rw [hbefore j (by omega)] at hfree
      cases hfree
    refine ⟨by omega, Bool.eq_false_iff.2 fun htaken => hstop ⟨by omega, htaken⟩, hbefore⟩

/-- The numbers below `next` are taken. -/
structure Filling (numSpks : ℕ) (acc : Slots × ℕ) : Prop extends Assigning numSpks acc.1 where
  taken_below : ∀ k < acc.2, acc.1.taken k = true

/-- **A pass of the last loop** finds a number that is left, whatever the fallback is. -/
theorem filling_fillStep (fallback : ℕ → ℕ) (h : Filling numSpks acc) (hi : i < numSpks) :
    Filling numSpks (fillStep fallback numSpks acc i) ∧
      fillStep fallback numSpks acc i = fillStep (fun i => i) numSpks acc i ∧
      (fillStep fallback numSpks acc i).1.remap i ≠ none ∧
      ∀ i', acc.1.remap i' ≠ none → (fillStep fallback numSpks acc i).1.remap i' ≠ none := by
  by_cases hnone : acc.1.remap i = none
  · obtain ⟨j, hj, hfree⟩ := h.exists_free hi hnone
    obtain ⟨hlt, hfree', hbelow⟩ := nextFree_spec h.taken_below hj hfree
    have hstep (fallback : ℕ → ℕ) : fillStep fallback numSpks acc i =
        (acc.1.assign i (nextFree numSpks acc.1.taken acc.2),
          nextFree numSpks acc.1.taken acc.2 + 1) := by
      rw [fillStep, if_neg (not_not.2 hnone)]
      exact if_pos hlt
    rw [hstep, hstep]
    refine ⟨⟨h.assign hi hnone hlt hfree', fun k hk => ?_⟩, rfl, ?_, fun i' hi' => ?_⟩
    · rw [Slots.taken_assign]
      obtain rfl | hne := eq_or_ne k (nextFree numSpks acc.1.taken acc.2)
      · exact Function.update_self ..
      · exact (Function.update_of_ne hne _ _).trans (hbelow k (by omega))
    · rw [Slots.remap_assign, Function.update_self]
      exact Option.some_ne_none _
    · rw [Slots.remap_assign]
      obtain rfl | hne := eq_or_ne i' i
      · exact absurd hnone hi'
      · rwa [Function.update_of_ne hne]
  · have hstep (fallback : ℕ → ℕ) : fillStep fallback numSpks acc i = acc := if_pos hnone
    rw [hstep, hstep]
    exact ⟨h, rfl, hnone, fun _ hi' => hi'⟩

/-- **The last loop** completes the assignment, and its fallback is not reached. -/
theorem assigning_fill (fallback : ℕ → ℕ) (h : Assigning numSpks s) :
    Assigning numSpks (fill fallback numSpks s) ∧
      fill fallback numSpks s = fill (fun i => i) numSpks s ∧
      ∀ i < numSpks, (fill fallback numSpks s).remap i ≠ none := by
  have hloop : ∀ n ≤ numSpks,
      let acc := (List.range n).foldl (fillStep fallback numSpks) (s, 0)
      Filling numSpks acc ∧ acc = (List.range n).foldl (fillStep (fun i => i) numSpks) (s, 0) ∧
        ∀ i < n, acc.1.remap i ≠ none := by
    intro n hn
    induction n with
    | zero => exact ⟨⟨h, nofun⟩, rfl, nofun⟩
    | succ n ih =>
      obtain ⟨hfilling, heq, hsome⟩ := ih (by omega)
      obtain ⟨hstep, hsame, hhere, hkept⟩ := filling_fillStep fallback hfilling (i := n) (by omega)
      simp only [List.range_succ, List.foldl_append, List.foldl_cons, List.foldl_nil]
      refine ⟨hstep, by rw [hsame, heq], fun i hi => ?_⟩
      obtain hlt | rfl := Nat.lt_succ_iff_lt_or_eq.1 hi
      · exact hkept i (hsome i hlt)
      · exact hhere
  obtain ⟨hfilling, heq, hsome⟩ := hloop numSpks le_rfl
  exact ⟨hfilling.toAssigning, congrArg Prod.fst heq, hsome⟩

end Fill

/-- **The numbers are permuted**: no two speakers get one number and no number is lost, whatever the
segments are and however the sort orders equal overlaps. The fallback is not reached. -/
theorem computeSlotRemap_perm {K : Type*} [LinearOrder K] [Zero K] [Add K] [Sub K] (tie : ℕ → ℕ)
    (prev cur : List (StreamingDiarizationSegment K)) (numSpks : ℕ) :
    (computeSlotRemap tie prev cur numSpks).Perm ((List.range numSpks).map some) ∧
      ∀ fallback, computeSlotRemapWith fallback tie prev cur numSpks =
        computeSlotRemap tie prev cur numSpks := by
  have hgreedy := assigning_greedy numSpks (overlaps numSpks cur prev) tie
  constructor
  · rw [computeSlotRemap, computeSlotRemapWith]
    split
    · exact List.Perm.refl _
    · obtain ⟨hfill, -, hsome⟩ := assigning_fill (fun i => i) hgreedy
      exact hfill.assignment.perm hsome
  · intro fallback
    rw [computeSlotRemap, computeSlotRemapWith, computeSlotRemapWith,
      (assigning_fill fallback hgreedy).2.1]

/-- Both speakers overlap speaker 1 the most; the second one gets the number that is left. -/
example : computeSlotRemap id [(⟨1, 0, 8, 0, true⟩ : StreamingDiarizationSegment ℤ)]
    [⟨0, 2, 8, 1, true⟩, ⟨1, 0, 2, 1, true⟩] 3 = [some 1, some 0, some 2] := by
  decide +kernel

end Parakeet

end WhisperCpp
