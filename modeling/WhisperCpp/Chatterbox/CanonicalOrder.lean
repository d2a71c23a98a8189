import WhisperCpp.Chatterbox.Normalize
import WhisperCpp.Library.StableSort

/-!
# Canonical order

`canonical_reorder` goes through a list of code points, from one run of marks to the next, and sorts
each run by combining class. `canonicalReorder` is the list that it makes.

## Main definitions

* `canonicalReorderLoop` — the loop of the source, with its indices
* `MaximalRun` — a run of marks between starters

## Main results

* `canonicalReorderLoop_eq` — the loop ends, with `canonicalReorder`
* `canonicalReorder_append` — parts that do not share a run are reordered alone
* `canonicalReorder_spec` — what is kept and what is sorted
-/

namespace WhisperCpp

namespace Chatterbox

open StableSort

/-- A code point with a combining class other than 0. -/
def isMark (cp : ℕ) : Bool := !isStarter cp

/-- The first index from `k` on that does not satisfy `p`. -/
def scanWhile (p : ℕ → Bool) (cps : List ℕ) (k : ℕ) : ℕ := k + ((cps.drop k).takeWhile p).length

/-- A stable sort of the code points from `start` to `stop`. -/
def sortRange (cps : List ℕ) (start stop : ℕ) : List ℕ :=
  cps.take start ++ sort combiningClass ((cps.drop start).take (stop - start)) ++ cps.drop stop

theorem le_scanWhile (p : ℕ → Bool) (cps : List ℕ) (k : ℕ) : k ≤ scanWhile p cps k :=
  Nat.le_add_right _ _

theorem length_sortRange {cps : List ℕ} {start stop : ℕ} (h : start ≤ stop) :
    (sortRange cps start stop).length = cps.length := by
  have hsort := (sort_perm combiningClass ((cps.drop start).take (stop - start))).length_eq
  simp only [sortRange, List.length_append, hsort, List.length_take, List.length_drop]
  omega

/-- `start`, where the next run of marks begins. -/
def runStart (cps : List ℕ) (i : ℕ) : ℕ := scanWhile isStarter cps i

/-- `end`, where it ends. -/
def runStop (cps : List ℕ) (i : ℕ) : ℕ := scanWhile isMark cps (runStart cps i)

/-- The code points with this run sorted. -/
def sortRun (cps : List ℕ) (i : ℕ) : List ℕ :=
  if runStart cps i + 1 < runStop cps i then sortRange cps (runStart cps i) (runStop cps i) else cps

theorem length_sortRun (cps : List ℕ) (i : ℕ) : (sortRun cps i).length = cps.length := by
  rw [sortRun]
  split
  · exact length_sortRange (by omega)
  · rfl

/-- `canonical_reorder`, from the index `i` on. -/
def canonicalReorderLoop (cps : List ℕ) (i : ℕ) : List ℕ :=
  if i < cps.length then
    if runStop cps i = runStart cps i then canonicalReorderLoop (sortRun cps i) (i + 1)
    else canonicalReorderLoop (sortRun cps i) (runStop cps i)
  else cps
termination_by cps.length - i
decreasing_by
  all_goals
    have hlen := length_sortRun cps i
    have hstart : i ≤ runStart cps i := le_scanWhile isStarter cps i
    have hstop : runStart cps i ≤ runStop cps i := le_scanWhile isMark cps _
    omega

section Blocks

variable {a b m x y z cps : List ℕ}

theorem sort_run (m : List ℕ) :
    m.insertionSort (fun a b => combiningClass a ≤ combiningClass b) = sort combiningClass m := rfl

theorem mem_sort {cp : ℕ} : cp ∈ sort combiningClass m ↔ cp ∈ m := (sort_perm _ _).mem_iff

theorem takeWhile_block {p : ℕ → Bool} (hm : ∀ cp ∈ m, p cp = true)
    (hz : ∀ cp ∈ z.head?, p cp = false) :
    (m ++ z).takeWhile p = m ∧ (m ++ z).dropWhile p = z := by
  rw [List.takeWhile_append_of_pos hm, List.dropWhile_append_of_pos hm]
  cases z with
  | nil => simp
  | cons c z =>
    have hc : p c = false := hz c rfl
    simp [hc]

/-- Starters stay. -/
theorem canonicalReorder_starters (ha : ∀ cp ∈ a, isStarter cp = true) (z : List ℕ) :
    canonicalReorder (a ++ z) = a ++ canonicalReorder z := by
  have hdrop : (a ++ z).dropWhile isStarter = z.dropWhile isStarter :=
    List.dropWhile_append_of_pos ha
  have htake : (a ++ z).takeWhile isStarter = a ++ z.takeWhile isStarter :=
    List.takeWhile_append_of_pos ha
  rw [canonicalReorder.eq_1 (a ++ z), canonicalReorder.eq_1 z, hdrop, htake]
  split
  · rfl
  · simp only [List.append_assoc]

/-- A run in front of what is no mark. -/
theorem canonicalReorder_marks (hm : ∀ cp ∈ m, isStarter cp = false)
    (hz : ∀ cp ∈ z.head?, isStarter cp = true) :
    canonicalReorder (m ++ z) = sort combiningClass m ++ canonicalReorder z := by
  cases m with
  | nil => rfl
  | cons c m =>
    have hc : isStarter c = false := hm c List.mem_cons_self
    have hdrop : (c :: m ++ z).dropWhile isStarter = c :: m ++ z := by simp [hc]
    have htake : (c :: m ++ z).takeWhile isStarter = [] := by simp [hc]
    obtain ⟨hrun, hrest⟩ := takeWhile_block (p := fun cp => !isStarter cp) (m := c :: m) (z := z)
      (fun cp hcp => by simp [hm cp hcp]) fun cp hcp => by simp [hz cp hcp]
    rw [canonicalReorder, hdrop, if_neg (by simp), htake, hrun, hrest, sort_run, List.nil_append]

/-- Every list that is not all starters has a first run. -/
theorem exists_block (cps : List ℕ) : ∃ a m z, cps = a ++ (m ++ z) ∧
    (∀ cp ∈ a, isStarter cp = true) ∧ (∀ cp ∈ m, isStarter cp = false) ∧
    (∀ cp ∈ z.head?, isStarter cp = true) ∧ (m = [] → z = []) := by
  refine ⟨cps.takeWhile isStarter, (cps.dropWhile isStarter).takeWhile fun cp => !isStarter cp,
    (cps.dropWhile isStarter).dropWhile fun cp => !isStarter cp, ?_, ?_, ?_, ?_, ?_⟩
  · rw [List.takeWhile_append_dropWhile, List.takeWhile_append_dropWhile]
  · exact fun cp hcp => List.mem_takeWhile_imp hcp
  · intro cp hcp
    simpa using List.mem_takeWhile_imp hcp
  · intro cp hcp
    have hnot := List.head?_dropWhile_not (fun cp => !isStarter cp) (cps.dropWhile isStarter)
    rw [Option.mem_def.mp hcp] at hnot
    simpa using hnot
  · intro hnil
    cases hdrop : cps.dropWhile isStarter with
    | nil => rfl
    | cons c z =>
      have hnot := List.head?_dropWhile_not isStarter cps
      rw [hdrop] at hnot hnil
      have hc : isStarter c = false := by simpa using hnot
      simp [hc] at hnil

/-- An induction over the runs. -/
theorem block_induction {P : List ℕ → Prop}
    (starters : ∀ a : List ℕ, (∀ cp ∈ a, isStarter cp = true) → P a)
    (run : ∀ a m z : List ℕ, (∀ cp ∈ a, isStarter cp = true) → m ≠ [] →
      (∀ cp ∈ m, isStarter cp = false) → (∀ cp ∈ z.head?, isStarter cp = true) → P z →
      P (a ++ (m ++ z))) (cps : List ℕ) : P cps := by
  induction hlen : cps.length using Nat.strong_induction_on generalizing cps with
  | _ n ih =>
    obtain ⟨a, m, z, rfl, ha, hm, hz, hnil⟩ := exists_block cps
    by_cases hempty : m = []
    · rw [hempty, hnil hempty, List.nil_append, List.append_nil]
      exact starters a ha
    · refine run a m z ha hempty hm hz (ih z.length ?_ z rfl)
      have hpos := List.length_pos_iff.mpr hempty
      rw [← hlen, List.length_append, List.length_append]
      omega

theorem canonicalReorder_block (ha : ∀ cp ∈ a, isStarter cp = true)
    (hm : ∀ cp ∈ m, isStarter cp = false) (hz : ∀ cp ∈ z.head?, isStarter cp = true) :
    canonicalReorder (a ++ (m ++ z)) = a ++ (sort combiningClass m ++ canonicalReorder z) := by
  rw [canonicalReorder_starters ha, canonicalReorder_marks hm hz]

theorem canonicalReorder_of_starters (ha : ∀ cp ∈ a, isStarter cp = true) :
    canonicalReorder a = a := by
  have hnil : canonicalReorder [] = [] := by simp [canonicalReorder]
  have happend := canonicalReorder_starters ha []
  rwa [List.append_nil, hnil, List.append_nil] at happend

theorem canonicalReorder_of_marks (hm : ∀ cp ∈ m, isStarter cp = false) :
    canonicalReorder m = sort combiningClass m := by
  have hnil := canonicalReorder_marks hm (z := []) nofun
  rwa [List.append_nil, canonicalReorder_of_starters (a := []) nofun, List.append_nil] at hnil

/-! ### The loop -/

theorem scanWhile_append {p : ℕ → Bool} {k : ℕ} (hk : k = x.length) (hm : ∀ cp ∈ m, p cp = true)
    (hz : ∀ cp ∈ z.head?, p cp = false) : scanWhile p (x ++ (m ++ z)) k = k + m.length := by
  rw [scanWhile, hk, List.drop_left, (takeWhile_block hm hz).1]

/-- Behind the last mark nothing changes. -/
theorem canonicalReorderLoop_of_starters (x : List ℕ) (ha : ∀ cp ∈ a, isStarter cp = true) :
    canonicalReorderLoop (x ++ a) x.length = x ++ a := by
  induction a generalizing x with
  | nil => rw [canonicalReorderLoop, if_neg (by simp)]
  | cons c a ih =>
    have hstart : runStart (x ++ c :: a) x.length = (x ++ c :: a).length := by
      have hscan := scanWhile_append (x := x) (z := []) rfl ha nofun
      rwa [List.append_nil, ← List.length_append] at hscan
    have hstop : runStop (x ++ c :: a) x.length = (x ++ c :: a).length := by
      rw [runStop, hstart, scanWhile, List.drop_length]
      rfl
    rw [canonicalReorderLoop, if_pos (by simp), hstart, hstop, if_pos rfl, sortRun, hstart, hstop,
      if_neg (by omega)]
    have hnext := ih (x ++ [c]) fun cp hcp => ha cp (List.mem_cons_of_mem c hcp)
    rwa [List.append_assoc, List.length_append] at hnext

/-- One run. -/
theorem canonicalReorderLoop_block (x : List ℕ) (ha : ∀ cp ∈ a, isStarter cp = true) (hne : m ≠ [])
    (hm : ∀ cp ∈ m, isStarter cp = false) (hz : ∀ cp ∈ z.head?, isStarter cp = true) :
    canonicalReorderLoop (x ++ (a ++ (m ++ z))) x.length =
      canonicalReorderLoop (x ++ a ++ sort combiningClass m ++ z)
        (x ++ a ++ sort combiningClass m).length := by
  have hlen := (sort_perm combiningClass m).length_eq
  have hpos := List.length_pos_iff.mpr hne
  have hstart : runStart (x ++ (a ++ (m ++ z))) x.length = (x ++ a).length := by
    rw [List.length_append]
    refine scanWhile_append rfl ha fun cp hcp => hm cp ?_
    rw [List.head?_append_of_ne_nil _ hne] at hcp
    exact List.mem_of_mem_head? hcp
  have hstop : runStop (x ++ (a ++ (m ++ z))) x.length = (x ++ a).length + m.length := by
    rw [runStop, hstart, ← List.append_assoc x]
    refine scanWhile_append rfl (fun cp hcp => ?_) fun cp hcp => ?_
    · rw [isMark, hm cp hcp, Bool.not_false]
    · rw [isMark, hz cp hcp, Bool.not_true]
  have hsorted : sortRun (x ++ (a ++ (m ++ z))) x.length = x ++ a ++ sort combiningClass m ++ z := by
    rw [sortRun, hstart, hstop, sortRange, ← List.append_assoc x, Nat.add_sub_cancel_left,
      List.take_left, List.drop_left, List.take_left, ← List.append_assoc (x ++ a),
      ← List.length_append, List.drop_left]
    split
    · rfl
    · rename_i hshort
      simp only [List.length_append] at hshort
      obtain ⟨c, rfl⟩ := List.length_eq_one_iff.mp (show m.length = 1 by omega)
      rfl
  rw [canonicalReorderLoop, if_pos (by simp only [List.length_append]; omega), hstart, hstop,
    if_neg (by omega), hsorted, @List.length_append _ (x ++ a) (sort combiningClass m), hlen]

/-- **The loop ends with the runs sorted.** -/
theorem canonicalReorderLoop_eq (cps : List ℕ) :
    canonicalReorderLoop cps 0 = canonicalReorder cps := by
  have hfrom : ∀ x : List ℕ, canonicalReorderLoop (x ++ cps) x.length =
      x ++ canonicalReorder cps := by
    induction cps using block_induction with
    | starters a ha =>
      intro x
      rw [canonicalReorderLoop_of_starters x ha, canonicalReorder_of_starters ha]
    | run a m z ha hne hm hz ih =>
      intro x
      rw [canonicalReorderLoop_block x ha hne hm hz, ih, canonicalReorder_block ha hm hz]
      simp only [List.append_assoc]
  exact hfrom []

/-! ### What is kept -/

theorem canonicalReorder_perm (cps : List ℕ) : (canonicalReorder cps).Perm cps := by
  induction cps using block_induction with
  | starters a ha => rw [canonicalReorder_of_starters ha]
  | run a m z ha hne hm hz ih =>
    rw [canonicalReorder_block ha hm hz]
    exact ((sort_perm combiningClass m).append ih).append_left a

/-- What is kept of a code point: a starter stays itself. -/
def starterOnly (cp : ℕ) : Option ℕ := if isStarter cp then some cp else none

theorem map_starterOnly_of_marks (hm : ∀ cp ∈ m, isStarter cp = false) :
    m.map starterOnly = List.replicate m.length none := by
  rw [List.map_eq_replicate_iff]
  exact fun cp hcp => by simp [starterOnly, hm cp hcp]

/-- **The starters keep their positions.** -/
theorem map_starterOnly (cps : List ℕ) :
    (canonicalReorder cps).map starterOnly = cps.map starterOnly := by
  induction cps using block_induction with
  | starters a ha => rw [canonicalReorder_of_starters ha]
  | run a m z ha hne hm hz ih =>
    rw [canonicalReorder_block ha hm hz, List.map_append, List.map_append, List.map_append,
      List.map_append, ih, map_starterOnly_of_marks hm, map_starterOnly_of_marks
        fun cp hcp => hm cp (mem_sort.mp hcp), (sort_perm combiningClass m).length_eq]

theorem getElem?_of_starter {i cp : ℕ} (hi : cps[i]? = some cp) (hcp : isStarter cp = true) :
    (canonicalReorder cps)[i]? = some cp := by
  have hmap := congrArg (·[i]?) (map_starterOnly cps)
  simp only [List.getElem?_map, hi, Option.map_some] at hmap
  obtain ⟨cp', hi', hcp'⟩ := Option.map_eq_some_iff.mp hmap
  have hsame : starterOnly cp = some cp := if_pos hcp
  rw [hsame, starterOnly] at hcp'
  split at hcp'
  · rw [hi', hcp']
  · cases hcp'

theorem head?_canonicalReorder (hz : ∀ cp ∈ z.head?, isStarter cp = true) :
    ∀ cp ∈ (canonicalReorder z).head?, isStarter cp = true := by
  intro cp hcp
  rw [List.head?_eq_getElem?] at hcp
  cases hhead : z[0]? with
  | none =>
    have hnil : (canonicalReorder z).length = 0 := by
      rw [(canonicalReorder_perm z).length_eq]
      simpa using hhead
    rw [List.length_eq_zero_iff.mp hnil] at hcp
    cases hcp
  | some c =>
    have hc := hz c (by rw [List.head?_eq_getElem?, hhead]; rfl)
    rw [getElem?_of_starter hhead hc] at hcp
    obtain rfl := Option.some.inj hcp
    exact hc

/-- **Parts that do not share a run** are reordered alone. -/
theorem canonicalReorder_append (x y : List ℕ)
    (h : ∀ u ∈ x.getLast?, ∀ v ∈ y.head?, isStarter u = true ∨ isStarter v = true) :
    canonicalReorder (x ++ y) = canonicalReorder x ++ canonicalReorder y := by
  induction x using block_induction with
  | starters a ha => rw [canonicalReorder_starters ha, canonicalReorder_of_starters ha]
  | run a m z ha hne hm hz ih =>
    have hlast : (a ++ (m ++ z)).getLast? = (m ++ z).getLast? :=
      List.getLast?_append_of_ne_nil _ (by simp [hne])
    rw [hlast] at h
    have hzy : ∀ cp ∈ (z ++ y).head?, isStarter cp = true := by
      cases z with
      | nil =>
        intro cp hcp
        obtain ⟨u, hu⟩ := Option.ne_none_iff_exists'.mp (mt List.getLast?_eq_none_iff.mp hne)
        have hmark := hm u (List.mem_of_getLast? hu)
        rw [List.append_nil] at h
        exact (h u hu cp hcp).resolve_left (by simp [hmark])
      | cons c z => exact hz
    have ih := ih fun u hu v hv => h u (by
      cases z with
      | nil => cases hu
      | cons c z => rwa [List.getLast?_append_of_ne_nil _ (List.cons_ne_nil _ _)]) v hv
    rw [List.append_assoc, List.append_assoc, canonicalReorder_block ha hm hzy, ih,
      canonicalReorder_block ha hm hz]
    simp only [List.append_assoc]

/-- **Reordering again changes nothing.** -/
theorem canonicalReorder_canonicalReorder (cps : List ℕ) :
    canonicalReorder (canonicalReorder cps) = canonicalReorder cps := by
  induction cps using block_induction with
  | starters a ha => rw [canonicalReorder_of_starters ha, canonicalReorder_of_starters ha]
  | run a m z ha hne hm hz ih =>
    rw [canonicalReorder_block ha hm hz, canonicalReorder_block ha
      (fun cp hcp => hm cp (mem_sort.mp hcp)) (head?_canonicalReorder hz), ih, sort_sort]

/-- The code points are those of `a`, a run of marks, and those of `b`. -/
structure MaximalRun (cps a m b : List ℕ) : Prop where
  eq : cps = a ++ m ++ b
  marks : ∀ cp ∈ m, combiningClass cp ≠ 0
  left : ∀ cp ∈ a.getLast?, combiningClass cp = 0
  right : ∀ cp ∈ b.head?, combiningClass cp = 0

theorem isStarter_iff {cp : ℕ} : isStarter cp = true ↔ combiningClass cp = 0 := beq_iff_eq

/-- A maximal run is sorted where it is. -/
theorem MaximalRun.canonicalReorder_eq (h : MaximalRun cps a m b) :
    canonicalReorder cps = canonicalReorder a ++ sort combiningClass m ++ canonicalReorder b := by
  have hleft : ∀ u ∈ (a ++ m).getLast?, ∀ v ∈ b.head?, isStarter u = true ∨ isStarter v = true :=
    fun _ _ v hv => .inr (isStarter_iff.mpr (h.right v hv))
  have hright : ∀ u ∈ a.getLast?, ∀ v ∈ m.head?, isStarter u = true ∨ isStarter v = true :=
    fun u hu _ _ => .inl (isStarter_iff.mpr (h.left u hu))
  have hmarks : ∀ cp ∈ m, isStarter cp = false := by
    intro cp hcp
    rw [← Bool.not_eq_true, isStarter_iff]
    exact h.marks cp hcp
  rw [h.eq, canonicalReorder_append _ _ hleft, canonicalReorder_append _ _ hright,
    canonicalReorder_of_marks hmarks]

end Blocks

/-- **What `canonical_reorder` does**: a permutation that leaves the starters where they are, sorts
every maximal run of marks stably by class, and does nothing the second time. -/
theorem canonicalReorder_spec (cps : List ℕ) :
    (canonicalReorderLoop cps 0).Perm cps ∧
      (∀ i cp : ℕ, cps[i]? = some cp → combiningClass cp = 0 →
        (canonicalReorderLoop cps 0)[i]? = some cp) ∧
      (∀ a m b, MaximalRun cps a m b → ∃ a' m' b', canonicalReorderLoop cps 0 = a' ++ m' ++ b' ∧
        a'.length = a.length ∧ m'.Perm m ∧
        (m'.Pairwise fun u v => combiningClass u ≤ combiningClass v) ∧
        ∀ k, (m'.filter fun cp => combiningClass cp = k) = m.filter fun cp => combiningClass cp = k) ∧
      canonicalReorderLoop (canonicalReorderLoop cps 0) 0 = canonicalReorderLoop cps 0 := by
  rw [canonicalReorderLoop_eq, canonicalReorderLoop_eq]
  refine ⟨canonicalReorder_perm cps, fun i cp hi hcp => getElem?_of_starter hi (isStarter_iff.mpr hcp),
    fun a m b h => ?_, canonicalReorder_canonicalReorder cps⟩
  exact ⟨canonicalReorder a, sort combiningClass m, canonicalReorder b, h.canonicalReorder_eq,
    (canonicalReorder_perm a).length_eq, sort_perm _ _, pairwise_sort _ _,
    fun k => filter_sort combiningClass k m⟩

end Chatterbox

end WhisperCpp
