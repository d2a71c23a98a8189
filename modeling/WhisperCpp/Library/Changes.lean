import Mathlib.Data.List.Chain

/-!
# Changes along a run

A machine reads its input one by one, and a part of its state is watched. `changes` are the values
to which that part changes, and no two that follow each other are equal. If the input comes in
blocks and only the last change of a block is reported, the last report is still right, but two
reports can be equal: `isChain_reports_iff` says when.
-/

namespace WhisperCpp

namespace Changes

variable {σ α β : Type*} [DecidableEq β] (next : σ → α → σ) (obs : σ → β)

/-- The values to which the watched part changes. -/
def changes : σ → List α → List β
  | _, [] => []
  | s, a :: input =>
    if obs (next s a) = obs s then changes (next s a) input
    else obs (next s a) :: changes (next s a) input

/-- The last change of each block that has one. -/
def reports : σ → List (List α) → List β
  | _, [] => []
  | s, block :: rest =>
    (changes next obs s block).getLast?.toList ++ reports (block.foldl next s) rest

variable {next obs} {s : σ}

/-- Each change is one. -/
theorem isChain_changes (input : List α) : (obs s :: changes next obs s input).IsChain (· ≠ ·) := by
  induction input generalizing s with
  | nil => exact .singleton _
  | cons a input ih =>
    rw [changes]
    split_ifs with heq
    · rw [← heq]
      exact ih
    · exact List.isChain_cons_cons.2 ⟨fun h => heq h.symm, ih⟩

variable (next obs s) in
/-- The watched part is what it changed to last. -/
theorem getLastD_changes (input : List α) :
    (changes next obs s input).getLastD (obs s) = obs (input.foldl next s) := by
  induction input generalizing s with
  | nil => rfl
  | cons a input ih =>
    rw [changes, List.foldl_cons, ← ih (next s a)]
    split_ifs with heq
    · rw [heq]
    · rw [List.getLastD_cons]

theorem getLast?_changes {input : List α} (h : changes next obs s input ≠ []) :
    (changes next obs s input).getLast? = some (obs (input.foldl next s)) := by
  rw [← getLastD_changes next obs s input, List.getLastD_eq_getLast?]
  cases hlast : (changes next obs s input).getLast? with
  | none => exact absurd (List.getLast?_eq_none_iff.1 hlast) h
  | some b => rfl

theorem obs_foldl_of_changes_eq_nil {input : List α} (h : changes next obs s input = []) :
    obs (input.foldl next s) = obs s := by
  rw [← getLastD_changes next obs s input, h, List.getLastD_nil]

/-- The last report is right. -/
theorem getLastD_reports (blocks : List (List α)) :
    (reports next obs s blocks).getLastD (obs s) = obs (blocks.flatten.foldl next s) := by
  induction blocks generalizing s with
  | nil => rfl
  | cons block blocks ih =>
    rw [reports, List.flatten_cons, List.foldl_append, ← ih]
    by_cases hnil : changes next obs s block = []
    · rw [hnil, List.getLast?_nil, Option.toList_none, List.nil_append,
        obs_foldl_of_changes_eq_nil hnil]
    · rw [getLast?_changes hnil, Option.toList_some, List.singleton_append, List.getLastD_cons]

/-- **The reports alternate** iff no block with a change ends where it started. -/
theorem isChain_reports_iff (blocks : List (List α)) :
    (obs s :: reports next obs s blocks).IsChain (· ≠ ·) ↔
      ∀ front block back, blocks = front ++ block :: back →
        changes next obs (front.flatten.foldl next s) block ≠ [] →
          obs (block.foldl next (front.flatten.foldl next s)) ≠ obs (front.flatten.foldl next s) := by
  induction blocks generalizing s with
  | nil =>
    refine ⟨fun _ front block back heq => ?_, fun _ => .singleton _⟩
    exact absurd heq.symm (List.append_ne_nil_of_right_ne_nil _ (List.cons_ne_nil _ _))
  | cons block blocks ih =>
    have hsplit : (∀ front b back, block :: blocks = front ++ b :: back →
        changes next obs (front.flatten.foldl next s) b ≠ [] →
          obs (b.foldl next (front.flatten.foldl next s)) ≠ obs (front.flatten.foldl next s)) ↔
      (changes next obs s block ≠ [] → obs (block.foldl next s) ≠ obs s) ∧
        (obs (block.foldl next s) :: reports next obs (block.foldl next s) blocks).IsChain
          (· ≠ ·) := by
      rw [ih]
      constructor
      · intro h
        refine ⟨h [] block blocks rfl, fun front b back heq => ?_⟩
        have hb := h (block :: front) b back (by rw [heq, List.cons_append])
        rwa [List.flatten_cons, List.foldl_append] at hb
      · rintro ⟨hfirst, hrest⟩ front b back heq
        cases front with
        | nil =>
          obtain ⟨rfl, rfl⟩ := List.cons.inj heq
          exact hfirst
        | cons a front =>
          obtain ⟨rfl, htail⟩ := List.cons.inj heq
          rw [List.flatten_cons, List.foldl_append]
          exact hrest front b back htail
    rw [hsplit, reports]
    by_cases hnil : changes next obs s block = []
    · rw [hnil, List.getLast?_nil, Option.toList_none, List.nil_append,
        obs_foldl_of_changes_eq_nil hnil]
      exact ⟨fun h => ⟨fun hne => absurd rfl hne, h⟩, fun h => h.2⟩
    · rw [getLast?_changes hnil, Option.toList_some, List.singleton_append, List.isChain_cons_cons]
      exact and_congr_left fun _ => ⟨fun h _ => h.symm, fun h => (h hnil).symm⟩

/-! ### Two values -/

/-- Of two values, a chain of changes comes back after an even number of them. -/
theorem getLastD_eq_iff_even {b : β} {l : List β} (h : (b :: l).IsChain (· ≠ ·))
    (htwo : ∀ x ∈ b :: l, ∀ y ∈ b :: l, ∀ z ∈ b :: l, x ≠ y → y ≠ z → x = z) :
    l.getLastD b = b ↔ l.length % 2 = 0 := by
  induction l generalizing b with
  | nil => exact ⟨fun _ => rfl, fun _ => rfl⟩
  | cons y l ih =>
    obtain ⟨hne, htail⟩ := List.isChain_cons_cons.1 h
    have hy := ih htail fun u hu v hv w hw =>
      htwo u (List.mem_cons_of_mem _ hu) v (List.mem_cons_of_mem _ hv) w (List.mem_cons_of_mem _ hw)
    have hlast : l.getLastD y ∈ b :: y :: l := by
      rw [List.getLastD_eq_getLast?]
      cases hl : l.getLast? with
      | none => exact List.mem_cons_of_mem _ List.mem_cons_self
      | some z => exact List.mem_cons_of_mem _ (List.mem_cons_of_mem _ (List.mem_of_getLast? hl))
    rw [List.getLastD_cons, List.length_cons]
    constructor
    · intro heq
      rw [heq] at hy
      have hodd : ¬ l.length % 2 = 0 := fun heven => hne (hy.2 heven)
      omega
    · intro hodd
      by_contra hb
      -- neither `b` nor `y`
      have hlasty : l.getLastD y = y := by
        by_contra hy'
        exact hb (htwo _ hlast _ (List.mem_cons_of_mem _ List.mem_cons_self) _ List.mem_cons_self
          hy' hne.symm)
      have := hy.1 hlasty
      omega

end Changes

end WhisperCpp
