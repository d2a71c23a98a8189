import Mathlib.Data.List.TakeDrop
import Mathlib.Data.Prod.Lex

/-!
# Walking over frames

A decoder that walks over a list of frames: at each frame it emits outputs, changes its state and
either stays or moves on by some number of frames, possibly over the end of the list. Where the
frames come in two parts, the walk over the second part starts as many frames in as the walk over
the first one has run over its end.

## Main definitions

* `Body` — one pass through the loop, with a measure that bounds how often it stays at a frame
* `Body.walk` — the loop
* `Body.walkUntil` — the loop, if a pass can fail

## Main results

* `Body.walk_append` — the walk over two parts
* `Body.walk_map` — a simulation between two loop bodies carries over to walks
* `Body.steps_walkUntil_le`, `Body.length_outs_at_le` — how long a walk takes, and how much it
  emits at a frame
-/

namespace WhisperCpp

namespace FrameWalk

/-- One pass through the loop: the outputs, by how many frames to move on, and the state. A pass
that stays at its frame decreases `left`. -/
structure Body (F S O : Type*) where
  step : F → S → List O × ℕ × S
  left : S → ℕ
  left_lt : ∀ f s, (step f s).2.1 = 0 → left (step f s).2.2 < left s

/-- How a walk ends: its outputs with the frame each was emitted at, the frame it stands at, the
state and the number of passes. -/
@[ext] structure Walk (S O : Type*) where
  outs : List (ℕ × O)
  pos : ℕ
  state : S
  steps : ℕ

variable {F F' S S' O : Type*}

/-- A walk with one more pass in front, at frame `t`. -/
def Walk.push (t : ℕ) (os : List O) (w : Walk S O) : Walk S O :=
  { w with outs := os.map (t, ·) ++ w.outs, steps := w.steps + 1 }

@[simp] theorem Walk.push_pos (t : ℕ) (os : List O) (w : Walk S O) : (w.push t os).pos = w.pos :=
  rfl

/-- `while (t < n_frames)`. -/
def Body.walk (B : Body F S O) (frames : List F) (t : ℕ) (s : S) : Walk S O :=
  if h : t < frames.length then
    let r := B.step frames[t] s
    (B.walk frames (t + r.2.1) r.2.2).push t r.1
  else ⟨[], t, s, 0⟩
termination_by (frames.length - t, B.left s)
decreasing_by
  rcases Nat.eq_zero_or_pos (B.step frames[t] s).2.1 with hz | hpos
  · rw [hz, Nat.add_zero]
    exact Prod.Lex.right _ (B.left_lt _ _ hz)
  · exact Prod.Lex.left _ _ (by omega)

/-- The walk as seen from `n` frames earlier. -/
def Walk.shift (n : ℕ) (w : Walk S O) : Walk S O :=
  { w with outs := w.outs.map fun o => (o.1 + n, o.2), pos := w.pos + n }

/-- One walk after another. -/
def Walk.andThen (v w : Walk S O) : Walk S O :=
  { w with outs := v.outs ++ w.outs, steps := v.steps + w.steps }

namespace Body

variable (B : Body F S O) {frames a b : List F} {t : ℕ} {s : S}

theorem walk_of_le (h : frames.length ≤ t) : B.walk frames t s = ⟨[], t, s, 0⟩ := by
  rw [walk, dif_neg (Nat.not_lt.2 h)]

theorem walk_of_lt (h : t < frames.length) :
    B.walk frames t s =
      (B.walk frames (t + (B.step frames[t] s).2.1) (B.step frames[t] s).2.2).push t
        (B.step frames[t] s).1 := by
  rw [walk, dif_pos h]

/-- A walk runs over the end by less than its longest move. -/
theorem pos_le {d : ℕ} (hd : ∀ f s, (B.step f s).2.1 ≤ d) :
    (B.walk frames t s).pos ≤ max t (frames.length + d - 1) := by
  fun_induction walk B frames t s with
  | case1 t s h r ih =>
    have hmove : r.2.1 ≤ d := hd frames[t] s
    rw [Walk.push_pos]
    omega
  | case2 t s h => exact Nat.le_max_left _ _

/-- What a pass preserves a walk preserves. -/
theorem walk_state {P : S → Prop} (hP : ∀ f s, P s → P (B.step f s).2.2) (hs : P s) :
    P (B.walk frames t s).state := by
  fun_induction walk B frames t s with
  | case1 t s h r ih => exact ih (hP _ _ hs)
  | case2 t s h => exact hs

/-- Nothing is emitted in front of the start. -/
theorem le_of_mem_outs {o : ℕ × O} (ho : o ∈ (B.walk frames t s).outs) : t ≤ o.1 := by
  fun_induction walk B frames t s with
  | case1 t s h r ih =>
    rcases List.mem_append.1 ho with hhere | hlater
    · obtain ⟨x, -, rfl⟩ := List.mem_map.1 hhere
      exact le_rfl
    · have := ih hlater
      omega
  | case2 t s h => exact absurd ho List.not_mem_nil

/-- The second part seen from the start of the first. -/
theorem walk_append_of_le (u : ℕ) :
    B.walk (a ++ b) (a.length + u) s = (B.walk b u s).shift a.length := by
  fun_induction walk B b u s with
  | case1 u s h r ih =>
    have hlt : a.length + u < (a ++ b).length := by rw [List.length_append]; omega
    have hget : (a ++ b)[a.length + u] = b[u] := by simp
    rw [B.walk_of_lt hlt, hget, Nat.add_assoc, ih]
    simp [Walk.shift, Walk.push, r, Nat.add_comm]
  | case2 u s h =>
    rw [B.walk_of_le (by rw [List.length_append]; omega)]
    simp [Walk.shift, Nat.add_comm]

/-- The walk over two parts: behind the first part it goes on in the second one, by as many frames
as it has run over the end. -/
theorem walk_append :
    B.walk (a ++ b) t s =
      (B.walk a t s).andThen
        ((B.walk b ((B.walk a t s).pos - a.length) (B.walk a t s).state).shift a.length) := by
  fun_induction walk B a t s with
  | case1 t s h r ih =>
    have hlt : t < (a ++ b).length := by rw [List.length_append]; omega
    have hget : (a ++ b)[t] = a[t] := List.getElem_append_left h
    rw [B.walk_of_lt hlt, hget, ih]
    simp [Walk.andThen, Walk.push, r, Nat.add_right_comm]
  | case2 t s h =>
    obtain ⟨u, rfl⟩ := Nat.exists_eq_add_of_le (Nat.not_lt.1 h)
    rw [walk_append_of_le]
    simp [Walk.andThen]

/-- Frames that are all passed one by one in silence leave the state alone. -/
theorem walk_of_silent (h : ∀ f ∈ frames, B.step f s = ([], 1, s)) :
    B.walk frames t s = ⟨[], max t frames.length, s, frames.length - t⟩ := by
  generalize hn : frames.length - t = n
  induction n generalizing t with
  | zero => rw [B.walk_of_le (by omega), Nat.max_eq_left (by omega)]
  | succ n ih =>
    have hlt : t < frames.length := by omega
    rw [B.walk_of_lt hlt, h _ (List.getElem_mem hlt), ih (by simp only; omega)]
    simp [Walk.push, Nat.max_eq_right hlt.le, Nat.max_eq_right hlt]

end Body

/-- A simulation between loop bodies is one between walks. -/
theorem Body.walk_map (B : Body F S O) (B' : Body F' S' O) (φ : F → F') (ψ : S' → S)
    (h : ∀ f s, B.step f (ψ s) =
      ((B'.step (φ f) s).1, (B'.step (φ f) s).2.1, ψ (B'.step (φ f) s).2.2))
    (frames : List F) (t : ℕ) (s : S') :
    B.walk frames t (ψ s) =
      let w := B'.walk (frames.map φ) t s
      ⟨w.outs, w.pos, ψ w.state, w.steps⟩ := by
  generalize hmap : frames.map φ = frames'
  fun_induction Body.walk B' frames' t s with
  | case1 t s ht r ih =>
    subst hmap
    have hlt : t < frames.length := by simpa using ht
    have hget : (frames.map φ)[t] = φ frames[t] := List.getElem_map _
    simp only [r, hget] at ih ⊢
    rw [B.walk_of_lt hlt, h, ih]
    rfl
  | case2 t s ht =>
    subst hmap
    rw [B.walk_of_le (by simpa using ht)]

/-! ### Passes that fail, and bounds -/

/-- The loop, if pass number `k` can fail: whether one did, and the walk up to there. -/
def Body.walkUntil (B : Body F S O) (fails : ℕ → Bool) (frames : List F) (k t : ℕ) (s : S) :
    Bool × Walk S O :=
  if h : t < frames.length then
    if fails k then (true, ⟨[], t, s, 0⟩)
    else
      let r := B.step frames[t] s
      let w := B.walkUntil fails frames (k + 1) (t + r.2.1) r.2.2
      (w.1, w.2.push t r.1)
  else (false, ⟨[], t, s, 0⟩)
termination_by (frames.length - t, B.left s)
decreasing_by
  rcases Nat.eq_zero_or_pos (B.step frames[t] s).2.1 with hz | hpos
  · rw [hz, Nat.add_zero]
    exact Prod.Lex.right _ (B.left_lt _ _ hz)
  · exact Prod.Lex.left _ _ (by omega)

namespace Body

variable {B : Body F S O} {fails : ℕ → Bool} {frames : List F} {k t : ℕ} {s : S}

theorem walkUntil_of_not_fails (h : ∀ k, fails k = false) :
    B.walkUntil fails frames k t s = (false, B.walk frames t s) := by
  fun_induction walkUntil B fails frames k t s with
  | case1 k t s ht hfail => exact absurd hfail (by rw [h k]; exact nofun)
  | case2 k t s ht hfail r w ih =>
    rw [B.walk_of_lt ht]
    simp only [w, ih]
    rfl
  | case3 k t s ht => rw [B.walk_of_le (Nat.not_lt.1 ht)]

/-- Nothing is emitted in front of the start. -/
theorem le_of_mem_outs_walkUntil {o : ℕ × O} (ho : o ∈ (B.walkUntil fails frames k t s).2.outs) :
    t ≤ o.1 := by
  fun_induction walkUntil B fails frames k t s with
  | case1 k t s ht hfail => exact absurd ho List.not_mem_nil
  | case2 k t s ht hfail r w ih =>
    rcases List.mem_append.1 ho with hhere | hlater
    · obtain ⟨x, -, rfl⟩ := List.mem_map.1 hhere
      exact le_rfl
    · have := ih hlater
      omega
  | case3 k t s ht => exact absurd ho List.not_mem_nil

/-- A body that emits at most one output in a pass, and stays at a frame for at most `limit` passes:
a pass that stays leaves a smaller measure, which is not zero. -/
structure Bounded (B : Body F S O) (m : S → ℕ) (limit : ℕ) : Prop where
  length_le : ∀ f s, (B.step f s).1.length ≤ 1
  lt_of_stay : ∀ f s, (B.step f s).2.1 = 0 → m (B.step f s).2.2 < m s
  pos_of_stay : ∀ f s, (B.step f s).2.1 = 0 → 0 < m (B.step f s).2.2
  le_limit : ∀ s, m s ≤ limit
  pos_limit : 0 < limit

variable {m : S → ℕ} {limit : ℕ}

variable (fails k s) in
/-- The passes that remain at this frame, and those at the frames behind it. -/
theorem Bounded.steps_le_of_lt (hB : B.Bounded m limit) (ht : t < frames.length) :
    (B.walkUntil fails frames k t s).2.steps ≤
      max 1 (m s) + (frames.length - t - 1) * limit := by
  fun_induction walkUntil B fails frames k t s with
  | case1 k t s _ hfail => exact Nat.zero_le _
  | case2 k t s _ hfail r w ih =>
    show w.2.steps + 1 ≤ _
    rcases Nat.eq_zero_or_pos r.2.1 with hstay | hmove
    · have hlt : m r.2.2 < m s := hB.lt_of_stay _ _ hstay
      have hpos : 0 < m r.2.2 := hB.pos_of_stay _ _ hstay
      have hle : w.2.steps ≤ max 1 (m r.2.2) + (frames.length - (t + r.2.1) - 1) * limit :=
        ih (by omega)
      rw [hstay, Nat.add_zero] at hle
      omega
    · have hrest : w.2.steps ≤ (frames.length - t - 1) * limit := by
        by_cases hlt : t + r.2.1 < frames.length
        · have hlim : max 1 (m r.2.2) ≤ limit := max_le hB.pos_limit (hB.le_limit _)
          calc w.2.steps
            _ ≤ max 1 (m r.2.2) + (frames.length - (t + r.2.1) - 1) * limit := ih hlt
            _ ≤ limit + (frames.length - (t + r.2.1) - 1) * limit := Nat.add_le_add_right hlim _
            _ = (frames.length - (t + r.2.1) - 1 + 1) * limit := by
              rw [Nat.add_mul, Nat.one_mul, Nat.add_comm]
            _ ≤ (frames.length - t - 1) * limit := Nat.mul_le_mul_right _ (by omega)
        · have hzero : w.2.steps = 0 := by
            show (B.walkUntil fails frames (k + 1) (t + r.2.1) r.2.2).2.steps = 0
            rw [walkUntil, dif_neg hlt]
          rw [hzero]
          exact Nat.zero_le _
      omega
  | case3 k t s hle => exact absurd ht hle

/-- **A walk takes at most `limit` passes for a frame.** -/
theorem Bounded.steps_le (hB : B.Bounded m limit) :
    (B.walkUntil fails frames k t s).2.steps ≤ (frames.length - t) * limit := by
  by_cases ht : t < frames.length
  · have hle := hB.steps_le_of_lt fails k s ht
    have hlim : max 1 (m s) ≤ limit := max_le hB.pos_limit (hB.le_limit s)
    calc (B.walkUntil fails frames k t s).2.steps
      _ ≤ limit + (frames.length - t - 1) * limit := hle.trans (Nat.add_le_add_right hlim _)
      _ = (frames.length - t - 1 + 1) * limit := by rw [Nat.add_mul, Nat.one_mul, Nat.add_comm]
      _ = (frames.length - t) * limit := by rw [Nat.sub_add_cancel (by omega)]
  · rw [walkUntil, dif_neg ht]
    exact Nat.zero_le _

/-- There are no more outputs than passes. -/
theorem Bounded.length_outs_le (hB : B.Bounded m limit) :
    (B.walkUntil fails frames k t s).2.outs.length ≤ (B.walkUntil fails frames k t s).2.steps := by
  fun_induction walkUntil B fails frames k t s with
  | case1 k t s ht hfail => exact le_rfl
  | case2 k t s ht hfail r w ih =>
    have hone : r.1.length ≤ 1 := hB.length_le _ _
    have ih : w.2.outs.length ≤ w.2.steps := ih
    show (r.1.map (t, ·) ++ w.2.outs).length ≤ w.2.steps + 1
    rw [List.length_append, List.length_map]
    omega
  | case3 k t s ht => exact le_rfl

/-- **A walk emits at most `limit` outputs at a frame, then it moves on.** -/
theorem Bounded.length_outs_at_le (hB : B.Bounded m limit) (n : ℕ) :
    ((B.walkUntil fails frames k t s).2.outs.filter (·.1 = n)).length ≤
      if n = t then max 1 (m s) else limit := by
  fun_induction walkUntil B fails frames k t s with
  | case1 k t s ht hfail => exact Nat.zero_le _
  | case2 k t s ht hfail r w ih =>
    have hone : r.1.length ≤ 1 := hB.length_le _ _
    have hhere : ((r.1.map (t, ·)).filter (·.1 = n)).length ≤ if n = t then 1 else 0 := by
      split_ifs with hn
      · exact ((List.length_filter_le _ _).trans_eq (List.length_map _)).trans hone
      · rw [Nat.le_zero, List.length_eq_zero_iff, List.filter_eq_nil_iff]
        intro o ho
        obtain ⟨x, -, rfl⟩ := List.mem_map.1 ho
        simpa using Ne.symm hn
    have ih : (w.2.outs.filter (·.1 = n)).length ≤
      if n = t + r.2.1 then max 1 (m r.2.2) else limit := ih
    show ((r.1.map (t, ·) ++ w.2.outs).filter (·.1 = n)).length ≤ _
    rw [List.filter_append, List.length_append]
    rcases Nat.eq_zero_or_pos r.2.1 with hstay | hmove
    · have hlt : m r.2.2 < m s := hB.lt_of_stay _ _ hstay
      have hpos : 0 < m r.2.2 := hB.pos_of_stay _ _ hstay
      rw [hstay, Nat.add_zero] at ih
      split_ifs at hhere ih ⊢ <;> omega
    · have hlim : max 1 (m r.2.2) ≤ limit := max_le hB.pos_limit (hB.le_limit _)
      split_ifs at hhere ⊢ with hn
      · have hnone : (w.2.outs.filter (·.1 = n)).length = 0 := by
          rw [List.length_eq_zero_iff, List.filter_eq_nil_iff]
          intro o ho
          have hle := le_of_mem_outs_walkUntil ho
          simp only [decide_eq_true_eq]
          omega
        omega
      · split_ifs at ih <;> omega
  | case3 k t s ht => exact Nat.zero_le _

end Body

end FrameWalk

end WhisperCpp
