import Mathlib.Algebra.GroupWithZero.Nat
import Mathlib.Data.List.Range
import WhisperCpp.Library.Pieces
import WhisperCpp.Parakeet.Tdt

/-!
# A stream of frames in windows

A stream is decoded window by window, the `TdtDecodeState` carried from one to the next. A skip
over the end of a window is carried as a number of frames; but a window that is shorter than what
it is handed drops the rest of the skip. So windows may only be cut where no duration reaches over
a whole window into the one behind it.

## Main definitions

* `WindowsAgree` — in windows and at once: the same tokens at the same frames, and the same LSTM
* `Wide` — no window between two others is shorter than the longest skip into it

## Main results

* `windowsAgree_iff` — windows of given sizes agree for all networks iff they are wide
-/

namespace WhisperCpp

namespace Parakeet

open FrameWalk Pieces

section Stream

variable {F E σ π : Type*} (m : TdtModel F E σ π) (opts : TdtDecodeOptions) (dEnc : ℕ)

/-- A window of a stream that has seen `s.2` frames; its tokens get their frames in the stream. -/
def streamWindow (s : TdtDecodeState σ π × ℕ) (window : List F) :
    List (ℕ × ℕ) × (TdtDecodeState σ π × ℕ) :=
  let w := tdtDecodeWindow m opts window dEnc s.1
  (w.outTokens.map fun o => (o.1 + s.2, o.2), (w.state, s.2 + window.length))

/-- In windows and in one window the stream has the same tokens at the same frames, and leaves the
LSTM in the same state. -/
def WindowsAgree (s : TdtDecodeState σ π) (windows : List (List F)) : Prop :=
  let split := runs (streamWindow m opts dEnc) (s, 0) windows
  let whole := streamWindow m opts dEnc (s, 0) windows.flatten
  split.1 = whole.1 ∧ split.2.1.lstm = whole.2.1.lstm ∧ split.2.1.predOut = whole.2.1.predOut

/-- No duration is longer than `d`. -/
def TdtModel.DurationsLe (d : ℕ) : Prop := ∀ e p, m.bestDur (m.joint e p).2 ≤ d

end Stream

/-- No window that others follow is shorter than what the longest duration carries into it. -/
def WideTail (d : ℕ) : List ℕ → Prop
  | [] => True
  | w :: ws => (w = 0 ∨ d ≤ w + 1 ∨ ∀ v ∈ ws, v = 0) ∧ WideTail d ws

/-- Likewise behind the first window that has frames. -/
def Wide (d : ℕ) : List ℕ → Prop
  | [] => True
  | w :: ws => if w = 0 then Wide d ws else WideTail d ws

/-! ### A window that keeps what it cannot skip -/

section Ideal

variable {F E σ π : Type*} {m : TdtModel F E σ π} {opts : TdtDecodeOptions} {dEnc : ℕ}
  {s : TdtDecodeState σ π} {n : ℕ}

/-- The state with another carry. -/
def TdtDecodeState.withCarry (s : TdtDecodeState σ π) (c : ℕ) : TdtDecodeState σ π :=
  { s with carryFrames := c }

@[simp] theorem withCarry_carryFrames {c : ℕ} : (s.withCarry c).carryFrames = c := rfl

@[simp] theorem withCarry_initialized {c : ℕ} : (s.withCarry c).initialized = s.initialized := rfl

@[simp] theorem withCarry_withCarry {c d : ℕ} : (s.withCarry c).withCarry d = s.withCarry d := rfl

theorem withCarry_eq_self {c : ℕ} (h : s.carryFrames = c) : s.withCarry c = s := by
  rw [← h]
  rfl

/-- The state a window with frames starts from. -/
def prepared (m : TdtModel F E σ π) (s : TdtDecodeState σ π) : TdtDecodeState σ π :=
  if s.initialized then s else tdtInitState m

/-- The walk of a window that has frames, with the whole of the carry in front of it. -/
def idealWalk (m : TdtModel F E σ π) (opts : TdtDecodeOptions) (s : TdtDecodeState σ π)
    (window : List F) : Walk (TdtDecodeState σ π) ℕ :=
  (hostBody m opts).walk window (prepared m s).carryFrames ((prepared m s).withCarry 0)

/-- `streamWindow` with the whole rest of a skip carried on. -/
def idealWindow (m : TdtModel F E σ π) (opts : TdtDecodeOptions) (s : TdtDecodeState σ π × ℕ)
    (window : List F) : List (ℕ × ℕ) × (TdtDecodeState σ π × ℕ) :=
  if window = [] then ([], s)
  else
    let w := idealWalk m opts s.1 window
    (w.outs.map fun o => (o.1 + s.2, o.2),
      (w.state.withCarry (w.pos - window.length), s.2 + window.length))

theorem hostBody_walk_keeps {frames : List F} {t : ℕ} (c : ℕ) (h : s.initialized ∧ s.carryFrames = c) :
    ((hostBody m opts).walk frames t s).state.initialized ∧
      ((hostBody m opts).walk frames t s).state.carryFrames = c := by
  refine (hostBody m opts).walk_state (P := fun s => s.initialized ∧ s.carryFrames = c) ?_ h
  intro f s hs
  change (hostStep m opts f s).2.2.initialized ∧ (hostStep m opts f s).2.2.carryFrames = c
  rw [hostStep]
  dsimp only [TdtDecodeState.feed]
  split_ifs <;> exact hs

theorem prepared_initialized : (prepared m s).initialized := by
  rw [prepared]
  split_ifs with h
  · exact h
  · rfl

theorem prepared_of_initialized (h : s.initialized) : prepared m s = s := if_pos h

theorem idealWindow_of_ne {window : List F} (h : window ≠ []) :
    idealWindow m opts (s, n) window =
      ((idealWalk m opts s window).outs.map fun o => (o.1 + n, o.2),
        ((idealWalk m opts s window).state.withCarry
            ((idealWalk m opts s window).pos - window.length), n + window.length)) :=
  if_neg h

theorem idealWindow_nil {s : TdtDecodeState σ π × ℕ} : idealWindow m opts s [] = ([], s) := if_pos rfl

theorem idealWalk_keeps {window : List F} :
    (idealWalk m opts s window).state.initialized ∧
      (idealWalk m opts s window).state.carryFrames = 0 :=
  hostBody_walk_keeps 0 ⟨prepared_initialized, rfl⟩

/-- With nothing dropped a window can be cut anywhere. -/
theorem idealWindow_cut (s : TdtDecodeState σ π × ℕ) (a b : List F) :
    Cut (idealWindow m opts) s a b := by
  obtain ⟨s, n⟩ := s
  rw [Cut]
  rcases eq_or_ne a [] with rfl | ha
  · simp [idealWindow_nil]
  rcases eq_or_ne b [] with rfl | hb
  · simp [idealWindow_nil]
  obtain ⟨hinit, hcarry⟩ : (idealWalk m opts s a).state.initialized ∧
      (idealWalk m opts s a).state.carryFrames = 0 := idealWalk_keeps
  rw [idealWindow_of_ne ha, idealWindow_of_ne (List.append_ne_nil_of_left_ne_nil ha b),
    idealWindow_of_ne hb]
  have hnext : idealWalk m opts ((idealWalk m opts s a).state.withCarry
        ((idealWalk m opts s a).pos - a.length)) b =
      (hostBody m opts).walk b ((idealWalk m opts s a).pos - a.length)
        (idealWalk m opts s a).state := by
    rw [idealWalk, prepared_of_initialized (by simpa using hinit), withCarry_carryFrames,
      withCarry_withCarry, withCarry_eq_self hcarry]
  have hwhole : idealWalk m opts s (a ++ b) =
      (idealWalk m opts s a).andThen (((hostBody m opts).walk b
        ((idealWalk m opts s a).pos - a.length) (idealWalk m opts s a).state).shift a.length) :=
    (hostBody m opts).walk_append
  have hpos : ∀ p, p + a.length - (a.length + b.length) = p - b.length := by
    intro p
    omega
  rw [hwhole, hnext]
  simp [Walk.andThen, Walk.shift, hpos, Function.comp_def, Nat.add_assoc, Nat.add_comm n]

/-! ### Wide windows agree -/

theorem streamWindow_nil {s : TdtDecodeState σ π × ℕ} : streamWindow m opts dEnc s [] = ([], s) := by
  by_cases hdim : dEnc = m.dEnc <;> simp [streamWindow, tdtDecodeWindow, hdim]

/-- A window that the graph path has room for. -/
def Fits (m : TdtModel F E σ π) (window : List F) : Prop :=
  window.length ≤ kEncProjTMax ∨ m.useGraphs = false

variable {window : List F}

theorem streamWindow_eq_idealWindow (hfit : Fits m window)
    (hcarry : (prepared m s).carryFrames ≤ window.length) :
    streamWindow m opts m.dEnc (s, n) window = idealWindow m opts (s, n) window := by
  rcases eq_or_ne window [] with rfl | hne
  · rw [streamWindow_nil, idealWindow_nil]
  rw [idealWindow_of_ne hne, streamWindow, tdtDecodeWindow_of_le m opts hne hfit]
  have hmin : min (prepared m s).carryFrames window.length = (prepared m s).carryFrames :=
    Nat.min_eq_left hcarry
  simp only [prepared] at hmin ⊢
  simp only [hmin, Nat.sub_self]
  rfl

/-- A window that the carry skips as a whole. -/
theorem streamWindow_of_lt (hne : window ≠ []) (hfit : Fits m window)
    (hcarry : window.length < (prepared m s).carryFrames) :
    streamWindow m opts m.dEnc (s, n) window =
      ([], ((prepared m s).withCarry 0, n + window.length)) := by
  rw [streamWindow, tdtDecodeWindow_of_le m opts hne hfit]
  have hmin : min (prepared m s).carryFrames window.length = window.length :=
    Nat.min_eq_right hcarry.le
  simp only [prepared] at hmin ⊢
  simp only [hmin]
  rw [(hostBody m opts).walk_of_le le_rfl]
  simp only [List.map_nil, Nat.sub_self]
  rfl

theorem idealWindow_of_lt (hne : window ≠ []) (hcarry : window.length < (prepared m s).carryFrames) :
    idealWindow m opts (s, n) window =
      ([], ((prepared m s).withCarry ((prepared m s).carryFrames - window.length),
        n + window.length)) := by
  rw [idealWindow_of_ne hne, idealWalk, (hostBody m opts).walk_of_le hcarry.le]
  rfl

theorem hostStep_move_le {d : ℕ} (hd : m.DurationsLe d) (f : F) (s : TdtDecodeState σ π) :
    (hostStep m opts f s).2.1 ≤ max 1 d := by
  have hadvance : advance (m.bestDur (m.joint (m.encProj f) s.predOut).2) ≤ max 1 d := by
    have := hd (m.encProj f) s.predOut
    rw [advance]
    omega
  rw [hostStep]
  dsimp only
  split_ifs
  · exact hadvance
  · exact hadvance
  · exact Nat.zero_le _

/-- A window hands on less than the longest duration. -/
theorem idealWindow_carry_le {d : ℕ} (hd : m.DurationsLe d)
    (hcarry : (prepared m s).carryFrames ≤ window.length) (hle : s.carryFrames ≤ d - 1) :
    (idealWindow m opts (s, n) window).2.1.carryFrames ≤ d - 1 := by
  rcases eq_or_ne window [] with rfl | hne
  · rw [idealWindow_nil]
    exact hle
  rw [idealWindow_of_ne hne, withCarry_carryFrames, idealWalk]
  have hpos : ((hostBody m opts).walk window (prepared m s).carryFrames
      ((prepared m s).withCarry 0)).pos ≤
        max (prepared m s).carryFrames (window.length + max 1 d - 1) :=
    (hostBody m opts).pos_le (hostStep_move_le hd)
  omega

theorem idealWindow_initialized (h : s.initialized) :
    (idealWindow m opts (s, n) window).2.1.initialized := by
  rcases eq_or_ne window [] with rfl | hne
  · rw [idealWindow_nil]
    exact h
  rw [idealWindow_of_ne hne]
  exact idealWalk_keeps.1

theorem runs_of_idle {f : TdtDecodeState σ π × ℕ → List F → List (ℕ × ℕ) × (TdtDecodeState σ π × ℕ)}
    (hf : ∀ s, f s [] = ([], s)) {windows : List (List F)} (h : ∀ v ∈ windows, v = [])
    (s : TdtDecodeState σ π × ℕ) : runs f s windows = ([], s) := by
  induction windows with
  | nil => rfl
  | cons v windows ih =>
    rw [List.forall_mem_cons] at h
    rw [runs_cons, h.1, hf, ih h.2, List.append_nil]

/-- The two windows differ in the carry at most. -/
def Alike (r r' : List (ℕ × ℕ) × (TdtDecodeState σ π × ℕ)) : Prop :=
  r.1 = r'.1 ∧ r.2.1.lstm = r'.2.1.lstm ∧ r.2.1.predOut = r'.2.1.predOut

theorem Alike.cons {f f' : TdtDecodeState σ π × ℕ → List F → List (ℕ × ℕ) × (TdtDecodeState σ π × ℕ)}
    {s : TdtDecodeState σ π × ℕ} {rest : List (List F)} (h : f s window = f' s window)
    (hrest : Alike (runs f (f' s window).2 rest) (runs f' (f' s window).2 rest)) :
    Alike (runs f s (window :: rest)) (runs f' s (window :: rest)) := by
  rw [runs_cons, runs_cons, h]
  exact ⟨congrArg ((f' s window).1 ++ ·) hrest.1, hrest.2⟩

/-- Behind the first window the carry is bounded, and only a last window may cut it off. -/
theorem alike_of_wideTail {d : ℕ} (hd : m.DurationsLe d) {windows : List (List F)}
    (hfit : ∀ v ∈ windows, Fits m v) (hwide : WideTail d (windows.map List.length))
    (hinit : s.initialized) (hcarry : s.carryFrames ≤ d - 1) :
    Alike (runs (streamWindow m opts m.dEnc) (s, n) windows)
      (runs (idealWindow m opts) (s, n) windows) := by
  induction windows generalizing s n with
  | nil => exact ⟨rfl, rfl, rfl⟩
  | cons v rest ih =>
    rw [List.forall_mem_cons] at hfit
    obtain ⟨hv, hrest⟩ := hwide
    have hprep := prepared_of_initialized (m := m) hinit
    rcases Nat.lt_or_ge v.length s.carryFrames with hlt | hle
    · rcases eq_or_ne v [] with rfl | hne
      · refine Alike.cons (by rw [streamWindow_nil, idealWindow_nil]) ?_
        rw [idealWindow_nil]
        exact ih hfit.2 hrest hinit hcarry
      have hlast : ∀ w ∈ rest, w = [] := by
        have hlen : v.length ≠ 0 := by simpa using hne
        have hzero := (hv.resolve_left hlen).resolve_left (by omega)
        intro w hw
        exact List.eq_nil_of_length_eq_zero (hzero _ (List.mem_map_of_mem hw))
      rw [← hprep] at hlt
      rw [runs_cons, runs_cons, streamWindow_of_lt hne hfit.1 hlt, idealWindow_of_lt hne hlt]
      rw [runs_of_idle (fun _ => streamWindow_nil) hlast, runs_of_idle (fun _ => idealWindow_nil) hlast]
      exact ⟨rfl, rfl, rfl⟩
    · have hle' : (prepared m s).carryFrames ≤ v.length := by rwa [hprep]
      refine Alike.cons (streamWindow_eq_idealWindow hfit.1 hle') ?_
      exact ih hfit.2 hrest (idealWindow_initialized hinit) (idealWindow_carry_le hd hle' hcarry)

theorem alike_of_wide {d : ℕ} (hd : m.DurationsLe d) {windows : List (List F)}
    (hfit : ∀ v ∈ windows, Fits m v) (hwide : Wide d (windows.map List.length))
    (hcarry : s.carryFrames = 0) :
    Alike (runs (streamWindow m opts m.dEnc) (s, n) windows)
      (runs (idealWindow m opts) (s, n) windows) := by
  induction windows with
  | nil => exact ⟨rfl, rfl, rfl⟩
  | cons v rest ih =>
    rw [List.forall_mem_cons] at hfit
    rw [List.map_cons, Wide] at hwide
    rcases eq_or_ne v [] with rfl | hne
    · refine Alike.cons (by rw [streamWindow_nil, idealWindow_nil]) ?_
      rw [idealWindow_nil]
      exact ih hfit.2 (by simpa using hwide)
    · rw [if_neg (by simpa using hne)] at hwide
      have hprep : (prepared m s).carryFrames ≤ v.length := by
        have hzero : (prepared m s).carryFrames = 0 := by
          rw [prepared]
          split_ifs
          · exact hcarry
          · rfl
        omega
      refine Alike.cons (streamWindow_eq_idealWindow hfit.1 hprep) ?_
      refine alike_of_wideTail hd hfit.2 hwide ?_ (idealWindow_carry_le hd hprep (by omega))
      rw [idealWindow_of_ne hne]
      exact idealWalk_keeps.1

theorem runs_streamWindow_of_ne (h : dEnc ≠ m.dEnc) (windows : List (List F)) :
    runs (streamWindow m opts dEnc) (s, n) windows =
      streamWindow m opts dEnc (s, n) windows.flatten := by
  have hskip : ∀ s n (window : List F),
      streamWindow m opts dEnc (s, n) window = ([], (s, n + window.length)) := by
    intro s n window
    simp [streamWindow, tdtDecodeWindow, h]
  refine runs_eq (fun _ _ => True) ?_ ?_ trivial
  · intro s _
    exact streamWindow_nil
  · rintro ⟨s, n⟩ a rest -
    refine ⟨?_, trivial⟩
    rw [Cut, hskip, hskip, hskip, List.length_append, Nat.add_assoc, List.append_nil]

theorem windowsAgree_of_wide {d : ℕ} (hd : m.DurationsLe d) {windows : List (List F)}
    (hroom : m.useGraphs → windows.flatten.length ≤ kEncProjTMax)
    (hwide : Wide d (windows.map List.length)) (hcarry : s.carryFrames = 0) :
    WindowsAgree m opts dEnc s windows := by
  rw [WindowsAgree]
  by_cases hdim : dEnc = m.dEnc
  · subst hdim
    have hfits : ∀ v : List F, v.length ≤ windows.flatten.length → Fits m v := by
      intro v hv
      by_cases hg : m.useGraphs
      · exact .inl (hv.trans (hroom hg))
      · exact .inr (by simpa using hg)
    have hfit : ∀ v ∈ windows, Fits m v := by
      intro v hv
      exact hfits v (List.sublist_flatten_of_mem hv).length_le
    have hideal : runs (idealWindow m opts) (s, 0) windows =
        idealWindow m opts (s, 0) windows.flatten :=
      runs_eq (fun _ _ => True) (fun _ _ => idealWindow_nil)
        (fun s a rest _ => ⟨idealWindow_cut s a rest.flatten, trivial⟩) trivial
    have hwhole : streamWindow m opts m.dEnc (s, 0) windows.flatten =
        idealWindow m opts (s, 0) windows.flatten := by
      refine streamWindow_eq_idealWindow (hfits _ le_rfl) ?_
      rw [prepared]
      split_ifs
      · omega
      · exact Nat.zero_le _
    have halike : Alike (runs (streamWindow m opts m.dEnc) (s, 0) windows)
        (runs (idealWindow m opts) (s, 0) windows) := alike_of_wide hd hfit hwide hcarry
    rw [hideal, ← hwhole] at halike
    exact halike
  · rw [runs_streamWindow_of_ne hdim]
    exact ⟨rfl, rfl, rfl⟩

end Ideal

/-! ### A skip over a whole window -/

/-- A network over numbered frames that only skips at frame `n`, by `d`: frames before and behind
are blank up to frame `k`, and from there on every frame has a token. -/
def skipModel (d n k : ℕ) : TdtModel ℕ ℕ Unit Unit where
  dEnc := 1024
  blankId := 0
  tdtDurations := []
  useGraphs := false
  encProj := id
  joint f _ := if f = n then (0, d) else if f < k then (0, 1) else (1, 1)
  zero := ()
  lstmStep _ _ := ()
  lastLayer := id

theorem skipModel_durationsLe {d n k : ℕ} (hd : 1 ≤ d) : (skipModel d n k).DurationsLe d := by
  intro f p
  simp only [TdtModel.bestDur, skipModel, if_true]
  split_ifs <;> omega

/-- The state of this network, with some carry. -/
def skipState (c : ℕ) : TdtDecodeState Unit Unit := ⟨(), (), 0, true, c⟩

/-- Frames of the given sizes, numbered from `n` on. -/
def numbered (n : ℕ) : List ℕ → List (List ℕ)
  | [] => []
  | w :: ws => List.range' n w :: numbered (n + w) ws

theorem map_length_numbered (n : ℕ) (ws : List ℕ) : (numbered n ws).map List.length = ws := by
  induction ws generalizing n with
  | nil => rfl
  | cons w ws ih => simp [numbered, ih]

theorem flatten_numbered (n : ℕ) (ws : List ℕ) : (numbered n ws).flatten = List.range' n ws.sum := by
  induction ws generalizing n with
  | nil => rfl
  | cons w ws ih =>
    rw [numbered, List.flatten_cons, ih, List.sum_cons]
    exact List.range'_append_1

theorem numbered_append (n : ℕ) (ws vs : List ℕ) :
    numbered n (ws ++ vs) = numbered n ws ++ numbered (n + ws.sum) vs := by
  induction ws generalizing n with
  | nil => simp [numbered]
  | cons w ws ih => simp [numbered, ih, Nat.add_assoc]

section Skip

variable {d n k : ℕ} {opts : TdtDecodeOptions}

theorem skip_step_silent {f : ℕ} (hf : f ≠ n) (hk : f < k) :
    (hostBody (skipModel d n k) opts).step f (skipState 0) = ([], 1, skipState 0) := by
  change hostStep (skipModel d n k) opts f (skipState 0) = _
  simp [hostStep, skipModel, hf, hk, TdtModel.bestDur, advance, skipState]

theorem skip_step_skip (hd : 1 ≤ d) :
    (hostBody (skipModel d n k) opts).step n (skipState 0) = ([], d, skipState 0) := by
  change hostStep (skipModel d n k) opts n (skipState 0) = _
  simp [hostStep, skipModel, TdtModel.bestDur, advance, skipState]
  omega

/-- Frames in front of the skip. -/
theorem skip_walk_silent {off w : ℕ} (hoff : off + w ≤ n) (hnk : n < k) :
    (hostBody (skipModel d n k) opts).walk (List.range' off w) 0 (skipState 0) =
      ⟨[], w, skipState 0, w⟩ := by
  have hsilent : ∀ f ∈ List.range' off w,
      (hostBody (skipModel d n k) opts).step f (skipState 0) = ([], 1, skipState 0) := by
    intro f hf
    rw [List.mem_range'_1] at hf
    exact skip_step_silent (by omega) (by omega)
  rw [(hostBody (skipModel d n k) opts).walk_of_silent hsilent]
  simp

/-- Frames up to the skip. -/
theorem skip_walk_skip (hd : 1 ≤ d) (hnk : n < k) {off w : ℕ} (hoff : off + w = n) :
    (hostBody (skipModel d n k) opts).walk (List.range' off (w + 1)) 0 (skipState 0) =
      ⟨[], d + w, skipState 0, w + 1⟩ := by
  have hlast : (hostBody (skipModel d n k) opts).walk [n] 0 (skipState 0) =
      ⟨[], d, skipState 0, 1⟩ := by
    rw [Body.walk_of_lt _ (by simp), List.getElem_singleton, skip_step_skip hd,
      Body.walk_of_le _ (by simpa using hd)]
    simp [Walk.push]
  rw [List.range'_1_concat, Body.walk_append, skip_walk_silent hoff.le hnk, hoff]
  simp [hlast, Walk.andThen, Walk.shift]

/-- A window with frames that nothing is carried into. -/
theorem skip_window {off w : ℕ} (hw : w ≠ 0) {r : Walk (TdtDecodeState Unit Unit) ℕ}
    (hr : (hostBody (skipModel d n k) opts).walk (List.range' off w) 0 (skipState 0) = r) :
    streamWindow (skipModel d n k) opts 1024 (skipState 0, off) (List.range' off w) =
      (r.outs.map fun o => (o.1 + off, o.2), (r.state.withCarry (r.pos - w), off + w)) := by
  have hne : List.range' off w ≠ [] := by simpa using hw
  have hfit : Fits (skipModel d n k) (List.range' off w) := .inr rfl
  have hwalk : idealWalk (skipModel d n k) opts (skipState 0) (List.range' off w) = r := hr
  have hideal : streamWindow (skipModel d n k) opts 1024 (skipState 0, off) (List.range' off w) =
      idealWindow (skipModel d n k) opts (skipState 0, off) (List.range' off w) :=
    streamWindow_eq_idealWindow hfit (Nat.zero_le _)
  rw [hideal, idealWindow_of_ne hne, hwalk, List.length_range']

/-- What is carried in front of frame `off`. -/
def skipCarry (d n off : ℕ) : ℕ := if off = n + 1 then d - 1 else 0

/-- Windows up to the skip are silent, and only the skip is carried. -/
theorem skip_runs (hd : 1 ≤ d) (hnk : n < k) {off : ℕ} {ws : List ℕ} (hoff : off + ws.sum ≤ n + 1) :
    runs (streamWindow (skipModel d n k) opts 1024) (skipState (skipCarry d n off), off)
        (numbered off ws) =
      ([], (skipState (skipCarry d n (off + ws.sum)), off + ws.sum)) := by
  induction ws generalizing off with
  | nil => simp only [numbered, runs_nil, List.sum_nil, Nat.add_zero]
  | cons w ws ih =>
    rw [List.sum_cons] at hoff
    have hwindow : streamWindow (skipModel d n k) opts 1024 (skipState (skipCarry d n off), off)
        (List.range' off w) = ([], (skipState (skipCarry d n (off + w)), off + w)) := by
      rcases Nat.eq_zero_or_pos w with rfl | hpos
      · exact streamWindow_nil
      have hzero : skipCarry d n off = 0 := if_neg (by omega)
      rw [hzero]
      rcases Nat.lt_or_ge n (off + w) with hlt | hle
      · obtain ⟨v, rfl⟩ := Nat.exists_eq_succ_of_ne_zero hpos.ne'
        rw [skip_window (Nat.succ_ne_zero v) (skip_walk_skip hd hnk (by omega)), skipCarry,
          if_pos (by omega)]
        have hcarry : d + v - v.succ = d - 1 := by omega
        simp only [hcarry, List.map_nil]
        rfl
      · rw [skip_window hpos.ne' (skip_walk_silent hle hnk), skipCarry, if_neg (by omega),
          Nat.sub_self]
        rfl
    rw [numbered, runs_cons, hwindow, ih (by omega), List.sum_cons, ← Nat.add_assoc,
      List.nil_append]

/-- Behind the skip the first window that nothing is carried into has a token. -/
theorem skip_token {off : ℕ} {ws : List ℕ} (hoff : n < off) (hk : k ≤ off) (hws : ∃ v ∈ ws, v ≠ 0) :
    (off, 1) ∈ (runs (streamWindow (skipModel d n k) opts 1024) (skipState 0, off)
      (numbered off ws)).1 := by
  induction ws with
  | nil =>
    obtain ⟨v, hv, -⟩ := hws
    exact absurd hv List.not_mem_nil
  | cons w ws ih =>
    rw [numbered, runs_cons]
    rcases Nat.eq_zero_or_pos w with rfl | hpos
    · have hlater : ∃ v ∈ ws, v ≠ 0 := by simpa using hws
      have hnil : streamWindow (skipModel d n k) opts 1024 (skipState 0, off) (List.range' off 0) =
          ([], (skipState 0, off)) := streamWindow_nil
      rw [hnil]
      exact ih hlater
    · rw [skip_window hpos.ne' rfl]
      refine List.mem_append_left _ (List.mem_map.2 ⟨(0, 1), ?_, by simp⟩)
      have hlt : 0 < (List.range' off w).length := by simpa using hpos
      have hstep : ((hostBody (skipModel d n k) opts).step (List.range' off w)[0]
          (skipState 0)).1 = [1] := by
        rw [List.getElem_range']
        change (hostStep (skipModel d n k) opts (off + 1 * 0) (skipState 0)).1 = [1]
        have hne : off ≠ n := by omega
        have hge : ¬off < k := by omega
        simp [hostStep, skipModel, hne, hge, TdtModel.bestDur]
      rw [Body.walk_of_lt _ hlt, hstep]
      simp [Walk.push]

/-- In one window the skip is taken as a whole. -/
theorem skip_whole (hd : 1 ≤ d) (hnk : n < k) {v : ℕ} {o : ℕ × ℕ}
    (ho : o ∈ (streamWindow (skipModel d n k) opts 1024 (skipState 0, 0)
      (List.range' 0 (n + 1 + v))).1) : n + d ≤ o.1 := by
  have hfirst : (hostBody (skipModel d n k) opts).walk (List.range' 0 (n + 1)) 0 (skipState 0) =
      ⟨[], d + n, skipState 0, n + 1⟩ := skip_walk_skip hd hnk (Nat.zero_add n)
  have hsplit : List.range' 0 (n + 1 + v) = List.range' 0 (n + 1) ++ List.range' (n + 1) v := by
    rw [← List.range'_append_1, Nat.zero_add]
  rw [skip_window (by omega) rfl, hsplit, Body.walk_append, hfirst] at ho
  simp only [Walk.andThen, Walk.shift, List.nil_append, List.map_map, List.mem_map] at ho
  obtain ⟨o', ho', rfl⟩ := ho
  have hle := Body.le_of_mem_outs _ ho'
  simp only [Function.comp_apply, List.length_range'] at hle ⊢
  omega

/-- A skip over window `j` is taken in one window, and cut off in several. -/
theorem not_windowsAgree_skip (opts : TdtDecodeOptions) (pre : List ℕ) (j : ℕ) (rest : List ℕ)
    (hpre : 0 < pre.sum) (hj : 0 < j) (hd : j + 2 ≤ d) (hrest : ∃ v ∈ rest, v ≠ 0) :
    ¬WindowsAgree (skipModel d (pre.sum - 1) (pre.sum + j)) opts 1024 (skipState 0)
      (numbered 0 (pre ++ j :: rest)) := by
  rintro ⟨htokens, -⟩
  have hne : List.range' pre.sum j ≠ [] := by simpa using hj.ne'
  have hpast : streamWindow (skipModel d (pre.sum - 1) (pre.sum + j)) opts 1024
      (skipState (d - 1), pre.sum) (List.range' pre.sum j) = ([], (skipState 0, pre.sum + j)) := by
    refine (streamWindow_of_lt hne (.inr rfl) ?_).trans ?_
    · change (List.range' pre.sum j).length < d - 1
      rw [List.length_range']
      omega
    · rw [List.length_range']
      rfl
  have hsplit : (pre.sum + j, 1) ∈ (runs (streamWindow (skipModel d (pre.sum - 1) (pre.sum + j))
      opts 1024) (skipState 0, 0) (numbered 0 (pre ++ j :: rest))).1 := by
    have hfirst : runs (streamWindow (skipModel d (pre.sum - 1) (pre.sum + j)) opts 1024)
        (skipState (skipCarry d (pre.sum - 1) 0), 0) (numbered 0 pre) =
          ([], (skipState (skipCarry d (pre.sum - 1) (0 + pre.sum)), 0 + pre.sum)) :=
      skip_runs (by omega) (by omega) (by omega)
    have hzero : skipCarry d (pre.sum - 1) 0 = 0 := if_neg (by omega)
    have hcarry : skipCarry d (pre.sum - 1) (0 + pre.sum) = d - 1 := if_pos (by omega)
    rw [hzero, hcarry, Nat.zero_add] at hfirst
    rw [numbered_append, runs_append, hfirst, Nat.zero_add, numbered, runs_cons, hpast]
    exact List.mem_append_right _ (List.mem_append_right _ (skip_token (by omega) le_rfl hrest))
  rw [htokens, flatten_numbered] at hsplit
  have htotal : (pre ++ j :: rest).sum = pre.sum - 1 + 1 + (j + rest.sum) := by
    rw [List.sum_append, List.sum_cons]
    omega
  rw [htotal] at hsplit
  have := skip_whole (by omega) (by omega) hsplit
  simp only at this
  omega

end Skip

/-- Where windows are not wide a skip may reach over one of them. -/
theorem exists_of_not_wideTail {d : ℕ} {ws : List ℕ} (h : ¬WideTail d ws) :
    ∃ pre j rest, ws = pre ++ j :: rest ∧ 0 < j ∧ j + 2 ≤ d ∧ ∃ v ∈ rest, v ≠ 0 := by
  induction ws with
  | nil => exact absurd trivial h
  | cons w ws ih =>
    by_cases hw : w = 0 ∨ d ≤ w + 1 ∨ ∀ v ∈ ws, v = 0
    · obtain ⟨pre, j, rest, rfl, hj⟩ := ih fun htail => h ⟨hw, htail⟩
      exact ⟨w :: pre, j, rest, rfl, hj⟩
    · push Not at hw
      exact ⟨[], w, ws, rfl, Nat.pos_of_ne_zero hw.1, by omega, hw.2.2⟩

theorem exists_of_not_wide {d : ℕ} {ws : List ℕ} (h : ¬Wide d ws) :
    ∃ pre j rest, ws = pre ++ j :: rest ∧ 0 < pre.sum ∧ 0 < j ∧ j + 2 ≤ d ∧ ∃ v ∈ rest, v ≠ 0 := by
  induction ws with
  | nil => exact absurd trivial h
  | cons w ws ih =>
    rw [Wide] at h
    split_ifs at h with hw
    · obtain ⟨pre, j, rest, rfl, hpre, hj⟩ := ih h
      exact ⟨w :: pre, j, rest, rfl, by simpa [hw] using hpre, hj⟩
    · obtain ⟨pre, j, rest, rfl, hj⟩ := exists_of_not_wideTail h
      exact ⟨w :: pre, j, rest, rfl, by rw [List.sum_cons]; omega, hj⟩

/-- Windows of given sizes agree with one window for all networks with durations up to `d`, if and
only if the sizes are wide for `d`. -/
theorem windowsAgree_iff (d : ℕ) (ws : List ℕ) :
    (∀ (F E σ π : Type) (m : TdtModel F E σ π) (opts : TdtDecodeOptions) (dEnc : ℕ)
        (s : TdtDecodeState σ π) (windows : List (List F)),
      m.DurationsLe d → windows.map List.length = ws → s.carryFrames = 0 →
      (m.useGraphs → windows.flatten.length ≤ kEncProjTMax) →
      WindowsAgree m opts dEnc s windows) ↔ Wide d ws := by
  constructor
  · intro hall
    by_contra hwide
    obtain ⟨pre, j, rest, rfl, hpre, hj, hd, hrest⟩ := exists_of_not_wide hwide
    refine not_windowsAgree_skip ⟨10⟩ pre j rest hpre hj hd hrest ?_
    exact hall _ _ _ _ _ _ _ _ _ (skipModel_durationsLe (by omega)) (map_length_numbered 0 _)
      rfl nofun
  · rintro hwide F E σ π m opts dEnc s windows hd rfl hcarry hroom
    exact windowsAgree_of_wide hd hroom hwide hcarry

/-- Durations 0 to 4 and windows of one frame: a skip by four frames is cut off at the second window,
so that the third one finds a token. -/
theorem not_forall_windowsAgree :
    ¬∀ (F E σ π : Type) (m : TdtModel F E σ π) (opts : TdtDecodeOptions) (dEnc : ℕ)
        (s : TdtDecodeState σ π) (windows : List (List F)),
      s.carryFrames = 0 → WindowsAgree m opts dEnc s windows := by
  intro h
  have hno : ¬WindowsAgree (skipModel 4 0 2) ⟨10⟩ 1024 (skipState 0) [[0], [1], [2]] :=
    not_windowsAgree_skip ⟨10⟩ [1] 1 [1] (by simp) Nat.one_pos (by omega) (by simp)
  exact hno (h _ _ _ _ _ _ _ _ _ rfl)

end Parakeet

end WhisperCpp
