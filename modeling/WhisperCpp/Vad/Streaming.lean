import Mathlib.Data.List.Basic
import Mathlib.Data.Rat.Defs
import WhisperCpp.Library.Pieces
import WhisperCpp.Vad.Segments

/-!
# Detecting speech in pieces

`whisper_vad_detect_speech_no_reset` hands a signal to the network window by window; the last window
is padded with zeros. The network carries the state of its LSTM from window to window, and from call
to call: only `whisper_vad_detect_speech` clears it first. The probabilities of a call replace those
of the call before.

The network is any function from a state and a window to a state and a probability.

## Main definitions

* `detectSpeechNoReset`, `resetState`, `detectSpeech` — the functions of the interface
* `windows` — the windows of a signal, the last one padded

## Main results

* `detectSpeechNoReset_eq` — a call is a run of the network over the windows
* `runs_detectNoReset_eq` — a signal in pieces has the probabilities of the whole signal
-/

namespace WhisperCpp

namespace Vad

open Pieces (runs runs_cons)

/-- The part of `whisper_vad_context` that a detection changes: the tensors `h_state` and `c_state`,
which are all of its buffer, and the probabilities. -/
structure Detection (σ K : Type*) where
  lstm : σ
  probs : List K

section Definitions

variable {σ K : Type*} [Zero K] (graph : σ → List K → σ × K) (v : VadContext)

/-- The length of a window. -/
def VadContext.window : ℕ := v.nWindow.toNat

theorem VadContext.window_pos : 0 < v.window := by
  have := v.le_nWindow
  rw [VadContext.window]
  omega

/-- `n_chunks`, with one more chunk for the remaining samples. -/
def nChunks (nSamples : ℕ) : ℕ :=
  nSamples / v.window + if nSamples % v.window ≠ 0 then 1 else 0

/-- `std::copy` to the beginning of a buffer. -/
def copyTo (src dst : List K) : List K := src ++ dst.drop src.length

/-- `std::vector::resize`. -/
def resize (l : List K) (n : ℕ) : List K := l.take n ++ List.replicate (n - l.length) 0

/-- The window buffer for the samples from `idxStart` to `idxEnd`. -/
def setWindow (samples : List K) (idxStart idxEnd : ℕ) (window : List K) : List K :=
  if idxEnd - idxStart < v.window then
    let partialChunk :=
      copyTo (samples.extract idxStart idxEnd) (List.replicate v.window 0)
    let samplesToCopy := min v.window partialChunk.length
    let window := copyTo (partialChunk.take samplesToCopy) window
    if samplesToCopy < v.window then
      window.take samplesToCopy ++ List.replicate (window.length - samplesToCopy) 0
    else window
  else
    let samplesToCopy := min (idxEnd - idxStart) v.window
    copyTo (samples.extract idxStart (idxStart + samplesToCopy)) window

/-- The local variables of the loop over the chunks. -/
structure DetectLoop (σ K : Type*) extends Detection σ K where
  window : List K

/-- One chunk: the network reads the window, updates its state and returns the probability. -/
def detectChunk (samples : List K) (d : DetectLoop σ K) (i : ℕ) : DetectLoop σ K :=
  let idxStart := i * v.window
  let idxEnd := min (idxStart + v.window) samples.length
  let window := setWindow v samples idxStart idxEnd d.window
  let out := graph d.lstm window
  { lstm := out.1, probs := d.probs.set i out.2, window := window }

/-- `whisper_vad_detect_speech_no_reset`. -/
def detectSpeechNoReset (d : Detection σ K) (samples : List K) : Detection σ K :=
  ((List.range (nChunks v samples.length)).foldl (detectChunk graph v samples)
    { lstm := d.lstm
      probs := resize d.probs (nChunks v samples.length)
      window := List.replicate v.window 0 }).toDetection

/-- `whisper_vad_reset_state`: the buffer with the state is cleared. -/
def resetState (cleared : σ) (d : Detection σ K) : Detection σ K := { d with lstm := cleared }

/-- `whisper_vad_detect_speech`. -/
def detectSpeech (cleared : σ) (d : Detection σ K) (samples : List K) : Detection σ K :=
  detectSpeechNoReset graph v (resetState cleared d) samples

/-- A call without reset, with what `whisper_vad_probs` returns after it. -/
def detectNoReset (d : Detection σ K) (samples : List K) : List K × Detection σ K :=
  ((detectSpeechNoReset graph v d samples).probs, detectSpeechNoReset graph v d samples)

/-! ### The windows of a signal -/

/-- The `i`-th window, padded with zeros. -/
def windowAt (samples : List K) (i : ℕ) : List K :=
  ((samples.drop (i * v.window)).take v.window).rightpad v.window 0

/-- All of them. -/
def windows (samples : List K) : List (List K) :=
  (List.range (nChunks v samples.length)).map (windowAt v samples)

/-- The network on one window. -/
def detectWindow (s : σ) (window : List K) : List K × σ :=
  ([(graph s window).2], (graph s window).1)

/-- The network on the windows of a signal. -/
def detectWindows (s : σ) (samples : List K) : List K × σ :=
  runs (detectWindow graph) s (windows v samples)

end Definitions

section

variable {σ K : Type*} [Zero K] {graph : σ → List K → σ × K} {v : VadContext}

theorem lt_nChunks_iff {n i : ℕ} : i < nChunks v n ↔ i * v.window < n := by
  have hdiv := Nat.div_add_mod' n v.window
  have hmod := Nat.mod_lt n v.window_pos
  have hsucc := Nat.add_one_mul (n / v.window) v.window
  rw [nChunks]
  split_ifs with hrest
  · constructor
    · intro hi
      have := Nat.mul_le_mul_right v.window (Nat.le_of_lt_succ hi)
      omega
    · intro hi
      refine Nat.lt_of_mul_lt_mul_right (a := v.window) ?_
      omega
  · rw [Nat.add_zero, ← Nat.mul_lt_mul_right v.window_pos]
    omega

theorem nChunks_mul_of_dvd {m : ℕ} (h : v.window ∣ m) : nChunks v m * v.window = m := by
  rw [nChunks, if_neg (not_not.2 (Nat.mod_eq_zero_of_dvd h)), Nat.add_zero, Nat.div_mul_cancel h]

theorem nChunks_add {m n : ℕ} (h : v.window ∣ m) :
    nChunks v (m + n) = nChunks v m + nChunks v n := by
  obtain ⟨k, rfl⟩ := h
  simp only [nChunks, Nat.mul_add_div v.window_pos, Nat.mul_add_mod, Nat.mul_mod_right,
    Nat.mul_div_cancel_left _ v.window_pos]
  simp [Nat.add_assoc]

/-- Cut at a multiple of the window, the windows of the pieces are the windows of the signal. -/
theorem windows_append {a b : List K} (h : v.window ∣ a.length) :
    windows v (a ++ b) = windows v a ++ windows v b := by
  have ha : nChunks v a.length * v.window = a.length := nChunks_mul_of_dvd h
  rw [windows, List.length_append, nChunks_add h, List.range_add, List.map_append, List.map_map]
  congr 1
  · refine List.map_congr_left fun i hi => ?_
    have hle : (i + 1) * v.window ≤ nChunks v a.length * v.window :=
      Nat.mul_le_mul_right _ (List.mem_range.1 hi)
    rw [ha, Nat.add_one_mul] at hle
    rw [windowAt, windowAt, List.drop_append_of_le_length (by omega),
      List.take_append_of_le_length (by rw [List.length_drop]; omega)]
  · refine List.map_congr_left fun i _ => ?_
    rw [Function.comp_apply, windowAt, windowAt, Nat.add_mul, ha, List.drop_length_add_append]

/-! ### A call -/

omit [Zero K] in
theorem copyTo_of_le {src dst : List K} (h : dst.length ≤ src.length) : copyTo src dst = src := by
  rw [copyTo, List.drop_eq_nil_of_le h, List.append_nil]

theorem copyTo_zeros (src : List K) (n : ℕ) :
    copyTo src (List.replicate n 0) = src.rightpad n 0 := by
  rw [copyTo, List.drop_replicate, List.rightpad]

@[simp] theorem length_windowAt (samples : List K) (i : ℕ) :
    (windowAt v samples i).length = v.window := by
  rw [windowAt, List.length_rightpad, List.length_take]
  omega

/-- The buffer is overwritten completely. -/
theorem setWindow_eq {samples window : List K} {i : ℕ} (hi : i * v.window ≤ samples.length)
    (h : window.length = v.window) :
    setWindow v samples (i * v.window) (min (i * v.window + v.window) samples.length) window =
      windowAt v samples i := by
  have hstop : min (i * v.window + v.window) samples.length - i * v.window =
      min v.window (samples.length - i * v.window) := by
    omega
  rw [setWindow, hstop]
  split_ifs with hlt
  · have hpart : copyTo (samples.extract (i * v.window)
        (min (i * v.window + v.window) samples.length)) (List.replicate v.window 0) =
          windowAt v samples i := by
      rw [copyTo_zeros, List.extract_eq_take_drop, hstop, windowAt]
      congr 1
      rw [List.take_eq_take_iff, List.length_drop]
      omega
    have hfull : min v.window v.window = v.window := Nat.min_self _
    simp only [hpart, length_windowAt, hfull, lt_irrefl, if_false]
    rw [List.take_of_length_le (length_windowAt samples i).le, copyTo_of_le]
    rw [h, length_windowAt]
  · have hlong : v.window ≤ samples.length - i * v.window := by omega
    have hread : (samples.extract (i * v.window) (i * v.window + v.window)).length = v.window := by
      rw [List.extract_eq_take_drop, List.length_take, List.length_drop]
      omega
    rw [Nat.min_eq_left hlong, Nat.min_self, copyTo_of_le (by rw [h, hread]), windowAt,
      List.extract_eq_take_drop, Nat.add_sub_cancel_left, List.rightpad, List.length_take,
      List.length_drop, Nat.min_eq_left hlong, Nat.sub_self, List.replicate_zero, List.append_nil]

omit [Zero K] in
theorem length_runs_detectWindow {s : σ} {ws : List (List K)} :
    (runs (detectWindow graph) s ws).1.length = ws.length := by
  induction ws generalizing s with
  | nil => rfl
  | cons w ws ih => rw [runs_cons, List.length_append, ih, List.length_cons, Nat.add_comm]; rfl

@[simp] theorem length_resize (l : List K) (n : ℕ) : (resize l n).length = n := by
  rw [resize, List.length_append, List.length_take, List.length_replicate]
  omega

variable (graph v) in
/-- The loop has seen the first `k` windows; the probabilities behind them are still old ones. -/
structure Detected (s : σ) (samples old : List K) (k : ℕ) (d : DetectLoop σ K) : Prop where
  length_window : d.window.length = v.window
  lstm : d.lstm = (runs (detectWindow graph) s ((List.range k).map (windowAt v samples))).2
  probs : d.probs =
    (runs (detectWindow graph) s ((List.range k).map (windowAt v samples))).1 ++ old.drop k

theorem Detected.step {s : σ} {samples old : List K} {k : ℕ} {d : DetectLoop σ K}
    (h : Detected graph v s samples old k d) (hk : k < nChunks v samples.length)
    (hold : old.length = nChunks v samples.length) :
    Detected graph v s samples old (k + 1) (detectChunk graph v samples d k) := by
  have hwindow := setWindow_eq (lt_nChunks_iff.1 hk).le h.length_window
  have hlength : (runs (detectWindow graph) s
      ((List.range k).map (windowAt v samples))).1.length = k := by
    rw [length_runs_detectWindow, List.length_map, List.length_range]
  rw [detectChunk, hwindow]
  constructor
  · exact length_windowAt samples k
  · rw [List.range_succ, List.map_append, Pieces.runs_append, ← h.lstm, List.map_singleton,
      Pieces.runs_singleton]
    rfl
  · rw [List.range_succ, List.map_append, Pieces.runs_append, ← h.lstm, List.map_singleton,
      Pieces.runs_singleton, h.probs, List.set_append_right _ _ hlength.le, hlength, Nat.sub_self,
      List.drop_eq_getElem_cons (by omega), List.set_cons_zero, List.append_assoc]
    rfl

variable (graph) in
theorem detected (s : σ) (samples old : List K) (hold : old.length = nChunks v samples.length)
    {k : ℕ} (hk : k ≤ nChunks v samples.length) :
    Detected graph v s samples old k
      ((List.range k).foldl (detectChunk graph v samples)
        { lstm := s, probs := old, window := List.replicate v.window 0 }) := by
  induction k with
  | zero => exact ⟨List.length_replicate, rfl, rfl⟩
  | succ k ih =>
    rw [List.range_succ, List.foldl_append]
    exact (ih (Nat.le_of_succ_le hk)).step hk hold

/-- A call runs the network over the windows of its signal. -/
theorem detectSpeechNoReset_eq (d : Detection σ K) (samples : List K) :
    detectSpeechNoReset graph v d samples =
      { lstm := (detectWindows graph v d.lstm samples).2
        probs := (detectWindows graph v d.lstm samples).1 } := by
  have hold : (resize d.probs (nChunks v samples.length)).length = nChunks v samples.length :=
    length_resize _ _
  have h := detected graph d.lstm samples _ hold le_rfl
  have hprobs := h.probs
  rw [List.drop_eq_nil_of_le hold.le, List.append_nil] at hprobs
  rw [detectSpeechNoReset, detectWindows, windows, ← h.lstm, ← hprobs]

/-! ### A signal in pieces -/

theorem runs_detectNoReset (d : Detection σ K) (pieces : List (List K)) :
    (runs (detectNoReset graph v) d pieces).1 = (runs (detectWindows graph v) d.lstm pieces).1 := by
  induction pieces generalizing d with
  | nil => rfl
  | cons a rest ih => rw [runs_cons, runs_cons, ih, detectNoReset, detectSpeechNoReset_eq]

theorem cut_detectWindows {s : σ} {a b : List K} (h : v.window ∣ a.length) :
    Pieces.Cut (detectWindows graph v) s a b := by
  rw [Pieces.Cut, detectWindows, windows_append h, Pieces.runs_append]
  rfl

theorem detectWindows_nil {s : σ} : detectWindows graph v s [] = ([], s) := by
  simp [detectWindows, windows, nChunks]

end

end Vad

end WhisperCpp
