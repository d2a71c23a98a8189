import Mathlib.Algebra.Order.Field.Basic
import Mathlib.Analysis.SpecialFunctions.Log.Base
import WhisperCpp.Library.Literals
import WhisperCpp.Library.Strided
import WhisperCpp.Library.Workers
import WhisperCpp.Mel.Fft

/-!
# The log-mel spectrogram on several threads

Worker `ith` of `log_mel_spectrogram` takes every `n_threads`-th frame. A frame that begins in the
signal is windowed, transformed and summed up by the mel filters; behind it all frames are the same.
The buffers of a worker are kept from frame to frame, so a frame begins with what the one before it
has left, in the scratch of the transform as well.

What a worker writes is a list of cells with their values, and the threads together write these
lists in some order.

## Main definitions

* `LogMelInput` — what the workers share
* `workerThread` — what one worker writes
* `logMelSpectrogram` — the spectrogram, for an order of all writes

## Main results

* `frame_fst_eq` — a frame does not depend on the frames before it
* `logMelSpectrogram_eq` — every cell is written once, and the spectrogram is that of a
  single thread
-/

namespace WhisperCpp

namespace Mel

open Workers (stride stop store)

attribute [local instance] Literals.atLeastTwo_ten

/-- `whisper_filters`; the worker asserts its number of bins. -/
structure Filters (K : Type*) where
  nFft : ℕ
  data : ℕ → K
  nFft_eq : nFft = 1 + sinCosNCount / 2

/-- What the workers share. The size of a frame is that of the transform. -/
structure LogMelInput (K : Type*) where
  hann : ℕ → K
  samples : ℕ → K
  nSamples : ℕ
  frameStep : ℕ
  filters : Filters K
  nMel : ℕ
  nLen : ℕ

section Definitions

variable {K : Type*} [Field K] [LinearOrder K] (c : SinCosCache K) (log10 : K → K)
  (x : LogMelInput K)

/-- The Hann window on the samples from `offset` on, with zeros behind the signal. -/
def windowFrame (offset : ℕ) (fftIn : ℕ → K) : ℕ → K := fun j =>
  if j < min sinCosNCount (x.nSamples - offset) then x.hann j * x.samples (offset + j)
  else if x.nSamples - offset < sinCosNCount ∧ x.nSamples - offset ≤ j ∧ j < 2 * sinCosNCount then 0
  else fftIn j

/-- The squares of the absolute values, in place. -/
def powers (nFft : ℕ) (fftOut : ℕ → K) : ℕ → K :=
  (List.range nFft).foldl (fun out j => Function.update out j
    (out (2 * j) * out (2 * j) + out (2 * j + 1) * out (2 * j + 1))) fftOut

/-- A sum, four terms at a time. -/
def sumByFours (n : ℕ) (term : ℕ → K) : K :=
  let sum := (List.range (n / 4)).foldl (fun sum i =>
    sum + (term (4 * i) + term (4 * i + 1) + term (4 * i + 2) + term (4 * i + 3))) 0
  (List.range (n % 4)).foldl (fun sum i => sum + term (4 * (n / 4) + i)) sum

/-- The sum of a mel filter. -/
def melSum (filters : Filters K) (j : ℕ) (fftOut : ℕ → K) : K :=
  sumByFours filters.nFft fun k => fftOut k * filters.data (j * filters.nFft + k)

/-- A frame of the signal: the cells that are written, and the buffers behind it. -/
def frame (i : ℕ) (bufs : Buffers K) : List (ℕ × K) × Buffers K :=
  let bufs := { bufs with inp := windowFrame x (i * x.frameStep) bufs.inp }
  let bufs := fft c sinCosNCount 0 0 bufs
  let bufs := { bufs with out := powers x.filters.nFft bufs.out }
  ((List.range x.nMel).map fun j =>
    (j * x.nLen + i, log10 (max (melSum x.filters j bufs.out) (1 / 10 ^ 10))), bufs)

/-- A frame behind the signal. -/
def constFrame (i : ℕ) : List (ℕ × K) :=
  (List.range x.nMel).map fun j => (j * x.nLen + i, log10 (1 / 10 ^ 10))

/-- The bound of the first loop. -/
def LogMelInput.computedEnd : ℕ := min (x.nSamples / x.frameStep + 1) x.nLen

/-- The first loop of `log_mel_spectrogram_worker_thread`, from frame `i` on, with `extra + 1`
threads: what it writes, and the frame at which it ends. -/
def computedFrames (extra i : ℕ) (bufs : Buffers K) : List (ℕ × K) × ℕ :=
  if i < x.computedEnd then
    let r := frame c log10 x i bufs
    let rest := computedFrames extra (i + (extra + 1)) r.2
    (r.1 ++ rest.1, rest.2)
  else ([], i)
termination_by x.computedEnd - i

/-- The second loop. -/
def constFrames (extra i : ℕ) : List (ℕ × K) :=
  if i < x.nLen then constFrame log10 x i ++ constFrames extra (i + (extra + 1)) else []
termination_by x.nLen - i

/-- `log_mel_spectrogram_worker_thread`. -/
def workerThread (extra ith : ℕ) : List (ℕ × K) :=
  let r := computedFrames c log10 x extra ith ⟨fun _ => 0, fun _ => 0⟩
  r.1 ++ constFrames log10 x extra r.2

/-- What the `extra` workers and the main thread write. -/
def allWrites (extra : ℕ) : List (ℕ × K) :=
  (List.range (extra + 1)).flatMap (workerThread c log10 x extra)

/-- "clamping and normalization". -/
def normalize (n : ℕ) (data : ℕ → K) : ℕ → K :=
  let mmax := (List.range n).foldl (fun mmax i => if mmax < data i then data i else mmax) (-10 ^ 20)
  let mmax := mmax - 8
  fun i => if i < n then ((if data i < mmax then mmax else data i) + 4) / 4 else data i

/-- The spectrogram, if the writes of the threads come in the order of `schedule`. -/
def logMelSpectrogram (schedule : List (ℕ × K)) (data : ℕ → K) : ℕ → K :=
  normalize (x.nMel * x.nLen) (store schedule data)

end Definitions

/-! ### One frame -/

section Frame

variable {K : Type*} [Field K] [LinearOrder K] {c : SinCosCache K} {log10 : K → K}
  {x : LogMelInput K}

/-- Within a frame nothing is left of the frame before. -/
theorem windowFrame_eq {offset j : ℕ} (hj : j < sinCosNCount) (fftIn fftIn' : ℕ → K) :
    windowFrame x offset fftIn j = windowFrame x offset fftIn' j := by
  rw [windowFrame, windowFrame]
  split_ifs with hsignal hzero
  · rfl
  · rfl
  · omega

omit [LinearOrder K] in
/-- What is read for a square has not been written yet. -/
theorem powers_eq (n : ℕ) (out : ℕ → K) :
    (∀ j < n, powers n out j = out (2 * j) * out (2 * j) + out (2 * j + 1) * out (2 * j + 1)) ∧
      ∀ j, n ≤ j → powers n out j = out j := by
  induction n with
  | zero => exact ⟨nofun, fun _ _ => rfl⟩
  | succ n ih =>
    obtain ⟨hdone, hrest⟩ := ih
    have hstep : powers (n + 1) out = Function.update (powers n out) n
        (out (2 * n) * out (2 * n) + out (2 * n + 1) * out (2 * n + 1)) := by
      rw [← hrest (2 * n) (by omega), ← hrest (2 * n + 1) (by omega), powers, List.range_succ,
        List.foldl_append]
      rfl
    rw [hstep]
    refine ⟨fun j hj => ?_, fun j hj => ?_⟩
    · obtain rfl | hne := eq_or_ne j n
      · exact Function.update_self _ _ _
      · rw [Function.update_of_ne hne]
        exact hdone j (by omega)
    · rw [Function.update_of_ne (by omega)]
      exact hrest j (by omega)

omit [LinearOrder K] in
theorem sumByFours_eq (n : ℕ) (term : ℕ → K) :
    sumByFours n term = ∑ k ∈ Finset.range n, term k := by
  have hblocks (m : ℕ) : (List.range m).foldl (fun sum i =>
      sum + (term (4 * i) + term (4 * i + 1) + term (4 * i + 2) + term (4 * i + 3))) 0 =
        ∑ k ∈ Finset.range (4 * m), term k := by
    induction m with
    | zero => rfl
    | succ m ih =>
      rw [List.range_succ, List.foldl_append, ih, Nat.mul_succ, Finset.sum_range_succ,
        Finset.sum_range_succ, Finset.sum_range_succ, Finset.sum_range_succ]
      show _ + (_ + _ + _ + _) = _
      ring
  have hrest (m r : ℕ) : (List.range r).foldl (fun sum i => sum + term (m + i))
      (∑ k ∈ Finset.range m, term k) = ∑ k ∈ Finset.range (m + r), term k := by
    induction r with
    | zero => rfl
    | succ r ih =>
      rw [List.range_succ, List.foldl_append, ih, ← Nat.add_assoc, Finset.sum_range_succ]
      rfl
  rw [sumByFours, hblocks, hrest, Nat.div_add_mod]

omit [LinearOrder K] in
/-- The sum reads the bins of the filter only. -/
theorem melSum_congr {filters : Filters K} {j : ℕ} {out out' : ℕ → K}
    (h : ∀ k < filters.nFft, out k = out' k) : melSum filters j out = melSum filters j out' := by
  rw [melSum, melSum, sumByFours_eq, sumByFours_eq]
  exact Finset.sum_congr rfl fun k hk => by rw [h k (Finset.mem_range.1 hk)]

omit [LinearOrder K] in
/-- The transform depends on the window only. -/
theorem bin_fft_eq (c : SinCosCache K) (bufs bufs' : Buffers K)
    (h : ∀ j < sinCosNCount, bufs.inp j = bufs'.inp j) {k : ℕ} (hk : k < sinCosNCount) :
    bin (fft c sinCosNCount 0 0 bufs).out 0 k = bin (fft c sinCosNCount 0 0 bufs').out 0 k := by
  rw [(transformed_fft c (dvd_refl sinCosNCount) 0 0 bufs).bins k hk,
    (transformed_fft c (dvd_refl sinCosNCount) 0 0 bufs').bins k hk]
  refine Fourier.transform_congr _ (fun j hj => ?_) k
  rw [Nat.zero_add, h j hj]

/-- **A frame does not depend on the frames before it.** -/
theorem frame_fst_eq (i : ℕ) (bufs bufs' : Buffers K) :
    (frame c log10 x i bufs).1 = (frame c log10 x i bufs').1 := by
  rw [frame, frame]
  refine List.map_congr_left fun j _ => ?_
  have hsum : melSum x.filters j (powers x.filters.nFft (fft c sinCosNCount 0 0
      { bufs with inp := windowFrame x (i * x.frameStep) bufs.inp }).out) =
        melSum x.filters j (powers x.filters.nFft (fft c sinCosNCount 0 0
          { bufs' with inp := windowFrame x (i * x.frameStep) bufs'.inp }).out) := by
    refine melSum_congr fun k hk => ?_
    have hcount : k < sinCosNCount := by
      rw [x.filters.nFft_eq] at hk
      exact hk.trans (by decide)
    have hbin := bin_fft_eq c { bufs with inp := windowFrame x (i * x.frameStep) bufs.inp }
      { bufs' with inp := windowFrame x (i * x.frameStep) bufs'.inp }
      (fun j hj => windowFrame_eq hj _ _) hcount
    rw [bin, bin, QuadraticAlgebra.mk.injEq, Nat.zero_add] at hbin
    rw [(powers_eq _ _).1 k hk, (powers_eq _ _).1 k hk, hbin.1, hbin.2]
  simp only [hsum]

end Frame

/-! ### The threads -/

section Threads

variable {K : Type*} [Field K] [LinearOrder K] (c : SinCosCache K) (log10 : K → K)
  (x : LogMelInput K)

/-- What is written for a frame. -/
def row (i : ℕ) : List (ℕ × K) :=
  if i < x.computedEnd then (frame c log10 x i ⟨fun _ => 0, fun _ => 0⟩).1
  else constFrame log10 x i

theorem computedFrames_eq (extra i : ℕ) (bufs : Buffers K) :
    computedFrames c log10 x extra i bufs =
      ((stride extra x.computedEnd i).flatMap (row c log10 x), stop extra x.computedEnd i) := by
  fun_induction computedFrames c log10 x extra i bufs with
  | case1 i bufs hi r rest ih =>
    have hrow : r.1 = row c log10 x i := by
      rw [row, if_pos hi]
      exact frame_fst_eq i _ _
    rw [stride, if_pos hi, stop, if_pos hi, List.flatMap_cons, hrow]
    simp only [rest, ih]
  | case2 i bufs hi => rw [stride, if_neg hi, stop, if_neg hi, List.flatMap_nil]

theorem constFrames_eq {extra i : ℕ} (hi : x.computedEnd ≤ i) :
    constFrames log10 x extra i = (stride extra x.nLen i).flatMap (row c log10 x) := by
  fun_induction constFrames log10 x extra i with
  | case1 i hlt ih =>
    rw [stride, if_pos hlt, List.flatMap_cons, ih (by omega), row, if_neg (by omega)]
  | case2 i hlt => rw [stride, if_neg hlt, List.flatMap_nil]

/-- **A worker writes the rows of its frames**, over the end of the signal as well. -/
theorem workerThread_eq (extra ith : ℕ) :
    workerThread c log10 x extra ith = (stride extra x.nLen ith).flatMap (row c log10 x) := by
  rw [workerThread, computedFrames_eq, Workers.stride_append (min_le_right _ x.nLen),
    List.flatMap_append]
  exact congrArg _ (constFrames_eq c log10 x Workers.le_stop)

/-- The threads together write the row of every frame. -/
theorem allWrites_perm (extra : ℕ) :
    (allWrites c log10 x extra).Perm ((List.range x.nLen).flatMap (row c log10 x)) := by
  rw [allWrites, funext (workerThread_eq c log10 x extra), ← List.flatMap_assoc]
  exact Workers.flatMap_stride_perm.flatMap_right _

theorem map_fst_row (i : ℕ) :
    (row c log10 x i).map Prod.fst = (List.range x.nMel).map fun j => j * x.nLen + i := by
  rw [row]
  split_ifs
  · rw [frame, List.map_map]
    rfl
  · rw [constFrame, List.map_map]
    rfl

/-- The cells of all frames. -/
theorem cells_perm (nMel nLen : ℕ) :
    ((List.range nLen).flatMap fun i => (List.range nMel).map fun j => j * nLen + i).Perm
      (List.range (nMel * nLen)) := by
  rw [List.perm_ext_iff_of_nodup ?_ List.nodup_range]
  · intro a
    simp only [List.mem_flatMap, List.mem_map, List.mem_range]
    constructor
    · rintro ⟨i, hi, j, hj, rfl⟩
      exact Strided.mul_add_lt hj hi
    · intro ha
      have hpos : 0 < nLen := Nat.pos_of_ne_zero fun hzero => by simp [hzero] at ha
      exact ⟨a % nLen, Nat.mod_lt _ hpos, a / nLen, Nat.div_lt_of_lt_mul (by rwa [Nat.mul_comm]),
        Nat.div_add_mod' a nLen⟩
  · rw [List.nodup_flatMap]
    refine ⟨fun i hi => ?_, ?_⟩
    · refine List.Nodup.map_on (fun j _ j' _ heq => ?_) List.nodup_range
      exact (Strided.mul_add_inj (List.mem_range.1 hi) (List.mem_range.1 hi) heq).1
    · refine List.nodup_range.imp_of_mem fun {i i'} hi hi' hne a ha ha' => hne ?_
      obtain ⟨j, -, rfl⟩ := List.mem_map.1 ha
      obtain ⟨j', -, heq⟩ := List.mem_map.1 ha'
      exact (Strided.mul_add_inj (List.mem_range.1 hi') (List.mem_range.1 hi) heq).2.symm

/-- **The spectrogram does not depend on the number of threads.** In whichever order the threads
write, every cell is written once, with the value that a single thread writes. -/
theorem logMelSpectrogram_eq (extra : ℕ) {schedule : List (ℕ × K)}
    (h : schedule.Perm (allWrites c log10 x extra)) (data : ℕ → K) :
    (schedule.map Prod.fst).Perm (List.range (x.nMel * x.nLen)) ∧
      schedule.Perm (allWrites c log10 x 0) ∧
      logMelSpectrogram x schedule data = logMelSpectrogram x (allWrites c log10 x 0) data := by
  have hrows := h.trans (allWrites_perm c log10 x extra)
  have hsingle := hrows.trans (allWrites_perm c log10 x 0).symm
  have hcells : (schedule.map Prod.fst).Perm (List.range (x.nMel * x.nLen)) := by
    refine (hrows.map Prod.fst).trans ?_
    rw [List.map_flatMap, funext (map_fst_row c log10 x)]
    exact cells_perm x.nMel x.nLen
  refine ⟨hcells, hsingle, ?_⟩
  rw [logMelSpectrogram, logMelSpectrogram,
    Workers.store_perm (hcells.nodup_iff.2 List.nodup_range) hsingle]

end Threads

/-- Three hundred samples behind their padding, and five frames, of which the last is behind the
signal. -/
noncomputable def shortInput : LogMelInput ℝ :=
  ⟨fun _ => 1, fun i => i, 500, 160, ⟨201, fun _ => 1, rfl⟩, 2, 5⟩

/-- Two threads. -/
theorem logMelSpectrogram_two :
    logMelSpectrogram shortInput (allWrites realCache (Real.logb 10) shortInput 1) (fun _ => 0) =
      logMelSpectrogram shortInput (allWrites realCache (Real.logb 10) shortInput 0) (fun _ => 0) :=
  (logMelSpectrogram_eq realCache (Real.logb 10) shortInput 1 (List.Perm.refl _) (fun _ => 0)).2.2

end Mel

end WhisperCpp
