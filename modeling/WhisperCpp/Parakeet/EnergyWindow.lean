import Mathlib.Algebra.Order.Ring.Rat
import Mathlib.Algebra.Field.Defs
import Mathlib.Order.Defs.LinearOrder
import WhisperCpp.Library.RingWindow
import WhisperCpp.Parakeet.EnergyVad

/-!
# The window and the hangover of the energy detector

The detector keeps its window and its counter from one call of `process` to the next, so it does not
matter how a signal is cut into calls. In exact arithmetic the running sum is that of the squares of
the window, and only silent windows in a row, as many as the hangover, turn the detector silent.

## Main definitions

* `EnergyVad.transitions` — the changes of state in a block
* `EnergyVad.processBlocks` — one call after the other

## Main results

* `processBlocks_eq` — one call for all samples
* `windowSumSq_foldl` — the running sum
* `quiet_foldl` — what the counter counts
* `energyVad_process` — the three together
-/

namespace WhisperCpp

namespace Parakeet

namespace EnergyVad

open RingWindow

section Blocks

-- arithmetic of floats: no law is used
variable {K : Type*} [Zero K] [Add K] [Sub K] [Mul K] [Div K] [IntCast K] [LT K]
  [DecidableLT K] (sqrt : K → K)

/-- The changes of state in a block that starts at `atSample`. -/
def transitions : EnergyVad K → List K → ℤ → List (Transition K)
  | _, [], _ => []
  | v, s :: samples, atSample =>
    let r := processSample sqrt (v, ⟨.unknown, 0, 0⟩) s atSample
    if r.1.state = v.state then transitions r.1 samples (atSample + 1)
    else r.2 :: transitions r.1 samples (atSample + 1)

/-- One call of `process` for each block, from the sample behind the last one, and the changes of
state on the way. -/
def processBlocks : EnergyVad K → List (List K) → ℤ → EnergyVad K × List (Transition K)
  | v, [], _ => (v, [])
  | v, block :: blocks, startSample =>
    let r := processBlocks (v.process sqrt block startSample).1 blocks
      (startSample + block.length)
    (r.1, transitions sqrt v block startSample ++ r.2)

variable {sqrt} {v : EnergyVad K}

/-- A sample that does not change the state leaves what was reported. -/
theorem processSample_snd (acc : EnergyVad K × Transition K) (s : K) (atSample : ℤ) :
    (processSample sqrt acc s atSample).2 =
      if (acc.1.next sqrt s).state = acc.1.state then acc.2
      else (processSample sqrt (acc.1, ⟨.unknown, 0, 0⟩) s atSample).2 := by
  rw [next, processSample, processSample, processSample]
  simp only [push_state]
  split_ifs <;> simp_all

theorem processSample_fst (acc : EnergyVad K × Transition K) (s : K) (atSample : ℤ) :
    (processSample sqrt acc s atSample).1 = acc.1.next sqrt s :=
  (processSample_cases sqrt acc s atSample).1

theorem transitions_cons (v : EnergyVad K) (s : K) (samples : List K) (atSample : ℤ) :
    transitions sqrt v (s :: samples) atSample =
      (if (v.next sqrt s).state = v.state then []
        else [(processSample sqrt (v, ⟨.unknown, 0, 0⟩) s atSample).2]) ++
      transitions sqrt (v.next sqrt s) samples (atSample + 1) := by
  rw [transitions]
  simp only [processSample_fst]
  split_ifs <;> simp

theorem transitions_append (v : EnergyVad K) (front back : List K) (atSample : ℤ) :
    transitions sqrt v (front ++ back) atSample =
      transitions sqrt v front atSample ++
        transitions sqrt (front.foldl (next sqrt) v) back (atSample + front.length) := by
  induction front generalizing v atSample with
  | nil => simp [transitions]
  | cons s front ih =>
    have hsample : atSample + 1 + front.length = atSample + (s :: front).length := by
      simp only [List.length_cons, Nat.cast_succ]
      omega
    rw [List.cons_append, transitions_cons, transitions_cons, ih, List.foldl_cons, hsample,
      List.append_assoc]

/-- A call returns its last change. -/
theorem processFrom_snd (acc : EnergyVad K × Transition K) (samples : List K) (atSample : ℤ) :
    (processFrom sqrt acc samples atSample).2 =
      (transitions sqrt acc.1 samples atSample).getLastD acc.2 := by
  induction samples generalizing acc atSample with
  | nil => rfl
  | cons s samples ih =>
    rw [processFrom, ih, processSample_fst, processSample_snd, transitions_cons]
    split_ifs <;> simp [List.getLastD_eq_getLast?, List.getLast?_cons]

theorem process_fst (v : EnergyVad K) (samples : List K) (startSample : ℤ) :
    (v.process sqrt samples startSample).1 = samples.foldl (next sqrt) v :=
  (processFrom_eq sqrt _ samples startSample).1

/-- **One call after the other** is one call for all samples. -/
theorem processBlocks_eq (v : EnergyVad K) (blocks : List (List K)) (startSample : ℤ) :
    processBlocks sqrt v blocks startSample =
      ((v.process sqrt blocks.flatten startSample).1,
        transitions sqrt v blocks.flatten startSample) := by
  induction blocks generalizing v startSample with
  | nil => rfl
  | cons block blocks ih =>
    rw [processBlocks, ih, List.flatten_cons, transitions_append]
    simp only [process_fst, List.foldl_append]

/-- A change of state happens at a sample. -/
theorem exists_of_mem_transitions {samples : List K} {atSample : ℤ} {t : Transition K}
    (ht : t ∈ transitions sqrt v samples atSample) :
    ∃ front s back, samples = front ++ s :: back ∧
      ((front.foldl (next sqrt) v).next sqrt s).state ≠ (front.foldl (next sqrt) v).state ∧
        t = (processSample sqrt (front.foldl (next sqrt) v, ⟨.unknown, 0, 0⟩) s
          (atSample + front.length)).2 := by
  induction samples generalizing v atSample with
  | nil => cases ht
  | cons s samples ih =>
    rw [transitions_cons] at ht
    rcases List.mem_append.1 ht with hhere | hrest
    · split_ifs at hhere with hsame
      · cases hhere
      · exact ⟨[], s, samples, rfl, hsame, by simpa using hhere⟩
    · obtain ⟨front, s', back, rfl, hne, rfl⟩ := ih hrest
      refine ⟨s :: front, s', back, rfl, hne, ?_⟩
      rw [List.foldl_cons, List.length_cons, Nat.cast_succ, add_assoc, add_comm (1 : ℤ)]

end Blocks

/-! ### What a sample leaves -/

section Fields

variable {K : Type*} [Zero K] [Add K] [Sub K] [Mul K] [Div K] [IntCast K] [LT K]
  [DecidableLT K] {sqrt : K → K} {v : EnergyVad K}

section Push

omit [Zero K] [Div K] [IntCast K] [LT K] [DecidableLT K]

@[simp] theorem push_windowN (s : K) : (v.push s).windowN = v.windowN := by
  rw [push]
  split_ifs <;> rfl

@[simp] theorem push_hangoverN (s : K) : (v.push s).hangoverN = v.hangoverN := by
  rw [push]
  split_ifs <;> rfl

@[simp] theorem push_threshRmsSq (s : K) : (v.push s).threshRmsSq = v.threshRmsSq := by
  rw [push]
  split_ifs <;> rfl

@[simp] theorem push_hangoverCount (s : K) : (v.push s).hangoverCount = v.hangoverCount := by
  rw [push]
  split_ifs <;> rfl

theorem push_windowFill (s : K) :
    (v.push s).windowFill =
      if v.windowFill < v.windowN then v.windowFill + 1 else v.windowFill := by
  rw [push]
  split_ifs <;> rfl

theorem push_windowPos (s : K) :
    (v.push s).windowPos = if v.windowN ≤ v.windowPos + 1 then 0 else v.windowPos + 1 := by
  rw [push]
  split_ifs <;> rfl

theorem push_windowSq (s : K) :
    (v.push s).windowSq = fun i => if i = v.windowPos then s * s else v.windowSq i := by
  rw [push]
  split_ifs <;> rfl

theorem push_windowSumSq (s : K) :
    (v.push s).windowSumSq =
      if v.windowFill < v.windowN then v.windowSumSq + s * s
      else v.windowSumSq - v.windowSq v.windowPos + s * s := by
  rw [push]
  split_ifs <;> rfl

end Push

variable (sqrt) in
/-- **What a sample does**: the window is not full, or it is loud, or it is counted. -/
theorem next_cases (v : EnergyVad K) (s : K) :
    let w := v.push s
    (w.windowFill < w.windowN ∧ v.next sqrt s = w) ∨
      (w.windowN ≤ w.windowFill ∧ w.threshRmsSq < w.meanSq ∧
        v.next sqrt s = { w with hangoverCount := 0, state := .speaking }) ∨
      (w.windowN ≤ w.windowFill ∧ ¬ w.threshRmsSq < w.meanSq ∧
        ∃ state, v.next sqrt s = { w with hangoverCount := w.hangoverCount + 1, state := state } ∧
          (state = w.state ∨ state = .silent ∧ w.hangoverN ≤ w.hangoverCount + 1)) := by
  intro w
  rw [next, processSample]
  simp only
  split_ifs with hfill habove hspeaking hsilent
  · exact .inl ⟨hfill, rfl⟩
  · exact .inr (.inl ⟨not_lt.1 hfill, habove, rfl⟩)
  · refine .inr (.inl ⟨not_lt.1 hfill, habove, ?_⟩)
    rw [← not_ne_iff.1 hspeaking]
  · exact .inr (.inr ⟨not_lt.1 hfill, habove, .silent, rfl, .inr ⟨rfl, hsilent.2⟩⟩)
  · exact .inr (.inr ⟨not_lt.1 hfill, habove, w.state, rfl, .inl rfl⟩)

variable (sqrt) in
theorem next_window (v : EnergyVad K) (s : K) :
    (v.next sqrt s).windowN = v.windowN ∧ (v.next sqrt s).hangoverN = v.hangoverN ∧
      (v.next sqrt s).threshRmsSq = v.threshRmsSq ∧
      (v.next sqrt s).windowFill = (v.push s).windowFill ∧
      (v.next sqrt s).windowPos = (v.push s).windowPos ∧
      (v.next sqrt s).windowSq = (v.push s).windowSq ∧
      (v.next sqrt s).windowSumSq = (v.push s).windowSumSq := by
  rcases next_cases sqrt v s with ⟨-, heq⟩ | ⟨-, -, heq⟩ | ⟨-, -, state, heq, -⟩ <;>
    simp [heq]

variable (sqrt) in
theorem next_meanSq (v : EnergyVad K) (s : K) : (v.next sqrt s).meanSq = (v.push s).meanSq := by
  obtain ⟨hN, -, -, -, -, -, hsum⟩ := next_window sqrt v s
  rw [meanSq, meanSq, hN, hsum, push_windowN]

end Fields

/-! ### The counter -/

section Counter

variable {K : Type*} [Zero K] [Add K] [Sub K] [Mul K] [Div K] [IntCast K] [LT K]
  [DecidableLT K] (sqrt : K → K)

/-- The last `count` windows were full and not above the threshold. -/
def Quiet (v₀ : EnergyVad K) (samples : List K) (count : ℕ) : Prop :=
  ∀ j < count, v₀.windowN + j ≤ samples.length ∧
    ¬ v₀.threshRmsSq < ((samples.take (samples.length - j)).foldl (next sqrt) v₀).meanSq

/-- What a detector that has read samples knows of them in any arithmetic. -/
structure Counted (v₀ : EnergyVad K) (samples : List K) (v : EnergyVad K) : Prop where
  windowN : v.windowN = v₀.windowN
  hangoverN : v.hangoverN = v₀.hangoverN
  threshRmsSq : v.threshRmsSq = v₀.threshRmsSq
  windowFill : v.windowFill = min samples.length v₀.windowN
  quiet : Quiet sqrt v₀ samples v.hangoverCount

variable {sqrt} {v₀ v : EnergyVad K} {samples : List K}

/-- One more silent window. -/
theorem Quiet.append {count : ℕ} (h : Quiet sqrt v₀ samples count) (s : K)
    (hfull : v₀.windowN ≤ samples.length + 1)
    (hbelow : ¬ v₀.threshRmsSq < ((samples ++ [s]).foldl (next sqrt) v₀).meanSq) :
    Quiet sqrt v₀ (samples ++ [s]) (count + 1) := by
  intro j hj
  rw [List.length_append, List.length_singleton]
  cases j with
  | zero =>
    rw [Nat.sub_zero, List.take_of_length_le (by simp)]
    exact ⟨hfull, hbelow⟩
  | succ j =>
    obtain ⟨hle, hbelow⟩ := h j (Nat.lt_of_succ_lt_succ hj)
    rw [Nat.add_sub_add_right, List.take_append_of_le_length (Nat.sub_le _ _)]
    exact ⟨by omega, hbelow⟩

theorem Quiet.mono {count count' : ℕ} (h : Quiet sqrt v₀ samples count) (hle : count' ≤ count) :
    Quiet sqrt v₀ samples count' :=
  fun j hj => h j (hj.trans_le hle)

variable (sqrt) in
/-- **The counter** counts the silent windows behind the last one that was not. -/
theorem counted_foldl (hfill : v₀.windowFill = 0) (hcount : v₀.hangoverCount = 0)
    (samples : List K) : Counted sqrt v₀ samples (samples.foldl (next sqrt) v₀) := by
  induction samples using List.reverseRecOn with
  | nil =>
    refine ⟨rfl, rfl, rfl, by simp [hfill], ?_⟩
    intro j hj
    simp [hcount] at hj
  | append_singleton samples s ih =>
    have hfold : (samples ++ [s]).foldl (next sqrt) v₀ =
        (samples.foldl (next sqrt) v₀).next sqrt s := by simp
    have hmean := next_meanSq sqrt (samples.foldl (next sqrt) v₀) s
    rw [← hfold] at hmean
    obtain ⟨hN, hhangover, hthresh, hnext, -⟩ :=
      next_window sqrt (samples.foldl (next sqrt) v₀) s
    have hcases := next_cases sqrt (samples.foldl (next sqrt) v₀) s
    rw [← hfold] at hN hhangover hthresh hnext hcases
    have hfill' : ((samples ++ [s]).foldl (next sqrt) v₀).windowFill =
        min (samples ++ [s]).length v₀.windowN := by
      rw [hnext, push_windowFill, ih.windowN, ih.windowFill, List.length_append,
        List.length_singleton]
      split_ifs <;> omega
    refine ⟨hN.trans ih.windowN, hhangover.trans ih.hangoverN, hthresh.trans ih.threshRmsSq,
      hfill', ?_⟩
    simp only [push_windowN, ih.windowN, ← hnext, hfill', List.length_append,
      List.length_singleton] at hcases
    rcases hcases with ⟨hshort, heq⟩ | ⟨-, -, heq⟩ | ⟨hfull, hbelow, state, heq, -⟩
    · -- before the window is full nothing is counted
      intro j hj
      rw [heq, push_hangoverCount] at hj
      have := (ih.quiet j hj).1
      omega
    · intro j hj
      rw [heq] at hj
      cases hj
    · rw [push_threshRmsSq, ih.threshRmsSq, ← hmean] at hbelow
      have hquiet := ih.quiet.append s (by omega) hbelow
      rw [heq]
      simpa using hquiet

/-- A change of state is reported at its sample. -/
theorem processSample_atSample {s : K} (hchange : (v.next sqrt s).state ≠ v.state)
    (atSample : ℤ) :
    (processSample sqrt (v, ⟨.unknown, 0, 0⟩) s atSample).2.atSample = atSample := by
  rw [next, processSample] at hchange
  rw [processSample]
  simp only at hchange ⊢
  split_ifs at hchange ⊢ <;> simp_all

/-- **The detector turns silent** behind as many silent windows as the hangover asks for. -/
theorem quiet_of_silent (hfill : v₀.windowFill = 0) (hcount : v₀.hangoverCount = 0)
    {samples : List K} {startSample : ℤ} {t : Transition K}
    (ht : t ∈ transitions sqrt v₀ samples startSample) (hsilent : t.toState = .silent) :
    ∃ n, n < samples.length ∧ t.atSample = startSample + n ∧
      Quiet sqrt v₀ (samples.take (n + 1)) (max 1 v₀.hangoverN) := by
  obtain ⟨front, s, back, rfl, hchange, rfl⟩ := exists_of_mem_transitions ht
  have htake : (front ++ s :: back).take (front.length + 1) = front ++ [s] := by
    simp [List.take_append]
  refine ⟨front.length, by simp, processSample_atSample hchange _, ?_⟩
  have hbefore := counted_foldl sqrt hfill hcount front
  have hafter := (counted_foldl sqrt hfill hcount (front ++ [s])).quiet
  rw [List.foldl_append, List.foldl_cons, List.foldl_nil] at hafter
  have hstate : ((front.foldl (next sqrt) v₀).next sqrt s).state = .silent := by
    rcases (processSample_cases sqrt (front.foldl (next sqrt) v₀, ⟨.unknown, 0, 0⟩) s
      (startSample + front.length)).2 with ⟨hsame, -⟩ | ⟨-, -, hto⟩
    · exact absurd hsame hchange
    · rw [← hto, hsilent]
  rw [htake]
  rcases next_cases sqrt (front.foldl (next sqrt) v₀) s with
    ⟨-, heq⟩ | ⟨-, -, heq⟩ | ⟨-, -, state, heq, hcause⟩
  · rw [heq, push_state] at hchange
    exact absurd rfl hchange
  · rw [heq] at hstate
    cases hstate
  · rw [heq] at hchange
    have hle := (hcause.resolve_left fun h => hchange (h.trans (push_state s))).2
    rw [push_hangoverN, hbefore.hangoverN] at hle
    refine hafter.mono ?_
    rw [heq]
    simp only
    omega

end Counter

/-! ### The running sum -/

section Exact

variable {K : Type*} [Field K] [LinearOrder K] (sqrt : K → K)

/-- What a detector that has read samples holds of them in exact arithmetic. -/
structure Ringed (size : ℕ) (samples : List K) (v : EnergyVad K) : Prop where
  windowPos : v.windowPos = samples.length % size
  windowSq : HoldsLast size v.windowSq (samples.map fun s => s * s)
  windowSumSq : v.windowSumSq = (lastValues size (samples.map fun s => s * s)).sum

variable {sqrt} {v₀ : EnergyVad K}

variable (sqrt) in
/-- **The running sum** is that of the squares of the window. -/
theorem ringed_foldl (hN : 0 < v₀.windowN) (hfill : v₀.windowFill = 0)
    (hcount : v₀.hangoverCount = 0) (hpos : v₀.windowPos = 0) (hsum : v₀.windowSumSq = 0)
    (samples : List K) : Ringed v₀.windowN samples (samples.foldl (next sqrt) v₀) := by
  induction samples using List.reverseRecOn with
  | nil => exact ⟨by simp [hpos], holdsLast_nil, by simp [hsum, lastValues]⟩
  | append_singleton samples s ih =>
    have hcounted := counted_foldl sqrt hfill hcount samples
    obtain ⟨-, -, -, -, hnextPos, hnextSq, hnextSum⟩ :=
      next_window sqrt (samples.foldl (next sqrt) v₀) s
    rw [push_windowPos, hcounted.windowN, ih.windowPos] at hnextPos
    rw [push_windowSq, ih.windowPos] at hnextSq
    rw [push_windowSumSq, hcounted.windowN, hcounted.windowFill, ih.windowPos, ih.windowSumSq]
      at hnextSum
    rw [List.foldl_append, List.foldl_cons, List.foldl_nil]
    refine ⟨?_, ?_, ?_⟩
    · rw [hnextPos, List.length_append, List.length_singleton, succ_mod hN]
    · rw [hnextSq, List.map_append, List.map_singleton]
      have hpush := ih.windowSq.push (s * s)
      rwa [List.length_map] at hpush
    · rw [hnextSum, List.map_append, List.map_singleton]
      split_ifs with hshort
      · rw [sum_lastValues_append_of_lt (by simpa using hshort)]
      · have hfull : v₀.windowN ≤ (samples.map fun s => s * s).length := by simpa using hshort
        rw [sum_lastValues_append hN hfull, ← ih.windowSq.oldest hN hfull, List.length_map]

end Exact

/-! ### The detector of a stream -/

section Stream

variable {K F : Type*} [Zero K] [Add K] [Sub K] [Mul K] [Div K] [IntCast K] [LT K]
  [DecidableLT K] [Field F] [LinearOrder F]

omit [Add K] [Sub K] [Div K] [IntCast K] [LT K] [DecidableLT K] in
/-- The window has a place. -/
theorem init_windowN_pos (sampleRate windowMs hangoverMs : ℤ) (threshRms : K) :
    0 < (init sampleRate windowMs hangoverMs threshRms).windowN := by
  rw [init]
  simp only
  omega

/-- **The detector of a stream.** In any arithmetic the detector that is left and all changes of
state, with their samples, are those of one call for the whole signal, and a call returns its last
change; a change to silent is made behind as many full windows in a row that are not above the
threshold as the hangover asks for. In exact arithmetic the running sum is the sum of the squares of
the samples in the window. -/
theorem energyVad_process (sqrt : K → K) (sqrtF : F → F) (sampleRate windowMs hangoverMs : ℤ)
    (threshRms : K) (threshRmsF : F) :
    let v := init sampleRate windowMs hangoverMs threshRms
    let w := init sampleRate windowMs hangoverMs threshRmsF
    (∀ (blocks : List (List K)) (startSample : ℤ),
      processBlocks sqrt v blocks startSample =
        ((v.process sqrt blocks.flatten startSample).1,
          transitions sqrt v blocks.flatten startSample)) ∧
      (∀ (u : EnergyVad K) (samples : List K) (startSample : ℤ),
        (u.process sqrt samples startSample).2 =
          (transitions sqrt u samples startSample).getLastD ⟨.unknown, 0, 0⟩) ∧
      (∀ (samples : List K) (startSample : ℤ), ∀ t ∈ transitions sqrt v samples startSample,
        t.toState = .silent →
          ∃ n, n < samples.length ∧ t.atSample = startSample + n ∧
            ∀ j < max 1 v.hangoverN, v.windowN + j ≤ n + 1 ∧
              ¬ v.threshRmsSq < ((samples.take (n + 1 - j)).foldl (next sqrt) v).meanSq) ∧
      ∀ samples : List F,
        (w.process sqrtF samples 0).1.windowSumSq =
          ((samples.drop (samples.length - w.windowN)).map fun s => s * s).sum := by
  intro v w
  refine ⟨processBlocks_eq v, fun u => processFrom_snd _, ?_, ?_⟩
  · intro samples startSample t ht hsilent
    obtain ⟨n, hn, hat, hquiet⟩ := quiet_of_silent rfl rfl ht hsilent
    refine ⟨n, hn, hat, fun j hj => ?_⟩
    obtain ⟨hfull, hbelow⟩ := hquiet j hj
    rw [List.length_take_of_le hn] at hfull hbelow
    rw [List.take_take, Nat.min_eq_left (Nat.sub_le _ _)] at hbelow
    exact ⟨hfull, hbelow⟩
  · intro samples
    have hring := ringed_foldl sqrtF
      (init_windowN_pos sampleRate windowMs hangoverMs threshRmsF) rfl rfl rfl rfl samples
    rw [process_fst, hring.windowSumSq, lastValues, List.length_map, List.map_drop]

end Stream

end EnergyVad

end Parakeet

end WhisperCpp
