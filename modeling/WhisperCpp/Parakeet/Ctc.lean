import Mathlib.Algebra.BigOperators.Group.List.Basic
import Mathlib.Algebra.GroupWithZero.Nat
import Mathlib.Data.Int.Notation
import Mathlib.Order.Defs.LinearOrder
import Mathlib.Order.Lattice
import WhisperCpp.Library.Collapse

/-!
# Greedy CTC decoding

`ctc_greedy_decode_window` takes the best token of every frame, and pushes it if it is neither the
blank nor the one of the frame before. The caller keeps the token of the last frame, so that the
frames can be decoded in windows.

## Main definitions

* `ctcGreedyDecodeWindow`, `ctcGreedyDecode` — the functions
* `ctcWindows` — the frames in consecutive windows
* `argmaxPath` — the best tokens of all frames

## Main results

* `best_spec` — the best token is the first one with the largest logit
* `ctcWindows_eq` — the windows make no difference, and the tokens are those of the path without
  repeats and blanks
-/

namespace WhisperCpp

namespace Parakeet

open Collapse

/-- What the windows hand on: `out_tokens`, `out_first_frame` and `inout_prev_token`. -/
structure CtcOut where
  tokens : List ℤ
  firstFrame : List ℤ
  prevToken : ℤ
  deriving DecidableEq, Repr

/-- Before the first window. -/
def CtcOut.start : CtcOut := ⟨[], [], -1⟩

section Definitions

variable {K : Type*} [LT K] [DecidableLT K] (logits : ℕ → K) (vocabSize : ℕ) (blankId : ℤ)

/-- The loop over a row: `best`, with `best_score`. -/
def bestOf (row : ℕ → K) : ℕ × K :=
  (List.range' 1 (vocabSize - 1)).foldl
    (fun b i => if b.2 < row i then (i, row i) else b) (0, row 0)

/-- The best token of frame `t`. -/
def best (t : ℕ) : ℤ := (bestOf vocabSize fun i => logits (t * vocabSize + i)).1

/-- The body of the loop over the frames. -/
def ctcFrame (out : CtcOut) (t : ℕ) : CtcOut :=
  let best := best logits vocabSize t
  if best ≠ blankId ∧ best ≠ out.prevToken then
    ⟨out.tokens ++ [best], out.firstFrame ++ [(t : ℤ)], best⟩
  else { out with prevToken := best }

/-- `ctc_greedy_decode_window`. -/
def ctcGreedyDecodeWindow (startFrame endFrame : ℤ) (out : CtcOut) : CtcOut :=
  let startFrame := if startFrame < 0 then 0 else startFrame
  let endFrame := if endFrame < startFrame then startFrame else endFrame
  (List.range' startFrame.toNat (endFrame - startFrame).toNat).foldl
    (ctcFrame logits vocabSize blankId) out

/-- `ctc_greedy_decode`. -/
def ctcGreedyDecode (nFrames : ℤ) : List ℤ :=
  (ctcGreedyDecodeWindow logits vocabSize blankId 0 nFrames .start).tokens

/-- Windows of `ns` frames, one behind the other from `startFrame` on. -/
def ctcWindows : ℕ → List ℕ → CtcOut → CtcOut
  | _, [], out => out
  | startFrame, n :: ns, out =>
    ctcWindows (startFrame + n) ns
      (ctcGreedyDecodeWindow logits vocabSize blankId startFrame ((startFrame + n : ℕ) : ℤ) out)

/-- The best tokens of the frames, each with its frame. -/
def argmaxPath (startFrame n : ℕ) : List (ℤ × ℤ) :=
  (List.range' startFrame n).map fun (t : ℕ) => (best logits vocabSize t, (t : ℤ))

end Definitions

/-! ### The best token -/

section Best

variable {K : Type*} [LinearOrder K]

/-- **The best token is the first one with the largest logit.** -/
theorem bestOf_spec (vocabSize : ℕ) (row : ℕ → K) :
    (bestOf vocabSize row).1 < max 1 vocabSize ∧
      (∀ i < vocabSize, row i ≤ row (bestOf vocabSize row).1) ∧
      ∀ i < (bestOf vocabSize row).1, row i < row (bestOf vocabSize row).1 := by
  -- the first `n` candidates
  suffices hfold : ∀ n b, (List.range' 1 n).foldl
      (fun (b : ℕ × K) i => if b.2 < row i then (i, row i) else b) (0, row 0) = b →
      b.2 = row b.1 ∧ b.1 ≤ n ∧ (∀ i ≤ n, row i ≤ row b.1) ∧ ∀ i < b.1, row i < row b.1 by
    obtain ⟨-, hle, hmax, hfirst⟩ := hfold (vocabSize - 1) (bestOf vocabSize row) rfl
    exact ⟨by omega, fun i hi => hmax i (by omega), hfirst⟩
  intro n
  induction n with
  | zero =>
    rintro b rfl
    refine ⟨rfl, le_rfl, fun i hi => ?_, nofun⟩
    rw [Nat.le_zero.1 hi]
    exact le_rfl
  | succ n ih =>
    rw [List.range'_concat, List.foldl_append, List.foldl_cons, List.foldl_nil,
      show 1 + 1 * n = n + 1 by omega]
    generalize hb : (List.range' 1 n).foldl _ (0, row 0) = b at ih
    obtain ⟨hscore, hle, hmax, hfirst⟩ := ih b rfl
    rw [hscore]
    rintro _ rfl
    split
    · rename_i hlt
      refine ⟨rfl, le_rfl, fun i hi => ?_, fun i hi => ?_⟩
      · obtain rfl | hi := Nat.eq_or_lt_of_le hi
        · exact le_rfl
        · exact (hmax i (by omega)).trans hlt.le
      · exact (hmax i (by omega)).trans_lt hlt
    · rename_i hlt
      refine ⟨hscore, by omega, fun i hi => ?_, hfirst⟩
      obtain rfl | hi := Nat.eq_or_lt_of_le hi
      · exact not_lt.1 hlt
      · exact hmax i (by omega)

end Best

/-! ### The frames of a window -/

section Frames

variable {K : Type*} [LT K] [DecidableLT K] {logits : ℕ → K} {vocabSize : ℕ} {blankId : ℤ}

theorem ctcGreedyDecodeWindow_eq (startFrame n : ℕ) (out : CtcOut) :
    ctcGreedyDecodeWindow logits vocabSize blankId startFrame ((startFrame + n : ℕ) : ℤ) out =
      (List.range' startFrame n).foldl (ctcFrame logits vocabSize blankId) out := by
  have hcount : (((startFrame + n : ℕ) : ℤ) - (startFrame : ℤ)).toNat = n := by omega
  rw [ctcGreedyDecodeWindow, if_neg (by omega), if_neg (by omega), Int.toNat_natCast, hcount]

/-- The frames in windows are the frames. -/
theorem ctcWindows_eq_foldl (startFrame : ℕ) (ns : List ℕ) (out : CtcOut) :
    ctcWindows logits vocabSize blankId startFrame ns out =
      (List.range' startFrame ns.sum).foldl (ctcFrame logits vocabSize blankId) out := by
  induction ns generalizing startFrame out with
  | nil => rfl
  | cons n ns ih =>
    rw [ctcWindows, ih, ctcGreedyDecodeWindow_eq, ← List.foldl_append, List.range'_append_1,
      List.sum_cons]

/-- What is pushed in a window: of the path, the first elements of its runs, without the blank. -/
theorem foldl_ctcFrame (startFrame n : ℕ) (out : CtcOut) :
    (List.range' startFrame n).foldl (ctcFrame logits vocabSize blankId) out =
      let pushed := (firsts Prod.fst out.prevToken
        (argmaxPath logits vocabSize startFrame n)).filter (·.1 ≠ blankId)
      ⟨out.tokens ++ pushed.map Prod.fst, out.firstFrame ++ pushed.map Prod.snd,
        lastKey Prod.fst out.prevToken (argmaxPath logits vocabSize startFrame n)⟩ := by
  induction n generalizing startFrame out with
  | zero => simp [argmaxPath, firsts]
  | succ n ih =>
    have hpath : argmaxPath logits vocabSize startFrame (n + 1) =
        (best logits vocabSize startFrame, (startFrame : ℤ)) ::
          argmaxPath logits vocabSize (startFrame + 1) n := by
      rw [argmaxPath, List.range'_succ]
      rfl
    rw [List.range'_succ, List.foldl_cons, ih, hpath, firsts, lastKey_cons, ctcFrame]
    by_cases hprev : best logits vocabSize startFrame = out.prevToken
    · rw [if_neg fun h => h.2 hprev, if_pos hprev]
    · by_cases hblank : best logits vocabSize startFrame = blankId
      · rw [if_neg fun h => h.1 hblank, if_neg hprev]
        simp [hblank]
      · rw [if_pos ⟨hblank, hprev⟩, if_neg hprev]
        simp [hblank]

end Frames

/-- **Windows make no difference.** However the frames are cut into windows, the tokens, their first
frames and the token that is handed on are those of one window over all frames. They are what is
left of the path of the best tokens when repeats are merged and then blanks are dropped; the best
token of a frame is the first one with the largest logit. -/
theorem ctcWindows_eq {K : Type*} [LinearOrder K] (logits : ℕ → K) (vocabSize : ℕ) (blankId : ℤ)
    (ns : List ℕ) :
    let out := ctcWindows logits vocabSize blankId 0 ns .start
    let collapsed := ((argmaxPath logits vocabSize 0 ns.sum).destutter fun a b => a.1 ≠ b.1).filter
      (·.1 ≠ blankId)
    out = ctcGreedyDecodeWindow logits vocabSize blankId 0 (ns.sum : ℤ) .start ∧
      out.tokens = ctcGreedyDecode logits vocabSize blankId ns.sum ∧
      out.tokens = collapsed.map Prod.fst ∧ out.firstFrame = collapsed.map Prod.snd ∧
      ∀ t, ∃ b : ℕ, best logits vocabSize t = b ∧ b < max 1 vocabSize ∧
        (∀ i < vocabSize, logits (t * vocabSize + i) ≤ logits (t * vocabSize + b)) ∧
        ∀ i < b, logits (t * vocabSize + i) < logits (t * vocabSize + b) := by
  intro out collapsed
  have hall : out = ctcGreedyDecodeWindow logits vocabSize blankId 0 (ns.sum : ℤ) .start := by
    have hone := @ctcGreedyDecodeWindow_eq _ _ _ logits vocabSize blankId 0 ns.sum .start
    rw [Nat.zero_add] at hone
    exact (ctcWindows_eq_foldl 0 ns .start).trans hone.symm
  -- no token is the one in front of the first frame
  have hfirsts : firsts Prod.fst (-1) (argmaxPath logits vocabSize 0 ns.sum) =
      (argmaxPath logits vocabSize 0 ns.sum).destutter fun a b => a.1 ≠ b.1 := by
    refine firsts_eq_destutter fun a ha => ?_
    obtain ⟨t, -, rfl⟩ := List.mem_map.1 (List.mem_of_mem_head? ha)
    rw [best]
    omega
  have hout := (@ctcWindows_eq_foldl _ _ _ logits vocabSize blankId 0 ns .start).trans
    (foldl_ctcFrame 0 ns.sum .start)
  refine ⟨hall, congrArg CtcOut.tokens hall, ?_, ?_, fun t => ⟨_, rfl, bestOf_spec vocabSize _⟩⟩
  · refine (congrArg CtcOut.tokens hout).trans ?_
    simp only [CtcOut.start, List.nil_append, hfirsts]
    rfl
  · refine (congrArg CtcOut.firstFrame hout).trans ?_
    simp only [CtcOut.start, List.nil_append, hfirsts]
    rfl

/-- A token that goes on into the second window, and comes back behind a blank. -/
example : ctcWindows (fun i => [0, 1, 2, 0, 5, 0, 0, 5, 0, 7, 0, 0, 0, 5, 0][i]?.getD (0 : ℤ)) 3 0 0
    [2, 3] .start = ⟨[2, 1, 1], [0, 1, 4], 1⟩ := by
  decide +kernel

end Parakeet

end WhisperCpp
