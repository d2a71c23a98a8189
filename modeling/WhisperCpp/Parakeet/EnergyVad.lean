import WhisperCpp.Library.Changes
import WhisperCpp.Parakeet.Session

/-!
# The energy detector and its events

`EnergyVad` keeps the mean square of the last samples and decides after each sample who speaks. A feed
reports only the last change of its samples. What the last event says is right, but after a feed in
which the detector goes forth and back the event repeats the one before.

## Main definitions

* `EnergyVad`, `EnergyVad.process` — the detector
* `VadDriver`, `stream_drive_energy_vad` as `VadDriver.drive` — the events of a stream

## Main results

* `process_toState` — what a block reports
* `events_sound` — the events of a stream
-/

namespace WhisperCpp

namespace Parakeet

open Changes

/-- `EnergyVad::State`, and `VadState` of an event. -/
inductive VadState
  | unknown
  | speaking
  | silent
  deriving DecidableEq, Repr

/-- `EnergyVad::Transition`. -/
structure Transition (K : Type*) where
  toState : VadState
  atSample : ℤ
  rms : K

/-- `EnergyVad`. The squares of the window are in a ring of `window_n_` places. -/
structure EnergyVad (K : Type*) where
  windowN : ℕ
  hangoverN : ℕ
  threshRmsSq : K
  totalSamplesSeen : ℕ
  windowSumSq : K
  windowFill : ℕ
  windowPos : ℕ
  windowSq : ℕ → K
  hangoverCount : ℕ
  state : VadState

/-- A `VadStateChanged` event. -/
structure VadEvent (K : Type*) where
  timestampS : K
  chunkIndex : ℤ
  vadState : VadState
  vadScore : K

section Detector

-- arithmetic of floats: no law is used
variable {K : Type*} [Zero K] [Add K] [Sub K] [Mul K] [Div K] [IntCast K] [LT K]
  [DecidableLT K]

namespace EnergyVad

/-- The constructor, with `reset`; `threshRms` is `10 ^ (threshold_db / 20)`. -/
def init (sampleRate windowMs hangoverMs : ℤ) (threshRms : K) : EnergyVad K where
  windowN := (min (max 1 ((max 1 sampleRate * max 1 windowMs).tdiv 1000)) 16000).toNat
  hangoverN := (max 0 ((max 1 sampleRate * max 0 hangoverMs).tdiv 1000)).toNat
  threshRmsSq := threshRms * threshRms
  totalSamplesSeen := 0
  windowSumSq := 0
  windowFill := 0
  windowPos := 0
  windowSq := fun _ => 0
  hangoverCount := 0
  state := .unknown

/-- A sample enters the window. -/
def push (v : EnergyVad K) (s : K) : EnergyVad K :=
  let sq := s * s
  let v :=
    if v.windowFill < v.windowN then
      { v with
        windowSq := fun i => if i = v.windowPos then sq else v.windowSq i
        windowSumSq := v.windowSumSq + sq
        windowFill := v.windowFill + 1 }
    else
      { v with
        windowSq := fun i => if i = v.windowPos then sq else v.windowSq i
        windowSumSq := v.windowSumSq - v.windowSq v.windowPos + sq }
  { v with
    windowPos := if v.windowN ≤ v.windowPos + 1 then 0 else v.windowPos + 1
    totalSamplesSeen := v.totalSamplesSeen + 1 }

/-- `mean_sq`. -/
def meanSq (v : EnergyVad K) : K := v.windowSumSq / ((v.windowN : ℤ) : K)

/-- The body of the loop of `process`, at the sample `at`. -/
def processSample (sqrt : K → K) (acc : EnergyVad K × Transition K) (s : K) (atSample : ℤ) :
    EnergyVad K × Transition K :=
  let v := acc.1.push s
  if v.windowFill < v.windowN then (v, acc.2)
  else if v.threshRmsSq < v.meanSq then
    let v := { v with hangoverCount := 0 }
    if v.state ≠ .speaking then
      ({ v with state := .speaking }, ⟨.speaking, atSample, sqrt v.meanSq⟩)
    else (v, acc.2)
  else
    let v := { v with hangoverCount := v.hangoverCount + 1 }
    if v.state ≠ .silent ∧ v.hangoverN ≤ v.hangoverCount then
      ({ v with state := .silent }, ⟨.silent, atSample, sqrt v.meanSq⟩)
    else (v, acc.2)

/-- The loop of `process` over the samples from `atSample` on. -/
def processFrom (sqrt : K → K) :
    EnergyVad K × Transition K → List K → ℤ → EnergyVad K × Transition K
  | acc, [], _ => acc
  | acc, s :: samples, atSample =>
    processFrom sqrt (processSample sqrt acc s atSample) samples (atSample + 1)

/-- `process`. -/
def process (sqrt : K → K) (v : EnergyVad K) (samples : List K) (startSample : ℤ) :
    EnergyVad K × Transition K :=
  processFrom sqrt (v, ⟨.unknown, 0, 0⟩) samples startSample

/-- The detector after a sample. -/
def next (sqrt : K → K) (v : EnergyVad K) (s : K) : EnergyVad K :=
  (processSample sqrt (v, ⟨.unknown, 0, 0⟩) s 0).1

end EnergyVad

/-- What a session keeps for its detector, and the events that it has delivered. -/
structure VadDriver (K : Type*) where
  energyVad : EnergyVad K
  totalPcmSeen : ℤ
  events : List (VadEvent K)

namespace VadDriver

/-- `stream_drive_energy_vad`, with the sum of the samples of the feed behind it. A feed without
samples returns before. -/
def drive (sqrt : K → K) (sampleRate : ℤ) (d : VadDriver K) (samples : List K) : VadDriver K :=
  if samples = [] then d
  else
    let r := d.energyVad.process sqrt samples d.totalPcmSeen
    { energyVad := r.1
      totalPcmSeen := d.totalPcmSeen + samples.length
      events :=
        if r.2.toState = .unknown then d.events
        else
          d.events ++ [⟨((r.2.atSample : ℤ) : K) / (sampleRate : K), -1,
            if r.2.toState = .speaking then .speaking else .silent, r.2.rms⟩] }

/-- The events of a stream whose feeds have these samples. -/
def driven (sqrt : K → K) (sampleRate : ℤ) (v : EnergyVad K) (feeds : List (List K)) :
    VadDriver K :=
  feeds.foldl (drive sqrt sampleRate) ⟨v, 0, []⟩

end VadDriver

namespace EnergyVad

variable {sqrt : K → K} {v : EnergyVad K}

omit [Zero K] [Div K] [IntCast K] [LT K] [DecidableLT K] in
@[simp] theorem push_state (s : K) : (v.push s).state = v.state := by
  rw [push]
  split_ifs <;> rfl

variable (sqrt) in
/-- What a sample does: nothing is reported, or a change to the state that is reported. -/
theorem processSample_cases (acc : EnergyVad K × Transition K) (s : K) (atSample : ℤ) :
    (processSample sqrt acc s atSample).1 = acc.1.next sqrt s ∧
      (((acc.1.next sqrt s).state = acc.1.state ∧ (processSample sqrt acc s atSample).2 = acc.2) ∨
        ((acc.1.next sqrt s).state ≠ acc.1.state ∧ (acc.1.next sqrt s).state ≠ .unknown ∧
          (processSample sqrt acc s atSample).2.toState = (acc.1.next sqrt s).state)) := by
  rw [next, processSample, processSample]
  simp only [push_state]
  split_ifs with hfill habove hstate hsilent
  · exact ⟨rfl, .inl ⟨push_state s, rfl⟩⟩
  · exact ⟨rfl, .inr ⟨fun h => hstate h.symm, nofun, rfl⟩⟩
  · exact ⟨rfl, .inl ⟨rfl, rfl⟩⟩
  · exact ⟨rfl, .inr ⟨fun h => hsilent.1 h.symm, nofun, rfl⟩⟩
  · exact ⟨rfl, .inl ⟨rfl, rfl⟩⟩

variable (sqrt) in
/-- **What a block reports**: the last change, or what was reported before. -/
theorem processFrom_eq (acc : EnergyVad K × Transition K) (samples : List K) (atSample : ℤ) :
    (processFrom sqrt acc samples atSample).1 = samples.foldl (next sqrt) acc.1 ∧
      (processFrom sqrt acc samples atSample).2.toState =
        (changes (next sqrt) state acc.1 samples).getLastD acc.2.toState := by
  induction samples generalizing acc atSample with
  | nil => exact ⟨rfl, rfl⟩
  | cons s samples ih =>
    obtain ⟨hnext, hreport⟩ := processSample_cases sqrt acc s atSample
    obtain ⟨hfold, hlast⟩ := ih (processSample sqrt acc s atSample) (atSample + 1)
    rw [processFrom, List.foldl_cons, changes, ← hnext]
    refine ⟨hfold, ?_⟩
    rw [hlast, hnext]
    rcases hreport with ⟨hsame, hout⟩ | ⟨hne, -, hout⟩
    · rw [if_pos hsame, hout]
    · rw [if_neg hne, hout, List.getLastD_cons]

/-- The detector never forgets that it has decided. -/
theorem ne_unknown_of_mem_changes {samples : List K} {state : VadState}
    (h : state ∈ changes (next sqrt) EnergyVad.state v samples) : state ≠ .unknown := by
  induction samples generalizing v with
  | nil => cases h
  | cons s samples ih =>
    rw [changes] at h
    split_ifs at h with hsame
    · exact ih h
    · rcases List.mem_cons.1 h with rfl | hmem
      · rcases (processSample_cases sqrt (v, ⟨.unknown, 0, 0⟩) s 0).2 with
          ⟨heq, -⟩ | ⟨-, hne, -⟩
        · exact absurd heq hsame
        · exact hne
      · exact ih hmem

theorem ne_unknown_of_mem_reports {feeds : List (List K)} {state : VadState}
    (h : state ∈ reports (next sqrt) EnergyVad.state v feeds) : state ≠ .unknown := by
  induction feeds generalizing v with
  | nil => cases h
  | cons samples feeds ih =>
    rcases List.mem_append.1 h with hhere | hrest
    · exact ne_unknown_of_mem_changes (List.mem_of_getLast? (Option.mem_toList.1 hhere))
    · exact ih hrest

/-- An even number of changes leads back, once the detector has decided. -/
theorem state_foldl_eq_iff {samples : List K} (h : v.state ≠ .unknown) :
    (samples.foldl (next sqrt) v).state = v.state ↔
      (changes (next sqrt) state v samples).length % 2 = 0 := by
  rw [← getLastD_changes (next sqrt) state v samples]
  refine getLastD_eq_iff_even (isChain_changes samples) ?_
  have hdecided : ∀ x ∈ v.state :: changes (next sqrt) state v samples, x ≠ .unknown := by
    intro x hx
    rcases List.mem_cons.1 hx with rfl | hmem
    · exact h
    · exact ne_unknown_of_mem_changes hmem
  intro x hx y hy z hz hxy hyz
  have hx' := hdecided x hx
  have hy' := hdecided y hy
  have hz' := hdecided z hz
  cases x <;> cases y <;> cases z <;> first | rfl | contradiction

end EnergyVad

namespace VadDriver

open EnergyVad

variable {sqrt : K → K} {sampleRate : ℤ}

variable (sqrt sampleRate) in
/-- A feed delivers its last change, if it has one. -/
theorem drive_eq (d : VadDriver K) (samples : List K) :
    (d.drive sqrt sampleRate samples).energyVad = samples.foldl (next sqrt) d.energyVad ∧
      (d.drive sqrt sampleRate samples).events.map VadEvent.vadState =
        d.events.map VadEvent.vadState ++
          (changes (next sqrt) state d.energyVad samples).getLast?.toList := by
  rw [drive]
  split_ifs with hnil
  · rw [hnil]
    exact ⟨rfl, (List.append_nil _).symm⟩
  · obtain ⟨hvad, hlast⟩ :=
      processFrom_eq sqrt (d.energyVad, ⟨.unknown, 0, 0⟩) samples d.totalPcmSeen
    rw [← process] at hvad hlast
    refine ⟨hvad, ?_⟩
    simp only
    by_cases hchanges : changes (next sqrt) state d.energyVad samples = []
    · rw [hchanges, List.getLastD_nil] at hlast
      rw [hchanges, if_pos hlast]
      exact (List.append_nil _).symm
    · have hsome := getLast?_changes hchanges
      have hne := ne_unknown_of_mem_changes (List.mem_of_getLast? hsome)
      rw [List.getLastD_eq_getLast?, hsome, Option.getD_some] at hlast
      rw [if_neg (by rwa [hlast]), List.map_append, hsome, hlast, List.map_singleton]
      congr 2
      split_ifs with hspeaking
      · exact hspeaking.symm
      · cases hstate : (samples.foldl (next sqrt) d.energyVad).state with
        | unknown => exact absurd hstate hne
        | speaking => exact absurd hstate hspeaking
        | silent => rfl

variable (sqrt sampleRate) in
theorem foldl_drive_eq (d : VadDriver K) (feeds : List (List K)) :
    (feeds.foldl (drive sqrt sampleRate) d).energyVad =
        feeds.flatten.foldl (next sqrt) d.energyVad ∧
      (feeds.foldl (drive sqrt sampleRate) d).events.map VadEvent.vadState =
        d.events.map VadEvent.vadState ++ reports (next sqrt) state d.energyVad feeds := by
  induction feeds generalizing d with
  | nil => exact ⟨rfl, (List.append_nil _).symm⟩
  | cons samples feeds ih =>
    obtain ⟨hvad, hevents⟩ := drive_eq sqrt sampleRate d samples
    obtain ⟨hvad', hevents'⟩ := ih (d.drive sqrt sampleRate samples)
    rw [List.foldl_cons, List.flatten_cons, List.foldl_append, hvad', hevents', hvad, hevents,
      reports, List.append_assoc]
    exact ⟨rfl, rfl⟩

/-- **The events of a stream.** A feed delivers the last change of its samples, and nothing if it has
none; the first event leaves the initial state, and the last one has the state of the detector. The
events alternate iff no feed behind the first change has an even number of changes. -/
theorem events_sound (sqrt : K → K) (sampleRate windowMs hangoverMs : ℤ) (threshRms : K)
    (feeds : List (List K)) :
    let v := EnergyVad.init sampleRate windowMs hangoverMs threshRms
    let d := driven sqrt sampleRate v feeds
    d.events.map VadEvent.vadState = reports (next sqrt) state v feeds ∧
      (∀ x ∈ d.events, x.vadState ≠ .unknown) ∧
      (d.events.map VadEvent.vadState).getLastD .unknown = d.energyVad.state ∧
      ((.unknown :: d.events.map VadEvent.vadState).IsChain (· ≠ ·) ↔
        ∀ front samples back, feeds = front ++ samples :: back →
          (front.flatten.foldl (next sqrt) v).state ≠ .unknown →
            changes (next sqrt) state (front.flatten.foldl (next sqrt) v) samples = [] ∨
              (changes (next sqrt) state (front.flatten.foldl (next sqrt) v) samples).length % 2 =
                1) := by
  intro v d
  obtain ⟨hvad, hevents⟩ := foldl_drive_eq sqrt sampleRate ⟨v, 0, []⟩ feeds
  rw [List.map_nil, List.nil_append] at hevents
  rw [← driven] at hvad hevents
  have hevents : d.events.map VadEvent.vadState = reports (next sqrt) state v feeds := hevents
  have hvad : d.energyVad = feeds.flatten.foldl (next sqrt) v := hvad
  refine ⟨hevents, ?_, ?_, ?_⟩
  · intro x hx
    have hmem : x.vadState ∈ reports (next sqrt) state v feeds := by
      rw [← hevents]
      exact List.mem_map_of_mem hx
    exact ne_unknown_of_mem_reports hmem
  · rw [hevents, hvad]
    exact getLastD_reports feeds
  · rw [hevents]
    show (v.state :: reports (next sqrt) state v feeds).IsChain (· ≠ ·) ↔ _
    refine (isChain_reports_iff feeds).trans ?_
    refine forall_congr' fun front => forall_congr' fun samples => forall_congr' fun back =>
      imp_congr_right fun _ => ?_
    generalize front.flatten.foldl (next sqrt) v = w
    constructor
    · intro h hw
      by_cases hnil : changes (next sqrt) state w samples = []
      · exact .inl hnil
      · have hne := h hnil
        rw [ne_eq, state_foldl_eq_iff hw] at hne
        exact .inr (by omega)
    · intro h hnil
      by_cases hw : w.state = .unknown
      · rw [hw]
        exact ne_unknown_of_mem_changes (List.mem_of_getLast? (getLast?_changes hnil))
      · rw [ne_eq, state_foldl_eq_iff hw]
        rcases h hw with heq | hodd
        · exact absurd heq hnil
        · omega

end VadDriver

end Detector

/-- **Forth and back in one feed**: the event repeats the one before. -/
theorem not_forall_alternate :
    ¬ ∀ (sqrt : ℚ → ℚ) (sampleRate windowMs hangoverMs : ℤ) (threshRms : ℚ) (feeds : List (List ℚ)),
      (VadState.unknown :: (VadDriver.driven sqrt sampleRate
        (EnergyVad.init sampleRate windowMs hangoverMs threshRms) feeds).events.map
          VadEvent.vadState).IsChain (· ≠ ·) := by
  intro h
  have hstates : (VadDriver.driven id 1000 (EnergyVad.init 1000 1 0 (1 / 2 : ℚ))
      [[1], [0, 1]]).events.map VadEvent.vadState = [.speaking, .speaking] := by
    decide +kernel
  have hchain := h id 1000 1 0 (1 / 2) [[1], [0, 1]]
  rw [hstates] at hchain
  exact absurd hchain (by decide)

end Parakeet

end WhisperCpp
