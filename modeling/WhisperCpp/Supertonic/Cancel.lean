import Mathlib.Data.List.Range
import WhisperCpp.Library.Machine

/-!
# Cancelling

`Engine::cancel` sets a flag that `synthesize` reads between its stages. Nothing sets it back, so that
what is cancelled is not only the call in flight but every later one.

## Main definitions

* `Stages`, `begin`, `next` — one call, from one read of the flag to the next
* `Engine`, `Engine.step` — the calls and cancels on one engine
* `alone` — the call when there is no flag

## Main results

* `left_next_lt` — a call comes to its end
* `Engine.Ok.step` — the invariant
* `result_eq_alone_iff` — one call
* `run_alone` — an engine that is never cancelled returns what the stages do
* `cancelsOneCall_iff` — when the calls that are not cancelled do
-/

namespace WhisperCpp

namespace Supertonic

open Machine

/-! ### One call -/

/-- What `synthesize` does between its reads of the flag. -/
structure Stages (Text Job Result : Type) where
  /-- The options, the voice and the ids of the text. -/
  prepare : Text → Except String Job
  /-- The duration, the lengths and the noise. -/
  duration : Job → Except String Job
  /-- The text encoder and the mask. -/
  encode : Job → Except String Job
  /-- One step of the vector estimator. -/
  vectorStep : ℕ → Job → Except String Job
  /-- The vocoder and the cut to length. -/
  vocode : Job → Except String Result
  /-- The number of steps. -/
  steps : ℕ

/-- Where the flag is read. -/
inductive Check where
  | duration
  | encoder
  | vector (step : ℕ)
  | vocoder
  deriving DecidableEq

/-- What is thrown. -/
inductive Thrown where
  | failed (what : String)
  | cancelled (check : Check)
  deriving DecidableEq

/-- The texts of the errors. -/
def Thrown.what : Thrown → String
  | .failed what => what
  | .cancelled .duration => "Supertonic Engine: cancelled before duration"
  | .cancelled .encoder => "Supertonic Engine: cancelled before text encoder"
  | .cancelled (.vector step) => "Supertonic Engine: cancelled at vector step " ++ toString step
  | .cancelled .vocoder => "Supertonic Engine: cancelled before vocoder"

/-- How far a call is: in front of a read, or over. -/
inductive Point (Job Result : Type) where
  | before (check : Check) (job : Job)
  | finished (result : Except Thrown Result)

section Call

variable {Text Job Result : Type} (S : Stages Text Job Result)

/-- A stage that fails ends the call. -/
def afterStage {α : Type} (r : Except String α) (go : α → Point Job Result) : Point Job Result :=
  match r with
  | .error what => .finished (.error (.failed what))
  | .ok a => go a

/-- The call up to the first read. -/
def begin (text : Text) : Point Job Result := afterStage (S.prepare text) (.before .duration)

/-- The read in front of the vector step `step`, or that behind the loop. -/
def beforeStep (step : ℕ) (job : Job) : Point Job Result :=
  if step < S.steps then .before (.vector step) job else .before .vocoder job

/-- The stage behind a read of the flag. -/
def stage : Check → Job → Point Job Result
  | .duration, job => afterStage (S.duration job) (.before .encoder)
  | .encoder, job => afterStage (S.encode job) (beforeStep S 0)
  | .vector step, job => afterStage (S.vectorStep step job) (beforeStep S (step + 1))
  | .vocoder, job => afterStage (S.vocode job) fun result => .finished (.ok result)

/-- One read of the flag, and what comes behind it. -/
def next (cancelFlag : Bool) : Point Job Result → Point Job Result
  | .finished result => .finished result
  | .before check job => if cancelFlag then .finished (.error (.cancelled check)) else stage S check job

/-- What a stage returns, as what the call throws. -/
def thrown {α : Type} : Except String α → Except Thrown α := Except.mapError .failed

/-- The loop of the vector estimator, from a step on. -/
def vectorLoop : ℕ → ℕ → Job → Except Thrown Job
  | 0, _, job => .ok job
  | left + 1, step, job => do
    let job ← thrown (S.vectorStep step job)
    vectorLoop left (step + 1) job

/-- **The call without the flag.** -/
def alone (text : Text) : Except Thrown Result := do
  let job ← thrown (S.prepare text)
  let job ← thrown (S.duration job)
  let job ← thrown (S.encode job)
  let job ← vectorLoop S S.steps 0 job
  thrown (S.vocode job)

/-- What is left of the call, without the flag. -/
def finish : Point Job Result → Except Thrown Result
  | .finished result => result
  | .before .duration job => do
    let job ← thrown (S.duration job)
    let job ← thrown (S.encode job)
    let job ← vectorLoop S S.steps 0 job
    thrown (S.vocode job)
  | .before .encoder job => do
    let job ← thrown (S.encode job)
    let job ← vectorLoop S S.steps 0 job
    thrown (S.vocode job)
  | .before (.vector step) job => do
    let job ← vectorLoop S (S.steps - step) step job
    thrown (S.vocode job)
  | .before .vocoder job => thrown (S.vocode job)

/-- **A stage** does not change what comes out. -/
theorem finish_afterStage {α : Type} (r : Except String α) (go : α → Point Job Result) :
    finish S (afterStage r go) = thrown r >>= fun a => finish S (go a) := by
  cases r <;> rfl

theorem finish_begin (text : Text) : finish S (begin S text) = alone S text := by
  rw [begin, finish_afterStage]
  rfl

theorem finish_beforeStep (step : ℕ) (job : Job) : finish S (beforeStep S step job) =
    vectorLoop S (S.steps - step) step job >>= fun job => thrown (S.vocode job) := by
  rw [beforeStep]
  split_ifs with hstep
  · rfl
  · rw [Nat.sub_eq_zero_of_le (Nat.not_lt.mp hstep)]
    rfl

theorem finish_stage {check : Check} (job : Job) (h : ∀ i, check = .vector i → i < S.steps) :
    finish S (stage S check job) = finish S (.before check job) := by
  cases check with
  | duration =>
    rw [stage, finish_afterStage]
    rfl
  | encoder =>
    rw [stage, finish_afterStage]
    refine congrArg _ (funext fun job => ?_)
    rw [finish_beforeStep, Nat.sub_zero]
  | vector i =>
    have hi := h i rfl
    rw [stage, finish_afterStage, finish, show S.steps - i = (S.steps - (i + 1)) + 1 by omega,
      vectorLoop, bind_assoc]
    refine congrArg _ (funext fun job => ?_)
    rw [finish_beforeStep]
  | vocoder =>
    rw [stage, finish_afterStage, show finish S (.before .vocoder job) = thrown (S.vocode job) from rfl]
    cases S.vocode job <;> rfl

/-- The step that is read for is one of the loop. -/
def Placed (pc : Point Job Result) : Prop := ∀ i job, pc = .before (.vector i) job → i < S.steps

theorem placed_afterStage {α : Type} {r : Except String α} {go : α → Point Job Result}
    (h : ∀ a, Placed S (go a)) : Placed S (afterStage r go) := by
  cases r with
  | error what => nofun
  | ok a => exact h a

theorem placed_beforeStep (step : ℕ) (job : Job) :
    Placed S (beforeStep S step job : Point Job Result) := by
  intro i job' h
  rw [beforeStep] at h
  split_ifs at h with hstep
  · cases h
    exact hstep
  · cases h

theorem placed_begin (text : Text) : Placed S (begin S text) :=
  placed_afterStage S fun _ => nofun

theorem placed_next (cancelFlag : Bool) {pc : Point Job Result} (h : Placed S pc) :
    Placed S (next S cancelFlag pc) := by
  cases pc with
  | finished result => exact h
  | before check job =>
    rw [next]
    split_ifs
    · nofun
    · cases check with
      | duration => exact placed_afterStage S fun _ => nofun
      | encoder => exact placed_afterStage S fun _ => placed_beforeStep S 0 _
      | vector i => exact placed_afterStage S fun _ => placed_beforeStep S (i + 1) _
      | vocoder => exact placed_afterStage S fun _ => nofun

/-- **A read of a flag that is not set** does not change what comes out. -/
theorem finish_next {pc : Point Job Result} (h : Placed S pc) :
    finish S (next S false pc) = finish S pc := by
  cases pc with
  | finished result => rfl
  | before check job =>
    refine finish_stage S job fun i hi => h i job ?_
    rw [hi]

/-- How many reads there are at most. -/
def left : Point Job Result → ℕ
  | .finished _ => 0
  | .before .duration _ => S.steps + 3
  | .before .encoder _ => S.steps + 2
  | .before (.vector step) _ => S.steps - step + 1
  | .before .vocoder _ => 1

theorem left_afterStage_le {α : Type} {r : Except String α} {go : α → Point Job Result} {m : ℕ}
    (h : ∀ a, left S (go a) ≤ m) : left S (afterStage r go) ≤ m := by
  cases r with
  | error what => exact Nat.zero_le m
  | ok a => exact h a

theorem left_beforeStep (step : ℕ) (job : Job) :
    left S (beforeStep S step job : Point Job Result) = S.steps - step + 1 := by
  rw [beforeStep]
  split_ifs with hstep
  · rfl
  · rw [Nat.sub_eq_zero_of_le (Nat.not_lt.mp hstep)]
    rfl

/-- **Every read brings a call closer to its end**, whatever the flag is. -/
theorem left_next_lt (cancelFlag : Bool) {check : Check} {job : Job}
    (h : Placed S (.before check job : Point Job Result)) :
    left S (next S cancelFlag (.before check job)) < left S (.before check job : Point Job Result) := by
  have hpos : 0 < left S (.before check job : Point Job Result) := by
    cases check <;> exact Nat.succ_pos _
  rw [next]
  split_ifs
  · exact hpos
  · cases check with
    | duration => exact Nat.lt_succ_of_le (left_afterStage_le S fun _ => le_rfl)
    | encoder =>
      exact Nat.lt_succ_of_le (left_afterStage_le S fun _ => (left_beforeStep S 0 _).le)
    | vector i =>
      have hi := h i job rfl
      refine Nat.lt_succ_of_le (left_afterStage_le S fun _ => ?_)
      rw [left_beforeStep]
      omega
    | vocoder => exact Nat.lt_succ_of_le (left_afterStage_le S fun _ => le_rfl)

/-- Without the flag nothing is cancelled. -/
theorem alone_ne_cancelled (text : Text) (check : Check) :
    alone S text ≠ .error (.cancelled check) := by
  have hthrown : ∀ {α β : Type} (r : Except String α) (go : α → Except Thrown β),
      (∀ a, go a ≠ .error (.cancelled check)) → (thrown r >>= go) ≠ .error (.cancelled check) := by
    intro α β r go hgo
    cases r with
    | error what => nofun
    | ok a => exact hgo a
  have hloop : ∀ {β : Type} (left step : ℕ) (job : Job) (go : Job → Except Thrown β),
      (∀ a, go a ≠ .error (.cancelled check)) →
        (vectorLoop S left step job >>= go) ≠ .error (.cancelled check) := by
    intro β left
    induction left with
    | zero => exact fun _ job _ hgo => hgo job
    | succ left ih =>
      intro step job go hgo
      rw [vectorLoop, bind_assoc]
      exact hthrown _ _ fun job => ih (step + 1) job go hgo
  refine hthrown _ _ fun job => hthrown _ _ fun job => hthrown _ _ fun job => ?_
  refine hloop _ _ _ _ fun job => ?_
  cases S.vocode job <;> nofun

end Call

/-! ### The engine -/

/-- A call, and whether there was a cancel before it and one during it. -/
structure Call (Text Job Result : Type) where
  text : Text
  pc : Point Job Result
  cancelledBefore : Bool
  cancelledDuring : Bool

/-- The flag, the call in flight and the calls that are over. Whether there ever was a cancel is not in
the source. -/
structure Engine (Text Job Result : Type) where
  cancelFlag : Bool := false
  inFlight : Option (Call Text Job Result) := none
  returned : List (Call Text Job Result × Except Thrown Result) := []
  everCancelled : Bool := false

/-- What happens to an engine: a call begins, the call in flight comes to its next read of the flag and
through the stage behind it or returns, and somebody cancels. -/
inductive Event (Text : Type) where
  | synthesize (text : Text)
  | proceed
  | cancel

section Engine

variable {Text Job Result : Type} (S : Stages Text Job Result)

/-- One event. There is no second call while one is in flight. -/
def Engine.step : Event Text → Engine Text Job Result → Engine Text Job Result
  | .synthesize text, e =>
    match e.inFlight with
    | some _ => e
    | none =>
      { e with
        inFlight := some {
          text, pc := begin S text, cancelledBefore := e.everCancelled, cancelledDuring := false } }
  | .proceed, e =>
    match e.inFlight with
    | none => e
    | some c =>
      match c.pc with
      | .finished result => { e with inFlight := none, returned := (c, result) :: e.returned }
      | .before check job =>
        { e with inFlight := some { c with pc := next S e.cancelFlag (.before check job) } }
  | .cancel, e =>
    { e with
      cancelFlag := true
      everCancelled := true
      inFlight := e.inFlight.map fun c => { c with cancelledDuring := true } }

/-- How far a call is that nobody has cancelled: as far as it would be without the flag, or stopped at
the first read if the flag was set before. -/
def Call.Ok (c : Call Text Job Result) : Prop :=
  Placed S c.pc ∧ (c.cancelledDuring = false →
    if c.cancelledBefore then c.pc = begin S c.text ∨
      (∃ job, S.prepare c.text = .ok job) ∧ c.pc = .finished (.error (.cancelled .duration))
    else finish S c.pc = alone S c.text)

/-- **The invariant.** -/
structure Engine.Ok (e : Engine Text Job Result) : Prop where
  flag : e.cancelFlag = e.everCancelled
  inFlight : ∀ c ∈ e.inFlight, c.Ok S ∧ e.everCancelled = (c.cancelledBefore || c.cancelledDuring)
  returned : ∀ cr ∈ e.returned, cr.1.Ok S ∧ cr.1.pc = .finished cr.2

theorem ok_init : (({} : Engine Text Job Result)).Ok S where
  flag := rfl
  inFlight := nofun
  returned := nofun

/-- The call that begins. -/
theorem call_ok_begin (text : Text) (before : Bool) :
    Call.Ok S ⟨text, begin S text, before, false⟩ := by
  refine ⟨placed_begin S text, fun _ => ?_⟩
  cases before with
  | false => exact finish_begin S text
  | true => exact .inl rfl

/-- The call in flight reads the flag. -/
theorem call_ok_next {c : Call Text Job Result} (h : c.Ok S) {check : Check} {job : Job}
    (hpc : c.pc = .before check job) :
    Call.Ok S { c with pc := next S (c.cancelledBefore || c.cancelledDuring) (.before check job) } := by
  obtain ⟨hplaced, hok⟩ := h
  rw [hpc] at hplaced
  refine ⟨placed_next S _ hplaced, fun hduring => ?_⟩
  simp only at hduring ⊢
  have hc := hok hduring
  rw [hpc] at hc
  rw [hduring, Bool.or_false]
  cases hbefore : c.cancelledBefore with
  | false =>
    rw [hbefore] at hc
    exact (finish_next S hplaced).trans hc
  | true =>
    rw [hbefore] at hc
    rcases hc with hc | ⟨-, hc⟩
    · -- in front of the first read, and the flag is set
      rw [begin] at hc
      cases hprep : S.prepare c.text with
      | error what =>
        rw [hprep] at hc
        cases hc
      | ok prepared =>
        rw [hprep] at hc
        cases hc
        exact .inr ⟨⟨_, rfl⟩, rfl⟩
    · cases hc

/-- **Every event keeps the invariant.** -/
theorem Engine.Ok.step {e : Engine Text Job Result} (h : e.Ok S) (x : Event Text) :
    (e.step S x).Ok S := by
  cases x with
  | synthesize text =>
    rw [Engine.step]
    split
    · exact h
    · refine ⟨h.flag, ?_, h.returned⟩
      rintro c hc
      cases hc
      exact ⟨call_ok_begin S text _, (Bool.or_false _).symm⟩
  | proceed =>
    rw [Engine.step]
    split
    · exact h
    · rename_i c hc
      obtain ⟨hok, hever⟩ := h.inFlight c hc
      split
      · rename_i result hpc
        refine ⟨h.flag, nofun, fun cr hcr => ?_⟩
        rcases List.mem_cons.mp hcr with rfl | hcr
        · exact ⟨hok, hpc⟩
        · exact h.returned cr hcr
      · rename_i check job hpc
        refine ⟨h.flag, ?_, h.returned⟩
        rintro c' hc'
        cases hc'
        have hnext := call_ok_next S hok hpc
        rw [← hever, ← h.flag] at hnext
        exact ⟨hnext, hever⟩
  | cancel =>
    refine ⟨rfl, fun c hc => ?_, h.returned⟩
    obtain ⟨c', hc', rfl⟩ := Option.mem_map.mp hc
    exact ⟨⟨(h.inFlight c' hc').1.1, nofun⟩, (Bool.or_true _).symm⟩

theorem run_ok (xs : ℕ → Event Text) (n : ℕ) :
    (Machine.run (Engine.step S) xs {} n).Ok S := by
  refine run_invariant (F := fun _ _ => True) (fun e x _ he => ?_) (ok_init S) fun _ _ => trivial
  exact he.step S x

/-! ### Whole histories -/

/-- A call that returned without a cancel during it. -/
theorem result_eq_alone_iff {e : Engine Text Job Result} (h : e.Ok S)
    {cr : Call Text Job Result × Except Thrown Result} (hcr : cr ∈ e.returned)
    (hduring : cr.1.cancelledDuring = false) :
    cr.2 = alone S cr.1.text ↔
      cr.1.cancelledBefore = false ∨ ∃ what, S.prepare cr.1.text = .error what := by
  obtain ⟨⟨-, hok⟩, hpc⟩ := h.returned cr hcr
  have hc := hok hduring
  rw [hpc] at hc
  cases hbefore : cr.1.cancelledBefore with
  | false =>
    rw [hbefore] at hc
    exact iff_of_true hc (.inl rfl)
  | true =>
    rw [hbefore] at hc
    rcases hc with hc | ⟨⟨job, hprep⟩, hc⟩
    · -- over before the first read
      cases hprep : S.prepare cr.1.text with
      | ok job =>
        rw [begin, hprep] at hc
        cases hc
      | error what =>
        refine iff_of_true ?_ (.inr ⟨what, rfl⟩)
        rw [← finish_begin, ← hc]
        rfl
    · rw [Point.finished.injEq] at hc
      rw [hc]
      refine iff_of_false (fun heq => alone_ne_cancelled S cr.1.text .duration heq.symm) ?_
      rintro (hfalse | ⟨what, herr⟩)
      · cases hfalse
      · rw [hprep] at herr
        cases herr

/-- Whether there ever was a cancel. -/
theorem everCancelled_run_iff (xs : ℕ → Event Text) (n : ℕ) :
    (Machine.run (Engine.step S) xs {} n).everCancelled = true ↔ ∃ m < n, xs m = .cancel := by
  induction n with
  | zero => simp [Machine.run]
  | succ n ih =>
    have hstep : ∀ (e : Engine Text Job Result) (x : Event Text),
        (e.step S x).everCancelled = true ↔ e.everCancelled = true ∨ x = .cancel := by
      intro e x
      cases x with
      | synthesize text =>
        rw [Engine.step]
        split <;> simp
      | proceed =>
        rw [Engine.step]
        split
        · simp
        · split <;> simp
      | cancel => simp [Engine.step]
    rw [Machine.run, hstep, ih]
    constructor
    · rintro (⟨m, hm, hx⟩ | hx)
      · exact ⟨m, Nat.lt_succ_of_lt hm, hx⟩
      · exact ⟨n, Nat.lt_succ_self n, hx⟩
    · rintro ⟨m, hm, hx⟩
      rcases Nat.lt_succ_iff_lt_or_eq.mp hm with hlt | rfl
      · exact .inl ⟨m, hlt, hx⟩
      · exact .inr hx

/-- Every call that nobody cancels returns what it does on an engine that is never cancelled. -/
def CancelsOneCall (e : Engine Text Job Result) : Prop :=
  ∀ cr ∈ e.returned, cr.1.cancelledDuring = false → cr.2 = alone S cr.1.text

/-- No call that nobody cancels has a cancel before it, unless it fails before the first read. -/
def CancelsLast (e : Engine Text Job Result) : Prop :=
  ∀ cr ∈ e.returned, cr.1.cancelledDuring = false →
    cr.1.cancelledBefore = false ∨ ∃ what, S.prepare cr.1.text = .error what

/-- What holds while there is no cancel. -/
structure NeverCancelled (e : Engine Text Job Result) : Prop where
  ever : e.everCancelled = false
  inFlight : ∀ c ∈ e.inFlight, c.cancelledBefore = false ∧ c.cancelledDuring = false
  returned : ∀ cr ∈ e.returned, cr.1.cancelledBefore = false ∧ cr.1.cancelledDuring = false

theorem NeverCancelled.step {e : Engine Text Job Result} (h : NeverCancelled e) {x : Event Text}
    (hx : x ≠ .cancel) : NeverCancelled (e.step S x) := by
  cases x with
  | synthesize text =>
    rw [Engine.step]
    split
    · exact h
    · refine ⟨h.ever, ?_, h.returned⟩
      rintro c hc
      cases hc
      exact ⟨h.ever, rfl⟩
  | proceed =>
    rw [Engine.step]
    split
    · exact h
    · rename_i c hc
      have hflags := h.inFlight c hc
      split
      · refine ⟨h.ever, nofun, fun cr hcr => ?_⟩
        rcases List.mem_cons.mp hcr with rfl | hcr
        · exact hflags
        · exact h.returned cr hcr
      · refine ⟨h.ever, ?_, h.returned⟩
        rintro c' hc'
        cases hc'
        exact hflags
  | cancel => exact absurd rfl hx

/-- **On an engine that is never cancelled** every call returns what its stages do. -/
theorem run_alone (xs : ℕ → Event Text) (hxs : ∀ n, xs n ≠ .cancel) (n : ℕ) :
    ∀ cr ∈ (Machine.run (Engine.step S) xs {} n).returned, cr.2 = alone S cr.1.text := by
  have hnever : NeverCancelled (Machine.run (Engine.step S) xs {} n) := by
    refine run_invariant (fun e x hx he => he.step S hx) ⟨rfl, nofun, nofun⟩ fun m _ => hxs m
  intro cr hcr
  obtain ⟨hbefore, hduring⟩ := hnever.returned cr hcr
  exact (result_eq_alone_iff S (run_ok S xs n) hcr hduring).mpr (.inl hbefore)

/-- **In every history** the calls that nobody cancels are those of an engine that is never cancelled if
there was no cancel before them, or if they fail before they read the flag. -/
theorem cancelsOneCall_iff (xs : ℕ → Event Text) (n : ℕ) :
    CancelsOneCall S (Machine.run (Engine.step S) xs {} n) ↔
      CancelsLast S (Machine.run (Engine.step S) xs {} n) :=
  forall₂_congr fun _ hcr => forall_congr' fun hduring =>
    result_eq_alone_iff S (run_ok S xs n) hcr hduring

end Engine

/-- A cancel when no call is in flight, and a call behind it. -/
def lateEvents : ℕ → Event Unit
  | 0 => .cancel
  | 1 => .synthesize ()
  | _ => .proceed

/-- The call that begins behind a cancel is cancelled. -/
theorem not_forall_cancelsOneCall :
    ¬ ∀ (S : Stages Unit Unit Unit) (xs : ℕ → Event Unit) (n : ℕ),
      CancelsOneCall S (Machine.run (Engine.step S) xs {} n) := by
  intro h
  let S : Stages Unit Unit Unit :=
    { prepare := fun _ => .ok (), duration := fun _ => .ok (), encode := fun _ => .ok ()
      vectorStep := fun _ _ => .ok (), vocode := fun _ => .ok (), steps := 1 }
  have hcall := h S lateEvents 4 (⟨(), .finished (.error (.cancelled .duration)), true, false⟩, _)
    List.mem_cons_self rfl
  cases hcall

end Supertonic

end WhisperCpp
