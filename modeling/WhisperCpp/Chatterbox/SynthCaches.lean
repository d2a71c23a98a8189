import WhisperCpp.Chatterbox.ModelCache
import WhisperCpp.Chatterbox.S3gen
import WhisperCpp.Library.KeyedSlot
import Mathlib.Algebra.Group.Nat.Defs

/-!
# The graph caches of S3Gen

Every stage of a synthesis keeps its last graph for the whole process, with a key of lengths. A graph
is known by the model and the call that it was built for; what it computes is an arbitrary function
of these. The key of the CFM estimator leaves `cfm_f16_kv_attn` out.

## Main definitions

* `StageCall`, `SynthCall.stageCalls` — the stages that a synthesis runs, with their build arguments
* `SynthCaches.run` — one stage, with its cache
* `SynthProcess.step` — a process that synthesizes, loads and unloads
* `Evaluation.Transparent`, `Evaluation.InputsSet` — what is expected of an evaluation

## Main results

* `SynthCaches.BuiltFor.run` — cached graphs are for the model and the lengths of their keys
* `synthCaches_transparent` — a synthesis of any run evaluates what it would build, exactly if the
  cached estimator does not differ in `cfm_f16_kv_attn` alone
-/

namespace WhisperCpp

namespace Chatterbox

/-! ### The stages of a synthesis -/

/-- A stage with its build arguments. -/
inductive StageCall
  | encoder (T : ℕ)
  | cfm (b2 : Bool) (T : ℕ) (f16KvAttn : Bool)
  | f0 (tMel : ℕ)
  | stft (tSrc : ℕ)
  | hift (tMel tStft : ℕ)
  deriving DecidableEq

/-- What the file says of a model, and its backend. -/
structure ModelInfo where
  meanflow : Bool
  /-- `cfg_rate != 0`. -/
  cfg : Bool
  nTimesteps : ℕ
  /-- `backend_is_cpu`. -/
  cpu : Bool

/-- A call of `s3gen_synthesize_to_wav`, with what the environment decides: whether the model can be
loaded, and what the polls of the cancel flag give. -/
structure SynthCall (Path : Type*) where
  path : Path
  gpu : ℤ
  loadOk : Bool
  nTotal : ℕ
  melLen1 : ℕ
  finalize : Bool
  /-- There is no `cfm_z0_override`, or it has the right size. -/
  z0Ok : Bool
  cfmSteps : ℤ
  f16KvAttn : Bool
  skipMelFrames : ℤ
  cancelled : ℕ → Bool

/-- `s_stft.size() / 18` for a source of this length. -/
def stftFrames (tSrc : ℕ) : ℕ := tSrc / 4 + 1

/-- The estimator calls of one CFM step. -/
def estimatorCalls (info : ModelInfo) (T : ℕ) (f16KvAttn : Bool) : List StageCall :=
  if !info.meanflow && info.cfg && !info.cpu then [.cfm true T f16KvAttn]
  else if !info.meanflow && info.cfg then [.cfm false T f16KvAttn, .cfm false T f16KvAttn]
  else [.cfm false T f16KvAttn]

namespace SynthCall

variable {Path : Type*} (c : SynthCall Path) (info : ModelInfo)

/-- `cfm_steps`. -/
def steps : ℕ :=
  if 0 < c.cfmSteps then c.cfmSteps.toNat else if info.meanflow then 2 else info.nTimesteps

/-- The loop over the CFM steps, from step `s`, and whether it gets to its end. -/
def cfmCalls (T : ℕ) : ℕ → ℕ → List StageCall × Bool
  | 0, _ => ([], true)
  | left + 1, s =>
    if c.cancelled (1 + s) then ([], false)
    else
      let (rest, done) := cfmCalls T left (s + 1)
      (estimatorCalls info T c.f16KvAttn ++ rest, done)

/-- The stages after the CFM. -/
def hiftCalls (tMu : ℕ) : List StageCall :=
  let tMelFull := tMu - c.melLen1
  let skip := c.skipMelFrames.toNat
  if tMelFull < skip then []
  else
    let tMel := tMelFull - skip
    let tSrc := tMel * upsample
    .f0 tMel ::
      if c.cancelled (1 + c.steps info) then []
      else .stft tSrc ::
        if c.cancelled (2 + c.steps info) then [] else [.hift tMel (stftFrames tSrc)]

/-- The stages of a synthesis, in order. -/
def stageCalls : List StageCall :=
  if c.cancelled 0 then []
  else
    let tMu := 2 * c.nTotal
    let trim := if c.finalize then 0 else 2 * lookahead
    .encoder c.nTotal ::
      if !c.finalize && tMu ≤ trim then []
      else
        let tMu := tMu - trim
        if tMu < c.melLen1 || !c.z0Ok then []
        else
          let (calls, done) := c.cfmCalls info tMu (c.steps info) 0
          calls ++ if done then c.hiftCalls info tMu else []

variable {c info}

theorem mem_estimatorCalls {T : ℕ} {f16KvAttn : Bool} {call : StageCall}
    (h : call ∈ estimatorCalls info T f16KvAttn) :
    call = .cfm (!info.meanflow && info.cfg && !info.cpu) T f16KvAttn := by
  rw [estimatorCalls] at h
  split_ifs at h with hb2 hcfg
  · rw [List.mem_singleton.mp h, hb2]
  · have hnot : (!info.meanflow && info.cfg && !info.cpu) = false := by simpa using hb2
    rw [hnot]
    simpa using h
  · have hnot : (!info.meanflow && info.cfg && !info.cpu) = false := by simpa using hb2
    rw [hnot]
    exact List.mem_singleton.mp h

/-- All estimator calls of a synthesis are the same. -/
theorem mem_cfmCalls {T left s : ℕ} {call : StageCall}
    (h : call ∈ (c.cfmCalls info T left s).1) :
    call = .cfm (!info.meanflow && info.cfg && !info.cpu) T c.f16KvAttn := by
  induction left generalizing s with
  | zero => exact nomatch h
  | succ left ih =>
    rw [cfmCalls] at h
    split_ifs at h with hcancel
    · exact nomatch h
    · obtain hmem | hmem := List.mem_append.mp h
      · exact mem_estimatorCalls hmem
      · exact ih hmem

/-- The stages after the CFM. -/
theorem mem_hiftCalls {tMu : ℕ} {call : StageCall} (h : call ∈ c.hiftCalls info tMu) :
    ∃ tMel, call = .f0 tMel ∨ call = .stft (tMel * upsample) ∨
      call = .hift tMel (stftFrames (tMel * upsample)) := by
  rw [hiftCalls] at h
  split_ifs at h with hskip hstft hhift
  · exact nomatch h
  · exact ⟨_, .inl (List.mem_singleton.mp h)⟩
  · refine ⟨tMu - c.melLen1 - c.skipMelFrames.toNat, ?_⟩
    simp only [List.mem_cons, List.not_mem_nil, or_false] at h
    exact h.imp_right .inl
  · refine ⟨tMu - c.melLen1 - c.skipMelFrames.toNat, ?_⟩
    simpa only [List.mem_cons, List.not_mem_nil, or_false] using h

/-- What the stages of a synthesis are. -/
theorem mem_stageCalls {call : StageCall} (h : call ∈ c.stageCalls info) :
    call = .encoder c.nTotal ∨
      call = .cfm (!info.meanflow && info.cfg && !info.cpu)
        (2 * c.nTotal - if c.finalize then 0 else 2 * lookahead) c.f16KvAttn ∨
      ∃ tMel, call = .f0 tMel ∨ call = .stft (tMel * upsample) ∨
        call = .hift tMel (stftFrames (tMel * upsample)) := by
  rw [stageCalls] at h
  dsimp only at h
  by_cases hcancel : c.cancelled 0 = true
  · rw [if_pos hcancel] at h
    exact nomatch h
  rw [if_neg hcancel] at h
  obtain rfl | h := List.mem_cons.mp h
  · exact .inl rfl
  by_cases hshort : (!c.finalize &&
      decide (2 * c.nTotal ≤ if c.finalize = true then 0 else 2 * lookahead)) = true
  · rw [if_pos hshort] at h
    exact nomatch h
  rw [if_neg hshort] at h
  generalize (2 * c.nTotal - if c.finalize then 0 else 2 * lookahead) = tMu at h ⊢
  split_ifs at h with hprompt hdone
  · exact nomatch h
  · obtain hmem | hmem := List.mem_append.mp h
    · exact .inr (.inl (mem_cfmCalls hmem))
    · exact .inr (.inr (mem_hiftCalls hmem))
  · obtain hmem | hmem := List.mem_append.mp h
    · exact .inr (.inl (mem_cfmCalls hmem))
    · exact nomatch hmem

end SynthCall

/-! ### The caches -/

/-- The names of the inputs for the inverses of the alphas of a resblock, `load_rb`. -/
def rbAlphaNames (pref : String) : List String :=
  (List.range 3).flatMap fun i =>
    ["inv_" ++ pref ++ "/activations1/" ++ toString i ++ "/alpha",
      "inv_" ++ pref ++ "/activations2/" ++ toString i ++ "/alpha"]

/-- The names of all such inputs, in the order of the build. -/
def invAlphaNames : List String :=
  (List.range 3).flatMap fun i =>
    rbAlphaNames ("hift/source_resblocks/" ++ toString i) ++
      (List.range 3).flatMap fun j => rbAlphaNames ("hift/resblocks/" ++ toString (i * 3 + j))

/-- A graph, by the model and the call that it was built for. -/
abbrev BuiltGraph : Type := ℕ × StageCall

/-- The inputs of a graph. -/
def StageCall.inputs : StageCall → List String
  | .encoder _ => ["x_in", "pos1", "pos2"]
  | .cfm _ _ _ => ["x_in", "mu_in", "spks_in", "cond_in", "t_emb"]
  | .f0 _ => ["mel_in"]
  | .stft _ => ["s", "k"]
  | .hift _ _ => ["mel_in", "s_in"] ++ invAlphaNames ++ ["istft_k", "w_sum"]

/-- The evaluation of a graph in a stage. -/
structure Evaluation where
  /-- What the stage would build. -/
  current : BuiltGraph
  /-- What is in its cache. -/
  built : Option BuiltGraph
  /-- The inputs that it sets. -/
  written : List String

/-- Whatever the graphs compute, the evaluation computes what its stage would build. -/
def Evaluation.Transparent (e : Evaluation) : Prop :=
  ∀ (G : Type) (graph : BuiltGraph → G), e.built.map graph = some (graph e.current)

/-- All inputs of the graph are set. -/
def Evaluation.InputsSet (e : Evaluation) : Prop :=
  ∀ g ∈ e.built, ∀ x ∈ g.2.inputs, x ∈ e.written

/-- `pack_hift_key`. -/
def packHiftKey (tMel tStft : ℕ) : ℤ := (tMel * 2 ^ 32 + tStft % 2 ^ 32 : ℕ)

/-- The graph caches of the process. -/
structure SynthCaches where
  encoder : KeyedSlot ℤ BuiltGraph
  /-- `g_cfm_estimator_cache`, with `T` and `b2` as its key. -/
  cfm : KeyedSlot (ℤ × Bool) BuiltGraph
  f0 : KeyedSlot ℤ BuiltGraph
  stft : KeyedSlot ℤ BuiltGraph
  hift : KeyedSlot ℤ BuiltGraph
  /-- `g_hift_inv_alpha_entries`, with the model of the tensor. -/
  invAlpha : List (String × ℕ)

namespace SynthCaches

/-- `s3gen_release_synth_caches`. -/
def release : SynthCaches where
  encoder := ⟨-1, none⟩
  cfm := ⟨(-1, false), none⟩
  f0 := ⟨-1, none⟩
  stft := ⟨-1, none⟩
  hift := ⟨-1, none⟩
  invAlpha := []

/-- One stage of a synthesis: the evaluation of its graph, and the caches after it. -/
def run (m : ℕ) (call : StageCall) (s : SynthCaches) : Evaluation × SynthCaches :=
  match call with
  | .encoder T =>
    let slot := s.encoder.fetch T (m, call)
    (⟨(m, call), slot.value, ["x_in", "pos1", "pos2"]⟩, { s with encoder := slot })
  | .cfm b2 T _ =>
    let slot := s.cfm.fetchByKey (T, b2) (m, call)
    (⟨(m, call), slot.value, ["x_in", "mu_in", "spks_in", "cond_in", "t_emb"]⟩,
      { s with cfm := slot })
  | .f0 tMel =>
    let slot := s.f0.fetch tMel (m, call)
    (⟨(m, call), slot.value, ["mel_in"]⟩, { s with f0 := slot })
  | .stft tSrc =>
    let slot := s.stft.fetch tSrc (m, call)
    (⟨(m, call), slot.value, ["s", "k"]⟩, { s with stft := slot })
  | .hift tMel tStft =>
    let k := packHiftKey tMel tStft
    let entries := if s.hift.key ≠ k ∨ s.hift.value = none then invAlphaNames.map (·, m)
      else s.invAlpha
    let slot := s.hift.fetch k (m, call)
    (⟨(m, call), slot.value, ["mel_in", "s_in", "istft_k", "w_sum"] ++ entries.map Prod.fst⟩,
      { s with hift := slot, invAlpha := entries })

/-- The stages of a synthesis one after the other. -/
def runAll (m : ℕ) : List StageCall → SynthCaches → List Evaluation × SynthCaches
  | [], s => ([], s)
  | call :: rest, s =>
    let (e, s) := s.run m call
    let (es, s) := runAll m rest s
    (e :: es, s)

end SynthCaches

/-! ### One stage -/

/-- The call of the HiFT stage has the lengths that the pipeline gives it. -/
def StageCall.Sized : StageCall → Prop
  | .hift tMel tStft => tStft = stftFrames (tMel * upsample)
  | _ => True

/-- The call is one of the estimator. -/
def StageCall.isCfm : StageCall → Bool
  | .cfm _ _ _ => true
  | _ => false

/-- `cfm_f16_kv_attn` does not differ from the cached estimator of the same length and batch. -/
def StageCall.F16Fits (s : SynthCaches) : StageCall → Prop
  | .cfm b2 T f16 => ∀ m f16', s.cfm.key = (↑T, b2) → s.cfm.value = some (m, .cfm b2 T f16') →
      f16' = f16
  | _ => True

theorem packHiftKey_inj {tMel tMel' tStft tStft' : ℕ}
    (h : packHiftKey tMel tStft = packHiftKey tMel' tStft') : tMel = tMel' := by
  rw [packHiftKey, packHiftKey] at h
  omega

theorem Evaluation.transparent_iff (e : Evaluation) :
    e.Transparent ↔ e.built = some e.current := by
  constructor
  · intro h
    have hid := h BuiltGraph id
    rwa [Option.map_id] at hid
  · intro h G graph
    rw [h]
    rfl

namespace SynthCaches

/-- The frames of the source decide the call of the HiFT stage. -/
def hiftCall (tMel : ℕ) : StageCall := .hift tMel (stftFrames (tMel * upsample))

/-- The key of the HiFT stage. -/
def hiftKey (tMel : ℕ) : ℤ := packHiftKey tMel (stftFrames (tMel * upsample))

/-- A graph is for a model and the length that its key gives. -/
def BuiltAt (m : ℕ) (key : ℕ → ℤ) (call : ℕ → StageCall) (k : ℤ) (g : BuiltGraph) : Prop :=
  ∃ T, k = key T ∧ g = (m, call T)

/-- An estimator is for a model and for the length and the batch of its key. -/
def CfmBuiltAt (m : ℕ) (k : ℤ × Bool) (g : BuiltGraph) : Prop :=
  ∃ (T : ℕ) (f16 : Bool), k.1 = T ∧ g = (m, .cfm k.2 T f16)

/-- The cached graphs are for a model and for the lengths of their keys. -/
structure BuiltFor (m : ℕ) (s : SynthCaches) : Prop where
  encoder : s.encoder.Holds (BuiltAt m (↑·) .encoder)
  cfm : s.cfm.Holds (CfmBuiltAt m)
  noCfm : s.cfm.value = none → s.cfm.key.1 = -1
  f0 : s.f0.Holds (BuiltAt m (↑·) .f0)
  stft : s.stft.Holds (BuiltAt m (↑·) .stft)
  hift : s.hift.Holds (BuiltAt m hiftKey hiftCall)
  invAlpha : s.hift.value ≠ none → s.invAlpha = invAlphaNames.map (·, m)

theorem builtFor_release (m : ℕ) : BuiltFor m release :=
  ⟨nofun, nofun, fun _ => rfl, nofun, nofun, nofun, fun h => absurd rfl h⟩

/-- A length that its key gives back. -/
theorem value_fetch {m : ℕ} {key : ℕ → ℤ} {call : ℕ → StageCall} {slot : KeyedSlot ℤ BuiltGraph}
    (hkey : Function.Injective key) (h : slot.Holds (BuiltAt m key call)) (T : ℕ) :
    (slot.fetch (key T) (m, call T)).value = some (m, call T) := by
  rw [KeyedSlot.value_fetch_iff]
  refine h.not_stale ?_
  rintro g ⟨T', hT', rfl⟩
  rw [hkey hT']

theorem lengthKey_injective : Function.Injective ((↑·) : ℕ → ℤ) := fun _ _ h => Int.ofNat_inj.mp h

theorem hiftKey_injective : Function.Injective hiftKey := fun _ _ h => packHiftKey_inj h

variable {m : ℕ} {s : SynthCaches} {call : StageCall}

/-- The estimator has no key without a graph. -/
theorem BuiltFor.fetchByKey_cfm (h : s.BuiltFor m) (T : ℕ) (b2 : Bool) (g : BuiltGraph) :
    s.cfm.fetchByKey (↑T, b2) g = s.cfm.fetch (↑T, b2) g := by
  refine KeyedSlot.fetchByKey_eq fun hnone hkey => ?_
  have hnone := h.noCfm hnone
  rw [hkey] at hnone
  omega

/-- A stage keeps the caches for its model. -/
theorem BuiltFor.run (h : s.BuiltFor m) (hcall : call.Sized) : (s.run m call).2.BuiltFor m := by
  cases call with
  | encoder T => exact { h with encoder := h.encoder.fetch ⟨T, rfl, rfl⟩ }
  | cfm b2 T f16 =>
    rw [SynthCaches.run, h.fetchByKey_cfm]
    refine { h with cfm := h.cfm.fetch ⟨T, f16, rfl, rfl⟩, noCfm := fun hnone => ?_ }
    obtain heq | ⟨v, -, hv, heq⟩ := s.cfm.fetch_cases (↑T, b2) (m, .cfm b2 T f16)
    · rw [heq] at hnone
      exact nomatch hnone
    · rw [heq, hv] at hnone
      exact nomatch hnone
  | f0 tMel => exact { h with f0 := h.f0.fetch ⟨tMel, rfl, rfl⟩ }
  | stft tSrc => exact { h with stft := h.stft.fetch ⟨tSrc, rfl, rfl⟩ }
  | hift tMel tStft =>
    obtain rfl : tStft = _ := hcall
    refine { h with hift := h.hift.fetch ⟨tMel, rfl, rfl⟩, invAlpha := fun _ => ?_ }
    show (if _ then _ else _) = _
    split_ifs with hbuild
    · rfl
    · exact h.invAlpha (not_or.mp hbuild).2

/-- A stage evaluates a graph whose inputs it sets. -/
theorem BuiltFor.run_inputsSet (h : s.BuiltFor m) (hcall : call.Sized) :
    (s.run m call).1.InputsSet := by
  intro g hg x hx
  rw [Option.mem_def] at hg
  cases call with
  | encoder T =>
    obtain rfl := Option.some.inj ((value_fetch lengthKey_injective h.encoder T).symm.trans hg)
    exact hx
  | cfm b2 T f16 =>
    rw [SynthCaches.run, h.fetchByKey_cfm] at hg
    have hholds : (s.cfm.fetch (↑T, b2) (m, .cfm b2 T f16)).Holds (CfmBuiltAt m) :=
      h.cfm.fetch ⟨T, f16, rfl, rfl⟩
    obtain ⟨T', f16', -, rfl⟩ := hholds _ hg
    exact hx
  | f0 tMel =>
    obtain rfl := Option.some.inj ((value_fetch lengthKey_injective h.f0 tMel).symm.trans hg)
    exact hx
  | stft tSrc =>
    obtain rfl := Option.some.inj ((value_fetch lengthKey_injective h.stft tSrc).symm.trans hg)
    exact hx
  | hift tMel tStft =>
    have hentries := (h.run hcall).invAlpha fun hnone => nomatch hnone.symm.trans hg
    have hwritten : (s.run m (.hift tMel tStft)).1.written = ["mel_in", "s_in", "istft_k", "w_sum"] ++
        (s.run m (.hift tMel tStft)).2.invAlpha.map Prod.fst := rfl
    obtain rfl : tStft = _ := hcall
    obtain rfl := Option.some.inj ((value_fetch hiftKey_injective h.hift tMel).symm.trans hg)
    rw [hwritten, hentries, List.map_map]
    simp only [StageCall.inputs, hiftCall, List.mem_append, List.mem_cons, List.not_mem_nil, or_false,
      List.mem_map, Function.comp_apply, exists_eq_right] at hx ⊢
    tauto

/-- A stage is as expected exactly if its `cfm_f16_kv_attn` fits. -/
theorem BuiltFor.run_transparent_iff (h : s.BuiltFor m) (hcall : call.Sized) :
    (s.run m call).1.Transparent ↔ call.F16Fits s := by
  rw [Evaluation.transparent_iff]
  cases call with
  | encoder T => exact iff_of_true (value_fetch lengthKey_injective h.encoder T) trivial
  | cfm b2 T f16 =>
    rw [SynthCaches.run, h.fetchByKey_cfm]
    show (s.cfm.fetch _ _).value = some (m, StageCall.cfm b2 T f16) ↔ _
    rw [KeyedSlot.value_fetch_iff]
    constructor
    · intro hstale m' f16' hkey hvalue
      obtain ⟨T', f16'', -, hg⟩ := h.cfm _ hvalue
      cases hg
      by_contra hne
      exact hstale ⟨_, hkey, hvalue, fun heq => hne (by cases heq; rfl)⟩
    · rintro hfits ⟨g, hkey, hvalue, hne⟩
      obtain ⟨T', f16', hT, rfl⟩ := h.cfm _ hvalue
      rw [hkey] at hT hvalue hne
      obtain rfl : T = T' := Int.ofNat_inj.mp hT
      exact hne (by rw [hfits m f16' hkey hvalue])
  | f0 tMel => exact iff_of_true (value_fetch lengthKey_injective h.f0 tMel) trivial
  | stft tSrc => exact iff_of_true (value_fetch lengthKey_injective h.stft tSrc) trivial
  | hift tMel tStft =>
    obtain rfl : tStft = _ := hcall
    exact iff_of_true (value_fetch hiftKey_injective h.hift tMel) trivial

/-- Where the caches are for any model, there is no estimator. -/
theorem f16Fits_of_builtFor (h : ∀ m, s.BuiltFor m) : call.F16Fits s := by
  cases call with
  | cfm b2 T f16 =>
    intro m f16' _ hvalue
    obtain ⟨_, _, -, hg⟩ := (h m).cfm _ hvalue
    obtain ⟨_, _, -, hg'⟩ := (h (m + 1)).cfm _ hvalue
    have hm : m = m + 1 := congrArg Prod.fst (hg.symm.trans hg')
    omega
  | _ => trivial

/-! ### All stages of a synthesis -/

/-- Where a call fits, a call after it fits as before, if both are not different estimator calls. -/
theorem f16Fits_run_iff {call' : StageCall} (hfits : call.F16Fits s)
    (hsame : call.isCfm = true → call'.isCfm = true → call' = call) :
    call'.F16Fits (s.run m call).2 ↔ call'.F16Fits s := by
  cases call with
  | cfm b2 T f16 =>
    cases call' with
    | cfm b2' T' f16' =>
      cases hsame rfl rfl
      refine iff_of_true ?_ hfits
      intro m' f16'' hkey hvalue
      rw [SynthCaches.run, KeyedSlot.fetchByKey] at hkey hvalue
      dsimp only at hkey hvalue
      split_ifs at hkey hvalue with hbuild
      · cases hvalue
        rfl
      · exact hfits m' f16'' hkey hvalue
    | _ => exact Iff.rfl
  | _ => cases call' <;> exact Iff.rfl

/-- The estimator calls in a list are the same. -/
def SameCfm (calls : List StageCall) : Prop :=
  ∀ call ∈ calls, ∀ call' ∈ calls, call.isCfm = true → call'.isCfm = true → call' = call

variable {calls : List StageCall}

theorem BuiltFor.runAll (h : s.BuiltFor m) (hsized : ∀ call ∈ calls, call.Sized) :
    (s.runAll m calls).2.BuiltFor m := by
  induction calls generalizing s with
  | nil => exact h
  | cons call rest ih =>
    obtain ⟨hcall, hrest⟩ := List.forall_mem_cons.mp hsized
    exact ih (h.run hcall) hrest

/-- The stages of a synthesis are as expected exactly if the estimator calls fit at its start. -/
theorem BuiltFor.runAll_iff (h : s.BuiltFor m) (hsized : ∀ call ∈ calls, call.Sized)
    (hsame : SameCfm calls) :
    (∀ e ∈ (s.runAll m calls).1, e.Transparent ∧ e.InputsSet) ↔
      ∀ call ∈ calls, call.F16Fits s := by
  induction calls generalizing s with
  | nil => exact iff_of_true nofun nofun
  | cons call rest ih =>
    obtain ⟨hcall, hrest⟩ := List.forall_mem_cons.mp hsized
    have hsameRest : SameCfm rest := fun c hc c' hc' =>
      hsame c (List.mem_cons_of_mem _ hc) c' (List.mem_cons_of_mem _ hc')
    rw [SynthCaches.runAll]
    show (∀ e ∈ _ :: _, _) ↔ _
    rw [List.forall_mem_cons, List.forall_mem_cons, ih (h.run hcall) hrest hsameRest,
      h.run_transparent_iff hcall, and_iff_left (h.run_inputsSet hcall)]
    refine and_congr_right fun hfits => forall₂_congr fun call' hcall' => ?_
    exact f16Fits_run_iff hfits fun hcfm hcfm' =>
      hsame call (List.mem_cons_self ..) call' (List.mem_cons_of_mem _ hcall') hcfm hcfm'

end SynthCaches

/-! ### The process -/

/-- The process. -/
structure SynthProcess (Path : Type*) where
  models : ModelCache Path
  caches : SynthCaches

/-- What happens next. -/
inductive SynthInput (Path : Type*)
  | synthesize (c : SynthCall Path)
  | preload (path : Path) (gpu : ℤ) (loadOk : Bool)
  /-- `s3gen_model_cache_release`. -/
  | release

namespace SynthProcess

variable {Path : Type*} [DecidableEq Path]

/-- A process that has not loaded a model. -/
def init : SynthProcess Path := ⟨.empty, .release⟩

/-- `s3gen_model_cache_get`, which releases the caches before another model is loaded. -/
def getModel (s : SynthProcess Path) (path : Path) (gpu : ℤ) (loadOk : Bool) :
    Option ℕ × SynthProcess Path :=
  let caches := if s.models.find path gpu = none ∧ s.models.entry.isSome then .release
    else s.caches
  let (m, models) := s.models.get path gpu loadOk
  (m, ⟨models, caches⟩)

/-- A synthesis: its evaluations, and the process after it. -/
def synthesize (info : ℕ → ModelInfo) (s : SynthProcess Path) (c : SynthCall Path) :
    List Evaluation × SynthProcess Path :=
  match s.getModel c.path c.gpu c.loadOk with
  | (none, s) => ([], s)
  | (some m, s) =>
    let (es, caches) := s.caches.runAll m (c.stageCalls (info m))
    (es, { s with caches := caches })

/-- A step of the process. -/
def step (info : ℕ → ModelInfo) : SynthInput Path → SynthProcess Path → SynthProcess Path
  | .synthesize c, s => (s.synthesize info c).2
  | .preload path gpu loadOk, s => (s.getModel path gpu loadOk).2
  | .release, s => ⟨s.models.release, .release⟩

/-- The evaluations of a step. -/
def evaluations (info : ℕ → ModelInfo) (s : SynthProcess Path) :
    SynthInput Path → List Evaluation
  | .synthesize c => (s.synthesize info c).1
  | .preload _ _ _ => []
  | .release => []

/-- A synthesis fits: if the model is cached, so is no estimator that differs in `cfm_f16_kv_attn`
alone. -/
def Fits (info : ℕ → ModelInfo) (s : SynthProcess Path) : SynthInput Path → Prop
  | .synthesize c => ∀ m, s.models.find c.path c.gpu = some m →
      ∀ call ∈ c.stageCalls (info m), call.F16Fits s.caches
  | .preload _ _ _ => True
  | .release => True

/-- The cached graphs are for the cached model. -/
def Ok (s : SynthProcess Path) : Prop :=
  ∀ m, (∀ m', s.models.model = some m' → m' = m) → s.caches.BuiltFor m

variable {s : SynthProcess Path} {info : ℕ → ModelInfo}

omit [DecidableEq Path] in
theorem ok_init : (init : SynthProcess Path).Ok := fun m _ => SynthCaches.builtFor_release m

omit [DecidableEq Path] in
theorem ok_of_builtFor (h : ∀ m, s.caches.BuiltFor m) : s.Ok := fun m _ => h m

/-- A load: it finds the cached model and leaves the caches, or no graph is cached after it. -/
theorem getModel_cases (h : s.Ok) (path : Path) (gpu : ℤ) (loadOk : Bool) :
    (∃ m, s.models.find path gpu = some m ∧ s.getModel path gpu loadOk = (some m, s) ∧
        s.caches.BuiltFor m) ∨
      s.models.find path gpu = none ∧ ∀ m, (s.getModel path gpu loadOk).2.caches.BuiltFor m := by
  cases hfind : s.models.find path gpu with
  | some m =>
    refine .inl ⟨m, rfl, ?_, h m fun m' hm' => ?_⟩
    · simp only [getModel, ModelCache.get, hfind, reduceCtorEq, false_and, if_false]
    · exact Option.some.inj (hm'.symm.trans (ModelCache.model_of_find hfind))
  | none =>
    refine .inr ⟨rfl, fun m => ?_⟩
    show (if _ then _ else _ : SynthCaches).BuiltFor m
    split_ifs with hswap
    · exact SynthCaches.builtFor_release m
    · -- There was no model, so the caches are for any.
      refine h m fun m' hm' => ?_
      obtain ⟨e, he, -⟩ := Option.map_eq_some_iff.mp hm'
      exact absurd ⟨hfind, by rw [he]; rfl⟩ hswap

/-- A load that returns a model leaves it cached. -/
theorem model_getModel {path : Path} {gpu : ℤ} {loadOk : Bool} {m : ℕ} {s' : SynthProcess Path}
    (h : s.getModel path gpu loadOk = (some m, s')) : s'.models.model = some m := by
  rw [getModel] at h
  obtain ⟨m', hfind, heq⟩ | ⟨-, -, heq⟩ | ⟨-, -, heq⟩ := s.models.get_cases path gpu loadOk
  · rw [heq] at h
    cases h
    exact ModelCache.model_of_find hfind
  · rw [heq] at h
    cases h
    rfl
  · rw [heq] at h
    cases h

omit [DecidableEq Path] in
theorem sized_stageCalls (c : SynthCall Path) (info : ModelInfo) :
    ∀ call ∈ c.stageCalls info, call.Sized := by
  intro call hcall
  obtain rfl | rfl | ⟨tMel, rfl | rfl | rfl⟩ := SynthCall.mem_stageCalls hcall
  all_goals trivial

omit [DecidableEq Path] in
theorem sameCfm_stageCalls (c : SynthCall Path) (info : ModelInfo) :
    SynthCaches.SameCfm (c.stageCalls info) := by
  have hcfm : ∀ call ∈ c.stageCalls info, call.isCfm = true →
      call = .cfm (!info.meanflow && info.cfg && !info.cpu)
        (2 * c.nTotal - if c.finalize then 0 else 2 * lookahead) c.f16KvAttn := by
    intro call hcall hiscfm
    obtain rfl | rfl | ⟨tMel, rfl | rfl | rfl⟩ := SynthCall.mem_stageCalls hcall
    · exact nomatch hiscfm
    · rfl
    all_goals exact nomatch hiscfm
  intro call hcall call' hcall' h h'
  rw [hcfm call hcall h, hcfm call' hcall' h']

/-- A synthesis is as expected exactly if it fits. -/
theorem evaluations_iff (h : s.Ok) (x : SynthInput Path) :
    (∀ e ∈ s.evaluations info x, e.Transparent ∧ e.InputsSet) ↔ s.Fits info x := by
  cases x with
  | synthesize c =>
    rw [evaluations, synthesize, Fits]
    obtain ⟨m, hfind, hget, hbuilt⟩ | ⟨hfind, hbuilt⟩ := getModel_cases h c.path c.gpu c.loadOk
    · rw [hget, hfind]
      refine (hbuilt.runAll_iff (sized_stageCalls c (info m)) (sameCfm_stageCalls c (info m))).trans
        ⟨fun hfits m' hm' => ?_, fun hfits => hfits m rfl⟩
      obtain rfl : m = m' := Option.some.inj hm'
      exact hfits
    · refine iff_of_true ?_ (hfind ▸ nofun)
      cases hget : s.getModel c.path c.gpu c.loadOk with
      | mk m? s' =>
        cases m? with
        | none => exact nofun
        | some m =>
          rw [hget] at hbuilt
          exact ((hbuilt m).runAll_iff (sized_stageCalls c (info m))
            (sameCfm_stageCalls c (info m))).mpr fun call _ => SynthCaches.f16Fits_of_builtFor hbuilt
  | preload path gpu loadOk => exact iff_of_true nofun trivial
  | release => exact iff_of_true nofun trivial

/-- Every step keeps the cached graphs for the cached model. -/
theorem Ok.step (h : s.Ok) (x : SynthInput Path) : (step info x s).Ok := by
  cases x with
  | synthesize c =>
    rw [SynthProcess.step, synthesize]
    cases hget : s.getModel c.path c.gpu c.loadOk with
    | mk m? s' =>
      have hcases := getModel_cases h c.path c.gpu c.loadOk
      rw [hget] at hcases
      cases m? with
      | none =>
        obtain ⟨m, -, heq, -⟩ | ⟨-, hbuilt⟩ := hcases
        · exact nomatch congrArg Prod.fst heq
        · exact ok_of_builtFor hbuilt
      | some m =>
        have hmodel := model_getModel hget
        have hbuilt : s'.caches.BuiltFor m := by
          obtain ⟨m', -, heq, hbuilt⟩ | ⟨-, hbuilt⟩ := hcases
          · cases heq
            exact hbuilt
          · exact hbuilt m
        intro m' hm'
        obtain rfl := hm' m hmodel
        exact hbuilt.runAll (sized_stageCalls c (info m))
  | preload path gpu loadOk =>
    obtain ⟨m, -, hget, -⟩ | ⟨-, hbuilt⟩ := getModel_cases h path gpu loadOk
    · rw [SynthProcess.step, hget]
      exact h
    · exact ok_of_builtFor hbuilt
  | release => exact ok_of_builtFor SynthCaches.builtFor_release

/-- In a run of a process, at every step, all stages evaluate what they would build, with all inputs
set, exactly if the step does not find an estimator that differs in `cfm_f16_kv_attn` alone. -/
theorem synthCaches_transparent (info : ℕ → ModelInfo) (xs : ℕ → SynthInput Path) (n : ℕ) :
    (∀ e ∈ (Machine.run (step info) xs init n).evaluations info (xs n),
        e.Transparent ∧ e.InputsSet) ↔
      (Machine.run (step info) xs init n).Fits info (xs n) := by
  have hok : (Machine.run (step info) xs init n).Ok :=
    Machine.run_invariant (F := fun _ _ => True) (fun _ x _ h => h.step x) ok_init
      fun _ _ => trivial
  exact evaluations_iff hok (xs n)

/-- A synthesis of four tokens with two steps. -/
def shortSynth (f16KvAttn : Bool) : SynthCall Bool where
  path := true
  gpu := 0
  loadOk := true
  nTotal := 4
  melLen1 := 2
  finalize := true
  z0Ok := true
  cfmSteps := 2
  f16KvAttn := f16KvAttn
  skipMelFrames := 0
  cancelled _ := false

/-- The second synthesis asks for the other `cfm_f16_kv_attn`, and runs the estimator of the first. -/
theorem not_synthCaches_transparent : ¬∀ (info : ℕ → ModelInfo) (xs : ℕ → SynthInput Bool) (n : ℕ),
    ∀ e ∈ (Machine.run (step info) xs init n).evaluations info (xs n),
      e.Transparent ∧ e.InputsSet := by
  intro h
  have hbuilt := fun e he => (Evaluation.transparent_iff e).mp
    (h (fun _ => ⟨true, false, 2, true⟩) (fun n => .synthesize (shortSynth (n == 1))) 1 e he).1
  revert hbuilt
  decide

end SynthProcess

end Chatterbox

end WhisperCpp
