import WhisperCpp.Library.Lru
import WhisperCpp.Library.Machine
import Mathlib.Data.Int.Notation
import Mathlib.Tactic.SplitIfs

/-!
# The S3Gen model of the process

All Chatterbox engines share one S3Gen model. A constructor preloads it and drops the result of the
preload; a destructor always unloads. `s3gen_unload` releases the model where the reference count
goes to zero, and also where it was not positive.

## Main definitions

* `ModelCache` — the cached model
* `Engines`, `Engines.step` — engines that are constructed, synthesize and are destroyed
* `Engines.Lifetime` — the reference count counts the preloaded engines, and their model is cached
  and is released with the last of them
* `Engines.Fits` — the condition on a step

## Main results

* `Lifetime.step`, `Lifetime.fits` — a step keeps this exactly if it fits
* `modelCache_lifetime` — it holds in every state of a run exactly if all its steps fit
-/

namespace WhisperCpp

namespace Chatterbox

variable {E Path : Type*} [DecidableEq E] [DecidableEq Path]

/-- `s3gen_cache_entry`. A model is known by its number. -/
structure CacheEntry (Path : Type*) where
  path : Path
  gpu : ℤ
  model : ℕ

/-- `g_s3gen_cache_entry`, with the models whose backend and buffers are freed. -/
structure ModelCache (Path : Type*) where
  entry : Option (CacheEntry Path)
  /-- The number of the next model. -/
  next : ℕ
  released : List ℕ

namespace ModelCache

/-- No model. -/
def empty : ModelCache Path := ⟨none, 0, []⟩

/-- The cached model, where it was loaded from the path for the GPU setting. -/
def find (c : ModelCache Path) (path : Path) (gpu : ℤ) : Option ℕ :=
  (c.entry.filter fun e => e.path == path && e.gpu == gpu).map CacheEntry.model

/-- `s3gen_model_cache_get`. `loadOk` is whether `load_s3gen_gguf` returns. A model that another one
replaces is dropped without being freed. -/
def get (c : ModelCache Path) (path : Path) (gpu : ℤ) (loadOk : Bool) :
    Option ℕ × ModelCache Path :=
  match c.find path gpu with
  | some m => (some m, c)
  | none =>
    if loadOk then (some c.next, { c with entry := some ⟨path, gpu, c.next⟩, next := c.next + 1 })
    else (none, c)

/-- `s3gen_model_cache_release`. -/
def release (c : ModelCache Path) : ModelCache Path :=
  match c.entry with
  | none => c
  | some e => { c with entry := none, released := e.model :: c.released }

/-- The number of the cached model. -/
def model (c : ModelCache Path) : Option ℕ := c.entry.map CacheEntry.model

/-- Numbers are given once, and the cached model is not freed. -/
structure Ok (c : ModelCache Path) : Prop where
  model : ∀ m, c.model = some m → m < c.next ∧ m ∉ c.released
  released : ∀ m ∈ c.released, m < c.next

omit [DecidableEq Path] in
theorem ok_empty : (empty : ModelCache Path).Ok where
  model := fun _ hm => nomatch hm
  released := fun _ hm => nomatch hm

variable {c : ModelCache Path}

theorem model_of_find {path : Path} {gpu : ℤ} {m : ℕ} (h : c.find path gpu = some m) :
    c.model = some m := by
  obtain ⟨e, hfilter, rfl⟩ := Option.map_eq_some_iff.1 h
  rw [model, (Option.filter_eq_some_iff.1 hfilter).1]
  rfl

/-- What `s3gen_model_cache_get` does. -/
theorem get_cases (c : ModelCache Path) (path : Path) (gpu : ℤ) (loadOk : Bool) :
    (∃ m, c.find path gpu = some m ∧ c.get path gpu loadOk = (some m, c)) ∨
    (c.find path gpu = none ∧ loadOk = true ∧ c.get path gpu loadOk =
      (some c.next, { c with entry := some ⟨path, gpu, c.next⟩, next := c.next + 1 })) ∨
    (c.find path gpu = none ∧ loadOk = false ∧ c.get path gpu loadOk = (none, c)) := by
  rw [get]
  cases hfind : c.find path gpu with
  | some m => exact .inl ⟨m, rfl, rfl⟩
  | none =>
    cases loadOk with
    | true => exact .inr (.inl ⟨rfl, rfl, rfl⟩)
    | false => exact .inr (.inr ⟨rfl, rfl, rfl⟩)

theorem Ok.get (h : c.Ok) (path : Path) (gpu : ℤ) (loadOk : Bool) :
    (c.get path gpu loadOk).2.Ok := by
  obtain ⟨m, -, heq⟩ | ⟨-, -, heq⟩ | ⟨-, -, heq⟩ := c.get_cases path gpu loadOk
  · rwa [heq]
  · rw [heq]
    refine ⟨fun m hm => ?_, fun m hm => Nat.lt_succ_of_lt (h.released m hm)⟩
    obtain rfl : c.next = m := Option.some.inj hm
    exact ⟨Nat.lt_succ_self _, fun hmem => Nat.lt_irrefl _ (h.released _ hmem)⟩
  · rwa [heq]

omit [DecidableEq Path] in
theorem release_model (c : ModelCache Path) : c.release.model = none := by
  rw [release]
  cases hentry : c.entry with
  | none => rw [model, hentry]; rfl
  | some e => rfl

omit [DecidableEq Path] in
/-- The cached model is freed, and no other. -/
theorem mem_released_release {m : ℕ} :
    m ∈ c.release.released ↔ c.model = some m ∨ m ∈ c.released := by
  rw [release, model]
  cases c.entry with
  | none => simp
  | some e => simp [eq_comm]

omit [DecidableEq Path] in
theorem release_next (c : ModelCache Path) : c.release.next = c.next := by
  rw [release]
  cases c.entry <;> rfl

omit [DecidableEq Path] in
theorem Ok.release (h : c.Ok) : c.release.Ok where
  model := fun m hm => by
    rw [release_model] at hm
    cases hm
  released := fun m hm => by
    rw [release_next]
    obtain hm | hm := mem_released_release.1 hm
    · exact (h.model m hm).1
    · exact h.released m hm

end ModelCache

/-! ### Engines -/

/-- An engine. `model` is what its preload has returned, nothing where it failed. -/
structure LiveEngine (E Path : Type*) where
  id : E
  path : Path
  gpu : ℤ
  model : Option ℕ

/-- The process. -/
structure Engines (E Path : Type*) where
  cache : ModelCache Path
  /-- `g_s3gen_cache_refcount`. -/
  refcount : ℤ
  live : List (LiveEngine E Path)
  /-- The models that preloads have returned. -/
  handed : List ℕ

/-- What happens next. `ctorOk` is whether the constructor gets to the preload, `loadOk` whether the
file can be loaded. -/
inductive EngineInput (E Path : Type*)
  | construct (id : E) (path : Path) (gpu : ℤ) (ctorOk loadOk : Bool)
  | destroy (id : E)
  | synthesize (id : E) (loadOk : Bool)

namespace Engines

/-- A process without engines. -/
def init : Engines E Path := ⟨.empty, 0, [], []⟩

/-- The live engine with an identity. -/
def engine (s : Engines E Path) (id : E) : Option (LiveEngine E Path) := s.live.find? (·.id == id)

/-- The live engines whose preload succeeded. -/
def preloaded (s : Engines E Path) : ℕ := s.live.countP (·.model.isSome)

/-- `s3gen_unload`. -/
def unload (s : Engines E Path) : Engines E Path :=
  let prev := s.refcount
  let s := { s with refcount := prev - 1 }
  if 1 < prev then s
  else
    let s := if prev ≤ 0 then { s with refcount := 0 } else s
    { s with cache := s.cache.release }

/-- The constructor of `Engine::Impl`, with `s3gen_preload`. -/
def construct (s : Engines E Path) (id : E) (path : Path) (gpu : ℤ) (loadOk : Bool) :
    Engines E Path :=
  match s.cache.get path gpu loadOk with
  | (some m, cache) =>
    { cache := cache, refcount := s.refcount + 1, live := ⟨id, path, gpu, some m⟩ :: s.live,
      handed := m :: s.handed }
  | (none, cache) => { s with cache := cache, live := ⟨id, path, gpu, none⟩ :: s.live }

/-- A step of the process. A synthesis gets the model once more. -/
def step : EngineInput E Path → Engines E Path → Engines E Path
  | .construct id path gpu ctorOk loadOk, s => match s.engine id with
    | some _ => s
    | none => if ctorOk then s.construct id path gpu loadOk else s
  | .destroy id, s => match s.engine id with
    | none => s
    | some _ => { s.unload with live := s.live.eraseP (·.id == id) }
  | .synthesize id loadOk, s => match s.engine id with
    | none => s
    | some e => { s with cache := (s.cache.get e.path e.gpu loadOk).2 }

/-- The reference count is the number of the preloaded engines; their model is cached and not freed;
and a model that was preloaded is freed, but for the cached one while an engine has it. -/
structure Lifetime (s : Engines E Path) : Prop where
  count : s.refcount = s.preloaded
  held : ∀ e ∈ s.live, ∀ m, e.model = some m → s.cache.model = some m ∧ m ∉ s.cache.released
  released : ∀ m ∈ s.handed, m ∈ s.cache.released ∨ 0 < s.preloaded ∧ s.cache.model = some m

/-- What a load must meet: while there are preloaded engines, it finds the cached model or fails. -/
def LoadFits (s : Engines E Path) (path : Path) (gpu : ℤ) (loadOk : Bool) : Prop :=
  0 < s.preloaded → loadOk = true → s.cache.find path gpu ≠ none

/-- A step fits: a load finds the model of the preloaded engines, and an engine whose preload failed
is destroyed only where there are none. -/
def Fits (s : Engines E Path) : EngineInput E Path → Prop
  | .construct id path gpu ctorOk loadOk =>
    s.engine id = none → ctorOk = true → s.LoadFits path gpu loadOk
  | .destroy id => ∀ e, s.engine id = some e → e.model = none → s.preloaded = 0
  | .synthesize id loadOk => ∀ e, s.engine id = some e → s.LoadFits e.path e.gpu loadOk

/-! ### One step -/

variable {s : Engines E Path}

omit [DecidableEq E] [DecidableEq Path] in
theorem preloaded_pos_iff : 0 < s.preloaded ↔ ∃ e ∈ s.live, ∃ m, e.model = some m := by
  rw [preloaded, List.countP_pos_iff]
  simp only [Option.isSome_iff_exists]

omit [DecidableEq Path] in
/-- An engine that goes is counted if its preload succeeded. -/
theorem preloaded_eraseP {id : E} {e : LiveEngine E Path} (h : s.engine id = some e) :
    s.preloaded = (s.live.eraseP (·.id == id)).countP (·.model.isSome) +
      if e.model.isSome then 1 else 0 := by
  obtain ⟨front, back, hsplit, -, -, herase⟩ := Lru.find?_split h
  rw [preloaded, herase, hsplit, List.countP_append, List.countP_append, List.countP_cons]
  exact (Nat.add_assoc _ _ _).symm

omit [DecidableEq E] in
/-- A load that fits keeps the lifetime of the models. -/
theorem Lifetime.get (h : s.Lifetime) {path : Path} {gpu : ℤ} {loadOk : Bool}
    (hfits : s.LoadFits path gpu loadOk) :
    { s with cache := (s.cache.get path gpu loadOk).2 }.Lifetime := by
  obtain ⟨m, -, heq⟩ | ⟨hfind, hload, heq⟩ | ⟨-, -, heq⟩ := s.cache.get_cases path gpu loadOk
  · rw [heq]
    exact ⟨h.count, h.held, h.released⟩
  · have hzero : ¬0 < s.preloaded := fun hpos => hfits hpos hload hfind
    rw [heq]
    refine ⟨h.count, fun e he m hm => ?_, fun m hm => ?_⟩
    · exact absurd (preloaded_pos_iff.2 ⟨e, he, m, hm⟩) hzero
    · obtain hrel | ⟨hpos, -⟩ := h.released m hm
      · exact .inl hrel
      · exact absurd hpos hzero
  · rw [heq]
    exact ⟨h.count, h.held, h.released⟩

omit [DecidableEq E] [DecidableEq Path] in
/-- An engine comes whose preload has returned the cached model. -/
theorem Lifetime.add (h : s.Lifetime) {m : ℕ} (hmodel : s.cache.model = some m)
    (hm : m ∉ s.cache.released) (id : E) (path : Path) (gpu : ℤ) :
    Lifetime { s with refcount := s.refcount + 1, live := ⟨id, path, gpu, some m⟩ :: s.live,
                      handed := m :: s.handed } where
  count := by
    show s.refcount + 1 = ((_ :: s.live).countP _ : ℕ)
    rw [List.countP_cons_of_pos rfl, h.count]
    rfl
  held := fun e he m' hm' => by
    obtain rfl | he := List.mem_cons.1 he
    · obtain rfl := Option.some.inj hm'
      exact ⟨hmodel, hm⟩
    · exact h.held e he m' hm'
  released := fun m' hm' => by
    have hpos : 0 < (⟨id, path, gpu, some m⟩ :: s.live).countP (·.model.isSome) := by
      rw [List.countP_cons_of_pos rfl]
      exact Nat.succ_pos _
    obtain rfl | hm' := List.mem_cons.1 hm'
    · exact .inr ⟨hpos, hmodel⟩
    · exact (h.released m' hm').imp_right fun hold => ⟨hpos, hold.2⟩

omit [DecidableEq E] [DecidableEq Path] in
/-- An engine comes whose preload has failed. -/
theorem Lifetime.addFailed (h : s.Lifetime) (id : E) (path : Path) (gpu : ℤ) :
    Lifetime { s with live := ⟨id, path, gpu, none⟩ :: s.live } where
  count := h.count
  held := fun e he m hm => by
    obtain rfl | he := List.mem_cons.1 he
    · cases hm
    · exact h.held e he m hm
  released := h.released

omit [DecidableEq E] in
theorem Lifetime.construct (h : s.Lifetime) (hok : s.cache.Ok) (id : E) {path : Path} {gpu : ℤ}
    {loadOk : Bool} (hfits : s.LoadFits path gpu loadOk) :
    (s.construct id path gpu loadOk).Lifetime := by
  have hget := h.get hfits
  have hok' := hok.get path gpu loadOk
  rw [Engines.construct]
  obtain ⟨m, hfind, heq⟩ | ⟨-, -, heq⟩ | ⟨-, -, heq⟩ := s.cache.get_cases path gpu loadOk
  · have hmodel := ModelCache.model_of_find hfind
    rw [heq]
    exact h.add hmodel (hok.model m hmodel).2 id path gpu
  · rw [heq] at hget hok' ⊢
    exact hget.add rfl (hok'.model _ rfl).2 id path gpu
  · rw [heq]
    exact h.addFailed id path gpu

omit [DecidableEq Path] in
/-- An engine goes. -/
theorem Lifetime.destroy (h : s.Lifetime) {id : E} {e : LiveEngine E Path}
    (he : s.engine id = some e) (hfits : e.model = none → s.preloaded = 0) :
    Lifetime { s.unload with live := s.live.eraseP (·.id == id) } := by
  have herase := preloaded_eraseP he
  have hcount := h.count
  have hmem : ∀ e' ∈ s.live.eraseP (·.id == id), e' ∈ s.live := fun e' he' =>
    List.mem_of_mem_eraseP he'
  rw [unload]
  by_cases hone : 1 < s.refcount
  · -- another preloaded engine stays
    have hsome : e.model.isSome = true := by
      rw [Option.isSome_iff_ne_none]
      intro hnone
      rw [hfits hnone] at hcount
      omega
    rw [if_pos hsome] at herase
    simp only [if_pos hone]
    refine ⟨?_, fun e' he' => h.held e' (hmem e' he'), fun m hm => ?_⟩
    · show s.refcount - 1 = ((s.live.eraseP _).countP _ : ℕ)
      omega
    · refine (h.released m hm).imp_right fun hold => ⟨?_, hold.2⟩
      show 0 < (s.live.eraseP _).countP _
      omega
  · have hzero : (s.live.eraseP (·.id == id)).countP (·.model.isSome) = 0 := by
      cases hmodel : e.model with
      | none =>
        rw [hfits hmodel] at herase
        omega
      | some m =>
        rw [hmodel] at herase
        simp only [Option.isSome_some, if_true] at herase
        omega
    have hnone : ∀ e' ∈ s.live.eraseP (·.id == id), ∀ m, e'.model ≠ some m := by
      intro e' he' m hm
      exact List.countP_eq_zero.1 hzero e' he' (by rw [hm]; rfl)
    have hrel : ∀ m ∈ s.handed, m ∈ s.cache.release.released := by
      intro m hm
      rw [ModelCache.mem_released_release]
      exact (h.released m hm).symm.imp_left And.right
    simp only [if_neg hone]
    split_ifs with hprev
    · refine ⟨?_, fun e' he' m hm => absurd hm (hnone e' he' m), fun m hm => .inl (hrel m hm)⟩
      show (0 : ℤ) = ((s.live.eraseP _).countP _ : ℕ)
      rw [hzero]
      rfl
    · refine ⟨?_, fun e' he' m hm => absurd hm (hnone e' he' m), fun m hm => .inl (hrel m hm)⟩
      show s.refcount - 1 = ((s.live.eraseP _).countP _ : ℕ)
      rw [hzero]
      omega

/-- A step that fits keeps the lifetime of the models. -/
theorem Lifetime.step (h : s.Lifetime) (hok : s.cache.Ok) {x : EngineInput E Path}
    (hfits : s.Fits x) : (step x s).Lifetime := by
  cases x with
  | construct id path gpu ctorOk loadOk =>
    rw [Engines.step]
    cases hengine : s.engine id with
    | some e => exact h
    | none =>
      cases ctorOk with
      | false => exact h
      | true => exact h.construct hok id (hfits hengine rfl)
  | destroy id =>
    rw [Engines.step]
    cases hengine : s.engine id with
    | none => exact h
    | some e => exact h.destroy hengine (hfits e hengine)
  | synthesize id loadOk =>
    rw [Engines.step]
    cases hengine : s.engine id with
    | none => exact h
    | some e => exact h.get (hfits e hengine)

omit [DecidableEq E] in
/-- Where the model of a preloaded engine is cached after a load, the load fits. -/
theorem Lifetime.loadFits (h : s.Lifetime) (hok : s.cache.Ok) {path : Path} {gpu : ℤ}
    {loadOk : Bool} (hkeep : ∀ e ∈ s.live, ∀ m, e.model = some m →
      (s.cache.get path gpu loadOk).2.model = some m) : s.LoadFits path gpu loadOk := by
  intro hpos hload hfind
  obtain ⟨e, he, m, hm⟩ := preloaded_pos_iff.1 hpos
  have hafter := hkeep e he m hm
  rw [ModelCache.get, hfind, if_pos hload] at hafter
  have hnext : s.cache.next = m := Option.some.inj hafter
  have hlt := (hok.model m (h.held e he m hm).1).1
  omega

/-- A step that keeps the lifetime of the models fits. -/
theorem Lifetime.fits (h : s.Lifetime) (hok : s.cache.Ok) {x : EngineInput E Path}
    (hstep : (Engines.step x s).Lifetime) : s.Fits x := by
  cases x with
  | construct id path gpu ctorOk loadOk =>
    intro hengine hctor
    refine h.loadFits hok fun e he m hm => ?_
    rw [Engines.step, hengine, hctor, Engines.construct] at hstep
    cases hget : s.cache.get path gpu loadOk with
    | mk m? cache =>
      rw [hget] at hstep
      cases m? with
      | none => exact (hstep.held e (List.mem_cons_of_mem _ he) m hm).1
      | some m' => exact (hstep.held e (List.mem_cons_of_mem _ he) m hm).1
  | destroy id =>
    intro e hengine hnone
    by_contra hpos
    have herase := preloaded_eraseP hengine
    rw [hnone] at herase
    have hcount := h.count
    have hcount' := hstep.count
    rw [Engines.step, hengine] at hcount'
    have hafter : s.unload.refcount = ((s.live.eraseP (·.id == id)).countP (·.model.isSome) : ℕ) :=
      hcount'
    rw [unload] at hafter
    simp only [Option.isSome_none, Bool.false_eq_true, if_false] at herase
    split_ifs at hafter <;> simp only at hafter <;> omega
  | synthesize id loadOk =>
    intro e hengine
    refine h.loadFits hok fun e' he' m hm => ?_
    rw [Engines.step, hengine] at hstep
    exact (hstep.held e' he' m hm).1

/-! ### Runs -/

omit [DecidableEq E] [DecidableEq Path] in
theorem unload_cache (s : Engines E Path) :
    s.unload.cache = s.cache ∨ s.unload.cache = s.cache.release := by
  rw [unload]
  split_ifs
  · exact .inl rfl
  · exact .inr rfl
  · exact .inr rfl

theorem ok_step (h : s.cache.Ok) (x : EngineInput E Path) : (step x s).cache.Ok := by
  cases x with
  | construct id path gpu ctorOk loadOk =>
    rw [step]
    split
    · exact h
    · cases ctorOk with
      | false => exact h
      | true =>
        have hget := h.get path gpu loadOk
        rw [if_pos rfl, construct]
        split
        · rename_i heq
          rwa [heq] at hget
        · rename_i heq
          rwa [heq] at hget
  | destroy id =>
    rw [step]
    split
    · exact h
    · show s.unload.cache.Ok
      obtain heq | heq := s.unload_cache
      · rwa [heq]
      · rw [heq]
        exact h.release
  | synthesize id loadOk =>
    rw [step]
    split
    · exact h
    · rename_i e _
      exact h.get e.path e.gpu loadOk

/-- In a run of a process the reference count counts the preloaded engines and their model lives as
long as they do, up to any state, exactly if all steps before it fit. -/
theorem modelCache_lifetime (xs : ℕ → EngineInput E Path) (n : ℕ) :
    (∀ m ≤ n, (Machine.run step xs init m).Lifetime) ↔
      ∀ m < n, (Machine.run step xs init m).Fits (xs m) := by
  have hok : ∀ m, (Machine.run step xs (init : Engines E Path) m).cache.Ok := by
    intro m
    induction m with
    | zero => exact ModelCache.ok_empty
    | succ m ih => exact ok_step ih (xs m)
  constructor
  · intro h m hm
    exact (h m (Nat.le_of_lt hm)).fits (hok m) (h (m + 1) hm)
  · intro h m hm
    induction m with
    | zero => exact ⟨rfl, (fun _ he => nomatch he), fun _ hm => nomatch hm⟩
    | succ m ih => exact (ih (Nat.le_of_lt hm)).step (hok m) (h m hm)

/-! ### A preload that fails -/

/-- Two engines with different files, of which the second cannot be loaded; the second goes. -/
def failedPreload (n : ℕ) : EngineInput Bool Bool :=
  if n = 0 then .construct false false 0 true true
  else if n = 1 then .construct true true 0 true false
  else .destroy true

/-- The destructor of an engine whose preload failed releases the model of the other. -/
theorem not_modelCache_lifetime :
    ¬∀ (xs : ℕ → EngineInput Bool Bool) (n : ℕ), (Machine.run step xs init n).Lifetime := by
  intro h
  have hcount := (h failedPreload 3).count
  revert hcount
  decide

end Engines

end Chatterbox

end WhisperCpp
