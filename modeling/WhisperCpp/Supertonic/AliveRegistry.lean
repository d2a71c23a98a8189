import WhisperCpp.Supertonic.GraphCaches
import Mathlib.Data.Finset.Basic

/-!
# The registry of the Supertonic models that are alive

The graph caches of a thread outlive the engines that filled them. Before `ggml_gallocr_free` a
thread looks up whether the generation of the cached allocator is still registered, and an engine
is unregistered before its backend is freed. The lookup and the call that it guards are two steps,
and another thread may take both of its own in between.

## Main definitions

* `Process` — the registry, the engines, and the threads with their caches
* `step` — one step of one thread
* `Safe` — a step frees no allocator of a backend that is gone, and hits no graph of another model
* `Fits` — a backend is not freed while another thread is about to free an allocator of it

## Main results

* `Ok.step` — the generations of the engines are told apart, and a lookup that succeeded still holds
* `safe_iff` — in a run every step that may come is safe exactly if the steps of the run fit
-/

namespace WhisperCpp

namespace Supertonic

/-! ### Threads and engines -/

/-- Where a thread is, with the address of the model of the engine that it uses. -/
inductive Pc
  | idle
  /-- In `load_supertonic_gguf`, before `register_supertonic_alive`. -/
  | load (e : ℕ)
  /-- In the constructor of the engine, once the model is loaded. -/
  | construct (e : ℕ)
  /-- In `synthesize`, before a stage. -/
  | synthesize (e : ℕ)
  /-- In `supertonic_safe_gallocr_free`, before `is_supertonic_alive`. -/
  | isAlive (e : ℕ) (st : StageCall)
  /-- In `supertonic_safe_gallocr_free`, before `ggml_gallocr_free`. -/
  | gallocrFree (e : ℕ) (st : StageCall)
  /-- Before the rest of `free_*_cache`, and the build up to its context. -/
  | build (e : ℕ) (st : StageCall)
  /-- In the build, before `ggml_gallocr_new`. -/
  | gallocrNew (e : ℕ) (st : StageCall)
  /-- In `free_supertonic_model`, before `unregister_supertonic_alive`. -/
  | unregister (e : ℕ)
  /-- In `free_supertonic_model`, before the backend is freed. -/
  | freeBackend (e : ℕ)

namespace Pc

/-- The engine that a thread uses. -/
def engine : Pc → Option ℕ
  | idle => none
  | load e | construct e | synthesize e | isAlive e _ | gallocrFree e _ | build e _
  | gallocrNew e _ | unregister e | freeBackend e => some e

end Pc

/-- The model of an engine, and the thread that uses it. -/
structure EngineModel (T : Type*) where
  generation : ℕ
  user : Option T

/-- What a thread keeps for a stage. -/
structure StageCache where
  key : Option BuildArgs
  /-- The model that the nodes of `ctx` refer to, with its generation. -/
  ctx : Option (ℕ × ℕ)
  /-- The generation of the backend that `allocr` is of. -/
  allocr : Option ℕ

/-- What a stage compares with its cache, for the model at an address. -/
def StageCall.args (st : StageCall) (e generation : ℕ) : BuildArgs :=
  ⟨e, generation, st.dims, st.sources, false⟩

/-- The process. The generation ids are taken not to wrap. -/
structure Process (T : Type*) where
  /-- The next id of `next_supertonic_generation_id`. -/
  nextId : ℕ
  /-- `supertonic_alive_ids`. -/
  aliveIds : Finset ℕ
  /-- The generations whose backends have been freed. -/
  freed : Finset ℕ
  engines : ℕ → Option (EngineModel T)
  pcs : T → Pc
  caches : T → Slot → StageCache

/-- A step of a thread. -/
inductive ThreadStep (T : Type*)
  /-- An engine is constructed at an address. `opened` is whether its file can be opened. -/
  | construct (t : T) (e : ℕ) (opened : Bool)
  | synthesize (t : T) (e : ℕ)
  /-- The synthesis gets to a cached stage. -/
  | stage (t : T) (st : StageCall)
  /-- The synthesis ends, also by an exception. -/
  | finish (t : T)
  | destroy (t : T) (e : ℕ)
  /-- The thread goes on. `ok` is whether the load, the check of the voice, the context or the
  allocator succeeds. -/
  | next (t : T) (ok : Bool)

namespace Process

variable {T : Type*} [DecidableEq T]

/-- A process without engines. -/
def init : Process T :=
  ⟨1, ∅, ∅, fun _ => none, fun _ => .idle, fun _ _ => ⟨none, none, none⟩⟩

/-- A thread goes on somewhere else. -/
def goto (s : Process T) (t : T) (pc : Pc) : Process T :=
  { s with pcs := Function.update s.pcs t pc }

/-- The model at an address. -/
def setEngine (s : Process T) (e : ℕ) (m? : Option (EngineModel T)) : Process T :=
  { s with engines := Function.update s.engines e m? }

/-- The cache of a thread for a stage. -/
def setCache (s : Process T) (t : T) (slot : Slot) (c : StageCache) : Process T :=
  { s with caches := Function.update s.caches t (Function.update (s.caches t) slot c) }

/-- A thread is done with an engine. -/
def leave (s : Process T) (t : T) (e g : ℕ) : Process T :=
  (s.setEngine e (some ⟨g, none⟩)).goto t .idle

/-- A thread takes an engine that no thread uses. -/
def enter (s : Process T) (t : T) (e : ℕ) (pc : Pc) : Process T :=
  match s.pcs t, s.engines e with
  | .idle, some ⟨g, none⟩ => (s.setEngine e (some ⟨g, some t⟩)).goto t pc
  | _, _ => s

/-- `is_supertonic_alive`. -/
def isSupertonicAlive (s : Process T) (g : ℕ) : Bool := g != 0 && decide (g ∈ s.aliveIds)

/-- The generation that a cache has been built for. -/
def cachedGeneration (s : Process T) (t : T) (slot : Slot) : ℕ :=
  ((s.caches t slot).key.map BuildArgs.generation).getD 0

/-- A stage looks up its cache. -/
def lookup (s : Process T) (t : T) (st : StageCall) (e g : ℕ) : Process T :=
  if (s.caches t st.slot).key = some (st.args e g) then s
  else if (s.caches t st.slot).allocr.isSome then s.goto t (.isAlive e st)
  else s.goto t (.build e st)

/-- A thread goes on with the engine that it uses, of a generation. -/
def next (s : Process T) (t : T) (g : ℕ) (ok : Bool) : Pc → Process T
  | .idle | .synthesize _ => s
  | .load e =>
    if ok then { s with aliveIds := insert g s.aliveIds }.goto t (.construct e)
    else s.goto t (.unregister e)
  | .construct e => if ok then s.leave t e g else s.goto t (.unregister e)
  | .isAlive e st =>
    if s.isSupertonicAlive (s.cachedGeneration t st.slot) then s.goto t (.gallocrFree e st)
    else s.goto t (.build e st)
  | .gallocrFree e st => s.goto t (.build e st)
  | .build e st =>
    if ok then
      (s.setCache t st.slot ⟨some (st.args e g), some (e, g), none⟩).goto t (.gallocrNew e st)
    else (s.setCache t st.slot ⟨some (st.args e g), none, none⟩).leave t e g
  | .gallocrNew e st =>
    if ok then
      (s.setCache t st.slot { s.caches t st.slot with allocr := some g }).goto t (.synthesize e)
    else s.leave t e g
  | .unregister e =>
    { s with aliveIds := if g = 0 then s.aliveIds else s.aliveIds.erase g }.goto t (.freeBackend e)
  | .freeBackend e => ({ s with freed := insert g s.freed }.setEngine e none).goto t .idle

/-- A thread takes a step. An engine is used by one thread at a time. -/
def step : ThreadStep T → Process T → Process T
  | .construct t e opened, s => match s.pcs t, s.engines e with
    | .idle, none =>
      let s' := { s with nextId := s.nextId + 1 }
      if opened then (s'.setEngine e (some ⟨s.nextId, some t⟩)).goto t (.load e) else s'
    | _, _ => s
  | .synthesize t e, s => s.enter t e (.synthesize e)
  | .destroy t e, s => s.enter t e (.unregister e)
  | .stage t st, s => match s.pcs t with
    | .synthesize e => match s.engines e with
      | some m => s.lookup t st e m.generation
      | none => s
    | _ => s
  | .finish t, s => match s.pcs t with
    | .synthesize e => match s.engines e with
      | some m => s.leave t e m.generation
      | none => s
    | _ => s
  | .next t ok, s => match (s.pcs t).engine with
    | some e => match s.engines e with
      | some m => s.next t m.generation ok (s.pcs t)
      | none => s
    | none => s

/-! ### Safety -/

/-- An engine of a generation is alive, and the thread uses it. -/
def Live (s : Process T) (t : T) (e g : ℕ) : Prop :=
  s.engines e = some ⟨g, some t⟩ ∧ g ∈ s.aliveIds

/-- A step that calls `ggml_gallocr_free` does so while the backend is there, and a hit is on a graph
of the live model of the engine. -/
def Safe (s : Process T) : ThreadStep T → Prop
  | .next t _ => ∀ e st g, s.pcs t = .gallocrFree e st → (s.caches t st.slot).allocr = some g →
    g ∉ s.freed
  | .stage t st => ∀ e m, s.pcs t = .synthesize e → s.engines e = some m →
    (s.caches t st.slot).key = some (st.args e m.generation) →
      s.Live t e m.generation ∧ m.generation ∉ s.freed ∧
        ∀ r ∈ (s.caches t st.slot).ctx, r = (e, m.generation)
  | _ => True

/-- A step that frees a backend is taken while no thread is about to free an allocator of it. -/
def Fits (s : Process T) : ThreadStep T → Prop
  | .next t _ => ∀ e m, s.pcs t = .freeBackend e → s.engines e = some m →
    ∀ t' e' st, s.pcs t' = .gallocrFree e' st →
      (s.caches t' st.slot).allocr ≠ some m.generation
  | _ => True

end Process

/-- A cache has an allocator and nodes only of the model of its key. -/
structure StageCache.Ok (c : StageCache) : Prop where
  allocr : ∀ g, c.allocr = some g → ∃ a, c.key = some a ∧ a.generation = g
  ctx : ∀ r, c.ctx = some r → ∃ a, c.key = some a ∧ r = (a.model, a.generation)

namespace Process

variable {T : Type*} [DecidableEq T]

/-- What holds of a thread at a place. -/
def PcOk (s : Process T) (t : T) : Pc → Prop
  | .idle => True
  | .load e | .unregister e => ∃ g, s.engines e = some ⟨g, some t⟩
  | .construct e | .synthesize e | .build e _ => ∃ g, s.Live t e g
  | .isAlive e st => (∃ g, s.Live t e g) ∧ ∃ g, (s.caches t st.slot).allocr = some g
  | .gallocrFree e st =>
    (∃ g, s.Live t e g) ∧ ∃ g, (s.caches t st.slot).allocr = some g ∧ g ∉ s.freed
  | .gallocrNew e st => ∃ g, s.Live t e g ∧ (s.caches t st.slot).key = some (st.args e g)
  | .freeBackend e => ∃ g, s.engines e = some ⟨g, some t⟩ ∧ g ∉ s.aliveIds

/-- The engines have generations of their own, and what is alive has not been freed. -/
structure Ids (s : Process T) : Prop where
  nextId : 0 < s.nextId
  engine : ∀ e m, s.engines e = some m →
    0 < m.generation ∧ m.generation < s.nextId ∧ m.generation ∉ s.freed
  inj : ∀ e e' m m', s.engines e = some m → s.engines e' = some m' →
    m.generation = m'.generation → e = e'
  alive : ∀ g ∈ s.aliveIds, g < s.nextId ∧ g ∉ s.freed
  freed : ∀ g ∈ s.freed, g < s.nextId
  unused : ∀ e g, s.engines e = some ⟨g, none⟩ → g ∈ s.aliveIds
  cache : ∀ t slot, (s.caches t slot).Ok

/-- What holds in every state. -/
structure Ok (s : Process T) : Prop where
  ids : s.Ids
  pc : ∀ t, s.PcOk t (s.pcs t)

omit [DecidableEq T] in
theorem ok_init : (init : Process T).Ok where
  ids := ⟨Nat.one_pos, nofun, nofun, fun _ hg => absurd hg (Finset.notMem_empty _),
    fun _ hg => absurd hg (Finset.notMem_empty _), nofun, fun _ _ => ⟨nofun, nofun⟩⟩
  pc _ := trivial

variable {s s' : Process T} {t t' : T} {e g : ℕ} {pc : Pc} {st : StageCall} {slot : Slot}

/-! ### What a thread does to the others -/

/-- What other threads may do without a thread taking notice of it. -/
structure Frame (s s' : Process T) (t : T) : Prop where
  engine : ∀ e g, s.engines e = some ⟨g, some t⟩ → s'.engines e = some ⟨g, some t⟩
  alive : ∀ e g, s.engines e = some ⟨g, some t⟩ → (g ∈ s'.aliveIds ↔ g ∈ s.aliveIds)
  cache : s'.caches t = s.caches t
  freed : ∀ e st g, s.pcs t = .gallocrFree e st → (s.caches t st.slot).allocr = some g →
    g ∉ s.freed → g ∉ s'.freed
  pc : s'.pcs t = s.pcs t

omit [DecidableEq T] in
theorem Frame.live (h : Frame s s' t) (hlive : s.Live t e g) : s'.Live t e g :=
  ⟨h.engine e g hlive.1, (h.alive e g hlive.1).mpr hlive.2⟩

omit [DecidableEq T] in
theorem Frame.pcOk (h : Frame s s' t) (hpc : s.PcOk t (s.pcs t)) : s'.PcOk t (s'.pcs t) := by
  have hfreed := h.freed
  rw [h.pc]
  generalize s.pcs t = pc at hpc hfreed
  cases pc with
  | idle => trivial
  | load e | unregister e =>
    obtain ⟨g, hengine⟩ := hpc
    exact ⟨g, h.engine e g hengine⟩
  | construct e | synthesize e | build e st =>
    obtain ⟨g, hlive⟩ := hpc
    exact ⟨g, h.live hlive⟩
  | isAlive e st =>
    obtain ⟨⟨g, hlive⟩, hallocr⟩ := hpc
    refine ⟨⟨g, h.live hlive⟩, ?_⟩
    rw [h.cache]
    exact hallocr
  | gallocrFree e st =>
    obtain ⟨⟨g, hlive⟩, g', hallocr, hkept⟩ := hpc
    refine ⟨⟨g, h.live hlive⟩, g', ?_, hfreed e st g' rfl hallocr hkept⟩
    rw [h.cache]
    exact hallocr
  | gallocrNew e st =>
    obtain ⟨g, hlive, hkey⟩ := hpc
    refine ⟨g, h.live hlive, ?_⟩
    rw [h.cache]
    exact hkey
  | freeBackend e =>
    obtain ⟨g, hengine, hdead⟩ := hpc
    exact ⟨g, h.engine e g hengine, fun halive => hdead ((h.alive e g hengine).mp halive)⟩

/-- A thread goes on, after something that the other threads take no notice of. -/
theorem Ok.goto (h : s.Ok) (hids : s'.Ids) (hframe : ∀ t' ≠ t, Frame s s' t')
    (hpc : s'.PcOk t pc) : (s'.goto t pc).Ok where
  ids := ⟨hids.nextId, hids.engine, hids.inj, hids.alive, hids.freed, hids.unused, hids.cache⟩
  pc t' := by
    show s'.PcOk t' (Function.update s'.pcs t pc t')
    by_cases ht : t' = t
    · rw [ht, Function.update_self]
      exact hpc
    · rw [Function.update_of_ne ht]
      exact (hframe t' ht).pcOk (h.pc t')

/-! ### The changes that a step makes -/

section Changes

omit [DecidableEq T] in
theorem Frame.refl (s : Process T) (t : T) : Frame s s t :=
  ⟨fun _ _ h => h, fun _ _ _ => .rfl, rfl, fun _ _ _ _ _ h => h, rfl⟩

omit [DecidableEq T] in
theorem setEngine_eq_some {m? : Option (EngineModel T)} {e' : ℕ} {m : EngineModel T}
    (h : (s.setEngine e m?).engines e' = some m) :
    e' = e ∧ m? = some m ∨ e' ≠ e ∧ s.engines e' = some m := by
  change Function.update s.engines e m? e' = some m at h
  by_cases he : e' = e
  · rw [he, Function.update_self] at h
    exact .inl ⟨he, h⟩
  · rw [Function.update_of_ne he] at h
    exact .inr ⟨he, h⟩

theorem frame_setCache (hne : t' ≠ t) (c : StageCache) : Frame s (s.setCache t slot c) t' :=
  ⟨fun _ _ h => h, fun _ _ _ => .rfl, Function.update_of_ne hne _ _, fun _ _ _ _ _ h => h, rfl⟩

omit [DecidableEq T] in
/-- A thread takes no notice of an engine that it does not use. -/
theorem frame_setEngine (h : ∀ g, s.engines e ≠ some ⟨g, some t⟩) (m? : Option (EngineModel T)) :
    Frame s (s.setEngine e m?) t where
  engine e' g hengine := by
    have hne : e' ≠ e := by
      rintro rfl
      exact h g hengine
    show Function.update s.engines e m? e' = _
    rw [Function.update_of_ne hne]
    exact hengine
  alive _ _ _ := .rfl
  cache := rfl
  freed _ _ _ _ _ h := h
  pc := rfl

omit [DecidableEq T] in
/-- A thread takes no notice of the registration of a generation that it does not use. -/
theorem frame_alive {ids : Finset ℕ} (h : ∀ e g, s.engines e = some ⟨g, some t⟩ →
    (g ∈ ids ↔ g ∈ s.aliveIds)) : Frame s { s with aliveIds := ids } t :=
  ⟨fun _ _ h => h, h, rfl, fun _ _ _ _ _ h => h, rfl⟩

omit [DecidableEq T] in
theorem Frame.trans {s'' : Process T} (h : Frame s s' t) (h' : Frame s' s'' t) :
    Frame s s'' t where
  engine e g hengine := h'.engine e g (h.engine e g hengine)
  alive e g hengine := (h'.alive e g (h.engine e g hengine)).trans (h.alive e g hengine)
  cache := h'.cache.trans h.cache
  freed e st g hpc hallocr hkept := by
    refine h'.freed e st g ?_ ?_ (h.freed e st g hpc hallocr hkept)
    · rw [h.pc]
      exact hpc
    · rw [h.cache]
      exact hallocr
  pc := h'.pc.trans h.pc

namespace Ids

omit [DecidableEq T] in
/-- The generation of an engine is not that of another. -/
theorem ne_generation (h : s.Ids) (hne : t' ≠ t) (hengine : s.engines e = some ⟨g, some t⟩)
    {e' g' : ℕ} (hengine' : s.engines e' = some ⟨g', some t'⟩) : g' ≠ g := by
  intro hg
  obtain rfl := h.inj e' e _ _ hengine' hengine hg
  rw [hengine] at hengine'
  exact hne (Option.some.inj (congrArg EngineModel.user (Option.some.inj hengine'))).symm

theorem setCache (h : s.Ids) {c : StageCache} (hc : c.Ok) : (s.setCache t slot c).Ids where
  nextId := h.nextId
  engine := h.engine
  inj := h.inj
  alive := h.alive
  freed := h.freed
  unused := h.unused
  cache t' slot' := by
    show (Function.update s.caches t _ t' slot').Ok
    by_cases ht : t' = t
    · rw [ht, Function.update_self]
      by_cases hslot : slot' = slot
      · rw [hslot, Function.update_self]
        exact hc
      · rw [Function.update_of_ne hslot]
        exact h.cache t slot'
    · rw [Function.update_of_ne ht]
      exact h.cache t' slot'

omit [DecidableEq T] in
theorem insertAlive (h : s.Ids) {m : EngineModel T} (hengine : s.engines e = some m) :
    { s with aliveIds := insert m.generation s.aliveIds }.Ids where
  nextId := h.nextId
  engine := h.engine
  inj := h.inj
  alive g hg := by
    obtain rfl | hg := Finset.mem_insert.mp hg
    · exact (h.engine e m hengine).2
    · exact h.alive g hg
  freed := h.freed
  unused e' g hunused := Finset.mem_insert_of_mem (h.unused e' g hunused)
  cache := h.cache

omit [DecidableEq T] in
theorem eraseAlive (h : s.Ids) (hengine : s.engines e = some ⟨g, some t⟩) :
    { s with aliveIds := s.aliveIds.erase g }.Ids where
  nextId := h.nextId
  engine := h.engine
  inj := h.inj
  alive g' hg' := h.alive g' (Finset.mem_of_mem_erase hg')
  freed := h.freed
  unused e' g' hunused := by
    refine Finset.mem_erase.mpr ⟨?_, h.unused e' g' hunused⟩
    rintro rfl
    obtain rfl := h.inj e' e _ _ hunused hengine rfl
    rw [hengine] at hunused
    cases hunused
  cache := h.cache

omit [DecidableEq T] in
/-- An engine changes hands. -/
theorem setUser (h : s.Ids) {u : Option T} (hengine : s.engines e = some ⟨g, u⟩) {user : Option T}
    (huser : user = none → g ∈ s.aliveIds) : (s.setEngine e (some ⟨g, user⟩)).Ids := by
  have hold : ∀ e' m, (s.setEngine e (some ⟨g, user⟩)).engines e' = some m →
      ∃ u', s.engines e' = some ⟨m.generation, u'⟩ := by
    intro e' m hm
    obtain ⟨he, hsome⟩ | ⟨-, hm⟩ := setEngine_eq_some hm
    · obtain rfl := Option.some.inj hsome
      exact ⟨u, he ▸ hengine⟩
    · exact ⟨m.user, hm⟩
  refine ⟨h.nextId, ?_, ?_, h.alive, h.freed, ?_, h.cache⟩
  · intro e' m hm
    obtain ⟨u', hm⟩ := hold e' m hm
    have hm' := h.engine e' _ hm
    exact hm'
  · intro e' e'' m m' hm hm' hg
    obtain ⟨u', hm⟩ := hold e' m hm
    obtain ⟨u'', hm'⟩ := hold e'' m' hm'
    exact h.inj e' e'' _ _ hm hm' hg
  · intro e' g' hunused
    obtain ⟨-, hm⟩ | ⟨-, hm⟩ := setEngine_eq_some hunused
    · cases hm
      exact huser rfl
    · exact h.unused e' g' hm

omit [DecidableEq T] in
/-- The next id is given to a new engine. -/
theorem create (h : s.Ids) (t : T) (e : ℕ) :
    ({ s with nextId := s.nextId + 1 }.setEngine e (some ⟨s.nextId, some t⟩)).Ids := by
  have hlt : ∀ e' m, s.engines e' = some m → m.generation ≠ s.nextId := fun e' m hm =>
    Nat.ne_of_lt (h.engine e' m hm).2.1
  refine ⟨Nat.succ_pos _, ?_, ?_, ?_, ?_, ?_, h.cache⟩
  · intro e' m hm
    obtain ⟨-, hm⟩ | ⟨-, hm⟩ := setEngine_eq_some hm
    · obtain rfl := Option.some.inj hm
      exact ⟨h.nextId, Nat.lt_succ_self _, fun hg => Nat.lt_irrefl _ (h.freed _ hg)⟩
    · obtain ⟨hpos, hm, hkept⟩ := h.engine e' m hm
      exact ⟨hpos, Nat.lt_succ_of_lt hm, hkept⟩
  · intro e' e'' m m' hm hm' hg
    obtain ⟨he', hm⟩ | ⟨-, hm⟩ := setEngine_eq_some hm <;>
      obtain ⟨he'', hm'⟩ | ⟨-, hm'⟩ := setEngine_eq_some hm'
    · exact he'.trans he''.symm
    · obtain rfl := Option.some.inj hm
      exact absurd hg.symm (hlt e'' m' hm')
    · obtain rfl := Option.some.inj hm'
      exact absurd hg (hlt e' m hm)
    · exact h.inj e' e'' m m' hm hm' hg
  · intro g hg
    exact ⟨Nat.lt_succ_of_lt (h.alive g hg).1, (h.alive g hg).2⟩
  · intro g hg
    exact Nat.lt_succ_of_lt (h.freed g hg)
  · intro e' g' hunused
    obtain ⟨-, hm⟩ | ⟨-, hm⟩ := setEngine_eq_some hunused
    · cases hm
    · exact h.unused e' g' hm

omit [DecidableEq T] in
/-- An id is used up. -/
theorem skip (h : s.Ids) : { s with nextId := s.nextId + 1 }.Ids where
  nextId := Nat.succ_pos _
  engine e m hm := by
    obtain ⟨hpos, hlt, hkept⟩ := h.engine e m hm
    exact ⟨hpos, Nat.lt_succ_of_lt hlt, hkept⟩
  inj := h.inj
  alive g hg := ⟨Nat.lt_succ_of_lt (h.alive g hg).1, (h.alive g hg).2⟩
  freed g hg := Nat.lt_succ_of_lt (h.freed g hg)
  unused := h.unused
  cache := h.cache

omit [DecidableEq T] in
/-- The backend of an engine that is not registered is freed, and the engine is gone. -/
theorem freeBackend (h : s.Ids) {u : Option T} (hengine : s.engines e = some ⟨g, u⟩)
    (hdead : g ∉ s.aliveIds) : ({ s with freed := insert g s.freed }.setEngine e none).Ids := by
  have hold : ∀ e' m, ({ s with freed := insert g s.freed }.setEngine e none).engines e' = some m →
      e' ≠ e ∧ s.engines e' = some m := by
    intro e' m hm
    obtain ⟨-, hm⟩ | hm := setEngine_eq_some hm
    · cases hm
    · exact hm
  refine ⟨h.nextId, ?_, ?_, ?_, ?_, ?_, h.cache⟩
  · intro e' m hm
    obtain ⟨hne, hm⟩ := hold e' m hm
    obtain ⟨hpos, hlt, hkept⟩ := h.engine e' m hm
    refine ⟨hpos, hlt, fun hg => ?_⟩
    obtain hg | hg := Finset.mem_insert.mp hg
    · exact hne (h.inj e' e m _ hm hengine hg)
    · exact hkept hg
  · intro e' e'' m m' hm hm'
    exact h.inj e' e'' m m' (hold e' m hm).2 (hold e'' m' hm').2
  · intro g' hg'
    refine ⟨(h.alive g' hg').1, fun hg => ?_⟩
    obtain rfl | hg := Finset.mem_insert.mp hg
    · exact hdead hg'
    · exact (h.alive g' hg').2 hg
  · intro g' hg'
    obtain rfl | hg' := Finset.mem_insert.mp hg'
    · exact (h.engine e _ hengine).2.1
    · exact h.freed g' hg'
  · intro e' g' hm
    exact h.unused e' g' (hold e' _ hm).2

end Ids

end Changes

/-! ### Steps -/

namespace Ok

/-- A thread goes on, and nothing else changes. -/
theorem goto_self (h : s.Ok) (hpc : s.PcOk t pc) : (s.goto t pc).Ok :=
  h.goto h.ids (fun t' _ => .refl s t') hpc

omit [DecidableEq T] in
/-- What the user of an engine knows of it. -/
theorem live {m : EngineModel T} (hengine : s.engines e = some m) (hlive : ∃ g, s.Live t e g) :
    s.Live t e m.generation := by
  obtain ⟨g, hg, halive⟩ := hlive
  rw [hengine] at hg
  obtain rfl := Option.some.inj hg
  exact ⟨hengine, halive⟩

omit [DecidableEq T] in
theorem pcOk (h : s.Ok) (hpc : s.pcs t = pc) : s.PcOk t pc := hpc ▸ h.pc t

omit [DecidableEq T] in
/-- Others do not use the engine of a thread. -/
theorem not_user (hne : t' ≠ t) (hengine : s.engines e = some ⟨g, some t⟩) (g' : ℕ) :
    s.engines e ≠ some ⟨g', some t'⟩ := by
  intro hengine'
  rw [hengine] at hengine'
  exact hne (Option.some.inj (congrArg EngineModel.user (Option.some.inj hengine'))).symm

/-- A thread is done with its engine, perhaps after it has written its cache. -/
theorem leave_of (h : s.Ok) (hids : s'.Ids) (hframe : ∀ t' ≠ t, Frame s s' t')
    (hlive : s'.Live t e g) : (s'.leave t e g).Ok := by
  refine h.goto (hids.setUser hlive.1 fun _ => hlive.2) (fun t' hne => ?_) trivial
  exact (hframe t' hne).trans (frame_setEngine (not_user hne hlive.1) _)

theorem leave (h : s.Ok) (hlive : s.Live t e g) : (s.leave t e g).Ok :=
  h.leave_of h.ids (fun t' _ => .refl s t') hlive

theorem enter (h : s.Ok) (hpc : ∀ s' : Process T, ∀ g, s'.Live t e g → s'.PcOk t pc) :
    (s.enter t e pc).Ok := by
  rw [Process.enter]
  split
  · rename_i g _ hengine
    have halive := h.ids.unused e g hengine
    refine h.goto (h.ids.setUser hengine nofun) (fun t' _ => ?_) (hpc _ g ⟨?_, halive⟩)
    · refine frame_setEngine (fun g' hengine' => ?_) _
      rw [hengine] at hengine'
      cases hengine'
    · exact Function.update_self e _ _
  · exact h

theorem construct (h : s.Ok) (t : T) (e : ℕ) (opened : Bool) :
    (step (.construct t e opened) s).Ok := by
  rw [step]
  split
  · rename_i hnone
    cases opened with
    | false => exact ⟨h.ids.skip, h.pc⟩
    | true =>
      refine h.goto (h.ids.create t e) (fun t' _ => ?_) ⟨s.nextId, Function.update_self e _ _⟩
      have hskip : Frame s { s with nextId := s.nextId + 1 } t' :=
        ⟨fun _ _ h => h, fun _ _ _ => .rfl, rfl, fun _ _ _ _ _ h => h, rfl⟩
      refine hskip.trans (frame_setEngine (fun g hengine => ?_) _)
      change s.engines e = _ at hengine
      rw [hnone] at hengine
      cases hengine
  · exact h

theorem lookup (h : s.Ok) (hlive : s.Live t e g) : (s.lookup t st e g).Ok := by
  rw [Process.lookup]
  split_ifs with hhit hallocr
  · exact h
  · exact h.goto_self ⟨⟨g, hlive⟩, Option.isSome_iff_exists.mp hallocr⟩
  · exact h.goto_self ⟨g, hlive⟩

theorem stage (h : s.Ok) (t : T) (st : StageCall) : (step (.stage t st) s).Ok := by
  rw [step]
  split
  · rename_i e hpc
    split
    · rename_i m hengine
      exact h.lookup (live hengine (h.pcOk hpc))
    · exact h
  · exact h

theorem finish (h : s.Ok) (t : T) : (step (.finish t) s).Ok := by
  rw [step]
  split
  · rename_i e hpc
    split
    · rename_i m hengine
      exact h.leave (live hengine (h.pcOk hpc))
    · exact h
  · exact h

omit [DecidableEq T] in
/-- The generation of a cache with an allocator is that of the allocator. -/
theorem cachedGeneration_eq (h : s.Ok) (hallocr : (s.caches t slot).allocr = some g) :
    s.cachedGeneration t slot = g := by
  obtain ⟨a, hkey, ha⟩ := (h.ids.cache t slot).allocr g hallocr
  rw [cachedGeneration, hkey]
  exact ha

omit [DecidableEq T] in
theorem mem_of_isSupertonicAlive (h : s.isSupertonicAlive g = true) : g ∈ s.aliveIds := by
  rw [isSupertonicAlive, Bool.and_eq_true] at h
  exact of_decide_eq_true h.2

/-- The engine of a thread is registered. -/
theorem register (h : s.Ok) (hengine : s.engines e = some ⟨g, some t⟩) :
    ({ s with aliveIds := insert g s.aliveIds }.goto t (.construct e)).Ok := by
  refine h.goto (h.ids.insertAlive hengine) (fun t' hne => ?_)
    ⟨g, hengine, Finset.mem_insert_self _ _⟩
  refine frame_alive fun e' g' hengine' => ?_
  rw [Finset.mem_insert]
  exact or_iff_right (h.ids.ne_generation hne hengine hengine')

/-- The engine of a thread is unregistered. -/
theorem unregister (h : s.Ok) (hengine : s.engines e = some ⟨g, some t⟩) :
    ({ s with aliveIds := if g = 0 then s.aliveIds else s.aliveIds.erase g }.goto t
      (.freeBackend e)).Ok := by
  have hpos : g ≠ 0 := Nat.ne_of_gt (h.ids.engine e _ hengine).1
  rw [if_neg hpos]
  refine h.goto (h.ids.eraseAlive hengine) (fun t' hne => ?_)
    ⟨g, hengine, Finset.notMem_erase _ _⟩
  refine frame_alive fun e' g' hengine' => ?_
  rw [Finset.mem_erase]
  exact and_iff_right (h.ids.ne_generation hne hengine hengine')

/-- The backend of the engine of a thread is freed. -/
theorem freeBackend (h : s.Ok) (hengine : s.engines e = some ⟨g, some t⟩) (hdead : g ∉ s.aliveIds)
    (hfits : ∀ t' e' st, s.pcs t' = .gallocrFree e' st →
      (s.caches t' st.slot).allocr ≠ some g) :
    (({ s with freed := insert g s.freed }.setEngine e none).goto t .idle).Ok := by
  refine h.goto (h.ids.freeBackend hengine hdead) (fun t' hne => ?_) trivial
  have hfreed : Frame s { s with freed := insert g s.freed } t' := by
    refine ⟨fun _ _ h => h, fun _ _ _ => .rfl, rfl, fun e' st g' hpc hallocr hkept hg' => ?_, rfl⟩
    obtain rfl | hg' := Finset.mem_insert.mp hg'
    · exact hfits t' e' st hpc hallocr
    · exact hkept hg'
  refine hfreed.trans (frame_setEngine (fun g' => ?_) none)
  exact not_user hne hengine g'

/-- A thread writes its cache and goes on. -/
theorem write (h : s.Ok) {c : StageCache} (hc : c.Ok) (hpc : (s.setCache t slot c).PcOk t pc) :
    ((s.setCache t slot c).goto t pc).Ok :=
  h.goto (h.ids.setCache hc) (fun _ hne => frame_setCache hne c) hpc

theorem setCache_self (s : Process T) (t : T) (slot : Slot) (c : StageCache) :
    (s.setCache t slot c).caches t slot = c := by
  show Function.update s.caches t _ t slot = c
  rw [Function.update_self, Function.update_self]

theorem build (h : s.Ok) (hlive : s.Live t e g) (ok : Bool) :
    (s.next t g ok (.build e st)).Ok := by
  cases ok with
  | false =>
    have hc : (⟨some (st.args e g), none, none⟩ : StageCache).Ok := ⟨nofun, nofun⟩
    exact h.leave_of (h.ids.setCache hc) (fun _ hne => frame_setCache hne _) hlive
  | true =>
    refine h.write ⟨nofun, fun r hr => ?_⟩ ⟨g, hlive, ?_⟩
    · obtain rfl := Option.some.inj hr
      exact ⟨_, rfl, rfl⟩
    · rw [setCache_self]

theorem gallocrNew (h : s.Ok) (hlive : s.Live t e g)
    (hkey : (s.caches t st.slot).key = some (st.args e g)) (ok : Bool) :
    (s.next t g ok (.gallocrNew e st)).Ok := by
  cases ok with
  | false => exact h.leave hlive
  | true =>
    refine h.write ⟨fun g' hg' => ?_, (h.ids.cache t st.slot).ctx⟩ ⟨g, hlive⟩
    obtain rfl := Option.some.inj hg'
    exact ⟨_, hkey, rfl⟩

theorem isAlive (h : s.Ok) (hlive : s.Live t e g) {g' : ℕ}
    (hallocr : (s.caches t st.slot).allocr = some g') (ok : Bool) :
    (s.next t g ok (.isAlive e st)).Ok := by
  rw [Process.next]
  split_ifs with halive
  · rw [h.cachedGeneration_eq hallocr] at halive
    have hkept := (h.ids.alive g' (mem_of_isSupertonicAlive halive)).2
    exact h.goto_self ⟨⟨g, hlive⟩, g', hallocr, hkept⟩
  · exact h.goto_self ⟨g, hlive⟩

/-- A thread goes on with its engine. -/
theorem next (h : s.Ok) {m : EngineModel T} (huser : (s.pcs t).engine = some e)
    (hengine : s.engines e = some m) (ok : Bool) (hfits : s.Fits (.next t ok)) :
    (s.next t m.generation ok (s.pcs t)).Ok := by
  cases hpc : s.pcs t with
  | idle | synthesize => exact h
  | load e' =>
    obtain ⟨g, hg⟩ := h.pcOk hpc
    rw [hpc] at huser
    obtain rfl := Option.some.inj huser
    obtain rfl := Option.some.inj (hengine.symm.trans hg)
    cases ok with
    | false => exact h.goto_self ⟨g, hg⟩
    | true => exact h.register hg
  | construct e' =>
    rw [hpc] at huser
    obtain rfl := Option.some.inj huser
    have hlive := live hengine (h.pcOk hpc)
    cases ok with
    | false => exact h.goto_self ⟨_, hlive.1⟩
    | true => exact h.leave hlive
  | isAlive e' st =>
    obtain ⟨hlive, g', hallocr⟩ := h.pcOk hpc
    rw [hpc] at huser
    obtain rfl := Option.some.inj huser
    exact h.isAlive (live hengine hlive) hallocr ok
  | gallocrFree e' st => exact h.goto_self (h.pcOk hpc).1
  | build e' st =>
    rw [hpc] at huser
    obtain rfl := Option.some.inj huser
    exact h.build (live hengine (h.pcOk hpc)) ok
  | gallocrNew e' st =>
    obtain ⟨g, hlive, hkey⟩ := h.pcOk hpc
    rw [hpc] at huser
    obtain rfl := Option.some.inj huser
    obtain rfl := Option.some.inj (hengine.symm.trans hlive.1)
    exact h.gallocrNew hlive hkey ok
  | unregister e' =>
    obtain ⟨g, hg⟩ := h.pcOk hpc
    rw [hpc] at huser
    obtain rfl := Option.some.inj huser
    obtain rfl := Option.some.inj (hengine.symm.trans hg)
    exact h.unregister hg
  | freeBackend e' =>
    obtain ⟨g, hg, hdead⟩ := h.pcOk hpc
    rw [hpc] at huser
    obtain rfl := Option.some.inj huser
    have hothers := hfits e' m hpc hengine
    obtain rfl := Option.some.inj (hengine.symm.trans hg)
    exact h.freeBackend hg hdead hothers

/-- A step that fits keeps the engines apart, and what a thread has looked up. -/
theorem step (h : s.Ok) (x : ThreadStep T) (hfits : s.Fits x) : (step x s).Ok := by
  cases x with
  | construct t e opened => exact h.construct t e opened
  | synthesize t e => exact h.enter fun _ g hlive => ⟨g, hlive⟩
  | destroy t e => exact h.enter fun _ g hlive => ⟨g, hlive.1⟩
  | stage t st => exact h.stage t st
  | finish t => exact h.finish t
  | next t ok =>
    rw [Process.step]
    split
    · rename_i e huser
      split
      · rename_i m hengine
        exact h.next huser hengine ok hfits
      · exact h
    · exact h

omit [DecidableEq T] in
/-- Every step that may come is safe. -/
theorem safe (h : s.Ok) (x : ThreadStep T) : s.Safe x := by
  cases x with
  | construct | synthesize | finish | destroy => trivial
  | next t ok =>
    intro e st g hpc hallocr
    obtain ⟨-, g', hallocr', hkept⟩ := h.pcOk hpc
    rw [hallocr] at hallocr'
    obtain rfl := Option.some.inj hallocr'
    exact hkept
  | stage t st =>
    intro e m hpc hengine hkey
    have hlive := live hengine (h.pcOk hpc)
    refine ⟨hlive, (h.ids.alive _ hlive.2).2, fun r hr => ?_⟩
    obtain ⟨a, ha, hr⟩ := (h.ids.cache t st.slot).ctx r hr
    rw [hkey] at ha
    obtain rfl := Option.some.inj ha
    exact hr

end Ok

/-- A step that does not fit leaves a thread at the free of an allocator whose backend is gone. -/
theorem fits_of_safe {x : ThreadStep T} (h : ∀ y, (step x s).Safe y) : s.Fits x := by
  cases x with
  | construct | synthesize | finish | destroy | stage => trivial
  | next t ok =>
    intro e m hpc hengine t' e' st hpc' hallocr
    have hstep : step (.next t ok) s =
        ({ s with freed := insert m.generation s.freed }.setEngine e none).goto t .idle := by
      simp only [step, hpc, Pc.engine, hengine, next]
    have hne : t' ≠ t := by
      rintro rfl
      rw [hpc] at hpc'
      cases hpc'
    have hsafe := h (.next t' true) e' st m.generation
    rw [hstep] at hsafe
    refine hsafe ?_ hallocr (Finset.mem_insert_self _ _)
    show Function.update s.pcs t .idle t' = _
    rw [Function.update_of_ne hne]
    exact hpc'

/-- In a run, every step that may come is safe exactly if the steps of the run fit. -/
theorem safe_iff (xs : ℕ → ThreadStep T) :
    (∀ n x, (Machine.run step xs init n).Safe x) ↔
      ∀ n, (Machine.run step xs init n).Fits (xs n) := by
  constructor
  · intro h n
    exact fits_of_safe (h (n + 1))
  · intro h n x
    have hok := Machine.run_invariant (fun s x hfits (hs : s.Ok) => hs.step x hfits) ok_init
      fun m (_ : m < n) => h m
    exact hok.safe x

/-- While one thread is about to free the allocator of an engine that was used on it before, another
destroys this engine. -/
def destroyedBetween : List (ThreadStep Bool) :=
  [.construct true 0 true, .next true true, .next true true, .construct true 1 true,
    .next true true, .next true true, .synthesize true 0, .stage true (.vocoder 2),
    .next true true, .next true true, .finish true, .synthesize true 1, .stage true (.vocoder 2),
    .next true true, .destroy false 0, .next false true, .next false true]

/-- The allocator is freed after its backend. -/
theorem not_safe : ¬∀ (xs : ℕ → ThreadStep Bool) n x, (Machine.run step xs init n).Safe x := by
  intro h
  have hsafe := h (fun n => destroyedBetween.getD n (.next true true)) 17 (.next true true) 1
    (.vocoder 2) 1 rfl rfl
  exact hsafe (by decide)

end Process

end Supertonic

end WhisperCpp
