import WhisperCpp.Library.LruIndex
import WhisperCpp.Library.Machine
import Mathlib.Data.Nat.Bits
import Mathlib.Tactic.SplitIfs

/-!
# The step graphs that the multilingual T3 keeps

With `CHATTERBOX_T3_STEP_CACHE` set, `run_step_pass` takes its graph from a list that all engines
of the process share. An entry is found by `n_past` and by the half, conditional or unconditional;
its graph refers to the weights and the KV buffer of the model that it was built for. The lock is
held for a lookup and for an insertion, not from one to the other and not for the evaluation.

## Main definitions

* `lookup`, `insertOrGet` — the two operations on the list
* `StepState`, `step` — engines that are created, make calls and are destroyed, a step at a time
* `Fits` — a graph that is evaluated is still kept, and was built for the model of the call

## Main results

* `Ok.step` — the list and the index stay in bijection, below the capacity
* `stepCache_transparent` — in runs whose steps fit, all calls return what they return without the
  list
-/

namespace WhisperCpp

namespace Chatterbox

namespace StepCache

/-! ### The list -/

/-- `T3_STEP_CACHE_CAP`. -/
def stepCacheCap : ℕ := 256

/-- `pack_step_key`. -/
def packStepKey (nPast : ℕ) (isUncond : Bool) : ℕ := nPast <<< 1 ||| if isUncond then 1 else 0

/-- A graph of `build_step_graph_mtl_in_ctx`: what it was built for. -/
structure StepGraph (E : Type*) where
  model : E
  nPast : ℕ
  isUncond : Bool
  deriving DecidableEq, Repr

/-- `t3_step_cache_lru` and `t3_step_cache_idx`, with the counters. -/
structure StepGraphs (E : Type*) where
  graphs : LruIndex ℕ (StepGraph E)
  hits : ℕ
  misses : ℕ

variable {E M T L : Type*}

namespace StepGraphs

/-- The list of a new process. -/
def empty : StepGraphs E := ⟨.empty, 0, 0⟩

/-- `t3_release_caches`. -/
def release (c : StepGraphs E) : StepGraphs E := ⟨c.graphs.clear, 0, 0⟩

/-- `t3_step_cache_lookup`. -/
def lookup (c : StepGraphs E) (nPast : ℕ) (isUncond : Bool) : Option ℕ × StepGraphs E :=
  match c.graphs.lookup (packStepKey nPast isUncond) with
  | (none, _) => (none, { c with misses := c.misses + 1 })
  | (some i, graphs) => (some i, { c with graphs := graphs, hits := c.hits + 1 })

/-- `t3_step_cache_insert_or_get`. The node that `emplace_front` makes and `pop_front` takes away
where `ggml_init` fails is left out. -/
def insertOrGet (c : StepGraphs E) (model : E) (nPast : ℕ) (isUncond initOk : Bool) :
    Option ℕ × StepGraphs E :=
  let key := packStepKey nPast isUncond
  match c.graphs.lookup key with
  | (some i, graphs) => (some i, { c with graphs := graphs, hits := c.hits + 1 })
  | (none, _) =>
    let graphs := if stepCacheCap ≤ c.graphs.lru.length then c.graphs.popBack else c.graphs
    if initOk then
      (some graphs.next, { c with graphs := graphs.push key ⟨model, nPast, isUncond⟩ })
    else (none, { c with graphs := graphs })

/-- The list and the index are in bijection, at most at the capacity, and every graph is found by
what it was built for. -/
structure Ok (c : StepGraphs E) : Prop where
  sound : c.graphs.Sound
  length : c.graphs.lru.length ≤ stepCacheCap
  key : ∀ n ∈ c.graphs.lru, n.key = packStepKey n.val.nPast n.val.isUncond

/-- A number that a call holds: it has been given out, and a node that has it has the key. -/
def Held (c : StepGraphs E) (i : ℕ) (nPast : ℕ) (isUncond : Bool) : Prop :=
  i < c.graphs.next ∧ ∀ n ∈ c.graphs.lru, n.id = i → n.key = packStepKey nPast isUncond

theorem packStepKey_eq (nPast : ℕ) (isUncond : Bool) :
    packStepKey nPast isUncond = 2 * nPast + if isUncond then 1 else 0 := by
  have hlt : (if isUncond then 1 else 0) < 2 ^ 1 := by cases isUncond <;> decide
  rw [packStepKey, ← Nat.shiftLeft_add_eq_or_of_lt hlt, Nat.shiftLeft_eq]
  omega

theorem packStepKey_inj {nPast nPast' : ℕ} {isUncond isUncond' : Bool}
    (h : packStepKey nPast isUncond = packStepKey nPast' isUncond') :
    nPast = nPast' ∧ isUncond = isUncond' := by
  rw [packStepKey_eq, packStepKey_eq] at h
  cases isUncond <;> cases isUncond' <;> simp at h ⊢ <;> omega

theorem ok_empty : (empty : StepGraphs E).Ok where
  sound := LruIndex.sound_empty
  length := Nat.zero_le _
  key := fun _ hn => nomatch hn

variable {c : StepGraphs E}

theorem ok_release (c : StepGraphs E) : c.release.Ok where
  sound := c.graphs.sound_clear
  length := Nat.zero_le _
  key := fun _ hn => nomatch hn

theorem held_release (c : StepGraphs E) {i nPast : ℕ} {isUncond : Bool}
    (h : c.Held i nPast isUncond) : c.release.Held i nPast isUncond :=
  ⟨h.1, fun _ hn => nomatch hn⟩

/-- What an operation on the list keeps, and what it gives for a key. -/
structure Served (c : StepGraphs E) (nPast : ℕ) (isUncond : Bool) (r : Option ℕ × StepGraphs E) :
    Prop where
  ok : r.2.Ok
  held : ∀ i nPast' isUncond', c.Held i nPast' isUncond' → r.2.Held i nPast' isUncond'
  found : ∀ i, r.1 = some i → r.2.Held i nPast isUncond

/-- The node that the list gives for a key. -/
theorem served_hit (h : c.Ok) {nPast : ℕ} {isUncond : Bool} {i : ℕ}
    {graphs : LruIndex ℕ (StepGraph E)}
    (hlookup : c.graphs.lookup (packStepKey nPast isUncond) = (some i, graphs)) (hits misses : ℕ) :
    c.Served nPast isUncond (some i, ⟨graphs, hits, misses⟩) := by
  have hsound := LruIndex.sound_lookup h.sound (packStepKey nPast isUncond)
  have hkey := h.sound.key_of_lookup (k := packStepKey nPast isUncond) (i := i)
  obtain ⟨hperm, hidx, hnext⟩ := c.graphs.lookup_keeps (packStepKey nPast isUncond)
  rw [hlookup] at hsound hkey hperm hidx hnext
  dsimp only at hsound hperm hidx hnext
  refine ⟨⟨hsound, ?_, ?_⟩, ?_, ?_⟩
  · exact hperm.length_eq ▸ h.length
  · exact fun n hn => h.key n (hperm.mem_iff.1 hn)
  · rintro j nPast' isUncond' ⟨hlt, hall⟩
    exact ⟨hnext ▸ hlt, fun n hn => hall n (hperm.mem_iff.1 hn)⟩
  · rintro j hj
    obtain rfl := Option.some.inj hj
    obtain ⟨n, hn, -, hid⟩ := (h.sound.index (packStepKey nPast isUncond) i).1 (by
      rw [← LruIndex.lookup_fst, hlookup])
    refine ⟨?_, fun n hn => hkey rfl n (hperm.mem_iff.1 hn)⟩
    rw [← hid]
    exact hnext ▸ h.sound.fresh n hn

theorem served_lookup (h : c.Ok) (nPast : ℕ) (isUncond : Bool) :
    c.Served nPast isUncond (c.lookup nPast isUncond) := by
  rw [lookup]
  split
  · exact ⟨⟨h.sound, h.length, h.key⟩, fun i _ _ hi => hi, fun i hi => nomatch hi⟩
  · rename_i i graphs hlookup
    exact served_hit h hlookup _ _

/-- The list once there is room for another node. -/
theorem ok_evicted (h : c.Ok) {graphs : LruIndex ℕ (StepGraph E)}
    (hgraphs : graphs = if stepCacheCap ≤ c.graphs.lru.length then c.graphs.popBack else c.graphs) :
    graphs.Sound ∧ graphs.lru.length < stepCacheCap ∧ graphs.next = c.graphs.next ∧
      ∀ n ∈ graphs.lru, n ∈ c.graphs.lru := by
  split_ifs at hgraphs with hfull <;> subst hgraphs
  · refine ⟨LruIndex.sound_popBack h.sound, ?_, c.graphs.popBack_next, c.graphs.popBack_subset⟩
    rw [LruIndex.popBack_length]
    have hlen := h.length
    have hpos : 0 < stepCacheCap := by decide
    omega
  · exact ⟨h.sound, Nat.lt_of_not_le hfull, rfl, fun n hn => hn⟩

theorem served_insertOrGet (h : c.Ok) (model : E) (nPast : ℕ) (isUncond initOk : Bool) :
    c.Served nPast isUncond (c.insertOrGet model nPast isUncond initOk) := by
  rw [insertOrGet]
  split
  · rename_i i graphs hlookup
    exact served_hit h hlookup _ _
  · rename_i graphs hlookup
    have hnone : c.graphs.idx (packStepKey nPast isUncond) = none := by
      rw [← LruIndex.lookup_fst, hlookup]
    generalize hgraphs :
      (if stepCacheCap ≤ c.graphs.lru.length then c.graphs.popBack else c.graphs) = graphs
    obtain ⟨hsound, hlen, hnext, hsub⟩ := ok_evicted h hgraphs.symm
    cases initOk with
    | false =>
      refine ⟨⟨hsound, Nat.le_of_lt hlen, fun n hn => h.key n (hsub n hn)⟩, ?_, ?_⟩
      · rintro i nPast' isUncond' ⟨hlt, hall⟩
        exact ⟨hnext ▸ hlt, fun n hn => hall n (hsub n hn)⟩
      · intro i hi
        cases hi
    | true =>
      have hkeys : ∀ n ∈ graphs.lru, n.key ≠ packStepKey nPast isUncond := fun n hn =>
        h.sound.idx_eq_none.1 hnone n (hsub n hn)
      refine ⟨⟨LruIndex.sound_push hsound hkeys _, hlen, ?_⟩, ?_, ?_⟩
      · intro n hn
        obtain rfl | hn := List.mem_cons.1 hn
        · rfl
        · exact h.key n (hsub n hn)
      · rintro i nPast' isUncond' ⟨hlt, hall⟩
        refine ⟨Nat.lt_succ_of_lt (hnext ▸ hlt), fun n hn hid => ?_⟩
        obtain rfl | hn := List.mem_cons.1 hn
        · exact absurd (hid.symm.trans hnext) (Nat.ne_of_lt hlt)
        · exact hall n (hsub n hn) hid
      · intro i hi
        obtain rfl := Option.some.inj hi
        refine ⟨Nat.lt_succ_self _, fun n hn hid => ?_⟩
        obtain rfl | hn := List.mem_cons.1 hn
        · rfl
        · exact absurd hid (Nat.ne_of_lt (hsound.fresh n hn))

end StepGraphs

/-! ### Engines -/

/-- What the models of the engines are for a step, and what their graphs compute: the logits, and
the KV buffer that is left. -/
structure StepModels (E M T L : Type*) where
  maxSpeechTokens : E → ℤ
  /-- `backend_is_cpu(model.backend)`. -/
  backendIsCpu : E → Bool
  eval : StepGraph E → T → M → L × M
  evalB2 : E → ℕ → T → M → (L × L) × M

/-- Where a call of `eval_step_mtl` is. -/
inductive StepPc
  /-- Before `t3_step_cache_lookup`. -/
  | lookup (isUncond : Bool)
  /-- Before `t3_step_cache_insert_or_get`. -/
  | insert (isUncond : Bool) (entry : Option ℕ)
  /-- Before the graph is taken and evaluated. -/
  | compute (isUncond : Bool) (entry : Option ℕ)
  /-- Before `run_step_pass_b2`. -/
  | computeB2

namespace StepPc

/-- The entry that a call holds, and the half that it is for. -/
def entry : StepPc → Option (ℕ × Bool)
  | insert isUncond entry => entry.map fun i => (i, isUncond)
  | compute isUncond entry => entry.map fun i => (i, isUncond)
  | _ => none

/-- The same place, without an entry. -/
def forget : StepPc → StepPc
  | insert isUncond _ => insert isUncond none
  | compute isUncond _ => compute isUncond none
  | pc => pc

theorem entry_insert {entry : Option ℕ} {i : ℕ} {isUncond isUncond' : Bool}
    (h : (insert isUncond entry).entry = some (i, isUncond')) :
    entry = some i ∧ isUncond = isUncond' := by
  obtain ⟨j, rfl, heq⟩ := Option.map_eq_some_iff.1 h
  obtain ⟨rfl, rfl⟩ := Prod.mk.inj heq
  exact ⟨rfl, rfl⟩

theorem entry_compute {entry : Option ℕ} {i : ℕ} {isUncond isUncond' : Bool}
    (h : (compute isUncond entry).entry = some (i, isUncond')) :
    entry = some i ∧ isUncond = isUncond' :=
  entry_insert h

end StepPc

/-- A call of `eval_step_mtl`. -/
structure StepCall (T L : Type*) where
  nPast : ℕ
  token : T
  pc : StepPc
  /-- `logits_cond_out`, once the conditional pass has written it. -/
  logitsCond : Option L

/-- A call without what it holds of the list. -/
def StepCall.forget (call : StepCall T L) : StepCall T L := { call with pc := call.pc.forget }

/-- The process. An engine has its KV buffer while it lives, and at most one call. -/
structure StepState (E M T L : Type*) where
  cache : StepGraphs E
  kv : E → Option M
  calls : E → Option (StepCall T L)
  /-- What the calls have returned, in this order. -/
  returned : List (E × Option (L × L))
  /-- A graph was evaluated that was no longer kept, or whose model was gone. -/
  dangling : Bool

/-- What happens next. -/
inductive StepInput (E M T : Type*)
  /-- An engine loads its model. -/
  | create (e : E) (kv : M)
  /-- An engine is destroyed. -/
  | destroy (e : E)
  /-- The lists are cleared alone, as where a constructor throws. -/
  | release
  /-- An engine evaluates a prompt. -/
  | prompt (e : E) (f : M → M)
  /-- An engine calls `eval_step_mtl`. -/
  | call (e : E) (nPast : ℕ) (token : T)
  /-- The call of an engine goes on. `ok` is whether `ggml_init`, or `ggml_gallocr_alloc_graph`,
  succeeds. -/
  | next (e : E) (ok : Bool)

namespace StepState

/-- A process without engines. -/
def init : StepState E M T L := ⟨.empty, fun _ => none, fun _ => none, [], false⟩

variable [DecidableEq E]

/-- A call goes on somewhere else. -/
def goto (s : StepState E M T L) (e : E) (call : StepCall T L) (pc : StepPc) :
    StepState E M T L :=
  { s with calls := Function.update s.calls e (some { call with pc := pc }) }

/-- A call returns. -/
def finish (s : StepState E M T L) (e : E) (r : Option (L × L)) : StepState E M T L :=
  { s with calls := Function.update s.calls e none, returned := s.returned ++ [(e, r)] }

/-- A call uses what is gone. -/
def fail (s : StepState E M T L) (e : E) : StepState E M T L :=
  { s with calls := Function.update s.calls e none, dangling := true }

/-- The graph that a pass evaluates, if it is there. -/
def graph (s : StepState E M T L) (e : E) (nPast : ℕ) (isUncond : Bool) :
    Option ℕ → Option (StepGraph E)
  | none => some ⟨e, nPast, isUncond⟩
  | some i => (s.cache.graphs.node? i).map LruNode.val

/-- The evaluation of a pass, and what `eval_step_mtl` does next. -/
def compute (P : StepModels E M T L) (s : StepState E M T L) (e : E) (call : StepCall T L)
    (isUncond : Bool) (g : StepGraph E) (kv : M) (ok : Bool) : StepState E M T L :=
  if ok then
    let (logits, kv) := P.eval g call.token kv
    let s := { s with kv := Function.update s.kv g.model (some kv) }
    if isUncond then s.finish e (call.logitsCond.map fun cond => (cond, logits))
    else s.goto e { call with logitsCond := some logits } (.lookup true)
  else s.finish e none

/-- `run_step_pass_b2`. -/
def computeB2 (P : StepModels E M T L) (s : StepState E M T L) (e : E) (call : StepCall T L)
    (kv : M) (ok : Bool) : StepState E M T L :=
  if ok then
    let (logits, kv) := P.evalB2 e call.nPast call.token kv
    { s with kv := Function.update s.kv e (some kv) }.finish e (some logits)
  else s.finish e none

/-- A pass evaluates its graph, if it is there with its model. -/
def pass (P : StepModels E M T L) (s : StepState E M T L) (e : E) (call : StepCall T L)
    (isUncond : Bool) (g? : Option (StepGraph E)) (ok : Bool) : StepState E M T L :=
  match g? with
  | none => s.fail e
  | some g => match s.kv g.model with
    | none => s.fail e
    | some kv => s.compute P e call isUncond g kv ok

/-- Both passes are evaluated at once. -/
def passB2 (P : StepModels E M T L) (s : StepState E M T L) (e : E) (call : StepCall T L)
    (ok : Bool) : StepState E M T L :=
  match s.kv e with
  | none => s.fail e
  | some kv => s.computeB2 P e call kv ok

/-- A call goes on. -/
def next (P : StepModels E M T L) (enabled : Bool) (s : StepState E M T L) (e : E)
    (call : StepCall T L) (ok : Bool) : StepState E M T L :=
  match call.pc with
  | .lookup isUncond =>
    if enabled then
      let (entry, cache) := s.cache.lookup call.nPast isUncond
      { s with cache := cache }.goto e call (.insert isUncond entry)
    else s.goto e call (.insert isUncond none)
  | .insert isUncond entry =>
    if enabled && entry.isNone then
      let (entry, cache) := s.cache.insertOrGet e call.nPast isUncond ok
      { s with cache := cache }.goto e call (.compute isUncond entry)
    else s.goto e call (.compute isUncond entry)
  | .compute isUncond entry =>
    s.pass P e call isUncond (s.graph e call.nPast isUncond entry) ok
  | .computeB2 => s.passB2 P e call ok

/-- A step of the process. A call is made of an engine that lives and has none; an engine is
destroyed, or evaluates a prompt, only between its calls. -/
def step (P : StepModels E M T L) (enabled : Bool) :
    StepInput E M T → StepState E M T L → StepState E M T L
  | .create e kv, s => match s.kv e with
    | some _ => s
    | none => { s with kv := Function.update s.kv e (some kv) }
  | .destroy e, s => match s.calls e with
    | some _ => s
    | none => { s with cache := s.cache.release, kv := Function.update s.kv e none }
  | .release, s => { s with cache := s.cache.release }
  | .prompt e f, s => match s.calls e, s.kv e with
    | none, some kv => { s with kv := Function.update s.kv e (some (f kv)) }
    | _, _ => s
  | .call e nPast token, s => match s.calls e, s.kv e with
    | none, some _ =>
      if 0 < P.maxSpeechTokens e ∧ P.maxSpeechTokens e ≤ nPast then s.finish e none
      else s.goto e ⟨nPast, token, .computeB2, none⟩
        (if P.backendIsCpu e then .lookup false else .computeB2)
    | _, _ => s
  | .next e ok, s => match s.calls e with
    | none => s
    | some call => s.next P enabled e call ok

/-! ### What holds in every state -/

omit [DecidableEq E] in
/-- The state without the list: what the calls hold of it is forgotten. -/
def forget (s : StepState E M T L) : StepState E M T L :=
  { s with cache := .empty, calls := fun e => (s.calls e).map StepCall.forget }

/-- The list is right, what a call holds of it is for the call, and a call is of an engine that
lives. -/
structure Ok (s : StepState E M T L) : Prop where
  cache : s.cache.Ok
  held : ∀ e call i isUncond, s.calls e = some call → call.pc.entry = some (i, isUncond) →
    s.cache.Held i call.nPast isUncond
  live : ∀ e call, s.calls e = some call → s.kv e ≠ none

omit [DecidableEq E] in
theorem ok_init : (init : StepState E M T L).Ok where
  cache := StepGraphs.ok_empty
  held := fun _ _ _ _ hcall => nomatch hcall
  live := fun _ _ hcall => nomatch hcall

theorem update_eq_some {α β : Type*} [DecidableEq α] {f : α → Option β} {a a' : α}
    {b? : Option β} {b : β} (h : Function.update f a b? a' = some b) :
    a' = a ∧ b? = some b ∨ f a' = some b := by
  by_cases ha : a' = a
  · rw [ha, Function.update_self] at h
    exact .inl ⟨ha, h⟩
  · rw [Function.update_of_ne ha] at h
    exact .inr h

namespace Ok

variable {s : StepState E M T L} (h : s.Ok) {e : E}
include h

/-- A call of a living engine goes on, with what it holds, or ends. -/
theorem setCall {call? : Option (StepCall T L)}
    (hnew : ∀ call, call? = some call → s.kv e ≠ none ∧ ∀ i isUncond,
      call.pc.entry = some (i, isUncond) → s.cache.Held i call.nPast isUncond)
    (returned : List (E × Option (L × L))) (dangling : Bool) :
    { s with calls := Function.update s.calls e call?, returned := returned,
             dangling := dangling }.Ok where
  cache := h.cache
  held := fun e' call i isUncond hcall hentry => by
    obtain ⟨-, hcall⟩ | hcall := update_eq_some hcall
    · exact (hnew call hcall).2 i isUncond hentry
    · exact h.held e' call i isUncond hcall hentry
  live := fun e' call hcall => by
    obtain ⟨he, hcall⟩ | hcall := update_eq_some hcall
    · exact he ▸ (hnew call hcall).1
    · exact h.live e' call hcall

theorem goto (hlive : s.kv e ≠ none) {call : StepCall T L} {pc : StepPc}
    (hpc : ∀ i isUncond, pc.entry = some (i, isUncond) → s.cache.Held i call.nPast isUncond) :
    (s.goto e call pc).Ok :=
  h.setCall (fun _ hcall => by obtain rfl := Option.some.inj hcall; exact ⟨hlive, hpc⟩) _ _

theorem drop (returned : List (E × Option (L × L))) (dangling : Bool) :
    { s with calls := Function.update s.calls e none, returned := returned,
             dangling := dangling }.Ok :=
  h.setCall (fun call (hcall : none = some call) => nomatch hcall) _ _

theorem setKv (e : E) (kv : M) : { s with kv := Function.update s.kv e (some kv) }.Ok where
  cache := h.cache
  held := h.held
  live := fun e' call hcall => by
    show Function.update s.kv e (some kv) e' ≠ none
    by_cases he : e' = e
    · rw [he, Function.update_self]
      exact Option.some_ne_none kv
    · rw [Function.update_of_ne he]
      exact h.live e' call hcall

omit [DecidableEq E] in
theorem setCache {nPast : ℕ} {isUncond : Bool} {r : Option ℕ × StepGraphs E}
    (hr : s.cache.Served nPast isUncond r) : { s with cache := r.2 }.Ok where
  cache := hr.ok
  held := fun e call i isUncond hcall hentry =>
    hr.held i call.nPast isUncond (h.held e call i isUncond hcall hentry)
  live := h.live

omit [DecidableEq E] in
theorem release : { s with cache := s.cache.release }.Ok where
  cache := StepGraphs.ok_release s.cache
  held := fun e call i isUncond hcall hentry =>
    StepGraphs.held_release s.cache (h.held e call i isUncond hcall hentry)
  live := h.live

theorem compute (P : StepModels E M T L) {call : StepCall T L} (hcall : s.calls e = some call)
    (isUncond : Bool) (g : StepGraph E) (kv : M) (ok : Bool) :
    (s.compute P e call isUncond g kv ok).Ok := by
  rw [StepState.compute]
  cases ok with
  | false => exact h.drop _ _
  | true =>
    have hkv := h.setKv g.model (P.eval g call.token kv).2
    cases isUncond with
    | false => exact hkv.goto (hkv.live e call hcall) (fun _ _ hentry => nomatch hentry)
    | true => exact hkv.drop _ _

theorem computeB2 (P : StepModels E M T L) (call : StepCall T L) (kv : M) (ok : Bool) :
    (s.computeB2 P e call kv ok).Ok := by
  rw [StepState.computeB2]
  cases ok with
  | false => exact h.drop _ _
  | true => exact (h.setKv e (P.evalB2 e call.nPast call.token kv).2).drop _ _

theorem pass (P : StepModels E M T L) {call : StepCall T L} (hcall : s.calls e = some call)
    (isUncond : Bool) (g? : Option (StepGraph E)) (ok : Bool) :
    (s.pass P e call isUncond g? ok).Ok := by
  cases g? with
  | none => exact h.drop _ _
  | some g =>
    rw [StepState.pass]
    split
    · exact h.drop _ _
    · exact h.compute P hcall isUncond g _ ok

theorem passB2 (P : StepModels E M T L) (call : StepCall T L) (ok : Bool) :
    (s.passB2 P e call ok).Ok := by
  rw [StepState.passB2]
  split
  · exact h.drop _ _
  · exact h.computeB2 P call _ ok

theorem next (P : StepModels E M T L) (enabled : Bool) {call : StepCall T L}
    (hcall : s.calls e = some call) (ok : Bool) : (s.next P enabled e call ok).Ok := by
  have hlive := h.live e call hcall
  rw [StepState.next]
  cases hpc : call.pc with
  | lookup isUncond =>
    cases enabled with
    | false => exact h.goto hlive (fun _ _ hentry => nomatch hentry)
    | true =>
      have hserved := StepGraphs.served_lookup h.cache call.nPast isUncond
      refine (h.setCache hserved).goto hlive fun i isUncond' hentry => ?_
      obtain ⟨hfound, rfl⟩ := StepPc.entry_insert hentry
      exact hserved.found i hfound
  | insert isUncond entry =>
    have hkeep : (s.goto e call (.compute isUncond entry)).Ok := by
      refine h.goto hlive fun i isUncond' hentry => ?_
      exact h.held e call i isUncond' hcall (by rw [hpc]; exact hentry)
    cases enabled with
    | false => exact hkeep
    | true =>
      cases entry with
      | some i => exact hkeep
      | none =>
        have hserved := StepGraphs.served_insertOrGet h.cache e call.nPast isUncond ok
        refine (h.setCache hserved).goto hlive fun i isUncond' hentry => ?_
        obtain ⟨hfound, rfl⟩ := StepPc.entry_compute hentry
        exact hserved.found i hfound
  | compute isUncond entry => exact h.pass P hcall isUncond _ ok
  | computeB2 => exact h.passB2 P call ok

/-- A step keeps the list right. -/
theorem step (P : StepModels E M T L) (enabled : Bool) (x : StepInput E M T) :
    (step P enabled x s).Ok := by
  cases x with
  | create e kv =>
    rw [StepState.step]
    split
    · exact h
    · exact h.setKv e kv
  | destroy e =>
    rw [StepState.step]
    split
    · exact h
    · rename_i hnone
      refine ⟨h.release.cache, h.release.held, fun e' call hcall => ?_⟩
      have he : e' ≠ e := by
        rintro rfl
        rw [hnone] at hcall
        cases hcall
      show Function.update s.kv e none e' ≠ none
      rw [Function.update_of_ne he]
      exact h.live e' call hcall
  | release => exact h.release
  | prompt e f =>
    rw [StepState.step]
    split
    · exact h.setKv e _
    · exact h
  | call e nPast token =>
    rw [StepState.step]
    split
    · rename_i kv _ hkv
      split_ifs
      · exact h.drop _ _
      · exact h.goto (by rw [hkv]; exact Option.some_ne_none kv) (fun _ _ hentry => nomatch hentry)
      · exact h.goto (by rw [hkv]; exact Option.some_ne_none kv) (fun _ _ hentry => nomatch hentry)
    · exact h
  | next e ok =>
    rw [StepState.step]
    split
    · exact h
    · rename_i call hcall
      exact h.next P enabled hcall ok

end Ok

/-! ### Runs with and without the list -/

/-- Where the next step of a call evaluates a graph of the list, the graph is still kept, and it
was built for the model of the call. -/
def callFits (s : StepState E M T L) (e : E) (call : StepCall T L) : Bool :=
  match call.pc with
  | .compute isUncond (some i) =>
    (s.graph e call.nPast isUncond (some i)).map StepGraph.model == some e
  | _ => true

/-- A step fits. -/
def Fits (s : StepState E M T L) : StepInput E M T → Bool
  | .next e _ => (s.calls e).all (s.callFits e)
  | _ => true

theorem forget_setCall (s : StepState E M T L) (e : E) (call? : Option (StepCall T L))
    (returned : List (E × Option (L × L))) (dangling : Bool) :
    { s with calls := Function.update s.calls e call?, returned := returned,
             dangling := dangling }.forget =
      { s.forget with calls := Function.update s.forget.calls e (call?.map StepCall.forget),
                      returned := returned, dangling := dangling } := by
  simp only [forget, StepState.mk.injEq, true_and, and_true]
  exact Function.comp_update (Option.map StepCall.forget) s.calls e call?

theorem forget_goto (s : StepState E M T L) (e : E) (call : StepCall T L) (pc : StepPc) :
    (s.goto e call pc).forget = s.forget.goto e call.forget pc.forget :=
  s.forget_setCall e _ _ _

theorem forget_compute (P : StepModels E M T L) (s : StepState E M T L) (e : E)
    (call : StepCall T L) (isUncond : Bool) (g : StepGraph E) (kv : M) (ok : Bool) :
    (s.compute P e call isUncond g kv ok).forget =
      s.forget.compute P e call.forget isUncond g kv ok := by
  rw [compute, compute]
  cases ok with
  | false => exact s.forget_setCall e none _ _
  | true =>
    cases isUncond with
    | false => exact forget_goto _ e _ _
    | true => exact forget_setCall _ e none _ _

theorem forget_computeB2 (P : StepModels E M T L) (s : StepState E M T L) (e : E)
    (call : StepCall T L) (kv : M) (ok : Bool) :
    (s.computeB2 P e call kv ok).forget = s.forget.computeB2 P e call.forget kv ok := by
  rw [computeB2, computeB2]
  cases ok with
  | false => exact s.forget_setCall e none _ _
  | true => exact forget_setCall _ e none _ _

/-- The graph of a step that fits is the one that would be built. -/
theorem graph_of_fits {s : StepState E M T L} (h : s.Ok) {e : E} {nPast : ℕ} {token : T}
    {isUncond : Bool} {entry : Option ℕ} {cond : Option L}
    (hcall : s.calls e = some ⟨nPast, token, .compute isUncond entry, cond⟩)
    (hfits : s.callFits e ⟨nPast, token, .compute isUncond entry, cond⟩) :
    s.graph e nPast isUncond entry = some ⟨e, nPast, isUncond⟩ := by
  cases entry with
  | none => rfl
  | some i =>
    obtain ⟨g, hgraph, hmodel⟩ := Option.map_eq_some_iff.1 (beq_iff_eq.1 hfits)
    obtain ⟨n, hnode, rfl⟩ := Option.map_eq_some_iff.1 hgraph
    obtain ⟨hn, hid⟩ := LruIndex.mem_of_node? hnode
    have hheld := h.held e _ i isUncond hcall rfl
    have hkey := (h.cache.key n hn).symm.trans (hheld.2 n hn hid)
    obtain ⟨hnPast, hhalf⟩ := StepGraphs.packStepKey_inj hkey
    dsimp only at hnPast
    rw [hgraph, ← hmodel, ← hnPast, ← hhalf]

theorem forget_pass (P : StepModels E M T L) {s : StepState E M T L} {e : E}
    (hlive : s.kv e ≠ none) (call : StepCall T L) (nPast : ℕ) (isUncond ok : Bool) :
    (s.pass P e call isUncond (some ⟨e, nPast, isUncond⟩) ok).forget =
        s.forget.pass P e call.forget isUncond (some ⟨e, nPast, isUncond⟩) ok ∧
      (s.pass P e call isUncond (some ⟨e, nPast, isUncond⟩) ok).dangling = s.dangling := by
  obtain ⟨kv, hkv⟩ := Option.ne_none_iff_exists'.1 hlive
  have hkv' : s.forget.kv e = some kv := hkv
  simp only [pass, hkv, hkv']
  refine ⟨forget_compute P s e call isUncond _ kv ok, ?_⟩
  rw [compute]
  cases ok <;> cases isUncond <;> rfl

theorem forget_passB2 (P : StepModels E M T L) {s : StepState E M T L} {e : E}
    (hlive : s.kv e ≠ none) (call : StepCall T L) (ok : Bool) :
    (s.passB2 P e call ok).forget = s.forget.passB2 P e call.forget ok ∧
      (s.passB2 P e call ok).dangling = s.dangling := by
  obtain ⟨kv, hkv⟩ := Option.ne_none_iff_exists'.1 hlive
  have hkv' : s.forget.kv e = some kv := hkv
  simp only [passB2, hkv, hkv']
  refine ⟨forget_computeB2 P s e call kv ok, ?_⟩
  rw [computeB2]
  cases ok <;> rfl

theorem forget_next {s : StepState E M T L} (h : s.Ok) (P : StepModels E M T L) {e : E}
    {ok : Bool} {call : StepCall T L} (hcall : s.calls e = some call)
    (hfits : s.callFits e call) :
    (s.next P true e call ok).forget = s.forget.next P false e call.forget ok ∧
      (s.next P true e call ok).dangling = s.dangling := by
  obtain ⟨nPast, token, pc, logitsCond⟩ := call
  have hlive := h.live e _ hcall
  rw [next, next]
  cases pc with
  | lookup isUncond => exact ⟨forget_goto _ e _ _, rfl⟩
  | insert isUncond entry => cases entry <;> exact ⟨forget_goto _ e _ _, rfl⟩
  | compute isUncond entry =>
    dsimp only
    rw [graph_of_fits h hcall hfits]
    exact forget_pass P hlive _ nPast isUncond ok
  | computeB2 => exact forget_passB2 P hlive _ ok

/-- A step that fits does to the engines what it does without the list. -/
theorem forget_step {s : StepState E M T L} (h : s.Ok) (P : StepModels E M T L)
    {x : StepInput E M T} (hfits : s.Fits x) :
    (step P true x s).forget = step P false x s.forget ∧
      (step P true x s).dangling = s.dangling := by
  have hkv : ∀ e, s.forget.kv e = s.kv e := fun _ => rfl
  have hcalls : ∀ e, s.forget.calls e = (s.calls e).map StepCall.forget := fun _ => rfl
  cases x with
  | create e kv =>
    rw [step, step, hkv]
    cases s.kv e <;> exact ⟨rfl, rfl⟩
  | destroy e =>
    rw [step, step, hcalls]
    cases s.calls e <;> exact ⟨rfl, rfl⟩
  | release => exact ⟨rfl, rfl⟩
  | prompt e f =>
    rw [step, step, hcalls, hkv]
    cases s.calls e <;> cases s.kv e <;> exact ⟨rfl, rfl⟩
  | call e nPast token =>
    rw [step, step, hcalls, hkv]
    cases s.calls e with
    | some call => exact ⟨rfl, rfl⟩
    | none =>
      cases s.kv e with
      | none => exact ⟨rfl, rfl⟩
      | some kv =>
        dsimp only [Option.map_none]
        split_ifs
        · exact ⟨s.forget_setCall e none _ _, rfl⟩
        · exact ⟨s.forget_goto e _ _, rfl⟩
        · exact ⟨s.forget_goto e _ _, rfl⟩
  | next e ok =>
    rw [Fits] at hfits
    rw [step, step, hcalls]
    cases hcall : s.calls e with
    | none => exact ⟨rfl, rfl⟩
    | some call =>
      rw [hcall] at hfits
      exact forget_next h P hcall hfits

/-- The states of two processes, one with the list and one without it. -/
def Agrees (s t : StepState E M T L) : Prop := s.Ok ∧ s.dangling = false ∧ s.forget = t

theorem Agrees.step {s t : StepState E M T L} (h : s.Agrees t) (P : StepModels E M T L)
    {x : StepInput E M T} (hfits : s.Fits x) : (step P true x s).Agrees (step P false x t) := by
  obtain ⟨hok, hdangling, rfl⟩ := h
  obtain ⟨hstep, hsame⟩ := forget_step hok P hfits
  exact ⟨hok.step P true x, hsame.trans hdangling, hstep⟩

/-- In every state of a process the list and the index are in bijection and hold at most the
capacity. In a run whose steps all fit, no graph is used that is gone, and all calls return, and
leave in the KV buffers, what they do without the list. -/
theorem stepCache_transparent (P : StepModels E M T L) (xs : ℕ → StepInput E M T) (n : ℕ) :
    (Machine.run (step P true) xs init n).cache.Ok ∧
    ((∀ m < n, (Machine.run (step P true) xs init m).Fits (xs m)) →
      (Machine.run (step P true) xs init n).dangling = false ∧
      (Machine.run (step P true) xs init n).returned =
        (Machine.run (step P false) xs init n).returned ∧
      (Machine.run (step P true) xs init n).kv = (Machine.run (step P false) xs init n).kv) := by
  constructor
  · have hreach : Machine.Reachable (step P true) (Eq init) (Machine.run (step P true) xs init n) :=
      Machine.Reachable.run (.init rfl) xs n
    have hok : (Machine.run (step P true) xs init n).Ok :=
      hreach.invariant (fun s hs => hs ▸ ok_init) fun s x _ _ h => h.step P true x
    exact hok.cache
  · intro hfits
    have hinit : Agrees (init : StepState E M T L) init := ⟨ok_init, rfl, rfl⟩
    have hrel : Agrees (Machine.run (step P true) xs init n)
        (Machine.run (step P false) xs init n) :=
      Machine.run_rel (F := fun (s : StepState E M T L) x => s.Fits x)
        (fun _ _ _ hfits h => h.step P hfits) hinit hfits
    obtain ⟨-, hdangling, hforget⟩ := hrel
    rw [← hforget]
    exact ⟨hdangling, rfl, rfl⟩

/-! ### Two engines at one position -/

/-- Graphs that compute the model they were built for. -/
def modelNames : StepModels Bool Unit Unit Bool where
  maxSpeechTokens := fun _ => 0
  backendIsCpu := fun _ => true
  eval := fun g _ kv => (g.model, kv)
  evalB2 := fun e _ _ kv => ((e, e), kv)

/-- Two engines; a step of the first, then a step of the second at `n_past` as given. -/
def twoSteps (nPast : ℕ) (n : ℕ) : StepInput Bool Unit Unit :=
  if n = 0 then .create false ()
  else if n = 1 then .create true ()
  else if n = 2 then .call false 0 ()
  else if n < 9 then .next false true
  else if n = 9 then .call true nPast ()
  else .next true true

/-- At the position of the first engine, the second gets the logits of the first. -/
theorem not_stepCache_transparent :
    ¬∀ (P : StepModels Bool Unit Unit Bool) (xs : ℕ → StepInput Bool Unit Unit) (n : ℕ),
      (Machine.run (step P true) xs init n).returned =
        (Machine.run (step P false) xs init n).returned := by
  intro h
  have hrun := h modelNames (twoSteps 0) 16
  revert hrun
  decide

/-- At another position, it gets its own. -/
theorem stepCache_transparent_two_positions :
    (Machine.run (step modelNames true) (twoSteps 1) init 16).returned =
      (Machine.run (step modelNames false) (twoSteps 1) init 16).returned :=
  ((stepCache_transparent modelNames (twoSteps 1) 16).2 (by decide)).2.1

end StepState

end StepCache

end Chatterbox

end WhisperCpp
