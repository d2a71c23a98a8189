import WhisperCpp.Library.StagedBuild
import Mathlib.Data.List.Nodup

/-!
# Cached ggml graphs whose builds may throw

A cached stage of the text-to-speech engines keeps a context, a graph, and an allocator, with the key
that they were built for. A build throws where a tensor is missing, where a shape cannot be
repeated, and where memory cannot be had. There are two forms of it: in S3Gen the key is written
once there is a context, and in Supertonic at the beginning.

## Main definitions

* `BuildOp` — an operation of a build
* `CachedGraph` — the build of a stage, what its lookup checks and what its evaluation uses
* `s3genGraph`, `supertonicGraph` — the two forms of builds

## Main results

* `ok_s3genGraph`, `ok_supertonicGraph` — what an evaluation needs comes only after the last point
-/

namespace WhisperCpp

namespace CachedBuild

open StagedBuild

/-- What an evaluation uses of a cached graph. -/
inductive Part
  | ctx
  /-- A node that is in the graph, to be read after the evaluation. -/
  | output (name : String)
  /-- An input that is written where the graph is built. -/
  | input (name : String)
  | allocr
  /-- The tensors have their memory. -/
  | allocated
  deriving DecidableEq

/-- An operation of a build. -/
inductive BuildOp
  /-- `if (cache.allocr) { ggml_gallocr_free(cache.allocr); cache.allocr = nullptr; }` -/
  | freeAllocr
  /-- `if (cache.ctx) { ggml_free(cache.ctx); cache.ctx = nullptr; }` -/
  | freeCtx
  /-- `free_*_cache`. -/
  | freeCache
  /-- `cache.buf.resize`, always to the same size. -/
  | resizeBuf
  /-- Memory for a string or a vector. -/
  | allocate (what : String)
  /-- `ggml_init` and `ggml_new_graph_custom`. -/
  | initCtx
  /-- `find_tensor`, or `require_source_tensor`. -/
  | require (name : String)
  /-- `repeat_like`. Where an operation of its own takes its place, this point does not fail. -/
  | repeatLike (name : String)
  /-- `scalar_f32_tensor`. -/
  | scalarF32 (name : String)
  /-- `ggml_build_forward_expand`. -/
  | expand (output : String)
  /-- `ggml_gallocr_new`, and whether its result is checked. -/
  | gallocrNew (checked : Bool)
  /-- `ggml_gallocr_reserve`, and whether its result is checked. -/
  | gallocrReserve (checked : Bool)
  /-- `ggml_gallocr_alloc_graph`. -/
  | allocGraph
  /-- `ggml_backend_tensor_set` of an input. -/
  | setInput (name : String)

namespace BuildOp

/-- What an operation does to the cache. -/
def steps : BuildOp → List (Step Part)
  | freeAllocr => [.release fun p => p == .allocr || p == .allocated]
  | freeCtx => [.release fun p => p != .allocr]
  | freeCache => [.clear]
  | resizeBuf => [.reserve]
  | allocate _ | require _ | repeatLike _ | scalarF32 _ => [.point]
  | initCtx => [.provide .ctx]
  | expand output => [.provide (.output output)]
  | gallocrNew checked => if checked then [.point, .provide .allocr] else [.provide .allocr]
  | gallocrReserve checked => if checked then [.point] else []
  | allocGraph => [.provide .allocated]
  | setInput name => [.provide (.input name)]

/-- An operation on the nodes of the graph. -/
def isNode : BuildOp → Bool
  | allocate _ | require _ | repeatLike _ | scalarF32 _ | expand _ => true
  | _ => false

/-- A bias is repeated over the tensor that it is added to. -/
def requireBias (name : String) : List BuildOp := [require name, repeatLike name]

end BuildOp

/-- The build of a cached stage. -/
structure CachedGraph where
  /-- A hit needs a context. -/
  checksCtx : Bool
  /-- The graph is allocated at each call. -/
  allocsAtCall : Bool
  /-- The outputs that a call reads. -/
  reads : List String
  /-- The inputs that the build writes. -/
  writes : List String
  beforeKey : List BuildOp
  afterKey : List BuildOp

/-- The build as a script. -/
def CachedGraph.script (g : CachedGraph) : Script Part where
  guard := if g.checksCtx then [.ctx] else []
  needs := [.ctx, .allocr] ++ g.reads.map .output ++ g.writes.map .input ++
    if g.allocsAtCall then [] else [.allocated]
  opening := g.beforeKey.flatMap BuildOp.steps
  body := g.afterKey.flatMap BuildOp.steps

/-- The form of a build in S3Gen. The graph is allocated at each call. -/
def s3genGraph (checksCtx : Bool) (output : String) (nodes : List BuildOp) : CachedGraph where
  checksCtx := checksCtx
  allocsAtCall := true
  reads := [output]
  writes := []
  beforeKey := [.freeAllocr, .freeCtx, .resizeBuf, .initCtx]
  afterKey := nodes ++ [.expand output, .gallocrNew false, .gallocrReserve false]

/-- The form of a build in Supertonic. `sources` are the strings of the key, which is there once they
are copied, and `names` other strings that are copied after them. -/
def supertonicGraph (sources names : List String) (nodes : List BuildOp) (reads writes : List String) :
    CachedGraph where
  checksCtx := false
  allocsAtCall := false
  reads := reads
  writes := writes
  beforeKey := .freeCache :: sources.map .allocate
  afterKey := names.map .allocate ++ [.allocate "buf", .initCtx] ++ nodes ++
    [.gallocrNew true, .gallocrReserve true, .allocGraph] ++
    writes.flatMap fun name => [.allocate name, .setInput name]

/-! ### The shape of the builds -/

variable {nodes ops : List BuildOp} {st : Step Part}

theorem steps_isNode {op : BuildOp} (h : op.isNode = true) (hst : st ∈ op.steps) :
    st = .point ∨ ∃ output, st = .provide (.output output) := by
  cases op with
  | allocate | require | repeatLike | scalarF32 => exact .inl (List.mem_singleton.mp hst)
  | expand output => exact .inr ⟨output, List.mem_singleton.mp hst⟩
  | _ => cases h

/-- The nodes of a graph are its tensors and outputs. -/
theorem steps_nodes (h : nodes.all BuildOp.isNode = true)
    (hst : st ∈ nodes.flatMap BuildOp.steps) :
    st = .point ∨ ∃ output, st = .provide (.output output) := by
  obtain ⟨op, hop, hst⟩ := List.mem_flatMap.mp hst
  exact steps_isNode (List.all_eq_true.mp h op hop) hst

theorem provide_notMem_nodes (h : nodes.all BuildOp.isNode = true) {q : Part}
    (hq : ∀ output, q ≠ .output output) : .provide q ∉ nodes.flatMap BuildOp.steps := by
  intro hmem
  obtain hpoint | ⟨output, hprovide⟩ := steps_nodes h hmem
  · cases hpoint
  · exact hq output (Step.provide.inj hprovide)

/-- Memory for strings is only points. -/
theorem steps_allocate {names : List String}
    (hst : st ∈ (names.map BuildOp.allocate).flatMap BuildOp.steps) : st = .point := by
  obtain ⟨op, hop, hst⟩ := List.mem_flatMap.mp hst
  obtain ⟨name, -, rfl⟩ := List.mem_map.mp hop
  exact List.mem_singleton.mp hst

theorem opening_s3genGraph (checksCtx : Bool) (output : String) (nodes : List BuildOp) :
    (s3genGraph checksCtx output nodes).script.opening =
      [.release fun p => p == .allocr || p == .allocated, .release fun p => p != .allocr, .reserve,
        .provide .ctx] :=
  rfl

theorem body_s3genGraph (checksCtx : Bool) (output : String) (nodes : List BuildOp) :
    (s3genGraph checksCtx output nodes).script.body =
      nodes.flatMap BuildOp.steps ++ [.provide (.output output)] ++ [.provide .allocr] := by
  show (nodes ++ _).flatMap BuildOp.steps = _
  rw [List.flatMap_append, List.append_assoc]
  rfl

/-- In S3Gen the allocator comes after all points. -/
theorem ok_s3genGraph (checksCtx : Bool) (output : String)
    (hnodes : nodes.all BuildOp.isNode = true) : (s3genGraph checksCtx output nodes).script.Ok := by
  have hctx : Provided (s3genGraph checksCtx output nodes).script.opening .ctx :=
    ⟨[.release _, .release _, .reserve], [], opening_s3genGraph checksCtx output nodes, nofun⟩
  refine ⟨?_, ?_, ?_, ?_, ?_, ?_⟩
  · rw [opening_s3genGraph]
    simp
  · intro st hst
    rw [body_s3genGraph] at hst
    simp only [List.mem_append, List.mem_singleton] at hst
    obtain (hst | rfl) | rfl := hst
    · obtain hpoint | ⟨output', hprovide⟩ := steps_nodes hnodes hst
      · exact .inl hpoint
      · exact .inr ⟨_, hprovide⟩
    · exact .inr ⟨_, rfl⟩
    · exact .inr ⟨_, rfl⟩
  · intro q hq
    cases checksCtx with
    | false => exact nomatch hq
    | true =>
      obtain rfl := List.mem_singleton.mp hq
      exact hctx
  · intro q hq
    change q ∈ [Part.ctx, .allocr, .output output] at hq
    rw [body_s3genGraph]
    simp only [List.mem_cons, List.not_mem_nil, or_false] at hq
    obtain rfl | rfl | rfl := hq
    · exact .inl hctx
    · exact .inr (by simp)
    · exact .inr (by simp)
  · refine ⟨.allocr, ?_, ⟨_, List.mem_cons_self, rfl⟩, ?_, _, _, body_s3genGraph _ _ _, ?_, ?_⟩
    · show Part.allocr ∈ [Part.ctx, .allocr, .output output]
      simp
    · rw [opening_s3genGraph]
      simp
    · rw [List.mem_append, not_or]
      exact ⟨provide_notMem_nodes hnodes (fun _ => Part.noConfusion), by simp⟩
    · simp
  · right
    rw [opening_s3genGraph]
    simp

theorem opening_supertonicGraph (sources names : List String) (nodes : List BuildOp)
    (reads writes : List String) : (supertonicGraph sources names nodes reads writes).script.opening =
      .clear :: (sources.map BuildOp.allocate).flatMap BuildOp.steps :=
  rfl

/-- The steps that write the inputs of a build. -/
def writeSteps (writes : List String) : List (Step Part) :=
  writes.flatMap fun name => [.point, .provide (.input name)]

/-- The steps of a build of Supertonic after its key, up to the allocator. -/
def graphSteps (names : List String) (nodes : List BuildOp) : List (Step Part) :=
  (names.map BuildOp.allocate).flatMap BuildOp.steps ++ [.point, .provide .ctx] ++
    nodes.flatMap BuildOp.steps ++ [.point, .provide .allocr, .point]

theorem body_supertonicGraph (sources names : List String) (nodes : List BuildOp)
    (reads writes : List String) : (supertonicGraph sources names nodes reads writes).script.body =
      graphSteps names nodes ++ .provide .allocated :: writeSteps writes := by
  have hwrites : (writes.flatMap fun name => [BuildOp.allocate name, .setInput name]).flatMap
      BuildOp.steps = writeSteps writes := by
    rw [writeSteps, List.flatMap_assoc]
    rfl
  show (_ ++ _ ++ _ ++ _ ++ _ : List BuildOp).flatMap BuildOp.steps = _
  rw [List.flatMap_append, List.flatMap_append, List.flatMap_append, List.flatMap_append, hwrites,
    graphSteps]
  simp only [List.append_assoc]
  rfl

theorem mem_writeSteps {writes : List String} (hst : st ∈ writeSteps writes) :
    st = .point ∨ ∃ name ∈ writes, st = .provide (.input name) := by
  obtain ⟨name, hname, hst⟩ := List.mem_flatMap.mp hst
  simp only [List.mem_cons, List.not_mem_nil, or_false] at hst
  obtain rfl | rfl := hst
  · exact .inl rfl
  · exact .inr ⟨name, hname, rfl⟩

theorem mem_graphSteps {names : List String} (hnodes : nodes.all BuildOp.isNode = true)
    (hst : st ∈ graphSteps names nodes) : st = .point ∨ st = .provide .ctx ∨
      st = .provide .allocr ∨ ∃ output, st = .provide (.output output) := by
  simp only [graphSteps, List.mem_append, List.mem_cons, List.not_mem_nil, or_false] at hst
  obtain ((hst | rfl | rfl) | hst) | rfl | rfl | rfl := hst
  · exact .inl (steps_allocate hst)
  · exact .inl rfl
  · exact .inr (.inl rfl)
  · obtain hpoint | houtput := steps_nodes hnodes hst
    · exact .inl hpoint
    · exact .inr (.inr (.inr houtput))
  · exact .inl rfl
  · exact .inr (.inr (.inl rfl))
  · exact .inl rfl

/-- What is not a part of the graph is not provided before the allocator is there. -/
theorem provide_notMem_graphSteps {names : List String} (hnodes : nodes.all BuildOp.isNode = true)
    {q : Part} (hctx : q ≠ .ctx) (hallocr : q ≠ .allocr) (houtput : ∀ output, q ≠ .output output) :
    .provide q ∉ graphSteps names nodes := by
  intro hmem
  obtain h | h | h | ⟨output, h⟩ := mem_graphSteps hnodes hmem
  · cases h
  · exact hctx (Step.provide.inj h)
  · exact hallocr (Step.provide.inj h)
  · exact houtput output (Step.provide.inj h)

variable (sources names reads : List String) {writes : List String}

/-- What comes last in a build of Supertonic: the memory of the tensors, or an input. -/
theorem last_supertonicGraph (hnodes : nodes.all BuildOp.isNode = true) (hwrites : writes.Nodup) :
    ∃ q ∈ (supertonicGraph sources names nodes reads writes).script.needs, ∃ mid fin,
      (supertonicGraph sources names nodes reads writes).script.body = mid ++ fin ∧
        .provide q ∉ mid ∧ .point ∉ fin := by
  rw [body_supertonicGraph]
  obtain rfl | ⟨init, name, rfl⟩ := List.eq_nil_or_concat' writes
  · refine ⟨.allocated, ?_, graphSteps names nodes, [.provide .allocated], rfl, ?_, by simp⟩
    · exact List.mem_append_right _ (List.mem_singleton_self _)
    · exact provide_notMem_graphSteps hnodes Part.noConfusion Part.noConfusion
        fun _ => Part.noConfusion
  · refine ⟨.input name, ?_, graphSteps names nodes ++ .provide .allocated ::
      (writeSteps init ++ [.point]), [.provide (.input name)], ?_, ?_, by simp⟩
    · refine List.mem_append_left _ (List.mem_append_right _ ?_)
      exact List.mem_map.mpr ⟨name, List.mem_append_right _ (List.mem_singleton_self _), rfl⟩
    · rw [writeSteps, List.flatMap_append]
      simp [writeSteps]
    · rw [List.mem_append, List.mem_cons, List.mem_append, List.mem_singleton]
      rintro (hgraph | h | hinit | h)
      · exact provide_notMem_graphSteps hnodes Part.noConfusion Part.noConfusion
          (fun _ => Part.noConfusion) hgraph
      · cases h
      · obtain h | ⟨name', hname', h⟩ := mem_writeSteps hinit
        · cases h
        · cases h
          exact (List.nodup_append.mp hwrites).2.2 name hname' name (List.mem_singleton_self _) rfl
      · cases h

/-- In Supertonic the memory of the tensors, and the inputs, come after all points. -/
theorem ok_supertonicGraph (hnodes : nodes.all BuildOp.isNode = true)
    (hreads : ∀ output ∈ reads, .expand output ∈ nodes) (hwrites : writes.Nodup) :
    (supertonicGraph sources names nodes reads writes).script.Ok := by
  have hbody := body_supertonicGraph sources names nodes reads writes
  have hopening : ∀ st ∈ (supertonicGraph sources names nodes reads writes).script.opening,
      st = .clear ∨ st = .point := by
    intro st hst
    obtain rfl | hst := List.mem_cons.mp hst
    · exact .inl rfl
    · exact .inr (steps_allocate hst)
  refine ⟨?_, ?_, nofun, ?_, ?_, .inl ⟨_, rfl⟩⟩
  · intro hmem
    obtain h | h := hopening _ hmem <;> cases h
  · intro st hst
    rw [hbody, List.mem_append, List.mem_cons] at hst
    obtain hst | rfl | hst := hst
    · obtain h | h | h | ⟨output, h⟩ := mem_graphSteps hnodes hst
      · exact .inl h
      · exact .inr ⟨_, h⟩
      · exact .inr ⟨_, h⟩
      · exact .inr ⟨_, h⟩
    · exact .inr ⟨_, rfl⟩
    · obtain h | ⟨name, -, h⟩ := mem_writeSteps hst
      · exact .inl h
      · exact .inr ⟨_, h⟩
  · intro q hq
    right
    rw [hbody]
    change q ∈ [Part.ctx, .allocr] ++ reads.map Part.output ++ writes.map Part.input ++
      [.allocated] at hq
    simp only [List.mem_append, List.mem_cons, List.not_mem_nil, or_false, List.mem_map] at hq
    obtain (((rfl | rfl) | ⟨output, houtput, rfl⟩) | ⟨name, hname, rfl⟩) | rfl := hq
    · exact List.mem_append_left _ (by simp [graphSteps])
    · exact List.mem_append_left _ (by simp [graphSteps])
    · refine List.mem_append_left _ (List.mem_append_left _ (List.mem_append_right _ ?_))
      exact List.mem_flatMap.mpr ⟨_, hreads output houtput, List.mem_singleton_self _⟩
    · refine List.mem_append_right _ (List.mem_cons_of_mem _ ?_)
      exact List.mem_flatMap.mpr ⟨name, hname, by simp⟩
    · exact List.mem_append_right _ List.mem_cons_self
  · obtain ⟨q, hq, hlast⟩ := last_supertonicGraph sources names reads hnodes hwrites
    refine ⟨q, hq, ⟨.clear, List.mem_cons_self, trivial⟩, ?_, hlast⟩
    intro hmem
    obtain h | h := hopening _ hmem <;> cases h

end CachedBuild

end WhisperCpp
