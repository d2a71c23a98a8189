import WhisperCpp.Ggml.GallocrRuns
import WhisperCpp.Library.Fuel
import Mathlib.Logic.Relation
import Mathlib.Data.List.Nodup
import Mathlib.Logic.Function.Basic

/-!
# Graphs that are built

`ggml_build_forward_expand` puts a tensor behind everything that it is computed from. Backends run
the nodes one after another, take places back by counting uses, and leave out what is not marked.

## Main definitions

* `Tensors` — the tensors that there are
* `visitParentsGraph`, `Call`, `run` — the program
* `canFuseSubgraph` — the fusion of nodes that follow one another
* `Building` — a graph in which some tensors are being visited
* `Built` — the graph between two calls

## Main results

* `visited_of_visitParentsGraph` — what a visit does
* `built_of_run` — the graph after any calls
* `Built.wellFormed` — a graph that is built can be planned
* `elided_of_canFuseSubgraph` — what is fused is read by nothing else
-/

namespace WhisperCpp

namespace Forward

/-- `ggml_cgraph_eval_order`. -/
inductive EvalOrder where
  | leftToRight
  | rightToLeft
  deriving DecidableEq, Repr

/-- The tensors, in the order in which they are made. An operation of `none` is `GGML_OP_NONE`. -/
structure Tensors (ω : Type) where
  op : ℕ → Option ω
  src : ℕ → Fin 10 → Option ℕ
  viewSrc : ℕ → Option ℕ
  param : ℕ → Bool
  output : ℕ → Bool
  /-- A tensor is made from tensors that there are. -/
  src_lt : ∀ t i u, src t i = some u → u < t
  viewSrc_lt : ∀ t u, viewSrc t = some u → u < t

/-- The sizes of a graph. -/
structure Limits where
  size : ℕ
  hashSize : ℕ
  order : EvalOrder
  deriving DecidableEq, Repr

/-- `ggml_cgraph`, with the tensors that have `GGML_TENSOR_FLAG_COMPUTE`. -/
structure Cgraph where
  nodes : List ℕ
  leafs : List ℕ
  visited : List ℕ
  useCounts : ℕ → ℕ
  computes : ℕ → Bool

/-- An assertion of the program. -/
inductive Stop where
  | aborted
  deriving DecidableEq, Repr

section Program

variable {ω : Type} (g : Tensors ω) (l : Limits)

/-- The sources that there are. -/
def Tensors.sources (t : ℕ) : List ℕ := (List.finRange 10).filterMap (g.src t)

/-- The sources in the order of a graph. -/
def Tensors.ordered (order : EvalOrder) (t : ℕ) : List ℕ :=
  match order with
  | .leftToRight => g.sources t
  | .rightToLeft => (List.finRange 10).reverse.filterMap (g.src t)

theorem Tensors.lt_of_mem_sources {g : Tensors ω} {t u : ℕ} (h : u ∈ g.sources t) : u < t := by
  obtain ⟨i, -, hi⟩ := List.mem_filterMap.mp h
  exact g.src_lt t i u hi

theorem Tensors.ordered_perm (order : EvalOrder) (t : ℕ) :
    (g.ordered order t).Perm (g.sources t) := by
  cases order with
  | leftToRight => rfl
  | rightToLeft => exact (List.reverse_perm _).filterMap _

theorem Tensors.mem_ordered {g : Tensors ω} {order : EvalOrder} {t u : ℕ} :
    u ∈ g.ordered order t ↔ u ∈ g.sources t := (g.ordered_perm order t).mem_iff

/-- A tensor is marked. Those without an operation are not. -/
def mark (compute : Bool) (t : ℕ) (s : Cgraph) : Cgraph :=
  if (g.op t).isSome ∧ compute then { s with computes := Function.update s.computes t true } else s

/-- A tensor is in the table. -/
def enter (t : ℕ) (s : Cgraph) : Cgraph :=
  { s with
    visited := t :: s.visited
    useCounts := Function.update s.useCounts t 0 }

/-- A use more. -/
def use (t : ℕ) (s : Cgraph) : Cgraph :=
  { s with useCounts := Function.update s.useCounts t (s.useCounts t + 1) }

/-- A leaf or a node more. -/
def add (t : ℕ) (s : Cgraph) : Except Stop Cgraph :=
  if g.op t = none ∧ g.param t = false then
    if s.leafs.length < l.size then .ok { s with leafs := s.leafs ++ [t] } else .error .aborted
  else if s.nodes.length < l.size then .ok { s with nodes := s.nodes ++ [t] }
  else .error .aborted

/-- `ggml_visit_parents_graph`. -/
def visitParentsGraph (node : ℕ) (compute : Bool) (s : Cgraph) : Except Stop Cgraph :=
  if node ∈ s.visited then
    if compute then
      (g.sources node).attach.foldlM
        (fun s src => if s.computes src.1 then .ok s else visitParentsGraph src.1 true s)
        (mark g compute node s)
    else .ok (mark g compute node s)
  else if l.hashSize ≤ s.visited.length then .error .aborted
  else do
    let s ← (g.ordered l.order node).attach.foldlM
      (fun s src => (visitParentsGraph src.1 compute s).map (use src.1))
      (enter node (mark g compute node s))
    add g l node s
termination_by node
decreasing_by
  · exact Tensors.lt_of_mem_sources src.2
  · exact Tensors.lt_of_mem_sources (Tensors.mem_ordered.mp src.2)

theorem visitParentsGraph_eq (node : ℕ) (compute : Bool) (s : Cgraph) :
    visitParentsGraph g l node compute s =
      if node ∈ s.visited then
        if compute then
          (g.sources node).foldlM
            (fun s src => if s.computes src then .ok s else visitParentsGraph g l src true s)
            (mark g compute node s)
        else .ok (mark g compute node s)
      else if l.hashSize ≤ s.visited.length then .error .aborted
      else
        (g.ordered l.order node).foldlM
          (fun s src => (visitParentsGraph g l src compute s).map (use src))
          (enter node (mark g compute node s)) >>= add g l node := by
  have hmarks (xs : List ℕ) (s : Cgraph) : xs.attach.foldlM
      (fun s src => if s.computes src.1 then .ok s else visitParentsGraph g l src.1 true s) s =
        xs.foldlM
          (fun s src => if s.computes src then .ok s else visitParentsGraph g l src true s) s := by
    rw [List.foldlM_subtype (g := fun s src =>
      if s.computes src then .ok s else visitParentsGraph g l src true s) fun _ _ _ => rfl,
      List.unattach_attach]
  have hvisits (xs : List ℕ) (s : Cgraph) : xs.attach.foldlM
      (fun s src => (visitParentsGraph g l src.1 compute s).map (use src.1)) s =
        xs.foldlM (fun s src => (visitParentsGraph g l src compute s).map (use src)) s := by
    rw [List.foldlM_subtype (g := fun s src =>
      (visitParentsGraph g l src compute s).map (use src)) fun _ _ _ => rfl, List.unattach_attach]
  rw [visitParentsGraph, hmarks, hvisits]

/-- `ggml_build_forward_impl`. The last node is the tensor. -/
def buildForwardImpl (compute : Bool) (s : Cgraph) (t : ℕ) : Except Stop Cgraph := do
  let s' ← visitParentsGraph g l t compute s
  if s.nodes.length < s'.nodes.length ∧ s'.nodes.getLast? ≠ some t then .error .aborted else .ok s'

/-- `ggml_build_forward_expand`, and `ggml_build_forward_select`. -/
inductive Call where
  | expand (t : ℕ)
  | select (ts : List ℕ) (idx : ℕ)
  deriving DecidableEq, Repr

/-- A call. -/
def Call.apply (s : Cgraph) : Call → Except Stop Cgraph
  | .expand t => buildForwardImpl g l true s t
  | .select ts idx =>
    if idx < ts.length then
      ts.zipIdx.foldlM (fun s p => buildForwardImpl g l (p.2 == idx) s p.1) s
    else .error .aborted

/-- Calls, one after another. -/
def run (calls : List Call) (s : Cgraph) : Except Stop Cgraph := calls.foldlM (Call.apply g l) s

end Program

/-! ### What a visit does -/

section Visits

variable {ω : Type} {g : Tensors ω} {l : Limits} {s s' : Cgraph} {visiting marking : List ℕ}
  {extra : ℕ → ℕ} {t u node : ℕ} {compute : Bool}

/-- A tensor is computed from another. -/
def Reaches (g : Tensors ω) : ℕ → ℕ → Prop := Relation.ReflTransGen fun t u => u ∈ g.sources t

/-- A tensor is in a graph. -/
def Cgraph.Has (s : Cgraph) (t : ℕ) : Prop := t ∈ s.leafs ∨ t ∈ s.nodes

/-- How often a tensor is a source in a graph. -/
def Cgraph.uses (g : Tensors ω) (s : Cgraph) (t : ℕ) : ℕ :=
  ((s.leafs ++ s.nodes).flatMap g.sources).count t

/-- **A graph in which some tensors are being visited.** Of their sources, some have been used. -/
structure Building (g : Tensors ω) (visiting : List ℕ) (extra : ℕ → ℕ) (s : Cgraph) : Prop where
  visited : ∀ t, t ∈ s.visited ↔ t ∈ visiting ∨ s.Has t
  nodup : (s.leafs ++ s.nodes).Nodup
  apart : ∀ t ∈ visiting, ¬ s.Has t
  leafs : ∀ t ∈ s.leafs, g.op t = none
  nodes : ∀ t ∈ s.nodes, g.op t ≠ none ∨ g.param t = true
  behind : ∀ front t back, s.nodes = front ++ t :: back →
    ∀ u ∈ g.sources t, u ∈ s.leafs ∨ u ∈ front
  closed : ∀ t, s.Has t → ∀ u ∈ g.sources t, s.Has u
  useCounts : ∀ t ∈ s.visited, s.useCounts t = s.uses g t + extra t
  used : ∀ t, extra t ≠ 0 → s.Has t

/-- What is marked is computed from what is marked, unless it is being visited. -/
def Marked (g : Tensors ω) (marking : List ℕ) (s : Cgraph) : Prop :=
  ∀ t, s.computes t = true → t ∈ marking ∨
    ∀ u, Reaches g t u → (g.op u).isSome = true → s.computes u = true

/-- **What a visit does.** -/
structure Visited (g : Tensors ω) (visiting : List ℕ) (extra : ℕ → ℕ) (node : ℕ) (compute : Bool)
    (s s' : Cgraph) : Prop where
  building : Building g visiting extra s'
  has : ∀ t, s'.Has t ↔ s.Has t ∨ Reaches g node t
  computes : ∀ t, s'.computes t = true ↔
    s.computes t = true ∨ compute = true ∧ Reaches g node t ∧ (g.op t).isSome = true

theorem reaches_iff : Reaches g node t ↔ t = node ∨ ∃ u ∈ g.sources node, Reaches g u t := by
  rw [Reaches, Relation.ReflTransGen.cases_head_iff]
  exact or_congr eq_comm Iff.rfl

theorem Reaches.le (h : Reaches g t u) : u ≤ t := by
  induction h with
  | refl => exact Nat.le_refl t
  | tail _ hsrc ih => exact Nat.le_trans (Nat.le_of_lt (Tensors.lt_of_mem_sources hsrc)) ih

/-- A graph has what its tensors are computed from. -/
theorem Building.has_of_reaches (h : Building g visiting extra s) (ht : s.Has t)
    (hreach : Reaches g t u) : s.Has u := by
  induction hreach with
  | refl => exact ht
  | tail _ hsrc ih => exact h.closed _ ih _ hsrc

/-- What is marked in addition is computed from what is marked. -/
theorem Marked.of_computes (h : Marked g marking s)
    (hcomputes : ∀ t, s'.computes t = true ↔
      s.computes t = true ∨ compute = true ∧ Reaches g node t ∧ (g.op t).isSome = true) :
    Marked g marking s' := by
  intro t ht
  rcases (hcomputes t).mp ht with hbefore | ⟨hcompute, hreach, -⟩
  · exact (h t hbefore).imp id fun hall u hu hop => (hcomputes u).mpr (.inl (hall u hu hop))
  · exact .inr fun u hu hop => (hcomputes u).mpr (.inr ⟨hcompute, hreach.trans hu, hop⟩)

theorem computes_mark : (mark g compute node s).computes t = true ↔
    s.computes t = true ∨ compute = true ∧ t = node ∧ (g.op t).isSome = true := by
  rw [mark]
  split_ifs with h
  · by_cases ht : t = node
    · subst ht
      simp [h.1, h.2]
    · simp [ht]
  · constructor
    · exact .inl
    · rintro (hbefore | ⟨hcompute, rfl, hop⟩)
      · exact hbefore
      · exact absurd ⟨hop, hcompute⟩ h

/-- Marks are no part of what is built. -/
theorem Building.mark (h : Building g visiting extra s) :
    Building g visiting extra (mark g compute node s) := by
  rw [Forward.mark]
  split_ifs
  · exact ⟨h.visited, h.nodup, h.apart, h.leafs, h.nodes, h.behind, h.closed, h.useCounts, h.used⟩
  · exact h

theorem has_mark : (mark g compute node s).Has t ↔ s.Has t := by
  rw [mark]
  split_ifs <;> exact Iff.rfl

/-- Nothing that is not in the graph has been used. -/
theorem Building.uses_eq_zero (h : Building g visiting extra s) (ht : ¬ s.Has t) :
    s.uses g t = 0 ∧ extra t = 0 := by
  refine ⟨List.count_eq_zero.mpr fun hmem => ?_, not_not.mp fun hne => ht (h.used t hne)⟩
  obtain ⟨u, hu, hsrc⟩ := List.mem_flatMap.mp hmem
  exact ht (h.closed u (List.mem_append.mp hu) t hsrc)

/-- **A tensor is entered.** -/
theorem Building.enter (h : Building g visiting extra s) (hnot : node ∉ s.visited) :
    Building g (node :: visiting) extra (enter node s) := by
  have hhas : ¬ s.Has node := fun hnode => hnot ((h.visited node).mpr (.inr hnode))
  refine ⟨fun t => ?_, h.nodup, fun t ht => ?_, h.leafs, h.nodes, h.behind, h.closed,
    fun t ht => ?_, h.used⟩
  · show t ∈ node :: s.visited ↔ t ∈ node :: visiting ∨ s.Has t
    rw [List.mem_cons, List.mem_cons, h.visited, or_assoc]
  · rcases List.mem_cons.mp ht with rfl | ht
    · exact hhas
    · exact h.apart t ht
  · show Function.update s.useCounts node 0 t = s.uses g t + extra t
    by_cases hne : t = node
    · subst hne
      obtain ⟨huses, hextra⟩ := h.uses_eq_zero hhas
      rw [Function.update_self, huses, hextra]
    · rw [Function.update_of_ne hne]
      exact h.useCounts t ((List.mem_cons.mp ht).resolve_left hne)

/-- **A source is used.** -/
theorem Building.use (h : Building g visiting extra s) (hu : s.Has u) :
    Building g visiting (fun t => extra t + if t = u then 1 else 0) (use u s) := by
  refine ⟨h.visited, h.nodup, h.apart, h.leafs, h.nodes, h.behind, h.closed, fun t ht => ?_,
    fun t ht => ?_⟩
  · show Function.update s.useCounts u (s.useCounts u + 1) t = s.uses g t + (extra t + _)
    by_cases hne : t = u
    · subst hne
      rw [Function.update_self, if_pos rfl, h.useCounts t ht, Nat.add_assoc]
    · rw [Function.update_of_ne hne, if_neg hne, h.useCounts t ht, Nat.add_zero]
  · by_cases hne : t = u
    · exact hne ▸ hu
    · rw [if_neg hne, Nat.add_zero] at ht
      exact h.used t ht

/-- **A tensor is added.** Its sources have been used. -/
theorem Building.add
    (h : Building g (node :: visiting) (fun t => extra t + (g.sources node).count t) s)
    (hextra : ∀ t, extra t ≠ 0 → s.Has t) (hnot : node ∉ visiting)
    (hsources : ∀ u ∈ g.sources node, s.Has u) (hadd : add g l node s = .ok s') :
    Building g visiting extra s' ∧ (∀ t, s'.Has t ↔ s.Has t ∨ t = node) ∧
      s'.computes = s.computes := by
  have hnode := h.apart node List.mem_cons_self
  have hvisited (t : ℕ) (hiff : s'.Has t ↔ s.Has t ∨ t = node) (heq : s'.visited = s.visited) :
      t ∈ s'.visited ↔ t ∈ visiting ∨ s'.Has t := by
    rw [heq, h.visited, hiff, List.mem_cons]
    tauto
  have happart (t : ℕ) (hiff : s'.Has t ↔ s.Has t ∨ t = node) (ht : t ∈ visiting) : ¬ s'.Has t := by
    rw [hiff]
    rintro (hhas | rfl)
    · exact h.apart t (List.mem_cons_of_mem node ht) hhas
    · exact hnot ht
  have hclosed (hiff : ∀ t, s'.Has t ↔ s.Has t ∨ t = node) :
      ∀ t, s'.Has t → ∀ u ∈ g.sources t, s'.Has u := by
    intro t ht u hu
    rw [hiff]
    rcases (hiff t).mp ht with ht | rfl
    · exact .inl (h.closed t ht u hu)
    · exact .inl (hsources u hu)
  rw [Forward.add] at hadd
  split_ifs at hadd with hleaf
  · cases hadd
    have hiff (t : ℕ) :
        (Cgraph.Has { s with leafs := s.leafs ++ [node] } t) ↔ s.Has t ∨ t = node := by
      simp only [Cgraph.Has, List.mem_append, List.mem_singleton]
      tauto
    refine ⟨⟨fun t => hvisited t (hiff t) rfl, ?_, fun t ht => happart t (hiff t) ht,
      fun t ht => ?_, h.nodes, fun front t back hnodes u hu => ?_, hclosed hiff, fun t ht => ?_,
      fun t ht => (hiff t).mpr (.inl (hextra t ht))⟩, hiff, rfl⟩
    · have hperm : ((s.leafs ++ [node]) ++ s.nodes).Perm (node :: (s.leafs ++ s.nodes)) := by
        rw [List.append_assoc]
        exact List.perm_middle
      exact hperm.nodup_iff.mpr
        (List.nodup_cons.mpr ⟨fun hmem => hnode (List.mem_append.mp hmem), h.nodup⟩)
    · rcases List.mem_append.mp ht with ht | ht
      · exact h.leafs t ht
      · rw [List.mem_singleton.mp ht]
        exact hleaf.1
    · exact (h.behind front t back hnodes u hu).imp (fun hu => List.mem_append_left _ hu) id
    · rw [h.useCounts t ht]
      simp only [Cgraph.uses, List.flatMap_append, List.flatMap_singleton, List.count_append]
      omega
  · cases hadd
    have hiff (t : ℕ) :
        (Cgraph.Has { s with nodes := s.nodes ++ [node] } t) ↔ s.Has t ∨ t = node := by
      simp only [Cgraph.Has, List.mem_append, List.mem_singleton]
      tauto
    refine ⟨⟨fun t => hvisited t (hiff t) rfl, ?_, fun t ht => happart t (hiff t) ht, h.leafs,
      fun t ht => ?_, fun front t back hnodes u hu => ?_, hclosed hiff, fun t ht => ?_,
      fun t ht => (hiff t).mpr (.inl (hextra t ht))⟩, hiff, rfl⟩
    · have hperm : (s.leafs ++ (s.nodes ++ [node])).Perm (node :: (s.leafs ++ s.nodes)) := by
        rw [← List.append_assoc]
        exact List.perm_append_singleton node _
      exact hperm.nodup_iff.mpr
        (List.nodup_cons.mpr ⟨fun hmem => hnode (List.mem_append.mp hmem), h.nodup⟩)
    · rcases List.mem_append.mp ht with ht | ht
      · exact h.nodes t ht
      · rw [List.mem_singleton.mp ht]
        by_contra hneither
        rw [not_or, not_not, Bool.not_eq_true] at hneither
        exact hleaf hneither
    · change s.nodes ++ [node] = front ++ t :: back at hnodes
      rcases List.eq_nil_or_concat back with rfl | ⟨back, x, rfl⟩
      · obtain ⟨rfl, heq⟩ := List.append_inj' hnodes rfl
        obtain rfl := List.singleton_inj.mp heq
        exact hsources u hu
      · rw [List.concat_eq_append, ← List.cons_append, ← List.append_assoc] at hnodes
        exact h.behind front t back (List.append_inj' hnodes rfl).1 u hu
    · rw [h.useCounts t ht]
      simp only [Cgraph.uses, List.flatMap_append, List.flatMap_singleton, List.count_append]
      omega

/-- **The sources of a tensor that is visited again.** Those that are marked are passed over. -/
theorem visit_again {sources : List ℕ} (hsources : ∀ u ∈ sources, u ∈ g.sources node)
    (ih : ∀ u < node, ∀ {s s' : Cgraph}, Building g visiting extra s →
      Marked g (node :: marking) s → visitParentsGraph g l u true s = .ok s' →
        Visited g visiting extra u true s s')
    (hmarking : ∀ p ∈ marking, node < p) (h : Building g visiting extra s) (hnode : s.Has node)
    (hmarked : Marked g (node :: marking) s)
    (hrun : sources.foldlM
      (fun s src => if s.computes src then .ok s else visitParentsGraph g l src true s) s =
        .ok s') :
    Building g visiting extra s' ∧
      (∀ t, s'.Has t ↔ s.Has t ∨ ∃ u ∈ sources, Reaches g u t) ∧
      ∀ t, s'.computes t = true ↔
        s.computes t = true ∨ (∃ u ∈ sources, Reaches g u t) ∧ (g.op t).isSome = true := by
  induction sources generalizing s with
  | nil =>
    cases hrun
    exact ⟨h, by simp, by simp⟩
  | cons u sources ihs =>
    rw [List.foldlM_cons, Fuel.bind_eq_ok_iff] at hrun
    obtain ⟨s₁, hone, hrest⟩ := hrun
    have hsrc := hsources u List.mem_cons_self
    have hlt := Tensors.lt_of_mem_sources hsrc
    have hvisit : Visited g visiting extra u true s s₁ := by
      split_ifs at hone with hcomputes
      · cases hone
        refine ⟨h, fun t => ⟨.inl, fun ht => ht.elim id fun hreach => ?_⟩, fun t =>
          ⟨.inl, fun ht => ht.elim id fun ht => ?_⟩⟩
        · exact h.has_of_reaches (h.closed node hnode u hsrc) hreach
        · refine (hmarked u hcomputes).resolve_left (fun hmem => ?_) t ht.2.1 ht.2.2
          rcases List.mem_cons.mp hmem with rfl | hmem
          · exact absurd hlt (Nat.lt_irrefl _)
          · exact absurd hlt (Nat.lt_asymm (hmarking u hmem))
      · exact ih u hlt h hmarked hone
    obtain ⟨hbuilding, hall, hcomputes⟩ :=
      ihs (fun v hv => hsources v (List.mem_cons_of_mem u hv)) hvisit.building
        ((hvisit.has node).mpr (.inl hnode)) (hmarked.of_computes hvisit.computes) hrest
    refine ⟨hbuilding, fun t => ?_, fun t => ?_⟩
    · rw [hall, List.exists_mem_cons_iff, ← or_assoc, ← hvisit.has]
    · rw [hcomputes, List.exists_mem_cons_iff, hvisit.computes]
      tauto

/-- **The sources of a tensor that is visited first.** -/
theorem visit_sources {sources : List ℕ} (hsources : ∀ u ∈ sources, u ∈ g.sources node)
    (ih : ∀ u < node, ∀ {extra : ℕ → ℕ} {s s' : Cgraph},
      Building g (node :: visiting) extra s → Marked g (node :: marking) s →
        visitParentsGraph g l u compute s = .ok s' →
          Visited g (node :: visiting) extra u compute s s')
    (h : Building g (node :: visiting) extra s) (hmarked : Marked g (node :: marking) s)
    (hrun : sources.foldlM
      (fun s src => (visitParentsGraph g l src compute s).map (use src)) s = .ok s') :
    Building g (node :: visiting) (fun t => extra t + sources.count t) s' ∧
      (∀ t, s'.Has t ↔ s.Has t ∨ ∃ u ∈ sources, Reaches g u t) ∧
      (∀ t, s'.computes t = true ↔ s.computes t = true ∨
        compute = true ∧ (∃ u ∈ sources, Reaches g u t) ∧ (g.op t).isSome = true) := by
  induction sources generalizing s extra with
  | nil =>
    cases hrun
    exact ⟨by simpa using h, by simp, by simp⟩
  | cons u sources ihs =>
    rw [List.foldlM_cons, Fuel.bind_eq_ok_iff] at hrun
    obtain ⟨s₂, hone, hrest⟩ := hrun
    cases hvisit : visitParentsGraph g l u compute s with
    | error e =>
      rw [hvisit] at hone
      cases hone
    | ok s₁ =>
      rw [hvisit] at hone
      cases hone
      have hu := Tensors.lt_of_mem_sources (hsources u List.mem_cons_self)
      have hone := ih u hu h hmarked hvisit
      have hhas : s₁.Has u := (hone.has u).mpr (.inr .refl)
      have hmarked₁ := hmarked.of_computes hone.computes
      obtain ⟨hbuilding, hall, hcomputes⟩ :=
        ihs (fun v hv => hsources v (List.mem_cons_of_mem u hv)) (hone.building.use hhas)
          hmarked₁ hrest
      refine ⟨?_, fun t => ?_, fun t => ?_⟩
      · convert hbuilding using 2 with t
        rw [List.count_cons, Nat.add_assoc, Nat.add_comm (if t = u then 1 else 0)]
        exact congrArg _ (congrArg _ (if_congr (by rw [beq_iff_eq, eq_comm]) rfl rfl))
      · rw [hall, List.exists_mem_cons_iff, ← or_assoc, ← hone.has]
        exact Iff.rfl
      · rw [hcomputes, List.exists_mem_cons_iff]
        show s₁.computes t = true ∨ _ ↔ _
        rw [hone.computes]
        tauto

/-- **A visit.** The tensor and what it is computed from are in the graph, each behind its sources,
every use of a source is counted, and what is to be computed is marked. -/
theorem visited_of_visitParentsGraph (hvisiting : ∀ p ∈ visiting, node < p)
    (hmarking : ∀ p ∈ marking, node < p) (h : Building g visiting extra s)
    (hmarked : Marked g marking s) (hrun : visitParentsGraph g l node compute s = .ok s') :
    Visited g visiting extra node compute s s' := by
  induction node using Nat.strongRecOn generalizing visiting marking extra s s' compute with
  | _ node ih =>
  have hnot : node ∉ visiting := fun hmem => Nat.lt_irrefl _ (hvisiting node hmem)
  have hmarked₀ : Marked g (node :: marking) (mark g compute node s) := by
    intro t ht
    rcases computes_mark.mp ht with ht | ⟨-, rfl, -⟩
    · exact (hmarked t ht).imp (List.mem_cons_of_mem node) fun hall u hu hop =>
        computes_mark.mpr (.inl (hall u hu hop))
    · exact .inl List.mem_cons_self
  have hbelow {bound : List ℕ} (hbound : ∀ p ∈ bound, node < p) {u : ℕ} (hu : u < node) :
      ∀ p ∈ node :: bound, u < p := by
    intro p hp
    rcases List.mem_cons.mp hp with rfl | hp
    · exact hu
    · exact Nat.lt_trans hu (hbound p hp)
  rw [visitParentsGraph_eq] at hrun
  split_ifs at hrun with hmem hcompute hfull
  · -- again, and the sources are to be marked
    have hnode : s.Has node := ((h.visited node).mp hmem).resolve_left hnot
    obtain ⟨hbuilding, hall, hcomputes⟩ := visit_again (fun u hu => hu)
      (fun u hu {s s'} hs hm hr =>
        ih u hu (fun p hp => Nat.lt_trans hu (hvisiting p hp)) (hbelow hmarking hu) hs hm hr)
      hmarking h.mark (has_mark.mpr hnode) hmarked₀ hrun
    refine ⟨hbuilding, fun t => ?_, fun t => ?_⟩
    · rw [hall, has_mark, reaches_iff]
      constructor
      · tauto
      · rintro (ht | rfl | ht)
        · exact .inl ht
        · exact .inl hnode
        · exact .inr ht
    · rw [hcomputes, computes_mark, reaches_iff]
      tauto
  · cases hrun
    have hnode : s.Has node := ((h.visited node).mp hmem).resolve_left hnot
    refine ⟨h.mark, fun t => ?_, fun t => ?_⟩
    · rw [has_mark]
      exact ⟨.inl, fun ht => ht.elim id fun hreach => h.has_of_reaches hnode hreach⟩
    · rw [computes_mark]
      tauto
  · -- first
    obtain ⟨s₁, hsources, hadd⟩ := Fuel.bind_eq_ok_iff.mp hrun
    have hmarked₁ : Marked g (node :: marking) (enter node (mark g compute node s)) := hmarked₀
    have hmem' : node ∉ (mark g compute node s).visited := by
      rw [Forward.mark]
      split_ifs <;> exact hmem
    obtain ⟨hbuilding, hall, hcomputes⟩ := visit_sources (fun u hu => Tensors.mem_ordered.mp hu)
      (fun u hu {extra s s'} hs hm hr =>
        ih u hu (hbelow hvisiting hu) (hbelow hmarking hu) hs hm hr)
      (h.mark.enter hmem') hmarked₁ hsources
    have hcount : (fun t => extra t + (g.ordered l.order node).count t) =
        fun t => extra t + (g.sources node).count t := by
      funext t
      rw [(g.ordered_perm l.order node).count_eq]
    rw [hcount] at hbuilding
    have hhas (t : ℕ) : (enter node (mark g compute node s)).Has t ↔ s.Has t := has_mark
    obtain ⟨hbuilding', hhas', heq⟩ := hbuilding.add
      (fun t ht => (hall t).mpr (.inl ((hhas t).mpr (h.used t ht)))) hnot
      (fun u hu => (hall u).mpr (.inr ⟨u, Tensors.mem_ordered.mpr hu, .refl⟩)) hadd
    refine ⟨hbuilding', fun t => ?_, fun t => ?_⟩
    · rw [hhas', hall, hhas, reaches_iff]
      simp only [Tensors.mem_ordered]
      exact or_assoc.trans (or_congr Iff.rfl or_comm)
    · rw [heq, hcomputes]
      show (mark g compute node s).computes t = true ∨ _ ↔ _
      rw [computes_mark, reaches_iff]
      simp only [Tensors.mem_ordered]
      tauto

/-! ### Calls -/

/-- The tensors that a call puts into the graph. -/
def Call.roots : Call → List ℕ
  | .expand t => [t]
  | .select ts _ => ts

/-- The tensors that a call is made to compute. -/
def Call.computed : Call → List ℕ
  | .expand t => [t]
  | .select ts idx => ts[idx]?.toList

/-- **What is put into a graph.** -/
structure Grown (g : Tensors ω) (roots computed : List ℕ) (s s' : Cgraph) : Prop where
  building : Building g [] (fun _ => 0) s'
  marked : Marked g [] s'
  has : ∀ t, s'.Has t ↔ s.Has t ∨ ∃ r ∈ roots, Reaches g r t
  computes : ∀ t, s'.computes t = true ↔
    s.computes t = true ∨ (∃ r ∈ computed, Reaches g r t) ∧ (g.op t).isSome = true

theorem Grown.refl (h : Building g [] (fun _ => 0) s) (hmarked : Marked g [] s) :
    Grown g [] [] s s :=
  ⟨h, hmarked, by simp, by simp⟩

theorem Grown.trans {s₁ : Cgraph} {roots roots' computed computed' : List ℕ}
    (h : Grown g roots computed s s₁) (h' : Grown g roots' computed' s₁ s') :
    Grown g (roots ++ roots') (computed ++ computed') s s' := by
  refine ⟨h'.building, h'.marked, fun t => ?_, fun t => ?_⟩
  · rw [h'.has, h.has]
    simp only [List.mem_append, or_and_right, exists_or]
    exact or_assoc
  · rw [h'.computes, h.computes]
    simp only [List.mem_append, or_and_right, exists_or]
    exact or_assoc

theorem grown_of_buildForwardImpl (h : Building g [] (fun _ => 0) s) (hmarked : Marked g [] s)
    (hrun : buildForwardImpl g l compute s t = .ok s') :
    Grown g [t] (if compute then [t] else []) s s' := by
  rw [buildForwardImpl, Fuel.bind_eq_ok_iff] at hrun
  obtain ⟨s₁, hvisit, hcheck⟩ := hrun
  split_ifs at hcheck
  cases hcheck
  have hnil : ∀ p ∈ ([] : List ℕ), t < p := nofun
  have hvisited := visited_of_visitParentsGraph hnil hnil h hmarked hvisit
  refine ⟨hvisited.building, hmarked.of_computes hvisited.computes, fun u => ?_, fun u => ?_⟩
  · rw [hvisited.has]
    simp
  · rw [hvisited.computes]
    cases compute <;> simp

theorem grown_of_select (h : Building g [] (fun _ => 0) s) (hmarked : Marked g [] s)
    {ts : List ℕ} {n idx : ℕ}
    (hrun : (ts.zipIdx n).foldlM (fun s p => buildForwardImpl g l (p.2 == idx) s p.1) s = .ok s') :
    Grown g ts (if n ≤ idx then ts[idx - n]?.toList else []) s s' := by
  induction ts generalizing s n with
  | nil =>
    cases hrun
    simpa using Grown.refl h hmarked
  | cons t ts ih =>
    rw [List.zipIdx_cons, List.foldlM_cons, Fuel.bind_eq_ok_iff] at hrun
    obtain ⟨s₁, hone, hrest⟩ := hrun
    have hgrown := grown_of_buildForwardImpl h hmarked hone
    have hcomputed : (if n ≤ idx then (t :: ts)[idx - n]?.toList else []) =
        (if n == idx then [t] else []) ++
          if n + 1 ≤ idx then ts[idx - (n + 1)]?.toList else [] := by
      rcases Nat.lt_trichotomy n idx with hlt | rfl | hlt
      · have hsub : idx - n = idx - (n + 1) + 1 := by omega
        have hne : ¬ (n == idx) = true := by simpa using Nat.ne_of_lt hlt
        rw [if_pos (Nat.le_of_lt hlt), if_neg hne, if_pos (Nat.succ_le_of_lt hlt), hsub,
          List.getElem?_cons_succ, List.nil_append]
      · rw [if_neg (Nat.not_succ_le_self n)]
        simp
      · have hne : ¬ (n == idx) = true := by simpa using Nat.ne_of_gt hlt
        have hle : ¬ n + 1 ≤ idx := by omega
        rw [if_neg (Nat.not_le_of_lt hlt), if_neg hne, if_neg hle, List.append_nil]
    rw [hcomputed]
    exact hgrown.trans (ih hgrown.building hgrown.marked hrest)

theorem grown_of_apply (h : Building g [] (fun _ => 0) s) (hmarked : Marked g [] s) {call : Call}
    (hrun : call.apply g l s = .ok s') : Grown g call.roots call.computed s s' := by
  cases call with
  | expand t => exact grown_of_buildForwardImpl h hmarked hrun
  | select ts idx =>
    rw [Call.apply] at hrun
    split_ifs at hrun with hidx
    simpa [Call.roots, Call.computed] using grown_of_select h hmarked hrun

theorem grown_of_run (h : Building g [] (fun _ => 0) s) (hmarked : Marked g [] s)
    {calls : List Call} (hrun : run g l calls s = .ok s') :
    Grown g (calls.flatMap Call.roots) (calls.flatMap Call.computed) s s' := by
  induction calls generalizing s with
  | nil =>
    cases hrun
    exact .refl h hmarked
  | cons call calls ih =>
    rw [run, List.foldlM_cons, Fuel.bind_eq_ok_iff] at hrun
    obtain ⟨s₁, hone, hrest⟩ := hrun
    have hgrown := grown_of_apply h hmarked hone
    exact hgrown.trans (ih hgrown.building hgrown.marked hrest)

/-- A graph that is new, or cleared. The counts are those that were there, and tensors may be marked
for another graph. -/
def cleared (useCounts : ℕ → ℕ) (computes : ℕ → Bool) : Cgraph := ⟨[], [], [], useCounts, computes⟩

theorem building_cleared (useCounts : ℕ → ℕ) (computes : ℕ → Bool) :
    Building g [] (fun _ => 0) (cleared useCounts computes) where
  visited := by simp [cleared, Cgraph.Has]
  nodup := List.nodup_nil
  apart := nofun
  leafs := nofun
  nodes := nofun
  behind := by simp [cleared]
  closed := by simp [cleared, Cgraph.Has]
  useCounts := nofun
  used := by simp

/-- **The graph after any calls.** -/
structure Built (g : Tensors ω) (calls : List Call) (computes : ℕ → Bool) (s : Cgraph) : Prop where
  visited : ∀ t, t ∈ s.visited ↔ t ∈ s.leafs ++ s.nodes
  nodup : (s.leafs ++ s.nodes).Nodup
  leafs : ∀ t ∈ s.leafs, g.op t = none
  nodes : ∀ t ∈ s.nodes, g.op t ≠ none ∨ g.param t = true
  /-- Every node is behind what it is computed from. -/
  behind : ∀ front t back, s.nodes = front ++ t :: back →
    ∀ u ∈ g.sources t, u ∈ s.leafs ∨ u ∈ front
  has : ∀ t, t ∈ s.leafs ++ s.nodes ↔ ∃ r ∈ calls.flatMap Call.roots, Reaches g r t
  useCounts : ∀ t ∈ s.leafs ++ s.nodes,
    s.useCounts t = ((s.leafs ++ s.nodes).flatMap g.sources).count t
  computes : ∀ t, s.computes t = true ↔ computes t = true ∨
    (∃ r ∈ calls.flatMap Call.computed, Reaches g r t) ∧ (g.op t).isSome = true

theorem Grown.built {calls : List Call} {useCounts : ℕ → ℕ} {computes : ℕ → Bool}
    (hgrown : Grown g (calls.flatMap Call.roots) (calls.flatMap Call.computed)
      (cleared useCounts computes) s) : Built g calls computes s := by
  have h := hgrown.building
  refine ⟨fun t => ?_, h.nodup, h.leafs, h.nodes, h.behind, fun t => ?_, fun t ht => ?_,
    hgrown.computes⟩
  · rw [h.visited, List.mem_append]
    exact or_iff_right nofun
  · rw [List.mem_append]
    refine (hgrown.has t).trans (or_iff_right ?_)
    rintro (ht | ht) <;> cases ht
  · exact h.useCounts t ((h.visited t).mpr (.inr (List.mem_append.mp ht)))

/-- A leaf, and tensors that are computed from the one in front and from the leaf. -/
def sampleTensors : Tensors Unit where
  op := fun t => if t = 0 then none else some ()
  src := fun t i => if t = 0 then none else if i = 0 then some (t - 1) else
    if i = 1 then some 0 else none
  viewSrc := fun _ => none
  param := fun _ => false
  output := fun _ => false
  src_lt := by
    intro t i u h
    split_ifs at h <;> cases h <;> omega
  viewSrc_lt := nofun

theorem ok_of_map_toOption {β : Type} {x : Except Stop Cgraph} {f : Cgraph → β} {b : β}
    (h : x.toOption.map f = some b) : ∃ s, x = .ok s ∧ f s = b := by
  cases x with
  | error e => cases h
  | ok s => exact ⟨s, rfl, Option.some.inj h⟩

/-- **The graph after any calls** is in topological order, has what the tensors are computed from
and nothing else, counts their uses and marks what is to be computed. -/
theorem built_of_run {calls : List Call} {useCounts : ℕ → ℕ} {computes : ℕ → Bool}
    (hmarked : Marked g [] (cleared useCounts computes))
    (hrun : run g l calls (cleared useCounts computes) = .ok s) : Built g calls computes s :=
  (grown_of_run (building_cleared useCounts computes) hmarked hrun).built

theorem built_of_run_sample : ∃ s, run sampleTensors ⟨4, 8, .leftToRight⟩ [.expand 2, .expand 1]
    (cleared (fun _ => 7) fun _ => false) = .ok s ∧ s.leafs = [0] ∧ s.nodes = [1, 2] ∧
      Built sampleTensors [.expand 2, .expand 1] (fun _ => false) s := by
  have hlists : ((run sampleTensors ⟨4, 8, .leftToRight⟩ [.expand 2, .expand 1]
      (cleared (fun _ => 7) fun _ => false)).toOption.map fun s => (s.leafs, s.nodes)) =
        some ([0], [1, 2]) := by decide +kernel
  obtain ⟨s, hrun, hs⟩ := ok_of_map_toOption hlists
  obtain ⟨hleafs, hnodes⟩ := Prod.mk.inj hs
  exact ⟨s, hrun, hleafs, hnodes, built_of_run nofun hrun⟩

/-! ### The memory of a graph that is built -/

/-- **A graph that is built can be planned.** Views have what they are views of, or a view of it, as
a source; that is so for what the operations of `ggml.c` return. -/
theorem Built.wellFormed {calls : List Call} {computes : ℕ → Bool} (h : Built g calls computes s)
    {graph : Galloc.Graph ℕ} (hnodes : graph.nodes = s.nodes) (hleafs : graph.leafs = s.leafs)
    (hsrc : graph.src = g.sources) (hop : ∀ t, graph.opNone t = (g.op t).isNone)
    (hinplace : ∀ t, graph.canInplace t = true → g.op t ≠ none)
    (hinput : ∀ t, graph.input t = true → graph.canInplace t = false)
    (hviewSrc : ∀ v r, graph.viewSrc v = some r → graph.viewSrc r = none)
    (hview : ∀ v ∈ graph.tensors, ∀ r, graph.viewSrc v = some r → graph.external r = false →
      g.op v ≠ none ∧ ∃ u ∈ graph.src v, graph.root u = r) : graph.WellFormed := by
  have hnone (v : ℕ) (hv : v ∈ graph.leafs) : g.op v = none := h.leafs v (hleafs ▸ hv)
  have hviewNode (v : ℕ) (hv : v ∈ graph.tensors) (r : ℕ) (hr : graph.viewSrc v = some r)
      (hext : graph.external r = false) : v ∈ graph.nodes :=
    (List.mem_append.mp hv).resolve_left fun hleaf => (hview v hv r hr hext).1 (hnone v hleaf)
  have hsources (front : List ℕ) (t : ℕ) (back : List ℕ) (heq : graph.nodes = front ++ t :: back) :
      ∀ u ∈ graph.src t, u ∈ graph.leafs ∨ u ∈ front := by
    rw [hleafs, hsrc]
    exact h.behind front t back (hnodes ▸ heq)
  -- by the number of nodes in front: a source that is a view is in front
  have hbehind (n : ℕ) : ∀ front : List ℕ, front.length = n → ∀ v back,
      graph.nodes = front ++ v :: back → ∀ r, graph.viewSrc v = some r →
        graph.external r = false → r ∈ graph.leafs ∨ r ∈ front := by
    induction n using Nat.strongRecOn with
    | _ n ih =>
    intro front hlen v back heq r hr hext
    have hv : v ∈ graph.tensors := List.mem_append_right _ (by rw [heq]; simp)
    obtain ⟨-, u, hu, hroot⟩ := hview v hv r hr hext
    have hfront := hsources front v back heq u hu
    cases hviewU : graph.viewSrc u with
    | none =>
      rw [Galloc.Graph.root, hviewU] at hroot
      exact hroot ▸ hfront
    | some r' =>
      rw [Galloc.Graph.root, hviewU] at hroot
      obtain rfl : r' = r := hroot
      rcases hfront with hleaf | hfront
      · have hnode := hviewNode u (List.mem_append_left _ hleaf) r' hviewU hext
        exact absurd (hnone u hleaf) (hview u (List.mem_append_right _ hnode) r' hviewU hext).1
      · obtain ⟨front', back', rfl⟩ := List.append_of_mem hfront
        refine (ih front'.length ?_ front' rfl u (back' ++ v :: back) ?_ r' hviewU hext).imp id
          fun hr => List.mem_append_left _ hr
        · rw [← hlen, List.length_append, List.length_cons]
          omega
        · rw [heq, List.append_assoc, List.cons_append]
  refine ⟨?_, hsources, hviewSrc, fun v hv r hr hext => ⟨hviewNode v hv r hr hext, ?_⟩,
    fun front v back heq r hr hext => hbehind front.length front rfl v back heq r hr hext,
    fun t ht => ?_, hinput⟩
  · rw [Galloc.Graph.tensors, hleafs, hnodes]
    exact h.nodup
  · rw [hop, Option.isNone_eq_false_iff, Option.isSome_iff_ne_none]
    exact (hview v hv r hr hext).1
  · by_contra hcan
    exact hinplace t (Bool.not_eq_false _ ▸ hcan) (hnone t ht)

end Visits

/-! ### What can be fused -/

section Fusing

variable {ω : Type} [DecidableEq ω] (g : Tensors ω) (s : Cgraph)

/-- `ggml_node_get_use_count`, of a node. -/
def nodeGetUseCount (node : ℕ) : ℕ := if node ∈ s.visited then s.useCounts node else 0

/-- Whether `ggml_node_list_find_tensor` finds a tensor. -/
def nodeListFindTensor (t : ℕ) : List ℕ → Bool
  | [] => false
  | i :: idxs =>
    match s.nodes[i]? with
    | none => false
    | some node => node = t || nodeListFindTensor t idxs

/-- `subgraph_uses`: how often a node is a source of nodes. -/
def subgraphUses (node : ℕ) (idxs : List ℕ) : ℕ :=
  (idxs.map fun j => ((s.nodes[j]?.map g.sources).getD []).count node).sum

/-- What a tensor is a view of, and what that is a view of, are found. -/
def viewsFound (idxs : List ℕ) (t : ℕ) : Bool :=
  match _h : g.viewSrc t with
  | none => true
  | some viewSrc => nodeListFindTensor s viewSrc idxs && viewsFound idxs viewSrc
termination_by t
decreasing_by exact g.viewSrc_lt t _ ‹_›

/-- A node of a subgraph that has its operation, and is an output or can be elided. -/
def fusable (idxs outputs : List ℕ) (op : Option ω) (node : ℕ) (behind : List ℕ) : Bool :=
  g.op node = op && s.computes node && (nodeListFindTensor s node outputs ||
    (!g.output node && subgraphUses g s node behind = nodeGetUseCount s node &&
      viewsFound g s idxs node))

/-- `ggml_can_fuse_subgraph_ext`. -/
def canFuseSubgraphExt (idxs : List ℕ) (ops : List (Option ω)) (outputs : List ℕ) : Bool :=
  ops.zipIdx.all fun p =>
    match idxs[p.2]? with
    | none => false
    | some i =>
      match s.nodes[i]? with
      | none => false
      | some node => fusable g s idxs outputs p.1 node (idxs.drop (p.2 + 1))

/-- `ggml_can_fuse_subgraph`. -/
def canFuseSubgraph (first : ℕ) (ops : List (Option ω)) (outputs : List ℕ) : Bool :=
  first + ops.length ≤ s.nodes.length &&
    canFuseSubgraphExt g s (List.range' first ops.length) ops outputs

variable {g s} {t u v first k n : ℕ} {idxs outputs : List ℕ} {ops : List (Option ω)}

omit [DecidableEq ω] in
/-- The uses by nodes that follow one another. -/
theorem subgraphUses_range' (h : first + n ≤ s.nodes.length) :
    subgraphUses g s t (List.range' first n) =
      (((s.nodes.drop first).take n).flatMap g.sources).count t := by
  induction n generalizing first with
  | zero => simp [subgraphUses]
  | succ n ih =>
    have hlt : first < s.nodes.length := by omega
    have hrest : subgraphUses g s t (List.range' (first + 1) n) =
        (((s.nodes.drop (first + 1)).take n).flatMap g.sources).count t := ih (by omega)
    rw [subgraphUses] at hrest ⊢
    rw [List.range'_succ, List.map_cons, List.sum_cons, hrest, List.getElem?_eq_getElem hlt,
      List.drop_eq_getElem_cons hlt, List.take_succ_cons, List.flatMap_cons, List.count_append]
    rfl

omit [DecidableEq ω] in
/-- **What is used as often as a part of the graph uses it** is used by nothing else. -/
theorem Built.mem_of_uses {calls : List Call} {computes : ℕ → Bool} (h : Built g calls computes s)
    (hn : first + n ≤ s.nodes.length) (ht : t ∈ s.leafs ++ s.nodes)
    (huses : subgraphUses g s t (List.range' first n) = nodeGetUseCount s t)
    (hv : v ∈ s.leafs ++ s.nodes) (hsrc : t ∈ g.sources v) : v ∈ (s.nodes.drop first).take n := by
  have hsplit : s.nodes = s.nodes.take first ++ ((s.nodes.drop first).take n ++
      (s.nodes.drop first).drop n) := by
    rw [List.take_append_drop, List.take_append_drop]
  have hpos {l : List ℕ} (hl : v ∈ l) : 0 < (l.flatMap g.sources).count t :=
    List.count_pos_iff.mpr (List.mem_flatMap.mpr ⟨v, hl, hsrc⟩)
  rw [subgraphUses_range' hn, nodeGetUseCount, if_pos ((h.visited t).mpr ht), h.useCounts t ht,
    List.flatMap_append, List.count_append] at huses
  have hnodes := congrArg (fun l => (l.flatMap g.sources).count t) hsplit
  simp only [List.flatMap_append, List.count_append] at hnodes
  rcases List.mem_append.mp hv with hleaf | hnode
  · have hmore := hpos hleaf
    omega
  · rw [hsplit] at hnode
    rcases List.mem_append.mp hnode with hfront | hnode
    · have hmore := hpos hfront
      omega
    · rcases List.mem_append.mp hnode with hmid | hback
      · exact hmid
      · have hmore := hpos hback
        omega

omit [DecidableEq ω] in
theorem mem_of_nodeListFindTensor (h : nodeListFindTensor s t idxs = true) :
    ∃ i ∈ idxs, s.nodes[i]? = some t := by
  induction idxs with
  | nil => cases h
  | cons i idxs ih =>
    rw [nodeListFindTensor] at h
    cases hnode : s.nodes[i]? with
    | none =>
      rw [hnode] at h
      cases h
    | some node =>
      simp only [hnode, Bool.or_eq_true, decide_eq_true_eq] at h
      rcases h with rfl | h
      · exact ⟨i, List.mem_cons_self, hnode⟩
      · obtain ⟨j, hj, hjnode⟩ := ih h
        exact ⟨j, List.mem_cons_of_mem i hj, hjnode⟩

omit [DecidableEq ω] in
/-- Whatever a tensor is a view of is found. -/
theorem find_of_viewsFound (h : viewsFound g s idxs t = true)
    (hview : Relation.TransGen (fun t u => g.viewSrc t = some u) t u) :
    nodeListFindTensor s u idxs = true := by
  induction hview using Relation.TransGen.head_induction_on with
  | single hview =>
    rw [viewsFound, hview] at h
    simp only [Bool.and_eq_true] at h
    exact h.1
  | head hview _ ih =>
    rw [viewsFound, hview] at h
    simp only [Bool.and_eq_true] at h
    exact ih h.2

/-- **What is fused is read by nothing else.** After any calls, a node of a subgraph that can be
fused is an output of the subgraph, or it is marked, is no output of the graph, is a source of later
nodes of the subgraph only, and is a view of nodes of the subgraph only. -/
theorem elided_of_canFuseSubgraph {l : Limits} {calls : List Call} {useCounts : ℕ → ℕ}
    {computes : ℕ → Bool} (hmarked : Marked g [] (cleared useCounts computes))
    (hrun : run g l calls (cleared useCounts computes) = .ok s)
    (hfuse : canFuseSubgraph g s first ops outputs = true)
    (hk : k < ops.length) (ht : s.nodes[first + k]? = some t)
    (hnot : nodeListFindTensor s t outputs = false) :
    s.computes t = true ∧ g.output t = false ∧
      (∀ v ∈ s.leafs ++ s.nodes, t ∈ g.sources v →
        v ∈ (s.nodes.drop (first + k + 1)).take (ops.length - (k + 1))) ∧
      ∀ r, Relation.TransGen (fun t u => g.viewSrc t = some u) t r →
        ∃ j < ops.length, s.nodes[first + j]? = some r := by
  have h := (grown_of_run (building_cleared useCounts computes) hmarked hrun).built
  rw [canFuseSubgraph, Bool.and_eq_true, decide_eq_true_eq] at hfuse
  obtain ⟨hle, hall⟩ := hfuse
  have hmem : (ops[k], k) ∈ ops.zipIdx :=
    List.mk_mem_zipIdx_iff_getElem?.mpr (List.getElem?_eq_getElem hk)
  have hone := List.all_eq_true.mp hall (ops[k], k) hmem
  simp only [List.getElem?_range' hk, Nat.one_mul, ht, fusable, hnot, Bool.false_or,
    Bool.and_eq_true, decide_eq_true_eq, Bool.not_eq_true', List.drop_range'] at hone
  obtain ⟨⟨-, hcomputes⟩, ⟨houtput, huses⟩, hviews⟩ := hone
  have htensor : t ∈ s.leafs ++ s.nodes :=
    List.mem_append_right _ (List.mem_of_getElem? ht)
  refine ⟨hcomputes, houtput, fun v hv hsrc => h.mem_of_uses (by omega) htensor ?_ hv hsrc,
    fun r hr => ?_⟩
  · rwa [Nat.mul_one, ← Nat.add_assoc] at huses
  · obtain ⟨i, hi, hnode⟩ := mem_of_nodeListFindTensor (find_of_viewsFound hviews hr)
    rw [List.mem_range'_1] at hi
    exact ⟨i - first, by omega, by rwa [Nat.add_sub_cancel' hi.1]⟩

theorem elided_of_canFuseSubgraph_sample :
    ∃ s, run sampleTensors ⟨4, 8, .leftToRight⟩ [.expand 2] (cleared (fun _ => 7) fun _ => false) =
        .ok s ∧ s.computes 1 = true ∧
      ∀ v ∈ s.leafs ++ s.nodes, 1 ∈ sampleTensors.sources v → v ∈ (s.nodes.drop 1).take 1 := by
  have hfacts : ((run sampleTensors ⟨4, 8, .leftToRight⟩ [.expand 2]
      (cleared (fun _ => 7) fun _ => false)).toOption.map fun s =>
        (s.nodes, canFuseSubgraph sampleTensors s 0 [some (), some ()] [1],
          nodeListFindTensor s 1 [1])) = some ([1, 2], true, false) := by decide +kernel
  obtain ⟨s, hrun, hs⟩ := ok_of_map_toOption hfacts
  obtain ⟨hnodes, hs⟩ := Prod.mk.inj hs
  obtain ⟨hfuse, hnot⟩ := Prod.mk.inj hs
  have hmarked : Marked sampleTensors [] (cleared (fun _ => 7) fun _ => false) := nofun
  have helided := elided_of_canFuseSubgraph (k := 0) hmarked hrun hfuse (by decide)
    (by rw [hnodes]; rfl) hnot
  exact ⟨s, hrun, helided.1, helided.2.2.1⟩

end Fusing

end Forward

end WhisperCpp
