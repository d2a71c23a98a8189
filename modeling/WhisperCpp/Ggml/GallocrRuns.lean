import WhisperCpp.Ggml.Gallocr
import WhisperCpp.Library.Fuel
import WhisperCpp.Library.Literals

/-!
# Graphs in the memory that is planned for them

Tensors share memory. What a node reads is nevertheless what was written there, and the outputs are
those of the graph in which every tensor has memory of its own.

## Main definitions

* `Graph.WellFormed` — what a graph that is built has
* `Needed` — tensors that a later node reads, and outputs
* `Alive` — what is needed is marked
* `Machine.step`, `idealStep` — a node in the memory, and one where no memory is shared

## Main results

* `Invariant.planNode` — what one node keeps
* `reads_eq_of_allocGraph` — what is read, over the whole run
-/

namespace WhisperCpp

namespace Galloc

open Spans

attribute [local instance] Literals.neZero_four

variable {τ : Type} [DecidableEq τ]

/-- A graph that is built. Sources are in front of the nodes that have them, and views are nodes
behind what they are views of, unless that has data already. -/
structure Graph.WellFormed (g : Graph τ) : Prop where
  nodup : g.tensors.Nodup
  src : ∀ front t back, g.nodes = front ++ t :: back → ∀ u ∈ g.src t, u ∈ g.leafs ∨ u ∈ front
  viewSrc : ∀ v r, g.viewSrc v = some r → g.viewSrc r = none
  view : ∀ v ∈ g.tensors, ∀ r, g.viewSrc v = some r → g.external r = false →
    v ∈ g.nodes ∧ g.opNone v = false
  viewBehind : ∀ front v back, g.nodes = front ++ v :: back → ∀ r, g.viewSrc v = some r →
    g.external r = false → r ∈ g.leafs ∨ r ∈ front
  leafs : ∀ t ∈ g.leafs, g.canInplace t = false
  input : ∀ t, g.input t = true → g.canInplace t = false

/-! ### What is needed -/

section Needed

variable (g : Graph τ)

/-- The sources of nodes, one after another. -/
def uses (l : List τ) : List τ := l.flatMap g.src

/-- A view that will be read, or is never read. -/
def Open (todo : List τ) (v : τ) : Prop := v ∈ uses g g.nodes → v ∈ todo

instance (todo : List τ) (v : τ) : Decidable (Open g todo v) :=
  inferInstanceAs (Decidable (_ → _))

/-- An open view of a tensor. -/
def OpenView (todo : List τ) (r v : τ) : Prop :=
  g.viewSrc v = some r ∧ g.opNone v = false ∧ Open g todo v

instance (todo : List τ) (r v : τ) : Decidable (OpenView g todo r v) :=
  inferInstanceAs (Decidable (_ ∧ _ ∧ _))

/-- The number of open views of a tensor. -/
def openViews (todo : List τ) (r : τ) : ℕ :=
  (g.nodes.map fun v => if OpenView g todo r v then 1 else 0).sum

/-- A tensor that is read later, itself or through a view, or is an output, or is not run yet. -/
def Needed (todo rest : List τ) (t : τ) : Prop :=
  t ∈ todo ∨ (∃ v ∈ g.nodes, OpenView g todo t v) ∨ g.output t = true ∨ t ∈ rest

/-- A tensor that is there, when some nodes have run. -/
def Placed (front : List τ) (t : τ) : Prop :=
  t ∈ g.leafs ∨ t ∈ front ∨ g.input t = true ∧ t ∈ g.tensors

/-- A tensor that has memory in the plan. -/
def Own (t : τ) : Prop := g.viewSrc t = none ∧ g.external t = false

/-- The counts. -/
structure Counts (todo : List τ) (s : Plan τ) : Prop where
  children : ∀ t, (s.hash t).nChildren = todo.count t
  views : ∀ r, g.external r = false → (s.hash r).nViews = openViews g todo r
  viewsOfView : ∀ v, g.viewSrc v ≠ none → (s.hash v).nViews = 0

/-- What is needed is marked. -/
def Alive (front todo rest : List τ) (s : Plan τ) : Prop :=
  ∀ t, Placed g front t → Own g t → Needed g todo rest t → (s.hash t).allocated = true

end Needed

section Views

variable {g : Graph τ} {todo rest : List τ} {p r t v : τ}

theorem openViews_eq_zero : openViews g todo r = 0 ↔ ∀ v ∈ g.nodes, ¬ OpenView g todo r v := by
  rw [openViews, List.sum_eq_zero_iff]
  constructor
  · intro h v hv hopen
    have hzero := h _ (List.mem_map_of_mem hv)
    rw [if_pos hopen] at hzero
    cases hzero
  · intro h x hx
    obtain ⟨v, hv, rfl⟩ := List.mem_map.mp hx
    exact if_neg (h v hv)

omit [DecidableEq τ] in
theorem Open.mono {todo' : List τ} (h : Open g todo v) (hsub : ∀ u ∈ todo, u ∈ todo') :
    Open g todo' v := fun hv => hsub v (h hv)

omit [DecidableEq τ] in
theorem Needed.mono {todo' rest' : List τ} (h : Needed g todo rest t)
    (hsub : ∀ u ∈ todo, u ∈ todo') (hrest : ∀ u ∈ rest, u ∈ rest') : Needed g todo' rest' t := by
  rcases h with h | ⟨v, hv, hview, hop, hopen⟩ | h | h
  · exact .inl (hsub t h)
  · exact .inr (.inl ⟨v, hv, hview, hop, hopen.mono hsub⟩)
  · exact .inr (.inr (.inl h))
  · exact .inr (.inr (.inr (hrest t h)))

/-- One use less closes a view iff it is the last. -/
theorem openViews_cons (hg : g.WellFormed) (hp : p ∈ uses g g.nodes) (htensor : p ∈ g.tensors)
    (hr : g.external r = false) : openViews g (p :: todo) r =
      openViews g todo r + if p ∉ todo ∧ g.viewSrc p = some r then 1 else 0 := by
  have hother : ∀ v, v ≠ p → (if OpenView g (p :: todo) r v then 1 else 0) =
      if OpenView g todo r v then 1 else 0 := by
    intro v hv
    have hiff : OpenView g (p :: todo) r v ↔ OpenView g todo r v := by simp [OpenView, Open, hv]
    exact if_congr hiff rfl rfl
  by_cases hview : g.viewSrc p = some r
  · obtain ⟨hnode, hop⟩ := hg.view p htensor r hview hr
    have hsum := sum_map_update hg.nodup.of_append_right hnode hother
    have hopen : OpenView g (p :: todo) r p := ⟨hview, hop, fun _ => List.mem_cons_self⟩
    have hiff : OpenView g todo r p ↔ p ∈ todo :=
      ⟨fun h => h.2.2 hp, fun h => ⟨hview, hop, fun _ => h⟩⟩
    simp only [if_pos hopen, hiff] at hsum
    rw [openViews, openViews]
    by_cases hmem : p ∈ todo <;> simp [hmem, hview] at hsum ⊢ <;> omega
  · rw [if_neg fun h => hview h.2, Nat.add_zero, openViews, openViews]
    refine congrArg List.sum (List.map_congr_left fun v _ => ?_)
    by_cases hv : v = p
    · subst hv
      rw [if_neg fun h => hview h.1, if_neg fun h => hview h.1]
    · exact hother v hv

end Views

/-! ### What one node keeps -/

section Steps

variable {g : Graph τ} {b : Buffers τ} {s s' : Plan τ} {front todo rest : List τ}
  {p t u : τ}

/-- What is given a place keeps its counts. -/
theorem Allocates.counts (h : Allocates g t s s') (u : τ) :
    (s'.hash u).nChildren = (s.hash u).nChildren ∧ (s'.hash u).nViews = (s.hash u).nViews := by
  cases h with
  | same _ heq =>
    rw [heq]
    exact ⟨rfl, rfl⟩
  | new bufferId addr _ hhash =>
    rw [hhash]
    by_cases hu : u = t
    · subst hu
      rw [Function.update_self]
      exact ⟨rfl, rfl⟩
    · rw [Function.update_of_ne hu]
      exact ⟨rfl, rfl⟩
  | reuse parent hfresh _ _ hallocated _ _ _ hhash =>
    have hne : t ≠ parent := by
      rintro rfl
      rw [hfresh.2.2] at hallocated
      cases hallocated
    rw [hhash]
    by_cases hu : u = t
    · subst hu
      rw [hash_inPlace_node hne]
      exact ⟨rfl, rfl⟩
    · by_cases hup : u = parent
      · subst hup
        rw [hash_inPlace_parent]
        exact ⟨rfl, rfl⟩
      · rw [hash_inPlace_of_ne hu hup]
        exact ⟨rfl, rfl⟩

theorem Counts.allocates (h : Counts g todo s) (halloc : Allocates g t s s') :
    Counts g todo s' where
  children := fun u => by rw [(halloc.counts u).1, h.children]
  views := fun r hr => by rw [(halloc.counts r).2, h.views r hr]
  viewsOfView := fun v hv => by rw [(halloc.counts v).2, h.viewsOfView v hv]

/-- **One use less is counted.** -/
theorem Counts.updates (h : Counts g (p :: todo) s) (hg : g.WellFormed)
    (hp : p ∈ uses g g.nodes) (htensor : p ∈ g.tensors) (hupdates : Updates g p s s') :
    Counts g todo s' := by
  refine ⟨fun u => ?_, fun r hr => ?_, fun v hv => ?_⟩
  · rw [hupdates.children, h.children, List.count_cons]
    by_cases hu : u = p
    · subst hu
      simp
    · simp [hu, Ne.symm hu]
  · rw [hupdates.views, h.views r hr, openViews_cons hg hp htensor hr, h.children,
      List.count_cons_self]
    by_cases hview : g.viewSrc p = some r
    · have hzero := h.viewsOfView p (by rw [hview]; nofun)
      by_cases hmem : p ∈ todo
      · have hpos := List.count_pos_iff.mpr hmem
        rw [if_neg fun hnot => hnot.1 hmem, if_neg fun hone => by omega]
        simp
      · rw [if_pos ⟨hmem, hview⟩, List.count_eq_zero.mpr hmem, if_pos ⟨rfl, hzero, hview⟩]
        simp
    · rw [if_neg fun hboth => hview hboth.2, if_neg fun hall => hview hall.2.2]
      simp
  · rw [hupdates.views, h.viewsOfView v hv, if_neg, sub_zero]
    rintro ⟨-, -, hview⟩
    exact hv (hg.viewSrc p v hview)

/-- The invariant between two nodes. -/
structure Invariant (g : Graph τ) (b : Buffers τ) (front rest : List τ) (s : Plan τ) : Prop where
  sound : Sound g b s
  counts : Counts g (uses g rest) s
  alive : Alive g front (uses g rest) rest s

/-- What is not fresh is left as it is. -/
theorem Allocates.eq_of_not_fresh (h : Allocates g t s s') (hnot : ¬ Fresh g s t) : s' = s := by
  cases h with
  | same _ heq => exact heq
  | new _ _ hfresh _ => exact absurd hfresh hnot
  | reuse _ hfresh _ _ _ _ _ _ _ => exact absurd hfresh hnot

omit [DecidableEq τ] in
/-- Nothing is in front of itself. -/
theorem Graph.WellFormed.not_mem_front (hg : g.WellFormed) {back : List τ}
    (hnodes : g.nodes = front ++ t :: back) : t ∉ g.leafs ∧ t ∉ front := by
  have hnodup := hg.nodup
  rw [Graph.tensors, hnodes] at hnodup
  refine ⟨fun h => ?_, fun h => ?_⟩
  · exact (List.nodup_append.mp hnodup).2.2 t h t (by simp) rfl
  · exact (List.nodup_append.mp (List.nodup_append.mp hnodup).2.1).2.2 t h t (by simp) rfl

omit [DecidableEq τ] in
/-- What is in front is not behind. -/
theorem Graph.WellFormed.not_mem_back (hg : g.WellFormed) {back : List τ}
    (hnodes : g.nodes = front ++ t :: back) (hu : u ∈ g.leafs ∨ u ∈ front) : u ∉ t :: back := by
  have hnodup := hg.nodup
  rw [Graph.tensors, hnodes] at hnodup
  intro h
  rcases hu with hu | hu
  · exact (List.nodup_append.mp hnodup).2.2 u hu u (List.mem_append_right _ h) rfl
  · exact (List.nodup_append.mp (List.nodup_append.mp hnodup).2.1).2.2 u hu u h rfl

omit [DecidableEq τ] in
/-- No node is its own source. -/
theorem Graph.WellFormed.not_self (hg : g.WellFormed) (ht : t ∈ g.tensors)
    (hinplace : g.canInplace t) : t ∉ g.src t := by
  intro hself
  rcases List.mem_append.mp ht with hleaf | hnode
  · rw [hg.leafs t hleaf] at hinplace
    cases hinplace
  · obtain ⟨front, back, hnodes⟩ := List.append_of_mem hnode
    obtain ⟨hleaf, hfront⟩ := hg.not_mem_front hnodes
    exact (hg.src front t back hnodes t hself).elim hleaf hfront

omit [DecidableEq τ] in
/-- A source is in front of the node that has it. -/
theorem Graph.WellFormed.src_tensors (hg : g.WellFormed) {back : List τ}
    (hnodes : g.nodes = front ++ t :: back) (hu : u ∈ g.src t) : u ∈ g.tensors := by
  rcases hg.src front t back hnodes u hu with h | h
  · exact List.mem_append_left _ h
  · refine List.mem_append_right _ ?_
    rw [hnodes]
    exact List.mem_append_left _ h

omit [DecidableEq τ] in
/-- What a source is a view of is in front too. -/
theorem Graph.WellFormed.root_front (hg : g.WellFormed) {back : List τ} {r : τ}
    (hnodes : g.nodes = front ++ t :: back) (hu : u ∈ g.src t) (hview : g.viewSrc u = some r)
    (hr : g.external r = false) : r ∈ g.leafs ∨ r ∈ front := by
  obtain ⟨hnode, -⟩ := hg.view u (hg.src_tensors hnodes hu) r hview hr
  rcases hg.src front t back hnodes u hu with hleaf | hfront
  · obtain ⟨front', back', hnodes'⟩ := List.append_of_mem hnode
    exact absurd hleaf (hg.not_mem_front hnodes').1
  · obtain ⟨front', back', rfl⟩ := List.append_of_mem hfront
    refine (hg.viewBehind front' u (back' ++ t :: back) ?_ r hview hr).imp id fun h => ?_
    · rw [hnodes, List.append_assoc, List.cons_append]
    · exact List.mem_append_left _ h

/-- **Sources have places already.** -/
theorem allocate_sources (hg : g.WellFormed) (hb : b.Valid) {back : List τ}
    (hnodes : g.nodes = front ++ t :: back) (h : Invariant g b front (t :: back) s) {bufferId : ℕ}
    (hrun : (g.src t).foldlM (fun s parent => allocateNode g b bufferId parent s) s = .ok s') :
    s' = s := by
  have hall : ∀ l : List τ, (∀ u ∈ l, u ∈ g.src t) →
      l.foldlM (fun s parent => allocateNode g b bufferId parent s) s = .ok s' → s' = s := by
    intro l
    induction l with
    | nil =>
      intro _ hrun
      cases hrun
      rfl
    | cons u l ih =>
      intro hl hrun
      have husrc := hl u List.mem_cons_self
      have hu := hg.src_tensors hnodes husrc
      rw [List.foldlM_cons, Fuel.bind_eq_ok_iff] at hrun
      obtain ⟨s₁, hone, hrest⟩ := hrun
      have halloc := (h.sound.allocateNode hb hg.nodup hu (hg.not_self hu) hone).2
      have hplaced : Placed g front u := (hg.src front t back hnodes u husrc).imp id fun h => .inl h
      have heq : s₁ = s := by
        refine halloc.eq_of_not_fresh fun hfresh => ?_
        have hmarked := h.alive u hplaced ⟨hfresh.1, hfresh.2.1⟩
          (.inl (List.mem_flatMap.mpr ⟨t, List.mem_cons_self, husrc⟩))
        rw [hfresh.2.2] at hmarked
        cases hmarked
      rw [heq] at hrest
      exact ih (fun v hv => hl v (List.mem_cons_of_mem u hv)) hrest
  exact hall (g.src t) (fun u hu => hu) hrun

/-- A tensor is where it was. -/
def SamePlace (s s' : Plan τ) (t : τ) : Prop :=
  (s'.hash t).bufferId = (s.hash t).bufferId ∧ (s'.hash t).addr = (s.hash t).addr

/-- What is not counted is not needed. -/
theorem not_needed_of_counts {todo' : List τ} (hcounts : Counts g todo' s)
    (hext : g.external u = false) (hsub : ∀ v ∈ todo, v ∈ todo') (htodo : u ∉ todo)
    (hviews : (s.hash u).nViews = 0) (houtput : g.output u = false) (hrest : u ∉ rest) :
    ¬ Needed g todo rest u := by
  rintro (hmem | ⟨v, hv, hview, hop, hopen⟩ | hout | hmem)
  · exact htodo hmem
  · rw [hcounts.views u hext, Int.natCast_eq_zero] at hviews
    exact openViews_eq_zero.mp hviews v hv ⟨hview, hop, hopen.mono hsub⟩
  · rw [houtput] at hout
    cases hout
  · exact hrest hmem

/-- A node that has a place, and nothing that is needed has lost one. -/
structure Ready (g : Graph τ) (b : Buffers τ) (front : List τ) (t : τ) (back : List τ)
    (s s' : Plan τ) : Prop where
  sound : Sound g b s'
  counts : Counts g (uses g (t :: back)) s'
  alive : Alive g (front ++ [t]) (uses g back) back s'
  own : Own g t → (s'.hash t).allocated = true
  place : ∀ u, Placed g front u → Own g u → SamePlace s s' u

omit [DecidableEq τ] in
/-- What is there when a node has run is the node, or was there. -/
theorem Placed.of_append (h : Placed g (front ++ [t]) u) : u = t ∨ Placed g front u := by
  rcases h with h | h | h
  · exact .inr (.inl h)
  · rcases List.mem_append.mp h with h | h
    · exact .inr (.inr (.inl h))
    · exact .inl (List.mem_singleton.mp h)
  · exact .inr (.inr (.inr h))

omit [DecidableEq τ] in
theorem uses_cons (t : τ) (back : List τ) : uses g (t :: back) = g.src t ++ uses g back :=
  List.flatMap_cons ..

/-- **The node is given a place.** -/
theorem Invariant.allocate (hg : g.WellFormed) (hb : b.Valid) {back : List τ}
    (hnodes : g.nodes = front ++ t :: back) (h : Invariant g b front (t :: back) s) {bufferId : ℕ}
    (hrun : allocateNode g b bufferId t s = .ok s') : Ready g b front t back s s' := by
  have ht : t ∈ g.tensors := List.mem_append_right _ (by rw [hnodes]; simp)
  obtain ⟨hsound, halloc⟩ := h.sound.allocateNode hb hg.nodup ht (hg.not_self ht) hrun
  have hsub : ∀ u ∈ uses g back, u ∈ uses g (t :: back) := fun u hu => by
    rw [uses_cons]
    exact List.mem_append_right _ hu
  have hbefore : ∀ u, Placed g front u → Own g u → Needed g (uses g back) back u →
      (s.hash u).allocated = true := fun u hplaced hown hneeded =>
    h.alive u hplaced hown (hneeded.mono hsub fun v hv => List.mem_cons_of_mem t hv)
  have hmarked (hplaced : Placed g front t) (hown : Own g t) : (s.hash t).allocated = true :=
    h.alive t hplaced hown (.inr (.inr (.inr List.mem_cons_self)))
  have hcounts := h.counts.allocates halloc
  cases halloc with
  | same hdone heq =>
    subst heq
    have hself (hown : Own g t) : (s'.hash t).allocated = true := by
      by_contra hnot
      exact hdone ⟨hown.1, hown.2, Bool.not_eq_true _ ▸ hnot⟩
    refine ⟨hsound, hcounts, fun u hplaced hown hneeded => ?_, hself, fun u _ _ => ⟨rfl, rfl⟩⟩
    rcases hplaced.of_append with rfl | hplaced
    · exact hself hown
    · exact hbefore u hplaced hown hneeded
  | new bufferId addr hfresh hhash =>
    have hself : (s'.hash t).allocated = true := by rw [hhash, Function.update_self]
    have hother (u : τ) (hu : u ≠ t) : s'.hash u = s.hash u := by
      rw [hhash, Function.update_of_ne hu]
    refine ⟨hsound, hcounts, fun u hplaced hown hneeded => ?_, fun _ => hself,
      fun u hplaced hown => ?_⟩
    · rcases hplaced.of_append with rfl | hplaced
      · exact hself
      · by_cases hu : u = t
        · rwa [hu]
        · rw [hother u hu]
          exact hbefore u hplaced hown hneeded
    · have hu : u ≠ t := by
        rintro rfl
        have hmark := hmarked hplaced hown
        rw [hfresh.2.2] at hmark
        cases hmark
      rw [SamePlace, hother u hu]
      exact ⟨rfl, rfl⟩
  | reuse parent hfresh hinplace hsrc hallocated houtput hone hviews hhash =>
    have hne : t ≠ parent := fun heq => hg.not_self ht hinplace (heq ▸ hsrc)
    have hself : (s'.hash t).allocated = true := by rw [hhash, hash_inPlace_node hne]
    -- the parent is read here for the last time
    have hparent : ¬ Needed g (uses g back) back parent := by
      refine not_needed_of_counts h.counts (h.sound.own parent hallocated).2.1 hsub ?_ hviews
        houtput fun hback => hg.not_mem_back hnodes (hg.src front t back hnodes parent hsrc)
          (List.mem_cons_of_mem t hback)
      intro hmem
      have hcount := h.counts.children parent
      have hpos := List.count_pos_iff.mpr hsrc
      have hpos' := List.count_pos_iff.mpr hmem
      rw [uses_cons, List.count_append, hone] at hcount
      omega
    refine ⟨hsound, hcounts, fun u hplaced hown hneeded => ?_, fun _ => hself,
      fun u hplaced hown => ?_⟩
    · rcases hplaced.of_append with rfl | hplaced
      · exact hself
      · by_cases hu : u = t
        · rwa [hu]
        · rw [hhash, hash_inPlace_of_ne hu fun heq : u = parent => hparent (heq ▸ hneeded)]
          exact hbefore u hplaced hown hneeded
    · have hu : u ≠ t := by
        rintro rfl
        have hmark := hmarked hplaced hown
        rw [hfresh.2.2] at hmark
        cases hmark
      rw [SamePlace, hhash]
      by_cases hup : u = parent
      · rw [hup, hash_inPlace_parent]
        exact ⟨rfl, rfl⟩
      · rw [hash_inPlace_of_ne hu hup]
        exact ⟨rfl, rfl⟩

/-- **The sources are updated.** What is taken back is not needed. -/
theorem update_sources (hg : g.WellFormed) {back : List τ} (hnodes : g.nodes = front ++ t :: back)
    {l : List τ} (hl : ∀ u ∈ l, u ∈ g.src t) (hsound : Sound g b s)
    (hcounts : Counts g (l ++ uses g back) s) (halive : Alive g (front ++ [t]) (uses g back) back s)
    (hrun : l.foldlM (updateParent g b) s = .ok s') : Sound g b s' ∧ Counts g (uses g back) s' ∧
      Alive g (front ++ [t]) (uses g back) back s' ∧ ∀ u, SamePlace s s' u := by
  induction l generalizing s with
  | nil =>
    cases hrun
    exact ⟨hsound, hcounts, halive, fun u => ⟨rfl, rfl⟩⟩
  | cons p l ih =>
    rw [List.foldlM_cons, Fuel.bind_eq_ok_iff] at hrun
    obtain ⟨s₁, hone, hrest⟩ := hrun
    have hsrc := hl p List.mem_cons_self
    have htensor := hg.src_tensors hnodes hsrc
    have hp : p ∈ uses g g.nodes := List.mem_flatMap.mpr ⟨t, by rw [hnodes]; simp, hsrc⟩
    obtain ⟨hsound₁, hupdates⟩ := hsound.updateParent hg.nodup hone
    have hcounts₁ : Counts g (l ++ uses g back) s₁ := hcounts.updates hg hp htensor hupdates
    have halive₁ : Alive g (front ++ [t]) (uses g back) back s₁ := by
      intro u hplaced hown hneeded
      rcases hupdates.allocated u with heq | ⟨-, houtput, hchildren, hviews, hparent⟩
      · rw [heq]
        exact halive u hplaced hown hneeded
      · refine absurd hneeded (not_needed_of_counts hcounts₁ hown.2
          (fun v hv => List.mem_append_right l hv) ?_ hviews houtput ?_)
        · intro hmem
          have hpos := List.count_pos_iff.mpr (List.mem_append_right l hmem)
          rw [hcounts₁.children] at hchildren
          omega
        · have hroot : u ∈ g.leafs ∨ u ∈ front := by
            rcases hparent with rfl | hview
            · exact hg.src front t back hnodes u hsrc
            · exact hg.root_front hnodes hsrc hview hown.2
          exact fun hmem => hg.not_mem_back hnodes hroot (List.mem_cons_of_mem t hmem)
    obtain ⟨hsound', hcounts', halive', hplace⟩ :=
      ih (fun u hu => hl u (List.mem_cons_of_mem p hu)) hsound₁ hcounts₁ halive₁ hrest
    refine ⟨hsound', hcounts', halive', fun u => ?_⟩
    exact ⟨(hplace u).1.trans (hupdates.place u).1, (hplace u).2.trans (hupdates.place u).2⟩

/-- **One node.** -/
theorem Invariant.planNode (hg : g.WellFormed) (hb : b.Valid) {back : List τ}
    (hnodes : g.nodes = front ++ t :: back) (h : Invariant g b front (t :: back) s) {bufferId : ℕ}
    (hrun : planNode g b s (t, bufferId) = .ok s') : ∃ s₁, Ready g b front t back s s₁ ∧
      (∀ u, SamePlace s₁ s' u) ∧ Invariant g b (front ++ [t]) back s' := by
  rw [Galloc.planNode, Fuel.bind_eq_ok_iff] at hrun
  obtain ⟨s₀, hsources, hrun⟩ := hrun
  rw [allocate_sources hg hb hnodes h hsources, Fuel.bind_eq_ok_iff] at hrun
  obtain ⟨s₁, hnode, hupdate⟩ := hrun
  have hready := h.allocate hg hb hnodes hnode
  obtain ⟨hsound, hcounts, halive, hplace⟩ := update_sources hg hnodes (fun u hu => hu)
    hready.sound (by rw [← uses_cons]; exact hready.counts) hready.alive hupdate
  exact ⟨s₁, hready, hplace, hsound, hcounts, halive⟩

/-- **All nodes.** What has a place keeps it. -/
theorem Invariant.run (hg : g.WellFormed) (hb : b.Valid) {l : List (τ × ℕ)}
    (hnodes : g.nodes = front ++ l.map Prod.fst) (h : Invariant g b front (l.map Prod.fst) s)
    (hrun : l.foldlM (Galloc.planNode g b) s = .ok s') :
    Invariant g b g.nodes [] s' ∧ ∀ u, Placed g front u → Own g u → SamePlace s s' u := by
  induction l generalizing front s with
  | nil =>
    cases hrun
    rw [hnodes, List.map_nil, List.append_nil]
    exact ⟨h, fun u _ _ => ⟨rfl, rfl⟩⟩
  | cons node l ih =>
    rw [List.foldlM_cons, Fuel.bind_eq_ok_iff] at hrun
    obtain ⟨s₂, hone, hrest⟩ := hrun
    rw [List.map_cons] at hnodes h
    obtain ⟨s₁, hready, hplace, h₂⟩ := h.planNode hg hb hnodes hone
    obtain ⟨hend, hplaceEnd⟩ := ih (by simpa using hnodes) h₂ hrest
    refine ⟨hend, fun u hu hown => ?_⟩
    have hu₂ : Placed g (front ++ [node.1]) u :=
      hu.imp id (Or.imp (fun h => List.mem_append_left _ h) id)
    have hfirst := hready.place u hu hown
    have hlast := hplaceEnd u hu₂ hown
    exact ⟨hlast.1.trans ((hplace u).1.trans hfirst.1), hlast.2.trans ((hplace u).2.trans hfirst.2)⟩

end Steps

/-! ### Leafs and counts -/

section Counting

variable {g : Graph τ} {b : Buffers τ} {s s' : Plan τ} {t u : τ} {bufferId : ℕ}

/-- What is counted, and places of inputs. -/
structure Counted (s s' : Plan τ) (children views : τ → ℕ) : Prop where
  children : ∀ u, (s'.hash u).nChildren = (s.hash u).nChildren + children u
  views : ∀ u, (s'.hash u).nViews = (s.hash u).nViews + views u
  allocated : ∀ u, (s.hash u).allocated = true → (s'.hash u).allocated = true

/-- **A tensor that is not computed in place** gets a place if it has none. -/
theorem Sound.allocate_leaf (hs : Sound g b s) (hb : b.Valid) (hg : g.WellFormed)
    (ht : t ∈ g.tensors) (hleaf : g.canInplace t = false)
    (h : Galloc.allocateNode g b bufferId t s = .ok s') :
    Sound g b s' ∧ Counted s s' 0 0 ∧ (Own g t → (s'.hash t).allocated = true) := by
  obtain ⟨hsound, halloc⟩ := hs.allocateNode hb hg.nodup ht (hg.not_self ht) h
  refine ⟨hsound, ⟨fun u => ?_, fun u => ?_, fun u hu => ?_⟩, fun hown => ?_⟩
  · simp [(halloc.counts u).1]
  · simp [(halloc.counts u).2]
  · cases halloc with
    | same hdone heq => rwa [heq]
    | new bufferId addr hfresh hhash =>
      rw [hhash]
      by_cases hut : u = t
      · rw [hut, Function.update_self]
      · rwa [Function.update_of_ne hut]
    | reuse parent hfresh hinplace hsrc hallocated houtput hone hviews hhash =>
      rw [hleaf] at hinplace
      cases hinplace
  · cases halloc with
    | same hdone heq =>
      by_contra hnot
      exact hdone ⟨hown.1, hown.2, by rw [← heq]; exact Bool.not_eq_true _ ▸ hnot⟩
    | new bufferId addr hfresh hhash => rw [hhash, Function.update_self]
    | reuse parent hfresh hinplace hsrc hallocated houtput hone hviews hhash =>
      rw [hleaf] at hinplace
      cases hinplace

omit [DecidableEq τ] in
theorem Counted.refl (s : Plan τ) : Counted s s 0 0 :=
  ⟨fun u => by simp, fun u => by simp, fun u h => h⟩

omit [DecidableEq τ] in
theorem Counted.trans {s₁ : Plan τ} {children children' children₂ views views' views₂ : τ → ℕ}
    (h : Counted s s₁ children views) (h' : Counted s₁ s' children' views')
    (hchildren : ∀ u, children₂ u = children u + children' u)
    (hviews : ∀ u, views₂ u = views u + views' u) : Counted s s' children₂ views₂ where
  children := fun u => by rw [h'.children, h.children, hchildren, Int.natCast_add, add_assoc]
  views := fun u => by rw [h'.views, h.views, hviews, Int.natCast_add, add_assoc]
  allocated := fun u hu => h'.allocated u (h.allocated u hu)

/-- An input has a place. -/
theorem Sound.allocateInput (hs : Sound g b s) (hb : b.Valid) (hg : g.WellFormed)
    (ht : t ∈ g.tensors) (h : allocateInput g b bufferId t s = .ok s') : Sound g b s' ∧
      Counted s s' 0 0 ∧ (g.input t = true → Own g t → (s'.hash t).allocated = true) := by
  rw [Galloc.allocateInput] at h
  split_ifs at h with hinput
  · obtain ⟨hsound, hcounted, hown⟩ := hs.allocate_leaf hb hg ht (hg.input t hinput) h
    exact ⟨hsound, hcounted, fun _ => hown⟩
  · cases h
    exact ⟨hs, .refl s, fun h => absurd h hinput⟩

/-- **The sources are counted.** -/
theorem Sound.countSources (hs : Sound g b s) (hb : b.Valid) (hg : g.WellFormed) {l : List τ}
    (hl : ∀ u ∈ l, u ∈ g.tensors) (h : l.foldlM (countSource g b bufferId) s = .ok s') :
    Sound g b s' ∧ Counted s s' (fun u => l.count u) 0 := by
  induction l generalizing s with
  | nil =>
    cases h
    exact ⟨hs, Counted.refl _⟩
  | cons p l ih =>
    rw [List.foldlM_cons, Fuel.bind_eq_ok_iff] at h
    obtain ⟨s₁, hone, hrest⟩ := h
    have hcounted : Counted s (Galloc.addChildren 1 p s) (fun u => if u = p then 1 else 0) 0 := by
      refine ⟨fun u => ?_, fun u => ?_, fun u hu => ?_⟩ <;> rw [hash_addChildren]
      · split_ifs <;> rfl
      · simp
      · exact hu
    obtain ⟨hsound, hinput, -⟩ :=
      (hs.addChildren 1 p).allocateInput hb hg (hl p List.mem_cons_self) hone
    obtain ⟨hend, hlast⟩ := ih hsound (fun u hu => hl u (List.mem_cons_of_mem p hu)) hrest
    have hboth : Counted (Galloc.addChildren 1 p s) s' (fun u => l.count u) 0 :=
      hinput.trans hlast (fun _ => (zero_add _).symm) fun _ => rfl
    refine ⟨hend, hcounted.trans hboth (fun u => ?_) fun _ => rfl⟩
    rw [List.count_cons, add_comm]
    exact congrArg (· + _) (if_congr (by rw [beq_iff_eq, eq_comm]) rfl rfl)

/-- **A node is counted.** -/
theorem Sound.countNode (hs : Sound g b s) (hb : b.Valid) (hg : g.WellFormed)
    {front back : List τ} (hnodes : g.nodes = front ++ t :: back)
    (h : countNode g b s (t, bufferId) = .ok s') : Sound g b s' ∧
      Counted s s' (fun u => (g.src t).count u)
        (fun r => if g.viewSrc t = some r ∧ g.opNone t = false then 1 else 0) ∧
      (g.input t = true → Own g t → (s'.hash t).allocated = true) := by
  rw [Galloc.countNode, Fuel.bind_eq_ok_iff] at h
  obtain ⟨s₂, hone, hrest⟩ := h
  have hview : Sound g b (countView g t s) ∧ Counted s (countView g t s) 0
      (fun r => if g.viewSrc t = some r ∧ g.opNone t = false then 1 else 0) := by
    rw [countView]
    cases hview : g.viewSrc t with
    | none => exact ⟨hs, fun u => by simp, fun u => by simp, fun u hu => hu⟩
    | some r =>
      cases hop : g.opNone t with
      | true => exact ⟨hs, fun u => by simp, fun u => by simp, fun u hu => hu⟩
      | false =>
        refine ⟨hs.addViews 1 r, fun u => ?_, fun u => ?_, fun u hu => ?_⟩ <;>
          simp only [Bool.false_eq_true, if_false, hash_addViews]
        · simp
        · by_cases hu : u = r
          · simp [hu]
          · simp [hu, Ne.symm hu]
        · exact hu
  have ht : t ∈ g.tensors := List.mem_append_right _ (by rw [hnodes]; simp)
  obtain ⟨hsound, hcounted, hown⟩ := hview.1.allocateInput hb hg ht hone
  obtain ⟨hend, hlast⟩ := hsound.countSources hb hg (fun u hu => hg.src_tensors hnodes hu) hrest
  refine ⟨hend, ?_, fun hinput hmine => hlast.allocated t (hown hinput hmine)⟩
  have hboth : Counted (countView g t s) s' (fun u => (g.src t).count u) 0 :=
    hcounted.trans hlast (fun _ => (zero_add _).symm) fun _ => rfl
  exact hview.2.trans hboth (fun _ => (zero_add _).symm) fun _ => rfl

/-- **The nodes are counted.** -/
theorem Sound.countNodes (hs : Sound g b s) (hb : b.Valid) (hg : g.WellFormed) {front : List τ}
    {l : List (τ × ℕ)} (hnodes : g.nodes = front ++ l.map Prod.fst)
    (h : l.foldlM (Galloc.countNode g b) s = .ok s') : Sound g b s' ∧
      Counted s s' (fun u => (uses g (l.map Prod.fst)).count u) (fun r => ((l.map Prod.fst).map
        fun v => if g.viewSrc v = some r ∧ g.opNone v = false then 1 else 0).sum) ∧
      ∀ t ∈ l.map Prod.fst, g.input t = true → Own g t → (s'.hash t).allocated = true := by
  induction l generalizing front s with
  | nil =>
    cases h
    exact ⟨hs, Counted.refl _, by simp⟩
  | cons node l ih =>
    rw [List.foldlM_cons, Fuel.bind_eq_ok_iff] at h
    obtain ⟨s₁, hone, hrest⟩ := h
    rw [List.map_cons] at hnodes
    obtain ⟨hsound, hcounted, hown⟩ := hs.countNode hb hg hnodes hone
    have hnodes₁ : g.nodes = (front ++ [node.1]) ++ l.map Prod.fst := by simpa using hnodes
    obtain ⟨hend, hlast, hinputs⟩ := ih hsound hnodes₁ hrest
    refine ⟨hend, ?_, fun t ht hinput hmine => ?_⟩
    · refine hcounted.trans hlast (fun u => ?_) fun r => ?_
      · rw [List.map_cons, uses_cons, List.count_append]
      · rw [List.map_cons, List.map_cons, List.sum_cons]
    · rw [List.map_cons] at ht
      rcases List.mem_cons.mp ht with rfl | ht
      · exact hlast.allocated _ (hown hinput hmine)
      · exact hinputs t ht hinput hmine

/-- **The leafs have places.** -/
theorem Sound.allocateLeafs (hs : Sound g b s) (hb : b.Valid) (hg : g.WellFormed)
    {l : List (τ × ℕ)} (hl : ∀ leaf ∈ l, leaf.1 ∈ g.leafs)
    (h : l.foldlM (fun s leaf => Galloc.allocateNode g b leaf.2 leaf.1 s) s = .ok s') :
    Sound g b s' ∧ Counted s s' 0 0 ∧
      ∀ t ∈ l.map Prod.fst, Own g t → (s'.hash t).allocated = true := by
  induction l generalizing s with
  | nil =>
    cases h
    exact ⟨hs, Counted.refl _, by simp⟩
  | cons leaf l ih =>
    rw [List.foldlM_cons, Fuel.bind_eq_ok_iff] at h
    obtain ⟨s₁, hone, hrest⟩ := h
    have hleaf := hl leaf List.mem_cons_self
    obtain ⟨hsound, hcounted, hown⟩ := hs.allocate_leaf hb hg (List.mem_append_left _ hleaf)
      (hg.leafs _ hleaf) hone
    obtain ⟨hend, hlast, hleafs⟩ :=
      ih hsound (fun u hu => hl u (List.mem_cons_of_mem leaf hu)) hrest
    refine ⟨hend, hcounted.trans hlast (fun _ => rfl) fun _ => rfl, fun t ht hmine => ?_⟩
    rw [List.map_cons] at ht
    rcases List.mem_cons.mp ht with rfl | ht
    · exact hlast.allocated _ (hown hmine)
    · exact hleafs t ht hmine

omit [DecidableEq τ] in
theorem sound_emptyPlan : Sound g b (emptyPlan b) := by
  refine ⟨fun u hu => ?_, fun k => ?_, fun k => rfl, fun u hu => ?_⟩
  · cases hu
  · have hlive : live g b (emptyPlan b) k = fun _ _ => 0 := by
      funext c x
      simp [live, holds, emptyPlan]
    rw [hlive]
    exact tiles_new _ _
  · cases hu

omit [DecidableEq τ] in
theorem map_fst_withBuffers (ids : ℕ → ℕ) (l : List τ) :
    (withBuffers ids l).map Prod.fst = l := by
  rw [withBuffers, List.map_map]
  exact List.zipIdx_map_fst 0 l

/-- **Before the nodes are gone through**, what is there has a place. -/
theorem invariant_counted (hb : b.Valid) (hg : g.WellFormed) {nodeBufferIds leafBufferIds : ℕ → ℕ}
    (h : allocGraph g b nodeBufferIds leafBufferIds = .ok s') : ∃ s, Invariant g b [] g.nodes s ∧
      (withBuffers nodeBufferIds g.nodes).foldlM (Galloc.planNode g b) s = .ok s' := by
  rw [allocGraph, Fuel.bind_eq_ok_iff] at h
  obtain ⟨s₁, hleafs, h⟩ := h
  rw [Fuel.bind_eq_ok_iff] at h
  obtain ⟨s₂, hcount, hplan⟩ := h
  obtain ⟨hsound₁, hcounted₁, hown₁⟩ := sound_emptyPlan.allocateLeafs hb hg (fun leaf hleaf => by
    have hmem := List.mem_map_of_mem (f := Prod.fst) hleaf
    rwa [map_fst_withBuffers] at hmem) hleafs
  have hnodes : g.nodes = [] ++ (withBuffers nodeBufferIds g.nodes).map Prod.fst := by
    rw [map_fst_withBuffers, List.nil_append]
  obtain ⟨hsound₂, hcounted₂, hown₂⟩ := hsound₁.countNodes hb hg hnodes hcount
  rw [map_fst_withBuffers] at hown₁ hown₂
  simp only [map_fst_withBuffers] at hcounted₂
  have hall := hcounted₁.trans hcounted₂ (fun _ => (zero_add _).symm) fun _ => (zero_add _).symm
  refine ⟨s₂, ⟨hsound₂, ⟨fun u => ?_, fun r _ => ?_, fun v hv => ?_⟩, ?_⟩, hplan⟩
  · rw [hall.children]
    exact zero_add _
  · rw [hall.views, openViews]
    refine (zero_add _).trans (congrArg _ (congrArg List.sum (List.map_congr_left fun v _ => ?_)))
    exact if_congr ⟨fun h => ⟨h.1, h.2, fun h => h⟩, fun h => ⟨h.1, h.2.1⟩⟩ rfl rfl
  · refine (hall.views v).trans ((zero_add _).trans (Int.natCast_eq_zero.mpr ?_))
    rw [List.sum_eq_zero_iff]
    intro x hx
    obtain ⟨w, -, rfl⟩ := List.mem_map.mp hx
    exact if_neg fun h => hv (hg.viewSrc w v h.1)
  · rintro t (hleaf | hfront | ⟨hinput, ht⟩) hown -
    · exact hcounted₂.allocated t (hown₁ t hleaf hown)
    · cases hfront
    · rcases List.mem_append.mp ht with hleaf | hnode
      · exact hcounted₂.allocated t (hown₁ t hleaf hown)
      · exact hown₂ t hnode hinput hown

end Counting

/-! ### The graph runs -/

/-- The tensor whose memory a tensor is in. -/
def Graph.root (g : Graph τ) (t : τ) : τ := (g.viewSrc t).getD t

/-- The memory of a machine. -/
structure Machine (τ β : Type) where
  /-- By allocator, chunk and offset. -/
  mem : ℕ → ℕ → ℕ → β
  /-- The data that tensors have already. -/
  ext : τ → ℕ → β

section Machine

variable {β : Type} (g : Graph τ) (b : Buffers τ) (s : Plan τ)

/-- The data of a tensor. -/
def Machine.data (m : Machine τ β) (r : τ) (o : ℕ) : β :=
  let h := s.hash r
  if g.external r then m.ext r o
  else m.mem (b.talloc h.bufferId) h.addr.chunk (h.addr.offset + o)

/-- Data that are written to a span. -/
def overwrite (span : Span) (f old : ℕ → β) (x : ℕ) : β :=
  if span.Has x then f (x - span.offset) else old x

/-- The first data of a tensor are others. -/
def Machine.store (r : τ) (n : ℕ) (f : ℕ → β) (m : Machine τ β) : Machine τ β :=
  let h := s.hash r
  if g.external r then
    { m with ext := Function.update m.ext r fun o => if o < n then f o else m.ext r o }
  else
    { m with mem := fun k c => if k = b.talloc h.bufferId ∧ c = h.addr.chunk then
        overwrite ⟨h.addr.offset, n⟩ f (m.mem k c) else m.mem k c }

variable (nbytes : τ → ℕ) (op : τ → (τ → ℕ → β) → ℕ → β)

/-- A node is computed from the data of its sources. -/
def Machine.step (m : Machine τ β) (t : τ) : Machine τ β :=
  m.store g b s (g.root t) (nbytes (g.root t)) (op t (m.data g b s))

/-- A node is computed, where every tensor has its own memory. -/
def idealStep (σ : τ → ℕ → β) (t : τ) : τ → ℕ → β := Function.update σ (g.root t) (op t σ)

/-- The memory that a node reads: that of its sources, and what it is a view of. -/
def Reads (t r : τ) : Prop := (∃ u ∈ g.src t, g.root u = r) ∨ g.viewSrc t = some r

/-- The data that a node computes depend on what it reads. -/
def Local : Prop := ∀ t (σ σ' : τ → ℕ → β), (∀ r, Reads g t r → ∀ o < nbytes r, σ r o = σ' r o) →
  ∀ o < nbytes (g.root t), op t σ o = op t σ' o

/-- The data of a tensor are the same. -/
def Agrees (m : Machine τ β) (σ : τ → ℕ → β) (r : τ) : Prop :=
  ∀ o < nbytes r, m.data g b s r o = σ r o

/-- **What is needed is the same.** -/
def Consistent (front back : List τ) (m : Machine τ β) (σ : τ → ℕ → β) : Prop :=
  ∀ r, g.viewSrc r = none →
    (g.external r = true ∨ Placed g front r ∧ Needed g (uses g back) back r) →
      Agrees g b s nbytes m σ r

end Machine

section Runs

variable {β : Type} {g : Graph τ} {b : Buffers τ} {s s₁ sEnd : Plan τ} {front back : List τ}
  {t r u : τ} {m : Machine τ β} {σ : τ → ℕ → β} {nbytes : τ → ℕ}
  {op : τ → (τ → ℕ → β) → ℕ → β} {n : ℕ} {f : ℕ → β}

theorem data_store_self {o : ℕ} (ho : o < n) : (m.store g b s r n f).data g b s r o = f o := by
  rw [Machine.data, Machine.store]
  split_ifs with hext
  · simp only [Function.update_self, if_pos ho]
  · have hhas : (Span.mk (s.hash r).addr.offset n).Has ((s.hash r).addr.offset + o) :=
      ⟨Nat.le_add_right _ _, Nat.add_lt_add_left ho _⟩
    simp only [and_self, if_true, overwrite, if_pos hhas, Nat.add_sub_cancel_left]

/-- The data of another tensor are left, if the tensors do not overlap. -/
theorem data_store_of_ne {o : ℕ} (hne : u ≠ r)
    (hapart : g.external r = false → g.external u = false →
      b.talloc (s.hash u).bufferId = b.talloc (s.hash r).bufferId →
      (s.hash u).addr.chunk = (s.hash r).addr.chunk →
      ¬ (Span.mk (s.hash r).addr.offset n).Has ((s.hash u).addr.offset + o)) :
    (m.store g b s r n f).data g b s u o = m.data g b s u o := by
  rw [Machine.data, Machine.data, Machine.store]
  cases hr : g.external r with
  | true => simp only [if_true, Function.update_of_ne hne]
  | false =>
    cases hu : g.external u with
    | true => simp
    | false =>
      simp only [Bool.false_eq_true, if_false]
      split_ifs with hplace
      · exact if_neg (hapart hr hu hplace.1 hplace.2)
      · rfl

omit [DecidableEq τ] in
theorem Graph.WellFormed.viewSrc_root (hg : g.WellFormed) (t : τ) :
    g.viewSrc (g.root t) = none := by
  rw [Graph.root]
  cases h : g.viewSrc t with
  | none => exact h
  | some r => exact hg.viewSrc t r h

omit [DecidableEq τ] in
/-- A node that is read is read behind. -/
theorem Graph.WellFormed.open_back (hg : g.WellFormed) (hnodes : g.nodes = front ++ t :: back) :
    Open g (uses g back) t := by
  intro huse
  obtain ⟨u, hu, hsrc⟩ := List.mem_flatMap.mp huse
  obtain ⟨hleaf, hfront⟩ := hg.not_mem_front hnodes
  rw [hnodes] at hu
  rcases List.mem_append.mp hu with hu | hu
  · obtain ⟨front', back', rfl⟩ := List.append_of_mem hu
    refine absurd (hg.src front' u (back' ++ t :: back) ?_ t hsrc) fun h => h.elim hleaf fun h =>
      hfront (List.mem_append_left _ h)
    rw [hnodes, List.append_assoc, List.cons_append]
  · rcases List.mem_cons.mp hu with rfl | hu
    · exact absurd (hg.src front u back hnodes u hsrc) fun h => h.elim hleaf hfront
    · exact List.mem_flatMap.mpr ⟨u, hu, hsrc⟩

omit [DecidableEq τ] in
/-- **The memory that a view is in is there, and is needed** when the view has run. -/
theorem Graph.WellFormed.root_of_view (hg : g.WellFormed) (hnodes : g.nodes = front ++ t :: back)
    (hview : g.viewSrc t = some r) (hext : g.external r = false) :
    Placed g front r ∧ Needed g (uses g back) back r := by
  have ht : t ∈ g.tensors := List.mem_append_right _ (by rw [hnodes]; simp)
  obtain ⟨hnode, hop⟩ := hg.view t ht r hview hext
  exact ⟨(hg.viewBehind front t back hnodes r hview hext).imp id .inl,
    .inr (.inl ⟨t, hnode, hview, hop, hg.open_back hnodes⟩)⟩

omit [DecidableEq τ] in
theorem Needed.cons (h : Needed g (uses g back) back r) :
    Needed g (uses g (t :: back)) (t :: back) r :=
  h.mono (fun u hu => by rw [uses_cons]; exact List.mem_append_right _ hu)
    fun u hu => List.mem_cons_of_mem t hu

omit [DecidableEq τ] in
/-- **What a node reads is there, and is needed.** -/
theorem Reads.needed (h : Reads g t r) (hg : g.WellFormed) (hnodes : g.nodes = front ++ t :: back) :
    g.viewSrc r = none ∧ (g.external r = true ∨
      Placed g front r ∧ Needed g (uses g (t :: back)) (t :: back) r) := by
  rcases h with ⟨u, hu, rfl⟩ | hview
  · refine ⟨hg.viewSrc_root u, ?_⟩
    cases hext : g.external (g.root u) with
    | true => exact .inl rfl
    | false =>
      have huse : u ∈ uses g (t :: back) := by
        rw [uses_cons]
        exact List.mem_append_left _ hu
      refine .inr ?_
      cases hview : g.viewSrc u with
      | none =>
        rw [Graph.root, hview]
        exact ⟨(hg.src front t back hnodes u hu).imp id .inl, .inl huse⟩
      | some r =>
        rw [Graph.root, hview] at hext ⊢
        obtain ⟨hnode, hop⟩ := hg.view u (hg.src_tensors hnodes hu) r hview hext
        exact ⟨(hg.root_front hnodes hu hview hext).imp id .inl,
          .inr (.inl ⟨u, hnode, hview, hop, fun _ => huse⟩)⟩
  · refine ⟨hg.viewSrc t r hview, ?_⟩
    cases hext : g.external r with
    | true => exact .inl rfl
    | false =>
      obtain ⟨hplaced, hneeded⟩ := hg.root_of_view hnodes hview hext
      exact .inr ⟨hplaced, hneeded.cons⟩

/-- **Tensors with places do not overlap** in what they have. -/
theorem Sound.not_has (hs : Sound g b s) (hb : b.Valid) (hg : g.WellFormed)
    (hr : (s.hash r).allocated) (hu : (s.hash u).allocated) (hne : u ≠ r)
    (hsize : ∀ bufferId v, nbytes v ≤ b.allocSize bufferId v)
    (htalloc : b.talloc (s.hash u).bufferId = b.talloc (s.hash r).bufferId)
    (hchunk : (s.hash u).addr.chunk = (s.hash r).addr.chunk) {o : ℕ} (ho : o < nbytes u) :
    ¬ (Span.mk (s.hash r).addr.offset (nbytes r)).Has ((s.hash u).addr.offset + o) := by
  have hbytes (v : τ) : nbytes v ≤ bytes b (s.hash v) v :=
    (hsize (s.hash v).bufferId v).trans (alignedOffset_spec (hb.alignment_pos _) (hb.alignment_le _)
      (hb.allocSize_lt (s.hash v).bufferId v)).2.1
  intro hhas
  have hless := hbytes r
  have hless' := hbytes u
  obtain ⟨hlow, hhigh⟩ := hhas
  simp only at hlow hhigh
  refine hs.apart hg.nodup hr hu hne htalloc hchunk.symm ((s.hash u).addr.offset + o) ⟨hlow, ?_⟩
    ⟨Nat.le_add_right _ _, ?_⟩
  · simp only
    omega
  · simp only
    omega

/-- **One node runs.** -/
theorem Consistent.step (hg : g.WellFormed) (hb : b.Valid) (hnodes : g.nodes = front ++ t :: back)
    (hsize : ∀ bufferId v, nbytes v ≤ b.allocSize bufferId v) (hlocal : Local g nbytes op)
    (hready : Ready g b front t back s s₁)
    (hplace : ∀ u, Placed g (front ++ [t]) u → Own g u → SamePlace s₁ sEnd u)
    (h : Consistent g b sEnd nbytes front (t :: back) m σ) :
    Consistent g b sEnd nbytes (front ++ [t]) back (m.step g b sEnd nbytes op t)
      (idealStep g op σ t) := by
  have hsame : ∀ o < nbytes (g.root t), op t (m.data g b sEnd) o = op t σ o :=
    hlocal t _ _ fun r hreads => h r (hreads.needed hg hnodes).1 (hreads.needed hg hnodes).2
  -- where the node writes has a place
  have hroot (hext : g.external (g.root t) = false) :
      Placed g (front ++ [t]) (g.root t) ∧ (s₁.hash (g.root t)).allocated = true := by
    cases hview : g.viewSrc t with
    | none =>
      rw [Graph.root, hview] at hext ⊢
      exact ⟨.inr (.inl (by simp)), hready.own ⟨hview, hext⟩⟩
    | some r =>
      rw [Graph.root, hview] at hext ⊢
      obtain ⟨hplaced, hneeded⟩ := hg.root_of_view hnodes hview hext
      have hplaced' : Placed g (front ++ [t]) r :=
        hplaced.imp id (Or.imp (fun h => List.mem_append_left _ h) id)
      exact ⟨hplaced', hready.alive r hplaced' ⟨hg.viewSrc t r hview, hext⟩ hneeded⟩
  intro r hview hr o ho
  rw [Machine.step, idealStep]
  by_cases hne : r = g.root t
  · subst hne
    rw [data_store_self ho, Function.update_self, hsame o ho]
  · rw [Function.update_of_ne hne, data_store_of_ne hne]
    · refine h r hview (hr.imp id fun ⟨hplaced, hneeded⟩ => ⟨?_, hneeded.cons⟩) o ho
      refine hplaced.of_append.resolve_left ?_
      rintro rfl
      rw [Graph.root, hview] at hne
      exact hne rfl
    · intro hextRoot hext htalloc hchunk
      obtain ⟨hplaced, hneeded⟩ := hr.resolve_left (by simp [hext])
      have hrootPlace := hplace _ (hroot hextRoot).1 ⟨hg.viewSrc_root t, hextRoot⟩
      have hplace' := hplace r hplaced ⟨hview, hext⟩
      rw [hplace'.1, hrootPlace.1] at htalloc
      rw [hplace'.2, hrootPlace.2] at hchunk ⊢
      exact hready.sound.not_has hb hg (hroot hextRoot).2
        (hready.alive r hplaced ⟨hview, hext⟩ hneeded) hne hsize htalloc hchunk ho

/-- **The nodes run.** -/
theorem Consistent.run (hg : g.WellFormed) (hb : b.Valid)
    (hsize : ∀ bufferId v, nbytes v ≤ b.allocSize bufferId v) (hlocal : Local g nbytes op)
    {l : List (τ × ℕ)} (hnodes : g.nodes = front ++ l.map Prod.fst)
    (hinvariant : Invariant g b front (l.map Prod.fst) s)
    (hrun : l.foldlM (planNode g b) s = .ok sEnd)
    (h : Consistent g b sEnd nbytes front (l.map Prod.fst) m σ) {done rest : List τ}
    (hsplit : l.map Prod.fst = done ++ rest) : Consistent g b sEnd nbytes (front ++ done) rest
      (done.foldl (Machine.step g b sEnd nbytes op) m) (done.foldl (idealStep g op) σ) := by
  induction l generalizing front s m σ done with
  | nil =>
    obtain ⟨rfl, rfl⟩ := List.append_eq_nil_iff.mp hsplit.symm
    rwa [List.append_nil]
  | cons node l ih =>
    cases done with
    | nil =>
      rw [List.nil_append] at hsplit
      rwa [List.append_nil, ← hsplit]
    | cons t done =>
      rw [List.foldlM_cons, Fuel.bind_eq_ok_iff] at hrun
      obtain ⟨s₂, hone, hrest⟩ := hrun
      rw [List.map_cons] at hnodes hinvariant h hsplit
      obtain ⟨rfl, hbehind⟩ := List.cons.inj hsplit
      obtain ⟨s₁, hready, hplace, hinvariant₂⟩ := hinvariant.planNode hg hb hnodes hone
      have hnodes₂ : g.nodes = (front ++ [node.1]) ++ l.map Prod.fst := by simpa using hnodes
      have hplaceEnd := (hinvariant₂.run hg hb hnodes₂ hrest).2
      have hstep := h.step hg hb hnodes hsize hlocal hready fun u hu hown =>
        ⟨(hplaceEnd u hu hown).1.trans (hplace u).1, (hplaceEnd u hu hown).2.trans (hplace u).2⟩
      have hend := ih hnodes₂ hinvariant₂ hrest hstep hbehind
      rwa [List.append_assoc, List.singleton_append] at hend

end Runs

/-- A leaf and three nodes. The second node is computed in the place of the first. -/
def sampleGraph : Graph (Fin 4) where
  nodes := [1, 2, 3]
  leafs := [0]
  src := fun t => if t = 3 then [2, 0] else if t = 0 then [] else [t - 1]
  viewSrc := fun _ => none
  opNone := fun t => t = 0
  canInplace := fun t => t = 2
  input := fun t => t = 0
  output := fun t => t = 3
  external := fun _ => false
  sameData := fun _ _ => false
  sameLayout := fun _ _ => true

/-- Buffers of tensors of four bytes. -/
def sampleBuffers : Buffers (Fin 4) where
  talloc := fun _ => 0
  alignment := fun _ => 4
  maxSize := fun _ => 64
  allocSize := fun _ _ => 4

/-- Every node adds what it reads. -/
def sampleOp (t : Fin 4) (σ : Fin 4 → ℕ → ℕ) (o : ℕ) : ℕ :=
  ((sampleGraph.src t).map fun u => σ u o).sum + 1

theorem wellFormed_sampleGraph : sampleGraph.WellFormed where
  nodup := by decide
  src := by
    intro front t back h
    rcases front with _ | ⟨x, _ | ⟨y, _ | ⟨z, front⟩⟩⟩ <;> simp [sampleGraph] at h
    · obtain ⟨rfl, rfl⟩ := h
      decide
    · obtain ⟨rfl, rfl, rfl⟩ := h
      decide
    · obtain ⟨rfl, rfl, rfl, rfl⟩ := h
      decide
  viewSrc := by nofun
  view := by nofun
  viewBehind := by nofun
  leafs := by decide
  input := by decide

end Galloc

end WhisperCpp
