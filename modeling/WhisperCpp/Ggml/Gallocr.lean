import WhisperCpp.Ggml.DynTallocr
import Mathlib.Algebra.Order.BigOperators.Group.List
import Mathlib.Data.List.Nodup
import Mathlib.Logic.Function.Basic

/-!
# Where the tensors of a graph are

`ggml_gallocr` gives the tensors of a graph places in buffers. It goes through the nodes as they
will run, gives each a place, and takes back the places of tensors that no later node needs. A node
may get the place of one of its sources.

## Main definitions

* `Graph`, `Buffers` — what is looked at
* `HashNode`, `Plan` — the state
* `allocateNode`, `updateParent`, `planNode`, `allocGraph` — the program
* `Sound` — every tensor that is marked has its own bytes

## Main results

* `Sound.allocateNode`, `Sound.updateParent` — what the steps keep
* `Sound.apart` — tensors that are marked do not overlap
-/

namespace WhisperCpp

namespace Galloc

open Spans

/-! ### The program -/

/-- What is looked at in the tensors of a graph. -/
structure Graph (τ : Type) where
  nodes : List τ
  leafs : List τ
  /-- The sources that there are. -/
  src : τ → List τ
  viewSrc : τ → Option τ
  /-- The operation is `GGML_OP_NONE`. -/
  opNone : τ → Bool
  /-- `ggml_op_can_inplace`. -/
  canInplace : τ → Bool
  input : τ → Bool
  output : τ → Bool
  /-- There are data, or a buffer. -/
  external : τ → Bool
  sameData : τ → τ → Bool
  /-- `ggml_are_same_layout`. -/
  sameLayout : τ → τ → Bool

/-- What is looked at in the buffers. Buffers of one type have one allocator. -/
structure Buffers (τ : Type) where
  talloc : ℕ → ℕ
  alignment : ℕ → ℕ
  maxSize : ℕ → ℕ
  /-- `ggml_backend_buft_get_alloc_size`. -/
  allocSize : ℕ → τ → ℕ

/-- `hash_node`. -/
structure HashNode where
  nChildren : ℤ
  nViews : ℤ
  bufferId : ℕ
  addr : Address
  allocated : Bool
  deriving DecidableEq, Repr

/-- The state of the allocation. -/
structure Plan (τ : Type) where
  hash : τ → HashNode
  tallocs : ℕ → DynTallocr

section Program

variable {τ : Type} [DecidableEq τ] (g : Graph τ) (b : Buffers τ)

/-- A node of the hash table is another. -/
def Plan.set (t : τ) (h : HashNode) (s : Plan τ) : Plan τ :=
  { s with hash := Function.update s.hash t h }

/-- An allocator is another. -/
def Plan.setTalloc (k : ℕ) (a : DynTallocr) (s : Plan τ) : Plan τ :=
  { s with tallocs := Function.update s.tallocs k a }

/-- `free_bytes` of the allocator of a buffer. -/
def Plan.freeBytes (bufferId : ℕ) (addr : Address) (size : ℕ) (s : Plan τ) : Except Stop (Plan τ) :=
  ((s.tallocs (b.talloc bufferId)).freeBytes addr size).map fun a =>
    s.setTalloc (b.talloc bufferId) a

/-- `ggml_gallocr_free_extra_space`. -/
def freeExtraSpace (node parent : τ) (s : Plan τ) : Except Stop (Plan τ) :=
  let p := s.hash parent
  let parentSize := b.allocSize p.bufferId parent
  let nodeSize := b.allocSize (s.hash node).bufferId node
  let alignment := (s.tallocs (b.talloc p.bufferId)).alignment
  if parentSize < nodeSize then .error .aborted
  else if alignedOffset nodeSize alignment < alignedOffset parentSize alignment then
    s.freeBytes b p.bufferId ⟨p.addr.chunk, p.addr.offset + alignedOffset nodeSize alignment⟩
      (alignedOffset parentSize alignment - alignedOffset nodeSize alignment)
  else .ok s

/-- The place of a parent can be that of the node. -/
def reusable (node : τ) (s : Plan τ) (parent : τ) : Bool :=
  (s.hash parent).allocated && !(g.output parent || (g.viewSrc parent).any g.output) &&
    g.sameLayout node parent && (s.hash parent).nChildren = 1 && (s.hash parent).nViews = 0 &&
      match g.viewSrc parent with
      | none => true
      | some viewSrc => (s.hash viewSrc).nViews = 1 && (s.hash viewSrc).nChildren = 0 &&
          g.sameData viewSrc parent

/-- The place of a parent is that of the node. -/
def reuse (node parent : τ) (s : Plan τ) : Except Stop (Plan τ) :=
  let p := s.hash parent
  let s := s.set node { s.hash node with bufferId := p.bufferId, addr := p.addr }
  let s := s.set parent { s.hash parent with allocated := false }
  match g.viewSrc parent with
  | none => freeExtraSpace b node parent s
  | some viewSrc =>
    freeExtraSpace b node viewSrc (s.set viewSrc { s.hash viewSrc with allocated := false })

/-- A new place. -/
def allocateNew (node : τ) (bufferId : ℕ) (s : Plan τ) : Except Stop (Plan τ) :=
  ((s.tallocs (b.talloc bufferId)).alloc (b.allocSize bufferId node)).map fun r =>
    (s.set node { s.hash node with bufferId := bufferId, addr := r.1 }).setTalloc
      (b.talloc bufferId) r.2

/-- The parent whose place a node gets. -/
def findParent (node : τ) (s : Plan τ) : Option τ :=
  if g.canInplace node then (g.src node).find? (reusable g node s) else none

/-- The place of a parent, or a new one. -/
def givePlace (bufferId : ℕ) (node : τ) (s : Plan τ) : Except Stop (Plan τ) :=
  match findParent g node s with
  | some parent => reuse g b node parent s
  | none => allocateNew b node bufferId s

/-- `ggml_gallocr_allocate_node`. -/
def allocateNode (bufferId : ℕ) (node : τ) (s : Plan τ) : Except Stop (Plan τ) :=
  if g.external node ∨ (s.hash node).allocated ∨ (g.viewSrc node).isSome then .ok s
  else givePlace g b bufferId node (s.set node { s.hash node with allocated := true })

/-- `ggml_gallocr_free_node`. Outputs are not freed. -/
def freeNode (node : τ) (s : Plan τ) : Except Stop (Plan τ) :=
  if g.output node then .ok s
  else
    let h := s.hash node
    (s.freeBytes b h.bufferId h.addr (b.allocSize h.bufferId node)).map fun s =>
      s.set node { s.hash node with allocated := false }

/-- A view of a tensor more. -/
def addViews (n : ℤ) (t : τ) (s : Plan τ) : Plan τ :=
  s.set t { s.hash t with nViews := (s.hash t).nViews + n }

/-- A child of a tensor more. -/
def addChildren (n : ℤ) (t : τ) (s : Plan τ) : Plan τ :=
  s.set t { s.hash t with nChildren := (s.hash t).nChildren + n }

/-- Inputs are given places. -/
def allocateInput (bufferId : ℕ) (t : τ) (s : Plan τ) : Except Stop (Plan τ) :=
  if g.input t then allocateNode g b bufferId t s else .ok s

/-- A source is counted. -/
def countSource (bufferId : ℕ) (s : Plan τ) (src : τ) : Except Stop (Plan τ) :=
  allocateInput g b bufferId src (addChildren 1 src s)

/-- The view that a node is. -/
def countView (node : τ) (s : Plan τ) : Plan τ :=
  match g.viewSrc node with
  | none => s
  | some viewSrc => if g.opNone node then s else addViews 1 viewSrc s

/-- The children and views of a node are counted. -/
def countNode (s : Plan τ) (node : τ × ℕ) : Except Stop (Plan τ) := do
  let s ← allocateInput g b node.2 node.1 (countView g node.1 s)
  (g.src node.1).foldlM (countSource g b node.2) s

/-- What a parent is counted for, when the node has run. -/
def updateParent (s : Plan τ) (parent : τ) : Except Stop (Plan τ) :=
  let s := addChildren (-1) parent s
  if (s.hash parent).nChildren = 0 ∧ (s.hash parent).nViews = 0 then
    match g.viewSrc parent with
    | none => if (s.hash parent).allocated then freeNode g b parent s else .ok s
    | some viewSrc =>
      let s := addViews (-1) viewSrc s
      let h := s.hash viewSrc
      if h.nViews = 0 ∧ h.nChildren = 0 ∧ h.allocated then freeNode g b viewSrc s else .ok s
  else .ok s

/-- A node is given a place, and its parents are updated. -/
def planNode (s : Plan τ) (node : τ × ℕ) : Except Stop (Plan τ) := do
  let s ← (g.src node.1).foldlM (fun s parent => allocateNode g b node.2 parent s) s
  let s ← allocateNode g b node.2 node.1 s
  (g.src node.1).foldlM (updateParent g b) s

/-- Tensors with their buffers. -/
def withBuffers (ids : ℕ → ℕ) (l : List τ) : List (τ × ℕ) := l.zipIdx.map fun p => (p.1, ids p.2)

/-- The hash table is cleared, and the allocators are reset. -/
def emptyPlan : Plan τ where
  hash := fun _ => ⟨0, 0, 0, ⟨0, 0⟩, false⟩
  tallocs := fun k => .new (b.alignment k) (b.maxSize k)

/-- `ggml_gallocr_alloc_graph_impl`. -/
def allocGraph (nodeBufferIds leafBufferIds : ℕ → ℕ) : Except Stop (Plan τ) := do
  let s ← (withBuffers leafBufferIds g.leafs).foldlM
    (fun s leaf => allocateNode g b leaf.2 leaf.1 s) (emptyPlan b)
  let s ← (withBuffers nodeBufferIds g.nodes).foldlM (countNode g b) s
  (withBuffers nodeBufferIds g.nodes).foldlM (planNode g b) s

end Program

/-! ### Every tensor has its own bytes -/

section Memory

variable {τ : Type}

/-- The tensors of a graph. -/
def Graph.tensors (g : Graph τ) : List τ := g.leafs ++ g.nodes

/-- The bytes that a tensor is given. -/
def bytes (b : Buffers τ) (h : HashNode) (t : τ) : ℕ :=
  alignedOffset (b.allocSize h.bufferId t) (b.alignment (b.talloc h.bufferId))

/-- Of a byte, whether a tensor has it. -/
def holds (b : Buffers τ) (h : HashNode) (t : τ) (k c x : ℕ) : ℕ :=
  if h.allocated ∧ b.talloc h.bufferId = k ∧ c = h.addr.chunk then
    (Span.mk h.addr.offset (bytes b h t)).count x
  else 0

/-- Of a byte of an allocator, how many tensors have it. -/
def live (g : Graph τ) (b : Buffers τ) (s : Plan τ) (k c x : ℕ) : ℕ :=
  (g.tensors.map fun t => holds b (s.hash t) t k c x).sum

/-- The sizes and alignments are those of a machine. -/
structure Buffers.Valid (b : Buffers τ) : Prop where
  alignment_pos : ∀ k, 0 < b.alignment k
  alignment_le : ∀ k, b.alignment k ≤ 2 ^ 62
  allocSize_lt : ∀ bufferId t, b.allocSize bufferId t < 2 ^ 62

/-- **Every tensor that is marked has its own bytes.** -/
structure Sound (g : Graph τ) (b : Buffers τ) (s : Plan τ) : Prop where
  own : ∀ t, (s.hash t).allocated → g.viewSrc t = none ∧ g.external t = false ∧ t ∈ g.tensors
  tiles : ∀ k, Tiles (s.tallocs k) (live g b s k)
  alignment : ∀ k, (s.tallocs k).alignment = b.alignment k
  given : ∀ t, (s.hash t).allocated → Given (s.tallocs (b.talloc (s.hash t).bufferId))
    (s.hash t).addr (bytes b (s.hash t) t)

variable {g : Graph τ} {b : Buffers τ} {s : Plan τ} {t u : τ} {h : HashNode}

theorem holds_of_not_allocated (hnot : h.allocated = false) (k c x : ℕ) :
    holds b h t k c x = 0 := by
  simp [holds, hnot]

/-- A tensor has nothing of another allocator. -/
theorem holds_of_ne {k : ℕ} (hk : b.talloc h.bufferId ≠ k) (c x : ℕ) : holds b h t k c x = 0 := by
  simp [holds, hk]

theorem holds_eq (halloc : h.allocated = true) (c x : ℕ) : holds b h t (b.talloc h.bufferId) c x =
    if c = h.addr.chunk then (Span.mk h.addr.offset (bytes b h t)).count x else 0 := by
  simp [holds, halloc]

/-- The place of a tensor is counted. -/
theorem addLive_holds (halloc : h.allocated = true) (base : ℕ → ℕ → ℕ) (c x : ℕ) :
    addLive base h.addr (bytes b h t) c x = base c x + holds b h t (b.talloc h.bufferId) c x := by
  rw [addLive, holds_eq halloc]

theorem sum_map_update {l : List τ} {f f' : τ → ℕ} (hnodup : l.Nodup) (ht : t ∈ l)
    (hne : ∀ u, u ≠ t → f' u = f u) : (l.map f').sum + f t = (l.map f).sum + f' t := by
  induction l with
  | nil => cases ht
  | cons u l ih =>
    obtain ⟨hu, hnodup⟩ := List.nodup_cons.mp hnodup
    simp only [List.map_cons, List.sum_cons]
    rcases List.mem_cons.mp ht with rfl | hmem
    · have hmap : l.map f' = l.map f :=
        List.map_congr_left fun v hv => hne v fun heq => hu (heq ▸ hv)
      rw [hmap]
      omega
    · have hut : u ≠ t := fun heq => hu (heq ▸ hmem)
      have hrest := ih hnodup hmem
      rw [hne u hut]
      omega

theorem holds_le_live (ht : t ∈ g.tensors) (k c x : ℕ) :
    holds b (s.hash t) t k c x ≤ live g b s k c x :=
  List.single_le_sum (by simp) _ (List.mem_map_of_mem ht)

/-- One allocator is another, and so are places in it. -/
theorem Sound.of_talloc {s' : Plan τ} {k : ℕ} {a : DynTallocr} (hs : Sound g b s)
    (hgrows : Grows (s.tallocs k) a) (htallocs : s'.tallocs = Function.update s.tallocs k a)
    (hown : ∀ u, (s'.hash u).allocated →
      g.viewSrc u = none ∧ g.external u = false ∧ u ∈ g.tensors)
    (htiles : Tiles a (live g b s' k)) (hother : ∀ k', k' ≠ k → live g b s' k' = live g b s k')
    (hgiven : ∀ u, (s'.hash u).allocated → ((s.hash u).allocated ∧
      (s'.hash u).bufferId = (s.hash u).bufferId ∧ (s'.hash u).addr = (s.hash u).addr) ∨
        b.talloc (s'.hash u).bufferId = k ∧ Given a (s'.hash u).addr (bytes b (s'.hash u) u)) :
    Sound g b s' := by
  refine ⟨hown, fun k' => ?_, fun k' => ?_, fun u hu => ?_⟩
  · rw [htallocs]
    by_cases hk : k' = k
    · subst hk
      rwa [Function.update_self]
    · rw [Function.update_of_ne hk, hother k' hk]
      exact hs.tiles k'
  · rw [htallocs]
    by_cases hk : k' = k
    · subst hk
      rw [Function.update_self, hgrows.1, hs.alignment]
    · rw [Function.update_of_ne hk, hs.alignment]
  · rw [htallocs]
    rcases hgiven u hu with ⟨hold, hid, haddr⟩ | ⟨rfl, hnew⟩
    · have hbefore := hs.given u hold
      rw [haddr, show bytes b (s'.hash u) u = bytes b (s.hash u) u by rw [bytes, bytes, hid], hid]
      by_cases hk : b.talloc (s.hash u).bufferId = k
      · rw [hk, Function.update_self]
        rw [hk] at hbefore
        exact hbefore.mono hgrows
      · rwa [Function.update_of_ne hk]
    · rwa [Function.update_self]

variable [DecidableEq τ]

@[simp] theorem hash_set : (s.set t h).hash = Function.update s.hash t h := rfl

@[simp] theorem tallocs_set : (s.set t h).tallocs = s.tallocs := rfl

/-- What tensors have, where one is another. -/
theorem live_set (hnodup : g.tensors.Nodup) (ht : t ∈ g.tensors) (k c x : ℕ) :
    live g b (s.set t h) k c x + holds b (s.hash t) t k c x =
      live g b s k c x + holds b h t k c x := by
  have hother : ∀ u, u ≠ t → holds b ((s.set t h).hash u) u k c x = holds b (s.hash u) u k c x :=
    fun u hu => by simp [hu]
  have hsum := sum_map_update hnodup ht hother
  simpa [live] using hsum

/-- **Tensors that are marked do not overlap.** -/
theorem Sound.apart (hs : Sound g b s) (hnodup : g.tensors.Nodup) (ht : (s.hash t).allocated)
    (hu : (s.hash u).allocated) (hne : u ≠ t)
    (htalloc : b.talloc (s.hash u).bufferId = b.talloc (s.hash t).bufferId) :
    Apart ((s.hash t).addr, bytes b (s.hash t) t) ((s.hash u).addr, bytes b (s.hash u) u) := by
  intro hchunk x htx hux
  have hone := (hs.tiles (b.talloc (s.hash t).bufferId)).le_one (s.hash t).addr.chunk x
  have hset := live_set (b := b) (s := s) (h := { s.hash t with allocated := false }) hnodup
    (hs.own t ht).2.2 (b.talloc (s.hash t).bufferId) (s.hash t).addr.chunk x
  have hle := holds_le_live (b := b) (s := s.set t { s.hash t with allocated := false })
    (hs.own u hu).2.2 (b.talloc (s.hash t).bufferId) (s.hash t).addr.chunk x
  rw [hash_set, Function.update_of_ne hne, holds, if_pos ⟨hu, htalloc, hchunk⟩,
    Span.count_of_has hux] at hle
  rw [holds_of_not_allocated (h := { s.hash t with allocated := false }) rfl, holds,
    if_pos ⟨ht, rfl, rfl⟩, Span.count_of_has htx] at hset
  omega

variable {a : DynTallocr} {addr : Address} {bufferId : ℕ}

/-- **A tensor is given a new place.** -/
theorem Sound.new (hs : Sound g b s) (hb : b.Valid) (hnodup : g.tensors.Nodup)
    (ht : g.viewSrc t = none ∧ g.external t = false ∧ t ∈ g.tensors)
    (hnot : (s.hash t).allocated = false)
    (halloc : (s.tallocs (b.talloc bufferId)).alloc (b.allocSize bufferId t) = .ok (addr, a)) :
    Sound g b ((s.set t { s.hash t with
      bufferId := bufferId
      addr := addr
      allocated := true }).setTalloc (b.talloc bufferId) a) := by
  have halign := hs.alignment (b.talloc bufferId)
  obtain ⟨htiles, hgrows, hgiven⟩ := (hs.tiles (b.talloc bufferId)).alloc
    (halign ▸ hb.alignment_pos _) (halign ▸ hb.alignment_le _) (hb.allocSize_lt bufferId t) halloc
  rw [halign] at htiles hgiven
  have hset := live_set (b := b) (s := s) (h := { s.hash t with
    bufferId := bufferId
    addr := addr
    allocated := true }) hnodup ht.2.2
  refine hs.of_talloc hgrows rfl (fun u hu => ?_) ?_ (fun k' hk => ?_) fun u hu => ?_
  · by_cases hut : u = t
    · rw [hut]
      exact ht
    · have hsame : (s.hash u).allocated := by simpa [Plan.setTalloc, hut] using hu
      exact hs.own u hsame
  · have heq : live g b ((s.set t { s.hash t with
        bufferId := bufferId
        addr := addr
        allocated := true }).setTalloc (b.talloc bufferId) a) (b.talloc bufferId) =
        addLive (live g b s (b.talloc bufferId)) addr
          (alignedOffset (b.allocSize bufferId t) (b.alignment (b.talloc bufferId))) := by
      funext c x
      have hone := hset (b.talloc bufferId) c x
      rw [holds_of_not_allocated hnot, Nat.add_zero, ← addLive_holds rfl] at hone
      exact hone
    rwa [heq]
  · funext c x
    have hone := hset k' c x
    rw [holds_of_not_allocated hnot, holds_of_ne (Ne.symm hk)] at hone
    exact hone
  · by_cases hut : u = t
    · subst hut
      right
      simp only [Plan.setTalloc, hash_set, Function.update_self]
      exact ⟨trivial, hgiven⟩
    · left
      simpa [Plan.setTalloc, hut] using hu

/-- **The place of a tensor is taken back.** -/
theorem Sound.free (hs : Sound g b s) (hnodup : g.tensors.Nodup) (ht : (s.hash t).allocated)
    (hfree : (s.tallocs (b.talloc (s.hash t).bufferId)).freeBytes (s.hash t).addr
      (b.allocSize (s.hash t).bufferId t) = .ok a) :
    Sound g b ((s.setTalloc (b.talloc (s.hash t).bufferId) a).set t
      { s.hash t with allocated := false }) := by
  have halign := hs.alignment (b.talloc (s.hash t).bufferId)
  have hset := live_set (b := b) (s := s) (h := { s.hash t with allocated := false }) hnodup
    (hs.own t ht).2.2
  have hgiven := hs.given t ht
  have htiles := hs.tiles (b.talloc (s.hash t).bufferId)
  have heq : live g b s (b.talloc (s.hash t).bufferId) =
      addLive (live g b (s.set t { s.hash t with allocated := false })
        (b.talloc (s.hash t).bufferId)) (s.hash t).addr (bytes b (s.hash t) t) := by
    funext c x
    have hone := hset (b.talloc (s.hash t).bufferId) c x
    rw [holds_of_not_allocated (h := { s.hash t with allocated := false }) rfl,
      Nat.add_zero] at hone
    rw [addLive_holds ht, hone]
  rw [heq, bytes, ← halign] at htiles
  rw [bytes, ← halign] at hgiven
  obtain ⟨htiles, hgrows⟩ := htiles.freeBytes hgiven hfree
  refine hs.of_talloc hgrows rfl (fun u hu => ?_) htiles (fun k' hk => ?_) fun u hu => ?_
  · by_cases hut : u = t
    · subst hut
      exact hs.own u ht
    · have hsame : (s.hash u).allocated := by simpa [Plan.setTalloc, hut] using hu
      exact hs.own u hsame
  · funext c x
    have hone := hset k' c x
    rw [holds_of_not_allocated (h := { s.hash t with allocated := false }) rfl,
      holds_of_ne (Ne.symm hk)] at hone
    exact hone
  · by_cases hut : u = t
    · subst hut
      simp at hu
    · left
      simpa [Plan.setTalloc, hut] using hu

/-- A node in the place of its parent, which is not marked any more. -/
def Plan.inPlace (node parent : τ) (s : Plan τ) : Plan τ :=
  (s.set node { s.hash node with
    bufferId := (s.hash parent).bufferId
    addr := (s.hash parent).addr
    allocated := true }).set parent { s.hash parent with allocated := false }

section InPlace

variable {node parent : τ} {s' : Plan τ}

theorem hash_inPlace_parent : (s.inPlace node parent).hash parent =
    { s.hash parent with allocated := false } := Function.update_self ..

theorem hash_inPlace_node (hne : node ≠ parent) : (s.inPlace node parent).hash node =
    { s.hash node with
      bufferId := (s.hash parent).bufferId
      addr := (s.hash parent).addr
      allocated := true } := by
  rw [Plan.inPlace, hash_set, Function.update_of_ne hne, hash_set, Function.update_self]

theorem hash_inPlace_of_ne (hnode : u ≠ node) (hparent : u ≠ parent) :
    (s.inPlace node parent).hash u = s.hash u := by
  rw [Plan.inPlace, hash_set, Function.update_of_ne hparent, hash_set, Function.update_of_ne hnode]

/-- What tensors have, where a node is in the place of its parent. -/
theorem live_inPlace (hnodup : g.tensors.Nodup) (hnode : node ∈ g.tensors)
    (hparent : parent ∈ g.tensors) (hnot : (s.hash node).allocated = false) (hne : node ≠ parent)
    (k c x : ℕ) : live g b (s.inPlace node parent) k c x + holds b (s.hash parent) parent k c x =
      live g b s k c x + holds b ((s.inPlace node parent).hash node) node k c x := by
  have hfirst := live_set (b := b) (s := s) (h := { s.hash node with
    bufferId := (s.hash parent).bufferId
    addr := (s.hash parent).addr
    allocated := true }) hnodup hnode k c x
  have hsecond := live_set (b := b) (s := s.set node { s.hash node with
    bufferId := (s.hash parent).bufferId
    addr := (s.hash parent).addr
    allocated := true }) (h := { s.hash parent with allocated := false }) hnodup hparent k c x
  rw [holds_of_not_allocated hnot] at hfirst
  rw [holds_of_not_allocated (h := { s.hash parent with allocated := false }) rfl, hash_set,
    Function.update_of_ne (Ne.symm hne)] at hsecond
  rw [hash_inPlace_node hne, Plan.inPlace]
  omega

/-- One allocator is another, where a node is in the place of its parent. -/
theorem Sound.inPlace {a : DynTallocr} (hs : Sound g b s) (hnodup : g.tensors.Nodup)
    (hnode : g.viewSrc node = none ∧ g.external node = false ∧ node ∈ g.tensors)
    (hnot : (s.hash node).allocated = false) (hparent : (s.hash parent).allocated)
    (hless : bytes b ((s.inPlace node parent).hash node) node ≤ bytes b (s.hash parent) parent)
    (hhash : s'.hash = (s.inPlace node parent).hash)
    (htallocs : s'.tallocs = Function.update s.tallocs (b.talloc (s.hash parent).bufferId) a)
    (hgrows : Grows (s.tallocs (b.talloc (s.hash parent).bufferId)) a)
    (htiles : Tiles a (live g b (s.inPlace node parent) (b.talloc (s.hash parent).bufferId))) :
    Sound g b s' := by
  have hne : node ≠ parent := by
    rintro rfl
    rw [hnot] at hparent
    cases hparent
  have hlive : live g b s' = live g b (s.inPlace node parent) := by
    funext k c x
    rw [live, live, hhash]
  refine hs.of_talloc hgrows htallocs (fun u hu => ?_) (hlive ▸ htiles) (fun k hk => ?_)
    fun u hu => ?_
  · rw [hhash] at hu
    by_cases hunode : u = node
    · rw [hunode]
      exact hnode
    · by_cases huparent : u = parent
      · rw [huparent, hash_inPlace_parent] at hu
        cases hu
      · rw [hash_inPlace_of_ne hunode huparent] at hu
        exact hs.own u hu
  · funext c x
    have hone := live_inPlace (b := b) hnodup hnode.2.2 (hs.own parent hparent).2.2 hnot hne k c x
    have hzero : holds b ((s.inPlace node parent).hash node) node k c x = 0 :=
      holds_of_ne (by rw [hash_inPlace_node hne]; exact Ne.symm hk) c x
    rw [holds_of_ne (Ne.symm hk), hzero] at hone
    rw [hlive]
    exact hone
  · rw [hhash] at hu ⊢
    by_cases hunode : u = node
    · subst hunode
      right
      refine ⟨by rw [hash_inPlace_node hne], ?_⟩
      have haddr : ((s.inPlace u parent).hash u).addr = (s.hash parent).addr := by
        rw [hash_inPlace_node hne]
      rw [haddr]
      exact ((hs.given parent hparent).mono hgrows).less hless
    · left
      by_cases huparent : u = parent
      · rw [huparent, hash_inPlace_parent] at hu
        cases hu
      · rw [hash_inPlace_of_ne hunode huparent] at hu ⊢
        exact ⟨hu, rfl, rfl⟩

/-- **A node is given the place of its parent.** The rest of the place is free. -/
theorem Sound.freeExtraSpace (hs : Sound g b s) (hb : b.Valid) (hnodup : g.tensors.Nodup)
    (hnode : g.viewSrc node = none ∧ g.external node = false ∧ node ∈ g.tensors)
    (hnot : (s.hash node).allocated = false) (hparent : (s.hash parent).allocated)
    (hextra : freeExtraSpace b node parent (s.inPlace node parent) = .ok s') :
    Sound g b s' ∧ s'.hash = (s.inPlace node parent).hash := by
  have hne : node ≠ parent := by
    rintro rfl
    rw [hnot] at hparent
    cases hparent
  have halign := hs.alignment (b.talloc (s.hash parent).bufferId)
  have hlive := live_inPlace (b := b) hnodup hnode.2.2 (hs.own parent hparent).2.2 hnot hne
    (b.talloc (s.hash parent).bufferId)
  have hbytes : bytes b ((s.inPlace node parent).hash node) node = alignedOffset
      (b.allocSize (s.hash parent).bufferId node)
      (b.alignment (b.talloc (s.hash parent).bufferId)) := by
    rw [hash_inPlace_node hne, bytes]
  have hparentBytes : bytes b (s.hash parent) parent = alignedOffset
      (b.allocSize (s.hash parent).bufferId parent)
      (b.alignment (b.talloc (s.hash parent).bufferId)) := rfl
  have htallocs : (s.inPlace node parent).tallocs = s.tallocs := rfl
  have hholdsNode (c x : ℕ) : holds b ((s.inPlace node parent).hash node) node
      (b.talloc (s.hash parent).bufferId) c x = if c = (s.hash parent).addr.chunk then
        (Span.mk (s.hash parent).addr.offset
          (bytes b ((s.inPlace node parent).hash node) node)).count x else 0 := by
    rw [hash_inPlace_node hne]
    exact holds_eq (h := { s.hash node with
      bufferId := (s.hash parent).bufferId
      addr := (s.hash parent).addr
      allocated := true }) rfl c x
  rw [Galloc.freeExtraSpace, hash_inPlace_parent, hash_inPlace_node hne, htallocs] at hextra
  simp only [halign] at hextra
  split_ifs at hextra with hsmall hextraBytes
  · -- the back of the place is free
    obtain ⟨hdvd, -, -⟩ := alignedOffset_spec (hb.alignment_pos (b.talloc (s.hash parent).bufferId))
      (hb.alignment_le _) (hb.allocSize_lt (s.hash parent).bufferId node)
    obtain ⟨hdvd', -, hlt'⟩ := alignedOffset_spec
      (hb.alignment_pos (b.talloc (s.hash parent).bufferId)) (hb.alignment_le _)
      (hb.allocSize_lt (s.hash parent).bufferId parent)
    rw [← hbytes, ← hparentBytes] at hextra hextraBytes
    rw [← hbytes] at hdvd
    rw [← hparentBytes] at hdvd' hlt'
    have hfreed := alignedOffset_of_dvd (Nat.dvd_sub hdvd' hdvd) (by omega)
    have hsplit : live g b s (b.talloc (s.hash parent).bufferId) =
        addLive (live g b (s.inPlace node parent) (b.talloc (s.hash parent).bufferId))
          ⟨(s.hash parent).addr.chunk,
            (s.hash parent).addr.offset + bytes b ((s.inPlace node parent).hash node) node⟩
          (bytes b (s.hash parent) parent - bytes b ((s.inPlace node parent).hash node) node) := by
      funext c x
      have hone := hlive c x
      have hparts := Span.count_split (s.hash parent).addr.offset
        (bytes b ((s.inPlace node parent).hash node) node)
        (bytes b (s.hash parent) parent - bytes b ((s.inPlace node parent).hash node) node) x
      rw [Nat.add_sub_cancel' hextraBytes.le] at hparts
      rw [hholdsNode, holds_eq hparent] at hone
      simp only [addLive]
      split_ifs at hone ⊢ <;> omega
    rw [Plan.freeBytes] at hextra
    cases hfree : ((s.inPlace node parent).tallocs (b.talloc (s.hash parent).bufferId)).freeBytes
        ⟨(s.hash parent).addr.chunk,
          (s.hash parent).addr.offset + bytes b ((s.inPlace node parent).hash node) node⟩
        (bytes b (s.hash parent) parent - bytes b ((s.inPlace node parent).hash node) node) with
    | error e =>
      rw [hfree] at hextra
      cases hextra
    | ok a =>
      rw [hfree] at hextra
      cases hextra
      have htiles := hs.tiles (b.talloc (s.hash parent).bufferId)
      rw [hsplit] at htiles
      rw [← hfreed, ← halign] at htiles
      have hback := (hs.given parent hparent).back hextraBytes.le (halign ▸ hdvd)
      rw [← hfreed, ← halign] at hback
      obtain ⟨htiles, hgrows⟩ := htiles.freeBytes hback hfree
      exact ⟨hs.inPlace hnodup hnode hnot hparent hextraBytes.le rfl rfl hgrows htiles, rfl⟩
  · cases hextra
    have hle := alignedOffset_mono (hb.alignment_pos (b.talloc (s.hash parent).bufferId))
      (hb.alignment_le _) (hb.allocSize_lt (s.hash parent).bufferId parent) (not_lt.mp hsmall)
    have heq : bytes b ((s.inPlace node parent).hash node) node =
        bytes b (s.hash parent) parent := by
      rw [hbytes, hparentBytes]
      omega
    have hsame : live g b (s.inPlace node parent) (b.talloc (s.hash parent).bufferId) =
        live g b s (b.talloc (s.hash parent).bufferId) := by
      funext c x
      have hone := hlive c x
      rw [hholdsNode, holds_eq hparent, heq] at hone
      omega
    refine ⟨hs.inPlace hnodup hnode hnot hparent heq.le rfl (Function.update_eq_self _ _).symm
      (Grows.refl _) ?_, rfl⟩
    rw [hsame]
    exact hs.tiles _

end InPlace

/-! ### What the steps keep -/

/-- A tensor that is given a place. -/
def Fresh (g : Graph τ) (s : Plan τ) (t : τ) : Prop :=
  g.viewSrc t = none ∧ g.external t = false ∧ (s.hash t).allocated = false

/-- What `allocateNode` does to the hash table. -/
inductive Allocates (g : Graph τ) (t : τ) (s s' : Plan τ) : Prop where
  | same (hdone : ¬ Fresh g s t) (heq : s' = s)
  | new (bufferId : ℕ) (addr : Address) (hfresh : Fresh g s t)
      (hhash : s'.hash = Function.update s.hash t { s.hash t with
        bufferId := bufferId
        addr := addr
        allocated := true })
  | reuse (parent : τ) (hfresh : Fresh g s t) (hinplace : g.canInplace t)
      (hsrc : parent ∈ g.src t) (hallocated : (s.hash parent).allocated)
      (houtput : g.output parent = false) (hone : (s.hash parent).nChildren = 1)
      (hviews : (s.hash parent).nViews = 0) (hhash : s'.hash = (s.inPlace t parent).hash)

section Steps

variable {s' : Plan τ}

theorem set_set (h' : HashNode) : (s.set t h).set t h' = s.set t h' := by
  rw [Plan.set, Plan.set, Plan.set, Function.update_idem]

omit [DecidableEq τ] in
/-- A parent whose place can be that of the node. -/
theorem of_reusable {node parent : τ} (h : reusable g node s parent = true) :
    (s.hash parent).allocated ∧ g.output parent = false ∧ (s.hash parent).nChildren = 1 ∧
      (s.hash parent).nViews = 0 := by
  simp only [reusable, Bool.and_eq_true, Bool.not_eq_true', Bool.or_eq_false_iff,
    decide_eq_true_eq] at h
  obtain ⟨⟨⟨⟨⟨halloc, houtput, -⟩, -⟩, hone⟩, hviews⟩, -⟩ := h
  exact ⟨halloc, houtput, hone, hviews⟩

/-- **`allocateNode`** gives a tensor a place of its own, or that of a parent. -/
theorem Sound.allocateNode (hs : Sound g b s) (hb : b.Valid) (hnodup : g.tensors.Nodup)
    (ht : t ∈ g.tensors) (hself : g.canInplace t → t ∉ g.src t) {bufferId : ℕ}
    (h : allocateNode g b bufferId t s = .ok s') : Sound g b s' ∧ Allocates g t s s' := by
  rw [Galloc.allocateNode] at h
  split_ifs at h with hdone
  · cases h
    refine ⟨hs, .same ?_ rfl⟩
    rintro ⟨hview, hext, halloc⟩
    simp [hview, hext, halloc] at hdone
  rw [not_or, not_or, Bool.not_eq_true, Bool.not_eq_true, Bool.not_eq_true,
    Option.isSome_eq_false_iff, Option.isNone_iff_eq_none] at hdone
  obtain ⟨hext, hnot, hview⟩ := hdone
  have hfresh : Fresh g s t := ⟨hview, hext, hnot⟩
  rw [givePlace] at h
  cases hfind : findParent g t (s.set t { s.hash t with allocated := true }) with
  | none =>
    simp only [hfind, allocateNew, tallocs_set] at h
    cases halloc : (s.tallocs (b.talloc bufferId)).alloc (b.allocSize bufferId t) with
    | error e =>
      rw [halloc] at h
      cases h
    | ok r =>
      rw [halloc] at h
      cases h
      simp only [set_set, hash_set, Function.update_self]
      exact ⟨hs.new hb hnodup ⟨hview, hext, ht⟩ hnot halloc, .new bufferId r.1 hfresh rfl⟩
  | some parent =>
    simp only [hfind] at h
    rw [findParent] at hfind
    split_ifs at hfind with hinplace
    have hsrc := List.mem_of_find?_eq_some hfind
    have hne : parent ≠ t := fun heq => hself hinplace (heq ▸ hsrc)
    obtain ⟨hallocated, houtput, hone, hviews⟩ := of_reusable (List.find?_some hfind)
    rw [hash_set, Function.update_of_ne hne] at hallocated hone hviews
    simp only [reuse, (hs.own parent hallocated).1, set_set, hash_set, Function.update_self,
      Function.update_of_ne hne] at h
    obtain ⟨hsound, hhash⟩ := hs.freeExtraSpace hb hnodup ⟨hview, hext, ht⟩ hnot hallocated h
    exact ⟨hsound, .reuse parent hfresh hinplace hsrc hallocated houtput hone hviews hhash⟩

omit [DecidableEq τ] in
/-- Counts that change leave the places. -/
theorem Sound.of_places (hs : Sound g b s) (htallocs : s'.tallocs = s.tallocs)
    (hplaces : ∀ u, (s'.hash u).allocated = (s.hash u).allocated ∧
      (s'.hash u).bufferId = (s.hash u).bufferId ∧ (s'.hash u).addr = (s.hash u).addr) :
    Sound g b s' := by
  have hbytes (u : τ) : bytes b (s'.hash u) u = bytes b (s.hash u) u := by
    rw [bytes, bytes, (hplaces u).2.1]
  have hlive : live g b s' = live g b s := by
    funext k c x
    refine congrArg List.sum (List.map_congr_left fun u _ => ?_)
    obtain ⟨halloc, hid, haddr⟩ := hplaces u
    rw [holds, holds, halloc, hid, haddr, hbytes]
  refine ⟨fun u hu => ?_, fun k => ?_, fun k => ?_, fun u hu => ?_⟩
  · rw [(hplaces u).1] at hu
    exact hs.own u hu
  · rw [htallocs, hlive]
    exact hs.tiles k
  · rw [htallocs]
    exact hs.alignment k
  · obtain ⟨halloc, hid, haddr⟩ := hplaces u
    rw [halloc] at hu
    rw [htallocs, hbytes, hid, haddr]
    exact hs.given u hu

theorem hash_addChildren (n : ℤ) (t u : τ) (s : Plan τ) : (addChildren n t s).hash u =
    { s.hash u with nChildren := (s.hash u).nChildren + if u = t then n else 0 } := by
  rw [addChildren, hash_set]
  by_cases hu : u = t
  · subst hu
    rw [Function.update_self, if_pos rfl]
  · rw [Function.update_of_ne hu, if_neg hu, add_zero]

theorem hash_addViews (n : ℤ) (t u : τ) (s : Plan τ) : (addViews n t s).hash u =
    { s.hash u with nViews := (s.hash u).nViews + if u = t then n else 0 } := by
  rw [addViews, hash_set]
  by_cases hu : u = t
  · subst hu
    rw [Function.update_self, if_pos rfl]
  · rw [Function.update_of_ne hu, if_neg hu, add_zero]

theorem Sound.addChildren (hs : Sound g b s) (n : ℤ) (t : τ) :
    Sound g b (Galloc.addChildren n t s) :=
  hs.of_places rfl fun u => by simp [hash_addChildren]

theorem Sound.addViews (hs : Sound g b s) (n : ℤ) (t : τ) : Sound g b (Galloc.addViews n t s) :=
  hs.of_places rfl fun u => by simp [hash_addViews]

/-- What `freeNode` does to the hash table. -/
theorem Sound.freeNode (hs : Sound g b s) (hnodup : g.tensors.Nodup) (ht : (s.hash t).allocated)
    (h : freeNode g b t s = .ok s') : Sound g b s' ∧
      (s'.hash = s.hash ∨ g.output t = false ∧
        s'.hash = Function.update s.hash t { s.hash t with allocated := false }) := by
  rw [Galloc.freeNode] at h
  split_ifs at h with houtput
  · cases h
    exact ⟨hs, .inl rfl⟩
  simp only [Plan.freeBytes] at h
  cases hfree : (s.tallocs (b.talloc (s.hash t).bufferId)).freeBytes (s.hash t).addr
      (b.allocSize (s.hash t).bufferId t) with
  | error e =>
    rw [hfree] at h
    cases h
  | ok a =>
    rw [hfree] at h
    cases h
    exact ⟨hs.free hnodup ht hfree, .inr ⟨Bool.not_eq_true _ ▸ houtput, rfl⟩⟩

/-- What `updateParent` does to the hash table. -/
structure Updates (g : Graph τ) (p : τ) (s s' : Plan τ) : Prop where
  children : ∀ t, (s'.hash t).nChildren = (s.hash t).nChildren - if t = p then 1 else 0
  views : ∀ t, (s'.hash t).nViews = (s.hash t).nViews -
    if (s.hash p).nChildren = 1 ∧ (s.hash p).nViews = 0 ∧ g.viewSrc p = some t then 1 else 0
  place : ∀ t, (s'.hash t).bufferId = (s.hash t).bufferId ∧ (s'.hash t).addr = (s.hash t).addr
  allocated : ∀ t, (s'.hash t).allocated = (s.hash t).allocated ∨
    (s'.hash t).allocated = false ∧ g.output t = false ∧ (s'.hash t).nChildren = 0 ∧
      (s'.hash t).nViews = 0 ∧ (t = p ∨ g.viewSrc p = some t)

/-- What is counted, and a place that is taken back. -/
theorem updates_of_counted {p : τ} {s₁ : Plan τ}
    (hchildren : ∀ t, (s₁.hash t).nChildren = (s.hash t).nChildren - if t = p then 1 else 0)
    (hviews : ∀ t, (s₁.hash t).nViews = (s.hash t).nViews - if (s.hash p).nChildren = 1 ∧
      (s.hash p).nViews = 0 ∧ g.viewSrc p = some t then 1 else 0)
    (hplaces : ∀ t, (s₁.hash t).allocated = (s.hash t).allocated ∧
      (s₁.hash t).bufferId = (s.hash t).bufferId ∧ (s₁.hash t).addr = (s.hash t).addr)
    (h : s'.hash = s₁.hash ∨ ∃ t, g.output t = false ∧ (s₁.hash t).nChildren = 0 ∧
      (s₁.hash t).nViews = 0 ∧ (t = p ∨ g.viewSrc p = some t) ∧
        s'.hash = Function.update s₁.hash t { s₁.hash t with allocated := false }) :
    Updates g p s s' := by
  rcases h with heq | ⟨t, houtput, hzero, hzeroViews, hparent, heq⟩
  · refine ⟨fun u => ?_, fun u => ?_, fun u => ?_, fun u => ?_⟩
    · rw [heq, hchildren]
    · rw [heq, hviews]
    · rw [heq]
      exact (hplaces u).2
    · rw [heq]
      exact .inl (hplaces u).1
  · have hother (u : τ) (hu : u ≠ t) : s'.hash u = s₁.hash u := by
      rw [heq, Function.update_of_ne hu]
    have hself : s'.hash t = { s₁.hash t with allocated := false } := by
      rw [heq, Function.update_self]
    refine ⟨fun u => ?_, fun u => ?_, fun u => ?_, fun u => ?_⟩ <;> by_cases hu : u = t
    · subst hu
      rw [hself, ← hchildren]
    · rw [hother u hu, hchildren]
    · subst hu
      rw [hself, ← hviews]
    · rw [hother u hu, hviews]
    · subst hu
      rw [hself]
      exact (hplaces u).2
    · rw [hother u hu]
      exact (hplaces u).2
    · subst hu
      rw [hself]
      exact .inr ⟨rfl, houtput, hzero, hzeroViews, hparent⟩
    · rw [hother u hu]
      exact .inl (hplaces u).1

/-- **`updateParent`** counts, and takes back what is not counted any more. -/
theorem Sound.updateParent {p : τ} (hs : Sound g b s) (hnodup : g.tensors.Nodup)
    (h : updateParent g b s p = .ok s') : Sound g b s' ∧ Updates g p s s' := by
  have hs₁ := hs.addChildren (-1) p
  have hhash := fun u => hash_addChildren (-1) p u s
  have hchildren : ∀ t, ((Galloc.addChildren (-1) p s).hash t).nChildren =
      (s.hash t).nChildren - if t = p then 1 else 0 := by
    intro t
    rw [hhash]
    show (s.hash t).nChildren + _ = _
    split_ifs <;> omega
  have hplaces : ∀ t, ((Galloc.addChildren (-1) p s).hash t).allocated = (s.hash t).allocated ∧
      ((Galloc.addChildren (-1) p s).hash t).bufferId = (s.hash t).bufferId ∧
        ((Galloc.addChildren (-1) p s).hash t).addr = (s.hash t).addr := by
    intro t
    rw [hhash]
    exact ⟨rfl, rfl, rfl⟩
  have hviews : ∀ t, ((Galloc.addChildren (-1) p s).hash t).nViews = (s.hash t).nViews := by
    intro t
    rw [hhash]
  have hone := hchildren p
  rw [if_pos rfl] at hone
  rw [Galloc.updateParent] at h
  simp only at h
  generalize Galloc.addChildren (-1) p s = s₁ at h hs₁ hchildren hplaces hviews hone
  by_cases hcount : (s₁.hash p).nChildren = 0 ∧ (s₁.hash p).nViews = 0
  · rw [if_pos hcount] at h
    have hlast : (s.hash p).nChildren = 1 ∧ (s.hash p).nViews = 0 := by
      rw [hviews] at hcount
      omega
    cases hview : g.viewSrc p with
    | none =>
      simp only [hview] at h
      have hcounted : _ → Updates g p s s' := updates_of_counted hchildren
        (fun t => by rw [hviews, if_neg (by simp [hview]), sub_zero]) hplaces
      split_ifs at h with halloc
      · obtain ⟨hsound, heq⟩ := hs₁.freeNode hnodup halloc h
        refine ⟨hsound, hcounted (heq.imp_right fun ⟨houtput, heq⟩ => ?_)⟩
        exact ⟨p, houtput, hcount.1, hcount.2, .inl rfl, heq⟩
      · cases h
        exact ⟨hs₁, hcounted (.inl rfl)⟩
    | some r =>
      simp only [hview] at h
      have hs₂ := hs₁.addViews (-1) r
      have hhash₂ := fun u => hash_addViews (-1) r u s₁
      generalize Galloc.addViews (-1) r s₁ = s₂ at h hs₂ hhash₂
      have hcounted : _ → Updates g p s s' := updates_of_counted (fun t => by rw [hhash₂, ← hchildren])
        (fun t => by
          rw [hhash₂]
          show (s₁.hash t).nViews + _ = _
          rw [hviews, hview]
          by_cases ht : t = r
          · subst ht
            rw [if_pos rfl, if_pos ⟨hlast.1, hlast.2, rfl⟩]
            rfl
          · rw [if_neg ht, if_neg (by simp [Ne.symm ht]), sub_zero, add_zero])
        (fun t => by rw [hhash₂]; exact hplaces t)
      split_ifs at h with hfree
      · obtain ⟨hsound, heq⟩ := hs₂.freeNode hnodup hfree.2.2 h
        refine ⟨hsound, hcounted (heq.imp_right fun ⟨houtput, heq⟩ => ?_)⟩
        exact ⟨r, houtput, hfree.2.1, hfree.1, .inr hview, heq⟩
      · cases h
        exact ⟨hs₂, hcounted (.inl rfl)⟩
  · rw [if_neg hcount] at h
    cases h
    refine ⟨hs₁, updates_of_counted hchildren (fun t => ?_) hplaces (.inl rfl)⟩
    have hlast : ¬ ((s.hash p).nChildren = 1 ∧ (s.hash p).nViews = 0) := by
      rintro ⟨h1, h2⟩
      exact hcount ⟨by omega, by rw [hviews, h2]⟩
    rw [hviews, if_neg fun ⟨h1, h2, _⟩ => hlast ⟨h1, h2⟩, sub_zero]

end Steps

end Memory

end Galloc

end WhisperCpp
