import WhisperCpp.Loader.Vad

/-!
# What every tensor receives

The loop counts the records that it has read. It does not look at which tensors they named before, or
whether their data was complete: a tensor may be named twice in place of another one, and the data of
the last record may end early.

## Main definitions

* `ReceivedOnce` — every registered tensor got its bytes from one record
* `Fresh` — the next record names another tensor, with all its data

## Main results

* `receivedOnce_iff` — when a model that is not rejected has received all its tensors
* `receivedOnce_of_load` — the same of the models of whisper and of the VAD
-/

namespace WhisperCpp

namespace Loader

open Reading (run)

variable {σ : Type} {L : ModelLoader σ} {reg : Registry} {s s' : LoadState σ}

/-- Every registered tensor got exactly its bytes, from exactly one record. -/
def ReceivedOnce (reg : Registry) (loaded : List (List UInt8 × List UInt8)) : Prop :=
  ∀ name t, reg.lookup name = some t → (loaded.map Prod.fst).count name.1 = 1 ∧
    ∀ data, (name.1, data) ∈ loaded → data.length = (Ggml.nbytes t).toNat

/-- The record that starts at a state, if there is one, names no tensor that was named before, and the
stream does not end inside its data. -/
def Fresh (L : ModelLoader σ) (reg : Registry) (s : LoadState σ) : Prop :=
  L.eof (afterHeader L s.stream) = false →
    ∀ shape st, run L.read (readShape (header L s.stream)) (afterHeader L s.stream) =
      (.ok shape, st) → shape.name ∉ s.loaded.map Prod.fst ∧
        ∀ t, reg.find shape.name = some t → (Ggml.nbytes t).toNat ≤ (L.rest st).length

theorem find_eq_some_iff {name : List UInt8} {t : Ggml.Tensor} :
    reg.find name = some t ↔ ∃ h : 0 ∉ name, reg.lookup ⟨name, h⟩ = some t := by
  rw [Registry.find]
  by_cases h : 0 ∉ name
  · rw [dif_pos h]
    exact ⟨fun ht => ⟨h, ht⟩, fun ⟨_, ht⟩ => ht⟩
  · rw [dif_neg h]
    exact ⟨nofun, fun ⟨h', _⟩ => absurd h' h⟩

/-- A record that passes the checks names a tensor. -/
theorem find_of_checkShape {h : Header} {shape : Shape} {t : Ggml.Tensor}
    (hok : checkShape reg h shape = .ok t) : reg.find shape.name = some t := by
  rw [checkShape] at hok
  split at hok
  · cases hok
  · rename_i u hu
    split_ifs at hok
    cases hok
    exact hu

/-- A round adds one record. -/
theorem Round.loaded_eq (h : Round L reg s s') :
    ∃ shape st t, run L.read (readShape (header L s.stream)) (afterHeader L s.stream) =
        (.ok shape, st) ∧ reg.find shape.name = some t ∧
      s'.loaded = s.loaded ++ [(shape.name, (L.rest st).take (Ggml.nbytes t).toNat)] := by
  obtain ⟨-, shape, st, t, hrun, ht, rfl⟩ := round_iff.1 h
  exact ⟨shape, st, t, hrun, find_of_checkShape ht, by rw [L.read_fst]⟩

theorem prefix_of_reflTransGen (h : Relation.ReflTransGen (Round L reg) s s') :
    s.loaded <+: s'.loaded := by
  induction h with
  | refl => exact List.prefix_rfl
  | tail _ hround ih =>
    obtain ⟨_, _, _, -, -, heq⟩ := hround.loaded_eq
    rw [heq]
    exact ih.trans (List.prefix_append _ _)

/-- Only registered tensors are named. -/
theorem Visited.names_subset {st : σ} (h : Visited L reg st s) :
    s.loaded.map Prod.fst ⊆ reg.keys.map Subtype.val := by
  induction h with
  | refl => exact List.nil_subset _
  | tail _ hround ih =>
    obtain ⟨shape, st, t, -, hfind, heq⟩ := hround.loaded_eq
    obtain ⟨h0, hlookup⟩ := find_eq_some_iff.1 hfind
    have hmem : (⟨shape.name, h0⟩ : Name) ∈ reg.keys := by
      rw [← AList.mem_keys, ← AList.lookup_isSome, hlookup]
      rfl
    rw [heq, List.map_append, List.map_singleton]
    exact List.append_subset.2 ⟨ih, List.cons_subset.2 ⟨List.mem_map_of_mem hmem,
      List.nil_subset _⟩⟩

/-- What fresh records load. -/
structure Exact (reg : Registry) (s : LoadState σ) : Prop where
  nodup : (s.loaded.map Prod.fst).Nodup
  length_eq : ∀ e ∈ s.loaded, ∀ t, reg.find e.1 = some t → e.2.length = (Ggml.nbytes t).toNat

/-- A fresh record names another tensor, and all its bytes are there. -/
theorem Exact.round (hs : Exact reg s) (hround : Round L reg s s') (hfresh : Fresh L reg s) :
    Exact reg s' := by
  obtain ⟨shape, st, t, hrun, hfind, heq⟩ := hround.loaded_eq
  obtain ⟨hnew, hdata⟩ := hfresh (round_iff.1 hround).1 shape st hrun
  refine ⟨?_, fun e he u hu => ?_⟩
  · rw [heq, List.map_append, List.map_singleton]
    exact List.nodup_append'.2 ⟨hs.nodup, List.nodup_singleton _,
      List.disjoint_singleton.2 hnew⟩
  · rw [heq, List.mem_append, List.mem_singleton] at he
    rcases he with he | rfl
    · exact hs.length_eq e he u hu
    · rw [hfind, Option.some.injEq] at hu
      rw [← hu, List.length_take, min_eq_left (hdata t hfind)]

theorem Visited.exact {st : σ} (h : Visited L reg st s)
    (hfresh : ∀ s, Visited L reg st s → Fresh L reg s) : Exact reg s := by
  induction h with
  | refl => exact ⟨List.nodup_nil, nofun⟩
  | tail hs hround ih => exact ih.round hround (hfresh _ hs)

/-- As many records with different names as there are tensors name all of them. -/
theorem Exact.receivedOnce {st : σ} (h : Exact reg s) (hs : Visited L reg st s)
    (hlen : s.loaded.length = reg.keys.length) : ReceivedOnce reg s.loaded := by
  have hperm : (s.loaded.map Prod.fst).Perm (reg.keys.map Subtype.val) :=
    (List.subperm_of_subset h.nodup hs.names_subset).perm_of_length_le (by simp [hlen])
  intro name t hlookup
  have hmem : name.1 ∈ s.loaded.map Prod.fst :=
    hperm.mem_iff.2 (List.mem_map_of_mem (AList.mem_keys.1 (AList.lookup_isSome.1
      (by rw [hlookup]; rfl))))
  exact ⟨List.count_eq_one_of_mem h.nodup hmem, fun data hdata =>
    h.length_eq _ hdata t (find_eq_some_iff.2 ⟨name.2, hlookup⟩)⟩

/-- A record of a model in which every tensor received its bytes once is fresh. -/
theorem fresh_of_receivedOnce {loaded : List (List UInt8 × List UInt8)}
    (honce : ReceivedOnce reg loaded) (hround : Round L reg s s') (hpre : s'.loaded <+: loaded) :
    Fresh L reg s := by
  obtain ⟨shape, st, t, hrun, hfind, heq⟩ := hround.loaded_eq
  obtain ⟨h0, hlookup⟩ := find_eq_some_iff.1 hfind
  obtain ⟨hcount, hlen⟩ := honce _ t hlookup
  rw [heq] at hpre
  intro _ shape' st' hrun'
  rw [hrun, Prod.mk.injEq, Except.ok.injEq] at hrun'
  obtain ⟨rfl, rfl⟩ := hrun'
  refine ⟨fun hmem => ?_, fun u hu => ?_⟩
  · have htwice : 1 + 1 ≤ (loaded.map Prod.fst).count shape.name := by
      refine le_trans ?_ ((hpre.map Prod.fst).sublist.count_le shape.name)
      rw [List.map_append, List.map_singleton, List.count_append, List.count_singleton_self]
      exact Nat.add_le_add_right (List.count_pos_iff.2 hmem) 1
    simp only at hcount
    omega
  · have hdata := hlen ((L.rest st).take (Ggml.nbytes t).toNat)
      (hpre.subset (List.mem_append_right _ (List.mem_singleton_self _)))
    rw [hfind, Option.some.injEq] at hu
    rw [List.length_take] at hdata
    rw [← hu]
    omega

/-- A load that is not rejected, and not empty, has received exactly the bytes of every registered
tensor, from exactly one record, if and only if no record names a tensor again and the data of none is
cut short. -/
theorem receivedOnce_iff {st : σ} {loaded : List (List UInt8 × List UInt8)}
    (h : loadTensors L reg st = .ok loaded) (hne : loaded ≠ []) :
    ReceivedOnce reg loaded ↔ ∀ s, Visited L reg st s → Fresh L reg s := by
  obtain ⟨last, hlast, ⟨e, -, he⟩ | ⟨hbreak, heq⟩⟩ := loadTensors_cases L reg st
  · rw [he] at h
    cases h
  rw [heq] at h
  split_ifs at h with hcount
  obtain rfl : last.loaded = loaded := Except.ok.inj h
  constructor
  · intro honce s hs heof
    -- the loop comes from `s` to its last state
    have hto : Relation.ReflTransGen (Round L reg) s last := by
      have hunique : Relator.RightUnique (Round L reg) := fun s a b ha hb => by
        rw [Round] at ha hb
        rw [ha] at hb
        exact Option.some.inj (Except.ok.inj hb)
      rcases Relation.ReflTransGen.total_of_right_unique hunique hs hlast with hto | hfrom
      · exact hto
      · rcases hfrom.cases_head with rfl | ⟨next, hround, -⟩
        · exact .refl
        · rw [Round, hbreak] at hround
          cases hround
    rcases hto.cases_head with rfl | ⟨next, hround, hto⟩
    · intro shape st hrun
      rw [loadRecord_of_shape reg heof hrun] at hbreak
      cases hcheck : checkShape reg (header L s.stream) shape <;> rw [hcheck] at hbreak <;>
        cases hbreak
    · exact fresh_of_receivedOnce honce hround (prefix_of_reflTransGen hto) heof
  · intro hfresh
    refine (hlast.exact hfresh).receivedOnce hlast ?_
    by_contra hlen
    exact hcount ⟨hne, hlen⟩

theorem whisperModelLoad_eq_ok {env : Env} {st : σ} {model : Model}
    (h : whisperModelLoad L env st = .ok model) :
    loadTensors L model.tensors (run L.read (readModel env) st).2 = .ok model.loaded := by
  rw [whisperModelLoad] at h
  rcases hrun : run L.read (readModel env) st with ⟨res, st'⟩
  rw [hrun] at h
  cases res with
  | error e => cases h
  | ok header =>
    simp only at h ⊢
    cases hload : loadTensors L header.tensors st' with
    | error e =>
      rw [hload] at h
      cases h
    | ok loaded =>
      rw [hload, Except.map, Except.ok.injEq] at h
      rw [← h]
      exact hload

theorem vadInit_eq_ok {env : VadEnv} {st : σ} {model : VadModel}
    (h : vadInit L env st = .ok model) :
    loadTensors L model.tensors (run L.read (readVad env) st).2 = .ok model.loaded := by
  rw [vadInit] at h
  rcases hrun : run L.read (readVad env) st with ⟨res, st'⟩
  rw [hrun] at h
  cases res with
  | error e => cases h
  | ok header =>
    simp only at h ⊢
    cases hbackends : env.backends header.tensors with
    | error f =>
      rw [hbackends] at h
      cases h
    | ok u =>
      rw [hbackends] at h
      simp only at h
      cases hload : loadTensors L header.tensors st' with
      | error e =>
        rw [hload] at h
        cases h
      | ok loaded =>
        rw [hload] at h
        simp only at h
        split_ifs at h
        rw [Except.ok.injEq] at h
        rw [← h]
        exact hload

/-- **What every tensor receives.** A model of whisper or of the VAD that is not rejected, and not empty,
has received exactly the bytes of every registered tensor, from exactly one record, if and only if no
record names a tensor again and the data of none is cut short. -/
theorem receivedOnce_of_load (L : ModelLoader σ) (st : σ) :
    (∀ (env : Env) (model : Model), whisperModelLoad L env st = .ok model → model.loaded ≠ [] →
      (ReceivedOnce model.tensors model.loaded ↔
        ∀ s, Visited L model.tensors (run L.read (readModel env) st).2 s → Fresh L model.tensors s)) ∧
    (∀ (env : VadEnv) (model : VadModel), vadInit L env st = .ok model → model.loaded ≠ [] →
      (ReceivedOnce model.tensors model.loaded ↔
        ∀ s, Visited L model.tensors (run L.read (readVad env) st).2 s →
          Fresh L model.tensors s)) :=
  ⟨fun _ _ h hne => receivedOnce_iff (whisperModelLoad_eq_ok h) hne,
    fun _ _ h hne => receivedOnce_iff (vadInit_eq_ok h) hne⟩

/-! ### A tensor that is loaded eleven times -/

/-- The small model with eleven records of one tensor. -/
def repeated : List UInt8 :=
  smallHeader ++ (List.replicate 11 (record [1] "decoder.ln.bias" [0, 0, 0, 0])).flatten

theorem initFromFile_repeated :
    ((initFromFile emptyEnv repeated).map fun model =>
      (model.loaded.map Prod.fst,
        (model.tensors.lookup (cString "decoder.ln.weight")).isSome)).toOption =
      some (List.replicate 11 (cString "decoder.ln.bias").1, true) := by
  decide +kernel

/-- It is not rejected, and another tensor received nothing. -/
theorem exists_repeated : ∃ model, initFromFile emptyEnv repeated = .ok model ∧
    model.loaded.map Prod.fst = List.replicate 11 (cString "decoder.ln.bias").1 ∧
      ∃ t, model.tensors.lookup (cString "decoder.ln.weight") = some t := by
  have hsummary := initFromFile_repeated
  cases hinit : initFromFile emptyEnv repeated with
  | error e =>
    rw [hinit] at hsummary
    cases hsummary
  | ok model =>
    rw [hinit, Except.map, Except.toOption, Option.some.injEq, Prod.mk.injEq] at hsummary
    exact ⟨model, rfl, hsummary.1, Option.isSome_iff_exists.1 hsummary.2⟩

theorem receivedOnce_of_load_repeated : ∃ model, initFromFile emptyEnv repeated = .ok model ∧
    (ReceivedOnce model.tensors model.loaded ↔
      ∀ s, Visited fileLoader model.tensors
        (run FileStream.read (readModel emptyEnv) (openFile repeated)).2 s →
          Fresh fileLoader model.tensors s) := by
  obtain ⟨model, hinit, hnames, -⟩ := exists_repeated
  refine ⟨model, hinit, (receivedOnce_of_load fileLoader (openFile repeated)).1 emptyEnv model hinit ?_⟩
  intro hnil
  rw [hnil] at hnames
  cases hnames

/-- **Counting records does not tell which tensors they were for.** -/
theorem not_forall_receivedOnce :
    ¬ ∀ (env : Env) (bytes : List UInt8) (model : Model), initFromFile env bytes = .ok model →
      model.loaded ≠ [] → ReceivedOnce model.tensors model.loaded := by
  intro hall
  obtain ⟨model, hinit, hnames, t, ht⟩ := exists_repeated
  have hne : model.loaded ≠ [] := by
    intro hnil
    rw [hnil] at hnames
    cases hnames
  have hcount := (hall emptyEnv repeated model hinit hne _ t ht).1
  rw [hnames] at hcount
  exact absurd hcount (by decide +kernel)

end Loader

end WhisperCpp
