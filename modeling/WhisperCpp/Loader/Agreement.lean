import WhisperCpp.Loader.Bounds

/-!
# Files and buffers

The loaders of a file and of a buffer deliver the same bytes. They differ in when the end is reached:
the loop over the weights asks for it behind the first twelve bytes of a record, and where these are the
last bytes, the buffer has reached its end and the file has not.

## Main definitions

* `Same` — the same bytes are left, and the same records were loaded
* `Dangling` — the stream ends behind the first numbers of a record, where that makes a difference

## Main results

* `round_same` — both loaders load the same record
* `init_eq_iff` — when a model is loaded alike from a file and from a buffer
-/

namespace WhisperCpp

namespace Loader

open Reading (run fromList)

/-- The same bytes are left in a file and a buffer, and the same records were loaded from them. -/
structure Same (s : LoadState FileStream) (t : LoadState BufContext) : Prop where
  rest_eq : s.stream.rest = t.stream.rest
  loaded_eq : s.loaded = t.loaded

/-- The stream ends behind the first numbers of a record. This makes no difference if the model is
rejected for the number of its records, and is rejected as well where the record is read on. -/
def Dangling {σ : Type} (L : ModelLoader σ) (reg : Registry) (s : LoadState σ) : Prop :=
  (L.rest s.stream).length = 12 ∧
    ¬ (s.loaded ≠ [] ∧ s.loaded.length ≠ reg.keys.length ∧ (header L s.stream).nDims ≤ 4 ∧
      0 < (header L s.stream).length)

variable {reg : Registry}

/-! ### The end of the stream -/

theorem failed_read {f : FileStream} {n : ℕ} (h : f.failed = false) (hn : n ≤ f.rest.length) :
    (f.read n).2.failed = false := by
  rw [FileStream.read, h, if_neg (by decide), if_pos hn]

/-- A file is at its end if the header of a record is not complete. -/
theorem file_eof (f : FileStream) :
    fileLoader.eof (afterHeader fileLoader f) = decide (f.rest.length < 12) := by
  rcases lt_or_ge f.rest.length 12 with hlt | hge
  · rw [decide_eq_true hlt]
    by_contra hne
    rw [Bool.not_eq_true] at hne
    exact absurd (le_length_of_eof hne) (not_le.2 hlt)
  · have hfailed : f.failed = false := by
      by_contra htrue
      rw [Bool.not_eq_false] at htrue
      rw [f.rest_eq_nil htrue, List.length_nil] at hge
      omega
    have hrest (n : ℕ) (f : FileStream) : (f.read n).2.rest.length = f.rest.length - n := by
      rw [show (f.read n).2.rest = f.rest.drop n from fileLoader.rest_read n f, List.length_drop]
    rw [decide_eq_false (not_lt.2 hge)]
    have h₁ := failed_read hfailed (n := 4) (by omega)
    have h₂ := failed_read h₁ (n := 4) (by rw [hrest]; omega)
    have h₃ := failed_read h₂ (n := 4) (by rw [hrest, hrest]; omega)
    exact h₃

theorem eof_bufferLoader (b : BufContext) :
    bufferLoader.eof b = decide (b.rest.length = 0) := by
  have hlen : b.rest.length = b.buffer.length - b.currentOffset := List.length_drop
  have hle := b.currentOffset_le
  refine decide_eq_decide.2 ?_
  omega

/-- A buffer is at its end if there is nothing behind the header of a record. -/
theorem buffer_eof (b : BufContext) :
    bufferLoader.eof (afterHeader bufferLoader b) = decide (b.rest.length ≤ 12) := by
  rw [eof_bufferLoader,
    show (afterHeader bufferLoader b).rest = b.rest.drop 12 from
    rest_afterHeader (L := bufferLoader) b, List.length_drop]
  refine decide_eq_decide.2 ?_
  omega

/-! ### In step -/

/-- No program tells a file from a buffer. -/
theorem run_same {α : Type} (p : Load α) {f : FileStream} {b : BufContext} (h : f.rest = b.rest) :
    (run FileStream.read p f).1 = (run BufContext.read p b).1 ∧
      (run FileStream.read p f).2.rest = (run BufContext.read p b).2.rest := by
  obtain ⟨hf, hfrest⟩ := run_eq (L := fileLoader) p f
  obtain ⟨hb, hbrest⟩ := run_eq (L := bufferLoader) p b
  have heq : fileLoader.rest f = bufferLoader.rest b := h
  rw [heq] at hf hfrest
  exact ⟨hf.trans hb.symm, hfrest.trans hbrest.symm⟩

theorem header_same {f : FileStream} {b : BufContext} (h : f.rest = b.rest) :
    header fileLoader f = header bufferLoader b ∧
      (afterHeader fileLoader f).rest = (afterHeader bufferLoader b).rest := by
  obtain ⟨hval, hrest⟩ := run_same readHeader h
  rw [show run FileStream.read readHeader f = _ from run_readHeader (L := fileLoader) f,
    show run BufContext.read readHeader b = _ from run_readHeader (L := bufferLoader) b] at hval hrest
  exact ⟨Except.ok.inj hval, hrest⟩

variable (reg) in
/-- Unless twelve bytes are left, both loaders do the same in a round of the loop. -/
theorem round_same {s : LoadState FileStream} {t : LoadState BufContext} (h : Same s t)
    (hlen : s.stream.rest.length ≠ 12) :
    (∃ e, loadRecord fileLoader reg s = .error e ∧ loadRecord bufferLoader reg t = .error e) ∨
      (loadRecord fileLoader reg s = .ok none ∧ loadRecord bufferLoader reg t = .ok none) ∨
      ∃ s' t', Round fileLoader reg s s' ∧ Round bufferLoader reg t t' ∧ Same s' t' := by
  have hfile := file_eof s.stream
  have hbuffer := buffer_eof t.stream
  rw [← h.rest_eq] at hbuffer
  rcases lt_or_ge s.stream.rest.length 12 with hlt | hge
  · rw [decide_eq_true hlt] at hfile
    rw [decide_eq_true hlt.le] at hbuffer
    exact .inr (.inl ⟨loadRecord_of_eof hfile, loadRecord_of_eof hbuffer⟩)
  · rw [decide_eq_false (not_lt.2 hge)] at hfile
    rw [decide_eq_false (by omega)] at hbuffer
    obtain ⟨hheader, hafter⟩ := header_same h.rest_eq
    obtain ⟨hval, hrest⟩ := run_same (readShape (header fileLoader s.stream)) hafter
    rcases hrun : run FileStream.read (readShape (header fileLoader s.stream))
      (afterHeader fileLoader s.stream) with ⟨res, f⟩
    rcases hrun' : run BufContext.read (readShape (header fileLoader s.stream))
      (afterHeader bufferLoader t.stream) with ⟨res', b⟩
    rw [hrun, hrun'] at hval hrest
    simp only at hval hrest
    subst hval
    cases res with
    | error e =>
      refine .inl ⟨e, loadRecord_of_shape_error hfile hrun, ?_⟩
      rw [hheader] at hrun'
      exact loadRecord_of_shape_error hbuffer hrun'
    | ok shape =>
      have hs := loadRecord_of_shape reg hfile hrun
      rw [hheader] at hrun'
      have ht := loadRecord_of_shape reg hbuffer hrun'
      rw [hheader] at hs
      cases hcheck : checkShape reg (header bufferLoader t.stream) shape with
      | error e =>
        rw [hcheck] at hs ht
        exact .inl ⟨e, hs, ht⟩
      | ok u =>
        rw [hcheck, Except.map] at hs ht
        obtain ⟨hdata, hnext⟩ := run_same (Reading.get (Ggml.nbytes u).toNat) hrest
        have hdata' : (fileLoader.read (Ggml.nbytes u).toNat f).1 =
            (bufferLoader.read (Ggml.nbytes u).toNat b).1 := Except.ok.inj hdata
        refine .inr (.inr ⟨_, _, hs, ht, hnext, ?_⟩)
        show s.loaded ++ [(shape.name, _)] = t.loaded ++ [(shape.name, _)]
        rw [h.loaded_eq, hdata']

/-! ### Twelve bytes -/

/-- Of a name of which nothing is left in the stream there are only zeros. -/
theorem run_readShape_nil {σ : Type} {L : ModelLoader σ} {h : Header} {st : σ} (hdims : h.nDims ≤ 4)
    (hlen : 0 < h.length) (hnil : L.rest st = []) : ∃ ne nelements st',
      run L.read (readShape h) st = (.ok ⟨ne, nelements, List.replicate h.length.toNat 0⟩, st') := by
  obtain ⟨⟨ne, nelements⟩, st₁, hrun⟩ :=
    run_readDims (L := L) (n := h.nDims.toNat) (i := 0) (by omega) (fun _ => 1) 1 st
  have hsuffix := rest_run_suffix (L := L) (readDims h.nDims.toNat 0 (fun _ => 1) 1) st
  rw [hrun, hnil] at hsuffix
  have hnone : (L.read h.length.toNat st₁).1 = [] := by
    rw [L.read_fst, List.suffix_nil.1 hsuffix, List.take_nil]
  refine ⟨ne, nelements, (L.read h.length.toNat st₁).2, ?_⟩
  rw [readShape, Reading.run_bind_ok hrun]
  simp only
  rw [readName, if_neg (by omega), if_neg (by omega), Reading.run_bind,
    Reading.run_bind_ok (Reading.run_get L.read st₁ h.length.toNat), Reading.run_pure, hnone]
  simp only [List.nil_append, List.length_nil, Nat.sub_zero, Reading.run_pure]

/-- No tensor has a name of zeros. -/
theorem find_replicate_zero {n : ℕ} (hn : n ≠ 0) : reg.find (List.replicate n 0) = none := by
  rw [Registry.find, dif_neg]
  rw [not_not]
  exact List.mem_replicate.2 ⟨hn, rfl⟩

theorem checkShape_of_find {h : Header} {shape : Shape} (hfind : reg.find shape.name = none) :
    checkShape reg h shape = .error .rejected := by
  rw [checkShape, hfind]

variable (reg) in
/-- Where twelve bytes are left, a file is read on, and the record is not accepted. -/
theorem loadRecord_file {s : LoadState FileStream} (hlen : s.stream.rest.length = 12) :
    ∃ e, loadRecord fileLoader reg s = .error e ∧
      (e = .rejected ↔ (header fileLoader s.stream).nDims ≤ 4 ∧
        0 < (header fileLoader s.stream).length) := by
  have heof := file_eof s.stream
  rw [hlen, decide_eq_false (lt_irrefl 12)] at heof
  by_cases hnums : (header fileLoader s.stream).nDims ≤ 4 ∧ 0 < (header fileLoader s.stream).length
  · have hnil : fileLoader.rest (afterHeader fileLoader s.stream) = [] := by
      have hle : (fileLoader.rest s.stream).length ≤ 12 := hlen.le
      rw [rest_afterHeader, List.drop_eq_nil_iff]
      exact hle
    obtain ⟨ne, nelements, f, hrun⟩ := run_readShape_nil hnums.1 hnums.2 hnil
    have hzero : (header fileLoader s.stream).length.toNat ≠ 0 := by omega
    have hfind : reg.find (⟨ne, nelements,
        List.replicate (header fileLoader s.stream).length.toNat 0⟩ : Shape).name = none := by
      simp only
      exact find_replicate_zero hzero
    refine ⟨.rejected, ?_, fun _ => hnums, fun _ => rfl⟩
    rw [loadRecord_of_shape reg heof hrun, checkShape_of_find hfind, Except.map]
  · obtain ⟨f, st, hrun⟩ := run_readShape_error (L := fileLoader) hnums
      (afterHeader fileLoader s.stream)
    exact ⟨_, loadRecord_of_shape_error heof hrun, fun he => absurd he nofun, fun h => absurd h hnums⟩

variable (reg) in
/-- A buffer is at its end there. -/
theorem loadRecord_buffer {t : LoadState BufContext} (hlen : t.stream.rest.length = 12) :
    loadRecord bufferLoader reg t = .ok none := by
  have heof := buffer_eof t.stream
  rw [hlen, decide_eq_true le_rfl] at heof
  exact loadRecord_of_eof heof

/-- Whether this makes a difference. -/
theorem loadFrom_eq_iff_of_twelve {s : LoadState FileStream} {t : LoadState BufContext}
    (h : Same s t) (hlen : s.stream.rest.length = 12) :
    loadFrom fileLoader reg s = loadFrom bufferLoader reg t ↔ ¬ Dangling fileLoader reg s := by
  obtain ⟨e, he, hiff⟩ := loadRecord_file reg hlen
  have hbreak := loadRecord_buffer reg (t := t) (h.rest_eq ▸ hlen)
  rw [loadFrom_of_error he, loadFrom_of_break hbreak, ← h.loaded_eq, Dangling]
  by_cases hcount : s.loaded ≠ [] ∧ s.loaded.length ≠ reg.keys.length
  · rw [if_pos hcount, Except.error.injEq, hiff]
    exact ⟨fun hnums hd => hd.2 ⟨hcount.1, hcount.2, hnums⟩, fun hd => by
      by_contra hnums
      exact hd ⟨hlen, fun hall => hnums hall.2.2⟩⟩
  · rw [if_neg hcount]
    exact ⟨nofun, fun hd => absurd ⟨hlen, fun hall => hcount ⟨hall.1, hall.2.1⟩⟩ hd⟩

/-! ### The loop -/

/-- The loops agree if no state that they visit is dangling. -/
theorem loadFrom_eq_of_not_dangling {s : LoadState FileStream} {t : LoadState BufContext}
    (h : Same s t)
    (hnot : ∀ s', Relation.ReflTransGen (Round fileLoader reg) s s' → ¬ Dangling fileLoader reg s') :
    loadFrom fileLoader reg s = loadFrom bufferLoader reg t := by
  induction hn : s.stream.rest.length using Nat.strong_induction_on generalizing s t with
  | _ n ih =>
    subst hn
    by_cases hlen : s.stream.rest.length = 12
    · exact (loadFrom_eq_iff_of_twelve h hlen).2 (hnot s .refl)
    · obtain ⟨e, hs, ht⟩ | ⟨hs, ht⟩ | ⟨s', t', hs, ht, hsame⟩ := round_same reg h hlen
      · rw [loadFrom_of_error hs, loadFrom_of_error ht]
      · rw [loadFrom_of_break hs, loadFrom_of_break ht, h.loaded_eq]
      · rw [hs.loadFrom_eq, ht.loadFrom_eq]
        exact ih _ hs.length_lt hsame (fun s'' hto => hnot s'' (.head hs hto)) rfl

theorem length_le_of_reflTransGen {s s' : LoadState FileStream}
    (h : Relation.ReflTransGen (Round fileLoader reg) s s') :
    s'.stream.rest.length ≤ s.stream.rest.length := by
  induction h with
  | refl => exact le_rfl
  | tail _ hround ih => exact hround.length_lt.le.trans ih

/-- They differ if one is. -/
theorem loadFrom_ne_of_dangling {s s' : LoadState FileStream} {t : LoadState BufContext}
    (hto : Relation.ReflTransGen (Round fileLoader reg) s s') (h : Same s t)
    (hdangling : Dangling fileLoader reg s') :
    loadFrom fileLoader reg s ≠ loadFrom bufferLoader reg t := by
  induction hto using Relation.ReflTransGen.head_induction_on generalizing t with
  | refl => exact fun heq => (loadFrom_eq_iff_of_twelve h hdangling.1).1 heq hdangling
  | head hround hrest ih =>
    rename_i s s₁
    have hle := length_le_of_reflTransGen hrest
    have hlt := hround.length_lt
    have hlen : s.stream.rest.length ≠ 12 := by
      have htwelve : s'.stream.rest.length = 12 := hdangling.1
      have hlt' : s₁.stream.rest.length < s.stream.rest.length := hlt
      omega
    obtain ⟨e, hs, -⟩ | ⟨hs, -⟩ | ⟨s₂, t₂, hs, ht, hsame⟩ := round_same reg h hlen
    · rw [Round, hs] at hround
      cases hround
    · rw [Round, hs] at hround
      cases hround
    · have heq : s₂ = s₁ := by
        rw [Round] at hround hs
        rw [hs] at hround
        exact Option.some.inj (Except.ok.inj hround)
      rw [hs.loadFrom_eq, ht.loadFrom_eq]
      subst heq
      exact ih hsame

theorem whisperModelLoad_of_error {σ : Type} {L : ModelLoader σ} {env : Env} {st st' : σ} {e : Stop}
    (h : run L.read (readModel env) st = (.error e, st')) :
    whisperModelLoad L env st = .error e := by
  rw [whisperModelLoad, h]

/-- The weights of a model, put into its header. -/
def Model.withLoaded (model : Model) (loaded : List (List UInt8 × List UInt8)) : Model :=
  { model with loaded }

theorem whisperModelLoad_of_ok {σ : Type} {L : ModelLoader σ} {env : Env} {st st' : σ} {model : Model}
    (h : run L.read (readModel env) st = (.ok model, st')) :
    whisperModelLoad L env st = (loadTensors L model.tensors st').map model.withLoaded := by
  rw [whisperModelLoad, h]
  rfl

theorem map_withLoaded_inj {model : Model} {x y : Except Stop (List (List UInt8 × List UInt8))}
    (h : x.map model.withLoaded = y.map model.withLoaded) : x = y := by
  cases x with
  | error e =>
    cases y with
    | error e' => exact congrArg _ (Except.error.inj h)
    | ok l => cases h
  | ok l =>
    cases y with
    | error e' => cases h
    | ok l' => exact congrArg _ (congrArg Model.loaded (Except.ok.inj h))

/-- **A file and a buffer load alike**, in what is decided and what is loaded, if and only if the stream
does not end behind the first numbers of a record where that makes a difference. -/
theorem init_eq_iff (env : Env) (bytes : List UInt8) :
    initFromFile env bytes = initFromBuffer env bytes ↔
      ∀ model st, run FileStream.read (readModel env) (openFile bytes) = (.ok model, st) →
        ∀ s, Visited fileLoader model.tensors st s → ¬ Dangling fileLoader model.tensors s := by
  obtain ⟨hval, hrest⟩ := run_same (readModel env) (f := openFile bytes) (b := openBuffer bytes) rfl
  rcases hfile : run FileStream.read (readModel env) (openFile bytes) with ⟨res, f⟩
  rcases hbuffer : run BufContext.read (readModel env) (openBuffer bytes) with ⟨res', b⟩
  rw [hfile, hbuffer] at hval hrest
  simp only at hval hrest
  subst hval
  rw [initFromFile, initFromBuffer]
  cases res with
  | error e =>
    have hne (model : Model) : (.error e : Except Stop Model) ≠ .ok model := nofun
    rw [whisperModelLoad_of_error hfile, whisperModelLoad_of_error hbuffer]
    exact ⟨fun _ model _ hmodel => absurd (Prod.mk.inj hmodel).1 (hne model), fun _ => rfl⟩
  | ok model =>
    rw [whisperModelLoad_of_ok hfile, whisperModelLoad_of_ok hbuffer]
    have hsame : Same (⟨f, []⟩ : LoadState FileStream) ⟨b, []⟩ := ⟨hrest, rfl⟩
    constructor
    · intro heq model' st hmodel s hs hdangling
      obtain ⟨hok, rfl⟩ := Prod.mk.inj hmodel
      obtain rfl := Except.ok.inj hok
      exact loadFrom_ne_of_dangling hs hsame hdangling (map_withLoaded_inj heq)
    · intro hnot
      exact congrArg _ (loadFrom_eq_of_not_dangling hsame (hnot model f rfl))

/-- The small model, and the first numbers of a record. -/
def dangling : List UInt8 := smallHeader ++ [0, 1, 0].flatMap toBytes

/-- **The buffer is accepted, and the file is rejected.** -/
theorem not_forall_init_eq :
    ¬ ∀ (env : Env) (bytes : List UInt8), initFromFile env bytes = initFromBuffer env bytes := by
  intro hall
  have hfile : ((initFromFile emptyEnv dangling).map fun _ => ()) = .error .rejected := by
    decide +kernel
  have hbuffer : ((initFromBuffer emptyEnv dangling).map fun _ => ()) = .ok () := by
    decide +kernel
  rw [hall, hbuffer] at hfile
  cases hfile

end Loader

end WhisperCpp
