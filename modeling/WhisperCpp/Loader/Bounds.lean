import WhisperCpp.Loader.Vad

/-!
# Accesses inside the bounds

The numbers of a record are used before they are checked: the number of dimensions as the bound of a
loop over an array of four, the length of the name as the size of a vector, the type as an index. The
header of the model of the VAD gives the size of a buffer, and the size of arrays of which four
elements are read.

## Main definitions

* `Returns` — nothing goes wrong, whatever is decided
* `InBounds`, `VadInBounds` — the numbers that are used are those that they can be

## Main results

* `returns_loadTensors_iff`, `returns_vadInit_iff`, `returns_load_iff`
-/

namespace WhisperCpp

namespace Loader

open Reading (run)

variable {σ : Type} {L : ModelLoader σ} {reg : Registry} {s : LoadState σ}

/-- No access outside an array, and no exception: a value, or a model that is rejected. -/
def Returns {α : Type} (x : Except Stop α) : Prop := ∀ f, x ≠ .error (.fault f)

theorem returns_ok {α : Type} (a : α) : Returns (.ok a : Except Stop α) := nofun

theorem returns_rejected {α : Type} : Returns (.error .rejected : Except Stop α) := nofun

theorem returns_map_iff {α β : Type} {x : Except Stop α} {f : α → β} :
    Returns (x.map f) ↔ Returns x := by
  cases x with
  | error e => exact ⟨fun h f hf => h f (congrArg _ (Except.error.inj hf)),
      fun h f hf => h f (congrArg _ (Except.error.inj hf))⟩
  | ok a => exact ⟨fun _ => returns_ok a, fun _ => returns_ok _⟩

/-! ### A record -/

/-- The numbers of the record that starts at a state, if there is one: at most four dimensions, a name
that is not empty, and, where the record passes the checks before, a type that exists. -/
def InBounds (L : ModelLoader σ) (reg : Registry) (s : LoadState σ) : Prop :=
  L.eof (afterHeader L s.stream) = false →
    (header L s.stream).nDims ≤ 4 ∧ 0 < (header L s.stream).length ∧
      ∀ shape st t, run L.read (readShape (header L s.stream)) (afterHeader L s.stream) =
          (.ok shape, st) → reg.find shape.name = some t → shape.matches t = true →
        0 ≤ (header L s.stream).ttype ∧ (header L s.stream).ttype < 42

/-- The loop over the dimensions stays inside the array of four. -/
theorem run_readDims {n i : ℕ} (h : n + i ≤ 4) (ne : Fin 4 → ℤ) (nelements : ℤ) (st : σ) :
    ∃ acc st', run L.read (readDims n i ne nelements) st = (.ok acc, st') := by
  induction n generalizing i ne nelements st with
  | zero => exact ⟨_, _, rfl⟩
  | succ n ih =>
    have hi : i < 4 := by omega
    rw [readDims, dif_pos hi, Reading.run_bind_ok (run_readI32 _ st)]
    exact ih (by omega) _ _ _

/-- It leaves the array if there are more of them. -/
theorem run_readDims_error {n i : ℕ} (hi : i ≤ 4) (h : 4 < n + i) (ne : Fin 4 → ℤ) (nelements : ℤ)
    (st : σ) :
    ∃ st', run L.read (readDims n i ne nelements) st = (.error (.fault .outOfBounds), st') := by
  induction n generalizing i ne nelements st with
  | zero => omega
  | succ n ih =>
    rw [readDims]
    split_ifs with hlt
    · rw [Reading.run_bind_ok (run_readI32 _ st)]
      exact ih hlt (by omega) _ _ _
    · exact ⟨st, rfl⟩

theorem run_readName {length : ℤ} (h : 0 < length) (st : σ) :
    ∃ name st', run L.read (readName length) st = (.ok name, st') := by
  rw [readName, if_neg (by omega), if_neg (by omega), Reading.run_bind_ok (Reading.run_get _ st _)]
  exact ⟨_, _, rfl⟩

theorem run_readName_error {length : ℤ} (h : length ≤ 0) (st : σ) :
    ∃ f, run L.read (readName length) st = (.error (.fault f), st) := by
  rw [readName]
  split_ifs
  · exact ⟨_, rfl⟩
  · exact ⟨_, rfl⟩
  · omega

/-- The shape of a record is read if the dimensions and the name can be. -/
theorem run_readShape {h : Header} (hdims : h.nDims ≤ 4) (hlen : 0 < h.length) (st : σ) :
    ∃ shape st', run L.read (readShape h) st = (.ok shape, st') := by
  obtain ⟨⟨ne, nelements⟩, st₁, hrun⟩ :=
    run_readDims (L := L) (n := h.nDims.toNat) (i := 0) (by omega) (fun _ => 1) 1 st
  obtain ⟨name, st₂, hname⟩ := run_readName (L := L) hlen st₁
  refine ⟨⟨ne, nelements, name⟩, st₂, ?_⟩
  rw [readShape, Reading.run_bind_ok hrun, Reading.run_bind_ok hname, Reading.run_pure]

theorem run_readShape_error {h : Header} (hout : ¬ (h.nDims ≤ 4 ∧ 0 < h.length)) (st : σ) :
    ∃ f st', run L.read (readShape h) st = (.error (.fault f), st') := by
  by_cases hdims : h.nDims ≤ 4
  · obtain ⟨⟨ne, nelements⟩, st₁, hrun⟩ :=
      run_readDims (L := L) (n := h.nDims.toNat) (i := 0) (by omega) (fun _ => 1) 1 st
    obtain ⟨f, hname⟩ :=
      run_readName_error (L := L) (not_lt.1 fun hlen => hout ⟨hdims, hlen⟩) st₁
    refine ⟨f, st₁, ?_⟩
    rw [readShape, Reading.run_bind_ok hrun, Reading.run_bind_error hname]
  · obtain ⟨st₁, hrun⟩ := run_readDims_error (L := L) (n := h.nDims.toNat) (i := 0) (by omega)
      (by omega) (fun _ => 1) 1 st
    exact ⟨.outOfBounds, st₁, by rw [readShape, Reading.run_bind_error hrun]⟩

/-- The type of a record is looked up behind the checks of its shape. -/
theorem returns_checkShape_iff {h : Header} {shape : Shape} :
    Returns (checkShape reg h shape) ↔
      ∀ t, reg.find shape.name = some t → shape.matches t = true → 0 ≤ h.ttype ∧ h.ttype < 42 := by
  rw [checkShape]
  cases hfind : reg.find shape.name with
  | none => exact ⟨fun _ => by rintro _ ⟨⟩, fun _ => returns_rejected⟩
  | some t =>
    simp only [Option.some.injEq, forall_eq']
    cases hmatch : shape.matches t with
    | false => exact ⟨fun _ => by rintro ⟨⟩, fun _ => returns_rejected⟩
    | true =>
      simp only [Bool.not_true, Bool.false_eq_true, if_false, true_imp_iff]
      constructor
      · intro hret
        by_contra htype
        rw [dif_neg htype] at hret
        exact hret _ rfl
      · intro htype
        rw [dif_pos htype]
        split_ifs
        · exact returns_rejected
        · exact returns_ok t

/-- A round of the loop. -/
theorem returns_loadRecord_iff : Returns (loadRecord L reg s) ↔ InBounds L reg s := by
  cases heof : L.eof (afterHeader L s.stream) with
  | true =>
    rw [loadRecord_of_eof heof]
    refine ⟨fun _ hne => ?_, fun _ => returns_ok _⟩
    rw [heof] at hne
    cases hne
  | false =>
    by_cases hnums : (header L s.stream).nDims ≤ 4 ∧ 0 < (header L s.stream).length
    · obtain ⟨shape, st, hrun⟩ := run_readShape (L := L) hnums.1 hnums.2 (afterHeader L s.stream)
      have hmap : Returns (loadRecord L reg s) ↔ Returns (checkShape reg (header L s.stream) shape) := by
        rw [loadRecord_of_shape reg heof hrun]
        exact returns_map_iff
      rw [hmap, returns_checkShape_iff]
      constructor
      · intro htype _
        refine ⟨hnums.1, hnums.2, fun shape' st' t hrun' => ?_⟩
        rw [hrun, Prod.mk.injEq, Except.ok.injEq] at hrun'
        rw [← hrun'.1]
        exact htype t
      · intro hin t
        exact (hin heof).2.2 shape st t hrun
    · obtain ⟨f, st, hrun⟩ := run_readShape_error (L := L) hnums (afterHeader L s.stream)
      rw [loadRecord_of_shape_error heof hrun]
      exact ⟨fun hret => absurd rfl (hret f), fun hin => absurd ⟨(hin heof).1, (hin heof).2.1⟩ hnums⟩

/-- The loop stays inside the bounds if every record that it comes to does. -/
theorem returns_loadTensors_iff {st : σ} :
    Returns (loadTensors L reg st) ↔ ∀ s, Visited L reg st s → InBounds L reg s := by
  constructor
  · intro hret s hs
    rw [← returns_loadRecord_iff]
    intro f hf
    exact hret f (hs.loadFrom_eq.trans (loadFrom_of_error hf))
  · intro hall f hf
    obtain ⟨s, hs, ⟨e, hround, he⟩ | ⟨-, heq⟩⟩ := loadTensors_cases L reg st
    · rw [hf, Except.error.injEq] at he
      rw [← he] at hround
      exact returns_loadRecord_iff.2 (hall s hs) f hround
    · rw [heq] at hf
      split_ifs at hf
      cases hf

/-! ### The model of the VAD -/

section Vad

variable {env : VadEnv} {st : σ}

/-- The stream behind `n` numbers. -/
def skip (L : ModelLoader σ) : ℕ → σ → σ
  | 0, st => st
  | n + 1, st => skip L n (L.read 4 st).2

theorem skip_add (n m : ℕ) (st : σ) : skip L (n + m) st = skip L m (skip L n st) := by
  induction n generalizing st with
  | zero => rw [Nat.zero_add, skip]
  | succ n ih => rw [Nat.succ_add, skip, skip, ih]

/-- The length of the type of the model. -/
def vadStrLen (L : ModelLoader σ) (env : VadEnv) (st : σ) : ℤ := int32At L env.strLen (skip L 1 st)

/-- The number of encoder layers, behind the type and five numbers. -/
def vadNEncoderLayers (L : ModelLoader σ) (env : VadEnv) (st : σ) : ℤ :=
  int32At L env.nEncoderLayers (skip L 5 (L.read (vadStrLen L env st).toNat (skip L 2 st)).2)

/-- The header of the VAD: unless the model is rejected at once, the type has a length and a buffer has
room for it, there are four encoder layers, the backends create the tensors, and the records of the
weights are in bounds. -/
def VadInBounds (L : ModelLoader σ) (env : VadEnv) (st : σ) : Prop :=
  (run L.read (readMagic env.magic) st).1 = .ok () →
    0 ≤ vadStrLen L env st ∧ 0 ≤ wrap32 (vadStrLen L env st + 1) ∧
      4 ≤ vadNEncoderLayers L env st ∧
      ∀ model st', run L.read (readVad env) st = (.ok model, st') →
        env.backends model.tensors = .ok () ∧
          ∀ s, Visited L model.tensors st' s → InBounds L model.tensors s

theorem run_readMagic (magic : ℤ) (st : σ) :
    run L.read (readMagic magic) st = (.ok (), skip L 1 st) ∨
      run L.read (readMagic magic) st = (.error .rejected, skip L 1 st) := by
  rw [readMagic, readU32, Reading.run_bind, Reading.run_bind, Reading.run_get]
  simp only [Reading.run_pure]
  split_ifs
  · exact .inr rfl
  · exact .inl rfl

variable (L env) in
theorem run_readVadType (st : σ) :
    (0 ≤ vadStrLen L env st ∧ 0 ≤ wrap32 (vadStrLen L env st + 1) →
      ∃ type, run L.read (readVadType env) (skip L 1 st) =
        (.ok type, (L.read (vadStrLen L env st).toNat (skip L 2 st)).2)) ∧
    (¬ (0 ≤ vadStrLen L env st ∧ 0 ≤ wrap32 (vadStrLen L env st + 1)) →
      ∃ f, run L.read (readVadType env) (skip L 1 st) = (.error (.fault f), skip L 2 st)) := by
  rw [readVadType, Reading.run_bind_ok (run_readI32 env.strLen (skip L 1 st)), ← vadStrLen,
    show (L.read 4 (skip L 1 st)).2 = skip L 2 st from rfl]
  constructor
  · rintro ⟨hlen, hsize⟩
    rw [if_neg (not_lt.2 hsize), if_neg (not_lt.2 hlen),
      Reading.run_bind_ok (Reading.run_get _ (skip L 2 st) _), Reading.run_pure]
    exact ⟨_, rfl⟩
  · intro hout
    split_ifs with hsize hlen
    · exact ⟨_, rfl⟩
    · exact ⟨_, rfl⟩
    · exact absurd ⟨not_lt.1 hlen, not_lt.1 hsize⟩ hout

variable (L env) in
theorem run_readVersion (st : σ) :
    ∃ version, run L.read (readVersion env) st = (.ok version, skip L 3 st) := by
  rw [readVersion, Reading.run_bind_ok (run_readI32 _ st), Reading.run_bind_ok (run_readI32 _ _),
    Reading.run_bind_ok (run_readI32 _ _), Reading.run_pure]
  exact ⟨_, rfl⟩

variable (L env) in
theorem run_readSizes (st : σ) :
    ∃ sizes, run L.read (readSizes env) st = (.ok sizes, skip L 2 st) := by
  rw [readSizes, Reading.run_bind_ok (run_readI32 _ st), Reading.run_bind_ok (run_readI32 _ _),
    Reading.run_pure]
  exact ⟨_, rfl⟩

variable (L env) in
theorem run_readChannels (n i : ℕ) (st : σ) :
    ∃ channels st', run L.read (readChannels env n i) st = (.ok channels, st') ∧
      channels.length = n := by
  induction n generalizing i st with
  | zero => exact ⟨[], st, rfl, rfl⟩
  | succ n ih =>
    obtain ⟨channels, st', hrun, hlen⟩ :=
      ih (i + 1) (L.read 4 (L.read 4 (L.read 4 st).2).2).2
    refine ⟨(int32At L (env.encoderInChannels i) st, int32At L (env.encoderOutChannels i) (L.read 4 st).2,
      int32At L (env.kernelSizes i) (L.read 4 (L.read 4 st).2).2) :: channels, st', ?_,
      by rw [List.length_cons, hlen]⟩
    rw [readChannels, Reading.run_bind_ok (run_readI32 _ st), Reading.run_bind_ok (run_readI32 _ _),
      Reading.run_bind_ok (run_readI32 _ _), Reading.run_bind_ok hrun, Reading.run_pure]

variable (L env) in
theorem run_readVadHparams (st : σ) :
    (0 ≤ int32At L env.nEncoderLayers st → ∃ hp st',
      run L.read (readVadHparams env) st = (.ok hp, st') ∧
        hp.kernelSizes.length = (int32At L env.nEncoderLayers st).toNat ∧
        hp.encoderInChannels.length = (int32At L env.nEncoderLayers st).toNat ∧
        hp.encoderOutChannels.length = (int32At L env.nEncoderLayers st).toNat) ∧
    (int32At L env.nEncoderLayers st < 0 →
      ∃ f st', run L.read (readVadHparams env) st = (.error (.fault f), st')) := by
  rw [readVadHparams, Reading.run_bind_ok (run_readI32 env.nEncoderLayers st)]
  constructor
  · intro hn
    obtain ⟨channels, st', hrun, hlen⟩ := run_readChannels L env
      (int32At L env.nEncoderLayers st).toNat 0 (L.read 4 st).2
    rw [if_neg (not_lt.2 hn), Reading.run_bind_ok hrun, readLstm,
      Reading.run_bind_ok (run_readI32 _ st'), Reading.run_bind_ok (run_readI32 _ _),
      Reading.run_bind_ok (run_readI32 _ _), Reading.run_bind_ok (run_readI32 _ _),
      Reading.run_pure]
    refine ⟨_, _, rfl, ?_, ?_, ?_⟩ <;> rw [List.length_map, hlen]
  · intro hn
    rw [if_pos hn]
    exact ⟨_, _, rfl⟩

/-- The tensors of a layer are created if the arrays hold its sizes. -/
theorem encoderLayer_cases {hp : VadHparams} {n : ℕ} (i : ℕ) (hk : hp.kernelSizes.length = n)
    (hin : hp.encoderInChannels.length = n) (hout : hp.encoderOutChannels.length = n) :
    (i < n ∧ ∃ layer, encoderLayer hp i = .ok layer) ∨
      (n ≤ i ∧ encoderLayer hp i = .error .outOfBounds) := by
  rcases lt_or_ge i n with hi | hi
  · refine .inl ⟨hi, ?_⟩
    rw [encoderLayer, List.getElem?_eq_getElem (by omega), List.getElem?_eq_getElem (by omega),
      List.getElem?_eq_getElem (by omega)]
    exact ⟨_, rfl⟩
  · refine .inr ⟨hi, ?_⟩
    rw [encoderLayer, List.getElem?_eq_none (by omega)]

/-- Four layers have to be there. -/
theorem vadTensors_cases {hp : VadHparams} {n : ℕ} (hk : hp.kernelSizes.length = n)
    (hin : hp.encoderInChannels.length = n) (hout : hp.encoderOutChannels.length = n) :
    (4 ≤ n ∧ ∃ reg, vadTensors hp = .ok reg) ∨ (n < 4 ∧ vadTensors hp = .error .outOfBounds) := by
  rw [vadTensors]
  rcases encoderLayer_cases 0 hk hin hout with ⟨-, l₀, h₀⟩ | ⟨hle, h₀⟩
  swap
  · exact .inr ⟨by omega, by rw [h₀]; rfl⟩
  rcases encoderLayer_cases 1 hk hin hout with ⟨-, l₁, h₁⟩ | ⟨hle, h₁⟩
  swap
  · exact .inr ⟨by omega, by rw [h₀, h₁]; rfl⟩
  rcases encoderLayer_cases 2 hk hin hout with ⟨-, l₂, h₂⟩ | ⟨hle, h₂⟩
  swap
  · exact .inr ⟨by omega, by rw [h₀, h₁, h₂]; rfl⟩
  rcases encoderLayer_cases 3 hk hin hout with ⟨hlt, l₃, h₃⟩ | ⟨hle, h₃⟩
  · exact .inl ⟨by omega, by rw [h₀, h₁, h₂, h₃]; exact ⟨_, rfl⟩⟩
  · exact .inr ⟨by omega, by rw [h₀, h₁, h₂, h₃]; rfl⟩

/-- The header is read if its numbers are in bounds. -/
theorem run_readVad (hmagic : run L.read (readMagic env.magic) st = (.ok (), skip L 1 st)) :
    (0 ≤ vadStrLen L env st ∧ 0 ≤ wrap32 (vadStrLen L env st + 1) ∧
        4 ≤ vadNEncoderLayers L env st →
      ∃ model st', run L.read (readVad env) st = (.ok model, st')) ∧
    (¬ (0 ≤ vadStrLen L env st ∧ 0 ≤ wrap32 (vadStrLen L env st + 1) ∧
        4 ≤ vadNEncoderLayers L env st) →
      ∃ f st', run L.read (readVad env) st = (.error (.fault f), st')) := by
  rw [readVad, Reading.run_bind_ok hmagic]
  by_cases htype : 0 ≤ vadStrLen L env st ∧ 0 ≤ wrap32 (vadStrLen L env st + 1)
  · obtain ⟨type, hrun⟩ := (run_readVadType L env st).1 htype
    obtain ⟨version, hversion⟩ := run_readVersion L env
      (L.read (vadStrLen L env st).toNat (skip L 2 st)).2
    obtain ⟨⟨nWindow, nContext⟩, hsizes⟩ := run_readSizes L env
      (skip L 3 (L.read (vadStrLen L env st).toNat (skip L 2 st)).2)
    rw [← skip_add] at hsizes
    obtain ⟨hok, herror⟩ := run_readVadHparams L env
      (skip L (3 + 2) (L.read (vadStrLen L env st).toNat (skip L 2 st)).2)
    rw [← vadNEncoderLayers] at hok herror
    rw [Reading.run_bind_ok hrun, Reading.run_bind_ok hversion, Reading.run_bind_ok hsizes]
    simp only
    rcases lt_or_ge (vadNEncoderLayers L env st) 0 with hneg | hpos
    · obtain ⟨f, st', hhp⟩ := herror hneg
      rw [Reading.run_bind_error hhp]
      exact ⟨fun h => absurd h.2.2 (by omega), fun _ => ⟨f, st', rfl⟩⟩
    · obtain ⟨hp, st', hhp, hk, hin, hout⟩ := hok hpos
      rw [Reading.run_bind_ok hhp]
      rcases vadTensors_cases hk hin hout with ⟨hle, reg, hreg⟩ | ⟨hlt, hreg⟩ <;> rw [hreg, lift]
      · exact ⟨fun _ => ⟨_, st', rfl⟩, fun h => absurd ⟨htype.1, htype.2, by omega⟩ h⟩
      · exact ⟨fun h => absurd h.2.2 (by omega), fun _ => ⟨_, st', rfl⟩⟩
  · obtain ⟨f, hrun⟩ := (run_readVadType L env st).2 htype
    rw [Reading.run_bind_error hrun]
    exact ⟨fun h => absurd ⟨h.1, h.2.1⟩ htype, fun _ => ⟨f, _, rfl⟩⟩

/-- The load of the model stays inside the bounds if its header does, and then every record
that the loop comes to. -/
theorem returns_vadInit_iff : Returns (vadInit L env st) ↔ VadInBounds L env st := by
  rw [VadInBounds, vadInit]
  rcases run_readMagic (L := L) env.magic st with hmagic | hmagic
  · rw [hmagic]
    simp only [true_imp_iff]
    obtain ⟨hok, herror⟩ := run_readVad hmagic
    by_cases hnums : 0 ≤ vadStrLen L env st ∧ 0 ≤ wrap32 (vadStrLen L env st + 1) ∧
        4 ≤ vadNEncoderLayers L env st
    · obtain ⟨model, st', hrun⟩ := hok hnums
      rw [hrun]
      simp only
      constructor
      · intro hret
        refine ⟨hnums.1, hnums.2.1, hnums.2.2, fun model' st'' heq => ?_⟩
        rw [Prod.mk.injEq, Except.ok.injEq] at heq
        obtain ⟨rfl, rfl⟩ := heq
        cases hbackends : env.backends model.tensors with
        | error f =>
          rw [hbackends] at hret
          exact absurd rfl (hret f)
        | ok u =>
          refine ⟨rfl, returns_loadTensors_iff.1 fun f hf => ?_⟩
          rw [hbackends] at hret
          simp only [hf] at hret
          exact hret f rfl
      · rintro ⟨-, -, -, h⟩
        obtain ⟨hbackends, hall⟩ := h model st' rfl
        have hret := returns_loadTensors_iff.2 hall
        rw [hbackends]
        simp only
        cases hload : loadTensors L model.tensors st' with
        | error e =>
          intro f hf
          rw [Except.error.injEq] at hf
          exact hret f (hload.trans (congrArg _ hf))
        | ok loaded =>
          simp only
          split_ifs
          · exact returns_ok _
          · exact returns_rejected
    · obtain ⟨f, st', hrun⟩ := herror hnums
      rw [hrun]
      exact ⟨fun hret => absurd rfl (hret f), fun h => absurd ⟨h.1, h.2.1, h.2.2.1⟩ hnums⟩
  · rw [readVad, Reading.run_bind_error hmagic, hmagic]
    exact ⟨fun _ => nofun, fun _ => returns_rejected⟩

end Vad

/-- **The loaders stay inside the bounds** if and only if the numbers of every record that the loop comes
to are in bounds, and for the VAD those of its header. -/
theorem returns_load_iff (L : ModelLoader σ) (st : σ) :
    (∀ reg, Returns (loadTensors L reg st) ↔ ∀ s, Visited L reg st s → InBounds L reg s) ∧
      ∀ env, Returns (vadInit L env st) ↔ VadInBounds L env st :=
  ⟨fun _ => returns_loadTensors_iff, fun _ => returns_vadInit_iff⟩

/-! ### Five dimensions, and no layer -/

/-- An environment in which the memory is empty and every tensor can be created. -/
def emptyVadEnv : VadEnv :=
  ⟨0, 0, 0, 0, 0, 0, 0, 0, fun _ => 0, fun _ => 0, fun _ => 0, 0, 0, 0, 0, fun _ => .ok (), true⟩

/-- The header of a model of the VAD without encoder layers. -/
def noLayers : List UInt8 := [(ggmlFileMagic : ℤ), 0, 6, 2, 0, 512, 64, 0, 0, 0, 0, 0].flatMap toBytes

/-- **A record with five dimensions is written outside the array, and of a model of the VAD without
layers the channels of four are read.** -/
theorem not_forall_returns :
    (¬ ∀ bytes, Returns (initFromFile emptyEnv bytes)) ∧
      ¬ ∀ bytes, Returns (vadInitFromFile emptyVadEnv bytes) := by
  constructor
  · intro hall
    have hfault : ((initFromFile emptyEnv (smallHeader ++ record [1, 1, 1, 1, 1] "decoder.ln.bias"
        [0, 0, 0, 0])).map fun _ => ()) = .error (.fault .outOfBounds) := by
      decide +kernel
    exact returns_map_iff.2 (hall _) _ hfault
  · intro hall
    have hfault : ((vadInitFromFile emptyVadEnv noLayers).map fun _ => ()) =
        .error (.fault .outOfBounds) := by
      decide +kernel
    exact returns_map_iff.2 (hall _) _ hfault

end Loader

end WhisperCpp
