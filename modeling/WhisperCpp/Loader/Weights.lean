import Mathlib.Data.List.AList
import Mathlib.Logic.Relation
import WhisperCpp.Ggml.Tensor
import WhisperCpp.Library.Literals
import WhisperCpp.Loader.Stream

/-!
# The weights of a model

Behind its header a model is a sequence of records, each with a name, dimensions, a type and the data
of a tensor. The loop that reads them is the same for the models of whisper and of the VAD: a record
has to name a registered tensor of its shape and size, and in the end there have to be as many records
as tensors, or none.

## Main definitions

* `Registry` — `model.tensors`
* `loadRecord`, `loadTensors` — the body of the loop, and the loop
* `Visited` — the states at the head of the loop

## Main results

* `round_iff` — what a round does
* `loadTensors_cases` — how the loop ends
-/

namespace WhisperCpp

namespace Loader

open Ggml (Tensor)
open Reading (run)

attribute [local instance] Literals.neZero_four

/-- The name of a tensor, a C string. -/
abbrev Name := { bytes : List UInt8 // 0 ∉ bytes }

/-- `model.tensors`. -/
abbrev Registry := AList fun _ : Name => Tensor

/-- `model.tensors.find`. -/
def Registry.find (reg : Registry) (name : List UInt8) : Option Tensor :=
  if h : 0 ∉ name then reg.lookup ⟨name, h⟩ else none

/-! ### A record -/

/-- The first numbers of a record. -/
structure Header where
  nDims : ℤ
  length : ℤ
  ttype : ℤ

/-- They are not initialised, and what is missing at the end of a stream is taken for zero. It is not
looked at. -/
def readHeader : Load Header := do
  let nDims ← readI32 0
  let length ← readI32 0
  let ttype ← readI32 0
  pure ⟨nDims, length, ttype⟩

/-- The dimensions and the name of a record. -/
structure Shape where
  ne : Fin 4 → ℤ
  nelements : ℤ
  name : List UInt8

/-- The loop over the dimensions `i`, …, of which `n` are left. -/
def readDims : ℕ → ℕ → (Fin 4 → ℤ) → ℤ → Load ((Fin 4 → ℤ) × ℤ)
  | 0, _, ne, nelements => pure (ne, nelements)
  | n + 1, i, ne, nelements =>
    if h : i < 4 then do
      let x ← readI32 (ne ⟨i, h⟩)
      readDims n (i + 1) (Function.update ne ⟨i, h⟩ x) (wrap32 (nelements * x))
    else fault .outOfBounds

/-- The name. There is no vector of a negative size, and no element in an empty one. -/
def readName (length : ℤ) : Load (List UInt8) :=
  if length < 0 then fault .uncaught
  else if length = 0 then fault .outOfBounds
  else do
    let bytes ← Reading.get length.toNat
    pure (bytes ++ List.replicate (length.toNat - bytes.length) 0)

def readShape (h : Header) : Load Shape := do
  let (ne, nelements) ← readDims h.nDims.toNat 0 (fun _ => 1) 1
  let name ← readName h.length
  pure ⟨ne, nelements, name⟩

/-- The tensor has the shape. -/
def Shape.matches (shape : Shape) (t : Tensor) : Bool :=
  Ggml.nelements t = shape.nelements && t.ne 0 = shape.ne 0 && t.ne 1 = shape.ne 1 &&
    t.ne 2 = shape.ne 2

/-- The number of bytes of a record, in the arithmetic of `size_t`. -/
def Shape.nbytes (shape : Shape) (ttype : Ggml.GgmlType) (t : Tensor) : ℤ :=
  shape.nelements * Ggml.typeSize ttype % 2 ^ 64 / Ggml.blckSize t.type

/-- The checks of a record. -/
def checkShape (reg : Registry) (h : Header) (shape : Shape) : Except Stop Tensor :=
  match reg.find shape.name with
  | none => .error .rejected
  | some t =>
    if !shape.matches t then .error .rejected
    else if htype : 0 ≤ h.ttype ∧ h.ttype < 42 then
      if shape.nbytes ⟨h.ttype.toNat, by omega⟩ t ≠ Ggml.nbytes t then .error .rejected else .ok t
    else .error (.fault .outOfBounds)

/-! ### The loop -/

variable {σ : Type}

/-- The state at the head of the loop: the stream, and the records with the data that was read. -/
structure LoadState (σ : Type) where
  stream : σ
  loaded : List (List UInt8 × List UInt8)

section Definitions

variable (L : ModelLoader σ) (reg : Registry)

/-- The body of the loop; none where it breaks. -/
def loadRecord (s : LoadState σ) : Except Stop (Option (LoadState σ)) :=
  match run L.read readHeader s.stream with
  | (.error e, _) => .error e
  | (.ok h, st) =>
    if L.eof st then .ok none
    else
      match run L.read (readShape h) st with
      | (.error e, _) => .error e
      | (.ok shape, st) =>
        match checkShape reg h shape with
        | .error e => .error e
        | .ok t =>
          let (data, st) := L.read (Ggml.nbytes t).toNat st
          .ok (some ⟨st, s.loaded ++ [(shape.name, data)]⟩)

/-- `while (true)`, and the check of `n_loaded`. -/
def loadLoop : ℕ → LoadState σ → Except Stop (List (List UInt8 × List UInt8))
  | 0, _ => .error (.fault .outOfFuel)
  | n + 1, s =>
    match loadRecord L reg s with
    | .error e => .error e
    | .ok (some s') => loadLoop n s'
    | .ok none =>
      if s.loaded ≠ [] ∧ s.loaded.length ≠ reg.keys.length then .error .rejected else .ok s.loaded

/-- The loop from a state on. Every record takes bytes, so that their number is a bound. -/
def loadFrom (s : LoadState σ) : Except Stop (List (List UInt8 × List UInt8)) :=
  loadLoop L reg ((L.rest s.stream).length + 1) s

/-- The loading of the weights. -/
def loadTensors (st : σ) : Except Stop (List (List UInt8 × List UInt8)) := loadFrom L reg ⟨st, []⟩

/-- One round of the loop. -/
def Round (s s' : LoadState σ) : Prop := loadRecord L reg s = .ok (some s')

/-- The states at the head of the loop. -/
def Visited (st : σ) : LoadState σ → Prop := Relation.ReflTransGen (Round L reg) ⟨st, []⟩

end Definitions

section Lemmas

variable {L : ModelLoader σ} {reg : Registry} {s s' : LoadState σ}

/-! ### A round -/

/-- The first numbers of the record that starts at a state. -/
def header (L : ModelLoader σ) (st : σ) : Header :=
  ⟨int32At L 0 st, int32At L 0 (L.read 4 st).2, int32At L 0 (L.read 4 (L.read 4 st).2).2⟩

/-- The stream behind them. -/
def afterHeader (L : ModelLoader σ) (st : σ) : σ := (L.read 4 (L.read 4 (L.read 4 st).2).2).2

theorem run_readHeader (st : σ) :
    run L.read readHeader st = (.ok (header L st), afterHeader L st) := by
  rw [readHeader, Reading.run_bind_ok (run_readI32 0 st), Reading.run_bind_ok (run_readI32 0 _),
    Reading.run_bind_ok (run_readI32 0 _), Reading.run_pure, header, afterHeader]

theorem rest_afterHeader (st : σ) : L.rest (afterHeader L st) = (L.rest st).drop 12 := by
  rw [afterHeader, L.rest_read, L.rest_read, L.rest_read, List.drop_drop, List.drop_drop]

/-- The end of the stream is seen where a header is not complete. -/
theorem le_length_of_eof {st : σ} (h : L.eof (afterHeader L st) = false) :
    12 ≤ (L.rest st).length := by
  by_contra hlt
  have hshort : (L.rest (L.read 4 (L.read 4 st).2).2).length < 4 := by
    rw [L.rest_read, L.rest_read, List.drop_drop, List.length_drop]
    omega
  have heof := L.eof_read 4 _ hshort
  rw [afterHeader] at h
  rw [h] at heof
  cases heof

/-- The body of the loop breaks at the end of the stream. -/
theorem loadRecord_of_eof (h : L.eof (afterHeader L s.stream) = true) :
    loadRecord L reg s = .ok none := by
  rw [loadRecord, run_readHeader]
  exact if_pos h

theorem loadRecord_of_shape_error {e : Stop} {st : σ}
    (heof : L.eof (afterHeader L s.stream) = false)
    (hrun : run L.read (readShape (header L s.stream)) (afterHeader L s.stream) = (.error e, st)) :
    loadRecord L reg s = .error e := by
  rw [loadRecord, run_readHeader]
  simp only [heof, hrun, Bool.false_eq_true, if_false]

variable (reg) in
theorem loadRecord_of_shape {shape : Shape} {st : σ} (heof : L.eof (afterHeader L s.stream) = false)
    (hrun : run L.read (readShape (header L s.stream)) (afterHeader L s.stream) = (.ok shape, st)) :
    loadRecord L reg s = (checkShape reg (header L s.stream) shape).map fun t =>
      some ⟨(L.read (Ggml.nbytes t).toNat st).2,
        s.loaded ++ [(shape.name, (L.read (Ggml.nbytes t).toNat st).1)]⟩ := by
  rw [loadRecord, run_readHeader]
  simp only [heof, hrun, Bool.false_eq_true, if_false]
  cases checkShape reg (header L s.stream) shape <;> rfl

/-- What a round does: the record is complete, its name is that of a registered tensor of its shape and
size, and as many bytes as there are, up to the size of the tensor, are its data. -/
theorem round_iff :
    Round L reg s s' ↔ L.eof (afterHeader L s.stream) = false ∧
      ∃ shape st t, run L.read (readShape (header L s.stream)) (afterHeader L s.stream) =
          (.ok shape, st) ∧ checkShape reg (header L s.stream) shape = .ok t ∧
        s' = ⟨(L.read (Ggml.nbytes t).toNat st).2,
          s.loaded ++ [(shape.name, (L.read (Ggml.nbytes t).toNat st).1)]⟩ := by
  rw [Round]
  constructor
  · intro h
    cases heof : L.eof (afterHeader L s.stream) with
    | true =>
      rw [loadRecord_of_eof heof] at h
      cases h
    | false =>
      refine ⟨rfl, ?_⟩
      rcases hrun : run L.read (readShape (header L s.stream)) (afterHeader L s.stream) with ⟨res, st⟩
      cases res with
      | error e =>
        rw [loadRecord_of_shape_error heof hrun] at h
        cases h
      | ok shape =>
        rw [loadRecord_of_shape reg heof hrun] at h
        cases ht : checkShape reg (header L s.stream) shape with
        | error e =>
          rw [ht] at h
          cases h
        | ok t =>
          rw [ht] at h
          simp only [Except.map, Except.ok.injEq, Option.some.injEq] at h
          exact ⟨shape, st, t, rfl, ht, h.symm⟩
  · rintro ⟨heof, shape, st, t, hrun, ht, rfl⟩
    rw [loadRecord_of_shape reg heof hrun, ht, Except.map]

/-- A round takes at least the header of a record. -/
theorem Round.length_lt (h : Round L reg s s') :
    (L.rest s'.stream).length < (L.rest s.stream).length := by
  obtain ⟨heof, shape, st, t, hrun, -, rfl⟩ := round_iff.1 h
  have hhead := le_length_of_eof heof
  have hsuffix := rest_run_suffix (L := L) (readShape (header L s.stream)) (afterHeader L s.stream)
  rw [hrun, rest_afterHeader] at hsuffix
  have hle := hsuffix.length_le
  rw [List.length_drop] at hle
  simp only [L.rest_read, List.length_drop] at hle ⊢
  omega

/-! ### The loop -/

/-- More fuel than there are bytes makes no difference. -/
theorem loadLoop_eq {n m : ℕ} (hn : (L.rest s.stream).length < n)
    (hm : (L.rest s.stream).length < m) : loadLoop L reg n s = loadLoop L reg m s := by
  induction n generalizing m s with
  | zero => exact absurd hn (Nat.not_lt_zero _)
  | succ n ih =>
    obtain ⟨m, rfl⟩ := Nat.exists_eq_succ_of_ne_zero (Nat.ne_zero_of_lt hm)
    rw [loadLoop, loadLoop]
    cases hround : loadRecord L reg s with
    | error e => rfl
    | ok next =>
      cases next with
      | none => rfl
      | some s' =>
        have hlt := Round.length_lt hround
        exact ih (by omega) (by omega)

/-- The loop goes on from the next state. -/
theorem Round.loadFrom_eq (h : Round L reg s s') : loadFrom L reg s = loadFrom L reg s' := by
  have hlt := h.length_lt
  rw [loadFrom, loadLoop, show loadRecord L reg s = .ok (some s') from h]
  exact loadLoop_eq hlt (Nat.lt_succ_self _)

theorem loadFrom_of_error {e : Stop} (h : loadRecord L reg s = .error e) :
    loadFrom L reg s = .error e := by
  rw [loadFrom, loadLoop, h]

theorem loadFrom_of_break (h : loadRecord L reg s = .ok none) :
    loadFrom L reg s =
      if s.loaded ≠ [] ∧ s.loaded.length ≠ reg.keys.length then .error .rejected
      else .ok s.loaded := by
  rw [loadFrom, loadLoop, h]

/-- What the loop returns, it returns from every state that it visits. -/
theorem Visited.loadFrom_eq {st : σ} (h : Visited L reg st s) :
    loadTensors L reg st = loadFrom L reg s := by
  induction h with
  | refl => rfl
  | tail _ hround ih => rw [ih, Round.loadFrom_eq hround]

/-- The loop comes to a state where it ends. -/
theorem exists_last (L : ModelLoader σ) (reg : Registry) (st : σ) :
    ∃ s, Visited L reg st s ∧ ∀ s', ¬ Round L reg s s' := by
  have hlast : ∀ s, Visited L reg st s → ∃ s, Visited L reg st s ∧ ∀ s', ¬ Round L reg s s' := by
    intro s
    induction hn : (L.rest s.stream).length using Nat.strong_induction_on generalizing s with
    | _ n ih =>
      intro hs
      by_cases hnext : ∃ s', Round L reg s s'
      · obtain ⟨s', hround⟩ := hnext
        exact ih _ (hn ▸ hround.length_lt) s' rfl (hs.tail hround)
      · exact ⟨s, hs, fun s' hround => hnext ⟨s', hround⟩⟩
  exact hlast ⟨st, []⟩ .refl

/-- **How the loop ends**: in a state that it visits, with an error or a break. -/
theorem loadTensors_cases (L : ModelLoader σ) (reg : Registry) (st : σ) :
    ∃ s, Visited L reg st s ∧
      ((∃ e, loadRecord L reg s = .error e ∧ loadTensors L reg st = .error e) ∨
        (loadRecord L reg s = .ok none ∧ loadTensors L reg st =
          if s.loaded ≠ [] ∧ s.loaded.length ≠ reg.keys.length then .error .rejected
          else .ok s.loaded)) := by
  obtain ⟨s, hs, hlast⟩ := exists_last L reg st
  refine ⟨s, hs, ?_⟩
  rw [hs.loadFrom_eq]
  cases hround : loadRecord L reg s with
  | error e => exact .inl ⟨e, rfl, loadFrom_of_error hround⟩
  | ok next =>
    cases next with
    | none => exact .inr ⟨rfl, loadFrom_of_break hround⟩
    | some s' => exact absurd hround (hlast s')

end Lemmas

end Loader

end WhisperCpp
