import WhisperCpp.Chatterbox.Npy

/-!
# The reference of S3Gen

`s3gen_synthesize_to_wav` is given a voice by overrides, by a directory with files, or by neither.
Then it takes the voice that is built in. A single override is enough for it to look for the files of
the others, though, and without a directory it looks for them in the root.

Numbers are words of four bytes, floats and integers alike.

## Main definitions

* `words`, `assignWords` — the numbers of an array
* `Override`, `Overrides` — what is given
* `selectReference` — what is taken

## Main results

* `selectReference_given`, `selectReference_builtin` — everything is given, or nothing
* `selects_iff` — when what is missing is taken from the model
-/

namespace WhisperCpp

namespace Chatterbox

/-! ### Arrays as numbers -/

/-- The numbers in bytes. -/
def words : List UInt8 → List UInt32
  | a :: b :: c :: d :: rest => .ofNat (littleEndian [a, b, c, d]) :: words rest
  | _ => []

/-- What happens instead of a result: an exception, or a read outside an array. -/
inductive LoadFault where
  | thrown (e : NpyError)
  | outside

/-- `assign` from `data.data()` on, with `n_elements` numbers. The dtype is not looked at. -/
def assignWords (a : NpyArray) : Except LoadFault (List UInt32) :=
  let bytes := 4 * nElements a.shape % 2 ^ 64
  if 2 ^ 63 ≤ bytes then .error (.thrown .lengthError)
  else if a.data.length < bytes then .error .outside
  else .ok (words (a.data.take bytes))

/-- The files that there are. -/
abbrev Files := String → Option (List UInt8)

/-- The numbers of a file, and its shape. -/
def loadWords (junk : Uninitialized) (files : Files) (path : String) :
    Except LoadFault (List UInt32 × List ℤ) :=
  match npyLoad junk path (files path) with
  | .error e => .error (.thrown e)
  | .ok a => (assignWords a).map fun numbers => (numbers, a.shape)

/-- `(int) shape[0]`. -/
def firstDim : List ℤ → Except LoadFault ℤ
  | [] => .error .outside
  | d :: _ => .ok (d.bmod (2 ^ 32))

/-! ### The selection -/

/-- A view, if its pointer is not null, and a vector. -/
structure Override where
  view : Option (List UInt32)
  vector : List UInt32

/-- What is given. The view comes first, unless it is empty. -/
def Override.given (o : Override) : Option (List UInt32) :=
  match o.view with
  | some (w :: ws) => some (w :: ws)
  | _ => if o.vector = [] then none else some o.vector

/-- The options for the three arrays. -/
structure Overrides where
  promptToken : Override
  embedding : Override
  promptFeat : Override
  promptFeatViewRows : ℤ
  promptFeatRowsOverride : ℤ

/-- The rows that are given with `prompt_feat`. -/
def Overrides.rows (o : Overrides) : ℤ :=
  match o.promptFeat.view with
  | some (_ :: _) => o.promptFeatViewRows
  | _ => o.promptFeatRowsOverride

/-- `pt_data`, `emb_data`, `pf_data` and `pf_rows`. -/
structure Conditioning where
  promptToken : List UInt32
  embedding : List UInt32
  promptFeat : List UInt32
  rows : ℤ

section Selection

variable (junk : Uninitialized) (files : Files) (refDir : String) (o : Overrides)

/-- An array from its override, or from its file. -/
def orFile (given : Option (List UInt32)) (path : String) : Except LoadFault (List UInt32) :=
  match given with
  | some ws => .ok ws
  | none => (loadWords junk files path).map Prod.fst

/-- `prompt_feat`, with its rows. -/
def promptFeatRows : Except LoadFault (List UInt32 × ℤ) :=
  match o.promptFeat.given with
  | some pf => .ok (pf, o.rows)
  | none => do
    let (pf, shape) ← loadWords junk files (refDir ++ "/prompt_feat.npy")
    return (pf, ← firstDim shape)

/-- The three arrays, one after another. -/
def loadReference : Except LoadFault Conditioning := do
  let pt ← orFile junk files o.promptToken.given (refDir ++ "/prompt_token.npy")
  let emb ← orFile junk files o.embedding.given (refDir ++ "/embedding.npy")
  let (pf, rows) ← promptFeatRows junk files refDir o
  return ⟨pt, emb, pf, rows⟩

/-- The arrays that `s3gen_synthesize_to_wav` works with. What is built in is taken if all three are
empty. -/
def selectReference (builtin : Conditioning) : Except LoadFault Conditioning := do
  let c ←
    if refDir = "" ∧ o.embedding.given = none ∧ o.promptFeat.given = none ∧
        o.promptToken.given = none then .ok ⟨[], [], [], 0⟩
    else loadReference junk files refDir o
  return if c.promptToken = [] ∧ c.embedding = [] ∧ c.promptFeat = [] then builtin else c

end Selection

/-- What is given, and for the rest what is built in. -/
def Overrides.withBuiltin (o : Overrides) (builtin : Conditioning) : Conditioning where
  promptToken := o.promptToken.given.getD builtin.promptToken
  embedding := o.embedding.given.getD builtin.embedding
  promptFeat := o.promptFeat.given.getD builtin.promptFeat
  rows := if o.promptFeat.given.isSome then o.rows else builtin.rows

/-! ### Without a directory -/

section NoDirectory

variable {junk : Uninitialized} {files : Files} {o : Overrides} {builtin : Conditioning}

theorem given_ne_nil {v : Override} {ws : List UInt32} (h : v.given = some ws) : ws ≠ [] := by
  rw [Override.given] at h
  split at h
  · simp [← Option.some.inj h]
  · split_ifs at h with hnil
    rwa [← Option.some.inj h]

/-- **Everything is given.** -/
theorem selectReference_given {pt emb pf : List UInt32} (refDir : String)
    (hpt : o.promptToken.given = some pt) (hemb : o.embedding.given = some emb)
    (hpf : o.promptFeat.given = some pf) :
    selectReference junk files refDir o builtin = .ok ⟨pt, emb, pf, o.rows⟩ := by
  have hne := given_ne_nil hpt
  simp [selectReference, loadReference, orFile, promptFeatRows, hpt, hemb, hpf, hne, bind,
    Except.bind, pure, Except.pure]

/-- **Nothing is given.** -/
theorem selectReference_builtin (hpt : o.promptToken.given = none)
    (hemb : o.embedding.given = none) (hpf : o.promptFeat.given = none) :
    selectReference junk files "" o builtin = .ok builtin := by
  simp [selectReference, hpt, hemb, hpf, bind, Except.bind, pure, Except.pure]

theorem loadWords_of_none {path : String} (h : files path = none) : loadWords junk files path =
    .error (.thrown (.runtimeError ("npy_load: cannot open " ++ path))) := by
  rw [loadWords, h]
  rfl

/-- **Something is missing**, and so are the files. -/
theorem loadReference_eq_error {refDir : String} (hfiles : ∀ path, files path = none)
    (h : o.promptToken.given = none ∨ o.embedding.given = none ∨ o.promptFeat.given = none) :
    ∃ e, loadReference junk files refDir o = .error (.thrown e) := by
  have hload : ∀ path, ∃ e, loadWords junk files path = .error (.thrown e) :=
    fun path => ⟨_, loadWords_of_none (hfiles path)⟩
  rw [loadReference]
  cases hpt : o.promptToken.given with
  | none =>
    obtain ⟨e, he⟩ := hload (refDir ++ "/prompt_token.npy")
    exact ⟨e, by rw [orFile, he]; rfl⟩
  | some pt =>
    cases hemb : o.embedding.given with
    | none =>
      obtain ⟨e, he⟩ := hload (refDir ++ "/embedding.npy")
      exact ⟨e, by rw [orFile, orFile, he]; rfl⟩
    | some emb =>
      rw [hpt, hemb] at h
      have hpf : o.promptFeat.given = none := by simpa using h
      obtain ⟨e, he⟩ := hload (refDir ++ "/prompt_feat.npy")
      exact ⟨e, by rw [orFile, orFile, promptFeatRows, hpf, he]; rfl⟩

end NoDirectory

/-- **What is missing is taken from the model** if nothing is given. If something is, then the rest is
not, whatever files there are, unless there is no rest. -/
theorem selects_iff (junk : Uninitialized) (o : Overrides) (builtin : Conditioning) :
    (∀ files, selectReference junk files "" o builtin = .ok (o.withBuiltin builtin)) ↔
      (o.promptToken.given.isSome ∧ o.embedding.given.isSome ∧ o.promptFeat.given.isSome) ∨
        (o.promptToken.given = none ∧ o.embedding.given = none ∧ o.promptFeat.given = none) := by
  constructor
  · intro h
    by_contra hmixed
    rw [not_or] at hmixed
    obtain ⟨hrest, hsome⟩ := hmixed
    have hmissing : o.promptToken.given = none ∨ o.embedding.given = none ∨
        o.promptFeat.given = none := by
      by_contra hall
      simp only [not_or, ← Option.isSome_iff_ne_none] at hall
      exact hrest hall
    obtain ⟨e, he⟩ := @loadReference_eq_error junk (fun _ => none) o "" (fun _ => rfl) hmissing
    have hselect := h fun _ => none
    rw [selectReference, if_neg fun hnone => hsome ⟨hnone.2.2.2, hnone.2.1, hnone.2.2.1⟩, he]
      at hselect
    cases hselect
  · rintro (⟨hpt, hemb, hpf⟩ | ⟨hpt, hemb, hpf⟩) files
    · obtain ⟨pt, hpt⟩ := Option.isSome_iff_exists.mp hpt
      obtain ⟨emb, hemb⟩ := Option.isSome_iff_exists.mp hemb
      obtain ⟨pf, hpf⟩ := Option.isSome_iff_exists.mp hpf
      rw [selectReference_given "" hpt hemb hpf]
      simp [Overrides.withBuiltin, hpt, hemb, hpf]
    · rw [selectReference_builtin hpt hemb hpf]
      simp [Overrides.withBuiltin, hpt, hemb, hpf]

/-- What the engine gives if there is no embedding for the voice: a token and a row. -/
def withoutEmbedding : Overrides where
  promptToken := ⟨some [7], []⟩
  embedding := ⟨none, []⟩
  promptFeat := ⟨some (List.replicate 80 0), []⟩
  promptFeatViewRows := 1
  promptFeatRowsOverride := 0

/-- Then it ends with an exception, for want of `/embedding.npy`. -/
theorem not_forall_selects : ¬ ∀ (junk : Uninitialized) (o : Overrides) (builtin : Conditioning)
    (files : Files), selectReference junk files "" o builtin = .ok (o.withBuiltin builtin) := by
  intro h
  have hselect := h ⟨.replicate 6 0, 0, 0, .replicate 2 0, .replicate 4 0⟩ withoutEmbedding
    ⟨[7], List.replicate 192 0, List.replicate 80 0, 1⟩ fun _ => none
  cases hselect

end Chatterbox

end WhisperCpp
