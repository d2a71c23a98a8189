import WhisperCpp.Library.Machine
import Mathlib.Data.List.Basic
import Mathlib.Tactic.SplitIfs

/-!
# Builds that may throw

A slot keeps what has been built for a key, in parts. A build is a list of steps: it releases what
is there, writes the key, and provides the parts one after the other; at some of its points it may
throw, and then what it has done so far stays. A later call with the key that is found in the slot
does not build.

## Main definitions

* `exec` — the steps of a build, up to the first that throws
* `throwsIn` — whether steps throw, from what fails alone
* `Script` — a build with what a lookup checks and what an evaluation needs
* `Script.Ok` — the key is written before the last point that may throw

## Main results

* `exec_snd` — a build throws exactly if one of its steps does
* `Script.Ok.sound_iff` — in a run all evaluations have what they need exactly if no build that
  throws past the key is followed by a call with the same key
-/

namespace StagedBuild

/-- A step of a build. -/
inductive Step (P : Type*)
  /-- A point that may throw. -/
  | point
  /-- Memory is reserved, which may throw unless it is already. -/
  | reserve
  | setKey
  /-- Some parts are released. -/
  | release (gone : P → Bool)
  /-- Everything is released, the key and the memory with it. -/
  | clear
  | provide (p : P)

/-- What is kept of a build. -/
structure Slot (K P : Type*) where
  key : Option K
  parts : List P
  reserved : Bool

variable {K P : Type*}

namespace Step

/-- A step throws, where it fails and whether there is memory. -/
def throws (fails reserved : Bool) : Step P → Bool
  | point => fails
  | reserve => fails && !reserved
  | _ => false

/-- Whether there is memory after a step. -/
def reserves (reserved : Bool) : Step P → Bool
  | reserve => true
  | clear => false
  | _ => reserved

/-- What a step does. -/
def apply (k : K) (s : Slot K P) : Step P → Slot K P
  | point => s
  | reserve => { s with reserved := true }
  | setKey => { s with key := some k }
  | release gone => { s with parts := s.parts.filter fun p => !gone p }
  | clear => ⟨none, [], false⟩
  | provide p => { s with parts := p :: s.parts }

/-- A step takes a part away. -/
def Drops (q : P) : Step P → Prop
  | release gone => gone q = true
  | clear => True
  | _ => False

theorem reserved_apply (k : K) (s : Slot K P) (st : Step P) :
    (st.apply k s).reserved = st.reserves s.reserved := by
  cases st <;> rfl

theorem mem_apply {k : K} {s : Slot K P} {st : Step P} {q : P} (h : ¬st.Drops q)
    (hq : q ∈ s.parts) : q ∈ (st.apply k s).parts := by
  cases st with
  | release gone => exact List.mem_filter.mpr ⟨hq, by simpa [Drops] using h⟩
  | clear => exact absurd trivial h
  | provide p => exact List.mem_cons_of_mem p hq
  | _ => exact hq

theorem notMem_apply {k : K} {s : Slot K P} {st : Step P} {q : P} (h : st ≠ .provide q)
    (hq : q ∉ s.parts) : q ∉ (st.apply k s).parts := by
  cases st with
  | release gone => exact fun hmem => hq (List.mem_filter.mp hmem).1
  | clear => exact List.not_mem_nil
  | provide p =>
    intro hmem
    obtain rfl | hmem := List.mem_cons.mp hmem
    · exact h rfl
    · exact hq hmem
  | _ => exact hq

theorem notMem_apply_of_drops {k : K} {s : Slot K P} {st : Step P} {q : P} (h : st.Drops q) :
    q ∉ (st.apply k s).parts := by
  cases st with
  | release gone =>
    intro hmem
    have hkept := (List.mem_filter.mp hmem).2
    rw [show gone q = true from h] at hkept
    cases hkept
  | clear => exact List.not_mem_nil
  | _ => exact absurd h id

theorem key_apply {k : K} {s : Slot K P} {st : Step P} (h : st ≠ .setKey) (hkey : s.key = none) :
    (st.apply k s).key = none := by
  cases st with
  | setKey => exact absurd rfl h
  | clear => rfl
  | _ => exact hkey

end Step

/-! ### Steps one after the other -/

/-- Steps up to the first that throws, and whether one does. `fails` says at which places a step
fails. -/
def exec (k : K) (fails : ℕ → Bool) : ℕ → List (Step P) → Slot K P → Slot K P × Bool
  | _, [], s => (s, false)
  | i, st :: rest, s =>
    if st.throws (fails i) s.reserved then (s, true)
    else exec k fails (i + 1) rest (st.apply k s)

/-- One of the steps throws. -/
def throwsIn (fails : ℕ → Bool) : ℕ → List (Step P) → Bool → Bool
  | _, [], _ => false
  | i, st :: rest, reserved =>
    st.throws (fails i) reserved || throwsIn fails (i + 1) rest (st.reserves reserved)

variable {k : K} {fails : ℕ → Bool} {i : ℕ} {l l₁ l₂ : List (Step P)} {s : Slot K P} {q : P}

theorem exec_snd (k : K) (fails : ℕ → Bool) (i : ℕ) (l : List (Step P)) (s : Slot K P) :
    (exec k fails i l s).2 = throwsIn fails i l s.reserved := by
  induction l generalizing i s with
  | nil => rfl
  | cons st rest ih =>
    rw [exec, throwsIn]
    cases hthrows : st.throws (fails i) s.reserved with
    | true => rfl
    | false =>
      rw [if_neg Bool.false_ne_true, ih, Step.reserved_apply]
      rfl

/-- What every step keeps. -/
theorem exec_invariant (Inv : Slot K P → Prop) (hstep : ∀ st ∈ l, ∀ s, Inv s → Inv (st.apply k s))
    (h : Inv s) : Inv (exec k fails i l s).1 := by
  induction l generalizing i s with
  | nil => exact h
  | cons st rest ih =>
    rw [exec]
    split_ifs
    · exact h
    · exact ih (fun st' hst' => hstep st' (List.mem_cons_of_mem st hst'))
        (hstep st List.mem_cons_self s h)

/-- What one of the steps gives, and the others keep. -/
theorem exec_gives (Inv : Slot K P → Prop) (hstep : ∀ st ∈ l, ∀ s, Inv s → Inv (st.apply k s))
    (hgives : ∃ st ∈ l, ∀ s, Inv (st.apply k s)) (h : throwsIn fails i l s.reserved = false) :
    Inv (exec k fails i l s).1 := by
  induction l generalizing i s with
  | nil =>
    obtain ⟨st, hst, -⟩ := hgives
    exact absurd hst List.not_mem_nil
  | cons st rest ih =>
    rw [throwsIn, Bool.or_eq_false_iff] at h
    obtain ⟨hthrows, hrest⟩ := h
    have hkeep : ∀ st' ∈ rest, ∀ s, Inv s → Inv (st'.apply k s) :=
      fun st' hst' => hstep st' (List.mem_cons_of_mem st hst')
    rw [exec, hthrows, if_neg Bool.false_ne_true]
    obtain ⟨st', hst', hgive⟩ := hgives
    obtain rfl | hmem := List.mem_cons.mp hst'
    · exact exec_invariant _ hkeep (hgive s)
    · refine ih hkeep ⟨st', hmem, hgive⟩ ?_
      rw [Step.reserved_apply]
      exact hrest

theorem exec_append (k : K) (fails : ℕ → Bool) (i : ℕ) (l₁ l₂ : List (Step P)) (s : Slot K P) :
    exec k fails i (l₁ ++ l₂) s =
      if throwsIn fails i l₁ s.reserved then ((exec k fails i l₁ s).1, true)
      else exec k fails (i + l₁.length) l₂ (exec k fails i l₁ s).1 := by
  induction l₁ generalizing i s with
  | nil => rfl
  | cons st rest ih =>
    rw [List.cons_append, exec, exec, throwsIn]
    cases hthrows : st.throws (fails i) s.reserved with
    | true => rfl
    | false =>
      rw [if_neg Bool.false_ne_true, if_neg Bool.false_ne_true, ih, Step.reserved_apply,
        Bool.false_or, List.length_cons, Nat.add_assoc i 1, Nat.add_comm 1]

/-- A part is gone if a step drops it and none provides it. -/
theorem notMem_exec_of_drops (hprovide : .provide q ∉ l) (hdrops : ∃ st ∈ l, st.Drops q)
    (h : throwsIn fails i l s.reserved = false) : q ∉ (exec k fails i l s).1.parts := by
  obtain ⟨st, hst, hdrop⟩ := hdrops
  refine exec_gives (fun s => q ∉ s.parts) (fun st' hst' s hs => ?_) ⟨st, hst, ?_⟩ h
  · exact Step.notMem_apply (fun heq => hprovide (heq ▸ hst')) hs
  · exact fun s => Step.notMem_apply_of_drops hdrop

/-- A part that is not there is not there, if no step provides it. -/
theorem notMem_exec (hprovide : .provide q ∉ l) (hq : q ∉ s.parts) :
    q ∉ (exec k fails i l s).1.parts :=
  exec_invariant (fun s => q ∉ s.parts)
    (fun _ hst _ => Step.notMem_apply fun heq => hprovide (heq ▸ hst)) hq

/-- A part is there if a step provides it and none drops it. -/
theorem mem_exec_of_provide (hdrops : ∀ st ∈ l, ¬st.Drops q) (hprovide : .provide q ∈ l)
    (h : throwsIn fails i l s.reserved = false) : q ∈ (exec k fails i l s).1.parts :=
  exec_gives (fun s => q ∈ s.parts) (fun st hst _ => Step.mem_apply (hdrops st hst))
    ⟨_, hprovide, fun _ => List.mem_cons_self⟩ h

/-- A part is provided, and not dropped after that. -/
def Provided (l : List (Step P)) (q : P) : Prop :=
  ∃ l₁ l₂, l = l₁ ++ .provide q :: l₂ ∧ ∀ st ∈ l₂, ¬st.Drops q

theorem Provided.mem_exec (hl : Provided l q) (h : throwsIn fails i l s.reserved = false) :
    q ∈ (exec k fails i l s).1.parts := by
  obtain ⟨l₁, l₂, rfl, hdrops⟩ := hl
  have hthrows := exec_snd k fails i (l₁ ++ .provide q :: l₂) s
  rw [h, exec_append] at hthrows
  rw [exec_append]
  split_ifs at hthrows ⊢ with hfirst
  rw [exec_snd] at hthrows
  refine mem_exec_of_provide (fun st hst => ?_) List.mem_cons_self hthrows
  obtain rfl | hst := List.mem_cons.mp hst
  · exact id
  · exact hdrops st hst

/-- Steps that do not throw for what fails. -/
theorem throwsIn_of_forall (h : ∀ st ∈ l, ∀ f r, st.throws f r = false) (r : Bool) :
    throwsIn fails i l r = false := by
  induction l generalizing i r with
  | nil => rfl
  | cons st rest ih =>
    rw [throwsIn, h st List.mem_cons_self, Bool.false_or]
    exact ih (fun st' hst' => h st' (List.mem_cons_of_mem st hst')) _

/-- Without points and without releasing the memory, steps throw only where there is none. -/
theorem reserved_of_throwsIn {reserved : Bool} (hpoint : .point ∉ l) (hclear : .clear ∉ l)
    (h : throwsIn fails i l reserved = true) : reserved = false := by
  induction l generalizing i reserved with
  | nil => cases h
  | cons st rest ih =>
    obtain ⟨hst, hrest⟩ := not_or.mp (mt List.mem_cons.mpr hpoint)
    obtain ⟨hst', hrest'⟩ := not_or.mp (mt List.mem_cons.mpr hclear)
    rw [throwsIn, Bool.or_eq_true] at h
    cases st with
    | point => exact absurd rfl hst
    | clear => exact absurd rfl hst'
    | reserve =>
      cases reserved with
      | false => rfl
      | true =>
        obtain hthrows | hthrows := h
        · rw [Step.throws, Bool.not_true, Bool.and_false] at hthrows
          cases hthrows
        · exact ih hrest hrest' hthrows
    | _ => exact ih hrest hrest' (h.resolve_left Bool.false_ne_true)

/-! ### Scripts -/

/-- A build, with what a lookup checks beside the key and what an evaluation needs. -/
structure Script (P : Type*) where
  guard : List P
  needs : List P
  /-- The steps before the key is written. -/
  opening : List (Step P)
  /-- The steps after it. -/
  body : List (Step P)

/-- What happens to a slot. -/
inductive Input (K : Type*)
  /-- A call, with the places at which a build fails. -/
  | call (k : K) (fails : ℕ → Bool)
  /-- The slot is emptied, but for its memory. -/
  | reset

/-- An empty slot. -/
def Slot.init : Slot K P := ⟨none, [], false⟩

namespace Script

variable (p : Script P)

/-- All steps of the build. -/
def steps : List (Step P) := p.opening ++ .setKey :: p.body

/-- The lookup finds the key. -/
def Hit (s : Slot K P) (k : K) : Prop := s.key = some k ∧ ∀ q ∈ p.guard, q ∈ s.parts

instance [DecidableEq K] [DecidableEq P] (s : Slot K P) (k : K) : Decidable (p.Hit s k) :=
  inferInstanceAs (Decidable (_ ∧ _))

/-- The point that throws, if any, comes after the key. -/
def FailsLate (s : Slot K P) (fails : ℕ → Bool) : Prop :=
  throwsIn fails 0 p.opening s.reserved = false ∧
    throwsIn fails (p.opening.length + 1) p.body s.reserved = true

/-- A build that throws past the key is not followed by a call with the same key. -/
def Fits (s : Slot K P) (x y : Input K) : Prop :=
  ∀ k fails fails', x = .call k fails → y = .call k fails' → ¬p.Hit s k → ¬p.FailsLate s fails

/-- The shape of the builds. Something that an evaluation needs comes only after the last point. -/
structure Ok : Prop where
  opening : .setKey ∉ p.opening
  body : ∀ st ∈ p.body, st = .point ∨ ∃ q, st = .provide q
  guard : ∀ q ∈ p.guard, Provided p.opening q
  needs : ∀ q ∈ p.needs, Provided p.opening q ∨ .provide q ∈ p.body
  last : ∃ q ∈ p.needs, (∃ st ∈ p.opening, st.Drops q) ∧ .provide q ∉ p.opening ∧
    ∃ mid fin, p.body = mid ++ fin ∧ .provide q ∉ mid ∧ .point ∉ fin
  early : (∃ rest, p.opening = .clear :: rest) ∨
    .point ∉ p.opening ∧ .clear ∉ p.opening ∧ .reserve ∈ p.opening

/-- A slot that keeps its memory has had it since before its key. -/
def Valid (s : Slot K P) : Prop := .clear ∉ p.opening → s.reserved = false → s.key = none

namespace Ok

variable {p : Script P} (h : p.Ok)
include h

theorem drops_body {st : Step P} (hst : st ∈ p.body) (q : P) : ¬st.Drops q := by
  obtain rfl | ⟨q', rfl⟩ := h.body st hst <;> exact id

/-- The steps of the body do not ask for memory. -/
theorem throwsIn_body (r r' : Bool) : throwsIn fails i p.body r = throwsIn fails i p.body r' := by
  have hbody := h.body
  generalize p.body = l at hbody
  induction l generalizing i r r' with
  | nil => rfl
  | cons st rest ih =>
    have hrest := ih (i := i + 1) (st.reserves r) (st.reserves r')
      fun st' hst' => hbody st' (List.mem_cons_of_mem st hst')
    obtain rfl | ⟨q, rfl⟩ := hbody st List.mem_cons_self
    all_goals
      rw [throwsIn, throwsIn, hrest]
      rfl

/-- The steps after the key keep it. -/
theorem key_body (hkey : s.key = some k) : (exec k fails i p.body s).1.key = some k := by
  refine exec_invariant (fun s => s.key = some k) (fun st hst s hs => ?_) hkey
  obtain rfl | ⟨q, rfl⟩ := h.body st hst <;> exact hs

/-- The steps after the key keep the memory. -/
theorem reserved_body : (exec k fails i p.body s).1.reserved = s.reserved := by
  refine exec_invariant (fun s' => s'.reserved = s.reserved) (fun st hst s hs => ?_) rfl
  obtain rfl | ⟨q, rfl⟩ := h.body st hst <;> exact hs

omit h in
theorem exec_steps (k : K) (fails : ℕ → Bool) (s : Slot K P) :
    exec k fails 0 p.steps s =
      if throwsIn fails 0 p.opening s.reserved then ((exec k fails 0 p.opening s).1, true)
      else exec k fails (p.opening.length + 1) p.body
        { (exec k fails 0 p.opening s).1 with key := some k } := by
  rw [steps, exec_append, Nat.zero_add]
  rfl

/-- A build that throws before its key leaves none. -/
theorem early_key (hvalid : p.Valid s) (hearly : throwsIn fails 0 p.opening s.reserved = true) :
    (exec k fails 0 p.opening s).1.key = none := by
  have hkeep : ∀ st ∈ p.opening, ∀ s : Slot K P, s.key = none → (st.apply k s).key = none :=
    fun st hst s hs => Step.key_apply (fun heq => h.opening (heq ▸ hst)) hs
  obtain ⟨rest, hopening⟩ | ⟨hpoint, hclear, -⟩ := h.early
  · rw [hopening] at hkeep ⊢
    exact exec_invariant (s := ⟨none, [], false⟩) _
      (fun st hst => hkeep st (List.mem_cons_of_mem _ hst)) rfl
  · exact exec_invariant _ hkeep (hvalid hclear (reserved_of_throwsIn hpoint hclear hearly))

/-- A build that throws past its key leaves it, without something that an evaluation needs. -/
theorem late_build (hlate : p.FailsLate s fails) :
    p.Hit (exec k fails 0 p.steps s).1 k ∧ (exec k fails 0 p.steps s).2 = true ∧
      ∃ q ∈ p.needs, q ∉ (exec k fails 0 p.steps s).1.parts := by
  obtain ⟨hopening, hbody⟩ := hlate
  rw [exec_steps, hopening, if_neg Bool.false_ne_true]
  generalize hs₁ : (exec k fails 0 p.opening s).1 = s₁
  have hthrows : throwsIn fails (p.opening.length + 1) p.body s₁.reserved = true := by
    rw [h.throwsIn_body _ s.reserved]
    exact hbody
  refine ⟨⟨h.key_body rfl, fun q hq => ?_⟩, ?_, ?_⟩
  · have hguard : q ∈ s₁.parts := hs₁ ▸ (h.guard q hq).mem_exec hopening
    exact exec_invariant (fun s => q ∈ s.parts)
      (fun st hst _ => Step.mem_apply (h.drops_body hst q)) hguard
  · rw [exec_snd]
    exact hthrows
  · obtain ⟨q, hq, hdrops, hprovide, mid, fin, hsplit, hmid, hfin⟩ := h.last
    have hgone : q ∉ s₁.parts := hs₁ ▸ notMem_exec_of_drops hprovide hdrops hopening
    refine ⟨q, hq, ?_⟩
    have hfinThrows : ∀ st ∈ fin, ∀ f r, st.throws f r = false := by
      intro st hst f r
      obtain rfl | ⟨q', rfl⟩ := h.body st (hsplit ▸ List.mem_append_right mid hst)
      · exact absurd hst hfin
      · rfl
    have hsnd := exec_snd k fails (p.opening.length + 1) p.body { s₁ with key := some k }
    rw [hthrows, hsplit, exec_append] at hsnd
    rw [hsplit, exec_append]
    split_ifs at hsnd ⊢
    · exact notMem_exec hmid hgone
    · rw [exec_snd, throwsIn_of_forall hfinThrows] at hsnd
      cases hsnd

/-- A build that does not throw leaves the key with all parts. -/
theorem whole_build (hopening : throwsIn fails 0 p.opening s.reserved = false)
    (hlate : ¬p.FailsLate s fails) :
    (exec k fails 0 p.steps s).1.key = some k ∧ (exec k fails 0 p.steps s).2 = false ∧
      ∀ q ∈ p.needs, q ∈ (exec k fails 0 p.steps s).1.parts := by
  rw [exec_steps, hopening, if_neg Bool.false_ne_true]
  generalize hs₁ : (exec k fails 0 p.opening s).1 = s₁
  have hthrows : throwsIn fails (p.opening.length + 1) p.body s₁.reserved = false := by
    rw [h.throwsIn_body _ s.reserved, ← Bool.not_eq_true]
    exact fun hbody => hlate ⟨hopening, hbody⟩
  refine ⟨h.key_body rfl, ?_, fun q hq => ?_⟩
  · rw [exec_snd]
    exact hthrows
  · obtain hprovided | hprovide := h.needs q hq
    · have hpart : q ∈ s₁.parts := hs₁ ▸ hprovided.mem_exec hopening
      exact exec_invariant (fun s => q ∈ s.parts)
        (fun st hst _ => Step.mem_apply (h.drops_body hst q)) hpart
    · exact mem_exec_of_provide (fun st hst => h.drops_body hst q) hprovide hthrows

/-- Where the memory is kept, a build reserves it before its key. -/
theorem reserved_opening (hclear : .clear ∉ p.opening)
    (hopening : throwsIn fails 0 p.opening s.reserved = false) :
    (exec k fails 0 p.opening s).1.reserved = true := by
  obtain ⟨rest, heq⟩ | ⟨-, -, hreserve⟩ := h.early
  · exact absurd (heq ▸ List.mem_cons_self) hclear
  · refine exec_gives (fun s => s.reserved = true) (fun st hst s hs => ?_)
      ⟨_, hreserve, fun _ => rfl⟩ hopening
    rw [Step.reserved_apply, hs]
    cases st with
    | clear => exact absurd hst hclear
    | _ => rfl

theorem valid_exec (hvalid : p.Valid s) : p.Valid (exec k fails 0 p.steps s).1 := by
  rw [exec_steps]
  split_ifs with hopening
  · exact fun _ _ => h.early_key hvalid hopening
  · intro hclear hreserved
    rw [h.reserved_body] at hreserved
    have htrue := h.reserved_opening (k := k) hclear (Bool.eq_false_iff.mpr hopening)
    change (exec k fails 0 p.opening s).1.reserved = false at hreserved
    rw [htrue] at hreserved
    cases hreserved

end Ok

/-! ### Runs -/

variable [DecidableEq K] [DecidableEq P]

/-- The slot after a call, and whether it throws. -/
def call (s : Slot K P) (k : K) (fails : ℕ → Bool) : Slot K P × Bool :=
  if p.Hit s k then (s, false) else exec k fails 0 p.steps s

def step : Input K → Slot K P → Slot K P
  | .call k fails, s => (p.call s k fails).1
  | .reset, s => ⟨none, [], s.reserved⟩

/-- A call throws, or has all the parts that its evaluation needs. -/
def Sound (s : Slot K P) : Input K → Prop
  | .call k fails => (p.call s k fails).2 = true ∨ ∀ q ∈ p.needs, q ∈ (p.call s k fails).1.parts
  | .reset => True

theorem call_hit {p : Script P} {s : Slot K P} {k : K} (hhit : p.Hit s k) (fails : ℕ → Bool) :
    p.call s k fails = (s, false) :=
  if_pos hhit

/-- What is known in a run: unless the next input is not a call with the key, everything
is there. -/
structure Known (s : Slot K P) (next : Input K) : Prop where
  valid : p.Valid s
  parts : ∀ k fails, s.key = some k → next = .call k fails → ∀ q ∈ p.needs, q ∈ s.parts

namespace Ok

variable {p : Script P} (h : p.Ok)
include h

/-- What is known after a step that fits. -/
theorem known_step {s : Slot K P} {x y : Input K} (hknown : p.Known s x) (hfits : p.Fits s x y) :
    p.Known (p.step x s) y := by
  cases x with
  | reset => exact ⟨fun _ _ => rfl, nofun⟩
  | call k fails =>
    rw [step, call]
    split_ifs with hhit
    · refine ⟨hknown.valid, fun k' _ hkey _ => ?_⟩
      obtain rfl := Option.some.inj (hhit.1.symm.trans hkey)
      exact hknown.parts _ fails hkey rfl
    · refine ⟨h.valid_exec hknown.valid, fun k' fails' hkey hy => ?_⟩
      cases hopening : throwsIn fails 0 p.opening s.reserved with
      | true =>
        rw [exec_steps, if_pos hopening, h.early_key hknown.valid hopening] at hkey
        cases hkey
      | false =>
        by_cases hlate : p.FailsLate s fails
        · obtain rfl := Option.some.inj ((h.late_build hlate).1.1.symm.trans hkey)
          exact absurd hlate (hfits _ fails fails' rfl hy hhit)
        · exact (h.whole_build hopening hlate).2.2

/-- A call of which this is known is sound. -/
theorem sound {s : Slot K P} {x : Input K} (hknown : p.Known s x) : p.Sound s x := by
  cases x with
  | reset => trivial
  | call k fails =>
    rw [Sound, call]
    split_ifs with hhit
    · exact .inr (hknown.parts k fails hhit.1 rfl)
    · cases hopening : throwsIn fails 0 p.opening s.reserved with
      | true =>
        left
        rw [exec_steps, if_pos hopening]
      | false =>
        by_cases hlate : p.FailsLate s fails
        · exact .inl (h.late_build hlate).2.1
        · exact .inr (h.whole_build hopening hlate).2.2

/-- A build that throws past its key is not followed by a sound call with the same key. -/
theorem fits_of_sound {s : Slot K P} {x y : Input K} (hsound : p.Sound (p.step x s) y) :
    p.Fits s x y := by
  rintro k fails fails' rfl rfl hmiss hlate
  obtain ⟨hhit, -, q, hq, hgone⟩ := h.late_build (k := k) hlate
  have hstep : p.step (.call k fails) s = (exec k fails 0 p.steps s).1 := by
    rw [step, call, if_neg hmiss]
  rw [hstep, Sound, call_hit hhit] at hsound
  obtain hthrew | hparts := hsound
  · cases hthrew
  · exact hgone (hparts q hq)

/-- In a run, all calls throw or have what their evaluations need exactly if no build that throws
past its key is followed by a call with the same key. -/
theorem sound_iff (xs : ℕ → Input K) :
    (∀ n, p.Sound (Machine.run p.step xs .init n) (xs n)) ↔
      ∀ n, p.Fits (Machine.run p.step xs .init n) (xs n) (xs (n + 1)) := by
  constructor
  · intro hsound n
    exact h.fits_of_sound (hsound (n + 1))
  · intro hfits n
    refine h.sound ?_
    induction n with
    | zero => exact ⟨fun _ _ => rfl, nofun⟩
    | succ n ih => exact h.known_step ih (hfits n)

end Ok

end Script

end StagedBuild
