import WhisperCpp.Grammar.Denotation
import WhisperCpp.Library.Fuel

/-!
# The automaton recognises the language of the grammar

The stacks that `whisper_grammar_init` and `whisper_grammar_accept` compute represent, through
`form`, exactly the sentential forms a left-to-right reader of the denoted grammar can be left
with. The set representation makes the order of the stacks and repeated stacks irrelevant.

## Main definitions

* `NoLeftRecursion` — no rule comes back to its own front
* `Represents` — a list of stacks stands for a set of sentential forms

## Main results

* `advanceStack_returns`, `accept_returns`, `feed_returns`, `init_returns` — what each function
  computes, and that it terminates, without left recursion
* `mem_run_iff`, `run_recognises` — acceptance of words, and of their prefixes
-/

namespace WhisperCpp

namespace Grammar

open LeftmostGrammar Fuel

variable {rules : List (List Element)} {n : ℕ}

/-- No rule is left recursive: directly, indirectly, or behind a nullable prefix. -/
def NoLeftRecursion (rules : List (List Element)) : Prop := ∀ n, ¬ LeftRecursive (denote rules) n

/-- The stacks stand for the forms of a set, and hold positions at symbols only. -/
structure Represents (n : ℕ) (stackVec : List Stack) (F : Set (Form UInt32 ℕ)) : Prop where
  placed : ∀ s ∈ stackVec, PlacedStack n s
  mem_iff : ∀ g, g ∈ F ↔ ∃ s ∈ stackVec, form s = g

theorem Represents.form_mem {stackVec : List Stack} {F : Set (Form UInt32 ℕ)}
    (h : Represents n stackVec F) {s : Stack} (hs : s ∈ stackVec) : form s ∈ F :=
  (h.mem_iff _).mpr ⟨s, hs, rfl⟩

/-- A represented set has the empty form iff the empty stack is there. -/
theorem Represents.nil_mem_iff {stackVec : List Stack} {F : Set (Form UInt32 ℕ)}
    (h : Represents n stackVec F) : [] ∈ stackVec ↔ [] ∈ F := by
  rw [h.mem_iff]
  constructor
  · intro hs
    exact ⟨[], hs, rfl⟩
  · rintro ⟨s, hs, hform⟩
    rwa [(form_eq_nil_iff (h.placed s hs)).mp hform] at hs

theorem Represents.ne_nil_iff {stackVec : List Stack} {F : Set (Form UInt32 ℕ)}
    (h : Represents n stackVec F) : stackVec ≠ [] ↔ F.Nonempty := by
  constructor
  · intro hne
    obtain ⟨s, hs⟩ := List.exists_mem_of_ne_nil _ hne
    exact ⟨_, h.form_mem hs⟩
  · rintro ⟨g, hg⟩
    obtain ⟨s, hs, -⟩ := (h.mem_iff g).mp hg
    exact List.ne_nil_of_mem hs

/-! ### Expanding a stack -/

theorem denote_eq_nil_of_le {m : ℕ} (h : rules.length ≤ m) : denote rules m = [] := by
  simp [denote, List.getElem?_eq_none h]

theorem lt_length_of_leftCorner {m k : ℕ} (h : LeftCorner (denote rules) m k) :
    m < rules.length := by
  by_contra hm
  obtain ⟨pre, post, hmem, -⟩ := h
  rw [denote_eq_nil_of_le (Nat.le_of_not_lt hm)] at hmem
  cases hmem

/-- Without left recursion every sentential form is rewritten in finitely many steps. -/
theorem NoLeftRecursion.acc (h : NoLeftRecursion rules) (f : Form UInt32 ℕ) :
    Acc (fun g f => Expand (denote rules) f g) f :=
  acc_expand (wellFounded_leftCorner (Set.finite_Iio rules.length)
    (fun _ _ hmn => lt_length_of_leftCorner hmn) h) f

/-- The forms behind a reference are those behind its alternates, one start of an alternate at a
time. -/
theorem mem_alternates_iff {rule : List Element} (hrule : AtSymbol n rule) {alt : Form UInt32 ℕ} :
    alt ∈ alternates rule ↔ ∃ p ∈ rule :: laterStarts rule, (decode p).seq = alt := by
  rw [alternates, ← map_decode_laterStarts hrule, ← List.map_cons (f := fun p => (decode p).seq),
    List.mem_map]

theorem atSymbol_of_mem_starts {rule p : Pos} (hrule : AtSymbol n rule)
    (hp : p ∈ rule :: laterStarts rule) : AtSymbol n p := by
  rcases List.mem_cons.mp hp with rfl | hp
  · exact hrule
  · exact atSymbol_of_mem_laterStarts hrule hp

/-- One unfolding of `advanceStack` at a reference, as a loop over the starts of the alternates. -/
theorem advanceStack_ruleRef {e : Element} {next : Pos} {below : Stack} {rule : List Element}
    (he : e.type = .ruleRef) (hrule : rules[e.value]? = some rule) (hat : AtSymbol n rule)
    (fuel : ℕ) (newStacks : List Stack) :
    advanceStack rules (fuel + 1) ((e :: next) :: below) newStacks =
      (rule :: laterStarts rule).foldlM (fun newStacks subpos => do
        let newStack ← pushUnlessEnd next below
        let newStack ← pushUnlessEnd subpos newStack
        advanceStack rules fuel newStack newStacks) newStacks := by
  rw [advanceStack]
  simp only [he, hrule]
  exact forAlternates_eq hat true newStacks

/-- Both pushes of an unfolding succeed, and give the form with the reference rewritten. -/
theorem exists_unfolded {next subpos : Pos} {below : Stack} (hnext : AtSymbol n next)
    (hsub : AtSymbol n subpos) (hbelow : PlacedStack n below) :
    ∃ stack, PlacedStack n stack ∧
      form stack = (decode subpos).seq ++ ((decode next).seq ++ form below) ∧
      ∀ {β : Type} (k : Stack → Except Fault β), (do
        let newStack ← pushUnlessEnd next below
        let newStack ← pushUnlessEnd subpos newStack
        k newStack) = k stack := by
  obtain ⟨s₁, h₁, hp₁, hf₁⟩ := pushUnlessEnd_eq hnext hbelow
  obtain ⟨s₂, h₂, hp₂, hf₂⟩ := pushUnlessEnd_eq hsub hp₁
  refine ⟨s₂, hp₂, by rw [hf₂, hf₁], fun k => ?_⟩
  rw [h₁]
  change (pushUnlessEnd subpos s₁ >>= k) = _
  rw [h₂]
  rfl

/-- Rewriting the form terminates, and never meets a rule that does not exist. -/
def Expandable (rules : List (List Element)) (f : Form UInt32 ℕ) : Prop :=
  Acc (fun g f => Expand (denote rules) f g) f ∧ Safe (denote rules) (· < rules.length) f

theorem expandable_of_ready {f : Form UInt32 ℕ} (hf : Ready f) : Expandable rules f := by
  refine ⟨⟨_, fun g hg => absurd hg (not_expand_of_ready hf)⟩, fun m rest hr => ?_⟩
  rcases Relation.ReflTransGen.cases_head hr with rfl | ⟨g, hg, -⟩
  · exact hf.elim
  · exact absurd hg (not_expand_of_ready hf)

/-- **`whisper_grammar_advance_stack`** computes the frontier of its stack, and terminates, when
its form is expandable. -/
theorem advanceStack_returns (hwf : WellFormedIn n rules) {stack : Stack}
    (hstack : PlacedStack n stack) (hexp : Expandable rules (form stack)) :
    ∃ out, Represents n out {g | Frontier (denote rules) (form stack) g} ∧
      ∀ acc, Returns (fun fuel => advanceStack rules fuel stack acc) (acc ++ out) := by
  obtain ⟨hacc, hsafe⟩ := hexp
  generalize hf : form stack = f at hacc
  induction hacc generalizing stack with
  | intro f _ ih =>
  subst hf
  -- a stack with nothing or a class on top is returned as it is
  have hready : ∀ hr : Ready (form stack),
      (∀ fuel acc, advanceStack rules (fuel + 1) stack acc = .ok (acc ++ [stack])) →
      ∃ out, Represents n out {g | Frontier (denote rules) (form stack) g} ∧
        ∀ acc, Returns (fun fuel => advanceStack rules fuel stack acc) (acc ++ out) := by
    intro hr heq
    refine ⟨[stack], ⟨by simpa using hstack, fun g => ?_⟩, fun acc => ?_⟩
    · simp [frontier_of_ready hr, eq_comm]
    · exact (returns_ok _).succ fun fuel => heq fuel acc
  cases stack with
  | nil => exact hready ready_nil fun _ _ => rfl
  | cons pos below =>
  obtain ⟨hpos, hbelow⟩ := placedStack_cons.mp hstack
  obtain ⟨e, next, rfl, he⟩ := hpos.cases
  rcases he with he | he
  · -- a reference: every alternate of its rule, one call down
    have hnext := (hpos.1.ruleRef he).2
    have hform : form ((e :: next) :: below)
        = .ref e.value :: ((decode next).seq ++ form below) := by
      rw [form_cons, decode_ruleRef he, List.cons_append]
    have hlt : e.value < rules.length := hsafe e.value _ (by rw [hform])
    have hrule : rules[e.value]? = some rules[e.value] := List.getElem?_eq_getElem hlt
    have hat : AtSymbol n rules[e.value] := (hwf _ (List.getElem_mem hlt)).atSymbol
    have hmem : ∀ {alt}, alt ∈ denote rules e.value ↔
        ∃ p ∈ rules[e.value] :: laterStarts rules[e.value], (decode p).seq = alt := by
      intro alt
      rw [denote_of_getElem? hrule, mem_alternates_iff hat]
    obtain ⟨out, hsub, hsup, hret⟩ := returns_foldlM_append
      (f := fun fuel newStacks subpos => do
        let newStack ← pushUnlessEnd next below
        let newStack ← pushUnlessEnd subpos newStack
        advanceStack rules fuel newStack newStacks)
      (P := fun subpos out => Represents n out
        {g | Frontier (denote rules) ((decode subpos).seq ++ ((decode next).seq ++ form below)) g})
      (rules[e.value] :: laterStarts rules[e.value]) fun subpos hsubpos => by
        obtain ⟨s, hs, hfs, hdo⟩ := exists_unfolded hnext (atSymbol_of_mem_starts hat hsubpos) hbelow
        have hstep : Expand (denote rules) (form ((e :: next) :: below)) (form s) := by
          rw [hform, hfs]
          exact expand_ref (hmem.mpr ⟨subpos, hsubpos, rfl⟩)
        obtain ⟨out, hrep, hret⟩ := ih (form s) hstep hs (hsafe.expand hstep) rfl
        rw [hfs] at hrep
        exact ⟨out, hrep, fun acc => (hret acc).congr fun fuel => hdo _⟩
    refine ⟨out, ⟨fun s hs => ?_, fun g => ?_⟩, fun acc => ?_⟩
    · obtain ⟨_, _, o, ho, hso⟩ := hsub s hs
      exact ho.placed s hso
    · rw [hform]
      refine frontier_ref_iff.trans ?_
      constructor
      · rintro ⟨alt, halt, hg⟩
        obtain ⟨p, hp, rfl⟩ := hmem.mp halt
        obtain ⟨o, ho, hoo⟩ := hsup p hp
        obtain ⟨s, hs, hsg⟩ := (ho.mem_iff g).mp hg
        exact ⟨s, hoo s hs, hsg⟩
      · rintro ⟨s, hs, rfl⟩
        obtain ⟨p, hp, o, ho, hso⟩ := hsub s hs
        exact ⟨_, hmem.mpr ⟨p, hp, rfl⟩, ho.form_mem hso⟩
    · exact (hret acc).succ fun fuel => advanceStack_ruleRef he hrule hat fuel acc
  · -- a class
    obtain ⟨p, hseq, -⟩ := matchChar_eq hpos.1 he
    refine hready (by rw [form_cons, hseq]; exact ready_cls) fun fuel acc => ?_
    rw [advanceStack]
    rcases he with he | he <;> simp only [he]

/-- Conversely, when `whisper_grammar_advance_stack` returns, its form is expandable. -/
theorem expandable_of_advanceStack_ok (hwf : WellFormedIn n rules) {fuel : ℕ} {stack : Stack}
    (hstack : PlacedStack n stack) {acc out : List Stack}
    (hok : advanceStack rules fuel stack acc = .ok out) : Expandable rules (form stack) := by
  induction fuel generalizing stack acc out with
  | zero => cases hok
  | succ fuel ih =>
  cases stack with
  | nil => exact expandable_of_ready ready_nil
  | cons pos below =>
  obtain ⟨hpos, hbelow⟩ := placedStack_cons.mp hstack
  obtain ⟨e, next, rfl, he⟩ := hpos.cases
  rcases he with he | he
  · have hnext := (hpos.1.ruleRef he).2
    cases hrule : rules[e.value]? with
    | none =>
      rw [advanceStack] at hok
      simp only [he, hrule] at hok
      cases hok
    | some rule =>
    have hat : AtSymbol n rule := (hwf _ (List.mem_of_getElem? hrule)).atSymbol
    rw [advanceStack_ruleRef he hrule hat] at hok
    rw [form_cons, decode_ruleRef he, List.cons_append]
    have hstep : ∀ g, Expand (denote rules) (.ref e.value :: ((decode next).seq ++ form below)) g →
        Expandable rules g := by
      rintro g ⟨v, rest, heq, alt, halt, rfl⟩
      cases heq
      rw [denote_of_getElem? hrule, mem_alternates_iff hat] at halt
      obtain ⟨subpos, hsubpos, rfl⟩ := halt
      obtain ⟨s, hs, hfs, hdo⟩ := exists_unfolded hnext (atSymbol_of_mem_starts hat hsubpos) hbelow
      obtain ⟨acc', out', hfold⟩ := exists_ok_of_foldlM_ok hok subpos hsubpos
      rw [hdo] at hfold
      have := ih hs hfold
      rwa [hfs] at this
    refine ⟨⟨_, fun g hg => (hstep g hg).1⟩, fun m rest hr => ?_⟩
    rcases Relation.ReflTransGen.cases_head hr with heq | ⟨g, hg, hr⟩
    · cases heq
      exact (List.getElem?_eq_some_iff.mp hrule).1
    · exact (hstep g hg).2 m rest hr
  · obtain ⟨p, hseq, -⟩ := matchChar_eq hpos.1 he
    exact expandable_of_ready (by rw [form_cons, hseq]; exact ready_cls)

/-! ### Reading code points -/

/-- The forms left when all of `F` read one more terminal. -/
def readOne (G : LeftmostGrammar.Grammar UInt32 ℕ) (F : Set (Form UInt32 ℕ)) (chr : UInt32) :
    Set (Form UInt32 ℕ) :=
  {g | ∃ p rest, .cls p :: rest ∈ F ∧ p chr = true ∧ Frontier G rest g}

/-- The forms left when all of `F` read a word. -/
def readAll (G : LeftmostGrammar.Grammar UInt32 ℕ) (F : Set (Form UInt32 ℕ)) (chrs : List UInt32) :
    Set (Form UInt32 ℕ) :=
  {g | ∃ f ∈ F, Residual G f chrs g}

/-- Reading a stack with a class on top: what `acceptStack` goes on with. -/
theorem exists_read (rules : List (List Element)) {pos : Pos} {below : Stack} (hpos : Placed n pos) (hbelow : PlacedStack n below)
    (hready : Ready (form (pos :: below))) :
    ∃ p stack, form (pos :: below) = .cls p :: form stack ∧ PlacedStack n stack ∧
      (∀ chr, ∃ after, matchChar pos chr = .ok (p chr, after) ∧
        pushUnlessEnd after below = .ok stack) ∧
      ∀ fuel chr acc, acceptStack rules fuel chr acc (pos :: below) =
        if p chr then advanceStack rules fuel stack acc else .ok acc := by
  obtain ⟨e, rest, rfl, he⟩ := hpos.cases
  rcases he with he | he
  · rw [form_cons, decode_ruleRef he] at hready
    exact hready.elim
  · obtain ⟨p, hseq, hmatch⟩ := matchChar_eq hpos.1 he
    obtain ⟨s, hpush, hps, hfs⟩ := pushUnlessEnd_eq
      (hpos.1.skipClass (by rcases he with he | he <;> rw [he] <;> nofun)) hbelow
    refine ⟨p, s, by rw [form_cons, hseq, hfs, List.cons_append], hps,
      fun chr => ⟨_, hmatch chr, hpush⟩, fun fuel chr acc => ?_⟩
    rw [acceptStack, hmatch]
    change (if p chr then pushUnlessEnd _ below >>= _ else _) = _
    rw [hpush]
    rfl

theorem feed_append_singleton (fuel : ℕ) (stackVec : List Stack) (chrs : List UInt32)
    (chr : UInt32) : feed rules fuel stackVec (chrs ++ [chr]) =
      feed rules fuel stackVec chrs >>= fun stackVec => accept rules fuel stackVec chr := by
  rw [feed, List.foldlM_append]
  simp only [List.foldlM_cons, List.foldlM_nil]
  congr 1
  funext s
  exact bind_pure _

/-- One stack reads one code point. -/
theorem acceptStack_returns (hwf : WellFormedIn n rules) {stack : Stack}
    (hstack : PlacedStack n stack) (hready : Ready (form stack)) (chr : UInt32)
    (hexp : ∀ p rest, form stack = .cls p :: rest → p chr = true → Expandable rules rest) :
    ∃ out, Represents n out (readOne (denote rules) {form stack} chr) ∧
      ∀ acc, Returns (fun fuel => acceptStack rules fuel chr acc stack) (acc ++ out) := by
  cases stack with
  | nil =>
    refine ⟨[], ⟨by simp, fun g => ?_⟩, fun acc => ?_⟩
    · simp [readOne]
    · rw [List.append_nil]; exact returns_ok acc
  | cons pos below =>
  obtain ⟨hpos, hbelow⟩ := placedStack_cons.mp hstack
  obtain ⟨p, s, hform, hs, -, hread⟩ := exists_read rules hpos hbelow hready
  cases hp : p chr with
  | true =>
    obtain ⟨out, hrep, hret⟩ := advanceStack_returns hwf hs (hexp p _ hform hp)
    refine ⟨out, ⟨hrep.placed, fun g => ?_⟩, fun acc => (hret acc).congr fun fuel => ?_⟩
    · rw [← hrep.mem_iff]
      constructor
      · rintro ⟨q, rest, hq, -, hg⟩
        rw [Set.mem_singleton_iff, hform] at hq
        cases hq
        exact hg
      · intro hg
        exact ⟨p, form s, hform.symm, hp, hg⟩
    · rw [hread, if_pos hp]
  | false =>
    refine ⟨[], ⟨by simp, fun g => ?_⟩, fun acc => ?_⟩
    · constructor
      · rintro ⟨q, rest, hq, hqc, -⟩
        rw [Set.mem_singleton_iff, hform] at hq
        cases hq
        rw [hp] at hqc
        cases hqc
      · simp
    · rw [List.append_nil]
      exact (returns_ok acc).congr fun fuel => by rw [hread, hp]; rfl

/-- **`whisper_grammar_accept`** lets every represented form read the code point. -/
theorem accept_returns (hwf : WellFormedIn n rules) {stackVec : List Stack}
    {F : Set (Form UInt32 ℕ)} (hrep : Represents n stackVec F) (hready : ∀ f ∈ F, Ready f)
    (chr : UInt32)
    (hexp : ∀ p rest, .cls p :: rest ∈ F → p chr = true → Expandable rules rest) :
    ∃ out, Represents n out (readOne (denote rules) F chr) ∧
      Returns (fun fuel => accept rules fuel stackVec chr) out := by
  obtain ⟨out, hsub, hsup, hret⟩ := returns_foldlM_append
    (f := fun fuel acc stack => acceptStack rules fuel chr acc stack)
    (P := fun stack out => Represents n out (readOne (denote rules) {form stack} chr))
    stackVec fun stack hstack =>
      acceptStack_returns hwf (hrep.placed stack hstack) (hready _ (hrep.form_mem hstack)) chr
        fun p rest hform => hexp p rest (hform ▸ hrep.form_mem hstack)
  refine ⟨out, ⟨fun s hs => ?_, fun g => ?_⟩, hret []⟩
  · obtain ⟨_, _, o, ho, hso⟩ := hsub s hs
    exact ho.placed s hso
  · constructor
    · rintro ⟨p, rest, hF, hp, hg⟩
      obtain ⟨stack, hstack, hform⟩ := (hrep.mem_iff _).mp hF
      obtain ⟨o, ho, hoo⟩ := hsup stack hstack
      obtain ⟨s, hs, hsg⟩ := (ho.mem_iff g).mp ⟨p, rest, hform.symm, hp, hg⟩
      exact ⟨s, hoo s hs, hsg⟩
    · rintro ⟨s, hs, rfl⟩
      obtain ⟨stack, hstack, o, ho, hso⟩ := hsub s hs
      obtain ⟨p, rest, hF, hp, hg⟩ := ho.form_mem hso
      rw [Set.mem_singleton_iff] at hF
      exact ⟨p, rest, hF ▸ hrep.form_mem hstack, hp, hg⟩

/-- Conversely, when `whisper_grammar_accept` returns, every form that can read the code point is
expandable behind it. -/
theorem expandable_of_accept_ok (hwf : WellFormedIn n rules) {stackVec : List Stack}
    {F : Set (Form UInt32 ℕ)} (hrep : Represents n stackVec F) (hready : ∀ f ∈ F, Ready f)
    {chr : UInt32} {fuel : ℕ} {out : List Stack} (hok : accept rules fuel stackVec chr = .ok out) :
    ∀ p rest, .cls p :: rest ∈ F → p chr = true → Expandable rules rest := by
  intro p rest hF hp
  obtain ⟨stack, hstack, hform⟩ := (hrep.mem_iff _).mp hF
  obtain ⟨acc, out', hstep⟩ := exists_ok_of_foldlM_ok hok stack hstack
  cases stack with
  | nil => cases hform
  | cons pos below =>
  obtain ⟨hpos, hbelow⟩ := placedStack_cons.mp (hrep.placed _ hstack)
  obtain ⟨q, s, hq, hs, -, hread⟩ :=
    exists_read rules hpos hbelow (hready _ (hrep.form_mem hstack))
  rw [hform] at hq
  cases hq
  rw [hread, if_pos hp] at hstep
  exact expandable_of_advanceStack_ok hwf hs hstep

/-- Whatever forms of `F` read a part of `chrs`, what stands behind the next code point is
expandable. -/
def CanRead (rules : List (List Element)) (F : Set (Form UInt32 ℕ)) (chrs : List UInt32) : Prop :=
  ∀ pre chr post, chrs = pre ++ chr :: post →
    ∀ p rest, .cls p :: rest ∈ readAll (denote rules) F pre → p chr = true → Expandable rules rest

theorem canRead_append_singleton {F : Set (Form UInt32 ℕ)} {chrs : List UInt32} {chr : UInt32} :
    CanRead rules F (chrs ++ [chr]) ↔ CanRead rules F chrs ∧
      ∀ p rest, .cls p :: rest ∈ readAll (denote rules) F chrs → p chr = true →
        Expandable rules rest := by
  constructor
  · intro h
    exact ⟨fun pre c post heq => h pre c (post ++ [chr]) (by rw [heq]; simp), h chrs chr [] rfl⟩
  · rintro ⟨h, hlast⟩ pre c post heq
    rcases List.eq_nil_or_concat post with rfl | ⟨post, c', rfl⟩
    · obtain ⟨rfl, hc⟩ := List.append_inj' heq rfl
      obtain rfl : chr = c := by simpa using hc
      exact hlast
    · rw [List.concat_eq_append, ← List.cons_append, ← List.append_assoc] at heq
      exact h pre c post (List.append_inj' heq rfl).1

/-- A list of code points is read one by one. -/
theorem feed_returns (hwf : WellFormedIn n rules) {stackVec : List Stack}
    {F : Set (Form UInt32 ℕ)} (hrep : Represents n stackVec F) (hready : ∀ f ∈ F, Ready f)
    (chrs : List UInt32) (hread : CanRead rules F chrs) :
    ∃ out, Represents n out (readAll (denote rules) F chrs) ∧
      Returns (fun fuel => feed rules fuel stackVec chrs) out := by
  induction chrs using List.reverseRecOn with
  | nil =>
    refine ⟨stackVec, ⟨hrep.placed, fun g => ?_⟩, returns_ok _⟩
    rw [← hrep.mem_iff]
    constructor
    · rintro ⟨f, hf, hfg⟩
      rwa [(frontier_of_ready (hready f hf)).mp hfg]
    · intro hg
      exact ⟨g, hg, .refl, hready g hg⟩
  | append_singleton chrs chr ih =>
    obtain ⟨hread, hlast⟩ := canRead_append_singleton.mp hread
    obtain ⟨mid, hmid, hretMid⟩ := ih hread
    obtain ⟨out, hout, hret⟩ := accept_returns hwf hmid (fun g ⟨_, _, hg⟩ => hg.ready) chr hlast
    refine ⟨out, ⟨hout.placed, fun g => ?_⟩, (hretMid.bind hret).congr fun fuel => ?_⟩
    · rw [← hout.mem_iff]
      constructor
      · rintro ⟨f, hf, hfg⟩
        obtain ⟨p, rest, hr, hp, hg⟩ := residual_append_singleton.mp hfg
        exact ⟨p, rest, ⟨f, hf, hr⟩, hp, hg⟩
      · rintro ⟨p, rest, ⟨f, hf, hr⟩, hp, hg⟩
        exact ⟨f, hf, residual_append_singleton.mpr ⟨p, rest, hr, hp, hg⟩⟩
    · exact feed_append_singleton ..

/-- Conversely, code points that are all read without a fault can be read. -/
theorem canRead_of_feed_ok (hwf : WellFormedIn n rules) {stackVec : List Stack}
    {F : Set (Form UInt32 ℕ)} (hrep : Represents n stackVec F) (hready : ∀ f ∈ F, Ready f)
    {chrs : List UInt32} {k : ℕ}
    (hok : ∀ fuel ≥ k, ∃ out, feed rules fuel stackVec chrs = .ok out) :
    CanRead rules F chrs := by
  induction chrs using List.reverseRecOn with
  | nil => rintro pre chr post heq; simp at heq
  | append_singleton chrs chr ih =>
    have hsplit : ∀ fuel ≥ k, ∃ mid out, feed rules fuel stackVec chrs = .ok mid ∧
        accept rules fuel mid chr = .ok out := by
      intro fuel hfuel
      obtain ⟨out, hfeed⟩ := hok fuel hfuel
      rw [feed_append_singleton] at hfeed
      cases hm : feed rules fuel stackVec chrs with
      | error e => rw [hm] at hfeed; cases hfeed
      | ok mid =>
        rw [hm] at hfeed
        exact ⟨mid, out, rfl, hfeed⟩
    have hread : CanRead rules F chrs := ih fun fuel hfuel => by
      obtain ⟨mid, _, hmid, _⟩ := hsplit fuel hfuel
      exact ⟨mid, hmid⟩
    obtain ⟨mid, hmid, k', hk'⟩ := feed_returns hwf hrep hready chrs hread
    obtain ⟨mid', out, hmid', hout⟩ := hsplit (max k k') (le_max_left ..)
    obtain rfl : mid' = mid := Except.ok.inj (hmid'.symm.trans (hk' _ (le_max_right ..)))
    exact canRead_append_singleton.mpr ⟨hread,
      expandable_of_accept_ok hwf hmid (fun g ⟨_, _, hg⟩ => hg.ready) hout⟩

/-! ### Starting -/

/-- The copy of a rule means what the rule means. -/
theorem copyRule_eq {prev : Gretype} {pos : Pos} (h : wellFormedFrom n prev pos = true) :
    ∃ pos', copyRule pos = .ok pos' ∧ wellFormedFrom n prev pos' = true ∧
      decode pos' = decode pos := by
  induction pos generalizing prev with
  | nil => simp [wellFormedFrom] at h
  | cons e rest ih =>
    rw [copyRule]
    by_cases he : e.type = .endRule
    · obtain ⟨hf, -, hrest⟩ := wellFormedFrom_cons.mp h
      rw [if_pos he] at hrest
      subst hrest
      refine ⟨_, if_pos he, ?_, ?_⟩
      · rw [he] at hf
        simp [wellFormedFrom, hf]
      · simp [decode_cons, decodeElement, he]
    · obtain ⟨rest', hcopy, hwf', hdec⟩ := ih (wellFormedFrom_tail h he)
      refine ⟨e :: rest', ?_, ?_, by rw [decode_cons, decode_cons, hdec]⟩
      · rw [if_neg he, hcopy]
        rfl
      · obtain ⟨hf, hr, -⟩ := wellFormedFrom_cons.mp h
        exact wellFormedFrom_cons.mpr ⟨hf, hr, by rwa [if_neg he]⟩

theorem mapM_copyRule_eq {rs : List (List Element)} (h : ∀ r ∈ rs, WellFormedRule n r) :
    ∃ rs', rs.mapM copyRule = .ok rs' ∧
      List.Forall₂ (fun r r' => WellFormedRule n r' ∧ decode r' = decode r) rs rs' := by
  induction rs with
  | nil => exact ⟨[], rfl, .nil⟩
  | cons r rs ih =>
    obtain ⟨r', hcopy, hwf', hdec⟩ := copyRule_eq (wellFormedRule_iff.mp (h r (List.mem_cons_self ..)))
    obtain ⟨rs', hmap, hall⟩ := ih fun r hr => h r (List.mem_cons_of_mem _ hr)
    refine ⟨r' :: rs', ?_, .cons ⟨wellFormedRule_iff.mpr hwf', hdec⟩ hall⟩
    rw [List.mapM_cons, hcopy, hmap]
    rfl

/-- The rules that `whisper_grammar_init` copies are well formed and mean the same. -/
theorem exists_vecRules (h : WellFormedIn n rules) :
    ∃ vecRules, rules.mapM copyRule = .ok vecRules ∧ vecRules.length = rules.length ∧
      WellFormedIn n vecRules ∧ denote vecRules = denote rules := by
  obtain ⟨rs', hmap, hall⟩ := mapM_copyRule_eq h
  have hlen := hall.length_eq
  refine ⟨rs', hmap, hlen.symm, fun r hr => ?_, funext fun k => ?_⟩
  · obtain ⟨k, hk, rfl⟩ := List.mem_iff_getElem.mp hr
    exact ((List.forall₂_iff_get.mp hall).2 k (hlen ▸ hk) hk).1
  · by_cases hk : k < rules.length
    · have hd := ((List.forall₂_iff_get.mp hall).2 k hk (hlen ▸ hk)).2
      have hk' : k < rs'.length := hlen ▸ hk
      rw [denote_of_getElem? (List.getElem?_eq_getElem hk),
        denote_of_getElem? (List.getElem?_eq_getElem hk'), alternates, alternates]
      simp only [List.get_eq_getElem] at hd
      rw [hd]
    · rw [denote_eq_nil_of_le (Nat.le_of_not_lt hk),
        denote_eq_nil_of_le (hlen ▸ Nat.le_of_not_lt hk)]

theorem expandable_congr {vecRules : List (List Element)} (hden : denote vecRules = denote rules)
    (hlen : vecRules.length = rules.length) {f : Form UInt32 ℕ} :
    Expandable vecRules f ↔ Expandable rules f := by
  rw [Expandable, Expandable, hden, hlen]

/-- What `whisper_grammar_init` does behind the copying of the rules. -/
theorem init_eq {start : ℕ} {rule : List Element} (hrule : rules[start]? = some rule)
    (hat : AtSymbol n rule) {vecRules : List (List Element)}
    (hmap : rules.mapM copyRule = .ok vecRules) (fuel : ℕ) :
    init fuel rules start = (rule :: laterStarts rule).foldlM (fun stackVec pos => do
      let stack ← pushUnlessEnd pos []
      advanceStack vecRules fuel stack stackVec) [] >>= fun stackVec => .ok ⟨vecRules, stackVec⟩ := by
  rw [init, hmap, hrule]
  simp only [forAlternates_eq hat]
  rfl

/-- **`whisper_grammar_init`** starts with the frontiers of the alternates of the start rule. -/
theorem init_returns (hwf : WellFormedIn n rules) {start : ℕ} (hstart : start < rules.length)
    (hexp : ∀ alt ∈ denote rules start, Expandable rules alt) :
    ∃ g, Returns (fun fuel => init fuel rules start) g ∧ g.rules.length = rules.length ∧
      WellFormedIn n g.rules ∧ denote g.rules = denote rules ∧
      Represents n g.stackVec {f | ∃ alt ∈ denote rules start, Frontier (denote rules) alt f} := by
  obtain ⟨vecRules, hmap, hlen, hvwf, hden⟩ := exists_vecRules hwf
  have hrule : rules[start]? = some rules[start] := List.getElem?_eq_getElem hstart
  have hat : AtSymbol n rules[start] := (hwf _ (List.getElem_mem hstart)).atSymbol
  have hmem : ∀ {alt}, alt ∈ denote rules start ↔
      ∃ p ∈ rules[start] :: laterStarts rules[start], (decode p).seq = alt := by
    intro alt
    rw [denote_of_getElem? hrule, mem_alternates_iff hat]
  obtain ⟨out, hsub, hsup, hret⟩ := returns_foldlM_append
    (f := fun fuel stackVec pos => do
      let stack ← pushUnlessEnd pos []
      advanceStack vecRules fuel stack stackVec)
    (P := fun pos out => Represents n out {f | Frontier (denote rules) (decode pos).seq f})
    (rules[start] :: laterStarts rules[start]) fun pos hpos => by
      obtain ⟨s, hs, hps, hfs⟩ := pushUnlessEnd_eq (atSymbol_of_mem_starts hat hpos) placedStack_nil
      rw [form_nil, List.append_nil] at hfs
      obtain ⟨out, hrep, hr⟩ := advanceStack_returns hvwf hps
        ((expandable_congr hden hlen).mpr (hfs ▸ hexp _ (hmem.mpr ⟨pos, hpos, rfl⟩)))
      rw [hden, hfs] at hrep
      exact ⟨out, hrep, fun acc => (hr acc).congr fun fuel => by rw [hs]; rfl⟩
  refine ⟨⟨vecRules, out⟩, ?_, hlen, hvwf, hden, fun s hs => ?_, fun g => ?_⟩
  · exact ((hret []).bind (g := fun _ out => .ok ⟨vecRules, out⟩) (returns_ok _)).congr
      fun fuel => init_eq hrule hat hmap fuel
  · obtain ⟨_, _, o, ho, hso⟩ := hsub s hs
    exact ho.placed s hso
  · constructor
    · rintro ⟨alt, halt, hg⟩
      obtain ⟨p, hp, rfl⟩ := hmem.mp halt
      obtain ⟨o, ho, hoo⟩ := hsup p hp
      obtain ⟨s, hs, hsg⟩ := (ho.mem_iff g).mp hg
      exact ⟨s, hoo s hs, hsg⟩
    · rintro ⟨s, hs, rfl⟩
      obtain ⟨p, hp, o, ho, hso⟩ := hsub s hs
      exact ⟨_, hmem.mpr ⟨p, hp, rfl⟩, ho.form_mem hso⟩

/-- Conversely, when `whisper_grammar_init` returns, the alternates of the start rule are
expandable. -/
theorem expandable_of_init_ok (hwf : WellFormedIn n rules) {fuel start : ℕ} {g : State}
    (hok : init fuel rules start = .ok g) : ∀ alt ∈ denote rules start, Expandable rules alt := by
  obtain ⟨vecRules, hmap, hlen, hvwf, hden⟩ := exists_vecRules hwf
  intro alt halt
  have hrule : ∃ rule, rules[start]? = some rule := by
    cases hr : rules[start]? with
    | none => simp [denote, hr] at halt
    | some rule => exact ⟨rule, rfl⟩
  obtain ⟨rule, hrule⟩ := hrule
  have hat : AtSymbol n rule := (hwf _ (List.mem_of_getElem? hrule)).atSymbol
  rw [denote_of_getElem? hrule, mem_alternates_iff hat] at halt
  obtain ⟨pos, hpos, rfl⟩ := halt
  rw [init_eq hrule hat hmap] at hok
  obtain ⟨stackVec, hfold, -⟩ := bind_eq_ok_iff.mp hok
  obtain ⟨acc, out, hstep⟩ := exists_ok_of_foldlM_ok hfold pos hpos
  obtain ⟨s, hs, hps, hfs⟩ := pushUnlessEnd_eq (atSymbol_of_mem_starts hat hpos) placedStack_nil
  rw [hs] at hstep
  rw [form_nil, List.append_nil] at hfs
  rw [← hfs, ← expandable_congr hden hlen]
  exact expandable_of_advanceStack_ok hvwf hps hstep

/-- The stacks after `chrs` are what is left of the alternates of the start rule. -/
theorem run_returns_of_canRead (hwf : WellFormedIn n rules) {start : ℕ}
    (hstart : start < rules.length) (hexp : ∀ alt ∈ denote rules start, Expandable rules alt)
    {chrs : List UInt32} (hread : CanRead rules
      {f | ∃ alt ∈ denote rules start, Frontier (denote rules) alt f} chrs) :
    ∃ g, Returns (fun fuel => run fuel rules start chrs) g ∧ g.rules.length = rules.length ∧
      WellFormedIn n g.rules ∧ denote g.rules = denote rules ∧
      Represents n g.stackVec
        {f | ∃ alt ∈ denote rules start, Residual (denote rules) alt chrs f} := by
  obtain ⟨g, hret, hlen, hgwf, hden, hrep⟩ := init_returns hwf hstart hexp
  obtain ⟨out, hout, hfeed⟩ := feed_returns hgwf hrep (fun f ⟨_, _, hf⟩ => hf.2) chrs
    fun pre chr post heq p rest hmem hp => by
      rw [hden] at hmem
      exact (expandable_congr hden hlen).mpr (hread pre chr post heq p rest hmem hp)
  rw [hden] at hout
  refine ⟨⟨g.rules, out⟩, ?_, hlen, hgwf, hden, hout.placed, fun k => ?_⟩
  · have hplaced : Returns (fun fuel => feed g.rules fuel g.stackVec chrs >>= fun stackVec =>
        .ok { g with stackVec }) { g with stackVec := out } :=
      hfeed.bind (g := fun _ stackVec => .ok { g with stackVec }) (returns_ok _)
    exact (hret.bind (g := fun fuel g => feed g.rules fuel g.stackVec chrs >>= fun stackVec =>
      .ok { g with stackVec }) hplaced).congr fun fuel => by rw [run]; rfl
  · rw [← hout.mem_iff]
    constructor
    · rintro ⟨alt, halt, hr⟩
      obtain ⟨f, hf, hfr⟩ := residual_iff_frontier.mp hr
      exact ⟨f, ⟨alt, halt, hf⟩, hfr⟩
    · rintro ⟨f, ⟨alt, halt, hf⟩, hfr⟩
      exact ⟨alt, halt, residual_iff_frontier.mpr ⟨f, hf, hfr⟩⟩

/-! ### Grammars without left recursion -/

/-- A rule that does not exist is referenced only behind symbols that derive nothing. -/
def DefinedAhead (rules : List (List Element)) : Prop :=
  ∀ m, ∀ alt ∈ denote rules m, Tame (denote rules) (· < rules.length) alt

theorem expandable_of_tame (hrec : NoLeftRecursion rules) (hdef : DefinedAhead rules)
    {f : Form UInt32 ℕ} (hf : Tame (denote rules) (· < rules.length) f) : Expandable rules f :=
  ⟨hrec.acc f, hf.safe hdef⟩

/-- **Runs return.** Without left recursion, and with all rules it comes to defined, the automaton
reads any code points. -/
theorem run_returns (hwf : WellFormedIn n rules) (hrec : NoLeftRecursion rules)
    (hdef : DefinedAhead rules) {start : ℕ} (hstart : start < rules.length) (chrs : List UInt32) :
    ∃ g, Returns (fun fuel => run fuel rules start chrs) g ∧ g.rules.length = rules.length ∧
      WellFormedIn n g.rules ∧ denote g.rules = denote rules ∧
      Represents n g.stackVec
        {f | ∃ alt ∈ denote rules start, Residual (denote rules) alt chrs f} := by
  refine run_returns_of_canRead hwf hstart
    (fun alt halt => expandable_of_tame hrec hdef (hdef start alt halt)) ?_
  rintro pre chr post - p rest ⟨f, ⟨alt, halt, hf⟩, hr⟩ hp
  exact expandable_of_tame hrec hdef
    ((((hdef start alt halt).reach hdef hf.1).residual hdef hr).cls hp)

/-- Conversely, when the automaton reads any code points from any start rule, no rule is left
recursive, and all rules it comes to are defined. -/
theorem definedAhead_of_run_returns (hwf : WellFormedIn n rules)
    (h : ∀ start < rules.length, ∀ chrs, ∃ g, Returns (fun fuel => run fuel rules start chrs) g) :
    NoLeftRecursion rules ∧ DefinedAhead rules := by
  have hrun : ∀ start < rules.length, ∀ chrs, ∃ k, ∀ fuel ≥ k, ∃ g, init fuel rules start = .ok g ∧
      ∃ out, feed g.rules fuel g.stackVec chrs = .ok out := by
    intro start hstart chrs
    obtain ⟨g', k, hk⟩ := h start hstart chrs
    refine ⟨k, fun fuel hfuel => ?_⟩
    obtain ⟨g, hg, hfeed⟩ := bind_eq_ok_iff.mp (hk fuel hfuel)
    obtain ⟨out, hout, -⟩ := bind_eq_ok_iff.mp hfeed
    exact ⟨g, hg, out, hout⟩
  have hexp : ∀ start < rules.length, ∀ alt ∈ denote rules start, Expandable rules alt := by
    intro start hstart
    obtain ⟨k, hk⟩ := hrun start hstart []
    obtain ⟨g, hg, -⟩ := hk k le_rfl
    exact expandable_of_init_ok hwf hg
  refine ⟨fun m hm => ?_, fun m alt halt => ?_⟩
  · refine not_acc_of_leftRecursive hm [] ⟨_, fun f hf => ?_⟩
    obtain ⟨v, rest, heq, alt, halt, rfl⟩ := hf
    cases heq
    rw [List.append_nil]
    obtain ⟨k, hk, -⟩ := Relation.TransGen.head'_iff.mp hm
    exact (hexp m (lt_length_of_leftCorner hk) alt halt).1
  · have hm : m < rules.length := by
      by_contra hm
      rw [denote_eq_nil_of_le (Nat.le_of_not_lt hm)] at halt
      cases halt
    refine tame_of_safe (hexp m hm alt halt).2 fun w p rest chr hr hp => ?_
    -- the run over `w ++ [chr]` reads the class
    obtain ⟨g, ⟨k, hk⟩, hlen, hgwf, hden, hrep⟩ := init_returns hwf hm (hexp m hm)
    obtain ⟨k', hk'⟩ := hrun m hm (w ++ [chr])
    have hread : CanRead g.rules {f | ∃ alt ∈ denote rules m, Frontier (denote rules) alt f}
        (w ++ [chr]) :=
      canRead_of_feed_ok hgwf hrep (fun f ⟨_, _, hf⟩ => hf.2) (k := max k k') fun fuel hfuel => by
        obtain ⟨g', hg', hfeed⟩ := hk' fuel (le_trans (le_max_right ..) hfuel)
        obtain rfl : g' = g := Except.ok.inj (hg'.symm.trans (hk _ (le_trans (le_max_left ..) hfuel)))
        exact hfeed
    obtain ⟨f, hf, hfr⟩ := residual_iff_frontier.mp hr
    refine ((expandable_congr hden hlen).mp (hread w chr [] rfl p rest ?_ hp)).2
    rw [hden]
    exact ⟨f, ⟨alt, halt, hf⟩, hfr⟩

/-! ### Prefixes of words -/

/-- Every rule derives some string. -/
def Productive (rules : List (List Element)) : Prop :=
  ∀ m < rules.length, ∃ w, w ∈ language (denote rules) m

/-- Every character class of the grammar matches some code point. -/
def ClassesInhabited (rules : List (List Element)) : Prop :=
  ∀ m, ∀ alt ∈ denote rules m, ∀ p, .cls p ∈ alt → ∃ chr, p chr = true

/-- A reference of a well-formed rule is in range. -/
theorem ref_lt_of_mem_decode {prev : Gretype} {pos : Pos} (h : wellFormedFrom n prev pos = true) :
    (∀ k, .ref k ∈ (decode pos).seq → k < n) ∧
      ∀ alt ∈ (decode pos).later, ∀ k, .ref k ∈ alt → k < n := by
  induction pos generalizing prev with
  | nil => simp [wellFormedFrom] at h
  | cons e rest ih =>
    rw [decode_cons, decodeElement]
    by_cases he : e.type = .endRule
    · simp [he]
    · obtain ⟨ihSeq, ihLater⟩ := ih (wellFormedFrom_tail h he)
      have href := (wellFormedFrom_cons.mp h).2.1
      clear ih
      cases ht : e.type with
      | endRule => exact absurd ht he
      | alt => exact ⟨by simp, List.forall_mem_cons.mpr ⟨ihSeq, ihLater⟩⟩
      | ruleRef => exact ⟨by simpa using ⟨href ht, ihSeq⟩, ihLater⟩
      | char | charNot => exact ⟨by simpa using ihSeq, ihLater⟩
      | charRngUpper | charAlt => exact ⟨ihSeq, ihLater⟩

theorem ref_lt_of_mem_denote (hwf : WellFormed rules) {m k : ℕ} {alt : Form UInt32 ℕ}
    (halt : alt ∈ denote rules m) (hk : .ref k ∈ alt) : k < rules.length := by
  by_cases hm : m < rules.length
  · obtain ⟨hseq, hlater⟩ := ref_lt_of_mem_decode (wellFormedRule_iff.mp (hwf _ (List.getElem_mem hm)))
    rw [denote_of_getElem? (List.getElem?_eq_getElem hm), alternates] at halt
    rcases List.mem_cons.mp halt with rfl | halt
    · exact hseq k hk
    · exact hlater alt halt k hk
  · rw [denote_eq_nil_of_le (Nat.le_of_not_lt hm)] at halt
    cases halt

theorem definedAhead_of_wellFormed (hwf : WellFormed rules) : DefinedAhead rules :=
  fun _ _ halt => tame_of_forall_ref fun _ hk => ref_lt_of_mem_denote hwf halt hk

theorem ref_lt_of_mem_form {k : ℕ} {s : Stack} (hs : PlacedStack n s) (hk : .ref k ∈ form s) :
    k < n := by
  obtain ⟨pos, hpos, hmem⟩ := List.mem_flatMap.mp hk
  exact (ref_lt_of_mem_decode (hs pos hpos).1).1 k hmem

/-- In a well-formed grammar without left recursion every form over its rules is expandable. -/
theorem expandable_of_forall_ref (hwf : WellFormed rules) (hrec : NoLeftRecursion rules)
    {f : Form UInt32 ℕ} (hf : ∀ k, .ref k ∈ f → k < rules.length) : Expandable rules f :=
  expandable_of_tame hrec (definedAhead_of_wellFormed hwf) (tame_of_forall_ref hf)

/-- In a grammar whose rules and classes are all productive, every symbol is. -/
theorem exists_yields_symbol (hwf : WellFormed rules) (hprod : Productive rules)
    (hcls : ClassesInhabited rules) {m : ℕ} {alt : Form UInt32 ℕ} (halt : alt ∈ denote rules m)
    {s : Sym UInt32 ℕ} (hs : s ∈ alt) : ∃ w, Yields (denote rules) [s] w := by
  cases s with
  | cls p =>
    obtain ⟨chr, hchr⟩ := hcls m alt halt p hs
    exact ⟨[chr], .cls hchr .nil⟩
  | ref k =>
    obtain ⟨w, alt', halt', hy⟩ := hprod k (ref_lt_of_mem_denote hwf halt hs)
    exact ⟨w ++ [], .ref halt' hy .nil⟩

/-- **The automaton recognises the grammar.** After any code points, the empty stack is there iff
they are a word of the start rule; and, when every rule derives a string and every class matches a
code point, some stack is left iff they are a prefix of a word. -/
theorem run_recognises (hwf : WellFormed rules) (hrec : NoLeftRecursion rules) {start : ℕ}
    (hstart : start < rules.length) (chrs : List UInt32) :
    ∃ g, Returns (fun fuel => run fuel rules start chrs) g ∧
      ([] ∈ g.stackVec ↔ chrs ∈ language (denote rules) start) ∧
      (Productive rules → ClassesInhabited rules →
        (g.stackVec ≠ [] ↔ ∃ rest, chrs ++ rest ∈ language (denote rules) start)) := by
  obtain ⟨g, hret, -, -, -, hrep⟩ :=
    run_returns hwf hrec (definedAhead_of_wellFormed hwf) hstart chrs
  refine ⟨g, hret, hrep.nil_mem_iff.trans (exists_congr fun alt => and_congr_right fun _ =>
    yields_iff_residual_nil.symm), fun hprod hcls => hrep.ne_nil_iff.trans ?_⟩
  constructor
  · rintro ⟨f, alt, halt, hf⟩
    obtain ⟨rest, hrest⟩ := exists_yields (hf.forall_mem
      (fun _ _ ha _ hs => exists_yields_symbol hwf hprod hcls ha hs)
      fun _ hs => exists_yields_symbol hwf hprod hcls halt hs)
    exact ⟨rest, alt, halt, yields_append_iff_residual.mpr ⟨f, hf, hrest⟩⟩
  · rintro ⟨rest, alt, halt, hy⟩
    obtain ⟨f, hf, -⟩ := yields_append_iff_residual.mp hy
    exact ⟨f, alt, halt, hf⟩

/-- Rules none of whose alternates starts with a reference have no left recursion. -/
theorem noLeftRecursion_of_ready (h : ∀ rule ∈ rules, ∀ alt ∈ alternates rule, Ready alt) :
    NoLeftRecursion rules := by
  refine not_leftRecursive_of_ready fun m alt halt => ?_
  by_cases hm : m < rules.length
  · rw [denote_of_getElem? (List.getElem?_eq_getElem hm)] at halt
    exact h _ (List.getElem_mem hm) alt halt
  · rw [denote_eq_nil_of_le (Nat.le_of_not_lt hm)] at halt
    cases halt

/-- `root ::= "a" root | "b"`. -/
def abRules : List (List Element) :=
  [[⟨.char, 97⟩, ⟨.ruleRef, 0⟩, ⟨.alt, 0⟩, ⟨.char, 98⟩, ⟨.endRule, 0⟩]]

/-- `run_recognises` for `root ::= "a" root | "b"` after `"a"`. -/
theorem run_recognises_ab :
    ∃ g, Returns (fun fuel => run fuel abRules 0 [97]) g ∧
      ([] ∈ g.stackVec ↔ [97] ∈ language (denote abRules) 0) ∧
      (g.stackVec ≠ [] ↔ ∃ rest, [97] ++ rest ∈ language (denote abRules) 0) := by
  obtain ⟨g, hret, hword, hpre⟩ :=
    run_recognises (show WellFormed abRules by decide) (noLeftRecursion_of_ready (by decide))
      (show 0 < abRules.length by decide) [97]
  refine ⟨g, hret, hword, hpre (fun m hm => ?_) fun m alt halt p hp => ?_⟩
  · obtain rfl : m = 0 := by simpa [abRules] using hm
    exact ⟨[98], _, List.mem_cons_of_mem _ (List.mem_cons_self ..), .cls (by decide) .nil⟩
  · cases m with
    | succ m => cases halt
    | zero =>
      simp only [denote, abRules, List.getElem?_cons_zero, Option.map_some, Option.getD_some,
        alternates, decode, List.foldr, decodeElement, List.mem_cons, List.not_mem_nil,
        or_false] at halt
      rcases halt with rfl | rfl
      · obtain rfl : p = _ := by simpa using hp
        exact ⟨97, by decide⟩
      · obtain rfl : p = _ := by simpa using hp
        exact ⟨98, by decide⟩

/-- `root ::= "a" [b-a] | "x"`: well formed and productive, but the class `[b-a]` is empty. -/
def emptyClassRules : List (List Element) :=
  [[⟨.char, 97⟩, ⟨.char, 98⟩, ⟨.charRngUpper, 97⟩, ⟨.alt, 0⟩, ⟨.char, 120⟩, ⟨.endRule, 0⟩]]

/-- Without the condition on classes the automaton may keep a stack that no word continues: after
`"a"` the stack at `[b-a]` is left, though no word starts with `"a"`. -/
theorem not_forall_ne_nil_iff_prefix :
    ¬ ∀ (rules : List (List Element)) (start : ℕ) (chrs : List UInt32), WellFormed rules →
      NoLeftRecursion rules → start < rules.length → Productive rules →
      ∀ g, Returns (fun fuel => run fuel rules start chrs) g →
        (g.stackVec ≠ [] ↔ ∃ rest, chrs ++ rest ∈ language (denote rules) start) := by
  intro h
  have hret : Returns (fun fuel => run fuel emptyClassRules 0 [97])
      ⟨emptyClassRules,
        [[[⟨.char, 98⟩, ⟨.charRngUpper, 97⟩, ⟨.alt, 0⟩, ⟨.char, 120⟩, ⟨.endRule, 0⟩]]]⟩ :=
    ⟨1, fun fuel hfuel => by
      obtain ⟨k, rfl⟩ := Nat.exists_eq_add_of_le' hfuel
      rfl⟩
  obtain ⟨rest, alt, halt, hy⟩ := (h emptyClassRules 0 [97] (by decide)
    (noLeftRecursion_of_ready (by decide)) (by decide)
    (fun m hm => by
      obtain rfl : m = 0 := by simpa [emptyClassRules] using hm
      exact ⟨[120], _, List.mem_cons_of_mem _ (List.mem_cons_self ..), .cls (by decide) .nil⟩)
    _ hret).mp (List.cons_ne_nil _ _)
  simp only [denote, emptyClassRules, List.getElem?_cons_zero, Option.map_some, Option.getD_some,
    alternates, decode, List.foldr, decodeElement, List.mem_cons, List.not_mem_nil,
    or_false] at halt
  rcases halt with rfl | rfl
  · obtain ⟨_, _, heq, -, hy⟩ := yields_cls_iff.mp hy
    cases heq
    obtain ⟨chr, _, -, hchr, -⟩ := yields_cls_iff.mp hy
    simp only [inClass, inRanges, Decoded.rangesFrom, Option.getD_some, List.any_cons,
      List.any_nil, Bool.or_false, beq_iff_eq, Bool.and_eq_true, decide_eq_true_eq] at hchr
    omega
  · obtain ⟨_, _, heq, hchr, -⟩ := yields_cls_iff.mp hy
    cases heq
    exact absurd hchr (by decide)

end Grammar

end WhisperCpp
