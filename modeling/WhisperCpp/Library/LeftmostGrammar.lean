import Mathlib.Computability.Language
import Mathlib.Data.List.Basic
import Mathlib.Logic.Relation
import Mathlib.Order.WellFoundedSet

/-!
# Context-free grammars read from the left

A context-free grammar whose terminals are *classes*: a symbol on a right-hand side is either a
predicate on terminals or a nonterminal. The alternates of a nonterminal form a list.

A recogniser that reads its input once, from left to right, keeps a set of sentential forms. It
rewrites a leading nonterminal by each of its alternates until a class stands in front (or nothing
is left), and then reads one terminal. The three facts that make this work are proved here for an
arbitrary grammar:

* the forms obtained so are exactly what a leftmost derivation leaves over, so the empty form
  shows up after `w` iff `w` is derived;
* when every nonterminal and every class is productive, some form is left after `w` iff `w` is a
  prefix of a derived word;
* rewriting leading nonterminals terminates iff no nonterminal is left recursive.

## Main definitions

* `Yields` — the words of a sentential form, by derivation trees
* `Frontier` — the forms a leading nonterminal is rewritten to
* `Residual` — what is left of a form after reading a word
* `LeftCorner`, `LeftRecursive` — left recursion, through nullable prefixes included

## Main results

* `yields_iff_residual_nil`, `yields_append_iff_residual`
* `acc_expand`, `not_acc_of_leftRecursive`
-/

namespace LeftmostGrammar

variable {T N : Type*}

/-- A symbol of a right-hand side: a class of terminals or a nonterminal. -/
inductive Sym (T N : Type*) where
  /-- A terminal, any one of those the predicate accepts. -/
  | cls (p : T → Bool)
  /-- A nonterminal. -/
  | ref (n : N)

/-- A sentential form. -/
abbrev Form (T N : Type*) := List (Sym T N)

/-- A grammar: the alternates of each nonterminal. -/
abbrev Grammar (T N : Type*) := N → List (Form T N)

/-! ### Words of a form -/

/-- `Yields G f w`: the form `f` derives the word `w`. -/
inductive Yields (G : Grammar T N) : Form T N → List T → Prop
  | nil : Yields G [] []
  | cls {p : T → Bool} {a : T} {f : Form T N} {w : List T} (ha : p a = true)
      (h : Yields G f w) : Yields G (.cls p :: f) (a :: w)
  | ref {n : N} {alt f : Form T N} {u v : List T} (hm : alt ∈ G n) (ha : Yields G alt u)
      (h : Yields G f v) : Yields G (.ref n :: f) (u ++ v)

/-- The language of a nonterminal. -/
def language (G : Grammar T N) (n : N) : Language T := {w | ∃ alt ∈ G n, Yields G alt w}

/-- A form that derives the empty word. -/
def Nullable (G : Grammar T N) (f : Form T N) : Prop := Yields G f []

variable {G : Grammar T N} {f g h : Form T N} {u v w : List T}

@[simp] theorem yields_nil_iff : Yields G [] w ↔ w = [] := by
  constructor
  · intro h; cases h; rfl
  · rintro rfl; exact .nil

theorem yields_cls_iff {p : T → Bool} :
    Yields G (.cls p :: f) w ↔ ∃ a v, w = a :: v ∧ p a = true ∧ Yields G f v := by
  constructor
  · intro h
    cases h with
    | cls ha h => exact ⟨_, _, rfl, ha, h⟩
  · rintro ⟨a, v, rfl, ha, h⟩
    exact .cls ha h

theorem Yields.append (hf : Yields G f u) (hg : Yields G g v) : Yields G (f ++ g) (u ++ v) := by
  induction hf with
  | nil => exact hg
  | cls ha _ ih => exact .cls ha ih
  | ref hm ha _ _ ih => rw [List.append_assoc]; exact .ref hm ha ih

theorem yields_append_iff :
    Yields G (f ++ g) w ↔ ∃ u v, w = u ++ v ∧ Yields G f u ∧ Yields G g v := by
  constructor
  · intro h
    induction f generalizing w with
    | nil => exact ⟨[], w, rfl, .nil, h⟩
    | cons s f ih =>
      cases h with
      | cls ha h =>
        obtain ⟨u, v, rfl, hu, hv⟩ := ih h
        exact ⟨_ :: u, v, rfl, .cls ha hu, hv⟩
      | @ref _ _ _ u₀ _ hm ha h =>
        obtain ⟨u, v, rfl, hu, hv⟩ := ih h
        exact ⟨u₀ ++ u, v, (List.append_assoc ..).symm, .ref hm ha hu, hv⟩
  · rintro ⟨u, v, rfl, hu, hv⟩
    exact hu.append hv

/-- A leading nonterminal may be rewritten in place. -/
theorem yields_ref_iff {n : N} :
    Yields G (.ref n :: f) w ↔ ∃ alt ∈ G n, Yields G (alt ++ f) w := by
  constructor
  · intro h
    cases h with
    | ref hm ha h => exact ⟨_, hm, ha.append h⟩
  · rintro ⟨alt, hm, h⟩
    obtain ⟨u, v, rfl, hu, hv⟩ := yields_append_iff.mp h
    exact .ref hm hu hv

theorem nullable_append_iff : Nullable G (f ++ g) ↔ Nullable G f ∧ Nullable G g := by
  rw [Nullable, yields_append_iff]
  constructor
  · rintro ⟨u, v, huv, hu, hv⟩
    obtain ⟨rfl, rfl⟩ := List.append_eq_nil_iff.mp huv.symm
    exact ⟨hu, hv⟩
  · rintro ⟨hf, hg⟩
    exact ⟨[], [], rfl, hf, hg⟩

theorem not_nullable_cls {p : T → Bool} : ¬ Nullable G (.cls p :: f) := by
  rw [Nullable, yields_cls_iff]
  rintro ⟨a, v, h, -⟩
  cases h

/-! ### Rewriting a leading nonterminal -/

/-- One rewriting of a leading nonterminal by one of its alternates. -/
def Expand (G : Grammar T N) (f g : Form T N) : Prop :=
  ∃ n rest, f = .ref n :: rest ∧ ∃ alt ∈ G n, g = alt ++ rest

/-- A form that cannot be rewritten: empty, or a class stands in front. -/
def Ready : Form T N → Prop
  | .ref _ :: _ => False
  | _ => True

instance : DecidablePred (Ready : Form T N → Prop)
  | [] => .isTrue trivial
  | .cls _ :: _ => .isTrue trivial
  | .ref _ :: _ => .isFalse id

/-- The ready forms a form is rewritten to. -/
def Frontier (G : Grammar T N) (f g : Form T N) : Prop :=
  Relation.ReflTransGen (Expand G) f g ∧ Ready g

@[simp] theorem ready_nil : Ready ([] : Form T N) := trivial

@[simp] theorem ready_cls {p : T → Bool} : Ready (.cls p :: f) := trivial

theorem expand_ref {n : N} {alt : Form T N} (h : alt ∈ G n) :
    Expand G (.ref n :: f) (alt ++ f) := ⟨n, f, rfl, alt, h, rfl⟩

theorem not_expand_of_ready (hf : Ready f) : ¬ Expand G f g := by
  rintro ⟨n, rest, rfl, -⟩
  exact hf

theorem Expand.append (hfg : Expand G f g) (h : Form T N) : Expand G (f ++ h) (g ++ h) := by
  obtain ⟨n, rest, rfl, alt, hm, rfl⟩ := hfg
  exact ⟨n, rest ++ h, rfl, alt, hm, List.append_assoc ..⟩

theorem reach_append (hfg : Relation.ReflTransGen (Expand G) f g) (h : Form T N) :
    Relation.ReflTransGen (Expand G) (f ++ h) (g ++ h) := by
  induction hfg with
  | refl => exact .refl
  | tail _ hs ih => exact ih.tail (hs.append h)

/-- A ready form is its own frontier. -/
theorem frontier_of_ready (hf : Ready f) : Frontier G f g ↔ g = f := by
  constructor
  · rintro ⟨hr, -⟩
    cases hr.cases_head with
    | inl h => exact h.symm
    | inr h => obtain ⟨_, hs, -⟩ := h; exact absurd hs (not_expand_of_ready hf)
  · rintro rfl
    exact ⟨.refl, hf⟩

/-- The frontier of a leading nonterminal is that of its alternates together. -/
theorem frontier_ref_iff {n : N} :
    Frontier G (.ref n :: f) g ↔ ∃ alt ∈ G n, Frontier G (alt ++ f) g := by
  constructor
  · rintro ⟨hr, hg⟩
    rcases hr.cases_head with rfl | ⟨_, ⟨m, rest, heq, alt, hm, rfl⟩, ht⟩
    · exact hg.elim
    · cases heq
      exact ⟨alt, hm, ht, hg⟩
  · rintro ⟨alt, hm, hr, hg⟩
    exact ⟨.head (expand_ref hm) hr, hg⟩

theorem Expand.yields (hfg : Expand G f g) (hg : Yields G g w) : Yields G f w := by
  obtain ⟨n, rest, rfl, alt, hm, rfl⟩ := hfg
  exact yields_ref_iff.mpr ⟨alt, hm, hg⟩

theorem yields_of_reach (hfg : Relation.ReflTransGen (Expand G) f g) (hg : Yields G g w) :
    Yields G f w := by
  induction hfg with
  | refl => exact hg
  | tail _ hs ih => exact ih (hs.yields hg)

/-- A derivation starts by rewriting up to some ready form. -/
theorem Yields.exists_frontier (hf : Yields G f w) : ∃ g, Frontier G f g ∧ Yields G g w := by
  induction hf with
  | nil => exact ⟨[], ⟨.refl, trivial⟩, .nil⟩
  | cls ha h _ => exact ⟨_, ⟨.refl, trivial⟩, .cls ha h⟩
  | @ref n alt rest u v hm _ hrest ihAlt ihRest =>
    obtain ⟨g, ⟨hreach, hready⟩, hg⟩ := ihAlt
    have hhead : Relation.ReflTransGen (Expand G) (.ref n :: rest) (g ++ rest) :=
      .head (expand_ref hm) (reach_append hreach rest)
    -- the alternate may vanish, and then the rest of the form is rewritten further
    cases g with
    | nil =>
      obtain ⟨k, ⟨hk, hkr⟩, hy⟩ := ihRest
      obtain rfl := yields_nil_iff.mp hg
      exact ⟨k, ⟨hhead.trans hk, hkr⟩, hy⟩
    | cons s g =>
      cases s with
      | ref m => exact hready.elim
      | cls p => exact ⟨_, ⟨hhead, trivial⟩, hg.append hrest⟩

theorem yields_iff_frontier : Yields G f w ↔ ∃ g, Frontier G f g ∧ Yields G g w :=
  ⟨Yields.exists_frontier, fun ⟨_, hg, hy⟩ => yields_of_reach hg.1 hy⟩

/-! ### Reading a word -/

/-- `Residual G f w g`: reading `w` from `f`, rewriting before and after every terminal, can
leave the ready form `g`. -/
def Residual (G : Grammar T N) (f : Form T N) : List T → Form T N → Prop
  | [], g => Frontier G f g
  | a :: w, g => ∃ p rest, Frontier G f (.cls p :: rest) ∧ p a = true ∧ Residual G rest w g

theorem Residual.ready : ∀ {w : List T} {f : Form T N}, Residual G f w g → Ready g
  | [], _, h => h.2
  | _ :: _, _, ⟨_, _, _, _, h⟩ => h.ready

/-- The last terminal read. -/
theorem residual_append_singleton {a : T} :
    Residual G f (w ++ [a]) g ↔
      ∃ p rest, Residual G f w (.cls p :: rest) ∧ p a = true ∧ Frontier G rest g := by
  induction w generalizing f with
  | nil => rfl
  | cons b w ih =>
    constructor
    · rintro ⟨p, rest, hf, hb, hr⟩
      obtain ⟨q, rest', hq, ha, hg⟩ := ih.mp hr
      exact ⟨q, rest', ⟨p, rest, hf, hb, hq⟩, ha, hg⟩
    · rintro ⟨q, rest', ⟨p, rest, hf, hb, hq⟩, ha, hg⟩
      exact ⟨p, rest, hf, hb, ih.mpr ⟨q, rest', hq, ha, hg⟩⟩

/-- **Reading is derivation.** A form derives `w ++ v` iff reading `w` from it can leave a form
that derives `v`. -/
theorem yields_append_iff_residual :
    Yields G f (w ++ v) ↔ ∃ g, Residual G f w g ∧ Yields G g v := by
  induction w generalizing f with
  | nil => exact yields_iff_frontier
  | cons a w ih =>
    constructor
    · intro h
      obtain ⟨g, hfg, hg⟩ := yields_iff_frontier.mp h
      rcases g with - | ⟨p | n, rest⟩
      · cases yields_nil_iff.mp hg
      · obtain ⟨b, v', hb, hp, hrest⟩ := yields_cls_iff.mp hg
        cases hb
        obtain ⟨k, hk, hy⟩ := ih.mp hrest
        exact ⟨k, ⟨p, rest, hfg, hp, hk⟩, hy⟩
      · exact hfg.2.elim
    · rintro ⟨k, ⟨p, rest, hfg, hp, hk⟩, hy⟩
      exact yields_of_reach hfg.1 (.cls hp (ih.mpr ⟨k, hk, hy⟩))

/-- **Acceptance.** A form derives `w` iff reading `w` from it can leave nothing. -/
theorem yields_iff_residual_nil : Yields G f w ↔ Residual G f w [] := by
  have h := yields_append_iff_residual (G := G) (f := f) (w := w) (v := [])
  rw [List.append_nil] at h
  rw [h]
  constructor
  · rintro ⟨g, hr, hy⟩
    rcases g with - | ⟨p | n, rest⟩
    · exact hr
    · exact absurd hy not_nullable_cls
    · exact hr.ready.elim
  · intro hr
    exact ⟨[], hr, .nil⟩

/-- Reading from a form is reading from one of the ready forms it is rewritten to. -/
theorem residual_iff_frontier : Residual G f w g ↔ ∃ k, Frontier G f k ∧ Residual G k w g := by
  cases w with
  | nil =>
    constructor
    · intro h
      exact ⟨g, h, .refl, h.2⟩
    · rintro ⟨k, hk, hg⟩
      exact ⟨hk.1.trans hg.1, hg.2⟩
  | cons a w =>
    constructor
    · rintro ⟨p, rest, hf, ha, hr⟩
      exact ⟨_, hf, p, rest, ⟨.refl, ready_cls⟩, ha, hr⟩
    · rintro ⟨k, hk, p, rest, hf, ha, hr⟩
      exact ⟨p, rest, ⟨hk.1.trans hf.1, ready_cls⟩, ha, hr⟩

/-- A property of symbols that holds throughout the grammar holds of everything a form that has it
is rewritten to. -/
theorem forall_mem_of_reach {P : Sym T N → Prop} (hG : ∀ n, ∀ alt ∈ G n, ∀ s ∈ alt, P s)
    (hfg : Relation.ReflTransGen (Expand G) f g) (hf : ∀ s ∈ f, P s) : ∀ s ∈ g, P s := by
  induction hfg with
  | refl => exact hf
  | tail _ hs ih =>
    obtain ⟨n, rest, rfl, alt, hm, rfl⟩ := hs
    intro s hmem
    rcases List.mem_append.mp hmem with h | h
    · exact hG n alt hm s h
    · exact ih s (List.mem_cons_of_mem _ h)

theorem Residual.forall_mem {P : Sym T N → Prop} (hG : ∀ n, ∀ alt ∈ G n, ∀ s ∈ alt, P s) :
    ∀ {w : List T} {f : Form T N}, Residual G f w g → (∀ s ∈ f, P s) → ∀ s ∈ g, P s
  | [], _, h, hf => forall_mem_of_reach hG h.1 hf
  | _ :: _, _, ⟨_, _, hfr, _, hr⟩, hf =>
    hr.forall_mem hG fun s hs =>
      forall_mem_of_reach hG hfr.1 hf s (List.mem_cons_of_mem _ hs)

/-- A form whose nonterminals and classes all derive something derives something. -/
theorem exists_yields (hf : ∀ s ∈ f, ∃ w, Yields G [s] w) : ∃ w, Yields G f w := by
  induction f with
  | nil => exact ⟨[], .nil⟩
  | cons s f ih =>
    obtain ⟨u, hu⟩ := hf s (List.mem_cons_self ..)
    obtain ⟨v, hv⟩ := ih fun t ht => hf t (List.mem_cons_of_mem _ ht)
    exact ⟨u ++ v, hu.append hv⟩

/-! ### Undefined nonterminals

A reader that meets a nonterminal without a definition fails. `Tame` says that it does not: an
undefined nonterminal stands only behind symbols that derive nothing. -/

/-- No rewriting of the form brings an undefined nonterminal to the front. -/
def Safe (G : Grammar T N) (D : N → Prop) (f : Form T N) : Prop :=
  ∀ n rest, Relation.ReflTransGen (Expand G) f (.ref n :: rest) → D n

/-- A nonterminal behind a prefix that derives some word is defined. -/
def Tame (G : Grammar T N) (D : N → Prop) (f : Form T N) : Prop :=
  ∀ pre n post, f = pre ++ .ref n :: post → (∃ w, Yields G pre w) → D n

variable {D : N → Prop}

theorem tame_of_forall_ref (h : ∀ n, .ref n ∈ f → D n) : Tame G D f := by
  rintro pre n post rfl -
  exact h n (List.mem_append_right _ (List.mem_cons_self ..))

theorem Tame.cls {p : T → Bool} {a : T} (h : Tame G D (.cls p :: f)) (ha : p a = true) :
    Tame G D f := by
  rintro pre n post rfl ⟨w, hw⟩
  exact h (.cls p :: pre) n post rfl ⟨a :: w, .cls ha hw⟩

theorem Tame.expand (hG : ∀ n, ∀ alt ∈ G n, Tame G D alt) (hf : Tame G D f)
    (hfg : Expand G f g) : Tame G D g := by
  obtain ⟨m, rest, rfl, alt, hm, rfl⟩ := hfg
  rintro pre n post heq ⟨w, hw⟩
  rcases List.append_eq_append_iff.mp heq with ⟨mid, rfl, rfl⟩ | ⟨mid, rfl, hmid⟩
  · -- behind the alternate: the nonterminal it replaces stands in the prefix
    obtain ⟨u, v, rfl, hu, hv⟩ := yields_append_iff.mp hw
    exact hf (.ref m :: mid) n post rfl ⟨u ++ v, .ref hm hu hv⟩
  · cases mid with
    | nil =>
      rw [List.nil_append] at hmid
      subst hmid
      exact hf [.ref m] n post rfl ⟨w ++ [], .ref hm (by simpa using hw) .nil⟩
    | cons s mid =>
      cases hmid
      exact hG m _ hm pre n mid rfl ⟨w, hw⟩

theorem Tame.reach (hG : ∀ n, ∀ alt ∈ G n, Tame G D alt) (hf : Tame G D f)
    (hfg : Relation.ReflTransGen (Expand G) f g) : Tame G D g := by
  induction hfg with
  | refl => exact hf
  | tail _ hs ih => exact ih.expand hG hs

theorem Tame.safe (hG : ∀ n, ∀ alt ∈ G n, Tame G D alt) (hf : Tame G D f) : Safe G D f :=
  fun n rest hr => hf.reach hG hr [] n rest rfl ⟨[], .nil⟩

theorem Tame.residual (hG : ∀ n, ∀ alt ∈ G n, Tame G D alt) : ∀ {w : List T} {f : Form T N},
    Tame G D f → Residual G f w g → Tame G D g
  | [], _, hf, hr => hf.reach hG hr.1
  | _ :: _, _, hf, ⟨_, _, hfront, ha, hr⟩ => ((hf.reach hG hfront.1).cls ha).residual hG hr

theorem Safe.expand (hf : Safe G D f) (hfg : Expand G f g) : Safe G D g :=
  fun n rest hr => hf n rest (.head hfg hr)

theorem Residual.append_cls {p : T → Bool} : ∀ {w : List T} {f : Form T N} (_ : Residual G f w
    (.cls p :: g)) (h : Form T N), Residual G (f ++ h) w (.cls p :: (g ++ h))
  | [], _, hr, h => ⟨reach_append hr.1 h, ready_cls⟩
  | _ :: _, _, ⟨q, rest, hf, ha, hr⟩, h =>
    ⟨q, rest ++ h, ⟨reach_append hf.1 h, ready_cls⟩, ha, hr.append_cls h⟩

/-- If reading never brings an undefined nonterminal to the front, the form is tame. -/
theorem tame_of_safe (h0 : Safe G D f)
    (h : ∀ w p rest a, Residual G f w (.cls p :: rest) → p a = true → Safe G D rest) :
    Tame G D f := by
  rintro pre n post rfl ⟨w, hw⟩
  rw [yields_iff_residual_nil] at hw
  induction w using List.reverseRecOn with
  | nil => exact h0 n post (reach_append hw.1 _)
  | append_singleton w a _ =>
    obtain ⟨p, rest, hr, ha, hnil⟩ := residual_append_singleton.mp hw
    exact h w p _ a (hr.append_cls _) ha n post (reach_append hnil.1 _)

/-! ### Left recursion -/

/-- `LeftCorner G m n`: some alternate of `m` has `n` behind a prefix that derives the empty
word. -/
def LeftCorner (G : Grammar T N) (m n : N) : Prop :=
  ∃ pre post, pre ++ .ref n :: post ∈ G m ∧ Nullable G pre

/-- A nonterminal that can come back to its own front: left recursion, direct, indirect or
through nullable prefixes. -/
def LeftRecursive (G : Grammar T N) (n : N) : Prop := Relation.TransGen (LeftCorner G) n n

/-- A grammar whose alternates are all ready has no left corners. -/
theorem not_leftRecursive_of_ready (hG : ∀ n, ∀ alt ∈ G n, Ready alt) (n : N) :
    ¬ LeftRecursive G n := by
  have hno : ∀ m k, ¬ LeftCorner G m k := by
    rintro m k ⟨pre, post, hmem, hpre⟩
    have hr := hG m _ hmem
    rcases pre with - | ⟨p | l, pre⟩
    · exact hr
    · exact not_nullable_cls hpre
    · exact hr
  intro h
  obtain ⟨k, hk, -⟩ := Relation.TransGen.head'_iff.mp h
  exact hno _ _ hk

/-- Without left recursion the left-corner relation of finitely many nonterminals is well
founded. -/
theorem wellFounded_leftCorner {s : Set N} (hs : s.Finite)
    (hG : ∀ m n, LeftCorner G m n → m ∈ s) (hrec : ∀ n, ¬ LeftRecursive G n) :
    WellFounded fun n m => LeftCorner G m n := by
  let r : N → N → Prop := fun n m => Relation.TransGen (LeftCorner G) m n
  have hwf : s.WellFoundedOn r := by
    have : IsTrans N r := ⟨fun a b c hab hbc => Relation.TransGen.trans hbc hab⟩
    have : Std.Irrefl r := ⟨fun a ha => hrec a ha⟩
    have : IsStrictOrder N r := { }
    exact hs.wellFoundedOn
  have hacc : ∀ m ∈ s, Acc (fun n m => LeftCorner G m n) m := by
    intro m hm
    refine hwf.induction hm fun m _ ih => ⟨m, fun n hn => ?_⟩
    by_cases hns : n ∈ s
    · exact ih n hns (.single hn)
    · exact ⟨n, fun k hk => absurd (hG _ _ hk) hns⟩
  refine ⟨fun m => ?_⟩
  by_cases hm : m ∈ s
  · exact hacc m hm
  · exact ⟨m, fun n hn => absurd (hG _ _ hn) hm⟩

/-- Rewriting `f ++ g` terminates when rewriting `f` does, and rewriting `g` does in case `f` can
vanish. -/
theorem acc_append (hf : Acc (fun g f => Expand G f g) f)
    (hg : Nullable G f → Acc (fun g f => Expand G f g) g) :
    Acc (fun g f => Expand G f g) (f ++ g) := by
  induction hf with
  | intro f _ ih =>
    rcases f with - | ⟨p | n, rest⟩
    · exact hg .nil
    · exact ⟨_, fun k hk => absurd hk (not_expand_of_ready ready_cls)⟩
    · refine ⟨_, fun k hk => ?_⟩
      obtain ⟨m, rest', heq, alt, hm, rfl⟩ := hk
      cases heq
      change Acc _ (alt ++ (rest ++ g))
      rw [← List.append_assoc]
      exact ih _ (expand_ref hm) fun hnull => hg (yields_ref_iff.mpr ⟨alt, hm, hnull⟩)

/-- **Termination.** Without left recursion every form is rewritten in finitely many steps. -/
theorem acc_expand (hwf : WellFounded fun n m => LeftCorner G m n) (f : Form T N) :
    Acc (fun g f => Expand G f g) f := by
  have href : ∀ n, Acc (fun g f => Expand G f g) ([.ref n] : Form T N) := by
    intro n
    induction n using hwf.induction with
    | _ n ih =>
      -- along an alternate, behind the part that has vanished so far
      have hsuf : ∀ suf pre : Form T N, pre ++ suf ∈ G n → Nullable G pre →
          Acc (fun g f => Expand G f g) suf := by
        intro suf
        induction suf with
        | nil => exact fun _ _ _ => ⟨_, fun k hk => absurd hk (not_expand_of_ready ready_nil)⟩
        | cons s suf ihs =>
          intro pre hmem hpre
          cases s with
          | cls p => exact ⟨_, fun k hk => absurd hk (not_expand_of_ready ready_cls)⟩
          | ref m =>
            refine acc_append (f := [.ref m]) (ih m ⟨pre, suf, hmem, hpre⟩) fun hnull => ?_
            exact ihs (pre ++ [.ref m]) (by simpa using hmem)
              (nullable_append_iff.mpr ⟨hpre, hnull⟩)
      refine ⟨_, fun k hk => ?_⟩
      obtain ⟨m, rest, heq, alt, hm, rfl⟩ := hk
      cases heq
      simpa using hsuf alt [] hm .nil
  induction f with
  | nil => exact ⟨_, fun k hk => absurd hk (not_expand_of_ready ready_nil)⟩
  | cons s f ih =>
    cases s with
    | cls p => exact ⟨_, fun k hk => absurd hk (not_expand_of_ready ready_cls)⟩
    | ref n => exact acc_append (f := [.ref n]) (href n) fun _ => ih

/-- When every nonterminal in sight has an alternate, rewriting ends in some ready form. -/
theorem exists_frontier (hG : ∀ n, ∀ alt ∈ G n, ∀ m, .ref m ∈ alt → G m ≠ [])
    (hacc : Acc (fun g f => Expand G f g) f) (hf : ∀ m, .ref m ∈ f → G m ≠ []) :
    ∃ g, Frontier G f g := by
  induction hacc with
  | intro f _ ih =>
    rcases f with - | ⟨p | n, rest⟩
    · exact ⟨_, .refl, ready_nil⟩
    · exact ⟨_, .refl, ready_cls⟩
    · obtain ⟨alt, halt⟩ := List.exists_mem_of_ne_nil _ (hf n (List.mem_cons_self ..))
      obtain ⟨g, hg⟩ := ih _ (expand_ref halt) fun m hm => by
        rcases List.mem_append.mp hm with hm | hm
        · exact hG n alt halt m hm
        · exact hf m (List.mem_cons_of_mem _ hm)
      exact ⟨g, frontier_ref_iff.mpr ⟨alt, halt, hg⟩⟩

/-- A nullable form can be rewritten away. -/
theorem reach_nil_of_nullable (hf : Nullable G f) : Relation.ReflTransGen (Expand G) f [] := by
  obtain ⟨g, ⟨hreach, hready⟩, hg⟩ := yields_iff_frontier.mp hf
  rcases g with - | ⟨p | n, rest⟩
  · exact hreach
  · exact absurd hg not_nullable_cls
  · exact hready.elim

theorem LeftCorner.reach {m n : N} (hmn : LeftCorner G m n) (f : Form T N) :
    ∃ g, Relation.TransGen (Expand G) (.ref m :: f) (.ref n :: g) := by
  obtain ⟨pre, post, hmem, hpre⟩ := hmn
  refine ⟨post ++ f, .head' (expand_ref hmem) ?_⟩
  have := reach_append (reach_nil_of_nullable hpre) (.ref n :: (post ++ f))
  simpa using this

theorem reach_of_transGen_leftCorner {m n : N} (hmn : Relation.TransGen (LeftCorner G) m n)
    (f : Form T N) : ∃ g, Relation.TransGen (Expand G) (.ref m :: f) (.ref n :: g) := by
  induction hmn with
  | single h => exact h.reach f
  | tail _ h ih =>
    obtain ⟨g, hg⟩ := ih
    obtain ⟨k, hk⟩ := h.reach g
    exact ⟨k, hg.trans hk⟩

/-- **Nontermination.** A left-recursive nonterminal in front is rewritten without end. -/
theorem not_acc_of_leftRecursive {n : N} (hn : LeftRecursive G n) (f : Form T N) :
    ¬ Acc (fun g f => Expand G f g) (.ref n :: f) := by
  have key : ∀ k, Acc (fun g f => Relation.TransGen (Expand G) f g) k →
      ∀ f, k ≠ .ref n :: f := by
    intro k hk
    induction hk with
    | intro k _ ih =>
      rintro f rfl
      obtain ⟨g, hg⟩ := reach_of_transGen_leftCorner hn f
      exact ih _ hg g rfl
  intro hacc
  refine key _ ?_ f rfl
  have hswap : (fun g f => Relation.TransGen (Expand G) f g)
      = Relation.TransGen (fun g f : Form T N => Expand G f g) := by
    funext a b
    exact propext Relation.transGen_swap.symm
  rw [hswap]
  exact hacc.transGen

end LeftmostGrammar
