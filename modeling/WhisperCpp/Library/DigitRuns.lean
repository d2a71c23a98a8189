import Mathlib.Data.List.DropRight
import Mathlib.Data.Nat.Digits.Defs
import Mathlib.Data.UInt

/-!
# Decimal numbers in a text

Numbers are written in decimal, and the runs of digits in a text are read as numbers again.

## Main definitions

* `decimal` — a number as digits
* `digitRuns`, `value` — the runs of digits, and what one stands for

## Main results

* `value_decimal` — a number is read as it was written
* `digitRuns_append_cons` — a text may be cut at what is no digit
-/

namespace DigitRuns

/-- `std::isdigit`. -/
def isDigit (c : UInt8) : Bool := 48 ≤ c && c ≤ 57

/-- A number as digits. -/
def decimal (n : ℕ) : List UInt8 :=
  if n = 0 then [48] else (Nat.digits 10 n).reverse.map fun d => .ofNat (48 + d)

/-- What a run of digits stands for. -/
def value (run : List UInt8) : ℕ := run.foldl (fun v c => 10 * v + (c.toNat - 48)) 0

/-- The runs of digits in a text. -/
def digitRuns (s : List UInt8) : List (List UInt8) :=
  match _h : s.dropWhile fun c => !isDigit c with
  | [] => []
  | c :: rest => (c :: rest.takeWhile isDigit) :: digitRuns (rest.dropWhile isDigit)
termination_by s.length
decreasing_by
  have hle := (List.dropWhile_sublist (fun c => !isDigit c) (l := s)).length_le
  have hrest := (List.dropWhile_sublist isDigit (l := rest)).length_le
  rw [_h, List.length_cons] at hle
  omega

section Lemmas

variable {s u v r : List UInt8} {c : UInt8} {n : ℕ}

theorem isDigit_ofNat {d : ℕ} (hd : d < 10) : isDigit (.ofNat (48 + d)) = true := by
  have hall : ∀ d : Fin 10, isDigit (.ofNat (48 + d)) = true := by decide
  exact hall ⟨d, hd⟩

theorem decimal_ne_nil (n : ℕ) : decimal n ≠ [] := by
  rw [decimal]
  split_ifs with h
  · simp
  · simpa [Nat.digits_eq_nil_iff_eq_zero] using h

theorem isDigit_of_mem_decimal (h : c ∈ decimal n) : isDigit c = true := by
  rw [decimal] at h
  split_ifs at h
  · obtain rfl := List.mem_singleton.mp h
    rfl
  · obtain ⟨d, hd, rfl⟩ := List.mem_map.mp h
    exact isDigit_ofNat (Nat.digits_lt_base (by omega) (List.mem_reverse.mp hd))

/-- **A number is read as it was written.** -/
theorem value_decimal (n : ℕ) : value (decimal n) = n := by
  have hdigits : ∀ ds : List ℕ, (∀ d ∈ ds, d < 10) →
      value (ds.reverse.map fun d => .ofNat (48 + d)) = Nat.ofDigits 10 ds := by
    intro ds hds
    induction ds with
    | nil => rfl
    | cons d ds ih =>
      obtain ⟨hd, hds⟩ := List.forall_mem_cons.mp hds
      have hone : (UInt8.ofNat (48 + d)).toNat = 48 + d := by
        rw [UInt8.toNat_ofNat']
        omega
      rw [value] at ih ⊢
      rw [List.reverse_cons, List.map_append, List.foldl_append, ih hds]
      simp only [List.map_cons, List.map_nil, List.foldl_cons, List.foldl_nil, hone,
        Nat.ofDigits_cons]
      omega
  rw [decimal]
  split_ifs with h
  · exact h.symm
  · rw [hdigits _ fun d hd => Nat.digits_lt_base (by omega) hd, Nat.ofDigits_digits]

/-! ### Runs -/

theorem digitRuns_nil : digitRuns [] = [] := by
  rw [digitRuns]
  split
  · rfl
  · rename_i h
    cases h

theorem digitRuns_cons_of_not (hc : isDigit c = false) (s : List UInt8) :
    digitRuns (c :: s) = digitRuns s := by
  have hskip : (c :: s).dropWhile (fun c => !isDigit c) = s.dropWhile fun c => !isDigit c :=
    List.dropWhile_cons_of_pos (by simp [hc])
  rw [digitRuns, digitRuns]
  split <;> split <;> simp_all

theorem digitRuns_of_not (h : ∀ c ∈ s, isDigit c = false) : digitRuns s = [] := by
  induction s with
  | nil => exact digitRuns_nil
  | cons c s ih =>
    obtain ⟨hc, hs⟩ := List.forall_mem_cons.mp h
    rw [digitRuns_cons_of_not hc, ih hs]

/-- A run in front of what is no digit. -/
theorem digitRuns_run (hne : r ≠ []) (hr : ∀ c ∈ r, isDigit c = true)
    (hv : ∀ c ∈ v.head?, isDigit c = false) : digitRuns (r ++ v) = r :: digitRuns v := by
  obtain ⟨c, r, rfl⟩ := List.exists_cons_of_ne_nil hne
  obtain ⟨hc, hr⟩ := List.forall_mem_cons.mp hr
  have hstop : v.takeWhile isDigit = [] ∧ v.dropWhile isDigit = v := by
    cases v with
    | nil => exact ⟨rfl, rfl⟩
    | cons d v => simp [hv d rfl]
  have htake : (r ++ v).takeWhile isDigit = r := by
    rw [List.takeWhile_append_of_pos hr, hstop.1, List.append_nil]
  have hdrop : (r ++ v).dropWhile isDigit = v := by
    rw [List.dropWhile_append_of_pos hr, hstop.2]
  have hstart : (c :: (r ++ v)).dropWhile (fun c => !isDigit c) = c :: (r ++ v) :=
    List.dropWhile_cons_of_neg (by simp [hc])
  rw [List.cons_append, digitRuns]
  split
  · rename_i h
    rw [hstart] at h
    cases h
  · rename_i h
    rw [hstart] at h
    obtain ⟨rfl, rfl⟩ := List.cons.inj h
    rw [htake, hdrop]

/-- **At what is no digit** a text may be cut. -/
theorem digitRuns_append_cons (hc : isDigit c = false) (u v : List UInt8) :
    digitRuns (u ++ c :: v) = digitRuns u ++ digitRuns v := by
  induction hlen : u.length using Nat.strong_induction_on generalizing u with
  | _ n ih =>
    cases u with
    | nil => rw [List.nil_append, digitRuns_nil, List.nil_append, digitRuns_cons_of_not hc]
    | cons d u =>
      rw [List.length_cons] at hlen
      by_cases hd : isDigit d = true
      · -- the first run ends in front of `c`
        have hr : ∀ x ∈ d :: u.takeWhile isDigit, isDigit x = true := by
          intro x hx
          rcases List.mem_cons.mp hx with rfl | hx
          · exact hd
          · exact List.mem_takeWhile_imp hx
        have hsplit : d :: u = (d :: u.takeWhile isDigit) ++ u.dropWhile isDigit := by
          rw [List.cons_append, List.takeWhile_append_dropWhile]
        have hstop : ∀ x ∈ (u.dropWhile isDigit).head?, isDigit x = false := by
          intro x hx
          have hnot := List.head?_dropWhile_not isDigit u
          rwa [hx] at hnot
        have hle := (List.dropWhile_sublist isDigit (l := u)).length_le
        have hstop' : ∀ x ∈ (u.dropWhile isDigit ++ c :: v).head?, isDigit x = false := by
          cases hrest : u.dropWhile isDigit with
          | nil => simpa using hc
          | cons e w =>
            rw [hrest] at hstop
            exact hstop
        rw [hsplit, List.append_assoc, digitRuns_run (by simp) hr hstop',
          digitRuns_run (by simp) hr hstop, ih _ (by omega) _ rfl, List.cons_append]
      · rw [Bool.not_eq_true] at hd
        rw [List.cons_append, digitRuns_cons_of_not hd, digitRuns_cons_of_not hd,
          ih u.length (by omega) u rfl]

/-- What has no digits brings no runs. -/
theorem digitRuns_append_of_not (hv : ∀ c ∈ v, isDigit c = false) (u : List UInt8) :
    digitRuns (u ++ v) = digitRuns u := by
  cases v with
  | nil => rw [List.append_nil]
  | cons c v =>
    obtain ⟨hc, hv⟩ := List.forall_mem_cons.mp hv
    rw [digitRuns_append_cons hc, digitRuns_of_not hv, List.append_nil]

end Lemmas

end DigitRuns
