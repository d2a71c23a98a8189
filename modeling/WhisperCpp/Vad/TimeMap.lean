import Mathlib

/-!
# The time map

`map_processed_to_original_time` takes a time in the filtered audio to one in the original audio,
by integer interpolation in a table of known times. In an increasing table it is monotone, and it
returns the known times at the known points.

## Main definitions

* `TimeMapping`, `mapProcessedToOriginal`
* `Increasing` — processed times grow, original times do not fall

## Main results

* `mapProcessedToOriginal_monotone`, `mapProcessedToOriginal_mem`,
  `mapProcessedToOriginal_of_mem`
-/

namespace WhisperCpp

namespace Vad

/-- `vad_time_mapping`. -/
structure TimeMapping where
  processedTime : ℤ
  originalTime : ℤ
  deriving DecidableEq, Repr

/-- The time between two known points. -/
def interpolate (lower upper : TimeMapping) (time : ℤ) : ℤ :=
  if upper.processedTime = time then upper.originalTime
  else if upper.processedTime - lower.processedTime = 0 then lower.originalTime
  else lower.originalTime +
    ((time - lower.processedTime) * (upper.originalTime - lower.originalTime)).tdiv
      (upper.processedTime - lower.processedTime)

/-- `std::lower_bound` and the interpolation: `upper` is the first entry that is not before `time`,
and `lower` the one before it. -/
def lookup (time : ℤ) : TimeMapping → List TimeMapping → ℤ
  | lower, [] => lower.originalTime
  | lower, upper :: rest =>
    if upper.processedTime < time then lookup time upper rest else interpolate lower upper time

/-- `map_processed_to_original_time`. -/
def mapProcessedToOriginal (time : ℤ) : List TimeMapping → ℤ
  | [] => time
  | first :: rest =>
    let last := (first :: rest).getLast (List.cons_ne_nil _ _)
    if time ≤ first.processedTime then first.originalTime
    else if last.processedTime ≤ time then last.originalTime
    else lookup time first rest

/-- The processed times grow, and the original times do not fall. -/
def Increasing (table : List TimeMapping) : Prop :=
  table.Pairwise fun a b => a.processedTime < b.processedTime ∧ a.originalTime ≤ b.originalTime

instance (table : List TimeMapping) : Decidable (Increasing table) :=
  inferInstanceAs (Decidable (table.Pairwise fun a b =>
    a.processedTime < b.processedTime ∧ a.originalTime ≤ b.originalTime))

section Lemmas

variable {lower upper first : TimeMapping} {rest table : List TimeMapping} {time time' : ℤ}

/-! ### Between two points -/

theorem interpolate_eq (hlow : lower.processedTime < time) (hup : time ≤ upper.processedTime)
    (horig : lower.originalTime ≤ upper.originalTime) :
    interpolate lower upper time = lower.originalTime +
      (time - lower.processedTime) * (upper.originalTime - lower.originalTime) /
        (upper.processedTime - lower.processedTime) := by
  have hpos : 0 ≤ (time - lower.processedTime) * (upper.originalTime - lower.originalTime) :=
    mul_nonneg (by omega) (by omega)
  rw [interpolate]
  split
  · rename_i heq
    subst heq
    rw [mul_comm, Int.mul_ediv_cancel _ (by omega)]
    omega
  · rw [if_neg (by omega), Int.tdiv_eq_ediv_of_nonneg hpos]

theorem le_interpolate (hlow : lower.processedTime < time) (hup : time ≤ upper.processedTime)
    (horig : lower.originalTime ≤ upper.originalTime) :
    lower.originalTime ≤ interpolate lower upper time := by
  rw [interpolate_eq hlow hup horig]
  have : 0 ≤ (time - lower.processedTime) * (upper.originalTime - lower.originalTime) /
      (upper.processedTime - lower.processedTime) :=
    Int.ediv_nonneg (mul_nonneg (by omega) (by omega)) (by omega)
  omega

theorem interpolate_mono (hlow : lower.processedTime < time) (hle : time ≤ time')
    (hup : time' ≤ upper.processedTime) (horig : lower.originalTime ≤ upper.originalTime) :
    interpolate lower upper time ≤ interpolate lower upper time' := by
  rw [interpolate_eq hlow (hle.trans hup) horig, interpolate_eq (hlow.trans_le hle) hup horig]
  have : (time - lower.processedTime) * (upper.originalTime - lower.originalTime) /
      (upper.processedTime - lower.processedTime) ≤
      (time' - lower.processedTime) * (upper.originalTime - lower.originalTime) /
        (upper.processedTime - lower.processedTime) :=
    Int.ediv_le_ediv (by omega) (mul_le_mul_of_nonneg_right (by omega) (by omega))
  omega

theorem interpolate_le (hlow : lower.processedTime < time) (hup : time ≤ upper.processedTime)
    (horig : lower.originalTime ≤ upper.originalTime) :
    interpolate lower upper time ≤ upper.originalTime := by
  have hend : interpolate lower upper upper.processedTime = upper.originalTime := if_pos rfl
  exact hend ▸ interpolate_mono hlow hup le_rfl horig

/-! ### In a table -/

theorem lookup_cons (h : Increasing (lower :: upper :: rest)) :
    lower.processedTime < upper.processedTime ∧ lower.originalTime ≤ upper.originalTime ∧
      Increasing (upper :: rest) := by
  obtain ⟨h1, h2⟩ := List.pairwise_cons.mp h
  exact ⟨(h1 upper (List.mem_cons_self ..)).1, (h1 upper (List.mem_cons_self ..)).2, h2⟩

theorem le_lookup (h : Increasing (lower :: rest)) (hlow : lower.processedTime < time) :
    lower.originalTime ≤ lookup time lower rest := by
  induction rest generalizing lower with
  | nil => exact le_rfl
  | cons upper rest ih =>
    obtain ⟨h1, h2, h3⟩ := lookup_cons h
    rw [lookup]
    split
    · rename_i hlt
      exact h2.trans (ih h3 hlt)
    · rename_i hge
      exact le_interpolate hlow (not_lt.mp hge) h2

theorem lookup_mono (h : Increasing (lower :: rest)) (hlow : lower.processedTime < time)
    (hle : time ≤ time') : lookup time lower rest ≤ lookup time' lower rest := by
  induction rest generalizing lower with
  | nil => exact le_rfl
  | cons upper rest ih =>
    obtain ⟨h1, h2, h3⟩ := lookup_cons h
    unfold lookup
    by_cases htime : upper.processedTime < time
    · rw [if_pos htime, if_pos (htime.trans_le hle)]
      exact ih h3 htime
    · rw [if_neg htime]
      split
      · rename_i htime'
        exact (interpolate_le hlow (not_lt.mp htime) h2).trans (le_lookup h3 htime')
      · rename_i htime'
        exact interpolate_mono hlow hle (not_lt.mp htime') h2

/-- At a known point, the known time is returned. -/
theorem lookup_of_mem (h : Increasing (lower :: rest)) {e : TimeMapping} (he : e ∈ rest) :
    lookup e.processedTime lower rest = e.originalTime := by
  induction rest generalizing lower with
  | nil => cases he
  | cons upper rest ih =>
    obtain ⟨-, -, h3⟩ := lookup_cons h
    rw [lookup]
    rcases List.mem_cons.mp he with rfl | he
    · rw [if_neg (lt_irrefl _)]
      exact if_pos rfl
    · have hlt := ((List.pairwise_cons.mp h3).1 e he).1
      rw [if_pos hlt]
      exact ih h3 he

/-- Behind the last point, the last time is returned. -/
theorem lookup_last (h : Increasing (lower :: rest))
    (hlast : ((lower :: rest).getLast (List.cons_ne_nil _ _)).processedTime ≤ time) :
    lookup time lower rest =
      ((lower :: rest).getLast (List.cons_ne_nil _ _)).originalTime := by
  induction rest generalizing lower with
  | nil => rfl
  | cons upper rest ih =>
    obtain ⟨-, -, h3⟩ := lookup_cons h
    rw [List.getLast_cons (List.cons_ne_nil _ _)] at hlast ⊢
    rw [lookup]
    split
    · exact ih h3 hlast
    · rename_i hge
      -- only the last point is not before `time`
      have hmem := List.getLast_mem (List.cons_ne_nil upper rest)
      generalize (upper :: rest).getLast _ = last at *
      rcases List.mem_cons.mp hmem with rfl | hmem
      · exact if_pos (by omega)
      · have := ((List.pairwise_cons.mp h3).1 last hmem).1
        omega

/-- In an increasing table the time map is the search, clamped at the first point only. -/
theorem mapProcessedToOriginal_cons (h : Increasing (first :: rest)) (time : ℤ) :
    mapProcessedToOriginal time (first :: rest) =
      if time ≤ first.processedTime then first.originalTime else lookup time first rest := by
  unfold mapProcessedToOriginal
  simp only
  split
  · rfl
  · split
    · rename_i hlast
      exact (lookup_last h hlast).symm
    · rfl

/-- **The time map is monotone.** -/
theorem mapProcessedToOriginal_monotone (h : Increasing table) :
    Monotone fun time => mapProcessedToOriginal time table := by
  intro time time' hle
  cases table with
  | nil => exact hle
  | cons first rest =>
    simp only [mapProcessedToOriginal_cons h]
    by_cases htime : time ≤ first.processedTime
    · rw [if_pos htime]
      split
      · exact le_rfl
      · exact le_lookup h (by omega)
    · rw [if_neg htime, if_neg (by omega)]
      exact lookup_mono h (by omega) hle

/-- **The time map returns the known times.** -/
theorem mapProcessedToOriginal_of_mem (h : Increasing table) {e : TimeMapping} (he : e ∈ table) :
    mapProcessedToOriginal e.processedTime table = e.originalTime := by
  cases table with
  | nil => cases he
  | cons first rest =>
    rw [mapProcessedToOriginal_cons h]
    rcases List.mem_cons.mp he with rfl | he
    · exact if_pos le_rfl
    · have := ((List.pairwise_cons.mp h).1 e he).1
      rw [if_neg (by omega)]
      exact lookup_of_mem h he

/-- **The time map stays within the table.** -/
theorem mapProcessedToOriginal_mem (h : Increasing table) (hne : table ≠ []) (time : ℤ) :
    (table.head hne).originalTime ≤ mapProcessedToOriginal time table ∧
      mapProcessedToOriginal time table ≤ (table.getLast hne).originalTime := by
  have hmono := mapProcessedToOriginal_monotone h
  have hfirst := mapProcessedToOriginal_of_mem h (List.head_mem hne)
  have hlast := mapProcessedToOriginal_of_mem h (List.getLast_mem hne)
  obtain ⟨first, rest, rfl⟩ := List.exists_cons_of_ne_nil hne
  constructor
  · by_cases hle : first.processedTime ≤ time
    · exact hfirst ▸ hmono hle
    · rw [mapProcessedToOriginal_cons h, if_pos (by omega)]
      exact le_rfl
  · by_cases hle : time ≤ ((first :: rest).getLast hne).processedTime
    · exact hlast ▸ hmono hle
    · rw [mapProcessedToOriginal_cons h]
      split
      · rename_i hfirst'
        have heq : mapProcessedToOriginal ((first :: rest).getLast hne).processedTime
            (first :: rest) = first.originalTime := by
          rw [mapProcessedToOriginal_cons h, if_pos (by omega)]
        rw [← hlast, heq]
      · exact (lookup_last h (not_le.mp hle).le).le

end Lemmas

end Vad

end WhisperCpp
