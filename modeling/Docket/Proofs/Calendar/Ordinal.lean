import Docket.Calendar.Date
import Mathlib.Algebra.Order.BigOperators.Group.List
import Mathlib.Tactic.IntervalCases

/-!
# Day numbers

The dates of the calendar are numbered without a gap: a date and its number determine
each other, and a later date has a larger number.

A year and the days before it are one count, and so are a month and the days before it in
its year: each begins where the one before it ends (`daysBeforeYear_succ`,
`daysBeforeMonth_succ`). Looking up a number finds the year and then the month in which
the count passes it. The year is guessed from the mean length of years, and the guess is
never off by more than one (`yearOfOrdinal_spec`).

## Main definitions

* `Date.Before`: The order of dates, by year, month and day.

## Theorems

* `Date.ordinal_lt_iff`: Day numbers are ordered as the dates are.
* `Date.ordinal_ofOrdinal`: A number within the calendar is that of its date.
* `Date.ordinal_bounds`: The number of a date lies within the calendar.
-/

namespace Docket

namespace Date

/-- The order of dates, by year, month and day. -/
def Before (d e : Date) : Prop :=
  d.year < e.year ∨ d.year = e.year ∧ (d.month < e.month ∨ d.month = e.month ∧ d.day < e.day)

/-! ## Years -/

/-- How many days a year has. -/
def daysInYear (year : Nat) : Nat := if isLeap year then 366 else 365

theorem isLeap_iff {year : Nat} :
    isLeap year = true ↔ year % 4 = 0 ∧ (year % 100 ≠ 0 ∨ year % 400 = 0) := by
  simp only [isLeap, Bool.and_eq_true, Bool.or_eq_true, beq_iff_eq, bne_iff_ne]

/-- A count of whole parts goes up where a part is full. -/
theorem succ_div (n k : Nat) : (n + 1) / k = n / k + if (n + 1) % k = 0 then 1 else 0 := by
  rw [Nat.succ_div]
  simp only [Nat.dvd_iff_mod_eq_zero]

/-- A year begins where the one before it ends. -/
theorem daysBeforeYear_succ {year : Nat} (h : 1 ≤ year) :
    daysBeforeYear (year + 1) = daysBeforeYear year + daysInYear year := by
  obtain ⟨y, rfl⟩ := Nat.exists_eq_add_of_le' h
  unfold daysBeforeYear daysInYear
  simp only [isLeap_iff, Nat.add_sub_cancel]
  rw [succ_div y 4, succ_div y 100, succ_div y 400]
  have hle : y / 100 ≤ y / 4 := by omega
  have h₁₀₀ : (y + 1) % 100 = 0 → (y + 1) % 4 = 0 := by omega
  have h₄₀₀ : (y + 1) % 400 = 0 → (y + 1) % 100 = 0 := by omega
  -- What is left is about counts and remainders that are in no relation but these.
  generalize y / 4 = a at *
  generalize y / 100 = b at *
  generalize y / 400 = c at *
  generalize (y + 1) % 4 = r at *
  generalize (y + 1) % 100 = s at *
  generalize (y + 1) % 400 = t at *
  split_ifs <;> omega

/-- Four hundred years have 146097 days, and no count of years is further off from that
    mean than two days. -/
theorem daysBeforeYear_bounds (y : Nat) :
    146097 * y ≤ 400 * daysBeforeYear (y + 1) + 699 ∧
      400 * daysBeforeYear (y + 1) ≤ 146097 * y + 396 := by
  unfold daysBeforeYear
  simp only [Nat.add_sub_cancel]
  have h₄ := Nat.div_add_mod y 4
  have h₁₀₀ := Nat.div_add_mod y 100
  have h₄₀₀ := Nat.div_add_mod y 400
  have hr₄ := Nat.mod_lt y (show 0 < 4 by decide)
  have hr₁₀₀ := Nat.mod_lt y (show 0 < 100 by decide)
  have hr₄₀₀ := Nat.mod_lt y (show 0 < 400 by decide)
  -- With the quotients and the remainders named only linear arithmetic is left.
  generalize y / 4 = a at *
  generalize y / 100 = b at *
  generalize y / 400 = c at *
  generalize y % 4 = r at *
  generalize y % 100 = s at *
  generalize y % 400 = t at *
  omega

theorem daysBeforeYear_mono {y z : Nat} (hy : 1 ≤ y) (h : y ≤ z) :
    daysBeforeYear y ≤ daysBeforeYear z := by
  induction h with
  | refl => exact Nat.le_refl _
  | step hle ih =>
      rw [daysBeforeYear_succ (Nat.le_trans hy hle)]
      omega

/-- The year of a day is the one during which the count of days passes the day. -/
theorem yearOfOrdinal_spec {n : Nat} (h : 1 ≤ n) :
    1 ≤ yearOfOrdinal n ∧ daysBeforeYear (yearOfOrdinal n) < n ∧
      n ≤ daysBeforeYear (yearOfOrdinal n + 1) := by
  have hlow : (n - 1) * 400 / 146097 * 146097 ≤ (n - 1) * 400 := Nat.div_mul_le_self _ _
  have hhigh : (n - 1) * 400 < 146097 * ((n - 1) * 400 / 146097 + 1) :=
    Nat.lt_mul_div_succ _ (by decide)
  unfold yearOfOrdinal
  simp only []
  generalize (n - 1) * 400 / 146097 = q at *
  split
  next hle =>
    -- The first year has no days before it, so there is a year before this one.
    cases q with
    | zero =>
        have hfirst : daysBeforeYear (0 + 1) = 0 := rfl
        omega
    | succ p =>
        have hbefore := (daysBeforeYear_bounds p).2
        rw [Nat.add_sub_cancel]
        exact ⟨by omega, by omega, hle⟩
  next hlt =>
    split
    next hnext =>
      have hafter := (daysBeforeYear_bounds (q + 1 + 1)).1
      exact ⟨by omega, hnext, by omega⟩
    next hle => exact ⟨by omega, by omega, by omega⟩

/-! ## Months -/

theorem daysBeforeMonth_eq (year month : Nat) :
    daysBeforeMonth year month = ((monthLengths year).take (month - 1)).sum := by
  unfold daysBeforeMonth
  rw [List.sum_eq_foldl]

theorem length_monthLengths (year : Nat) : (monthLengths year).length = 12 := rfl

theorem sum_monthLengths (year : Nat) : (monthLengths year).sum = daysInYear year := by
  unfold monthLengths daysInYear
  split <;> rfl

/-- A month begins where the one before it ends. -/
theorem daysBeforeMonth_succ {month : Nat} (year : Nat) (h : 1 ≤ month) :
    daysBeforeMonth year (month + 1) = daysBeforeMonth year month + daysInMonth year month := by
  obtain ⟨k, rfl⟩ := Nat.exists_eq_add_of_le' h
  rw [daysBeforeMonth_eq, daysBeforeMonth_eq, Nat.add_sub_cancel, Nat.add_sub_cancel,
    List.take_add_one, List.sum_append]
  unfold daysInMonth
  rw [if_neg (by omega), Nat.add_sub_cancel]
  cases (monthLengths year)[k]? <;> rfl

theorem daysBeforeMonth_mono {m n : Nat} (year : Nat) (hm : 1 ≤ m) (h : m ≤ n) :
    daysBeforeMonth year m ≤ daysBeforeMonth year n := by
  induction h with
  | refl => exact Nat.le_refl _
  | step hle ih =>
      rw [daysBeforeMonth_succ year (Nat.le_trans hm hle)]
      omega

/-- All months together are the year. -/
theorem daysBeforeMonth_le (year month : Nat) : daysBeforeMonth year month ≤ daysInYear year := by
  rw [daysBeforeMonth_eq, ← sum_monthLengths]
  exact (List.take_sublist _ _).sum_le_sum fun _ _ => Nat.zero_le _

/-- A month with days is one of twelve. -/
theorem month_bounds {year month : Nat} (h : 0 < daysInMonth year month) :
    1 ≤ month ∧ month ≤ 12 := by
  unfold daysInMonth at h
  split at h
  · omega
  next hne =>
    by_cases hmonth : month ≤ 12
    · omega
    · rw [List.getElem?_eq_none (by rw [length_monthLengths]; omega)] at h
      exact absurd h (Nat.lt_irrefl 0)

theorem daysInMonth_le (year month : Nat) : daysInMonth year month ≤ 31 := by
  by_cases h : 0 < daysInMonth year month
  · have hmonth := month_bounds h
    unfold daysInMonth monthLengths
    rcases hmonth with ⟨h₁, h₂⟩
    interval_cases month <;> simp
    split <;> omega
  · omega

/-- The month and the day of a number of days, counted from some month on. -/
theorem monthDay_spec (lengths : List Nat) : ∀ (month n : Nat), 1 ≤ n → n ≤ lengths.sum →
    ∃ i len, lengths[i]? = some len ∧
      monthDay month lengths n = (month + i, n - (lengths.take i).sum) ∧
      (lengths.take i).sum < n ∧ n ≤ (lengths.take i).sum + len := by
  induction lengths with
  | nil =>
      intro month n hn hsum
      rw [List.sum_nil] at hsum
      omega
  | cons len rest ih =>
      intro month n hn hsum
      rw [List.sum_cons] at hsum
      -- Either the day is in the first month, or it is counted from the second one on.
      by_cases hle : n ≤ len
      · exact ⟨0, len, rfl, by simp [monthDay, hle], hn, by simpa using hle⟩
      · obtain ⟨i, l, hl, heq, hlt, hbound⟩ := ih (month + 1) (n - len) (by omega) (by omega)
        refine ⟨i + 1, l, hl, ?_, ?_, ?_⟩
        · rw [monthDay, if_neg hle, heq, List.take_succ_cons, List.sum_cons, Nat.sub_sub,
            Nat.add_assoc, Nat.add_comm 1 i]
        · rw [List.take_succ_cons, List.sum_cons]
          omega
        · rw [List.take_succ_cons, List.sum_cons]
          omega

/-! ## Dates -/

/-- The parts of a date that exists. -/
theorem Valid.bounds {d : Date} (h : d.Valid) :
    (1 ≤ d.year ∧ d.year ≤ 9999) ∧ (1 ≤ d.month ∧ d.month ≤ 12) ∧ 1 ≤ d.day ∧ d.day ≤ 31 := by
  rcases h with ⟨hlow, hhigh, hday, hmonth⟩
  refine ⟨⟨hlow, hhigh⟩, month_bounds (Nat.lt_of_lt_of_le hday hmonth), hday, ?_⟩
  exact Nat.le_trans hmonth (daysInMonth_le _ _)

/-- The day numbers of a year. -/
theorem Valid.ordinal_year {d : Date} (h : d.Valid) :
    daysBeforeYear d.year < d.ordinal ∧ d.ordinal ≤ daysBeforeYear (d.year + 1) := by
  rcases h with ⟨hlow, -, hday, hmonth⟩
  have hnext := daysBeforeMonth_succ d.year (month_bounds (Nat.lt_of_lt_of_le hday hmonth)).1
  have hyear := daysBeforeMonth_le d.year (d.month + 1)
  unfold ordinal
  rw [daysBeforeYear_succ hlow]
  omega

/-- The number of a date lies within the calendar. -/
theorem ordinal_bounds {d : Date} (h : d.Valid) : 1 ≤ d.ordinal ∧ d.ordinal ≤ maxOrdinal := by
  have hyear := h.ordinal_year
  have hlast : daysBeforeYear (d.year + 1) ≤ maxOrdinal :=
    daysBeforeYear_mono (Nat.succ_pos _) (Nat.succ_le_succ h.2.1)
  omega

theorem Before.ordinal_lt {d e : Date} (hd : d.Valid) (he : e.Valid) (h : d.Before e) :
    d.ordinal < e.ordinal := by
  rcases h with hyear | ⟨hyear, hmonth | ⟨hmonth, hday⟩⟩
  -- An earlier year has ended before the later one, and an earlier month before the later one.
  · have hnext : daysBeforeYear (d.year + 1) ≤ daysBeforeYear e.year :=
      daysBeforeYear_mono (Nat.succ_pos d.year) hyear
    have := hd.ordinal_year
    have := he.ordinal_year
    omega
  · rcases hd with ⟨-, -, hday, hbound⟩
    have hnext := daysBeforeMonth_succ d.year (month_bounds (Nat.lt_of_lt_of_le hday hbound)).1
    have hmono : daysBeforeMonth d.year (d.month + 1) ≤ daysBeforeMonth d.year e.month :=
      daysBeforeMonth_mono d.year (Nat.succ_pos d.month) hmonth
    have hpos := he.2.2.1
    unfold ordinal
    rw [← hyear]
    omega
  · unfold ordinal
    rw [hyear, hmonth]
    omega

theorem before_trichotomy (d e : Date) : d.Before e ∨ d = e ∨ e.Before d := by
  rcases d with ⟨y, m, k⟩
  rcases e with ⟨y', m', k'⟩
  simp only [Before, mk.injEq]
  omega

/-- Day numbers are ordered as the dates are. -/
theorem ordinal_lt_iff {d e : Date} (hd : d.Valid) (he : e.Valid) :
    d.ordinal < e.ordinal ↔ d.Before e := by
  constructor
  · intro hlt
    rcases before_trichotomy d e with hbefore | rfl | hafter
    · exact hbefore
    · omega
    · have := hafter.ordinal_lt he hd
      omega
  · exact Before.ordinal_lt hd he

/-- No two dates have one number. -/
theorem ordinal_inj {d e : Date} (hd : d.Valid) (he : e.Valid) :
    d.ordinal = e.ordinal ↔ d = e := by
  constructor
  · intro heq
    rcases before_trichotomy d e with hbefore | rfl | hafter
    · have := hbefore.ordinal_lt hd he
      omega
    · rfl
    · have := hafter.ordinal_lt he hd
      omega
  · rintro rfl
    rfl

/-- A number within the calendar is that of its date, which exists. -/
theorem ordinal_ofOrdinal {n : Nat} (h₁ : 1 ≤ n) (h₂ : n ≤ maxOrdinal) :
    (ofOrdinal n).Valid ∧ (ofOrdinal n).ordinal = n := by
  obtain ⟨hpos, hlow, hhigh⟩ := yearOfOrdinal_spec h₁
  unfold ofOrdinal
  simp only []
  generalize yearOfOrdinal n = year at *
  -- A year after the last one would begin after the last day.
  have hyear : year ≤ maxYear := by
    by_contra hc
    have hmono : maxOrdinal ≤ daysBeforeYear year :=
      daysBeforeYear_mono (by decide) (Nat.lt_of_not_le hc)
    omega
  rw [daysBeforeYear_succ hpos, ← sum_monthLengths] at hhigh
  obtain ⟨i, len, hlen, heq, hlt, hbound⟩ :=
    monthDay_spec (monthLengths year) 1 (n - daysBeforeYear year) (by omega) (by omega)
  rw [heq]
  have hsub : 1 + i - 1 = i := by omega
  have hdays : daysInMonth year (1 + i) = len := by
    unfold daysInMonth
    rw [if_neg (by omega), hsub, hlen]
    rfl
  refine ⟨⟨hpos, hyear, ?_, ?_⟩, ?_⟩
  · simp only []
    omega
  · simp only [hdays]
    omega
  · unfold ordinal
    simp only [daysBeforeMonth_eq, hsub]
    omega

end Date

end Docket
