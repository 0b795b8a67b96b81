import Docket.Calendar.DateTime
import Docket.Proofs.Calendar.Ordinal

/-!
# Universal time

What a local clock shows is moved to the universal clock by its instant alone. The
universal reading is the only one of that instant, and there is one exactly if the
instant lies in the years of the calendar.

An instant is a day, a second of that day and a number of microseconds. Taking it apart
and putting it together again are inverse, so both directions are arithmetic with
remainders once the days are known to be those of dates.

## Main definitions

* `DateTime.InCalendar`: Universal time has a date for the instant.

## Theorems

* `DateTime.toUtc?_eq_some_iff`: The universal reading is the one of the same instant.
* `DateTime.toUtc?_isSome_iff`: There is one if the instant is in the calendar.
-/

namespace Docket

namespace DateTime

/-- Some reading of the universal clock, in the years of the calendar, is of the same
    instant. -/
def InCalendar (t : DateTime) : Prop :=
  ∃ u : DateTime, u.Valid ∧ u.offset = some 0 ∧ u.instant = t.instant

/-- The time of day in seconds. -/
def secondOfDay (t : DateTime) : Nat := t.hour * 3600 + t.minute * 60 + t.second

theorem seconds_eq (t : DateTime) : t.seconds = t.date.ordinal * 86400 + t.secondOfDay := by
  unfold seconds secondOfDay secondsPerDay
  omega

theorem Valid.secondOfDay_lt {t : DateTime} (h : t.Valid) : t.secondOfDay < 86400 := by
  rcases h with ⟨-, hhour, hminute, hsecond, -, -⟩
  unfold secondOfDay
  omega

/-- The instant of a universal reading. -/
theorem instant_of_universal {u : DateTime} (h : u.offset = some 0) :
    u.instant = (u.seconds * 1000000 + u.microsecond : Nat) := by
  have hzero : Option.elim (some (0 : ClockOffset)) 0 ClockOffset.microseconds = 0 := rfl
  unfold instant
  rw [h, hzero]
  omega

/-- The reading at a second of a day. -/
theorem ofSeconds?_day {day second : Nat} (h₁ : 1 ≤ day) (h₂ : day ≤ Date.maxOrdinal)
    (hsecond : second < 86400) (microsecond : Nat) (offset : Option ClockOffset) :
    ofSeconds? ((day * 86400 + second : Nat) : Int) microsecond offset = some
      ⟨Date.ofOrdinal day, second / 3600, second / 60 % 60, second % 60, microsecond, offset⟩ := by
  have hday : ((day * 86400 + second : Nat) : Int) / (secondsPerDay : Nat) = day := by
    unfold secondsPerDay
    omega
  have hrest : (((day * 86400 + second : Nat) : Int) % (secondsPerDay : Nat)).toNat = second := by
    unfold secondsPerDay
    omega
  unfold ofSeconds?
  simp only []
  rw [hday, hrest, if_pos ⟨by omega, by omega⟩, Int.toNat_natCast]

/-- Outside of the calendar there is no reading. -/
theorem day_of_ofSeconds? {n : Int} {microsecond : Nat} {offset : Option ClockOffset}
    {u : DateTime} (h : ofSeconds? n microsecond offset = some u) :
    ∃ day second : Nat, n = (day * 86400 + second : Nat) ∧ second < 86400 ∧ 1 ≤ day ∧
      day ≤ Date.maxOrdinal := by
  unfold ofSeconds? at h
  simp only [] at h
  split at h
  next hday =>
    unfold secondsPerDay at hday
    exact ⟨(n / 86400).toNat, (n % 86400).toNat, by omega, by omega, by omega, by omega⟩
  next => cases h

/-- A universal reading is found again from its instant. -/
theorem ofSeconds?_instant {u : DateTime} (hu : u.Valid) (ho : u.offset = some 0) :
    ofSeconds? (u.instant / 1000000) (u.instant % 1000000).toNat (some 0) = some u := by
  have hday := Date.ordinal_bounds hu.1
  have htime := hu.secondOfDay_lt
  have hdate : Date.ofOrdinal u.date.ordinal = u.date := by
    obtain ⟨hvalid, heq⟩ := Date.ordinal_ofOrdinal hday.1 hday.2
    exact (Date.ordinal_inj hvalid hu.1).mp heq
  -- The seconds and the microseconds are read off the instant again, and the day off the seconds.
  have hseconds : u.instant / 1000000 = (u.date.ordinal * 86400 + u.secondOfDay : Nat) := by
    have hmicro := hu.2.2.2.2.1
    rw [instant_of_universal ho, seconds_eq]
    omega
  have hmicros : (u.instant % 1000000).toNat = u.microsecond := by
    have hmicro := hu.2.2.2.2.1
    rw [instant_of_universal ho]
    omega
  rw [hseconds, hmicros, ofSeconds?_day hday.1 hday.2 htime, hdate]
  rcases u with ⟨date, hour, minute, second, micro, offset⟩
  obtain rfl : offset = some 0 := ho
  rcases hu with ⟨-, hhour, hminute, hsecond, -, -⟩
  simp only [secondOfDay, Option.some.injEq, mk.injEq, true_and, and_true] at *
  omega

/-- What is read off the universal clock is a reading of the given instant. -/
theorem valid_of_ofSeconds? {n : Int} {u : DateTime}
    (h : ofSeconds? (n / 1000000) (n % 1000000).toNat (some 0) = some u) :
    u.Valid ∧ u.offset = some 0 ∧ u.instant = n := by
  obtain ⟨day, second, heq, hsecond, h₁, h₂⟩ := day_of_ofSeconds? h
  rw [heq, ofSeconds?_day h₁ h₂ hsecond] at h
  obtain ⟨hvalid, hordinal⟩ := Date.ordinal_ofOrdinal h₁ h₂
  have hoffset : ∀ o ∈ some (0 : ClockOffset), o.microseconds.natAbs < microsecondsPerDay := by
    rintro o ⟨⟩
    decide
  rw [← Option.some.inj h]
  refine ⟨⟨hvalid, ?_, ?_, ?_, ?_, hoffset⟩, rfl, ?_⟩
  -- Each part of the clock is what is left of the second of the day, below its own bound.
  · change second / 3600 < 24
    omega
  · change second / 60 % 60 < 60
    omega
  · change second % 60 < 60
    omega
  · change (n % 1000000).toNat < 1000000
    omega
  · rw [instant_of_universal rfl, seconds_eq, secondOfDay, hordinal]
    simp only []
    omega

/-- The universal reading is the one of the same instant. -/
theorem toUtc?_eq_some_iff {t u : DateTime} :
    t.toUtc? = some u ↔ u.Valid ∧ u.offset = some 0 ∧ u.instant = t.instant := by
  constructor
  · exact valid_of_ofSeconds?
  · rintro ⟨hu, ho, hinstant⟩
    unfold toUtc?
    rw [← hinstant]
    exact ofSeconds?_instant hu ho

/-- There is a universal reading if the instant is in the calendar. -/
theorem toUtc?_isSome_iff {t : DateTime} : t.toUtc?.isSome = true ↔ t.InCalendar := by
  rw [Option.isSome_iff_exists]
  exact exists_congr fun u => toUtc?_eq_some_iff

end DateTime

end Docket
