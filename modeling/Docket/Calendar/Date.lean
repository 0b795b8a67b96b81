/-!
# Calendar dates

Dates of the Gregorian calendar, extended to the years before it was in use.
Days are numbered from the first of January of year one, which is day one, so
that arithmetic on dates is arithmetic on day numbers.

## Main definitions

* `Date`: A year, a month and a day.
* `Date.Valid`: The dates of the years 1 to 9999.
* `Date.ordinal`, `Date.ofOrdinal`: The day number of a date, and back.
* `Date.text`: The written form, year first.
-/

namespace Docket

structure Date where
  year : Nat
  month : Nat
  day : Nat
deriving DecidableEq, Inhabited

/-- A number with at least `width` digits. -/
def padded (width n : Nat) : List Char :=
  let digits := (toString n).toList
  List.replicate (width - digits.length) '0' ++ digits

namespace Date

/-- Every fourth year has a day more, of the hundredth years only every
    fourth. -/
def isLeap (year : Nat) : Bool :=
  year % 4 == 0 && (year % 100 != 0 || year % 400 == 0)

/-- The lengths of the months, in order. -/
def monthLengths (year : Nat) : List Nat :=
  [31, if isLeap year then 29 else 28, 31, 30, 31, 30, 31, 31, 30, 31, 30, 31]

/-- The length of a month; a number that is no month has no days. -/
def daysInMonth (year month : Nat) : Nat :=
  if month = 0 then 0 else (monthLengths year)[month - 1]?.getD 0

def minYear : Nat := 1

def maxYear : Nat := 9999

/-- The dates that exist. -/
def Valid (d : Date) : Prop :=
  minYear ≤ d.year ∧ d.year ≤ maxYear ∧ 1 ≤ d.day ∧ d.day ≤ daysInMonth d.year d.month

instance (d : Date) : Decidable d.Valid := by unfold Valid; infer_instance

/-- How many days lie before a year. -/
def daysBeforeYear (year : Nat) : Nat :=
  let y := year - 1
  y * 365 + y / 4 - y / 100 + y / 400

/-- How many days of a year lie before a month. -/
def daysBeforeMonth (year month : Nat) : Nat :=
  ((monthLengths year).take (month - 1)).foldl (· + ·) 0

/-- The number of the day. -/
def ordinal (d : Date) : Nat :=
  daysBeforeYear d.year + daysBeforeMonth d.year d.month + d.day

/-- The number of the last day of the last year. -/
def maxOrdinal : Nat := daysBeforeYear (maxYear + 1)

/-- The month and day that the `n`-th day of a year falls on, given the lengths
    of the months from month `month` on. -/
def monthDay (month : Nat) : List Nat → Nat → Nat × Nat
  | [], n => (month, n)
  | len :: rest, n => if n ≤ len then (month, n) else monthDay (month + 1) rest (n - len)

/-- The year a day falls in: the mean length of a year gives it up to one. -/
def yearOfOrdinal (n : Nat) : Nat :=
  let guess := (n - 1) * 400 / 146097 + 1
  if n ≤ daysBeforeYear guess then guess - 1
  else if daysBeforeYear (guess + 1) < n then guess + 1 else guess

/-- The date of a day number. -/
def ofOrdinal (n : Nat) : Date :=
  let year := yearOfOrdinal n
  let (month, day) := monthDay 1 (monthLengths year) (n - daysBeforeYear year)
  ⟨year, month, day⟩

/-- The written form: four digits of year, two of month and two of day. -/
def text (d : Date) : String :=
  String.ofList (padded 4 d.year ++ '-' :: padded 2 d.month ++ '-' :: padded 2 d.day)

end Date

end Docket
