import Docket.Calendar.Date

/-!
# Points in time

A date with a time of day to the microsecond, read on a local clock. It may be
known how far the clock is ahead of universal time; then the reading is *aware*
and denotes an instant, otherwise it is *naive*. Clocks are mostly off by whole
seconds, so a bare number stands for an offset in seconds.

Written forms have milliseconds, the rest being dropped. An aware time is first
moved to universal time, which fails at the ends of the calendar, and carries a
final `Z`.

## Main definitions

* `ClockOffset`: How far a clock is ahead of universal time.
* `DateTime`: A reading of a clock.
* `DateTime.toUtc?`: The same instant on the universal clock.
* `DateTime.text?`: The written form.
* `Duration`: A length of time.
-/

namespace Docket

/-- How far a clock is ahead of universal time. -/
structure ClockOffset where
  microseconds : Int
deriving DecidableEq, Inhabited

namespace ClockOffset

def ofSeconds (n : Int) : ClockOffset := ⟨n * 1000000⟩

/-- The whole seconds of an offset. -/
def seconds (o : ClockOffset) : Int := o.microseconds.tdiv 1000000

instance (n : Nat) : OfNat ClockOffset n := ⟨ofSeconds n⟩

instance : Neg ClockOffset := ⟨fun o => ⟨-o.microseconds⟩⟩

instance : Coe Int ClockOffset := ⟨ofSeconds⟩

instance : CoeOut (Option Int) (Option ClockOffset) := ⟨Option.map ofSeconds⟩

instance : CoeOut ClockOffset Int := ⟨seconds⟩

/-- An offset as text: hours and minutes with a sign, and then seconds and their
    fraction if there are any. -/
def text (o : ClockOffset) : List Char :=
  let n := o.microseconds.natAbs
  (if o.microseconds < 0 then '-' else '+') :: padded 2 (n / 1000000 / 3600) ++
    ':' :: padded 2 (n / 1000000 / 60 % 60) ++
    (if n % 60000000 = 0 then [] else ':' :: padded 2 (n / 1000000 % 60)) ++
    (if n % 1000000 = 0 then [] else '.' :: padded 6 (n % 1000000))

end ClockOffset

/-- A reading of a clock; `offset` says how far the clock is ahead of universal
    time, if that is known. -/
structure DateTime where
  date : Date
  hour : Nat
  minute : Nat
  second : Nat
  microsecond : Nat
  offset : Option ClockOffset
deriving DecidableEq, Inhabited

namespace DateTime

def secondsPerDay : Nat := 86400

def microsecondsPerDay : Nat := secondsPerDay * 1000000

/-- Readings of the clock that exist. The clock is off by less than a day. -/
def Valid (t : DateTime) : Prop :=
  t.date.Valid ∧ t.hour < 24 ∧ t.minute < 60 ∧ t.second < 60 ∧ t.microsecond < 1000000 ∧
    ∀ o ∈ t.offset, o.microseconds.natAbs < microsecondsPerDay

instance (t : DateTime) : Decidable t.Valid := by unfold Valid; infer_instance

/-- Seconds since the day before day one began. -/
def seconds (t : DateTime) : Nat :=
  t.date.ordinal * secondsPerDay + t.hour * 3600 + t.minute * 60 + t.second

/-- The clock's reading at a number of seconds, if it is within the calendar. -/
def ofSeconds? (seconds : Int) (microsecond : Nat) (offset : Option ClockOffset) :
    Option DateTime :=
  let day := seconds / secondsPerDay
  if 1 ≤ day ∧ day ≤ Date.maxOrdinal then
    let rest := (seconds % secondsPerDay).toNat
    some ⟨Date.ofOrdinal day.toNat, rest / 3600, rest / 60 % 60, rest % 60, microsecond, offset⟩
  else none

/-- The instant of an aware time, or the local reading of a naive one, in
    microseconds. -/
def instant (t : DateTime) : Int :=
  (t.seconds : Int) * 1000000 + t.microsecond - t.offset.elim 0 ClockOffset.microseconds

/-- The same instant on the universal clock, if it is within the calendar
    there. -/
def toUtc? (t : DateTime) : Option DateTime :=
  ofSeconds? (t.instant / 1000000) (t.instant % 1000000).toNat (some 0)

/-- The reading without the clock's offset, to the millisecond. -/
def localText (t : DateTime) : String :=
  t.date.text ++ String.ofList
    ('T' :: padded 2 t.hour ++ ':' :: padded 2 t.minute ++ ':' :: padded 2 t.second
      ++ '.' :: padded 3 (t.microsecond / 1000))

/-- The written form: the universal time of an aware reading, the reading
    itself of a naive one. -/
def text? (t : DateTime) : Option String :=
  match t.offset with
  | none => some t.localText
  | some _ => t.toUtc?.map fun u => u.localText ++ "Z"

end DateTime

/-- A length of time, normalized so that only the days can be negative. -/
structure Duration where
  days : Int
  seconds : Nat
  microseconds : Nat
deriving DecidableEq, Inhabited

namespace Duration

/-- The length of a number of microseconds. -/
def ofMicroseconds (n : Int) : Duration :=
  let perDay : Int := 86400 * 1000000
  let rest := (n % perDay).toNat
  ⟨n / perDay, rest / 1000000, rest % 1000000⟩

/-- The length in microseconds. -/
def toMicroseconds (d : Duration) : Int :=
  (d.days * 86400 + d.seconds) * 1000000 + d.microseconds

end Duration

end Docket
