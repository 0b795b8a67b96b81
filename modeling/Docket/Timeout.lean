import Docket.Failure
import Docket.Number.Literal
import Docket.Text.Digit
import Docket.Text.Lower

/-!
# Timeouts

How long to wait, in seconds, or without limit. A timeout is given as a number
of seconds, as a length of time, or as text: a numeral and a unit, as in
`500ms`, with blanks around either. The text `-1` and everything beyond the
longest wait there is mean no limit.

The letters of a unit may be large or small. The long s and both letters i
without case partner are taken for s and i as well, but they do not turn into
those letters when made small, and the length of a unit is looked up by its
small letters; so a unit spelled with one of them is recognized and then not
found.

## Main definitions

* `TimeUnit`: The units.
* `readTimeValue?`: A text taken apart into its numeral and its unit.
* `Timeout.ofValue`: The timeout a value stands for.
-/

namespace Docket

inductive TimeUnit where
  | nanos
  | micros
  | millis
  | seconds
  | minutes
  | hours
  | days
deriving DecidableEq, Inhabited

namespace TimeUnit

def all : List TimeUnit := [nanos, micros, millis, seconds, minutes, hours, days]

def name : TimeUnit → String
  | nanos => "nanos"
  | micros => "micros"
  | millis => "ms"
  | seconds => "s"
  | minutes => "m"
  | hours => "h"
  | days => "d"

/-- The length in seconds, as a ratio. -/
def ratio : TimeUnit → Nat × Nat
  | nanos => (1, 10 ^ 9)
  | micros => (1, 10 ^ 6)
  | millis => (1, 10 ^ 3)
  | seconds => (1, 1)
  | minutes => (60, 1)
  | hours => (3600, 1)
  | days => (86400, 1)

/-- The length in seconds, rounded to a floating-point number. -/
def length (u : TimeUnit) : Binary64 := .ofRatio false u.ratio.1 u.ratio.2

def ofName? (s : String) : Option TimeUnit := all.find? (·.name == s)

/-- Whether a character is taken for a small letter of a unit's name. -/
def standsFor (letter c : Char) : Bool :=
  lowerChar c == [letter] || (letter == 's' && c == 'ſ') ||
    (letter == 'i' && (c == 'ı' || c == 'İ'))

/-- Whether a text is taken for the name of a unit. -/
def isSpelled (u : TimeUnit) (cs : List Char) : Bool :=
  let letters := u.name.toList
  letters.length == cs.length && (letters.zip cs).all fun p => standsFor p.1 p.2

end TimeUnit

/-- A numeral at the start of a text: digits of any script and, after a point,
    more of them. -/
def takeNumeral (cs : List Char) : List Char × List Char :=
  let whole := cs.takeWhile isDigit
  let rest := cs.dropWhile isDigit
  match rest with
  | '.' :: more =>
    let fraction := more.takeWhile isDigit
    -- The point belongs to the numeral only with digits on both sides.
    if whole.isEmpty || fraction.isEmpty then (whole, rest)
    else (whole ++ '.' :: fraction, more.dropWhile isDigit)
  | _ => (whole, rest)

/-- The numeral and the unit of a text, with blanks before, between and after
    them. The unit is as it is spelled. -/
def readTimeValue? (cs : List Char) : Option (List Char × List Char) :=
  let (numeral, rest) := takeNumeral (trimStart cs)
  let unit := trim rest
  if numeral.isEmpty || !TimeUnit.all.any (·.isSpelled unit) then none else some (numeral, unit)

namespace Timeout

/-- The longest wait, in seconds. -/
def longest : Nat := 9223372036

/-- The text that means no limit. -/
def noLimit : String := "-1"

/-- The seconds of a length of time. -/
def ofDuration (d : Duration) : Binary64 :=
  let n := d.toMicroseconds
  .ofRatio (decide (n < 0)) n.natAbs (10 ^ 6)

/-- The seconds that a numeral and a unit make. -/
def ofNumeral (numeral unit : List Char) : Except Failure Binary64 :=
  let small := String.ofList (lower unit)
  match TimeUnit.ofName? small with
  | none => .error (.keyError (.text small))
  | some u => .ok (((readFloat? numeral).getD .zero).mul u.length)

/-- The seconds that a text stands for, or none for no limit. -/
def ofText (s : String) : Except Failure (Option Binary64) :=
  if trim s.toList = noLimit.toList then .ok none
  else match readTimeValue? s.toList with
    | none => .error (.valueError ("Invalid time value: " ++ quoteText s ++
        " (expected e.g. '500ms', '30s', '1m')"))
    | some (numeral, unit) => (ofNumeral numeral unit).map some

/-- The seconds a value stands for before they are checked, or none for no
    limit. -/
def read : Value → Except Failure (Option Binary64)
  | .scalar .null => .ok none
  -- A truth value is a number as well, but it is no time.
  | .scalar (.bool _) =>
    .error (.typeError "timeout must be a number, timedelta or time value string")
  | .alien (.duration d) => .ok (some (ofDuration d))
  | .scalar (.int n _) => match Binary64.ofInt? n with
    | some x => .ok (some x)
    | none => .error (.overflow "int too large to convert to float")
  | .scalar (.float x _) => .ok (some x)
  | .scalar (.text s _) => ofText s
  | v => .error (.typeError
      ("timeout must be a number, timedelta or time value string, got " ++ v.typeName))

/-- The timeout of a number of seconds, which must be finite and not negative.
    The value it was given as is shown if it is not. -/
def check (given : Value) (x : Binary64) : Except Failure (Option Binary64) :=
  if !x.isFinite then .error (.valueError ("timeout must be finite: " ++ given.display))
  else if x.signedUnits < 0 then
    .error (.valueError ("timeout cannot be negative: " ++ given.display))
  else if longest * 2 ^ Binary64.unitScale ≤ x.units then .ok none
  else .ok (some x)

/-- The seconds to wait that a value stands for, or none for no limit. -/
def ofValue (v : Value) : Except Failure (Option Binary64) :=
  match read v with
  | .error e => .error e
  | .ok none => .ok none
  | .ok (some x) => check v x

/-- Whole milliseconds, the rest dropped. -/
def milliseconds (x : Binary64) : Int := (x.mul (.ofRatio false 1000 1)).truncate

end Timeout

end Docket
