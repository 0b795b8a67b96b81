import Docket.Bytes
import Docket.Calendar.DateTime
import Docket.Key
import Docket.Number.Literal
import Docket.Text.Pattern

/-!
# Tags of CBOR

What is meant by an item under a tag. Some tags have a meaning of their own:
points in time, dates, long integers, decimal and binary fractions, ratios,
complex numbers, patterns, messages, identifiers, addresses and sets. They say of
which form their content must be; other content is refused. An item under any
other tag is kept with its tag.

## Main definitions

* `cborTimeText?`, `isoDate?`: Points in time and dates in written form.
* `cborTagged?`: The value of content under a tag.
-/

namespace Docket

/-- The offset of a clock: `Z`, or hours and minutes with a sign. -/
def cborOffset? : List Char → Option Int
  | ['Z'] => some 0
  | sign :: rest => do
    let (h, rest) ← takePair? rest
    let (m, rest) ← takePair? (← afterChar? ':' rest)
    if !rest.isEmpty then none
    else if sign = '+' then some ((h * 60 + m) * 60 : Nat)
    else if sign = '-' then some (-((h * 60 + m) * 60 : Nat))
    else none
  | [] => none

/-- A point in time in the form of tag 0, if it exists. -/
def cborTimeText? (s : String) : Option DateTime := do
  let (y₁, rest) ← takePair? s.toList
  let (y₂, rest) ← takePair? rest
  let (month, rest) ← takePair? (← afterChar? '-' rest)
  let (day, rest) ← takePair? (← afterChar? '-' rest)
  let (hour, rest) ← takePair? (← afterChar? 'T' rest)
  let (minute, rest) ← takePair? (← afterChar? ':' rest)
  let (second, rest) ← takePair? (← afterChar? ':' rest)
  let (micro, rest) ← match rest with
    | '.' :: more =>
      let digits := more.takeWhile isAsciiDigit
      if digits.isEmpty then none
      else
        -- Digits beyond microseconds are cut off, not rounded.
        let six := (digits ++ List.replicate 6 '0').take 6
        some (digitsValue six, more.dropWhile isAsciiDigit)
    | _ => some (0, rest)
  let offset ← cborOffset? rest
  let t : DateTime := ⟨⟨y₁ * 100 + y₂, month, day⟩, hour, minute, second, micro, some offset⟩
  if t.date.Valid ∧ hour < 24 ∧ minute < 60 ∧ second < 60 ∧
      offset.natAbs < DateTime.secondsPerDay then some t
  else none

/-- The seconds from the beginning of the calendar's numbering to 1970. -/
def epochSeconds : Int := ((⟨1970, 1, 1⟩ : Date).ordinal * DateTime.secondsPerDay : Nat)

/-- The point in time a number of seconds after the beginning of 1970. -/
def cborTimeOfInt? (n : Int) : Option DateTime := DateTime.ofSeconds? (epochSeconds + n) 0 (some 0)

/-- The same for a floating-point number: its fraction is rounded to the
    microsecond. -/
def cborTimeOfFloat? (x : Binary64) : Option DateTime :=
  if !x.isFinite then none
  else
    let second := 2 ^ Binary64.unitScale
    let fraction := Binary64.ofRatio false (x.units % second) second
    let micros := Binary64.halfEven (fraction.mul (.ofRatio false 1000000 1)).units second
    let total : Int := x.truncate * 1000000 + (if x.negative then -(micros : Int) else micros)
    DateTime.ofSeconds? (epochSeconds + total / 1000000) (total % 1000000).toNat (some 0)

/-- The date of a number of days. -/
def dateOfOrdinal? (ordinal : Int) : Option Date :=
  if 1 ≤ ordinal ∧ ordinal ≤ Date.maxOrdinal then some (.ofOrdinal ordinal.toNat) else none

/-- The date a number of days after the first of January 1970. -/
def dateOfDays? (n : Int) : Option Date :=
  dateOfOrdinal? (((⟨1970, 1, 1⟩ : Date).ordinal : Int) + n)

/-- The date of a day of a week: the first week of a year is the one that holds
    the year's first Thursday, and weeks begin with Monday. -/
def dateOfWeek? (year week day : Nat) : Option Date :=
  let first := (⟨year, 1, 1⟩ : Date).ordinal
  let weekday := (first + 6) % 7
  let monday : Int := (first : Int) - weekday + (if weekday ≤ 3 then 0 else 7)
  let longYear := weekday = 3 ∨ (weekday = 2 ∧ Date.isLeap year)
  if 1 ≤ year ∧ 1 ≤ week ∧ (week ≤ 52 ∨ (week = 53 ∧ longYear)) ∧ 1 ≤ day ∧ day ≤ 7 then
    dateOfOrdinal? (monday + ((week - 1) * 7 + (day - 1) : Nat))
  else none

/-- The date of a day of a month. -/
def dateOfParts? (year month day : Nat) : Option Date :=
  let d : Date := ⟨year, month, day⟩
  if d.Valid then some d else none

/-- A date in written form: a day of a month or of a week, with lines between
    the parts or without. A text of seven, eight or ten bytes can be one; what
    follows the date in it makes no difference. -/
def isoDate? (s : String) : Option Date := do
  if !([7, 8, 10].contains s.utf8ByteSize) then none
  let (y₁, rest) ← takePair? s.toList
  let (y₂, rest) ← takePair? rest
  let year := y₁ * 100 + y₂
  let (parted, rest) := match rest with
    | '-' :: more => (true, more)
    | _ => (false, rest)
  -- Either all parts are set off by lines or none is.
  let behindLine (cs : List Char) : Option (List Char) :=
    if parted then afterChar? '-' cs else some cs
  match rest with
  | 'W' :: rest =>
    let (week, rest) ← takePair? rest
    if rest.isEmpty then dateOfWeek? year week 1
    else
      match ← behindLine rest with
      | day :: _ => if isAsciiDigit day then dateOfWeek? year week (digitsValue [day]) else none
      | [] => none
  | rest =>
    let (month, rest) ← takePair? rest
    let (day, _) ← takePair? (← behindLine rest)
    dateOfParts? year month day

/-- The integer of content, which may be a truth value. -/
def cborInteger? : Value → Option Int
  | .scalar (.int n _) => some n
  | .scalar (.bool b) => some (if b then 1 else 0)
  | _ => none

/-- The items of content that is an array. -/
def cborArray? : Value → Option (List Value)
  | .items .list xs => some xs
  | .items .tuple xs => some xs
  | _ => none

/-- The two items of content that is an array of two. -/
def cborPair? (v : Value) : Option (Value × Value) :=
  match cborArray? v with
  | some [x, y] => some (x, y)
  | _ => none

/-- The two integers of content that is an array of two. -/
def cborIntegers? (v : Value) : Option (Int × Int) :=
  match cborPair? v with
  | some (.scalar (.int m _), .scalar (.int n _)) => some (m, n)
  | _ => none

/-- A decimal fraction, by the power of ten and what it is multiplied by. The power
    of ten of its first digit must not exceed the largest that decimal numbers have,
    and that of its last must not be below the smallest. -/
def cborDecimal? (exponent n : Int) : Option Alien :=
  let first := exponent + digitCount n.natAbs - 1
  if -1999999999999999997 ≤ exponent ∧ first ≤ 999999999999999999 then
    some (.decimal (.ofScaled n exponent))
  else none

/-- How many digits a decimal number is worked out to. -/
def workingDigits : Nat := 28

/-- How many decimal digits a number has, told without writing it. -/
def decimalLength (n : Nat) : Nat :=
  -- The fraction is the decimal logarithm of two, so the length is this or one more.
  let length := n.log2 * 30102999566398119521 / 10 ^ 20 + 1
  if n < 10 ^ length then length else length + 1

/-- A number as it is when it has been worked out. -/
def roundWorking (n : Nat) : Nat :=
  let beyond := 10 ^ (decimalLength n - workingDigits)
  Binary64.halfEven n beyond * beyond

/-- Whether a binary fraction, or the power of two it is made with, is too large for
    a number that is worked out. No power is raised that is too large itself. -/
def cborOverflows (exponent n : Int) : Bool :=
  0 < exponent &&
    (3321928 < exponent ||
      10 ^ 1000000 ≤ roundWorking (n.natAbs * roundWorking (2 ^ exponent.toNat)))

/-- A binary fraction, by the power of two and what it is multiplied by. One that is
    not worked out in full is not looked into. -/
def cborBinary? (exponent n : Int) : Option Alien :=
  if cborOverflows exponent n then none
  else
    let e := exponent.natAbs
    if 100 < e then some (.unknown "Decimal")
    else
      let power := if exponent < 0 then 5 ^ e else 2 ^ e
      if workingDigits < decimalLength (max 1 n.natAbs * power) then some (.unknown "Decimal")
      else some (.decimal (.ofScaled (n * power) (if exponent < 0 then exponent else 0)))

/-- The number of content that is one half of a complex number. -/
def cborPart? : Value → Option Binary64
  | .scalar (.float x _) => some x
  | .scalar (.int n _) => Binary64.ofInt? n
  | _ => none

def cborComplex? (v : Value) : Option Alien := do
  let (x, y) ← cborPair? v
  return .complex (← cborPart? x) (← cborPart? y)

/-- A pattern in written form. -/
def cborPattern? : Value → Option Alien
  | .scalar (.text s _) => if isPattern s.toList then some (.unknown "Pattern") else none
  | _ => none

/-- An address of `width` bytes, perhaps with the length of its network, or a
    network by that length and the bytes that are not zero. -/
def cborAddress? (width : Nat) (typeName : String) : Value → Option Alien
  | .alien (.binary _ b) => if b.length = width then some (.unknown typeName) else none
  | .items .tuple [.alien (.binary _ b), .scalar (.int n _)] =>
    if b.length = width ∧ 0 ≤ n ∧ n ≤ 8 * width then some (.unknown typeName) else none
  | .items .tuple [.scalar (.int n _), .alien (.binary _ b)] =>
    if b.length ≤ width ∧ 0 ≤ n ∧ n ≤ 8 * width then some (.unknown typeName) else none
  | _ => none

/-- An address of any family; one of six bytes is left as it is. -/
def cborAnyAddress? : Value → Option Value
  | .alien (.binary kind b) =>
    if b.length = 4 ∨ b.length = 16 then some (.alien (.unknown "IPAddress"))
    else if b.length = 6 then some (.tag 260 (.alien (.binary kind b)))
    else none
  | _ => none

/-- A network as a map from its address to its length. -/
def cborAnyNetwork? : Value → Option Alien
  | .mapping _ [(.alien (.binary _ b), .scalar (.int n _))] =>
    if (b.length = 4 ∨ b.length = 16) ∧ 0 ≤ n ∧ n ≤ 8 * b.length then some (.unknown "IPNetwork")
    else none
  | _ => none

/-- A set of the items of an array, all of which must be able to be keys. -/
def cborSet? (fixed : Bool) (v : Value) : Option Value := do
  let xs ← cborArray? v
  if xs.any (·.unhashable?.isSome) then none
  return .items (if fixed then .frozenset else .set) (distinctValues xs)

/-- The value of content under a tag. A set cannot change if it is `fixed`. -/
def cborTagged? (fixed : Bool) (tag : Nat) (v : Value) : Option Value :=
  match tag, v with
  | 0, .scalar (.text s _) => (cborTimeText? s).map fun t => .scalar (.datetime t)
  | 1, .scalar (.float x _) => (cborTimeOfFloat? x).map fun t => .scalar (.datetime t)
  | 1, v => do return .scalar (.datetime (← cborTimeOfInt? (← cborInteger? v)))
  | 2, .alien (.binary _ b) => some (.int (ofBigEndian b))
  | 3, .alien (.binary _ b) => some (.int (-1 - (ofBigEndian b : Int)))
  | 4, v => do
    let (exponent, n) ← cborIntegers? v
    return .alien (← cborDecimal? exponent n)
  | 5, v => do
    let (exponent, n) ← cborIntegers? v
    return .alien (← cborBinary? exponent n)
  | 30, v => do
    let (n, d) ← cborIntegers? v
    return .alien (← Alien.ofRatio? n d)
  | 35, v => (cborPattern? v).map .alien
  | 36, .scalar (.text ..) => some (.alien (.unknown "Message"))
  | 37, .alien (.binary _ b) => if b.length = 16 then some (.alien (.unknown "UUID")) else none
  | 52, v => (cborAddress? 4 "IPv4Address" v).map .alien
  | 54, v => (cborAddress? 16 "IPv6Address" v).map .alien
  | 100, v => do return .scalar (.date (← dateOfDays? (← cborInteger? v)))
  | 258, v => cborSet? fixed v
  | 260, v => cborAnyAddress? v
  | 261, v => (cborAnyNetwork? v).map .alien
  | 1004, .scalar (.text s _) => (isoDate? s).map fun d => .scalar (.date d)
  | 43000, v => (cborComplex? v).map .alien
  | 55799, v => some v
  -- Some tags need content of their own kind. A tag that nothing is known of is kept with its
  -- content.
  | n, v => if [0, 2, 3, 36, 37, 1004].contains n then none else some (.tag n v)

end Docket
