import Docket.Number.Power

/-!
# Binary floating point

Floating-point numbers of 64 bits, held as their bit pattern and computed
with exactly. A finite number is a whole multiple of the smallest positive
one, `2 ^ -1074`, so its magnitude is a natural number of such *units*. Every
operation takes the exact result as a ratio `a / d` of units and rounds once,
to the nearest number and on a tie to the one whose last bit is zero.

Dropping the sign bit leaves a *code*, and codes are ordered as the magnitudes
they stand for. Rounding therefore produces a code directly: the significand
added to its binade's first code carries into the next binade by itself, and
whatever reaches the code of infinity is infinite.

## Main definitions

* `Binary64`: A number, given by its bits.
* `units`: The magnitude of a finite number, in units of `2 ^ -1074`.
* `roundCode`: The code nearest to a ratio of units.
* `ofRatio`, `ofInt?`: Numbers nearest to exact values.
* `add`, `mul`: The exact sum and product, rounded.
-/

namespace Docket

/-- A floating-point number of 64 bits: sign, eleven bits of exponent and 52
    bits of fraction. Two numbers are the same when their bits are. -/
structure Binary64 where
  bits : UInt64
deriving DecidableEq, Inhabited

namespace Binary64

/-- The smallest positive number is `2 ^ -unitScale`. -/
def unitScale : Nat := 1074

/-- The code of infinity; the codes above it stand for no number. -/
def infinityCode : Nat := 2047 * 2 ^ 52

/-- The bits without the sign. -/
def code (x : Binary64) : Nat := x.bits.toNat % 2 ^ 63

def negative (x : Binary64) : Bool := decide (2 ^ 63 ≤ x.bits.toNat)

def isFinite (x : Binary64) : Bool := decide (x.code < infinityCode)

def isNaN (x : Binary64) : Bool := decide (infinityCode < x.code)

def isInfinite (x : Binary64) : Bool := x.code == infinityCode

/-- The number of a code and a sign. -/
def ofCode (negative : Bool) (code : Nat) : Binary64 :=
  ⟨UInt64.ofNat (if negative then code + 2 ^ 63 else code)⟩

def zero : Binary64 := ofCode false 0

def infinity (negative : Bool) : Binary64 := ofCode negative infinityCode

/-- The quiet value that is no number. -/
def nan : Binary64 := ofCode false (infinityCode + 2 ^ 51)

/-- The number with its sign turned. -/
def neg (x : Binary64) : Binary64 := ofCode (!x.negative) x.code

/-- The magnitude of a finite number in units: the first two binades count
    units one by one, each later one twice as coarsely as the one before. -/
def units (x : Binary64) : Nat :=
  let exponent := x.code / 2 ^ 52
  let fraction := x.code % 2 ^ 52
  if exponent = 0 then fraction else (2 ^ 52 + fraction) * 2 ^ (exponent - 1)

/-- The whole number nearest to `a / d`; a half goes to the even neighbour. -/
def halfEven (a d : Nat) : Nat :=
  let q := a / d
  let r := a % d
  if 2 * r < d then q
  else if d < 2 * r then q + 1
  else if q % 2 = 0 then q else q + 1

/-- The binade of `a / d` units: the least `p` with `a / d < 2 ^ (p + 53)`. -/
def binade (a d : Nat) : Nat :=
  let p := a.log2 - (d.log2 + 52)
  if 0 < p ∧ a < d * 2 ^ (p + 52) then p - 1 else p

/-- The code nearest to `a / d` units. -/
def roundCode (a d : Nat) : Nat :=
  let p := binade a d
  min (p * 2 ^ 52 + halfEven a (d * 2 ^ p)) infinityCode

/-- The number nearest to `a / d`. -/
def ofRatio (negative : Bool) (a d : Nat) : Binary64 :=
  ofCode negative (if a = 0 then 0 else roundCode (a * 2 ^ unitScale) d)

/-- The number nearest to an integer, unless the integer is beyond the largest
    finite number. -/
def ofInt? (n : Int) : Option Binary64 :=
  let x := ofRatio (decide (n < 0)) n.natAbs 1
  if x.isFinite then some x else none

/-- The magnitude with its sign. -/
def signedUnits (x : Binary64) : Int := if x.negative then -(x.units : Int) else x.units

/-- The exact sum, rounded. A sum of zero is negative only if both terms are. -/
def add (x y : Binary64) : Binary64 :=
  if x.isNaN || y.isNaN then nan
  else if x.isInfinite then
    if y.isInfinite && x.negative != y.negative then nan else x
  else if y.isInfinite then y
  else
    let sum := x.signedUnits + y.signedUnits
    if sum = 0 then ofCode (x.negative && y.negative) 0
    else ofCode (decide (sum < 0)) (roundCode sum.natAbs 1)

/-- The exact product, rounded. -/
def mul (x y : Binary64) : Binary64 :=
  let negative := x.negative != y.negative
  if x.isNaN || y.isNaN then nan
  else if x.isInfinite || y.isInfinite then
    if x.code = 0 || y.code = 0 then nan else infinity negative
  else if x.units = 0 || y.units = 0 then ofCode negative 0
  else ofCode negative (roundCode (x.units * y.units) (2 ^ unitScale))

/-- The integer a finite number is, if it is one. -/
def toInt? (x : Binary64) : Option Int :=
  if x.isFinite && x.units % 2 ^ unitScale == 0 then
    let n := x.units / 2 ^ unitScale
    some (if x.negative then -(n : Int) else n)
  else none

/-- The integer part of a finite number, toward zero. -/
def truncate (x : Binary64) : Int :=
  let n := x.units / 2 ^ unitScale
  if x.negative then -(n : Int) else n

/-- Whether two numbers compare equal: the zeros do, and what is no number
    equals nothing. -/
def equal (x y : Binary64) : Bool :=
  !x.isNaN && !y.isNaN && (x.bits == y.bits || (x.code == 0 && y.code == 0))

/-- The number of a pattern of 16 bits: five bits of exponent, ten of
    fraction. -/
def ofHalf (h : Nat) : Binary64 :=
  let negative := decide (2 ^ 15 ≤ h)
  let exponent := h / 2 ^ 10 % 2 ^ 5
  let fraction := h % 2 ^ 10
  if exponent = 31 then
    if fraction = 0 then infinity negative else ofCode negative (infinityCode + fraction * 2 ^ 42)
  else if exponent = 0 then ofRatio negative fraction (2 ^ 24)
  else ofRatio negative ((2 ^ 10 + fraction) * 2 ^ exponent) (2 ^ 25)

/-- The number of a pattern of 32 bits: eight bits of exponent, 23 of
    fraction. -/
def ofSingle (s : Nat) : Binary64 :=
  let negative := decide (2 ^ 31 ≤ s)
  let exponent := s / 2 ^ 23 % 2 ^ 8
  let fraction := s % 2 ^ 23
  if exponent = 255 then
    if fraction = 0 then infinity negative else ofCode negative (infinityCode + fraction * 2 ^ 29)
  else if exponent = 0 then ofRatio negative fraction (2 ^ 149)
  else ofRatio negative ((2 ^ 23 + fraction) * 2 ^ exponent) (2 ^ 150)

end Binary64

end Docket
