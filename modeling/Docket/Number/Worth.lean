import Docket.Number.Numeral

/-!
# What numbers are worth

Numbers of different kinds (integers, binary and decimal fractions, ratios) are
equal when they are worth the same. What a number is worth has one form: a ratio
in lowest terms, times a power of ten that takes all factors of ten out of the
numerator and all factors of two and five out of the denominator. No power of
ten is ever multiplied out, so the form of a number with a large exponent is
small.

## Main definitions

* `Worth`: What a number is worth.
* `Worth.ofRatio`: The form of a ratio times a power of ten.
* `Worth.ofBinary?`, `Worth.ofNumeral?`: What numbers of two kinds are worth.
-/

namespace Docket

inductive Worth where
  | finite (numerator : Int) (denominator : Nat) (tens : Int)
  | infinite (negative : Bool)
deriving DecidableEq, Inhabited

/-- A number divided by `p` as often as that goes, and how often. -/
def divideOut (p : Nat) : Nat → Nat → Nat × Nat
  | 0, n => (n, 0)
  | fuel + 1, n =>
    if n % p = 0 then
      let (rest, times) := divideOut p fuel (n / p)
      (rest, times + 1)
    else (n, 0)

namespace Worth

/-- The form of `n / d` times a power of ten. -/
def ofRatio (negative : Bool) (n d : Nat) (tens : Int) : Worth :=
  if n = 0 then finite 0 1 0
  else
    let g := n.gcd d
    let (d, twos) := divideOut 2 (d.log2 + 1) (d / g)
    let (d, fives) := divideOut 5 (d.log2 + 1) d
    let places := max twos fives
    let n := n / g * 2 ^ (places - twos) * 5 ^ (places - fives)
    let (n, zeros) := divideOut 10 (n.log2 + 1) n
    finite (if negative then -(n : Int) else n) d (tens - places + zeros)

def ofInt (n : Int) : Worth := ofRatio (decide (n < 0)) n.natAbs 1 0

/-- What a floating-point number is worth, if it is a number. -/
def ofBinary? (x : Binary64) : Option Worth :=
  if x.isNaN then none
  else if x.isInfinite then some (infinite x.negative)
  else some (ofRatio x.negative x.units (2 ^ Binary64.unitScale) 0)

/-- What a numeral is worth, if it is a number. -/
def ofNumeral? : Numeral → Option Worth
  | .finite negative d => some (ofRatio negative d.digits 1 d.exponent)
  | .infinite negative => some (infinite negative)
  | .nan .. => none

end Worth

end Docket
