import Docket.Number.Binary64

/-!
# Decimal text of numbers

Between numbers and decimal digits. Outward, a finite number is written with
the fewest digits that read back as the same number; of two such candidates of
one length the nearer is taken, and on a tie the even one. Inward, a decimal
numeral of any length denotes an exact ratio and is rounded once.

Which digits are chosen is one question, how they are laid out is another. The
layout is a record, `Notation`, so that each format that writes numbers states
its own.

## Main definitions

* `Decimal`: Digits times a power of ten.
* `Decimal.toBinary`: The number nearest to a decimal.
* `Binary64.shortest`: The fewest digits that read back.
* `Layout`: Where positional notation ends and how exponents are written.
* `Layout.write`: The text of a number.
-/

namespace Docket

/-- The number `digits * 10 ^ exponent`. -/
structure Decimal where
  digits : Nat
  exponent : Int
deriving DecidableEq, Inhabited

/-- How many decimal digits a natural number is written with. -/
def digitCount (n : Nat) : Nat := (toString n).length

namespace Decimal

/-- The number nearest to a decimal. Beyond `10 ^ 310` everything is infinite
    and below `10 ^ -330` everything is zero, so no larger power of ten is
    ever raised. -/
def toBinary (negative : Bool) (d : Decimal) : Binary64 :=
  if d.digits = 0 then Binary64.ofCode negative 0
  else
    let top := (digitCount d.digits : Int) + d.exponent
    if 310 < top then Binary64.infinity negative
    else if top < -330 then Binary64.ofCode negative 0
    else if 0 ≤ d.exponent then
      Binary64.ofRatio negative (d.digits * 10 ^ d.exponent.toNat) 1
    else Binary64.ofRatio negative d.digits (10 ^ (-d.exponent).toNat)

end Decimal

namespace Binary64

/-- The power of ten just above the magnitude of a positive finite number:
    `10 ^ (k - 1) ≤ x < 10 ^ k`. -/
def decimalTop (x : Binary64) : Int :=
  (digitCount (x.units * 10 ^ 400 / 2 ^ unitScale) : Int) - 400

/-- The neighbours of a number on the grid of multiples of `10 ^ exponent`,
    the nearer one first. -/
def gridNeighbours (x : Binary64) (exponent : Int) : Decimal × Decimal :=
  let a := if 0 ≤ exponent then x.units else x.units * 10 ^ (-exponent).toNat
  let d := if 0 ≤ exponent then 2 ^ unitScale * 10 ^ exponent.toNat else 2 ^ unitScale
  let near := halfEven a d
  let low := a / d
  (⟨near, exponent⟩, ⟨if near = low then low + 1 else low, exponent⟩)

/-- The decimal with `n` digits that reads back as the given number, if there
    is one; the nearer of two. -/
def readableWith (x : Binary64) (n : Nat) : Option Decimal :=
  let (near, far) := x.gridNeighbours (x.decimalTop - n)
  if near.toBinary x.negative = x then some near
  else if far.toBinary x.negative = x then some far
  else none

/-- The magnitude of a finite number with every one of its digits. -/
def exact (x : Binary64) : Decimal := ⟨x.units * 5 ^ unitScale, -(unitScale : Int)⟩

/-- The fewest digits that read back as a finite number. Seventeen always
    suffice. -/
def shortest (x : Binary64) : Decimal :=
  if x.units = 0 then ⟨0, 0⟩
  else ((List.range 17).findSome? fun n => x.readableWith (n + 1)).getD x.exact

end Binary64

/-- How a format lays out the digits of a number. -/
structure Layout where
  /-- A number below `10 ^ positionalTop` is written without an exponent. -/
  positionalTop : Int
  /-- So is one of at least `10 ^ positionalBottom`. -/
  positionalBottom : Int
  /-- A significand of one digit keeps a point and a zero before the exponent. -/
  pointBeforeExponent : Bool
  infinite : String
  notANumber : String
deriving DecidableEq, Inhabited

namespace Layout

/-- Digits without the zeros at their end. -/
def trimZeros (digits : List Char) : List Char :=
  (digits.reverse.dropWhile (· == '0')).reverse

/-- An exponent has a sign and at least two digits. -/
def exponentText (e : Int) : List Char :=
  let digits := (toString e.natAbs).toList
  (if e < 0 then '-' else '+') :: (if digits.length < 2 then '0' :: digits else digits)

/-- Digits `d₁ d₂ …` stand for `0.d₁d₂… * 10 ^ point`. -/
def writeDigits (layout : Layout) (digits : List Char) (point : Int) : List Char :=
  if layout.positionalBottom < point ∧ point ≤ layout.positionalTop then
    if point ≤ 0 then ['0', '.'] ++ List.replicate (-point).toNat '0' ++ digits
    else
      let n := point.toNat
      if digits.length ≤ n then
        digits ++ List.replicate (n - digits.length) '0' ++ ['.', '0']
      else digits.take n ++ '.' :: digits.drop n
  else
    let mantissa := match digits with
      | [] => []
      | [d] => if layout.pointBeforeExponent then [d, '.', '0'] else [d]
      | d :: rest => d :: '.' :: rest
    mantissa ++ 'e' :: exponentText (point - 1)

/-- The text of a decimal. -/
def writeDecimal (layout : Layout) (d : Decimal) : List Char :=
  if d.digits = 0 then layout.writeDigits ['0'] 1
  else
    let digits := (toString d.digits).toList
    layout.writeDigits (trimZeros digits) ((digits.length : Int) + d.exponent)

/-- The text of a number: the fewest digits that read back, laid out. -/
def write (layout : Layout) (x : Binary64) : String :=
  if x.isNaN then layout.notANumber
  else
    let body := if x.isInfinite then layout.infinite
      else String.ofList (layout.writeDecimal x.shortest)
    if x.negative then "-" ++ body else body

/-- Numbers in messages: positional below `10 ^ 16` and from `10 ^ -4`. -/
def display : Layout := ⟨16, -4, false, "inf", "nan"⟩

end Layout

end Docket
