import Docket.Number.Literal

/-!
# Numerals

A decimal number of any length that is kept as it was written: `1.50` and `1.5`
are worth the same but are two numerals. Infinity and what is no number are
numerals too, the latter in two sorts and perhaps with digits of its own.

## Main definitions

* `Numeral`: The numerals.
* `Numeral.read?`: The numeral of a text.
* `Numeral.text`: The text of a numeral.
-/

namespace Docket

inductive Numeral where
  | finite (negative : Bool) (d : Decimal)
  | infinite (negative : Bool)
  | nan (negative signals : Bool) (digits : List Char)
deriving DecidableEq, Inhabited

namespace Numeral

/-- The integer times a power of ten. -/
def ofScaled (n exponent : Int) : Numeral := finite (decide (n < 0)) ⟨n.natAbs, exponent⟩

/-- The digits that tell one thing that is no number from another. -/
def nanDigits? (cs : List Char) : Option (List Char) :=
  if cs.all isAsciiDigit then some (cs.dropWhile (· == '0')) else none

/-- The numeral of a text without a sign and in small letters. -/
def readUnsigned? (negative : Bool) (cs : List Char) : Option Numeral :=
  if cs = "inf".toList ∨ cs = "infinity".toList then some (infinite negative)
  else
    match cs with
    | 'n' :: 'a' :: 'n' :: rest => (nanDigits? rest).map (nan negative false)
    | 's' :: 'n' :: 'a' :: 'n' :: rest => (nanDigits? rest).map (nan negative true)
    | cs => (Docket.readUnsigned? cs).map (finite negative)

/-- The numeral of a text. Low lines in it make no difference. -/
def read? (cs : List Char) : Option Numeral :=
  match ((asciiDigits (trim cs)).filter (· != '_')).map Char.toLower with
  | '-' :: rest => readUnsigned? true rest
  | '+' :: rest => readUnsigned? false rest
  | cs => readUnsigned? false cs

/-- The text of a decimal with all its digits: positional unless its last digit
    is above the units or its first far below them. -/
def decimalText (d : Decimal) : List Char :=
  let digits := (toString d.digits).toList
  let left : Int := digits.length + d.exponent
  let point : Int := if d.exponent ≤ 0 ∧ -6 < left then left else 1
  let body :=
    if point ≤ 0 then ['0', '.'] ++ List.replicate (-point).toNat '0' ++ digits
    else if (digits.length : Int) ≤ point then digits
    else digits.take point.toNat ++ '.' :: digits.drop point.toNat
  let exponent := left - point
  if exponent = 0 then body
  else body ++ 'E' :: (if exponent < 0 then [] else ['+']) ++ (toString exponent).toList

/-- The text of a numeral. -/
def text (x : Numeral) : String :=
  let signed (negative : Bool) (cs : List Char) : String :=
    String.ofList (if negative then '-' :: cs else cs)
  match x with
  | finite negative d => signed negative (decimalText d)
  | infinite negative => signed negative "Infinity".toList
  | nan negative signals digits =>
    signed negative ((if signals then "sNaN" else "NaN").toList ++ digits)

/-- Whether a numeral is zero. -/
def isZero : Numeral → Bool
  | finite _ d => d.digits == 0
  | _ => false

/-- The floating-point number nearest to a numeral. -/
def toBinary : Numeral → Binary64
  | finite negative d => d.toBinary negative
  | infinite negative => .infinity negative
  | nan .. => .nan

end Numeral

end Docket
