import Docket.Number.Decimal
import Docket.Text.Blank
import Docket.Text.Digit

/-!
# Reading numbers

The numerals that texts are read as. A numeral for a floating-point number has
digits with a point somewhere, or none, perhaps followed by an exponent; the
names of infinity and of what is no number are read too, in any letter case.
Blanks around it are ignored, the digits may be those of any script, and a
single underscore may stand between two digits.

## Main definitions

* `digitsValue`: The number that digits spell.
* `readUnsigned?`: Digits with a point and an exponent, as a decimal.
* `readInteger?`: The integer of a text to some base.
* `readFloat?`: The floating-point number of a text.
-/

namespace Docket

/-- The number that ASCII digits spell. -/
def digitsValue (cs : List Char) : Nat :=
  cs.foldl (fun n c => n * 10 + (c.toNat - 0x30)) 0

def isAsciiDigit (c : Char) : Bool := decide ('0' ≤ c) && decide (c ≤ '9')

/-- The number of the two digits at the start of a text, and the rest. -/
def takePair? : List Char → Option (Nat × List Char)
  | a :: b :: rest =>
    if isAsciiDigit a && isAsciiDigit b then some (digitsValue [a, b], rest) else none
  | _ => none

/-- What follows a given character. -/
def afterChar? (c : Char) : List Char → Option (List Char)
  | d :: rest => if c = d then some rest else none
  | [] => none

/-- The value of an exponent: digits with a sign before them or none. -/
def readExponent? (cs : List Char) : Option Int :=
  let (negative, digits) := match cs with
    | '-' :: rest => (true, rest)
    | '+' :: rest => (false, rest)
    | _ => (false, cs)
  if digits.isEmpty || !digits.all isAsciiDigit then none
  else some (if negative then -(digitsValue digits : Int) else digitsValue digits)

/-- Digits before the point, digits after it, and an exponent. -/
def decimalOf (whole fraction : List Char) (exponent : Int) : Decimal :=
  ⟨digitsValue (whole ++ fraction), exponent - fraction.length⟩

/-- A numeral without sign. There is a digit before the point or after it. -/
def readUnsigned? (cs : List Char) : Option Decimal :=
  let whole := cs.takeWhile isAsciiDigit
  let rest := cs.dropWhile isAsciiDigit
  let (fraction, rest) := match rest with
    | '.' :: rest => (rest.takeWhile isAsciiDigit, rest.dropWhile isAsciiDigit)
    | _ => ([], rest)
  if whole.isEmpty && fraction.isEmpty then none
  else match rest with
    | [] => some (decimalOf whole fraction 0)
    | e :: rest =>
      if e = 'e' ∨ e = 'E' then (readExponent? rest).map (decimalOf whole fraction) else none

/-- Digits of any script as those of ASCII. -/
def asciiDigits (cs : List Char) : List Char :=
  cs.map fun c => match digitValue? c with
    | some n => Char.ofNat (0x30 + n)
    | none => c

/-- Text without its underscores, each of which must stand between two
    digits. -/
def dropUnderscores? : List Char → Option (List Char)
  | [] => some []
  | '_' :: _ => none
  | c :: '_' :: d :: rest =>
    if isAsciiDigit c && isAsciiDigit d then (dropUnderscores? (d :: rest)).map (c :: ·) else none
  | [_, '_'] => none
  | c :: rest => (dropUnderscores? rest).map (c :: ·)

/-- The longest integers that are written or read as decimal digits. -/
def maxDigits : Nat := 4300

/-- What follows the letter that announces a base, if it stands there. -/
def afterBaseMark (base : Nat) (cs : List Char) : List Char :=
  match cs with
  | '0' :: c :: rest =>
    if (base = 2 ∧ (c = 'b' ∨ c = 'B')) ∨ (base = 8 ∧ (c = 'o' ∨ c = 'O')) ∨
        (base = 16 ∧ (c = 'x' ∨ c = 'X')) then rest
    else cs
  | _ => cs

/-- The number that digits to some base spell. -/
def readDigits? (base : Nat) (cs : List Char) : Option Nat :=
  if cs.isEmpty then none
  else cs.foldlM (fun n c => do
    let v ← hexValue? c
    if v < base then some (n * base + v) else none) 0

/-- The integer of a text to some base, with a sign or none. Decimal digits must
    not be too many. -/
def readInteger? (base : Nat) (cs : List Char) : Option Int := do
  let cs := asciiDigits (trim cs)
  let (negative, body) := match cs with
    | '-' :: rest => (true, rest)
    | '+' :: rest => (false, rest)
    | _ => (false, cs)
  let digits := afterBaseMark base body
  if base = 10 && maxDigits < digits.length then none
  let n ← readDigits? base digits
  return if negative then -(n : Int) else n

/-- The floating-point number of a text. -/
def readFloat? (cs : List Char) : Option Binary64 := do
  let cs ← dropUnderscores? (asciiDigits (trim cs))
  let (negative, body) := match cs with
    | '-' :: rest => (true, rest)
    | '+' :: rest => (false, rest)
    | _ => (false, cs)
  let word := String.ofList (body.map Char.toLower)
  if word = "inf" ∨ word = "infinity" then some (.infinity negative)
  else if word = "nan" then some (if negative then Binary64.nan.neg else .nan)
  else (readUnsigned? body).map (Decimal.toBinary negative)

end Docket
