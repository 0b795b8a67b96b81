import Docket.Text.Printable

/-!
# Quoted text

How messages quote a text or a string of bytes: between single quotes, or
between double quotes if the text holds single quotes only. The quote in use
and the backslash are escaped by a backslash, tab and line ends by their
letters, and every other character without a shape of its own by its number in
the shortest of three widths.

## Main definitions

* `quoteMark`: Which quote encloses a text.
* `quoteText`: A quoted text.
* `quoteBytes`, `quoteBytesFully`: Quoted bytes.
-/

namespace Docket

/-- A digit of a number to the base sixteen. -/
def hexDigit (n : Nat) : Char := if n < 10 then Char.ofNat (0x30 + n) else Char.ofNat (0x57 + n)

/-- The last `width` digits of a number to the base sixteen. -/
def hexDigits : Nat → Nat → List Char
  | 0, _ => []
  | width + 1, n => hexDigits width (n / 16) ++ [hexDigit (n % 16)]

/-- The quote around a text: double only if the text holds a single one and no
    double one. -/
def quoteMark (cs : List Char) : Char :=
  if cs.contains '\'' && !cs.contains '"' then '"' else '\''

/-- One character inside quotes. -/
def quoteChar (mark c : Char) : List Char :=
  if c = mark ∨ c = '\\' then ['\\', c]
  else if c = '\t' then ['\\', 't']
  else if c = '\n' then ['\\', 'n']
  else if c = '\r' then ['\\', 'r']
  else if isPrintable c then [c]
  -- By number, in the shortest form that is wide enough.
  else if c.toNat < 0x100 then '\\' :: 'x' :: hexDigits 2 c.toNat
  else if c.toNat < 0x10000 then '\\' :: 'u' :: hexDigits 4 c.toNat
  else '\\' :: 'U' :: hexDigits 8 c.toNat

/-- A text in quotes. -/
def quoteText (s : String) : String :=
  let cs := s.toList
  let mark := quoteMark cs
  String.ofList (mark :: cs.flatMap (quoteChar mark) ++ [mark])

/-- One byte inside quotes: an ASCII character as such, any other by its
    number. -/
def quoteByte (mark : Char) (b : UInt8) : List Char :=
  if b < 0x7F then quoteChar mark (Char.ofNat b.toNat)
  else '\\' :: 'x' :: hexDigits 2 b.toNat

/-- The quote around bytes. -/
def quoteMarkOfBytes (bytes : List UInt8) : Char :=
  quoteMark (bytes.map fun b => Char.ofNat b.toNat)

/-- Bytes in quotes, marked by a leading `b`. -/
def quoteBytes (bytes : List UInt8) : String :=
  let mark := quoteMarkOfBytes bytes
  String.ofList ('b' :: mark :: bytes.flatMap (quoteByte mark) ++ [mark])

/-- The same with every single quote escaped, whatever the quotes around. -/
def quoteBytesFully (bytes : List UInt8) : String :=
  let mark := quoteMarkOfBytes bytes
  let body := bytes.flatMap fun b => if b = 0x27 then ['\\', '\''] else quoteByte mark b
  String.ofList ('b' :: mark :: body ++ [mark])

end Docket
