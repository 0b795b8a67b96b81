import Docket.Bytes
import Docket.Content

/-!
# Writing CBOR

Content as CBOR. Every item begins with a head: its major type in three bits
and a number, in the shortest of five widths. The number is the value of an
integer, the length of a string, or the count of the items that follow; no item
is of indefinite length, and none is so long that its length takes more than eight
bytes.

Integers beyond 64 bits are written as byte strings under a tag. Floating-point
numbers take eight bytes, except that the infinities and what is no number have
short forms.

## Main definitions

* `cborHead`: The head of an item.
* `cborSized?`: The head of an item that has a length.
* `Content.writeCbor`: Content as CBOR.
-/

namespace Docket

/-- The head of an item. -/
def cborHead (major n : Nat) : Bytes :=
  let lead (info : Nat) : UInt8 := UInt8.ofNat (major * 32 + info)
  if n < 24 then [lead n]
  else if n < 2 ^ 8 then lead 24 :: bigEndian 1 n
  else if n < 2 ^ 16 then lead 25 :: bigEndian 2 n
  else if n < 2 ^ 32 then lead 26 :: bigEndian 4 n
  else lead 27 :: bigEndian 8 n

/-- The head of an item that has a length, which must fit into eight bytes. -/
def cborSized? (major n : Nat) : Option Bytes :=
  if n < 2 ^ 64 then some (cborHead major n) else none

/-- A string, by its major type and its bytes. -/
def cborString? (major : Nat) (b : Bytes) : Option Bytes :=
  (cborSized? major b.length).map (· ++ b)

def cborBytes? (b : Bytes) : Option Bytes := cborString? 2 b

def cborText? (s : String) : Option Bytes := cborString? 3 (encodeUtf8 s.toList)

/-- An item under a tag. -/
def cborTag (tag : Nat) (item : Bytes) : Bytes := cborHead 6 tag ++ item

/-- A natural number as the number in a head; beyond 64 bits, as its bytes under
    a tag. -/
def cborNatural? (major tag n : Nat) : Option Bytes :=
  if n < 2 ^ 64 then some (cborHead major n)
  else (cborBytes? (bigEndianMinimal n)).map (cborTag tag)

/-- An integer: a negative one by how far it is below -1. -/
def cborInt? (n : Int) : Option Bytes :=
  if 0 ≤ n then cborNatural? 0 2 n.toNat else cborNatural? 1 3 (-n - 1).toNat

def cborFloat (x : Binary64) : Bytes :=
  if x.isNaN then [0xF9, 0x7E, 0x00]
  else if x.isInfinite then (if x.negative then [0xF9, 0xFC, 0x00] else [0xF9, 0x7C, 0x00])
  else 0xFB :: bigEndian 8 x.bits.toNat

def cborBool (b : Bool) : Bytes := [if b then 0xF5 else 0xF4]

/-- A point in time as text under tag 0, which only aware times have. -/
def cborDateTime? (t : DateTime) : Option Bytes :=
  t.offset.bind fun o =>
    let fraction := if t.microsecond = 0 then [] else '.' :: padded 6 t.microsecond
    let zone := if o = 0 then ['Z'] else o.text
    let text := t.date.text ++ String.ofList
      ('T' :: padded 2 t.hour ++ ':' :: padded 2 t.minute ++ ':' :: padded 2 t.second
        ++ fraction ++ zone)
    (cborText? text).map (cborTag 0)

def cborScalar? : Scalar → Option Bytes
  | .null => some [0xF6]
  | .bool b => some (cborBool b)
  | .int n _ => cborInt? n
  | .float x _ => some (cborFloat x)
  | .text s _ => cborText? s
  | .date d => (cborText? d.text).map (cborTag 1004)
  | .datetime t => cborDateTime? t

/-- Two items under a tag. -/
def cborTaggedPair (tag : Nat) (x y : Bytes) : Bytes := cborTag tag (cborHead 4 2 ++ x ++ y)

/-- A numeral: a power of ten and what it is multiplied by, under tag 4. What has
    no digits is written as the floating-point number it is. -/
def cborNumeral? : Numeral → Option Bytes
  | .finite negative d => do
    let n : Int := if negative then -(d.digits : Int) else d.digits
    return cborTaggedPair 4 (← cborInt? d.exponent) (← cborInt? n)
  | .infinite negative => some (cborFloat (.infinity negative))
  | .nan .. => some (cborFloat .nan)

/-- A foreign value as a key: bytes, or a number of some kind. -/
def cborAlien? : Alien → Option Bytes
  | .binary .fixed b => cborBytes? b
  | .decimal x => cborNumeral? x
  | .fraction n d => do return cborTaggedPair 30 (← cborInt? n) (← cborInt? d)
  | .complex x y => some (cborTaggedPair 43000 (cborFloat x) (cborFloat y))
  | _ => none

/-- A key. Keys other than texts occur in content that was not compiled. -/
def cborKey? : Value → Option Bytes
  | .scalar s => cborScalar? s
  | .alien a => cborAlien? a
  | .items .tuple xs => do return (← cborSized? 4 xs.length) ++ (← cborKeys? xs)
  | .items .frozenset xs => do
    return cborTag 258 ((← cborSized? 4 xs.length) ++ (← cborKeys? xs))
  | _ => none
where
  cborKeys? : List Value → Option Bytes
    | [] => some []
    | v :: rest => do return (← cborKey? v) ++ (← cborKeys? rest)

mutual

/-- Content as CBOR, unless a key has no form or something is too long. -/
def Content.writeCbor : Content → Option Bytes
  | .null => some [0xF6]
  | .bool b => some (cborBool b)
  | .int n _ => cborInt? n
  | .float x _ => some (cborFloat x)
  | .text s _ => cborText? s
  | .list items => do
    let head ← cborSized? 4 items.length
    return head ++ (← writeCborItems items)
  | .map entries => do
    let head ← cborSized? 5 entries.length
    return head ++ (← writeCborEntries entries)

def writeCborItems : List Content → Option Bytes
  | [] => some []
  | c :: rest => do
    let item ← c.writeCbor
    return item ++ (← writeCborItems rest)

def writeCborEntries : List (Value × Content) → Option Bytes
  | [] => some []
  | (k, c) :: rest => do
    let key ← cborKey? k
    let item ← c.writeCbor
    return key ++ item ++ (← writeCborEntries rest)

end

end Docket
