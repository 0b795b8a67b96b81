import Docket.Number.Power
import Docket.Text.Coding

/-!
# Numbers in bytes

Natural numbers as bytes, the most significant byte first, in a given width or
in as many bytes as they need.

## Main definitions

* `bigEndian`: A number in a given number of bytes.
* `bigEndianMinimal`: A number in as many bytes as it needs.
* `ofBigEndian`: The number that bytes spell.
* `takeBytes?`: The first bytes and the rest.
-/

namespace Docket

/-- The last `width` bytes of a number. -/
def bigEndian : Nat → Nat → Bytes
  | 0, _ => []
  | width + 1, n => bigEndian width (n / 256) ++ [UInt8.ofNat (n % 256)]

/-- The number that bytes spell. -/
def ofBigEndian (bytes : Bytes) : Nat := bytes.foldl (fun n b => n * 256 + b.toNat) 0

/-- How many bytes a number needs. -/
def byteWidth (n : Nat) : Nat := if n = 0 then 0 else n.log2 / 8 + 1

/-- A number in as many bytes as it needs; zero needs none. -/
def bigEndianMinimal (n : Nat) : Bytes := bigEndian (byteWidth n) n

/-- The first `count` bytes and the rest, if there are so many. -/
def takeBytes? (count : Nat) (bytes : Bytes) : Option (Bytes × Bytes) :=
  let taken := bytes.take count
  if taken.length = count then some (taken, bytes.drop count) else none

/-- The number in the first `width` bytes, and the rest. -/
def takeNumber? (width : Nat) (bytes : Bytes) : Option (Nat × Bytes) :=
  (takeBytes? width bytes).map fun r => (ofBigEndian r.1, r.2)

/-- A number of `width` bytes in two's complement. -/
def signedValue (width n : Nat) : Int :=
  if n < 2 ^ (8 * width - 1) then n else (n : Int) - 2 ^ (8 * width)

end Docket
