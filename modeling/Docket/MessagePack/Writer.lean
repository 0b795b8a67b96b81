import Docket.Bytes
import Docket.Content

/-!
# Writing MessagePack

Content as MessagePack. Every item begins with a byte that tells its kind and
often its size; a small number, a short text and a small collection share that
byte with their size, and all others have the size in the next one, two, four or
eight bytes, the fewest that do.

An integer must fit into 64 bits, with or without a sign; there is no form for
others. Floating-point numbers always take eight bytes.

## Main definitions

* `messagePackSized`: The head of an item that has a size.
* `messagePackInt?`: An integer.
* `Content.writeMessagePack`: Content as MessagePack.
-/

namespace Docket

/-- A size after the first of the given lead bytes whose width holds it. The
    leads come with their widths, from the narrowest to the widest. -/
def messagePackSized (leads : List (UInt8 × Nat)) (n : Nat) : Option Bytes :=
  match leads with
  | [] => none
  | (lead, width) :: rest =>
    if n < 2 ^ (8 * width) then some (lead :: bigEndian width n) else messagePackSized rest n

/-- The widths of sizes, in bytes, after their lead bytes. -/
def textLeads : List (UInt8 × Nat) := [(0xD9, 1), (0xDA, 2), (0xDB, 4)]

def bytesLeads : List (UInt8 × Nat) := [(0xC4, 1), (0xC5, 2), (0xC6, 4)]

def listLeads : List (UInt8 × Nat) := [(0xDC, 2), (0xDD, 4)]

def mapLeads : List (UInt8 × Nat) := [(0xDE, 2), (0xDF, 4)]

def naturalLeads : List (UInt8 × Nat) := [(0xCC, 1), (0xCD, 2), (0xCE, 4), (0xCF, 8)]

/-- The head of an item of a kind that keeps sizes below `room` in its lead
    byte. -/
def messagePackHead? (base room : Nat) (leads : List (UInt8 × Nat)) (n : Nat) : Option Bytes :=
  if n < room then some [UInt8.ofNat (base + n)] else messagePackSized leads n

/-- A negative integer in two's complement after its lead byte. -/
def messagePackNegative? (n : Int) : Option Bytes :=
  let sized (lead : UInt8) (width : Nat) : Bytes :=
    lead :: bigEndian width (n + 2 ^ (8 * width)).toNat
  if -32 ≤ n then some [UInt8.ofNat (n + 256).toNat]
  -- Each form is the shortest for the integers that no form before could hold.
  else if -(2 ^ 7) ≤ n then some (sized 0xD0 1)
  else if -(2 ^ 15) ≤ n then some (sized 0xD1 2)
  else if -(2 ^ 31) ≤ n then some (sized 0xD2 4)
  else if -(2 ^ 63) ≤ n then some (sized 0xD3 8)
  else none

/-- An integer, if it fits into 64 bits. -/
def messagePackInt? (n : Int) : Option Bytes :=
  if 0 ≤ n then messagePackHead? 0 128 naturalLeads n.toNat else messagePackNegative? n

def messagePackFloat (x : Binary64) : Bytes := 0xCB :: bigEndian 8 x.bits.toNat

def messagePackBool (b : Bool) : Bytes := [if b then 0xC3 else 0xC2]

def messagePackText? (s : String) : Option Bytes :=
  let b := encodeUtf8 s.toList
  (messagePackHead? 0xA0 32 textLeads b.length).map (· ++ b)

/-- A key. Keys other than texts occur in content that was not compiled. -/
def messagePackKey? : Value → Option Bytes
  | .scalar .null => some [0xC0]
  | .scalar (.bool b) => some (messagePackBool b)
  | .scalar (.int n _) => messagePackInt? n
  | .scalar (.float x _) => some (messagePackFloat x)
  | .scalar (.text s _) => messagePackText? s
  | .alien (.binary _ b) => (messagePackSized bytesLeads b.length).map (· ++ b)
  | .items .tuple xs => do
    return (← messagePackHead? 0x90 16 listLeads xs.length) ++ (← messagePackKeys? xs)
  | _ => none
where
  messagePackKeys? : List Value → Option Bytes
    | [] => some []
    | v :: rest => do return (← messagePackKey? v) ++ (← messagePackKeys? rest)

mutual

/-- Content as MessagePack, unless an integer or a key has no form. -/
def Content.writeMessagePack : Content → Option Bytes
  | .null => some [0xC0]
  | .bool b => some (messagePackBool b)
  | .int n _ => messagePackInt? n
  | .float x _ => some (messagePackFloat x)
  | .text s _ => messagePackText? s
  | .list items => do
    let head ← messagePackHead? 0x90 16 listLeads items.length
    return head ++ (← writeMessagePackItems items)
  | .map entries => do
    let head ← messagePackHead? 0x80 16 mapLeads entries.length
    return head ++ (← writeMessagePackEntries entries)

def writeMessagePackItems : List Content → Option Bytes
  | [] => some []
  | c :: rest => do
    let item ← c.writeMessagePack
    return item ++ (← writeMessagePackItems rest)

def writeMessagePackEntries : List (Value × Content) → Option Bytes
  | [] => some []
  | (k, c) :: rest => do
    let key ← messagePackKey? k
    let item ← c.writeMessagePack
    return key ++ item ++ (← writeMessagePackEntries rest)

end

end Docket
