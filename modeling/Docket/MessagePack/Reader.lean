import Docket.Bytes
import Docket.Content
import Docket.Key

/-!
# Reading MessagePack

MessagePack as data. Besides what the writer writes, the reader takes sizes in
more bytes than need be, floating-point numbers of four bytes, byte strings and
extensions. The extension of code -1 is a timestamp, in one of three widths;
other extensions are kept with their code, which must not be negative.

A key is a text or a byte string. All bytes must be used up.

## Main definitions

* `messagePackExtension?`: The value of an extension.
* `readMessagePackItem`: An item and what follows it.
* `readMessagePack?`: The data of bytes.
-/

namespace Docket

/-- A timestamp from the bytes of its extension: seconds alone, both parts
    packed into eight bytes, or both in full. -/
def messagePackTimestamp? (data : Bytes) : Option Value :=
  let made (seconds : Int) (nanoseconds : Nat) : Option Value :=
    if nanoseconds < 10 ^ 9 then some (.alien (.timestamp seconds nanoseconds)) else none
  match data.length with
  | 4 => made (ofBigEndian data) 0
  | 8 =>
    let n := ofBigEndian data
    -- The seconds are the lower 34 bits, and the nanoseconds the rest.
    made (n % 2 ^ 34 : Nat) (n / 2 ^ 34)
  | 12 => made (signedValue 8 (ofBigEndian (data.drop 4))) (ofBigEndian (data.take 4))
  | _ => none

/-- The value of an extension. -/
def messagePackExtension? (code : UInt8) (data : Bytes) : Option Value :=
  if code = 0xFF then messagePackTimestamp? data
  else if code < 0x80 then some (.alien (.ext code.toNat data))
  else none

/-- An extension of so many bytes, which follow its code. -/
def readMessagePackExtension (size : Nat) : Bytes → Option (Value × Bytes)
  | [] => none
  | code :: rest => do
    let (data, rest) ← takeBytes? size rest
    return (← messagePackExtension? code data, rest)

/-- A text of so many bytes. -/
def readMessagePackText (size : Nat) (bytes : Bytes) : Option (Value × Bytes) := do
  let (data, rest) ← takeBytes? size bytes
  return (.text (String.ofList (← decodeStrictUtf8? data)), rest)

def readMessagePackBytes (size : Nat) (bytes : Bytes) : Option (Value × Bytes) := do
  let (data, rest) ← takeBytes? size bytes
  return (.bytes data, rest)

def readMessagePackNatural (width : Nat) (bytes : Bytes) : Option (Value × Bytes) :=
  (takeNumber? width bytes).map fun r => (.int r.1, r.2)

def readMessagePackSigned (width : Nat) (bytes : Bytes) : Option (Value × Bytes) :=
  (takeNumber? width bytes).map fun r => (.int (signedValue width r.1), r.2)

/-- An item without items in it, from its lead byte and what follows that. -/
def readMessagePackLeaf (lead : UInt8) (rest : Bytes) : Option (Value × Bytes) :=
  let sized (width : Nat) (read : Nat → Bytes → Option (Value × Bytes)) :
      Option (Value × Bytes) := do
    let (size, rest) ← takeNumber? width rest
    read size rest
  if lead < 0x80 then some (.int lead.toNat, rest)
  else if 0xE0 ≤ lead then some (.int ((lead.toNat : Int) - 256), rest)
  else if 0xA0 ≤ lead ∧ lead < 0xC0 then readMessagePackText (lead.toNat - 0xA0) rest
  else
    match lead with
    | 0xC0 => some (.null, rest)
    | 0xC2 => some (.bool false, rest)
    | 0xC3 => some (.bool true, rest)
    | 0xC4 => sized 1 readMessagePackBytes
    | 0xC5 => sized 2 readMessagePackBytes
    | 0xC6 => sized 4 readMessagePackBytes
    | 0xC7 => sized 1 readMessagePackExtension
    | 0xC8 => sized 2 readMessagePackExtension
    | 0xC9 => sized 4 readMessagePackExtension
    | 0xCA => (takeNumber? 4 rest).map fun r => (.float (.ofSingle r.1), r.2)
    | 0xCB => (takeNumber? 8 rest).map fun r => (.float ⟨UInt64.ofNat r.1⟩, r.2)
    | 0xCC => readMessagePackNatural 1 rest
    | 0xCD => readMessagePackNatural 2 rest
    | 0xCE => readMessagePackNatural 4 rest
    | 0xCF => readMessagePackNatural 8 rest
    | 0xD0 => readMessagePackSigned 1 rest
    | 0xD1 => readMessagePackSigned 2 rest
    | 0xD2 => readMessagePackSigned 4 rest
    | 0xD3 => readMessagePackSigned 8 rest
    | 0xD4 => readMessagePackExtension 1 rest
    | 0xD5 => readMessagePackExtension 2 rest
    | 0xD6 => readMessagePackExtension 4 rest
    | 0xD7 => readMessagePackExtension 8 rest
    | 0xD8 => readMessagePackExtension 16 rest
    | 0xD9 => sized 1 readMessagePackText
    | 0xDA => sized 2 readMessagePackText
    | 0xDB => sized 4 readMessagePackText
    | _ => none

/-- The shape of an item, by its lead byte. -/
inductive MessagePackShape where
  | leaf
  | list (size : Nat)
  | map (size : Nat)

/-- The shape of an item and what follows its head. -/
def messagePackShape? (lead : UInt8) (rest : Bytes) : Option (MessagePackShape × Bytes) :=
  if 0x80 ≤ lead ∧ lead < 0x90 then some (.map (lead.toNat - 0x80), rest)
  else if 0x90 ≤ lead ∧ lead < 0xA0 then some (.list (lead.toNat - 0x90), rest)
  else
    match lead with
    | 0xDC => (takeNumber? 2 rest).map fun r => (.list r.1, r.2)
    | 0xDD => (takeNumber? 4 rest).map fun r => (.list r.1, r.2)
    | 0xDE => (takeNumber? 2 rest).map fun r => (.map r.1, r.2)
    | 0xDF => (takeNumber? 4 rest).map fun r => (.map r.1, r.2)
    | _ => some (.leaf, rest)

/-- Whether a value is allowed as a key. -/
def messagePackKey : Value → Bool
  | .scalar (.text ..) => true
  | .alien (.binary .fixed _) => true
  | _ => false

mutual

/-- The item at the start of bytes, and what follows it. -/
def readMessagePackItem : Nat → Bytes → Option (Value × Bytes)
  | 0, _ => none
  | _, [] => none
  | fuel + 1, lead :: rest => do
    match ← messagePackShape? lead rest with
    | (.leaf, rest) => readMessagePackLeaf lead rest
    | (.list size, rest) => do
      let (xs, rest) ← readMessagePackItems fuel size [] rest
      return (.list xs, rest)
    | (.map size, rest) => do
      let (entries, rest) ← readMessagePackEntries fuel size [] rest
      return (.dict entries, rest)

/-- So many items, after those of `done`, which are in reverse. -/
def readMessagePackItems : Nat → Nat → List Value → Bytes → Option (List Value × Bytes)
  | _, 0, done, bytes => some (done.reverse, bytes)
  | 0, _, _, _ => none
  | fuel + 1, size + 1, done, bytes => do
    let (v, rest) ← readMessagePackItem fuel bytes
    readMessagePackItems fuel size (v :: done) rest

/-- So many entries, after those of `done`. -/
def readMessagePackEntries :
    Nat → Nat → List (Value × Value) → Bytes → Option (List (Value × Value) × Bytes)
  | _, 0, done, bytes => some (done, bytes)
  | 0, _, _, _ => none
  | fuel + 1, size + 1, done, bytes => do
    let (k, rest) ← readMessagePackItem fuel bytes
    -- The key is checked before its value is read.
    if !messagePackKey k then none
    let (v, rest) ← readMessagePackItem fuel rest
    readMessagePackEntries fuel size (setEntry done k v) rest

end

/-- The data of bytes that are one MessagePack item. Each byte takes at most two
    steps, one for the item it begins and one for its place in a collection. -/
def readMessagePack? (bytes : Bytes) : Option Value :=
  match readMessagePackItem (2 * bytes.length + 2) bytes with
  | some (v, []) => some v
  | _ => none

end Docket
