import Docket.Bytes
import Docket.Number.Binary64

/-!
# Items of CBOR

The items that CBOR bytes spell, before anything is made of their tags: integers,
strings of bytes and of text, arrays and maps in order, numbered simple values,
floating-point numbers, and items under a tag.

Heads may be wider than need be, numbers may have any of three widths, and
strings and collections may be of indefinite length. Whether the length of a
string came before it is kept, because only such a string can be referred to.

## Main definitions

* `CborItem`: The items.
* `cborArgument?`: The number in a head.
* `readCborItem`: An item and what follows it.
-/

namespace Docket

inductive CborItem where
  | int (n : Int)
  | bytes (b : Bytes) (whole : Bool)
  | text (s : String) (whole : Bool)
  | array (items : List CborItem)
  | map (entries : List (CborItem × CborItem))
  | simple (n : Nat)
  | float (x : Binary64)
  | tag (n : Nat) (content : CborItem)
deriving Inhabited

/-- The number in a head, from its five bits of information and the bytes after
    them; none if the length is indefinite. -/
def cborArgument? (info : Nat) (rest : Bytes) : Option (Option Nat × Bytes) :=
  let sized (width : Nat) := (takeNumber? width rest).map fun r => (some r.1, r.2)
  if info < 24 then some (some info, rest)
  else if info = 24 then sized 1
  else if info = 25 then sized 2
  else if info = 26 then sized 4
  else if info = 27 then sized 8
  else if info = 31 then some (none, rest)
  else none

/-- The chunks of a string of indefinite length, joined, and what follows its
    end. Every chunk is a string of the same major type and has a length. -/
def readCborChunks (major : Nat) : Nat → List Bytes → Bytes → Option (List Bytes × Bytes)
  | 0, _, _ => none
  | fuel + 1, done, bytes =>
    match bytes with
    | [] => none
    | b :: rest =>
      if b = 0xFF then some (done.reverse, rest)
      else if b.toNat / 32 ≠ major then none
      else do
        let (n, rest) ← cborArgument? (b.toNat % 32) rest
        let (chunk, rest) ← takeBytes? (← n) rest
        readCborChunks major fuel (chunk :: done) rest

/-- The chunks of a string, one unless its length is indefinite. -/
def readCborString (major : Nat) (length : Option Nat) (rest : Bytes) :
    Option (List Bytes × Bytes) :=
  match length with
  | some n => (takeBytes? n rest).map fun r => ([r.1], r.2)
  | none => readCborChunks major (rest.length + 1) [] rest

/-- The text of chunks, each of which must be text by itself. -/
def cborTextOf (chunks : List Bytes) : Option String := do
  let parts ← chunks.mapM decodeStrictUtf8?
  return String.ofList parts.flatten

/-- The item of major type 7 with some information. A simple value below 32 is
    never given a byte of its own. -/
def readCborSimple (info : Nat) (rest : Bytes) : Option (CborItem × Bytes) :=
  match info with
  | 24 => do
    let (n, rest) ← takeNumber? 1 rest
    if n < 32 then none else some (.simple n, rest)
  | 25 => (takeNumber? 2 rest).map fun r => (.float (.ofHalf r.1), r.2)
  | 26 => (takeNumber? 4 rest).map fun r => (.float (.ofSingle r.1), r.2)
  | 27 => (takeNumber? 8 rest).map fun r => (.float ⟨UInt64.ofNat r.1⟩, r.2)
  | n => if n < 24 then some (.simple n, rest) else none

mutual

/-- The item at the start of bytes, and what follows it. -/
def readCborItem : Nat → Bytes → Option (CborItem × Bytes)
  | 0, _ => none
  | _, [] => none
  | fuel + 1, b :: rest => do
    let info := b.toNat % 32
    if b.toNat / 32 = 7 then readCborSimple info rest
    else
      let (argument, rest) ← cborArgument? info rest
      match b.toNat / 32 with
      | 0 => return (.int (← argument), rest)
      -- Only strings, arrays and maps may have an indefinite length.
      | 1 => return (.int (-1 - ((← argument) : Int)), rest)
      | 2 => do
        let (chunks, rest) ← readCborString 2 argument rest
        return (.bytes chunks.flatten argument.isSome, rest)
      | 3 => do
        let (chunks, rest) ← readCborString 3 argument rest
        return (.text (← cborTextOf chunks) argument.isSome, rest)
      | 4 => do
        let (items, rest) ← readCborItems fuel argument [] rest
        return (.array items, rest)
      | 5 => do
        let (entries, rest) ← readCborEntries fuel argument [] rest
        return (.map entries, rest)
      | _ => do
        let (content, rest) ← readCborItem fuel rest
        return (.tag (← argument) content, rest)

/-- The items of an array that are left, after those of `done`, which are in
    reverse: `count` of them, or up to the mark of the end. -/
def readCborItems : Nat → Option Nat → List CborItem → Bytes → Option (List CborItem × Bytes)
  | 0, _, _, _ => none
  | fuel + 1, count, done, bytes =>
    match count, bytes with
    | some 0, bytes => some (done.reverse, bytes)
    | none, 0xFF :: rest => some (done.reverse, rest)
    | count, bytes => do
      let (item, rest) ← readCborItem fuel bytes
      readCborItems fuel (count.map (· - 1)) (item :: done) rest

/-- The entries of a map that are left, after those of `done`, which are in
    reverse. -/
def readCborEntries : Nat → Option Nat → List (CborItem × CborItem) → Bytes →
    Option (List (CborItem × CborItem) × Bytes)
  | 0, _, _, _ => none
  | fuel + 1, count, done, bytes =>
    match count, bytes with
    | some 0, bytes => some (done.reverse, bytes)
    | none, 0xFF :: rest => some (done.reverse, rest)
    | count, bytes => do
      let (key, rest) ← readCborItem fuel bytes
      let (item, rest) ← readCborItem fuel rest
      readCborEntries fuel (count.map (· - 1)) ((key, item) :: done) rest

end

/-- The item that bytes begin with. Each byte takes at most two steps, one for
    the item it begins and one for its place in a collection. -/
def CborItem.ofBytes? (bytes : Bytes) : Option CborItem :=
  (readCborItem (2 * bytes.length + 2) bytes).map (·.1)

end Docket
