import Docket.Cbor.Item
import Docket.Cbor.Tagged
import Docket.Reference

/-!
# The data of CBOR

What items stand for. The keys of a map, and what is under a tag, are read as
fixed: as tuples, maps and sets that cannot change and may be keys themselves.

An item may be marked as shared, and a later item may then stand for it by its
number; a list or a map can even be referred to by what is in it. Within an item
that is marked for it, strings may be referred to too: those whose length came
first and that are longer than a reference to them would be are numbered in
order.

## Main definitions

* `CborMemory`: What later items may refer to.
* `CborItem.data`: The value of an item.
* `CborItem.value?`: The value of an item that stands for itself.
-/

namespace Docket

/-- What later items may refer to: the shared items by number, as far as they are
    known, and the strings, where they are numbered. -/
structure CborMemory where
  shared : Array (Option Value)
  strings : Option (Array Value)
deriving Inhabited

/-- Reading part of a payload. -/
abbrev CborRead := StateT CborMemory Option

namespace CborMemory

def empty : CborMemory := ⟨#[], none⟩

/-- The length from which on a string has a number, if so many have one. -/
def referredLength (count : Nat) : Nat :=
  if count < 24 then 3
  else if count < 256 then 4
  else if count < 65536 then 5
  else if count < 4294967296 then 7
  else 11

/-- Numbers a string of some length. -/
def keepString (m : CborMemory) (length : Nat) (v : Value) : CborMemory :=
  match m.strings with
  | some strings =>
    if length < referredLength strings.size then m else { m with strings := some (strings.push v) }
  | none => m

end CborMemory

/-- The value of a simple value's number. -/
def cborSimple : Nat → Value
  | 20 => .bool false
  | 21 => .bool true
  | 22 => .null
  | 23 => .alien .undefined
  | n => .alien (.simple n)

/-- The element of an array that content tells by number. -/
def cborElement? {α : Type} (xs : Array α) (index : Value) : Option α := do
  let n ← cborInteger? index
  if n < 0 then none else xs[n.toNat]?

namespace CborItem

/-- Whether an item is a list or a map, which may be referred to from within. -/
def isCollection : CborItem → Bool
  | array _ => true
  | map _ => true
  | _ => false

mutual

/-- The value of an item. `fixed` says that it must not change. -/
def data (fixed : Bool) : CborItem → CborRead Value
  | .int n => return .int n
  | .bytes b whole => do
    -- Strings in chunks are never referred to.
    if whole then modify (·.keepString b.length (.bytes b))
    return .bytes b
  | .text s whole => do
    if whole then modify (·.keepString s.utf8ByteSize (.text s))
    return .text s
  | .array items => return .items (if fixed then .tuple else .list) (← dataItems fixed items)
  | .map entries =>
    return .mapping (if fixed then .frozen else .plain) (← dataEntries fixed [] entries)
  | .simple n => return cborSimple n
  | .float x => return .float x
  | .tag 25 content => do
    let index ← content.data true
    return ← cborElement? (← (← get).strings) index
  | .tag 28 content => do
    let number := (← get).shared.size
    -- A collection that can change is known before it is complete, so that it can refer to
    -- itself.
    let known := if content.isCollection && !fixed then some (.alien (.reference number)) else none
    modify fun m => { m with shared := m.shared.push known }
    let v ← content.data fixed
    modify fun m => { m with shared := m.shared.setIfInBounds number (some v) }
    return v
  | .tag 29 content => do
    let index ← content.data true
    return ← (← cborElement? (← get).shared index)
  | .tag 256 content => do
    -- References to strings are counted anew within.
    let outer := (← get).strings
    modify fun m => { m with strings := some #[] }
    let v ← content.data fixed
    modify fun m => { m with strings := outer }
    return v
  | .tag n content => do
    -- What a tag is about is read as something that cannot change.
    let v ← content.data true
    return ← cborTagged? fixed n v

def dataItems (fixed : Bool) : List CborItem → CborRead (List Value)
  | [] => return []
  | item :: rest => do
    let v ← item.data fixed
    return v :: (← dataItems fixed rest)

/-- The entries of a map, after those of `done`. -/
def dataEntries (fixed : Bool) (done : List (Value × Value)) :
    List (CborItem × CborItem) → CborRead (List (Value × Value))
  | [] => return done
  | (key, item) :: rest => do
    let k ← key.data true
    let v ← item.data fixed
    if k.unhashable?.isSome then failure
    dataEntries fixed (setEntry done k v) rest

end

/-- The value of an item that stands for itself. -/
def value? (item : CborItem) : Option Value := do
  let (v, m) ← (item.data false).run .empty
  v.unfold? (m.shared.map (·.getD .null))

end CborItem

end Docket
