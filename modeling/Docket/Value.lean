import Docket.Script

/-!
# Values

Everything a program may hand to the compiler. Some values have a place in a
document (scalars, mappings, other collections, bodies), some have not
(objects of foreign types, bytes, the block itself), and the compiler's first
task is to tell which.

Blocks are referred to by number. `live id` is the mapping that block `id`
records into: it is one and the same mapping wherever it occurs, so a later
assignment on the block shows in every place that holds it. All other
collections are fixed once built, except that a generator can be drawn from
only once; how far it has been drawn is kept by the recorder.

Failures are values too, since a value may have failed to name an encoding and
a failure may be handed to the compiler.

## Main definitions

* `Value`: The values.
* `Node`: The four kinds of tree nodes that values are classified into.
* `Failure`: What can go wrong, by cause.
-/

namespace Docket

/-- Why a value has no place in a document. -/
inductive Objection where
  | handle
  | nonFinite (x : Binary64)
  | key
  | binary
  | foreign
  | notNode
  | notDocument
  | unwritable
  | fieldName
deriving DecidableEq, Inhabited

/-- The kinds of failures this library reports. -/
inductive FailureKind where
  | unsupportedValue
  | unsupportedEncoding
  | unsupportedOperation
  | compile
  | serialization
  | parse
  | timeout
  | actionFailed
  | illegalState
  | cancelled
deriving DecidableEq, Inhabited

/-- The states of a future. -/
inductive FutureState where
  | pending
  | completed
  | failed
deriving DecidableEq, Inhabited

mutual

inductive Value where
  | scalar (s : Scalar)
  | alien (a : Alien)
  | range (start stop step : Int)
  | encodings
  | items (kind : ItemsKind) (xs : List Value)
  | mapping (kind : MappingKind) (entries : List (Value × Value))
  | generator (id : Nat) (xs : List Value) (ending : Option Failure)
  | body (b : Body)
  | bodyItems (b : Body) (xs : List Value)
  | failure (e : Failure)
  | node (n : Node)
  | block (id : Nat)
  | fieldRef (id : Nat) (path : List String)
  | live (id : Nat)
  | tag (n : Nat) (v : Value)

/-- A node of a value tree. A node made by hand may hold a value that is no
    node. -/
inductive Node where
  | scalar (v : Value) (kind : ScalarKind)
  | seq (items : List Node)
  | mapping (entries : List (Name × Node))
  | nested (b : Body)
  | raw (v : Value)

/-- What can go wrong. `reported` is a failure of this library with a message
    of its own, made by a script; `foreign` is any other error, by class and
    text. Classes that others derive from those of this library are left out. -/
inductive Failure where
  | refused (why : Objection) (typeName : String) (path : Option Name)
  | unknownEncoding (asked : Value)
  | undetected (start : Bytes)
  | textOfBinary (e : Encoding)
  | bodyFailed (body : String) (cause : Failure)
  | finalized
  | encoderFailed (e : Encoding) (cause : Option Failure)
  | streamFailed (cause : Failure)
  | bytesNeeded (e : Encoding)
  | readerFailed (e : Encoding) (cause : Option Failure)
  | timedOut (milliseconds : Int)
  | actionFailed (cause : Failure)
  | alreadyResolved (state : FutureState)
  | cancelled
  | reported (kind : FailureKind) (message : String) (cause : Option Failure)
  | foreign (cls : ExceptionClass) (text : String) (cause : Option Failure)

end

instance : Inhabited Value := ⟨.scalar .null⟩

instance : Inhabited Node := ⟨.seq []⟩

instance : Inhabited Failure := ⟨.finalized⟩

namespace Value

def null : Value := .scalar .null

def bool (b : Bool) : Value := .scalar (.bool b)

def int (n : Int) : Value := .scalar (.int n .plain)

def float (x : Binary64) : Value := .scalar (.float x .plain)

def text (s : String) : Value := .scalar (.text s .plain)

def list (xs : List Value) : Value := .items .list xs

def dict (entries : List (Value × Value)) : Value := .mapping .plain entries

def bytes (b : Bytes) : Value := .alien (.binary .fixed b)

end Value

/-- The number of integers from `start` on, `step` apart, before `stop`. -/
def rangeCount (start stop step : Int) : Nat :=
  if 0 < step then ((stop - start + step - 1) / step).toNat
  else if step < 0 then ((start - stop - step - 1) / (-step)).toNat
  else 0

namespace Name

/-- A name as the key of a mapping. -/
def toValue (n : Name) : Value := .scalar (.text n.text n.form)

end Name

/-- The fields of one level of a document, in order. -/
abbrev Fields := List (Name × Value)

namespace Fields

/-- The value of a field. -/
def get? (fields : Fields) (name : String) : Option Value :=
  (fields.find? fun f => f.1.text == name).map (·.2)

/-- Assigns a field: a name already present keeps its place and its first form,
    a new one goes to the end. -/
def set : Fields → Name → Value → Fields
  | [], name, v => [(name, v)]
  | (n, w) :: rest, name, v =>
    if n.same name then (n, v) :: rest else (n, w) :: set rest name v

/-- Assigns several fields, in order. -/
def merge (fields : Fields) (news : Fields) : Fields :=
  news.foldl (fun fs f => fs.set f.1 f.2) fields

def names (fields : Fields) : List String := fields.map (·.1.text)

/-- The fields as a mapping. -/
def toValue (fields : Fields) : Value := .dict (fields.map fun f => (f.1.toValue, f.2))

end Fields

end Docket
