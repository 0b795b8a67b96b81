import Docket.Number.Worth
import Docket.Value

/-!
# Keys

Which values can be keys of a mapping, and when two of them are one key. A
value can be a key if it cannot change. Numbers are compared by what they are
worth, whatever their kind, so that one, one half doubled and truth are one
key; sequences by their members in order, sets and mappings by what they hold in
any order. A simple value is one key with the integer of its number, but with no
number of another kind.

## Main definitions

* `Value.unhashable?`: What keeps a value from being a key.
* `Value.worth?`: What a value is worth as a number.
* `Value.sameKey`: Whether two values are one key.
* `setEntry`: Putting an entry into a mapping.
* `distinctValues`: The members of a set.
-/

namespace Docket

mutual

/-- Why a value cannot be a key, if it cannot: the name of the type at fault. -/
def Value.unhashable? : Value → Option String
  | .items .list _ => some "list"
  | .items .set _ => some "set"
  | .items .deque _ => some "collections.deque"
  | .items _ xs => firstUnhashable? xs
  | .mapping .plain _ => some "dict"
  | .mapping .ordered _ => some "collections.OrderedDict"
  | .mapping .readOnly _ => some "mappingproxy"
  | .mapping .frozen entries => firstUnhashableEntry? entries
  | .mapping .pairs _ => some "PairMap"
  | .mapping .callable _ => some "CallableMap"
  | .live _ => some "dict"
  | .tag _ v => v.unhashable?
  | .node n => n.unhashable?
  | .alien (.binary .growing _) => some "bytearray"
  | .alien (.reference _) => some "list"
  | _ => none

def firstUnhashable? : List Value → Option String
  | [] => none
  | v :: rest => v.unhashable? <|> firstUnhashable? rest

def firstUnhashableEntry? : List (Value × Value) → Option String
  | [] => none
  | (_, v) :: rest => v.unhashable? <|> firstUnhashableEntry? rest

/-- What keeps a node from being a key. -/
def Node.unhashable? : Node → Option String
  | .scalar v _ => v.unhashable?
  | .seq items => firstUnhashableNode? items
  | .mapping entries => firstUnhashableField? entries
  | .nested _ => none
  | .raw v => v.unhashable?

def firstUnhashableNode? : List Node → Option String
  | [] => none
  | n :: rest => n.unhashable? <|> firstUnhashableNode? rest

def firstUnhashableField? : List (Name × Node) → Option String
  | [] => none
  | (_, n) :: rest => n.unhashable? <|> firstUnhashableField? rest

end

/-- Whether two ranges, given by start, stop and step, hold the same integers. -/
def sameRange (a b : Int × Int × Int) : Bool :=
  let count := rangeCount a.1 a.2.1 a.2.2
  count == rangeCount b.1 b.2.1 b.2.2 &&
    (count == 0 || (a.1 == b.1 && (count == 1 || a.2.2 == b.2.2)))

/-- What a value is worth as a number, if it is a real one. -/
def Value.worth? : Value → Option Worth
  | .scalar (.float x _) => Worth.ofBinary? x
  | .scalar s => s.integer?.map Worth.ofInt
  | .alien (.complex real imaginary) => if imaginary.equal .zero then Worth.ofBinary? real else none
  | .alien (.decimal x) => Worth.ofNumeral? x
  | .alien (.fraction n d) => some (Worth.ofRatio (decide (n < 0)) n.natAbs d 0)
  | _ => none

/-- Whether two foreign values without worth are one key. -/
def Alien.sameKey (a b : Alien) : Bool :=
  match a, b with
  | .binary _ x, .binary _ y => x == y
  | .complex x u, .complex y v => x.equal y && u.equal v
  | .decimal _, .decimal _ => false
  | .unknown _, .unknown _ => false
  | a, b => a == b

/-- Whether a simple value is one key with an integer. -/
def isSimpleOf (n : Nat) : Scalar → Bool
  | .bool b => n == b.toNat
  | .int m _ => m == n
  | _ => false

/-- Whether a foreign value and another one are worth the same, or are one key
    for another reason. -/
def Alien.sameKeyAs (a : Alien) (b : Value) : Bool :=
  -- Numbers of all types are compared by what they are worth, before anything else.
  match (Value.alien a).worth?, b with
  | some x, b => b.worth? == some x
  | none, .alien b => a.sameKey b
  | none, .scalar s =>
    match a with
    | .simple n => isSimpleOf n s
    | _ => false
  | none, _ => false

/-- Whether two values are one key. -/
def Value.sameKey : Value → Value → Bool
  | .scalar a, .scalar b => a.sameKey b
  | .range start stop step, .range start' stop' step' =>
    sameRange (start, stop, step) (start', stop', step')
  | .encodings, .encodings => true
  | .items .tuple xs, .items .tuple ys => sameInOrder xs ys
  | .items .frozenset xs, .items .frozenset ys => xs.length == ys.length && allWithin xs ys
  | .mapping .frozen xs, .mapping .frozen ys => xs.length == ys.length && allEntriesWithin xs ys
  | .tag n v, .tag m w => n == m && v.sameKey w
  -- An object that is no number may still be equal to a leaf, whichever side it is on.
  | .alien a, b => a.sameKeyAs b
  | a, .alien b => b.sameKeyAs a
  | _, _ => false
where
  sameInOrder : List Value → List Value → Bool
    | [], [] => true
    | x :: xs, y :: ys => x.sameKey y && sameInOrder xs ys
    | _, _ => false
  allWithin : List Value → List Value → Bool
    | [], _ => true
    | x :: xs, ys => ys.any (fun y => x.sameKey y) && allWithin xs ys
  allEntriesWithin : List (Value × Value) → List (Value × Value) → Bool
    | [], _ => true
    | (k, v) :: xs, ys =>
      ys.any (fun e => k.sameKey e.1 && v.sameKey e.2) && allEntriesWithin xs ys

/-- Puts an entry into a mapping: a key already present keeps its place and its
    first form. -/
def setEntry (entries : List (Value × Value)) (key v : Value) : List (Value × Value) :=
  match entries with
  | [] => [(key, v)]
  | (k, w) :: rest =>
    if k.sameKey key then (k, v) :: rest else (k, w) :: setEntry rest key v

/-- Members without those that repeat an earlier one. -/
def distinctValues (xs : List Value) : List Value :=
  xs.foldl (fun done v => if done.any (·.sameKey v) then done else done ++ [v]) []

end Docket
