import Docket.Session

/-!
# Value trees

Classification turns a value into a tree of nodes and refuses what has no place
in a document, naming the first offender from left to right by its place in the
tree. It runs no body: the bodies it meets become nodes of their own. It does
draw from generators, and what a generator fails with is the failure of the
classification.

Resolving evaluates a tree into plain data, depth first. How a body is run is a
parameter here, because running a body classifies and resolves what its
statements assign.

## Main definitions

* `Value.classify`: The tree of a value in which no block is left to look up.
* `toNode`: The tree of a value.
* `Node.resolve`: The data a tree stands for.
* `Node.names`: The names of a mapping.
-/

namespace Docket

/-- The place of the `i`-th item of the collection at `path`. -/
def itemPath (path : Name) (i : Nat) : Name :=
  .ofText (path.display ++ "[" ++ toString i ++ "]")

/-- The place of a field of the mapping at `path`. At the top it is the name
    itself. -/
def fieldPath (path name : Name) : Name :=
  if path.text.isEmpty then name else .ofText (path.display ++ "." ++ name.display)

namespace Failure

/-- What a generator fails with: the end of iteration, raised inside it, is an
    error of another class. -/
def inGenerator (e : Failure) : Failure :=
  if e.isCaught ["StopIteration"] then
    .foreign "RuntimeError" "generator raised StopIteration" (some e)
  else e

end Failure

/-- The integers from `start` on, `step` apart, before `stop`. -/
def rangeItems (start stop step : Int) : List Int :=
  (List.range (rangeCount start stop step)).map fun (i : Nat) => start + step * (i : Int)

namespace Node

def ofInt (n : Int) : Node := .scalar (.int n) .integer

def ofText (s : String) : Node := .scalar (.text s) .string

end Node

mutual

/-- The tree of a value at a place. -/
def Value.classify (path : Name) : Value → Run Node
  | .node n => return n
  | .block id => throw (.refuse .handle (.block id) path)
  | .fieldRef id ps => throw (.refuse .handle (.fieldRef id ps) path)
  | .scalar (.float x _) =>
    if x.isFinite then return .scalar (.float x) .float
    else throw (.refused (.nonFinite x) "float" path)
  -- A leaf of a derived class is data of its plain type.
  | .scalar s => return .scalar (.scalar s.plain) s.kind
  | .mapping _ entries => return .mapping (← classifyEntries path entries)
  | .alien (.binary kind bytes) => throw (.refuse .binary (.alien (.binary kind bytes)) path)
  | .body b => return .nested b
  -- An object that can be called is a body, even if it could be gone through as well.
  | .bodyItems b _ => return .nested b
  | .items _ xs => return .seq (← classifyItems path 0 xs)
  | .range start stop step => return .seq ((rangeItems start stop step).map .ofInt)
  | .encodings => return .seq (Encoding.all.map fun e => .ofText e.name)
  | .generator id xs ending => do
    let drawn ← Run.drawnOf id
    let nodes ← drawItems path id drawn 0 0 xs
    match ending with
    | none => return .seq nodes
    | some e =>
      -- It fails where its items end, and only once: after that it is exhausted like any other.
      if drawn ≤ xs.length then
        Run.setDrawn id (xs.length + 1)
        throw e.inGenerator
      else return .seq nodes
  | v => throw (.refuse .foreign v path)

/-- The trees of the items of a collection, the first of which is item `i`. -/
def classifyItems (path : Name) (i : Nat) : List Value → Run (List Node)
  | [] => return []
  | v :: rest => do
    let n ← v.classify (itemPath path i)
    return n :: (← classifyItems path (i + 1) rest)

/-- The trees of the entries of a mapping. A key is looked at before its value,
    and every entry is kept, also one whose name is repeated. -/
def classifyEntries (path : Name) : List (Value × Value) → Run (List (Name × Node))
  | [] => return []
  | (.scalar (.text name form), v) :: rest => do
    let n ← v.classify (fieldPath path ⟨name, form⟩)
    return (⟨name, form⟩, n) :: (← classifyEntries path rest)
  | (k, _) :: _ => throw (.refuse .key k path)

/-- The trees of the items drawn from a generator of which `drawn` items are
    gone. The next item of `xs` is the generator's item `pos` and the
    collection's item `i`; it counts as drawn even if it is refused. -/
def drawItems (path : Name) (id drawn pos i : Nat) : List Value → Run (List Node)
  | [] => return []
  | v :: rest => do
    if pos < drawn then drawItems path id drawn (pos + 1) i rest
    else
      Run.setDrawn id (pos + 1)
      let n ← v.classify (itemPath path i)
      return n :: (← drawItems path id drawn (pos + 1) (i + 1) rest)

end

/-- The tree of a value at a place, blocks being looked up as they are now. -/
def toNode (v : Value) (path : Name) : Run Node := do
  (← get).snapshot v |>.classify path

mutual

/-- The data that a tree stands for. A repeated name takes the last value, and
    the earlier one is evaluated all the same. -/
def Node.resolve (run : Body → Run Value) : Node → Run Value
  | .scalar v _ => return v
  | .seq items => return .list (← resolveItems run items)
  | .mapping entries => return (← resolveEntries run [] entries).toValue
  | .nested b => run b
  | .raw v => throw (.refuse .notNode v none)

def resolveItems (run : Body → Run Value) : List Node → Run (List Value)
  | [] => return []
  | n :: rest => do
    let v ← n.resolve run
    return v :: (← resolveItems run rest)

def resolveEntries (run : Body → Run Value) (done : Fields) :
    List (Name × Node) → Run Fields
  | [] => return done
  | (name, n) :: rest => do
    let v ← n.resolve run
    resolveEntries run (done.set name v) rest

end

namespace Node

/-- The distinct names of a mapping, in order. -/
def names (entries : List (Name × Node)) : List String :=
  (entries.foldl (fun (fs : Fields) e => fs.set e.1 .null) []).names

end Node

end Docket
