import Docket.Log

/-!
# Sessions

What the library remembers while it works: the fields of every block made so
far, what has been assigned to it, how far each generator has been drawn, the
counters and kept blocks that scripts use, the leaf nodes they have made by hand,
what they have traced, the log, and the settings.

Blocks are numbered in the order in which they are made, and they are never
forgotten, because a script may keep a block and assign to it after its body
has ended. A value may hold the field mapping of a block; `snapshot` puts the
fields themselves in its place, which is what reading, tracing and writing see.

Work is done in `Run`: a failure ends it but does not undo what was recorded
before.

## Main definitions

* `Session`: The state.
* `Run`: Work on a session that may fail.
* `Value.snapshot`: A value with the fields of all blocks written out.
-/

namespace Docket

/-- The settings of the compiler. The layout is kept as it was given, because
    it is looked at only when it is needed. -/
structure Settings where
  encoding : String
  pretty : Value

namespace Settings

/-- The settings before anything has been set. -/
def initial : Settings := ⟨Encoding.json.name, .bool false⟩

end Settings

/-- What a script has traced. -/
inductive Note where
  | seen (label : String) (v : Value)
  | tried (failure : Option Failure)

structure Session where
  blocks : Array Fields
  /-- what has been assigned to each block, in the order in which it was stored -/
  history : Array Fields
  drawn : Array Nat
  counters : List (String × Nat)
  kept : List (String × Nat)
  /-- what the leaf nodes hold that were made by hand -/
  leaves : Array Value
  notes : Array Note
  records : Array LogRecord
  settings : Settings

namespace Session

def initial : Session := ⟨#[], #[], #[], [], [], #[], #[], #[], .initial⟩

/-- The fields of a block. -/
def fields (s : Session) (id : Nat) : Fields := s.blocks[id]?.getD []

/-- What has been assigned to a block so far. -/
def assignments (s : Session) (id : Nat) : Fields := s.history[id]?.getD []

end Session

mutual

/-- A value with the field mapping of each block replaced. Nodes made by hand
    are left as they are. -/
def Value.mapLive (f : Nat → Value) : Value → Value
  | .live id => f id
  | .items kind xs => .items kind (mapLiveItems f xs)
  | .mapping kind entries => .mapping kind (mapLiveEntries f entries)
  | .generator id xs ending => .generator id (mapLiveItems f xs) ending
  | .tag n v => .tag n (v.mapLive f)
  | v => v

def mapLiveItems (f : Nat → Value) : List Value → List Value
  | [] => []
  | v :: rest => v.mapLive f :: mapLiveItems f rest

def mapLiveEntries (f : Nat → Value) : List (Value × Value) → List (Value × Value)
  | [] => []
  | (k, v) :: rest => (k.mapLive f, v.mapLive f) :: mapLiveEntries f rest

end

/-- A value with blocks written out to the given depth. -/
def Value.expand (blocks : Array Fields) : Nat → Value → Value
  | 0, v => v
  | depth + 1, v => v.mapLive fun id =>
    Fields.toValue ((blocks[id]?.getD []).map fun f => (f.1, expand blocks depth f.2))

namespace Session

/-- A value with the fields of all blocks written out. A block holds only
    blocks made after it, so there are at most as many levels as blocks. -/
def snapshot (s : Session) (v : Value) : Value := v.expand s.blocks (s.blocks.size + 1)

/-- The fields of a block, written out. -/
def snapshotFields (s : Session) (id : Nat) : Fields :=
  (s.fields id).map fun f => (f.1, s.snapshot f.2)

end Session

/-- Work on a session. What it recorded stays when it fails. -/
abbrev Run := ExceptT Failure (StateM Session)

namespace Run

/-- Makes a block without fields. -/
def newBlock : Run Nat := do
  let s ← get
  set { s with blocks := s.blocks.push [], history := s.history.push [] }
  return s.blocks.size

/-- The fields of a block as they are now. -/
def fieldsOf (id : Nat) : Run Fields := return (← get).fields id

/-- Assigns a field of a block. -/
def assign (id : Nat) (name : Name) (v : Value) : Run Unit :=
  modify fun s => { s with
    blocks := s.blocks.modify id fun fs => fs.set name v
    history := s.history.modify id fun before => before ++ [(name, v)] }

/-- Makes a generator that has not been drawn from. -/
def newGenerator : Run Nat := do
  let s ← get
  set { s with drawn := s.drawn.push 0 }
  return s.drawn.size

/-- How many times a generator has been drawn from. -/
def drawnOf (id : Nat) : Run Nat := return (← get).drawn[id]?.getD 0

def setDrawn (id n : Nat) : Run Unit :=
  modify fun s => { s with drawn := s.drawn.modify id fun _ => n }

/-- The next number of a counter; counters begin at one. -/
def count (name : String) : Run Nat := do
  let s ← get
  let n := (s.counters.find? (·.1 == name)).elim 0 (·.2) + 1
  set { s with counters := (name, n) :: s.counters.filter (·.1 != name) }
  return n

/-- Keeps a block under a key. -/
def keep (key : String) (id : Nat) : Run Unit :=
  modify fun s => { s with kept := (key, id) :: s.kept.filter (·.1 != key) }

/-- The block kept under a key. -/
def keptBlock (key : String) : Run Nat := do
  match (← get).kept.find? (·.1 == key) with
  | some (_, id) => return id
  | none => throw (.keyError (.text key))

/-- Notes down what a leaf node made by hand holds. It need not be a leaf. -/
def noteLeaf (v : Value) : Run Unit :=
  modify fun s => { s with leaves := s.leaves.push v }

/-- Notes down what a script traces; values are written out as they are now. -/
def trace (label : String) (v : Value) : Run Unit :=
  modify fun s => { s with notes := s.notes.push (.seen label (s.snapshot v)) }

def traceAttempt (failure : Option Failure) : Run Unit :=
  modify fun s => { s with notes := s.notes.push (.tried failure) }

def log (r : LogRecord) : Run Unit :=
  modify fun s => { s with records := s.records.push r }

end Run

end Docket
