import Docket.Configuration
import Docket.Payload
import Docket.Recorder

/-!
# Documents

A document collects fields and is then finalized once. While it is open, the
fields of mappings and bodies are merged into it: a name already present keeps
its place and takes the new value. Finalizing writes the fields and keeps the
payload, which the closed document returns from then on; what fails to be written
leaves it open.

The fields may hold the mappings of blocks, so that a late assignment to a block
that was kept shows in the document, though not in a payload already written.

## Main definitions

* `Document`: A document.
* `Document.map`, `Document.field`: Adding to an open document.
* `Document.toBytes`, `Document.toText`, `Document.writeTo`: Finalizing it.
* `toDocument`, `toBytes`, `toText`: A tree straight to a document or payload.
-/

namespace Docket

structure Document where
  encoding : Encoding
  layout : JsonLayout
  content : Fields
  payload : Option Bytes

/-- The layout a value asks for. -/
def JsonLayout.ofValue (v : Value) : JsonLayout := if v.isTruthy then .indented else .compact

/-- The type of the first part of a value of which no copy can be made: what is
    consumed by looking at it, and views of what belongs to others. -/
def Value.copyFault? : Value → Option String
  | .generator .. => some "generator"
  | .mapping .readOnly _ => some "mappingproxy"
  | .alien (.binary .view _) => some "memoryview"
  | .items _ xs => firstFault xs
  | .mapping _ entries => entriesFault entries
  | .bodyItems _ xs => firstFault xs
  | .node n => nodeFault n
  | _ => none
where
  firstFault : List Value → Option String
    | [] => none
    | v :: rest => v.copyFault? <|> firstFault rest
  entriesFault : List (Value × Value) → Option String
    | [] => none
    | (k, v) :: rest => k.copyFault? <|> v.copyFault? <|> entriesFault rest
  nodeFault : Node → Option String
    | .scalar v _ => v.copyFault?
    | .seq ns => nodesFault ns
    | .mapping entries => nodeEntriesFault entries
    | .nested _ => none
    | .raw v => v.copyFault?
  nodesFault : List Node → Option String
    | [] => none
    | n :: rest => nodeFault n <|> nodesFault rest
  nodeEntriesFault : List (Name × Node) → Option String
    | [] => none
    | (_, n) :: rest => nodeFault n <|> nodeEntriesFault rest

/-- The fields of a mapping as they are now. -/
def topFields : Value → Run Fields
  | .live id => Run.fieldsOf id
  | .mapping _ entries => return entries.filterMap fun e =>
      match e.1 with
      | .scalar (.text s form) => some (⟨s, form⟩, e.2)
      | _ => none
  | _ => return []

namespace Failure

/-- Whether a stream may be expected to fail like this. -/
def isStreamFault (e : Failure) : Bool := e.isCaught ["OSError", "ValueError"]

end Failure

namespace Document

/-- An empty document. The settings stand in for what is not given. -/
def make (encoding pretty : Option Value) : Run Document := do
  let config ← Run.configuration
  let encoding ← match encoding with
    | none => pure config.encoding
    | some (.scalar .null) => pure config.encoding
    | some v => MonadExcept.ofExcept (Encoding.ofValue v)
  let layout := match pretty with
    | none => JsonLayout.ofValue (.bool config.pretty)
    | some (.scalar .null) => JsonLayout.ofValue (.bool config.pretty)
    -- Any value will do here, by whether it counts as true.
    | some v => JsonLayout.ofValue v
  return ⟨encoding, layout, [], none⟩

def isClosed (d : Document) : Bool := d.payload.isSome

/-- A document in short. -/
def display (d : Document) : String :=
  "Document(" ++ d.encoding.name ++ ", " ++ toString d.content.length ++ " fields, " ++
    (if d.isClosed then "closed" else "open") ++ ")"

/-- Fails if the document is closed. -/
def ensureOpen (d : Document) : Run Unit := if d.isClosed then throw .finalized else return ()

/-- Merges the fields of a tree into the document, once it has been evaluated. -/
def map (d : Document) (tree : Value) : Run Document := do
  d.ensureOpen
  let fields ← topFields (← toMap tree)
  return { d with content := d.content.merge fields }

/-- Sets one field of the document. -/
def field (d : Document) (name tree : Value) : Run Document := do
  d.ensureOpen
  match name with
  | .scalar (.text s form) => do
    let v ← (← toNode tree ⟨s, form⟩).evaluate
    return { d with content := d.content.set ⟨s, form⟩ v }
  | name => throw (.refuse .fieldName name none)

/-- The fields as a mapping, as they are now. -/
def current (d : Document) : Run Value := return (← get).snapshot d.content.toValue

/-- A copy of the fields. -/
def asMap (d : Document) : Run Value := do
  let v ← d.current
  match v.copyFault? with
  | none => return v
  | some typeName => throw (.typeError ("cannot pickle '" ++ typeName ++ "' object"))

/-- Finalizes the document: its payload, and the closed document. -/
def toBytes (d : Document) : Run (Bytes × Document) := do
  match d.payload with
  | some payload => return (payload, d)
  | none => do
    let payload ← encode (← d.current) d.encoding d.layout
    Run.log (.finalized d.encoding d.content.length payload.length)
    return (payload, { d with payload := some payload })

/-- The text of a payload. -/
def payloadText (payload : Bytes) : String :=
  String.ofList ((decodeStrictUtf8? payload).getD [])

/-- Finalizes the document unless it is binary: its payload as text. -/
def toText (d : Document) : Run (String × Document) := do
  if d.encoding.binary then throw (.textOfBinary d.encoding)
  let (payload, d) ← d.toBytes
  return (payloadText payload, d)

/-- Hands a payload to a stream. -/
def deliver (stream : Bytes → Except Failure Unit) (payload : Bytes) : Except Failure Nat :=
  match stream payload with
  | .ok _ => .ok payload.length
  | .error e => .error (if e.isStreamFault then .streamFailed e else e)

/-- Finalizes the document and hands its payload to a stream. The document stays
    closed if the stream fails. -/
def writeTo (d : Document) (stream : Bytes → Except Failure Unit) :
    Run (Except Failure Nat × Document) := do
  let (payload, d) ← d.toBytes
  return (deliver stream payload, d)

end Document

/-- A tree as a document. -/
def toDocument (tree : Value) (encoding : Option Value) : Run Document := do
  (← Document.make encoding none).map tree

/-- A tree as a payload. -/
def toBytes (tree : Value) (encoding : Option Value) : Run Bytes := do
  return (← (← toDocument tree encoding).toBytes).1

/-- A tree as text. It is not evaluated if the encoding is binary. -/
def toText (tree : Value) (encoding : Option Value) : Run String := do
  let e ← match encoding with
    | none => do pure (← Run.configuration).encoding
    | some (.scalar .null) => do pure (← Run.configuration).encoding
    | some v => MonadExcept.ofExcept (Encoding.ofValue v)
  if e.binary then throw (.textOfBinary e)
  let d ← toDocument tree (some (.scalar (.text e.name (.encoding e))))
  return (← d.toText).1

/-- JSON as a value that asks for it. -/
def askForJson : Value := .scalar (.text Encoding.json.name (.encoding .json))

/-- A tree as JSON bytes. -/
def asBytes (tree : Value) : Run Bytes := toBytes tree (some askForJson)

/-- A tree as JSON text. -/
def asText (tree : Value) : Run String := toText tree (some askForJson)

end Docket
