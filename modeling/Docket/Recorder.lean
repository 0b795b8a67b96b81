import Docket.FieldName
import Docket.Key
import Docket.Tree

/-!
# Recording blocks

What the statements of a script do to the block that is being recorded.

Every assignment, whatever its form, comes down to one rule: the value is
classified, resolved, and only then stored under its name. A name that is
present keeps its place. While a body runs, the blocks being recorded form a
stack, innermost first; statements and values may refer to blocks further out.

A body is run on a fresh block, and what it denotes is that block's field
mapping itself, so that an assignment made later on a kept block shows wherever
the mapping is held. An error that escapes from a body is wrapped once, at the
innermost body, unless this library reported it.

Running a body runs the bodies inside it. A body nests no deeper than its text,
except that a hand-made node can smuggle a body into a field, from where it may
be read and run again. `Body.depth` measures the first, `replayDepth` bounds
the second.

## Main definitions

* `Expr.build`: The value of an expression.
* `Stmt.exec`: What a statement does.
* `Body.runAt`: Running a body at some depth.
* `evaluate`: The data a value stands for.
-/

namespace Docket

/-- The blocks being recorded, innermost first. -/
abbrev BlockStack := List Nat

/-- The block a number of levels further out. -/
def blockAt (stack : BlockStack) (up : Nat) : Run Nat :=
  match stack[up]? with
  | some id => return id
  | none => throw (.indexError "list index out of range")

/-- The entries of a mapping built from pairs. -/
def dictEntries (pairs : List (Value × Value)) : Run (List (Value × Value)) :=
  pairs.foldlM (fun done p =>
    match p.1.unhashable? with
    | some t => throw (.typeError ("unhashable type: '" ++ t ++ "'"))
    | none => return setEntry done p.1 p.2) []

/-- The name of a field or of a keyword together with its value; a repeated one
    keeps its place and takes the last value. -/
def keywordFields (keywords : List (String × Value)) : Fields :=
  keywords.foldl (fun fs k => fs.set (.ofText k.1) k.2) []

/-- The reference that a path of attributes makes on a block. -/
def refPath : Bool → List String → Run (List String)
  | _, [] => return []
  | first, p :: rest => do
    if isPrivate p then
      throw (.attributeError
        ("'" ++ (if first then "Block" else "_FieldRef") ++ "' has no attribute '" ++ p ++ "'"))
    return fieldName p :: (← refPath false rest)

/-- The field that a reference stands for: dotted names are never split. -/
def dotted (path : List String) : String := ".".intercalate path

mutual

/-- The value of an expression. -/
def Expr.build (stack : BlockStack) : Expr → Run Value
  | .scalar s => return .scalar s
  | .alien a => return .alien a
  | .range start stop step => return .range start stop step
  | .encodings => return .encodings
  | .items kind xs => return .items kind (← buildItems stack xs)
  | .mapping kind entries => do
    let pairs ← buildEntries stack entries
    -- Pairs are no hash table: keys may be repeated, and may be anything.
    if kind = .pairs then return .mapping kind pairs
    return .mapping kind (← dictEntries pairs)
  | .generator xs ending => do
    let items ← buildItems stack xs
    let id ← Run.newGenerator
    return .generator id items (ending.map (·.build))
  | .body b => return .body b
  | .bodyItems b xs => return .bodyItems b (← buildItems stack xs)
  | .error e => return .failure e.build
  | .node n => do
    -- What is no node after all is left as the value that it is.
    match ← n.build stack with
    | .raw v => return v
    | n => return .node n
  | .counter name => return .int (← Run.count name)
  | .read name up => do
    let id ← blockAt stack up
    match (← Run.fieldsOf id).get? name with
    | some v => return v
    | none => throw (.keyError (.text name))
  | .ref path up => do
    let id ← blockAt stack up
    return .fieldRef id (← refPath true path)
  | .self up => return .block (← blockAt stack up)

def buildItems (stack : BlockStack) : List Expr → Run (List Value)
  | [] => return []
  | e :: rest => do
    let v ← e.build stack
    return v :: (← buildItems stack rest)

def buildEntries (stack : BlockStack) : List (Expr × Expr) → Run (List (Value × Value))
  | [] => return []
  | (k, e) :: rest => do
    let key ← k.build stack
    let v ← e.build stack
    return (key, v) :: (← buildEntries stack rest)

def buildFields (stack : BlockStack) : List (String × Expr) → Run (List (String × Value))
  | [] => return []
  | (name, e) :: rest => do
    let v ← e.build stack
    return (name, v) :: (← buildFields stack rest)

/-- The node that is written by hand. -/
def NodeExpr.build (stack : BlockStack) : NodeExpr → Run Node
  | .scalar v kind => do
    let v ← v.build stack
    Run.noteLeaf v
    return .scalar v kind
  | .seq items => return .seq (← buildNodes stack items)
  | .mapping entries => return .mapping (← buildNodeEntries stack entries)
  | .nested b => return .nested b
  | .ofFields fields => do
    let fs := keywordFields (← buildFields stack fields)
    -- The fields are keywords of a call, in which this word is taken by the class itself.
    if fs.names.contains "cls" then
      throw (.typeError "Mapping.of() got multiple values for argument 'cls'")
    return .mapping (← fs.mapM fun f => return (f.1, ← toNode f.2 f.1))
  | .raw v => do
    match ← v.build stack with
    | .node n => return n
    | v => return .raw v

def buildNodes (stack : BlockStack) : List NodeExpr → Run (List Node)
  | [] => return []
  | e :: rest => do
    let n ← e.build stack
    return n :: (← buildNodes stack rest)

def buildNodeEntries (stack : BlockStack) : List (String × NodeExpr) → Run (List (Name × Node))
  | [] => return []
  | (name, e) :: rest => do
    let n ← e.build stack
    return (.ofText name, n) :: (← buildNodeEntries stack rest)

end

/-- How a body is run while the given blocks are being recorded. -/
abbrev BodyRunner := BlockStack → Body → Run Value

/-- Stores a value under a name of a block, once it has been classified and
    resolved. -/
def assignField (run : BodyRunner) (stack : BlockStack) (id : Nat) (name : Name) (v : Value) :
    Run Unit := do
  let node ← toNode v name
  let data ← node.resolve (run stack)
  Run.assign id name data

/-- The value that a call with arguments assigns: keywords make a mapping,
    several arguments a list, none an empty mapping. -/
def callValue (args : List Value) (keywords : Fields) : Run Value :=
  match args, keywords with
  | [], fs => return (keywordFields (fs.map fun f => (fieldName f.1.text, f.2))).toValue
  | [v], [] => return v
  | vs, [] => return .list vs
  | _, _ => throw (.typeError "Cannot mix positional and keyword arguments in a field call")

/-- Calls a reference to a field with arguments. -/
def callRef (run : BodyRunner) (stack : BlockStack) (id : Nat) (path : List String)
    (args : List Value) (keywords : Fields) : Run Unit := do
  if keywords.names.contains "self" then
    throw (.typeError "_FieldRef.__call__() got multiple values for argument 'self'")
  assignField run stack id (.ofText (dotted path)) (← callValue args keywords)

/-- The name that a block is called with, and the arguments after it. The name
    may be given as a keyword. -/
def calledName (args : List Value) (keywords : Fields) : Run (Value × List Value) :=
  match args, keywords.get? "name" with
  | name :: rest, _ => return (name, rest)
  | [], some name => return (name, [])
  | [], none =>
    throw (.typeError "Block.__call__() missing 1 required positional argument: 'name'")

/-- Assigns the field of a name, which has to be a text. -/
def callNamed (run : BodyRunner) (stack : BlockStack) (id : Nat) (name : Value)
    (args : List Value) (keywords : Fields) : Run Unit :=
  match name with
  | .scalar (.text s form) => do
    assignField run stack id ⟨s, form⟩ (← callValue args keywords)
  | v => throw (.typeError ("Field name must be a string, got " ++ v.typeName))

/-- Calls a block with the name of a field and arguments. -/
def callBlock (run : BodyRunner) (stack : BlockStack) (id : Nat)
    (args : List Value) (keywords : Fields) : Run Unit := do
  -- A name that is given in order cannot be given by keyword, too.
  let taken := if args.isEmpty then ["self"] else ["self", "name"]
  match keywords.names.find? taken.contains with
  | some word =>
    throw (.typeError ("Block.__call__() got multiple values for argument '" ++ word ++ "'"))
  | none =>
    let (name, rest) ← calledName args keywords
    callNamed run stack id name rest
      -- A name that was given by keyword is no part of the value.
      (if args.isEmpty then keywords.filter (·.1.text != "name") else keywords)

/-- Makes a reference, then builds the arguments, then makes the call. An empty
    path calls the block itself. -/
def callPath (run : BodyRunner) (stack : BlockStack) (path : List String)
    (args : List Expr) (keywords : List (String × Expr)) : Run Unit := do
  let id ← blockAt stack 0
  let names ← refPath true path
  let vs ← buildItems stack args
  let fs := keywordFields (← buildFields stack keywords)
  if names.isEmpty then callBlock run stack id vs fs else callRef run stack id names vs fs

/-- Looks for a field by a key, which need not be a text. -/
def lookUp (id : Nat) (key : Value) : Run (Option Value) := do
  if let some t := key.unhashable? then
    throw (.typeError ("unhashable type: '" ++ t ++ "'"))
  match key with
  | .scalar (.text s _) => return (← Run.fieldsOf id).get? s
  | _ => return none

/-- Assigns a field by attributes. -/
def setPath (run : BodyRunner) (stack : BlockStack) (path : List String) (v : Value) :
    Run Unit := do
  let id ← blockAt stack 0
  let last := path.getLast?.getD ""
  -- The reference is followed first, so that a private name within the path fails there.
  let names ← refPath true path.dropLast
  if isPrivate last then
    throw (.attributeError
      (if names.isEmpty then
        "Cannot set attribute '" ++ last ++ "' on Block. " ++
          "Use block['_name'] = value for fields starting with an underscore."
      else "Cannot set attribute '" ++ last ++ "' on a field reference"))
  assignField run stack id (.ofText (dotted (names ++ [fieldName last]))) v

/-- A block as messages show it: its names in order. -/
def displayBlock (fields : Fields) : String := "Block(" ++ ", ".intercalate fields.names ++ ")"

/-- A key that was not found, as messages show it. -/
def displayKey : Value → Run String
  | .block id => return displayBlock (← Run.fieldsOf id)
  | k => return k.display

/-- What a statement does on the innermost block. -/
def Stmt.exec (run : BodyRunner) (stack : BlockStack) : Stmt → Run Unit
  | .set path v => do setPath run stack path (← v.build stack)
  | .call path args keywords => callPath run stack path args keywords
  | .chain calls => do
    calls.forM fun c => callPath run stack c.1 c.2.1 c.2.2
    Run.trace "chain" (.bool true)
  | .item key v => do
    -- The value is evaluated before its key is looked at, and so before a key that is no text is
    -- refused.
    let k ← key.build stack
    let value ← v.build stack
    match k with
    | .scalar (.text s form) => assignField run stack (← blockAt stack 0) ⟨s, form⟩ value
    | k => throw (.typeError ("Field name must be a string, got " ++ k.typeName))
  | .named name args keywords => callPath run stack [] (name :: args) keywords
  | .get key => do
    let k ← key.build stack
    match ← lookUp (← blockAt stack 0) k with
    | some v => Run.trace "get" v
    | none => throw (.foreign "KeyError" (← displayKey k) none)
  | .contains key => do
    let k ← key.build stack
    Run.trace "in" (.bool (← lookUp (← blockAt stack 0) k).isSome)
  | .count => do
    Run.trace "len" (.int (← Run.fieldsOf (← blockAt stack 0)).length)
  | .show => do
    Run.trace "repr" (.text (displayBlock (← Run.fieldsOf (← blockAt stack 0))))
  | .showRef path => do
    let names ← refPath true path
    Run.trace "ref" (.text ("FieldRef(" ++ dotted names ++ ")"))
  | .trace v => do Run.trace "trace" (← v.build stack)
  | .raise e => throw e.build
  | .attempt s => do
    let outcome ← tryCatch (s.exec run stack *> pure none) fun e => pure (some e)
    Run.traceAttempt outcome
  -- A body may hold on to the blocks around it, and assign to them while a block within is being
  -- recorded.
  | .up levels s => s.exec run (stack.drop levels)
  | .keep key => do Run.keep key (← blockAt stack 0)
  | .on key s => do s.exec run ((← Run.keptBlock key) :: stack)

/-- Runs a body at some depth above the deepest: its statements in order, on a
    fresh block whose field mapping is the result. -/
def Body.runAt : Nat → BodyRunner
  | 0, _, body =>
    throw (Failure.inBody body (.foreign "RecursionError" "maximum recursion depth exceeded" none))
  | depth + 1, stack, body => do
    let id ← Run.newBlock
    tryCatch (body.stmts.forM (·.exec (Body.runAt depth) (id :: stack)))
      fun e => throw (e.inBody body)
    return .live id

mutual

/-- How deep the bodies in an expression nest. -/
def Expr.depth : Expr → Nat
  | .items _ xs => itemsDepth xs
  | .mapping _ entries => entriesDepth entries
  | .generator xs _ => itemsDepth xs
  | .body b => b.depth
  | .bodyItems b xs => max b.depth (itemsDepth xs)
  | .node n => n.depth
  | _ => 0

def itemsDepth : List Expr → Nat
  | [] => 0
  | e :: rest => max e.depth (itemsDepth rest)

def entriesDepth : List (Expr × Expr) → Nat
  | [] => 0
  | (k, e) :: rest => max (max k.depth e.depth) (entriesDepth rest)

def fieldsDepth : List (String × Expr) → Nat
  | [] => 0
  | (_, e) :: rest => max e.depth (fieldsDepth rest)

def NodeExpr.depth : NodeExpr → Nat
  | .scalar v _ => v.depth
  | .seq items => nodesDepth items
  | .mapping entries => nodeEntriesDepth entries
  | .nested b => b.depth
  | .ofFields fields => fieldsDepth fields
  | .raw v => v.depth

def nodesDepth : List NodeExpr → Nat
  | [] => 0
  | n :: rest => max n.depth (nodesDepth rest)

def nodeEntriesDepth : List (String × NodeExpr) → Nat
  | [] => 0
  | (_, n) :: rest => max n.depth (nodeEntriesDepth rest)

/-- How deep the bodies in a statement nest. -/
def Stmt.depth : Stmt → Nat
  | .set _ v => v.depth
  | .call _ args keywords => max (itemsDepth args) (fieldsDepth keywords)
  | .chain calls => callsDepth calls
  | .item k v => max k.depth v.depth
  | .named name args keywords => max name.depth (max (itemsDepth args) (fieldsDepth keywords))
  | .get k => k.depth
  | .contains k => k.depth
  | .trace v => v.depth
  | .attempt s => s.depth
  | .up _ s => s.depth
  | .on _ s => s.depth
  -- The others hold no values.
  | _ => 0

def callsDepth : List (List String × List Expr × List (String × Expr)) → Nat
  | [] => 0
  | (_, args, keywords) :: rest =>
    max (max (itemsDepth args) (fieldsDepth keywords)) (callsDepth rest)

def stmtsDepth : List Stmt → Nat
  | [] => 0
  | s :: rest => max s.depth (stmtsDepth rest)

/-- How deep a body nests, itself included. -/
def Body.depth : Body → Nat
  | .mk _ stmts => stmtsDepth stmts + 1

end

mutual

/-- How deep the bodies in a tree nest. -/
def Node.depth : Node → Nat
  | .seq items => nodeListDepth items
  | .mapping entries => nodeFieldsDepth entries
  | .nested b => b.depth
  | _ => 0

def nodeListDepth : List Node → Nat
  | [] => 0
  | n :: rest => max n.depth (nodeListDepth rest)

def nodeFieldsDepth : List (Name × Node) → Nat
  | [] => 0
  | (_, n) :: rest => max n.depth (nodeFieldsDepth rest)

end

/-- How deep bodies may nest that were read back from fields. -/
def replayDepth : Nat := 1000

/-- The data that a tree stands for. -/
def Node.evaluate (n : Node) : Run Value :=
  n.resolve (Body.runAt (n.depth + replayDepth) [])

/-- Runs a body on a fresh block. -/
def Body.evaluate (b : Body) : Run Value := Body.runAt (b.depth + replayDepth) [] b

/-- Runs a statement on a block outside any body. -/
def Stmt.execOn (s : Stmt) (id : Nat) : Run Unit :=
  s.exec (Body.runAt (s.depth + replayDepth)) [id]

/-- The data that a document is built from: that of a body or of a mapping. -/
def toMap (v : Value) : Run Value := do
  match ← toNode v (.ofText "") with
  | .mapping entries => (Node.mapping entries).evaluate
  | .nested b => b.evaluate
  | _ => throw (.refuse .notDocument v none)

end Docket
