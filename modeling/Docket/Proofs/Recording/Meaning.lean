import Docket.Recorder

/-!
# What trees mean

A tree is built from leaves, collections, mappings and bodies, and a body assigns
fields and reads back what it has assigned. What such a tree stands for can be
said without blocks, sessions or work of any kind, by recursion on the tree: a
leaf stands for itself in plain form, a collection for the list of what its items
stand for, a mapping for its entries folded in order, and a body for its
assignments folded in order, each value being read where the assignments before
it have led.

Folding in order puts a new name at the end and gives a name that is present its
new value where it stands.

Writing a value down and standing for something are two things. A mapping keeps
the last value of a repeated key, and what was written before it need not stand
for anything; but all of it has to be written. So the meaning of an expression is
an option in an option: nothing if the expression cannot be written, and
otherwise what it stands for, if anything.

## Main definitions

* `Expr.isTree`, `Body.isTree`: Trees whose bodies assign and read back.
* `placed`, `orderedFold`: Folding names and what goes with them in order.
* `Expr.meaning`: What an expression stands for after some assignments.
* `Stmt.den`, `Body.den`: What a statement makes of the fields, and what a body
  stands for.
* `Expr.den`: What a tree stands for as a document.
-/

namespace Docket

/-! ## Trees -/

/-- Whether an expression may be the key of a mapping in a tree. -/
def Expr.isKey : Expr → Bool
  | .scalar _ => true
  | .read _ up => up == 0
  | _ => false

/-- Whether a call names its field, by a path or by its first argument, and gives
    every keyword once. -/
def isCall (path : List String) (args : List Expr) (keywords : List (String × Expr)) : Bool :=
  (!path.isEmpty || !args.isEmpty) && decide (keywords.map (·.1)).Nodup

mutual

/-- Whether an expression is a tree: leaves, collections that end, mappings, and
    bodies, and what has been read back from the block being recorded. -/
def Expr.isTree : Expr → Bool
  | .scalar _ => true
  | .range .. => true
  | .encodings => true
  | .items _ xs => itemsAreTrees xs
  | .mapping _ entries => entriesAreTrees entries
  | .generator xs ending => ending.isNone && itemsAreTrees xs
  | .body b => b.isTree
  | .bodyItems b xs => b.isTree && itemsAreTrees xs
  | .read _ up => up == 0
  | _ => false

def itemsAreTrees : List Expr → Bool
  | [] => true
  | e :: rest => e.isTree && itemsAreTrees rest

def entriesAreTrees : List (Expr × Expr) → Bool
  | [] => true
  | (k, e) :: rest => k.isKey && (e.isTree && entriesAreTrees rest)

def keywordsAreTrees : List (String × Expr) → Bool
  | [] => true
  | (_, e) :: rest => e.isTree && keywordsAreTrees rest

/-- Whether a statement assigns a field, or reads one back. -/
def Stmt.isTree : Stmt → Bool
  | .set path v => !path.isEmpty && v.isTree
  | .call path args keywords =>
    isCall path args keywords && (itemsAreTrees args && keywordsAreTrees keywords)
  | .chain calls => callsAreTrees calls
  | .item key v => key.isTree && v.isTree
  | .named name args keywords =>
    isCall [] (name :: args) keywords &&
      (name.isTree && (itemsAreTrees args && keywordsAreTrees keywords))
  | .get key => key.isTree
  | _ => false

def callsAreTrees : List (List String × List Expr × List (String × Expr)) → Bool
  | [] => true
  | (path, args, keywords) :: rest =>
    isCall path args keywords &&
      (itemsAreTrees args && (keywordsAreTrees keywords && callsAreTrees rest))

def stmtsAreTrees : List Stmt → Bool
  | [] => true
  | s :: rest => s.isTree && stmtsAreTrees rest

/-- Whether every statement of a body assigns or reads back. -/
def Body.isTree : Body → Bool
  | .mk _ stmts => stmtsAreTrees stmts

end

/-- Whether a document can be built from an expression: a mapping or a body. -/
def Expr.isDocument : Expr → Bool
  | .mapping .. => true
  | .body _ => true
  | .bodyItems .. => true
  | _ => false

/-! ## Folding in order -/

section

variable {β : Type}

/-- A name that is present keeps its place, a new one goes to the end. -/
def placed : List (Name × β) → Name → β → List (Name × β)
  | [], name, b => [(name, b)]
  | (n, c) :: rest, name, b =>
    if n.text = name.text then (n, b) :: rest else (n, c) :: placed rest name b

/-- Entries folded in order. -/
def orderedFold (entries : List (Name × β)) : List (Name × β) :=
  entries.foldl (fun done e => placed done e.1 e.2) []

end

/-! ## Meanings -/

/-- What something stands for, if anything. -/
abbrev Meaning := Option Value

/-- A leaf stands for itself in plain form, unless it is a number that is not
    finite. -/
def Scalar.meaning : Scalar → Meaning
  | .float x _ => if x.isFinite then some (.float x) else none
  | s => some (.scalar s.plain)

/-- The name that a leaf makes, if it is a text. -/
def Scalar.name? : Scalar → Option Name
  | .text s form => some ⟨s, form⟩
  | _ => none

/-- The leaf that a value is, if it is one. -/
def Value.scalar? : Value → Option Scalar
  | .scalar s => some s
  | _ => none

/-- What all of some things stand for. -/
def allMeanings : List Meaning → Option (List Value)
  | [] => some []
  | m :: rest => do return (← m) :: (← allMeanings rest)

/-- A collection stands for the list of what its items stand for. -/
def listMeaning (ms : List Meaning) : Meaning := (allMeanings ms).map .list

/-- Fields, if all of them stand for something. -/
def fieldMeanings : List (Name × Meaning) → Option Fields
  | [] => some []
  | (name, m) :: rest => do return (name, ← m) :: (← fieldMeanings rest)

/-- A mapping stands for its entries folded in order. -/
def mappingMeaning (entries : List (Name × Meaning)) : Meaning :=
  (fieldMeanings entries).map fun fs => Fields.toValue (orderedFold fs)

/-- Entries under names, if all their keys are texts. -/
def namedEntries : List (Option Scalar × Meaning) → Option (List (Name × Meaning))
  | [] => some []
  | (key, m) :: rest => do return (← key.bind Scalar.name?, m) :: (← namedEntries rest)

/-- What a mapping that is written with some entries stands for. It can be
    written if its keys are leaves, and has each key once, with the last value;
    pairs are kept as they are written. -/
def entriesMeaning (kind : MappingKind) (entries : List (Option Scalar × Meaning)) :
    Option Meaning :=
  if kind = .pairs then some (do mappingMeaning (← namedEntries entries))
  else if entries.all (·.1.isSome) then
    some (do mappingMeaning (orderedFold (← namedEntries entries)))
  else none

/-- What the arguments of a call stand for: keywords make a mapping, several
    arguments a list, none an empty mapping. -/
def argumentMeaning (args : List Meaning) (keywords : List (String × Meaning)) : Option Meaning :=
  match args, keywords with
  | [], ks => some (mappingMeaning (orderedFold (ks.map fun k => (.ofText (fieldName k.1), k.2))))
  | [m], [] => some m
  | ms, [] => some (listMeaning ms)
  | _, _ => none

/-- The name that a path of attributes makes: its parts with dots between them,
    without the underscores that reserved words need. -/
def attributeName (path : List String) : Option Name :=
  if path.any isPrivate then none else some (.ofText (dotted (path.map fieldName)))

/-- The leaf that an expression is, or reads back, if it is one. -/
def Expr.key (env : Fields) : Expr → Option Scalar
  | .scalar s => some s
  | .read name _ => (env.get? name).bind Value.scalar?
  | _ => none

/-- The name that an expression makes, if it is a text. -/
def Expr.name? (env : Fields) (e : Expr) : Option Name := (e.key env).bind Scalar.name?

/-- The fields once a name has been given what something stands for. -/
def assignedMeaning (env : Fields) (name : Option Name) (m : Meaning) : Option Fields := do
  return placed env (← name) (← m)

/-- What a call makes of the fields. An empty path calls the block itself, with the
    name of the field first; the words for the two cannot be keywords. -/
def callMeaning (env : Fields) (path : List String) (first : Option Name) (args : List Meaning)
    (keywords : List (String × Meaning)) : Option Fields :=
  if path.isEmpty then
    if keywords.any fun k => ["self", "name"].contains k.1 then none
    else do assignedMeaning env first (← argumentMeaning args.tail keywords)
  else
    if keywords.any fun k => ["self"].contains k.1 then none
    else do assignedMeaning env (attributeName path) (← argumentMeaning args keywords)

mutual

/-- What an expression stands for after the assignments that led to `env`. -/
def Expr.meaning (env : Fields) : Expr → Option Meaning
  | .scalar s => some s.meaning
  | .range start stop step => some (some (.list ((rangeItems start stop step).map .int)))
  | .encodings => some (some (.list (Encoding.all.map fun e => .text e.name)))
  | .items _ xs => do return listMeaning (← itemsMeaning env xs)
  | .mapping kind es => do entriesMeaning kind (← pairsMeaning env es)
  | .generator xs _ => do return listMeaning (← itemsMeaning env xs)
  | .body b => some (b.den.map Fields.toValue)
  | .bodyItems b xs => do
    let _ ← itemsMeaning env xs
    return b.den.map Fields.toValue
  | .read name _ => (env.get? name).map some
  | _ => none

def itemsMeaning (env : Fields) : List Expr → Option (List Meaning)
  | [] => some []
  | e :: rest => do
    let m ← e.meaning env
    return m :: (← itemsMeaning env rest)

def pairsMeaning (env : Fields) : List (Expr × Expr) → Option (List (Option Scalar × Meaning))
  | [] => some []
  | (k, e) :: rest => do
    let _ ← k.meaning env
    let m ← e.meaning env
    return (k.key env, m) :: (← pairsMeaning env rest)

def keywordsMeaning (env : Fields) : List (String × Expr) → Option (List (String × Meaning))
  | [] => some []
  | (name, e) :: rest => do
    let m ← e.meaning env
    return (name, m) :: (← keywordsMeaning env rest)

/-- What a statement makes of the fields. -/
def Stmt.den (env : Fields) : Stmt → Option Fields
  | .set path v => do assignedMeaning env (attributeName path) (← v.meaning env)
  | .call path args keywords => do
    let ms ← itemsMeaning env args
    let ks ← keywordsMeaning env keywords
    callMeaning env path (args.head?.bind (·.name? env)) ms ks
  | .chain calls => callsDen env calls
  | .item key v => do
    let _ ← key.meaning env
    assignedMeaning env (key.name? env) (← v.meaning env)
  | .named name args keywords => do
    let m ← name.meaning env
    let ms ← itemsMeaning env args
    let ks ← keywordsMeaning env keywords
    callMeaning env [] (name.name? env) (m :: ms) ks
  | .get key => do
    let _ ← key.meaning env
    let _ ← env.get? (← key.name? env).text
    return env
  | _ => none

/-- What calls make of the fields, one after another. -/
def callsDen (env : Fields) :
    List (List String × List Expr × List (String × Expr)) → Option Fields
  | [] => some env
  | (path, args, keywords) :: rest => do
    let ms ← itemsMeaning env args
    let ks ← keywordsMeaning env keywords
    callsDen (← callMeaning env path (args.head?.bind (·.name? env)) ms ks) rest

/-- What statements make of the fields, one after another. -/
def stmtsDen (env : Fields) : List Stmt → Option Fields
  | [] => some env
  | s :: rest => do stmtsDen (← s.den env) rest

/-- A body stands for its assignments folded in order. -/
def Body.den : Body → Option Fields
  | .mk _ stmts => stmtsDen [] stmts

end

/-- What a tree stands for as a document. -/
def Expr.den (tree : Expr) : Option Value :=
  if tree.isDocument then (tree.meaning []).join else none

end Docket
