import Docket.Failure

/-!
# Errors and their causes

Errors as they are made one after another, each known by its number. An error
may name an earlier one as its cause, and causes may be set anew later, so that
an error can come to be its own cause, directly or by way of others.

Two classes of errors only wrap the one that caused them. The root of an error
is found by following the causes of wrapping errors. Where that leads round in a
circle, the root is the first error that is met again; nothing else would be a
better answer, and following ends because there are only so many errors to meet.

## Main definitions

* `ErrorRecord`: What is known about an error.
* `Errors.make`, `Errors.makeOf`: Making an error of some class from its arguments,
  or of a specification.
* `Errors.link`: Setting a cause.
* `Errors.root`: The error behind the wrapping ones.
* `ErrorRecord.lookUp`: What an error is asked for by name.
-/

namespace Docket

/-- The class of an error: one of this library's kinds, the class that all of
    them belong to, or a foreign one. -/
inductive ErrorClass where
  | kind (k : FailureKind)
  | general
  | foreign (name : String)
deriving DecidableEq, Inhabited

namespace ErrorClass

/-- The name of the class that all errors of this library belong to. -/
def generalName : String := "SearchDoError"

def name : ErrorClass → String
  | kind k => k.name
  | general => generalName
  | foreign name => name

def ofName (s : String) : ErrorClass :=
  match FailureKind.ofName? s with
  | some k => kind k
  | none => if s = generalName then general else foreign s

/-- The class that an exception class stands for. A name of this library's that
    belongs to another class is foreign. -/
def ofClass (cls : ExceptionClass) : ErrorClass :=
  if cls.isA generalName then ofName cls.name else foreign cls.name

/-- Whether this library reports errors of the class. -/
def isReported : ErrorClass → Bool
  | foreign _ => false
  | _ => true

/-- Whether errors of the class only wrap the one that caused them. -/
def wraps : ErrorClass → Bool
  | kind k => k.wraps
  | _ => false

/-- The names of the parameters that an error of the class is made with. -/
def parameters : ErrorClass → List String
  | kind .unsupportedValue => ["message", "value_type", "path"]
  | kind .unsupportedEncoding => ["message", "encoding"]
  | kind .compile => ["message", "cause"]
  | kind .serialization => ["message", "cause"]
  | kind .parse => ["message", "cause"]
  | kind .timeout => ["message", "timeout_ms"]
  | kind .actionFailed => ["message", "cause"]
  | kind _ => ["message"]
  | general => ["message", "code", "code_name"]
  | foreign _ => []

/-- The parameters that errors of the class keep under their own names. -/
def keeps : ErrorClass → List String
  | kind .unsupportedValue => ["value_type", "path"]
  | kind .unsupportedEncoding => ["encoding"]
  | kind .compile => ["cause"]
  | kind .timeout => ["timeout_ms"]
  | _ => []

end ErrorClass

/-- What an error is made from: a value, or an error made before. -/
inductive ErrorPart where
  | value (v : Value)
  | error (id : Nat)

/-- An error: its class, what it was made from, its code with the name of it,
    the error that caused it, and what it keeps under names. -/
structure ErrorRecord where
  cls : ErrorClass
  args : List Value
  code : Int
  codeName : String
  cause : Option Nat
  kept : List (String × ErrorPart)

namespace Value

/-- A value as text: a text is itself, a failure is worded, anything else is
    shown. -/
def plain : Value → String
  | .scalar (.text s _) => s
  | .failure e => e.text
  | v => v.display

end Value

namespace ErrorRecord

/-- The message of an error of this library. -/
def message (r : ErrorRecord) : Value := r.args.head?.getD (.text "")

/-- An error as text. One of this library begins with the name of its code; a
    foreign one is what it was made from. -/
def text (r : ErrorRecord) : String :=
  if r.cls.isReported then
    r.codeName ++ "(" ++ toString r.code ++ "): " ++ r.message.plain
  else match r.args with
    | [] => ""
    | [v] => if r.cls.name == "KeyError" then v.display else v.plain
    | vs => (Value.items .tuple vs).display

end ErrorRecord

/-- The errors made so far. -/
abbrev Errors := Array ErrorRecord

namespace Errors

/-- The cause of an error that only wraps it. -/
def wrapped? (errors : Errors) (id : Nat) : Option Nat :=
  match errors[id]? with
  | some r => if r.cls.wraps then r.cause else none
  | none => none

/-- Follows wrapped causes, at most so many times, past the errors already
    seen. -/
def follow (errors : Errors) : Nat → List Nat → Nat → Nat
  | 0, _, id => id
  | steps + 1, seen, id =>
    match errors.wrapped? id with
    | none => id
    | some cause => if seen.contains id then id else follow errors steps (id :: seen) cause

/-- The error behind the wrapping ones. Every error is seen at most once before
    one is met again, so no more steps are needed than there are errors, and one. -/
def root (errors : Errors) (id : Nat) : Nat := errors.follow (errors.size + 1) [] id

/-- The error that caused another. -/
def cause? (errors : Errors) (id : Nat) : Option Nat := errors[id]?.bind (·.cause)

/-- The code and its name that an error is made with. -/
def codeOf (cls : ErrorClass) (given : List (String × ErrorPart)) : Int × String :=
  match cls with
  | .kind k => (k.code, k.codeName)
  | .foreign _ => (0, "")
  | .general =>
    let code := match given.lookup "code" with
      | some (.value (.scalar (.int n _))) => n
      -- A code that is no integer counts as missing.
      | _ => 0
    let usual := ((FailureKind.ofCode? code).map (·.codeName)).getD "UNKNOWN_ERROR"
    match given.lookup "code_name" with
    -- An empty name is as good as none.
    | some (.value (.scalar (.text s _))) => (code, if s.isEmpty then usual else s)
    | _ => (code, usual)

/-- An error as a value, with as many causes behind it as asked for. -/
def toFailure (errors : Errors) : Nat → Nat → Failure
  | depth, id =>
    match errors[id]? with
    | none => .finalized
    | some r =>
      -- A chain of causes may run in a circle, so that it is cut off at some depth.
      let cause := match depth with
        | 0 => none
        | depth + 1 => r.cause.map (toFailure errors depth)
      match r.cls with
      | .kind k => .reported k r.message.plain cause
      | c => .foreign c.name r.text cause

/-- What an error was made from, as a value. -/
def partValue (errors : Errors) : ErrorPart → Value
  | .value v => v
  | .error id => .failure (errors.toFailure 0 id)

/-- Makes an error of a class from arguments in order and by name. An error of
    this library keeps its message as its only argument; one that wraps another
    also keeps the root of it as it is when it is made. Only an error can be a
    cause. -/
def make (errors : Errors) (cls : ErrorClass) (args : List ErrorPart)
    (keywords : List (String × ErrorPart)) : Except Failure Errors := do
  let given := cls.parameters.zip args ++ keywords
  let cause ← match given.lookup "cause" with
    | some (.error id) => pure (some id)
    | none | some (.value (.scalar .null)) => pure none
    | some (.value _) =>
      throw (.typeError "exception cause must be None or derive from BaseException")
  let message := match given.lookup "message", cls with
    | some p, _ => errors.partValue p
    | none, .kind k => .text (k.defaultMessage?.getD "")
    | none, _ => .text ""
  let own := cls.keeps.map fun name => (name, (given.lookup name).getD (.value .null))
  -- The root is looked for now: what is linked to the cause later does not change it.
  let root := match cls with
    | .kind .actionFailed =>
      [("root_failure", (cause.map (errors.root ·)).elim (.value .null) ErrorPart.error)]
    | _ => []
  let (code, codeName) := codeOf cls given
  return errors.push {
    cls := cls
    args := if cls.isReported then [message] else args.map errors.partValue
    code := code
    codeName := codeName
    cause := if cls.isReported then cause else none
    kept := own ++ root }

/-- Sets the cause of an error. -/
def link (errors : Errors) (id : Nat) (cause : Option Nat) : Errors :=
  errors.modify id fun r => { r with cause := cause }

/-- Makes an error of a specification, after the one that caused it. -/
def makeOf (errors : Errors) : ErrorSpec → Except Failure Errors
  | .mk cls message cause => do
    let cls := ErrorClass.ofClass cls
    let args := message.toList.map fun m => ErrorPart.value (.text m)
    match cause with
    | none => errors.make cls args []
    | some c =>
      let errors ← errors.makeOf c
      -- The cause was made last. A class that takes no cause is linked to it afterwards.
      let id := errors.size - 1
      if cls.parameters.contains "cause" then errors.make cls args [("cause", .error id)]
      else return (← errors.make cls args []).link errors.size (some id)

end Errors

namespace ErrorRecord

/-- An error in full. -/
def display (r : ErrorRecord) : String :=
  let inner := if r.cls.isReported then
      r.message.display ++ ", code=" ++ toString r.code
    else ", ".intercalate (r.args.map (·.display))
  r.cls.name ++ "(" ++ inner ++ ")"

/-- What an error is asked for by name. -/
def lookUp (r : ErrorRecord) (name : String) : Except Failure ErrorPart :=
  let general := if r.cls.isReported then
      [("message", ErrorPart.value r.message), ("code", .value (.int r.code)),
        ("code_name", .value (.text r.codeName))]
    else []
  match (general ++ ("args", .value (.items .tuple r.args)) :: r.kept).lookup name with
  | some p => .ok p
  | none => .error (.attributeError
      ("'" ++ r.cls.name ++ "' object has no attribute '" ++ name ++ "'"))

/-- An error of this library as a mapping. -/
def toMap (r : ErrorRecord) : Except Failure Value :=
  if r.cls.isReported then
    .ok (.dict [(.text "name", .text r.cls.name), (.text "message", r.message),
      (.text "code", .int r.code), (.text "code_name", .text r.codeName)])
  else .error (.attributeError ("'" ++ r.cls.name ++ "' object has no attribute 'to_dict'"))

/-- Whether an error is one of this library with a given code. -/
def hasCode (r : ErrorRecord) (code : Int) : Bool := r.cls.isReported && r.code == code

end ErrorRecord

end Docket
