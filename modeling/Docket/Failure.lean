import Docket.Text.Quoted
import Docket.Value

/-!
# Failures and their wording

What is said about values and failures. A value is named by its type or shown
in full, a failure has a class, a message and, if this library reports it, a
numeric code. All wording is here; elsewhere failures are known by their
causes only.

Showing a value and wording a failure depend on each other: an unknown encoding
is shown as it was asked for, and a failure that is offered as a value is shown
with its message.

## Main definitions

* `Value.typeName`: The name of a value's type.
* `Value.display`: A value in full.
* `Failure.className`, `Failure.message`, `Failure.text`: What is said about a
  failure.
* `Failure.root`: The failure behind the wrapping ones.
-/

namespace Docket

namespace FailureKind

/-- The name of the class of failures. -/
def name : FailureKind → String
  | unsupportedValue => "UnsupportedValueKind"
  | unsupportedEncoding => "UnsupportedEncodingKind"
  | unsupportedOperation => "UnsupportedOperation"
  | compile => "DocumentCompileError"
  | serialization => "SerializationIOError"
  | parse => "DocumentParseError"
  | timeout => "TimeoutError"
  | actionFailed => "ActionFailedError"
  | illegalState => "IllegalStateError"
  | cancelled => "CancelledError"

def code : FailureKind → Nat
  | unsupportedValue => 1001
  | unsupportedEncoding => 2001
  | unsupportedOperation => 2002
  | compile => 3001
  | serialization => 4001
  | parse => 4002
  | timeout => 5001
  | actionFailed => 5002
  | illegalState => 5003
  | cancelled => 5004

def codeName : FailureKind → String
  | unsupportedValue => "UNSUPPORTED_VALUE_KIND"
  | unsupportedEncoding => "UNSUPPORTED_ENCODING_KIND"
  | unsupportedOperation => "UNSUPPORTED_OPERATION"
  | compile => "DOCUMENT_COMPILE_ERROR"
  | serialization => "SERIALIZATION_IO_ERROR"
  | parse => "DOCUMENT_PARSE_ERROR"
  | timeout => "TIMEOUT_ERROR"
  | actionFailed => "ACTION_FAILED"
  | illegalState => "ILLEGAL_STATE"
  | cancelled => "CANCELLED"

def all : List FailureKind :=
  [unsupportedValue, unsupportedEncoding, unsupportedOperation, compile, serialization, parse,
    timeout, actionFailed, illegalState, cancelled]

/-- The kind of a given class name. -/
def ofName? (s : String) : Option FailureKind := all.find? (·.name == s)

/-- The kind of failures that a class stands for. A class of the same name that is
    not derived from this library's stands for none. -/
def ofClass? (cls : ExceptionClass) : Option FailureKind :=
  if cls.isA "SearchDoError" then ofName? cls.name else none

/-- The kind of a given code. -/
def ofCode? (n : Int) : Option FailureKind := all.find? fun k => (k.code : Int) == n

/-- Whether a failure of this kind only wraps the one that caused it. -/
def wraps : FailureKind → Bool
  | compile => true
  | actionFailed => true
  | _ => false

/-- The message of a failure made without one, where there is such. -/
def defaultMessage? : FailureKind → Option String
  | timeout => some "Timed out waiting for action"
  | cancelled => some "Action was cancelled"
  | _ => none

end FailureKind

namespace FutureState

def name : FutureState → String
  | pending => "pending"
  | completed => "completed"
  | failed => "failed"

end FutureState

namespace ItemsKind

def typeName : ItemsKind → String
  | list => "list"
  | tuple => "tuple"
  | set => "set"
  | frozenset => "frozenset"
  | deque => "deque"

/-- A collection of this type, given its members as shown. -/
def display (kind : ItemsKind) (members : List String) : String :=
  let inner := ", ".intercalate members
  match kind with
  | list => "[" ++ inner ++ "]"
  | tuple => if members.length = 1 then "(" ++ inner ++ ",)" else "(" ++ inner ++ ")"
  | set => if members.isEmpty then "set()" else "\x7b" ++ inner ++ "\x7d"
  | frozenset => if members.isEmpty then "frozenset()" else "frozenset(\x7b" ++ inner ++ "\x7d)"
  | deque => "deque([" ++ inner ++ "])"

end ItemsKind

namespace MappingKind

def typeName : MappingKind → String
  | plain => "dict"
  | ordered => "OrderedDict"
  | readOnly => "mappingproxy"
  | frozen => "FrozenDict"
  | pairs => "PairMap"
  | callable => "CallableMap"

/-- A mapping of this type, given its entries as shown. -/
def display (kind : MappingKind) (entries : List (String × String)) : String :=
  let plainText := "\x7b" ++ ", ".intercalate (entries.map fun e => e.1 ++ ": " ++ e.2) ++ "\x7d"
  match kind with
  | ordered =>
    if entries.isEmpty then "OrderedDict()"
    else "OrderedDict([" ++
      ", ".intercalate (entries.map fun e => "(" ++ e.1 ++ ", " ++ e.2 ++ ")") ++ "])"
  | readOnly => "mappingproxy(" ++ plainText ++ ")"
  | frozen => "FrozenDict(" ++ plainText ++ ")"
  | _ => plainText

end MappingKind

namespace Duration

/-- A length of time in full: its parts that are not zero. -/
def display (d : Duration) : String :=
  let part (label : String) (n : Int) : List String :=
    if n = 0 then [] else [label ++ "=" ++ toString n]
  let parts := part "days" d.days ++ part "seconds" d.seconds ++
    part "microseconds" d.microseconds
  "datetime.timedelta(" ++ (if parts.isEmpty then "0" else ", ".intercalate parts) ++ ")"

end Duration

namespace Scalar

/-- A date in full. -/
def displayDate (d : Date) : String :=
  "datetime.date(" ++ ", ".intercalate [toString d.year, toString d.month, toString d.day] ++ ")"

/-- A clock's offset in full. -/
def displayOffset (o : ClockOffset) : String :=
  if o = 0 then "datetime.timezone.utc"
  else "datetime.timezone(" ++ (Duration.ofMicroseconds o.microseconds).display ++ ")"

/-- A point in time in full, without seconds and microseconds that are zero. -/
def displayDateTime (t : DateTime) : String :=
  let small :=
    -- Seconds are shown if they are not zero, or if microseconds are shown behind them.
    if t.microsecond ≠ 0 then [t.second, t.microsecond]
    else if t.second ≠ 0 then [t.second] else []
  let parts := ([t.date.year, t.date.month, t.date.day, t.hour, t.minute] ++ small).map toString
  -- The zone is named, since it stands behind a list that may be shorter.
  let zone := match t.offset with
    | none => []
    | some o => ["tzinfo=" ++ displayOffset o]
  "datetime.datetime(" ++ ", ".intercalate (parts ++ zone) ++ ")"

/-- A leaf in full. -/
def display : Scalar → String
  | null => "None"
  | bool b => if b then "True" else "False"
  | int n .plain => toString n
  | int n .derived => "<IntKind.MEMBER: " ++ toString n ++ ">"
  | float x _ => Layout.display.write x
  | text s (.encoding e) => "<" ++ e.memberName ++ ": " ++ quoteText s ++ ">"
  | text s _ => quoteText s
  | date d => displayDate d
  | datetime t => displayDateTime t

end Scalar

namespace ScalarKind

/-- A kind in full. -/
def display (kind : ScalarKind) : String :=
  "<ScalarKind." ++ kind.name.map Char.toUpper ++ ": " ++ quoteText kind.name ++ ">"

end ScalarKind

namespace Alien

def typeName : Alien → String
  | object => "object"
  | complex .. => "complex"
  | decimal _ => "Decimal"
  | fraction .. => "Fraction"
  | enumMember => "PlainEnum"
  | duration _ => "timedelta"
  | cls _ => "type"
  | binary .fixed _ => "bytes"
  | binary .growing _ => "bytearray"
  | binary .view _ => "memoryview"
  | undefined => "undefined_type"
  | simple _ => "CBORSimpleValue"
  | ext .. => "ExtType"
  | timestamp .. => "Timestamp"
  | unknown name => name
  | reference _ => "list"

/-- A part of a complex number: a whole number has no point. -/
def complexPart (x : Binary64) : List Char :=
  let text := (Layout.display.write x).toList
  if ['.', '0'].isSuffixOf text then text.dropLast.dropLast else text

/-- A complex number in full. A real part of zero is left out if it has no
    sign. -/
def displayComplex (real imaginary : Binary64) : String :=
  let imaginaryText := complexPart imaginary ++ ['j']
  if real = .zero then String.ofList imaginaryText
  else
    let sign := if imaginary.negative && !imaginary.isNaN then [] else ['+']
    String.ofList ('(' :: complexPart real ++ sign ++ imaginaryText ++ [')'])

/-- A value of a foreign type in full, as far as it has a text of its own. -/
def display : Alien → String
  | complex real imaginary => displayComplex real imaginary
  | decimal x => "Decimal('" ++ x.text ++ "')"
  | fraction numerator denominator =>
    "Fraction(" ++ toString numerator ++ ", " ++ toString denominator ++ ")"
  | duration d => d.display
  | cls name => "<class '" ++ name ++ "'>"
  | binary .fixed bytes => quoteBytes bytes
  | binary .growing bytes => "bytearray(" ++ quoteBytesFully bytes ++ ")"
  | a => "<" ++ a.typeName ++ " object>"

end Alien

namespace Failure

/-- The kind of a failure this library reports. -/
def kind? : Failure → Option FailureKind
  | refused .. => some .unsupportedValue
  | unknownEncoding _ => some .unsupportedEncoding
  | undetected _ => some .unsupportedEncoding
  | textOfBinary _ => some .unsupportedOperation
  | bodyFailed .. => some .compile
  | finalized => some .serialization
  | encoderFailed .. => some .serialization
  | streamFailed _ => some .serialization
  | bytesNeeded _ => some .parse
  | readerFailed .. => some .parse
  | timedOut _ => some .timeout
  | actionFailed _ => some .actionFailed
  | alreadyResolved _ => some .illegalState
  | cancelled => some .cancelled
  | reported kind _ _ => some kind
  | foreign .. => none

/-- The name of a failure's class. -/
def className : Failure → String
  | foreign cls _ _ => cls.name
  | e => (e.kind?.map (·.name)).getD ""

@[simp] theorem className_foreign (name text : String) (cause : Option Failure) :
    (foreign name text cause).className = name :=
  ExceptionClass.named_name name

/-- The failure that caused another. -/
def cause? : Failure → Option Failure
  | bodyFailed _ cause => some cause
  | encoderFailed _ cause => cause
  | streamFailed cause => some cause
  | readerFailed _ cause => cause
  | actionFailed cause => some cause
  | reported _ _ cause => cause
  | foreign _ _ cause => cause
  | _ => none

/-- Whether this library reports the failure. -/
def isReported (e : Failure) : Bool := e.kind?.isSome

/-- Whether a failure is none that this library reports and is caught under one
    of these names. -/
def isCaught (names : List String) : Failure → Bool
  | foreign cls text _ => LibraryError.isCaught ⟨cls, text⟩ names
  | _ => false

/-- Whether a failure is an ordinary error, which may be handled, and not a
    request to stop. What this library reports is ordinary. -/
def isOrdinary (e : Failure) : Bool := e.isReported || e.isCaught ["Exception"]

end Failure

namespace Value

/-- The name of a value's type. -/
def typeName : Value → String
  | scalar s => s.typeName
  | alien a => a.typeName
  | range .. => "range"
  | encodings => "EnumType"
  | items kind _ => kind.typeName
  | mapping kind _ => kind.typeName
  | generator .. => "generator"
  | body b => match b.label with
    | .named _ => "function"
    | .shown _ => "CallableBody"
  | bodyItems .. => "CallableList"
  | failure e => e.className
  | node n => match n with
    | .scalar .. => "Scalar"
    | .seq _ => "Sequence"
    | .mapping _ => "Mapping"
    | .nested _ => "NestedBlock"
    | .raw _ => "object"
  | block _ => "Block"
  | fieldRef .. => "_FieldRef"
  | live _ => "dict"
  | tag .. => "CBORTag"

end Value

namespace Objection

/-- Why a value has no place in a document. A place in the middle of a tree is
    named by its path, the top as the root. -/
def message (why : Objection) (typeName : String) (path : Option Name) : String :=
  let place := match path with
    | some p => if p.text.isEmpty then "<root>" else p.display
    | none => "<root>"
  match why with
  | handle =>
    "Field reference cannot be used as a value at '" ++ place ++
      "'; assign the value itself or read it back with block['name']"
  | nonFinite x => "Non-finite float " ++ Layout.display.write x ++ " at '" ++ place ++ "'"
  | key => "Mapping keys must be strings, got " ++ typeName ++ " at '" ++ place ++ "'"
  | binary => "Binary values are not supported at '" ++ place ++ "'"
  | foreign => "Unsupported value of type " ++ typeName ++ " at '" ++ place ++ "'"
  | notNode => "Not a value tree node: " ++ typeName
  | notDocument => "A document must be built from a block or a mapping, got " ++ typeName
  | unwritable => "Unsupported value of type " ++ typeName ++ " in document content"
  | fieldName => "Field name must be a string, got " ++ typeName

end Objection

namespace Failure

/-- A failure as text, given its message: after the code if there is one. -/
def withCode (e : Failure) (message : String) : String :=
  match e.kind? with
  | some kind => kind.codeName ++ "(" ++ toString kind.code ++ "): " ++ message
  | none => message

/-- A failure in full, given its message: as a value is shown. -/
def inFull (e : Failure) (message : String) : String :=
  match e.kind? with
  | some kind => kind.name ++ "(" ++ quoteText message ++ ", code=" ++ toString kind.code ++ ")"
  | none =>
    let shown :=
      if e.isCaught ["KeyError"] || message.isEmpty then message else quoteText message
    e.className ++ "(" ++ shown ++ ")"

end Failure

mutual

/-- A value in full. -/
def Value.display : Value → String
  | .scalar s => s.display
  | .alien a => a.display
  | .range start stop step =>
    "range(" ++ ", ".intercalate ([start, stop].map toString ++
      (if step = 1 then [] else [toString step])) ++ ")"
  | .encodings => "<enum 'Encoding'>"
  | .items kind xs => kind.display (displayItems xs)
  | .mapping kind entries => kind.display (displayEntries entries)
  | .body b => b.display
  | .failure e => e.inFull e.message
  | .tag n v => "CBORTag(" ++ toString n ++ ", " ++ v.display ++ ")"
  | .node n => n.display
  | .fieldRef _ path => "FieldRef(" ++ ".".intercalate path ++ ")"
  | v => "<" ++ v.typeName ++ " object>"

/-- A node in full. -/
def Node.display : Node → String
  | .scalar v kind => "Scalar(value=" ++ v.display ++ ", kind=" ++ kind.display ++ ")"
  | .seq items => "Sequence(items=" ++ ItemsKind.tuple.display (displayNodes items) ++ ")"
  | .mapping entries =>
    "Mapping(entries=" ++ ItemsKind.tuple.display (displayNodeEntries entries) ++ ")"
  | .nested b => "NestedBlock(body=" ++ b.display ++ ")"
  | .raw v => v.display

def displayNodes : List Node → List String
  | [] => []
  | n :: rest => n.display :: displayNodes rest

def displayNodeEntries : List (Name × Node) → List String
  | [] => []
  | (name, n) :: rest =>
    ("(" ++ quoteText name.text ++ ", " ++ n.display ++ ")") :: displayNodeEntries rest

def displayItems : List Value → List String
  | [] => []
  | v :: rest => v.display :: displayItems rest

def displayEntries : List (Value × Value) → List (String × String)
  | [] => []
  | (k, v) :: rest => (k.display, v.display) :: displayEntries rest

/-- The message of a failure, without its code. -/
def Failure.message : Failure → String
  | .refused why typeName path => why.message typeName path
  | .unknownEncoding asked =>
    "Unsupported encoding: " ++ asked.display ++ " (expected one of " ++
      ", ".intercalate (Encoding.all.map (·.name)) ++ ")"
  | .undetected start =>
    if start.isEmpty then "Cannot detect the encoding of an empty payload"
    else "Unable to detect the encoding of payload starting with " ++ quoteBytes (start.take 8)
  | .textOfBinary e => e.name ++ " is a binary encoding and cannot be rendered as a string"
  | .bodyFailed body cause =>
    "Failed to evaluate block " ++ body ++ ": " ++ cause.className ++ ": " ++
      cause.withCode cause.message
  | .finalized => "Document is already finalized"
  | .encoderFailed e none => "Failed to serialize document as " ++ e.name
  | .encoderFailed e (some cause) =>
    "Failed to serialize document as " ++ e.name ++ ": " ++ cause.withCode cause.message
  | .streamFailed cause => "Failed to write document: " ++ cause.withCode cause.message
  | .bytesNeeded e => "A " ++ e.name ++ " payload must be bytes, not str"
  | .readerFailed e none => "Failed to parse " ++ e.name ++ " document"
  | .readerFailed e (some cause) =>
    "Failed to parse " ++ e.name ++ " document: " ++ cause.withCode cause.message
  | .timedOut ms => "Timed out after " ++ toString ms ++ "ms waiting for action"
  | .actionFailed cause => "Action failed: " ++ cause.withCode cause.message
  | .alreadyResolved state =>
    "Future is already " ++ state.name ++ "; it cannot be resolved twice"
  | .cancelled => "Action was cancelled"
  | .reported _ message _ => message
  | .foreign _ text _ => text

end

namespace Failure

/-- A failure as text. -/
def text (e : Failure) : String := e.withCode e.message

end Failure

namespace Failure

/-- The failure behind the wrapping ones: the causes of wrapping failures are
    followed to the first failure that does not wrap another. -/
def root : Failure → Failure
  | bodyFailed _ cause => cause.root
  | actionFailed cause => cause.root
  | reported .compile _ (some cause) => cause.root
  | reported .actionFailed _ (some cause) => cause.root
  | e => e

/-- An error met while a body is run, wrapped unless this library reported it
    or it asks to stop. -/
def inBody (body : Body) (e : Failure) : Failure :=
  if e.isReported || !e.isOrdinary then e else .bodyFailed body.display e

def typeError (text : String) : Failure := .foreign "TypeError" text none

def valueError (text : String) : Failure := .foreign "ValueError" text none

def overflow (text : String) : Failure := .foreign "OverflowError" text none

/-- A look-up that found nothing shows the key it was made with. -/
def keyError (key : Value) : Failure := .foreign "KeyError" key.display none

def attributeError (text : String) : Failure := .foreign "AttributeError" text none

def indexError (text : String) : Failure := .foreign "IndexError" text none

/-- What another library raised. -/
def ofLibrary (e : LibraryError) : Failure := .foreign e.cls e.text none

/-- A value that has no place in a document. -/
def refuse (why : Objection) (v : Value) (path : Option Name) : Failure :=
  .refused why v.typeName path

end Failure

namespace ErrorSpec

/-- The error that a specification describes. The text of a look-up that found
    nothing shows its key. -/
def build : ErrorSpec → Failure
  | .mk cls message cause =>
    let cause := match cause with
      | none => none
      | some c => some c.build
    match FailureKind.ofClass? cls with
    | some kind => .reported kind (message.getD (kind.defaultMessage?.getD "")) cause
    | none =>
      let text := match message with
        | none => ""
        | some m => if cls.isA "KeyError" then quoteText m else m
      .foreign cls text cause

end ErrorSpec

end Docket
