import Docket.Calendar.DateTime
import Docket.Encoding
import Docket.Number.Decimal

/-!
# Scalars

The leaves of a document: null, booleans, integers, floating-point numbers,
texts, dates and points in time.

A number or a text may be offered in a *derived form*: as a member of an
enumeration, or as some other refinement of the plain kind. A derived form is
worth the same as the plain one and compares equal to it, but it goes by another
type name, and not every writer takes it. The names of the encodings are texts
in such a form.

## Main definitions

* `ScalarKind`: The seven kinds.
* `Scalar`: A leaf, in the form in which it was offered.
* `Scalar.kind`, `Scalar.plain`: Its kind, and the same leaf in plain form.
* `Name`: The name of a field.
-/

namespace Docket

inductive ScalarKind where
  | null
  | boolean
  | integer
  | float
  | string
  | date
  | datetime
deriving DecidableEq, Inhabited

namespace ScalarKind

def name : ScalarKind → String
  | null => "null"
  | boolean => "boolean"
  | integer => "integer"
  | float => "float"
  | string => "string"
  | date => "date"
  | datetime => "datetime"

def all : List ScalarKind := [null, boolean, integer, float, string, date, datetime]

/-- The kind of a given name. -/
def ofName? (s : String) : Option ScalarKind := all.find? (·.name == s)

end ScalarKind

/-- Whether a number is offered plainly or in a derived form. -/
inductive NumberForm where
  | plain
  | derived
deriving DecidableEq, Inhabited

/-- Whether a text is offered plainly, in a derived form, or as the name of an
    encoding. -/
inductive TextForm where
  | plain
  | derived
  | encoding (e : Encoding)
deriving DecidableEq, Inhabited

inductive Scalar where
  | null
  | bool (b : Bool)
  | int (n : Int) (form : NumberForm)
  | float (x : Binary64) (form : NumberForm)
  | text (s : String) (form : TextForm)
  | date (d : Date)
  | datetime (t : DateTime)
deriving DecidableEq, Inhabited

namespace Scalar

def kind : Scalar → ScalarKind
  | null => .null
  | bool _ => .boolean
  | int .. => .integer
  | float .. => .float
  | text .. => .string
  | date _ => .date
  | datetime _ => .datetime

/-- The same leaf in plain form. -/
def plain : Scalar → Scalar
  | int n _ => int n .plain
  | float x _ => float x .plain
  | text s _ => text s .plain
  | s => s

/-- Whether a leaf is in plain form. -/
def isPlain : Scalar → Bool
  | int _ form => form == .plain
  | float _ form => form == .plain
  | text _ form => form == .plain
  | _ => true

/-- The name of the type in which a leaf is offered. -/
def typeName : Scalar → String
  | null => "NoneType"
  | bool _ => "bool"
  | int _ .plain => "int"
  | int _ .derived => "IntKind"
  | float _ .plain => "float"
  | float _ .derived => "FloatSub"
  | text _ .plain => "str"
  | text _ .derived => "StrSub"
  | text _ (.encoding _) => "Encoding"
  | date _ => "date"
  | datetime _ => "datetime"

/-- What a leaf is worth as a number. Truth values count as one and zero. -/
def integer? : Scalar → Option Int
  | bool b => some (if b then 1 else 0)
  | int n _ => some n
  | float x _ => x.toInt?
  | _ => none

/-- Whether two leaves are one key of a mapping: numbers by their value,
    whatever their kind, aware times by their instant, texts by their
    characters. -/
def sameKey (a b : Scalar) : Bool :=
  match a, b with
  | null, null => true
  | text s _, text t _ => s == t
  | date d, date e => d == e
  -- An aware time and a naive one are never one key, not even at the same instant.
  | datetime t, datetime u => t.offset.isSome == u.offset.isSome && t.instant == u.instant
  | float x _, float y _ => x.equal y
  | a, b =>
    -- Truth values are integers, and a float is compared with them by its integral value.
    match a.integer?, b.integer? with
    | some m, some n => m == n
    | _, _ => false

end Scalar

/-- The name of a field, in the form in which it was first given. Names are
    told apart by their text alone. -/
structure Name where
  text : String
  form : TextForm
deriving DecidableEq, Inhabited

namespace Name

/-- A name given as plain text. -/
def ofText (s : String) : Name := ⟨s, .plain⟩

def same (a b : Name) : Bool := a.text == b.text

/-- A name inside other text. An encoding goes by the name it has among the
    encodings. -/
def display (n : Name) : String :=
  match n.form with
  | .encoding e => e.memberName
  | _ => n.text

end Name

end Docket
