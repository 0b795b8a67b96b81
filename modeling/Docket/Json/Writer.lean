import Docket.Content
import Docket.Text.Quoted

/-!
# Writing JSON

Content as JSON text, on one line or with one entry to a line and two blanks of
indentation for each level. Characters are written raw, apart from quotes,
backslashes and controls. A number keeps what tells an integer from a
floating-point number: the latter has a point or an exponent. Keys that are no
texts are written as the text of the number or constant.

Numbers without a decimal form cannot be written, and neither can very long
integers or keys of other kinds.

## Main definitions

* `JsonLayout`: One line, or indented.
* `Content.writeJson`: Content as JSON.
-/

namespace Docket

inductive JsonLayout where
  | compact
  | indented
deriving DecidableEq, Inhabited

namespace JsonLayout

/-- What stands between a key and its value. -/
def colon : JsonLayout → List Char
  | compact => [':']
  | indented => [':', ' ']

/-- What stands before an entry at some level, or before the bracket that
    closes the level below. -/
def newline : JsonLayout → Nat → List Char
  | compact, _ => []
  | indented, level => '\n' :: List.replicate (2 * level) ' '

end JsonLayout

/-- Why content has no JSON text. -/
inductive JsonWriteFault where
  | nonFinite (x : Binary64)
  | longInteger
  | key (family typeName : String)
deriving DecidableEq, Inhabited

namespace JsonWriteFault

/-- The error a fault is reported as. The indented layout also shows the number
    that has no decimal form; the compact one names the family of a key's type
    along with the type. -/
def failure (layout : JsonLayout) : JsonWriteFault → Failure
  | nonFinite x =>
    .valueError ("Out of range float values are not JSON compliant" ++
      (if layout = .indented then ": " ++ Layout.display.write x else ""))
  | longInteger => .valueError (digitLimitMessage "")
  | key family typeName =>
    .typeError ("keys must be str, int, float, bool or None, not " ++
      (if layout = .compact then family else "") ++ typeName)

end JsonWriteFault

/-- One character of a JSON string. -/
def jsonChar (c : Char) : List Char :=
  if c = '"' then ['\\', '"']
  else if c = '\\' then ['\\', '\\']
  else if c = '\n' then ['\\', 'n']
  else if c = '\r' then ['\\', 'r']
  else if c = '\t' then ['\\', 't']
  else if c.toNat = 8 then ['\\', 'b']
  else if c.toNat = 12 then ['\\', 'f']
  else if c.toNat < 0x20 then '\\' :: 'u' :: hexDigits 4 c.toNat
  else [c]

/-- A JSON string. -/
def jsonString (s : String) : List Char := '"' :: s.toList.flatMap jsonChar ++ ['"']

def jsonBool (b : Bool) : List Char := (if b then "true" else "false").toList

def jsonInt (n : Int) : Except JsonWriteFault (List Char) :=
  match intText? n with
  | some cs => .ok cs
  | none => .error .longInteger

def jsonFloat (x : Binary64) : Except JsonWriteFault (List Char) :=
  if x.isFinite then .ok (Layout.display.write x).toList else .error (.nonFinite x)

/-- The family of types that a value's type belongs to, where it has one. -/
def typeFamily : Value → String
  | .scalar (.date _) => "datetime."
  | .scalar (.datetime _) => "datetime."
  | .alien (.duration _) => "datetime."
  | .alien (.decimal _) => "decimal."
  | _ => ""

/-- A key, as a JSON string. -/
def jsonKey : Value → Except JsonWriteFault (List Char)
  | .scalar (.text s _) => .ok (jsonString s)
  | .scalar .null => .ok (jsonString "null")
  | .scalar (.bool b) => .ok ('"' :: jsonBool b ++ ['"'])
  | .scalar (.int n _) => return '"' :: (← jsonInt n) ++ ['"']
  | .scalar (.float x _) => return '"' :: (← jsonFloat x) ++ ['"']
  | v => .error (.key (typeFamily v) v.typeName)

mutual

/-- Content at some level of nesting. -/
def Content.jsonAt (layout : JsonLayout) (level : Nat) : Content → Except JsonWriteFault (List Char)
  | .null => .ok "null".toList
  | .bool b => .ok (jsonBool b)
  | .int n _ => jsonInt n
  | .float x _ => jsonFloat x
  | .text s _ => .ok (jsonString s)
  | .list [] => .ok ['[', ']']
  | .list items => do
    let body ← jsonItems layout (level + 1) items
    return '[' :: body ++ layout.newline level ++ [']']
  | .map [] => .ok ['\x7b', '\x7d']
  | .map entries => do
    let body ← jsonEntries layout (level + 1) entries
    return '\x7b' :: body ++ layout.newline level ++ ['\x7d']

/-- Items at some level, each on a line of its own if the layout is indented. -/
def jsonItems (layout : JsonLayout) (level : Nat) : List Content → Except JsonWriteFault (List Char)
  | [] => .ok []
  | [c] => return layout.newline level ++ (← c.jsonAt layout level)
  | c :: rest => do
    let item ← c.jsonAt layout level
    return layout.newline level ++ item ++ ',' :: (← jsonItems layout level rest)

def jsonEntries (layout : JsonLayout) (level : Nat) :
    List (Value × Content) → Except JsonWriteFault (List Char)
  | [] => .ok []
  | [(k, c)] => do
    let key ← jsonKey k
    return layout.newline level ++ key ++ layout.colon ++ (← c.jsonAt layout level)
  | (k, c) :: rest => do
    let key ← jsonKey k
    let item ← c.jsonAt layout level
    return layout.newline level ++ key ++ layout.colon ++ item ++
      ',' :: (← jsonEntries layout level rest)

end

/-- Content as JSON. -/
def Content.writeJson (layout : JsonLayout) (c : Content) : Except Failure (List Char) :=
  (c.jsonAt layout 0).mapError (·.failure layout)

end Docket
