import Docket.Bytes
import Docket.Content
import Docket.Yaml.Base64
import Docket.Yaml.Scalar

/-!
# Writing YAML

Content as a YAML document in block style. A document is a tree of scalars,
lists and maps; an entry of a list stands behind a dash and an entry of a map
behind its key and a colon, each on a line of its own. A list in a map is not
indented further than the map, everything else by two columns. Empty lists and
maps are written in brackets.

A key is simple if it is short and stands on one line. Any other key is
announced by a question mark and has its value on the next line.

Only plain forms are written: there is no form for numbers and texts of a
derived form, nor for very long integers.

## Main definitions

* `Content.toYaml?`: The tree of content.
* `YamlNode.write`: A tree as a document.
-/

namespace Docket

/-- Floating-point numbers always have a point, also before an exponent. -/
def Layout.yaml : Layout :=
  { Layout.display with
    pointBeforeExponent := true
    infinite := ".inf"
    notANumber := ".nan" }

namespace YamlNode

def ofText (s : String) : YamlNode := leaf .text s.toList

def ofBool (b : Bool) : YamlNode := leaf .bool (if b then "true" else "false").toList

def ofInt? (n : Int) : Option YamlNode := (intText? n).map (leaf .int)

def ofFloat (x : Binary64) : YamlNode := leaf .float (Layout.yaml.write x).toList

/-- A point in time as a key: all that its clock shows, without a fraction of
    zero. -/
def dateTimeText (t : DateTime) : List Char :=
  t.date.text.toList ++ ' ' :: padded 2 t.hour ++ ':' :: padded 2 t.minute ++
    ':' :: padded 2 t.second ++
    (if t.microsecond = 0 then [] else '.' :: padded 6 t.microsecond) ++
    (match t.offset with
      | none => []
      | some o => o.text)

/-- The tree of a key. Keys other than texts occur in content that was not
    compiled. -/
def ofKey? : Value → Option YamlNode
  | .scalar .null => some (leaf .null "null".toList)
  | .scalar (.bool b) => some (ofBool b)
  | .scalar (.int n .plain) => ofInt? n
  | .scalar (.float x .plain) => some (ofFloat x)
  | .scalar (.text s .plain) => some (ofText s)
  | .scalar (.date d) => some (leaf .timestamp d.text.toList)
  | .scalar (.datetime t) => some (leaf .timestamp (dateTimeText t))
  | .alien (.binary .fixed b) => some (leaf .bytes (base64Lines b))
  | .items .tuple xs => (ofKeys? xs).map (.list .list)
  | _ => none
where
  ofKeys? : List Value → Option (List YamlNode)
    | [] => some []
    | v :: rest => do return (← ofKey? v) :: (← ofKeys? rest)

end YamlNode

mutual

/-- The tree of content, unless something in it has no form. -/
def Content.toYaml? : Content → Option YamlNode
  | .null => some (.leaf .null "null".toList)
  | .bool b => some (.ofBool b)
  | .int n .plain => YamlNode.ofInt? n
  | .float x .plain => some (.ofFloat x)
  | .text s .plain => some (.ofText s)
  | .list items => (itemsToYaml? items).map (.list .list)
  | .map entries => (entriesToYaml? entries).map (.map .map)
  | _ => none

def itemsToYaml? : List Content → Option (List YamlNode)
  | [] => some []
  | c :: rest => do
    let node ← c.toYaml?
    return node :: (← itemsToYaml? rest)

def entriesToYaml? : List (Value × Content) → Option (List (YamlNode × YamlNode))
  | [] => some []
  | (k, c) :: rest => do
    let key ← YamlNode.ofKey? k
    let node ← c.toYaml?
    return (key, node) :: (← entriesToYaml? rest)

end

namespace YamlScalar

/-- Whether a scalar can be a simple key: it is short, its tag included, not
    empty, and on one line. -/
def isSimpleKey (s : YamlScalar) : Bool :=
  s.tag.shortName.length + s.text.length < 128 && !s.text.isEmpty && !s.isMultiline

end YamlScalar

namespace YamlNode

/-- A simple key at some column, if the node can be one. -/
def simpleKey? (column : Nat) : YamlNode → Option (List Char)
  | .scalar s => if s.isSimpleKey then some (s.write false 0 column) else none
  | .list _ [] => some ['[', ']']
  | .map _ [] => some ['\x7b', '\x7d']
  | _ => none

mutual

/-- A node behind a dash, a question mark or the colon of a key that is not
    simple. That mark stands in column `indent`. -/
def writeMarked (indent : Nat) : YamlNode → List Char
  | .scalar s => ' ' :: s.write true (indent + 2) (indent + 2)
  | .list _ [] => [' ', '[', ']']
  | .map _ [] => [' ', '\x7b', '\x7d']
  | .list _ items => ' ' :: writeItems (indent + 2) items
  | .map _ entries => ' ' :: writeEntries (indent + 2) entries

/-- The items of a list whose dashes stand in column `indent`, where the first
    one begins. -/
def writeItems (indent : Nat) : List YamlNode → List Char
  | [] => []
  | n :: rest =>
    '-' :: writeMarked indent n ++
      if rest.isEmpty then [] else yamlNewline indent ++ writeItems indent rest

/-- The entries of a map whose keys stand in column `indent`, where the first
    one begins. -/
def writeEntries (indent : Nat) : List (YamlNode × YamlNode) → List Char
  | [] => []
  | (k, n) :: rest =>
    (match simpleKey? indent k with
      | some key => key ++ ':' :: writeValue indent (indent + key.length + 1) n
      | none => '?' :: writeMarked indent k ++ yamlNewline indent ++ ':' :: writeMarked indent n) ++
      if rest.isEmpty then [] else yamlNewline indent ++ writeEntries indent rest

/-- The value of a simple key of a map at `indent`, behind the colon at the end
    of which `column` is. -/
def writeValue (indent column : Nat) : YamlNode → List Char
  | .scalar s => ' ' :: s.write true (indent + 2) (column + 1)
  | .list _ [] => [' ', '[', ']']
  | .map _ [] => [' ', '\x7b', '\x7d']
  | .list _ items => yamlNewline indent ++ writeItems indent items
  | .map _ entries => yamlNewline (indent + 2) ++ writeEntries (indent + 2) entries

end

/-- A tree as a document. A document that is a plain scalar is marked at its
    end. -/
def write : YamlNode → List Char
  | .scalar s =>
    "--- ".toList ++ s.write true 2 4 ++
      (if s.style = .plain then "\n...\n" else "\n").toList
  | .list _ [] => "--- []\n".toList
  | .map _ [] => "--- \x7b\x7d\n".toList
  | .list _ items => "---\n".toList ++ writeItems 0 items ++ ['\n']
  | .map _ entries => "---\n".toList ++ writeEntries 0 entries ++ ['\n']

end YamlNode

/-- Content as YAML, unless something in it has no form. -/
def Content.writeYaml (c : Content) : Option (List Char) := c.toYaml?.map YamlNode.write

end Docket
