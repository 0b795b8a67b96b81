import Docket.Text.Quoted
import Docket.Yaml.Character
import Docket.Yaml.Node

/-!
# Written scalars of YAML

How a scalar is written: plain if it can be, else between single quotes, and
between double quotes if it holds what neither can show. A plain scalar must not
look like anything else, and its tag is told from its text alone; in single
quotes only blanks next to line breaks and characters that cannot be written raw
are a hindrance; in double quotes everything has a form.

Long lines are folded at blanks. A single blank beyond the last column becomes a
line break, which is read as a blank again; a line break proper is therefore
written twice. In double quotes the break is hidden by a backslash and may stand
anywhere. What follows a fold is indented.

## Main definitions

* `YamlStyle`, `YamlScalar.style`: How a scalar is written.
* `foldYaml`, `foldDoubleQuoted`: A text with its long lines folded.
* `YamlScalar.write`: The written scalar.
-/

namespace Docket

inductive YamlStyle where
  | plain
  | single
  | double
  | literal
deriving DecidableEq, Inhabited

/-- The characters with which a plain scalar must not begin. -/
def yamlIndicators : List Char := "#,[]\x7b\x7d&*!|>'\"%@\x60".toList

/-- Whether a colon ends a word or a hash begins one, in a text that follows
    `before`. -/
def hasYamlSeparator (before : Char) : List Char → Bool
  | [] => false
  | c :: rest =>
    (c == ':' && atYamlBlank rest) || (c == '#' && isYamlBlank before) ||
      hasYamlSeparator c rest

/-- Whether a text would not be read as one plain scalar. -/
def looksLikeYaml (cs : List Char) : Bool :=
  ['-', '-', '-'].isPrefixOf cs || ['.', '.', '.'].isPrefixOf cs ||
  (match cs with
    | [] => false
    | c :: rest =>
      yamlIndicators.contains c || ((c == '?' || c == ':' || c == '-') && atYamlBlank rest) ||
        hasYamlSeparator c rest)

/-- Whether two neighbours in a text are of given kinds. -/
def hasNeighbours (p q : Char → Bool) : List Char → Bool
  | a :: b :: rest => (p a && q b) || hasNeighbours p q (b :: rest)
  | _ => false

def isSpace (c : Char) : Bool := c == ' '

/-- Whether a text begins or ends with a blank. -/
def hasOuterSpace (cs : List Char) : Bool := cs.head?.any isSpace || cs.getLast?.any isSpace

namespace YamlScalar

/-- Whether the text alone tells the tag. -/
def isTelling (s : YamlScalar) : Bool := yamlPlainTag s.text == s.tag

/-- Whether the text has line breaks. -/
def isMultiline (s : YamlScalar) : Bool := s.text.any isYamlBreak

/-- Whether the text can stand between single quotes. -/
def fitsSingle (s : YamlScalar) : Bool :=
  s.text.all isYamlWritable && !hasNeighbours isSpace isYamlBreak s.text &&
    !hasNeighbours isYamlBreak isSpace s.text

/-- Whether the text can stand without quotes. -/
def fitsPlain (s : YamlScalar) : Bool :=
  s.text.all isYamlWritable && !s.isMultiline && !hasOuterSpace s.text && !looksLikeYaml s.text

/-- How a scalar is written. Bytes are written as lines. -/
def style (s : YamlScalar) : YamlStyle :=
  if s.tag = .bytes ∧ s.text ≠ [] then .literal
  else if s.tag = .bytes then .double
  else if s.isTelling && s.fitsPlain then .plain
  else if s.fitsSingle then .single
  else .double

end YamlScalar

/-- The last column that is used if a line can be folded. -/
def yamlWidth : Nat := 80

/-- A new line at some indentation. -/
def yamlNewline (indent : Nat) : List Char := '\n' :: List.replicate indent ' '

/-- A text written from some column on, with its long lines folded if `folds`.
    `before` is the character before the text, and `raw` tells how a character
    other than a blank or a break is written. -/
def foldYaml (raw : Char → List Char) (folds : Bool) (indent : Nat) :
    Option Char → Nat → List Char → List Char
  | _, _, [] => []
  | before, column, c :: rest =>
    if c = ' ' then
      -- Only a single blank between words can be a fold, since blanks around a line break are
      -- lost.
      if folds && yamlWidth < column && before.any (· != ' ') && rest.head?.any (· != ' ') then
        yamlNewline indent ++ foldYaml raw folds indent (some c) indent rest
      else c :: foldYaml raw folds indent (some c) (column + 1) rest
    else if isYamlBreak c then
      -- A single newline would be a fold, so that the first one of a row is doubled.
      (if c = '\n' && !before.any isYamlBreak then ['\n', c] else [c]) ++
        if rest.head?.any isYamlBreak then foldYaml raw folds indent (some c) 0 rest
        else List.replicate indent ' ' ++ foldYaml raw folds indent (some c) indent rest
    else
      raw c ++ foldYaml raw folds indent (some c) (column + (raw c).length) rest

/-- A character between single quotes: a quote is written twice. -/
def singleQuotedChar (c : Char) : List Char := if c = '\'' then ['\'', '\''] else [c]

/-- The characters with a short form between double quotes. -/
def yamlEscapes : List (Char × Char) :=
  [('\u0000', '0'), ('\u0007', 'a'), ('\u0008', 'b'), ('\t', 't'), ('\n', 'n'), ('\u000B', 'v'),
    ('\u000C', 'f'), ('\r', 'r'), ('\u001B', 'e'), ('"', '"'), ('\\', '\\'), ('\u0085', 'N'),
    ('\u00A0', '_'), ('\u2028', 'L'), ('\u2029', 'P')]

/-- Whether a character stands for itself between double quotes. -/
def isDoubleQuotedRaw (c : Char) : Bool :=
  CharRanges.contains [(0x20, 0x21), (0x23, 0x5B), (0x5D, 0x7E), (0xA0, 0x2027),
    (0x202A, 0xD7FF), (0xE000, 0xFEFE), (0xFF00, 0xFFFD)] c

/-- A character that does not stand for itself, by its short form or by
    number. -/
def doubleQuotedEscape (c : Char) : List Char :=
  match yamlEscapes.find? (·.1 == c) with
  | some e => ['\\', e.2]
  | none =>
    let digits (lead : Char) (width : Nat) := '\\' :: lead ::
      (hexDigits width c.toNat).map Char.toUpper
    if c.toNat ≤ 0xFF then digits 'x' 2
    else if c.toNat ≤ 0xFFFF then digits 'u' 4
    else digits 'U' 8

/-- A text between double quotes written from some column on, with its long
    lines folded if `folds`. A line is folded before a blank, after an escaped
    character, or before the character that follows one (`fresh`), but neither
    before the first character nor at the last. A blank that begins a line is
    marked with a backslash. -/
def foldDoubleQuoted (folds : Bool) (indent : Nat) : Bool → Bool → Nat → List Char → List Char
  | _, _, _, [] => []
  | first, fresh, column, c :: rest =>
    let inner := folds && !first && !rest.isEmpty
    let fold (next : Option Char) : List Char × Nat :=
      if next = some ' ' then ('\\' :: yamlNewline indent ++ ['\\'], indent + 1)
      else ('\\' :: yamlNewline indent, indent)
    if isDoubleQuotedRaw c then
      if inner && (c == ' ' || fresh) && yamlWidth < column then
        let (text, column) := fold (some c)
        text ++ c :: foldDoubleQuoted folds indent false false (column + 1) rest
      else c :: foldDoubleQuoted folds indent false false (column + 1) rest
    else
      -- An escaped character may be followed by a fold whatever comes next.
      let escaped := doubleQuotedEscape c
      let column := column + escaped.length
      if inner && yamlWidth + 1 < column then
        let (text, column) := fold rest.head?
        escaped ++ text ++ foldDoubleQuoted folds indent false true column rest
      else escaped ++ foldDoubleQuoted folds indent false true column rest

/-- The lines of a text that ends with a line break. -/
def textLines : List Char → List (List Char)
  | [] => []
  | c :: rest =>
    if c = '\n' then [] :: textLines rest
    else match textLines rest with
      | line :: more => (c :: line) :: more
      | [] => [[c]]

namespace YamlScalar

/-- What stands before the text of a scalar whose tag must be told. -/
def tagText (s : YamlScalar) : List Char :=
  if s.style = .plain ∨ s.tag = .text then [] else s.tag.shortName.toList ++ [' ']

/-- A scalar written from some column on; `indent` is the indentation of its
    further lines. -/
def write (s : YamlScalar) (folds : Bool) (indent column : Nat) : List Char :=
  let column := column + s.tagText.length
  s.tagText ++
  match s.style with
  | .plain => foldYaml (fun c => [c]) folds indent none column s.text
  | .single =>
    '\'' :: foldYaml singleQuotedChar folds indent none (column + 1) s.text ++ ['\'']
  | .double => '"' :: foldDoubleQuoted folds indent true false (column + 1) s.text ++ ['"']
  | .literal => '|' :: (textLines s.text).flatMap (yamlNewline indent ++ ·)

end YamlScalar

end Docket
