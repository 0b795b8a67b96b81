import Docket.ExceptionClass
import Docket.Text.Coding
import Docket.Text.Quoted
import Docket.Yaml.Character
import Docket.Yaml.Scalar

/-!
# Reading the text of YAML scalars

The text that a written scalar stands for. A gap of blanks within a line stands
for itself. A gap with line breaks is folded: the blanks around the breaks do not
count, one break stands for a blank, and of several the first does not count.
The two breaks that keep their identity count always.

Between double quotes a backslash and a letter stand for a character, and a
backslash at the end of a line makes the first break of the gap not count. A
plain scalar ends where a separator stands or where a line is indented too
little. A block scalar consists of the lines that are indented enough, and
folding them is a matter of its style.

## Main definitions

* `YamlFault`: What keeps a text from being read.
* `YamlGap`: A gap between words, and the text it stands for.
* `readSingleQuoted`, `readDoubleQuoted`: The text after an opening quote.
* `readPlain`: The text of a plain scalar.
* `readBlockScalar`: The text of the lines after a block scalar's mark.
-/

namespace Docket

/-- What keeps a text from being read. Apart from being malformed, it may have a
    scalar whose tag makes no sense of it. -/
inductive YamlFault where
  | malformed
  | characterTooLarge
  | unknownWord (word : String)
  | emptyNumber
  | noTimestamp
  | tooManyParts
deriving DecidableEq, Inhabited

namespace YamlFault

/-- The error a fault is raised as. -/
def error : YamlFault → LibraryError
  | malformed => ⟨"YAMLError", ""⟩
  | characterTooLarge => ⟨"OverflowError", "Python int too large to convert to C int"⟩
  | unknownWord word => ⟨"KeyError", quoteText word⟩
  | emptyNumber => ⟨"IndexError", "string index out of range"⟩
  | noTimestamp => ⟨"AttributeError", "'NoneType' object has no attribute 'groupdict'"⟩
  | tooManyParts => ⟨"OverflowError", "int too large to convert to float"⟩

end YamlFault

/-- The line break at the start of a text, and the rest. -/
def takeYamlBreak? : List Char → Option (Char × List Char)
  | '\r' :: '\n' :: rest => some ('\n', rest)
  | c :: rest =>
    if c = '\r' ∨ c = '\n' ∨ c = '\u0085' then some ('\n', rest)
    else if c = '\u2028' ∨ c = '\u2029' then some (c, rest)
    else none
  | [] => none

/-- Whether the mark of a document's start or end stands at the start of a
    line. -/
def atYamlMark : List Char → Bool
  | '-' :: '-' :: '-' :: rest => atYamlBlank rest
  | '.' :: '.' :: '.' :: rest => atYamlBlank rest
  | _ => false

/-- A gap between words, whose texts are in reverse: none, blanks, or line
    breaks. The first break is missing if it is escaped. -/
inductive YamlGap where
  | none
  | blanks (text : List Char)
  | lines (first : Option Char) (more : List Char)
deriving DecidableEq, Inhabited

namespace YamlGap

/-- The text a gap stands for, in reverse. -/
def text : YamlGap → List Char
  | none => []
  | blanks text => text
  | lines Option.none more => more
  | lines (some '\n') [] => [' ']
  | lines (some '\n') more => more
  | lines (some c) more => more ++ [c]

/-- A gap with a blank after it. -/
def addBlank (c : Char) : YamlGap → YamlGap
  | none => blanks [c]
  | blanks text => blanks (c :: text)
  | g => g

/-- A gap with a line break after it. -/
def addBreak (c : Char) : YamlGap → YamlGap
  | lines first more => lines first (c :: more)
  | _ => lines (some c) []

/-- Whether a gap has line breaks. -/
def hasBreak : YamlGap → Bool
  | lines .. => true
  | _ => false

end YamlGap

def isYamlInnerBlank (c : Char) : Bool := c == ' ' || c == '\t'

/-- The text up to a closing single quote, after that of `done`, which is in
    reverse, and a gap; and what follows the quote. -/
def readSingleQuoted (done : List Char) (gap : YamlGap) :
    List Char → Except YamlFault (List Char × List Char)
  | [] => .error .malformed
  | '\'' :: '\'' :: rest => readSingleQuoted ('\'' :: (gap.text ++ done)) .none rest
  | '\r' :: '\n' :: rest =>
    if atYamlMark rest then .error .malformed
    else readSingleQuoted done (gap.addBreak '\n') rest
  | c :: rest =>
    if c = '\'' then .ok ((gap.text ++ done).reverse, rest)
    else if isYamlInnerBlank c then readSingleQuoted done (gap.addBlank c) rest
    else
      match takeYamlBreak? [c] with
      | some (b, _) =>
        if atYamlMark rest then .error .malformed
        else readSingleQuoted done (gap.addBreak b) rest
      | none => readSingleQuoted (c :: (gap.text ++ done)) .none rest

/-- What a letter after a backslash stands for. -/
def yamlEscape? (c : Char) : Option Char :=
  match c with
  | '\t' => some '\t'
  | ' ' => some ' '
  | '/' => some '/'
  | c => (yamlEscapes.find? (·.2 == c)).map (·.1)

/-- How many digits follow a letter after a backslash. -/
def yamlEscapeDigits? (c : Char) : Option Nat :=
  match c with
  | 'x' => some 2
  | 'u' => some 4
  | 'U' => some 8
  | _ => none

/-- The character of a number. -/
def yamlCharacter (n : Nat) : Except YamlFault Char :=
  if n < 0x110000 then .ok (charOfPoint n)
  else if n < 2 ^ 31 then .error .malformed
  else .error .characterTooLarge

/-- Where a reader of a double-quoted text stands: in the text, after a
    backslash, or in a number of which `left` digits are to come. -/
inductive YamlQuoteState where
  | text (gap : YamlGap)
  | escape
  | number (left value : Nat)
deriving DecidableEq, Inhabited

/-- The text up to a closing double quote, after that of `done`, which is in
    reverse; and what follows the quote. -/
def readDoubleQuoted (done : List Char) (state : YamlQuoteState) :
    List Char → Except YamlFault (List Char × List Char)
  | [] => .error .malformed
  | '\r' :: '\n' :: rest =>
    if atYamlMark rest then .error .malformed
    else match state with
      | .text gap => readDoubleQuoted done (.text (gap.addBreak '\n')) rest
      | .escape => readDoubleQuoted done (.text (.lines none [])) rest
      | .number .. => .error .malformed
  | c :: rest =>
    match state with
    | .text gap =>
      if c = '"' then .ok ((gap.text ++ done).reverse, rest)
      else if c = '\\' then readDoubleQuoted (gap.text ++ done) .escape rest
      else if isYamlInnerBlank c then readDoubleQuoted done (.text (gap.addBlank c)) rest
      else
        match takeYamlBreak? [c] with
        | some (b, _) =>
          if atYamlMark rest then .error .malformed
          else readDoubleQuoted done (.text (gap.addBreak b)) rest
        | none => readDoubleQuoted (c :: (gap.text ++ done)) (.text .none) rest
    | .escape =>
      match yamlEscape? c, yamlEscapeDigits? c, takeYamlBreak? [c] with
      | some d, _, _ => readDoubleQuoted (d :: done) (.text .none) rest
      | none, some left, _ => readDoubleQuoted done (.number left 0) rest
      | none, none, some _ =>
        if atYamlMark rest then .error .malformed
        else readDoubleQuoted done (.text (.lines none [])) rest
      | none, none, none => .error .malformed
    | .number left value =>
      match hexValue? c with
      | none => .error .malformed
      | some v =>
        if left ≤ 1 then
          match yamlCharacter (value * 16 + v) with
          | .ok d => readDoubleQuoted (d :: done) (.text .none) rest
          | .error f => .error f
        else readDoubleQuoted done (.number (left - 1) (value * 16 + v)) rest

/-- Whether a plain scalar ends before a text, which is not at its start.
    Within brackets it also ends at the characters that structure them. -/
def endsPlain (inFlow : Bool) : List Char → Bool
  | [] => true
  | c :: rest =>
    isYamlBlank c ||
      (c == ':' &&
        (atYamlBlank rest || (inFlow && rest.head?.any ",[]\x7b\x7d".toList.contains))) ||
      (inFlow && ",?[]\x7b\x7d".toList.contains c)

/-- A plain scalar: its text, what follows it and the gap after it, and whether
    that gap has line breaks. -/
structure YamlPlain where
  text : List Char
  rest : List Char
  crossed : Bool

/-- The text of a plain scalar, after that of `done`, which is in reverse, and a
    gap. Its further lines are indented by at least `indent` columns unless it
    stands in brackets; `column` counts those of the line begun. -/
def readPlain (inFlow : Bool) (indent : Nat) (done : List Char) (gap : YamlGap) (column : Nat) :
    List Char → YamlPlain
  | [] => ⟨done.reverse, [], gap.hasBreak⟩
  | '\r' :: '\n' :: rest =>
    if atYamlMark rest then ⟨done.reverse, rest, true⟩
    else readPlain inFlow indent done (gap.addBreak '\n') 0 rest
  | c :: rest =>
    if c = ' ' then readPlain inFlow indent done (gap.addBlank c) (column + 1) rest
    else
      match takeYamlBreak? [c] with
      | some (b, _) =>
        if atYamlMark rest then ⟨done.reverse, rest, true⟩
        else readPlain inFlow indent done (gap.addBreak b) 0 rest
      | none =>
        -- A scalar ends at a colon before a blank, at a comment, or on a line that is not
        -- indented.
        if endsPlain inFlow (c :: rest) || (gap != .none && c == '#') ||
            (gap.hasBreak && !inFlow && decide (column < indent)) then
          ⟨done.reverse, c :: rest, gap.hasBreak⟩
        else readPlain inFlow indent (c :: (gap.text ++ done)) .none column rest

/-- How the line breaks at the end of a block scalar are kept: none, the first,
    or all. -/
inductive YamlChomp where
  | strip
  | clip
  | keep
deriving DecidableEq, Inhabited

/-- The mark of a block scalar: how it ends, and how much further than its
    surroundings it is indented, if that is said. -/
structure YamlBlockMark where
  chomp : YamlChomp
  increment : Option Nat
deriving DecidableEq, Inhabited

def takeChomp? : List Char → Option (YamlChomp × List Char)
  | '+' :: rest => some (.keep, rest)
  | '-' :: rest => some (.strip, rest)
  | _ => none

def takeIncrement? : List Char → Option (Nat × List Char)
  | c :: rest => if isAsciiDigit c then some (digitsValue [c], rest) else none
  | [] => none

/-- The mark at the start of a text, in either order, and the rest. -/
def takeBlockMark (cs : List Char) : YamlBlockMark × List Char :=
  match takeChomp? cs with
  | some (chomp, rest) =>
    match takeIncrement? rest with
    | some (n, rest) => (⟨chomp, some n⟩, rest)
    | none => (⟨chomp, none⟩, rest)
  | none =>
    match takeIncrement? cs with
    | some (n, rest) =>
      match takeChomp? rest with
      | some (chomp, rest) => (⟨chomp, some n⟩, rest)
      | none => (⟨.clip, some n⟩, rest)
    | none => (⟨.clip, none⟩, cs)

/-- A text without the blanks and the comment at the end of its line. -/
def skipComment (cs : List Char) : List Char :=
  match cs.dropWhile (· == ' ') with
  | '#' :: rest => rest.dropWhile (!isYamlLineEnd ·)
  | rest => rest

/-- What follows the end of a line on which nothing but a comment is left. -/
def skipLine? (cs : List Char) : Option (List Char) :=
  match skipComment cs with
  | [] => some []
  | rest => (takeYamlBreak? rest).map (·.2)

/-- Line breaks, in reverse, and how far the line after them is indented. -/
structure YamlMargin where
  breaks : List Char
  column : Nat
  widest : Nat
  rest : List Char

/-- Skips blank lines and the indentation of the line after them, of which no
    more than `limit` columns are skipped if there is a limit. -/
def skipMargin (limit : Option Nat) (breaks : List Char) (column widest : Nat) :
    List Char → YamlMargin
  | [] => ⟨breaks, column, widest, []⟩
  | '\r' :: '\n' :: rest => skipMargin limit ('\n' :: breaks) 0 widest rest
  | c :: rest =>
    if c = ' ' ∧ limit.all (column < ·) then
      skipMargin limit breaks (column + 1) (max widest (column + 1)) rest
    else
      match takeYamlBreak? [c] with
      | some (b, _) => skipMargin limit (b :: breaks) 0 widest rest
      | none => ⟨breaks, column, widest, c :: rest⟩

/-- The lines of a block scalar from a line on that is indented as far as
    `margin` says, after the text of `done`, which is in reverse. -/
def readBlockLines (folded : Bool) (indent : Nat) (chomp : YamlChomp) :
    Nat → List Char → YamlMargin → List Char × List Char
  | 0, done, margin => (done.reverse, margin.rest)
  | fuel + 1, done, margin =>
    if margin.column ≠ indent ∨ margin.rest.isEmpty then
      ((if chomp = .keep then margin.breaks ++ done else done).reverse, margin.rest)
    else
      let line := margin.rest.takeWhile (!isYamlLineEnd ·)
      let rest := margin.rest.dropWhile (!isYamlLineEnd ·)
      let done := line.reverse ++ (margin.breaks ++ done)
      let (ending, rest) := match takeYamlBreak? rest with
        | some (b, rest) => ([b], rest)
        | none => ([], rest)
      let next := skipMargin (some indent) [] 0 0 rest
      if next.column = indent ∧ !next.rest.isEmpty then
        -- Two lines are joined by a blank, or by the empty lines between them, unless one of them
        -- begins with a blank.
        let joins := folded && ending == ['\n'] && !line.head?.any isYamlInnerBlank &&
          !next.rest.head?.any isYamlInnerBlank
        let between := if joins then (if next.breaks.isEmpty then [' '] else []) else ending
        readBlockLines folded indent chomp fuel (between ++ done) next
      else
        -- The scalar ends here, and its mark says which breaks are kept.
        let done := if chomp = .strip then done else ending ++ done
        ((if chomp = .keep then next.breaks ++ done else done).reverse, next.rest)

/-- The text of a block scalar in a collection whose content is indented by at
    least `outer` columns, from the characters after its first mark on; and what
    follows it. -/
def readBlockScalar (folded : Bool) (outer : Nat) (cs : List Char) :
    Option (List Char × List Char) := do
  let (mark, rest) := takeBlockMark cs
  if mark.increment = some 0 || !atYamlSpace rest then none
  let rest ← skipLine? rest
  -- Without an increment the first line that is not empty tells the indentation, but blank lines
  -- that are wider count, too.
  let least := max outer 1
  let (indent, margin) := match mark.increment with
    | some n => (least + n - 1, skipMargin (some (least + n - 1)) [] 0 0 rest)
    | none =>
      let margin := skipMargin none [] 0 0 rest
      (max least margin.widest, margin)
  return readBlockLines folded indent mark.chomp (rest.length + 1) [] margin

end Docket
