import Docket.Yaml.ScalarText

/-!
# Tokens of YAML

The tokens of a text. Most are told by one character and what follows it; the
tokens that begin and end block collections are told by indentation.

A simple key is recognised late. Only the colon behind it tells that what came
before is a key, so wherever a key may begin its place among the tokens is
remembered, once for each level of brackets, and the colon puts the mark of a key
there. A place is forgotten at the end of the line, for a key stands on one line
and is short. Where a line of a block map must begin with a key, forgetting is a
fault.

The tokens are followed by the end of the text or by what is wrong with it. As
long as a key may have begun at some token, what follows it must be read before
the token is certain; so something wrong there shows before that token.

## Main definitions

* `YamlToken`: The tokens.
* `YamlCursor`: A place in a text.
* `YamlScan`: What is known while tokens are collected.
* `yamlTokens`: The tokens of a text.
-/

namespace Docket

inductive YamlToken where
  | finish
  | broken (f : YamlFault)
  | version (major : Nat)
  | tagHandle (handle name : List Char)
  | reserved
  | documentStart
  | documentEnd
  | blockList
  | blockMap
  | blockEnd
  | openList
  | closeList
  | openMap
  | closeMap
  | comma
  | dash
  | key
  | value
  | alias (name : List Char)
  | anchor (name : List Char)
  | tag (handle : Option (List Char)) (name : List Char)
  | scalar (text : List Char) (plain : Bool)
deriving DecidableEq, Inhabited

/-- A place in a text: what is left of it, and where that begins. -/
structure YamlCursor where
  rest : List Char
  index : Nat
  line : Nat
  column : Nat

namespace YamlCursor

/-- The place behind the next character. A byte order mark takes no column. -/
def next (p : YamlCursor) : YamlCursor :=
  match p.rest with
  | [] => p
  | c :: rest =>
    if isYamlBreak c || (c == '\r' && rest.head? != some '\n') then
      ⟨rest, p.index + 1, p.line + 1, 0⟩
    else if c.toNat = 0xFEFF then ⟨rest, p.index + 1, p.line, p.column⟩
    else ⟨rest, p.index + 1, p.line, p.column + 1⟩

/-- The place a number of characters on. -/
def advance (p : YamlCursor) : Nat → YamlCursor
  | 0 => p
  | n + 1 => p.next.advance n

/-- The place where `rest`, a last part of the text, begins. -/
def upTo (p : YamlCursor) (rest : List Char) : YamlCursor :=
  p.advance (p.rest.length - rest.length)

end YamlCursor

/-- Where a simple key may have begun: before which token, where in the text,
    and whether there must be one. -/
structure YamlKeyPlace where
  token : Nat
  index : Nat
  line : Nat
  column : Nat
  required : Bool
deriving DecidableEq, Inhabited

/-- What is known while tokens are collected: the tokens in reverse, the columns
    of the open block collections, innermost first, the places of possible keys,
    one for each level of brackets and the innermost first, and whether a key may
    begin here. -/
structure YamlScan where
  place : YamlCursor
  tokens : List YamlToken
  count : Nat
  indents : List Nat
  keys : List (Option YamlKeyPlace)
  keyAllowed : Bool

/-- Puts an element into a list behind the first `n`. -/
def insertBehind {α : Type} (a : α) : Nat → List α → List α
  | 0, xs => a :: xs
  | _ + 1, [] => [a]
  | n + 1, x :: xs => x :: insertBehind a n xs

namespace YamlScan

def start (cs : List Char) : YamlScan := ⟨⟨cs, 0, 0, 0⟩, [], 0, [], [none], true⟩

/-- Whether the place is within brackets. -/
def inFlow (s : YamlScan) : Bool := 1 < s.keys.length

/-- How far what stands in the innermost block collection is indented at
    least. -/
def inner (s : YamlScan) : Nat :=
  match s.indents with
  | [] => 0
  | column :: _ => column + 1

def push (s : YamlScan) (t : YamlToken) : YamlScan :=
  { s with tokens := t :: s.tokens, count := s.count + 1 }

/-- Puts a token before the token of the given number. -/
def insert (s : YamlScan) (number : Nat) (t : YamlToken) : YamlScan :=
  { s with tokens := insertBehind t (s.count - number) s.tokens, count := s.count + 1 }

def moveTo (s : YamlScan) (rest : List Char) : YamlScan := { s with place := s.place.upTo rest }

/-- Pushes the token of the next `n` characters. -/
def take (s : YamlScan) (n : Nat) (t : YamlToken) : YamlScan :=
  { s.push t with place := s.place.advance n }

def allow (s : YamlScan) (allowed : Bool) : YamlScan := { s with keyAllowed := allowed }

/-- Whether a key begun at a place can no longer be simple. -/
def isStale (s : YamlScan) (k : YamlKeyPlace) : Bool :=
  k.line != s.place.line || 1024 < s.place.index - k.index

/-- Forgets the places where a key can no longer have begun. -/
def forgetStale (s : YamlScan) : Except YamlFault YamlScan :=
  let stale (k : Option YamlKeyPlace) : Bool := k.any s.isStale
  if s.keys.any fun k => stale k && k.any (·.required) then .error .malformed
  else .ok { s with keys := s.keys.map fun k => if stale k then none else k }

/-- Forgets the place of a possible key at this level of brackets. -/
def forgetKey (s : YamlScan) : Except YamlFault YamlScan :=
  match s.keys with
  | some k :: rest => if k.required then .error .malformed else .ok { s with keys := none :: rest }
  | _ => .ok s

/-- Remembers that a key may begin here, if one may. In a block map it must if
    the line begins where the keys stand. -/
def rememberKey (s : YamlScan) : Except YamlFault YamlScan := do
  if !s.keyAllowed then return s
  let s ← s.forgetKey
  let required := !s.inFlow && s.indents.head? == some s.place.column
  let k : YamlKeyPlace := ⟨s.count, s.place.index, s.place.line, s.place.column, required⟩
  return { s with keys := some k :: s.keys.tail }

/-- Ends the block collections that are indented further than a column. -/
def unwind (s : YamlScan) (column : Nat) : YamlScan :=
  let ended := s.indents.takeWhile (column < ·)
  { s with
    tokens := List.replicate ended.length YamlToken.blockEnd ++ s.tokens
    count := s.count + ended.length
    indents := s.indents.dropWhile (column < ·) }

/-- Ends all block collections. -/
def unwindAll (s : YamlScan) : YamlScan :=
  { s with
    tokens := List.replicate s.indents.length YamlToken.blockEnd ++ s.tokens
    count := s.count + s.indents.length
    indents := [] }

/-- Whether a block collection that stands at a column is not open yet. -/
def isDeeper (s : YamlScan) (column : Nat) : Bool := s.indents.head?.all (· < column)

/-- Begins a block collection at a column unless it is open, its token being
    number `number`. -/
def openAt (s : YamlScan) (column number : Nat) (t : YamlToken) : YamlScan :=
  if s.isDeeper column then { s.insert number t with indents := column :: s.indents } else s

end YamlScan

/-- Skips blanks, comments and line breaks; whether there were line breaks, and
    what follows. -/
def skipYamlBlanks (crossed : Bool) (inComment : Bool) : List Char → Bool × List Char
  | [] => (crossed, [])
  | c :: rest =>
    if isYamlLineEnd c then skipYamlBlanks true false rest
    else if inComment || c == ' ' then skipYamlBlanks crossed inComment rest
    else if c == '#' then skipYamlBlanks crossed true rest
    else (crossed, c :: rest)

/-- The characters of names. -/
def isYamlNameChar (c : Char) : Bool :=
  isAsciiDigit c || ('a' ≤ c && c ≤ 'z') || ('A' ≤ c && c ≤ 'Z') || c == '-' || c == '_'

/-- The characters of tags. -/
def isYamlTagChar (c : Char) : Bool := isYamlNameChar c || ";/?:@&=+$,.!~*'()[]".toList.contains c

/-- A tag's name, after the part of `done`, which is in reverse, and bytes by
    number, also in reverse; and what follows it. -/
def readTagName? (done : List Char) (bytes : Bytes) :
    List Char → Option (List Char × List Char)
  | '%' :: a :: b :: rest => do
    let a ← hexValue? a
    let b ← hexValue? b
    readTagName? done (UInt8.ofNat (a * 16 + b) :: bytes) rest
  | rest => do
    -- Bytes by number spell characters together, which must be whole before another character
    -- comes.
    let done := (← decodeStrictUtf8? bytes.reverse).reverse ++ done
    match rest with
    | '%' :: _ => none
    | c :: more =>
      if isYamlTagChar c then readTagName? (c :: done) [] more else finish done (c :: more)
    | [] => finish done []
where
  finish (done rest : List Char) : Option (List Char × List Char) :=
    if done.isEmpty then none else some (done.reverse, rest)

/-- A tag's handle, from an exclamation mark to the next one, and what follows
    it. -/
def readTagHandle? : List Char → Option (List Char × List Char)
  | '!' :: rest =>
    match rest.dropWhile isYamlNameChar with
    | '!' :: more => some ('!' :: rest.takeWhile isYamlNameChar ++ ['!'], more)
    | _ => none
  | _ => none

/-- The token of a tag and what follows it. -/
def readTag? (cs : List Char) : Option (YamlToken × List Char) := do
  let (t, rest) ← match cs.drop 1 with
    | '<' :: rest => do
      let (name, rest) ← readTagName? [] [] rest
      pure (YamlToken.tag none name, ← afterChar? '>' rest)
    | rest =>
      if atYamlBlank rest then pure (YamlToken.tag none ['!'], rest)
      -- A second mark before the next blank ends a handle.
      else if (rest.takeWhile fun c => c != ' ' && !isYamlLineEnd c).contains '!' then do
        let (handle, rest) ← readTagHandle? cs
        let (name, rest) ← readTagName? [] [] rest
        pure (.tag (some handle) name, rest)
      else do
        let (name, rest) ← readTagName? [] [] rest
        pure (.tag (some ['!']) name, rest)
  if atYamlSpace rest then some (t, rest) else none

/-- The name of an anchor and what follows it. -/
def readAnchor? (cs : List Char) : Option (List Char × List Char) :=
  let name := cs.takeWhile isYamlNameChar
  let rest := cs.dropWhile isYamlNameChar
  let ends := atYamlBlank rest || rest.head?.any "?:,]\x7d%@\x60".toList.contains
  if name.isEmpty || !ends then none else some (name, rest)

/-- The number at the start of a text and what follows it. -/
def takeNatural? (cs : List Char) : Option (Nat × List Char) :=
  let digits := cs.takeWhile isAsciiDigit
  if digits.isEmpty || maxDigits < digits.length then none
  else some (digitsValue digits, cs.dropWhile isAsciiDigit)

/-- The handle that a directive declares: a tag's handle or a lone exclamation
    mark. -/
def readDeclaredHandle? : List Char → Option (List Char × List Char)
  | '!' :: ' ' :: rest => some (['!'], ' ' :: rest)
  | cs => readTagHandle? cs

/-- What a directive of some name says, and what follows that. -/
def readDirectiveValue? (name rest : List Char) : Option (YamlToken × List Char) :=
  let skip (cs : List Char) := cs.dropWhile (· == ' ')
  if name = "YAML".toList then do
    let (major, rest) ← takeNatural? (skip rest)
    let (_, rest) ← takeNatural? (← afterChar? '.' rest)
    if atYamlSpace rest then some (.version major, rest) else none
  else if name = "TAG".toList then do
    let (handle, rest) ← readDeclaredHandle? (skip rest)
    let rest ← afterChar? ' ' rest
    let (name, rest) ← readTagName? [] [] (skip rest)
    if atYamlSpace rest then some (.tagHandle handle name, rest) else none
  -- Other directives are passed over.
  else some (.reserved, rest.dropWhile (!isYamlLineEnd ·))

/-- The token of a directive, from behind its mark, and what follows its line. -/
def readDirective? (cs : List Char) : Option (YamlToken × List Char) := do
  let name := cs.takeWhile isYamlNameChar
  let rest := cs.dropWhile isYamlNameChar
  if name.isEmpty || !atYamlSpace rest then none
  let (t, rest) ← readDirectiveValue? name rest
  return (t, ← skipLine? rest)

namespace YamlScan

/-- What was read, or a fault. -/
def orMalformed {α : Type} (a : Option α) : Except YamlFault α :=
  match a with
  | some a => .ok a
  | none => .error .malformed

/-- Moves to the next token. A key may begin on a new line outside of
    brackets. -/
def skipBlanks (s : YamlScan) : YamlScan :=
  let (crossed, rest) := skipYamlBlanks false false s.place.rest
  let s := s.moveTo rest
  if crossed && !s.inFlow then s.allow true else s

/-- The mark of a document's start or end, or a directive: it ends all that is
    open. -/
def outermost (s : YamlScan) : Except YamlFault YamlScan := do
  return (← s.unwindAll.forgetKey).allow false

/-- An opening bracket. -/
def openBracket (s : YamlScan) (t : YamlToken) : Except YamlFault YamlScan := do
  let s ← s.rememberKey
  return ({ s with keys := none :: s.keys }.allow true).take 1 t

/-- A closing bracket. -/
def closeBracket (s : YamlScan) (t : YamlToken) : Except YamlFault YamlScan := do
  let s ← s.forgetKey
  return ({ s with keys := s.keys.tail }.allow false).take 1 t

/-- Begins a block collection here, for a dash or a question mark. Within
    brackets there are none. -/
def openHere (s : YamlScan) (t : YamlToken) : Except YamlFault YamlScan :=
  if s.inFlow then .ok s
  else if s.keyAllowed then .ok (s.openAt s.place.column s.count t)
  else .error .malformed

/-- The colon between a key and its value. If a simple key may have begun, it
    has. -/
def colon (s : YamlScan) : Except YamlFault YamlScan := do
  match s.keys with
  | some k :: rest =>
    -- The key was collected before it was known to be one, so that its mark is put in afterwards.
    let s := { s with keys := none :: rest }.insert k.token .key
    let s := if s.inFlow then s else s.openAt k.column k.token .blockMap
    return (s.allow false).take 1 .value
  | _ =>
    let s ← s.openHere .blockMap
    return ((← (s.allow !s.inFlow).forgetKey)).take 1 .value

/-- A token at which a key may begin, read with what follows it. -/
def keyStart (s : YamlScan) (read : Except YamlFault (YamlToken × List Char)) :
    Except YamlFault YamlScan := do
  let s ← s.rememberKey
  let (t, rest) ← read
  return ((s.allow false).push t).moveTo rest

/-- A plain scalar. After it a key may begin if a new line does. -/
def plainScalar (s : YamlScan) : Except YamlFault YamlScan := do
  let s ← s.rememberKey
  let r := readPlain s.inFlow s.inner [] .none 0 s.place.rest
  return ((s.allow r.crossed).push (.scalar r.text true)).moveTo r.rest

/-- A block scalar. -/
def blockScalar (s : YamlScan) (folded : Bool) (rest : List Char) : Except YamlFault YamlScan := do
  let s ← (s.allow true).forgetKey
  let (text, rest) ← orMalformed (readBlockScalar folded s.inner rest)
  return (s.push (.scalar text false)).moveTo rest

/-- Whether a plain scalar may begin here. -/
def atPlain (s : YamlScan) (c : Char) (rest : List Char) : Bool :=
  !(isYamlBlank c || "-?:,[]\x7b\x7d#&*!|>'\"%@\x60".toList.contains c) ||
    (!atYamlBlank rest && (c == '-' || (!s.inFlow && (c == '?' || c == ':'))))

/-- Collects the next token, which begins with `c`. -/
def token (s : YamlScan) (c : Char) (rest : List Char) : Except YamlFault YamlScan := do
  let first := s.place.column == 0
  if c == '%' && first then
    let s ← s.outermost
    let (t, rest) ← orMalformed (readDirective? rest)
    return (s.push t).moveTo rest
  if first && c == '-' && atYamlMark (c :: rest) then return (← s.outermost).take 3 .documentStart
  if first && c == '.' && atYamlMark (c :: rest) then return (← s.outermost).take 3 .documentEnd
  match c with
  | '[' => s.openBracket .openList
  | '\x7b' => s.openBracket .openMap
  | ']' => s.closeBracket .closeList
  | '\x7d' => s.closeBracket .closeMap
  | ',' => return (← (s.allow true).forgetKey).take 1 .comma
  | '*' => s.keyStart (orMalformed ((readAnchor? rest).map fun r => (.alias r.1, r.2)))
  | '&' => s.keyStart (orMalformed ((readAnchor? rest).map fun r => (.anchor r.1, r.2)))
  | '!' => s.keyStart (orMalformed (readTag? (c :: rest)))
  | '\'' => s.keyStart ((readSingleQuoted [] .none rest).map fun r => (.scalar r.1 false, r.2))
  | '"' =>
    s.keyStart ((readDoubleQuoted [] (.text .none) rest).map fun r => (.scalar r.1 false, r.2))
  | _ =>
    -- These begin a plain scalar if no blank follows.
    if c == '-' && atYamlBlank rest then
      let s ← s.openHere .blockList
      return (← (s.allow true).forgetKey).take 1 .dash
    else if c == '?' && (s.inFlow || atYamlBlank rest) then
      let s ← s.openHere .blockMap
      return (← (s.allow !s.inFlow).forgetKey).take 1 .key
    else if c == ':' && (s.inFlow || atYamlBlank rest) then s.colon
    else if c == '|' && !s.inFlow then s.blockScalar false rest
    else if c == '>' && !s.inFlow then s.blockScalar true rest
    else if s.atPlain c rest then s.plainScalar
    else .error .malformed

/-- The end of the text. -/
def finish (s : YamlScan) : Except YamlFault YamlScan := do
  return (← s.unwindAll.forgetKey).push .finish

/-- Collects one more token and those that indentation tells; whether it was the
    end of the text. -/
def step (s : YamlScan) : Except YamlFault (YamlScan × Bool) := do
  let s ← s.skipBlanks.forgetStale
  let s := if s.inFlow then s else s.unwind s.place.column
  match s.place.rest with
  | [] => return (← s.finish, true)
  | c :: rest => return (← s.token c rest, false)

/-- The tokens up to a fault. A token where a key may have begun is not certain
    until the text has been read further, so the fault shows before it. -/
def tokensBefore (s : YamlScan) (f : YamlFault) : List YamlToken :=
  let possible := (s.keys.filterMap id).filter (!s.isStale ·)
  let certain := possible.foldl (fun n k => min n k.token) s.count
  s.tokens.reverse.take certain ++ [.broken f]

/-- Collects tokens up to the end of the text or a fault. Every step but the last
    takes at least one character. -/
def run : Nat → YamlScan → List YamlToken
  | 0, s => s.tokensBefore .malformed
  | fuel + 1, s =>
    match s.step with
    | .error f => s.tokensBefore f
    | .ok (s, true) => s.tokens.reverse
    | .ok (s, false) => run fuel s

end YamlScan

/-- The tokens of a text. A byte order mark at its start is skipped. -/
def yamlTokens (cs : List Char) : List YamlToken :=
  let s := YamlScan.start cs
  let s := if cs.head? = some (Char.ofNat 0xFEFF) then { s with place := s.place.next } else s
  s.run (cs.length + 1)

end Docket
