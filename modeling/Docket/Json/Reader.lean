import Docket.Content
import Docket.ExceptionClass
import Docket.Text.Coding

/-!
# Reading JSON

JSON text as data. The reader takes what the writer writes and somewhat more:
blanks between all parts, escaped characters by number, and the names of
infinity and of what is no number. An integer is told from a floating-point
number by having neither a point nor an exponent. A repeated key keeps its
place and takes the last value.

A text that is not JSON is refused with the place where it stops being so. The
reader works on the characters that are left, so a place is known by how many
characters remain there.

How deep brackets may be nested is left out: the interpreter ends a reader that
calls itself too often, with an error of its own and at a depth that depends on
where it was called.

Bytes are decoded first. Which of the codings they are in is told from a byte
order mark or, JSON text beginning with two ASCII characters, from where the
first four bytes are zero.

## Main definitions

* `JsonFault`: Where and why a text is not JSON.
* `readJsonText`: The data of a text.
* `readJson`: The data of bytes.
-/

namespace Docket

inductive JsonReason where
  | value
  | propertyName
  | colon
  | comma
  | extraData
  | unterminated
  | control
  | escape
  | unicodeEscape
  | longInteger (digits : Nat)
deriving DecidableEq, Inhabited

namespace JsonReason

def text : JsonReason → String
  | value => "Expecting value"
  | propertyName => "Expecting property name enclosed in double quotes"
  | colon => "Expecting ':' delimiter"
  | comma => "Expecting ',' delimiter"
  | extraData => "Extra data"
  | unterminated => "Unterminated string starting at"
  | control => "Invalid control character at"
  | escape => "Invalid \\escape"
  | unicodeEscape => "Invalid \\uXXXX escape"
  | longInteger digits => digitLimitMessage (": value has " ++ toString digits ++ " digits")

end JsonReason

/-- The text is not JSON where `remaining` characters are left. -/
structure JsonFault where
  reason : JsonReason
  remaining : Nat
deriving DecidableEq, Inhabited

namespace JsonFault

/-- The error a fault in the given text is raised as: lines and columns are
    counted from one. -/
def error (text : List Char) (f : JsonFault) : LibraryError :=
  match f.reason with
  | .longInteger _ => ⟨"ValueError", f.reason.text⟩
  | reason =>
    let before := text.take (text.length - f.remaining)
    let line := before.count '\n' + 1
    let column := (before.reverse.takeWhile (· != '\n')).length + 1
    ⟨"JSONDecodeError",
      reason.text ++ ": line " ++ toString line ++ " column " ++ toString column ++
        " (char " ++ toString before.length ++ ")"⟩

end JsonFault

def isJsonBlank (c : Char) : Bool := c == ' ' || c == '\t' || c == '\n' || c == '\r'

def skipJsonBlanks (cs : List Char) : List Char := cs.dropWhile isJsonBlank

/-- The number that four digits to the base sixteen spell. -/
def hex4? (a b c d : Char) : Option Nat := do
  let a ← hexValue? a
  let b ← hexValue? b
  let c ← hexValue? c
  let d ← hexValue? d
  return ((a * 16 + b) * 16 + c) * 16 + d

/-- What a letter after a backslash stands for. -/
def jsonEscape? (c : Char) : Option Char :=
  match c with
  | '"' => some '"'
  | '\\' => some '\\'
  | '/' => some '/'
  | 'b' => some (Char.ofNat 8)
  | 'f' => some (Char.ofNat 12)
  | 'n' => some '\n'
  | 'r' => some '\r'
  | 't' => some '\t'
  | _ => none

/-- A character escaped by number, given what follows the `u`; there must be
    something left after it. Two numbers may spell one character. -/
def readUnicodeEscape : List Char → Option (Char × List Char)
  | a :: b :: c :: d :: rest =>
    if rest.isEmpty then none
    else match hex4? a b c d with
      | none => none
      | some n =>
        match rest with
        | '\\' :: 'u' :: a₂ :: b₂ :: c₂ :: d₂ :: rest₂ =>
          if isHighSurrogate n && !rest₂.isEmpty then
            match hex4? a₂ b₂ c₂ d₂ with
            | none => none
            | some m =>
              -- A surrogate without a partner is a character of its own, and what follows it is
              -- read again.
              if isLowSurrogate m then
                some (Char.ofNat (0x10000 + (n - 0xD800) * 1024 + (m - 0xDC00)), rest₂)
              else some (charOfPoint n, rest)
          else some (charOfPoint n, rest)
        | _ => some (charOfPoint n, rest)
  | _ => none

/-- How many characters remain where an escape by number goes wrong, given what
    follows its `u`: at that `u`, or at the second one of a pair. -/
def unicodeFaultAt (rest : List Char) : Nat :=
  match rest with
  | a :: b :: c :: d :: '\\' :: 'u' :: more =>
    if (hex4? a b c d).isSome then more.length + 1 else rest.length + 1
  | _ => rest.length + 1

/-- The characters of a string after its opening quote, at which `start`
    characters remained, and what follows the closing quote. -/
def readJsonString (start : Nat) : Nat → List Char → List Char →
    Except JsonFault (List Char × List Char)
  | 0, _, _ => .error ⟨.unterminated, start⟩
  | _ + 1, _, [] => .error ⟨.unterminated, start⟩
  | fuel + 1, done, c :: rest =>
    if c = '"' then .ok (done.reverse, rest)
    else if c = '\\' then
      match rest with
      | [] => .error ⟨.unterminated, start⟩
      | 'u' :: more =>
        match readUnicodeEscape more with
        | some (d, rest') => readJsonString start fuel (d :: done) rest'
        | none => .error ⟨.unicodeEscape, unicodeFaultAt more⟩
      | e :: more =>
        match jsonEscape? e with
        | some d => readJsonString start fuel (d :: done) more
        -- The place of the fault is that of the backslash.
        | none => .error ⟨.escape, more.length + 2⟩
    else if c.toNat < 0x20 then .error ⟨.control, rest.length + 1⟩
    else readJsonString start fuel (c :: done) rest

/-- The digits at the start of a numeral: a zero stands alone. -/
def wholeDigits (cs : List Char) : List Char :=
  if cs.head? = some '0' then ['0'] else cs.takeWhile isAsciiDigit

/-- The digits after a point, and what follows them. A point counts only before
    a digit. -/
def takeFraction (cs : List Char) : List Char × List Char :=
  match cs with
  | '.' :: more =>
    let digits := more.takeWhile isAsciiDigit
    if digits.isEmpty then ([], cs) else (digits, more.dropWhile isAsciiDigit)
  | _ => ([], cs)

/-- A sign, if there is one, and what follows it. -/
def takeSign : List Char → List Char × List Char
  | '+' :: rest => (['+'], rest)
  | '-' :: rest => (['-'], rest)
  | cs => ([], cs)

/-- The sign and the digits of an exponent, and what follows them. A letter
    counts only if there are digits. -/
def takeExponent (cs : List Char) : List Char × List Char :=
  match cs with
  | e :: more =>
    if e = 'e' ∨ e = 'E' then
      let (sign, rest) := takeSign more
      let digits := rest.takeWhile isAsciiDigit
      if digits.isEmpty then ([], cs) else (sign ++ digits, rest.dropWhile isAsciiDigit)
    else ([], cs)
  | [] => ([], [])

/-- The numeral at the start of a text, after its sign, and what follows it. With
    the sign, `remaining` characters were left. -/
def readUnsignedNumber (negative : Bool) (remaining : Nat) (body : List Char) :
    Except JsonFault (Value × List Char) :=
  let whole := wholeDigits body
  if whole.isEmpty then .error ⟨.value, remaining⟩
  else
    let (fraction, rest) := takeFraction (body.drop whole.length)
    let (exponent, rest) := takeExponent rest
    if fraction.isEmpty && exponent.isEmpty then
      if maxDigits < whole.length then .error ⟨.longInteger whole.length, remaining⟩
      else
        let n : Int := digitsValue whole
        .ok (.int (if negative then -n else n), rest)
    else
      let e := (readExponent? exponent).getD 0
      .ok (.float ((decimalOf whole fraction e).toBinary negative), rest)

/-- A numeral and what follows it. -/
def readJsonNumber (cs : List Char) : Except JsonFault (Value × List Char) :=
  match cs with
  | '-' :: body => readUnsignedNumber true cs.length body
  | _ => readUnsignedNumber false cs.length cs

/-- What follows a word at the start of a text. -/
def afterWord? (word : String) (cs : List Char) : Option (List Char) :=
  if word.toList.isPrefixOf cs then some (cs.drop word.length) else none

/-- The constants, each with its value. -/
def jsonConstants : List (String × Value) :=
  [("null", .null), ("true", .bool true), ("false", .bool false), ("NaN", .float .nan),
    ("Infinity", .float (.infinity false)), ("-Infinity", .float (.infinity true))]

/-- A value without parts and what follows it. -/
def readJsonAtom (cs : List Char) : Except JsonFault (Value × List Char) :=
  match jsonConstants.findSome? fun c => (afterWord? c.1 cs).map (c.2, ·) with
  | some r => .ok r
  | none => readJsonNumber cs

/-- Puts an entry into an object: a repeated name keeps its place. -/
def setMember (entries : List (String × Value)) (name : String) (v : Value) :
    List (String × Value) :=
  match entries with
  | [] => [(name, v)]
  | (n, w) :: rest => if n == name then (n, v) :: rest else (n, w) :: setMember rest name v

mutual

/-- The value at the start of a text and what follows it. -/
def readJsonValue : Nat → List Char → Except JsonFault (Value × List Char)
  | 0, cs => .error ⟨.value, cs.length⟩
  | fuel + 1, cs =>
    match cs with
    | '"' :: rest => do
      let (s, rest) ← readJsonString cs.length (cs.length + 1) [] rest
      return (.text (String.ofList s), rest)
    | '[' :: rest =>
      match skipJsonBlanks rest with
      | ']' :: rest => .ok (.list [], rest)
      | rest => readJsonItems fuel [] rest
    | '\x7b' :: rest =>
      match skipJsonBlanks rest with
      | '\x7d' :: rest => .ok (.dict [], rest)
      | rest => readJsonMembers fuel [] rest
    | cs => readJsonAtom cs

/-- The items of an array that are left, after those of `done`, and what
    follows the array. -/
def readJsonItems : Nat → List Value → List Char → Except JsonFault (Value × List Char)
  | 0, _, cs => .error ⟨.value, cs.length⟩
  | fuel + 1, done, cs => do
    let (v, rest) ← readJsonValue fuel cs
    match skipJsonBlanks rest with
    | ']' :: rest => return (.list (v :: done).reverse, rest)
    | ',' :: rest => readJsonItems fuel (v :: done) (skipJsonBlanks rest)
    | rest => .error ⟨.comma, rest.length⟩

/-- The members of an object that are left, after those of `done`, and what
    follows the object. -/
def readJsonMembers : Nat → List (String × Value) → List Char →
    Except JsonFault (Value × List Char)
  | 0, _, cs => .error ⟨.value, cs.length⟩
  | fuel + 1, done, cs =>
    match cs with
    | '"' :: rest => do
      let (name, rest) ← readJsonString cs.length (cs.length + 1) [] rest
      match skipJsonBlanks rest with
      | ':' :: rest => do
        let (v, rest) ← readJsonValue fuel (skipJsonBlanks rest)
        let done := setMember done (String.ofList name) v
        match skipJsonBlanks rest with
        | '\x7d' :: rest => return (.dict (done.map fun e => (.text e.1, e.2)), rest)
        | ',' :: rest => readJsonMembers fuel done (skipJsonBlanks rest)
        | rest => .error ⟨.comma, rest.length⟩
      | rest => .error ⟨.colon, rest.length⟩
    | cs => .error ⟨.propertyName, cs.length⟩

end

/-- The data of a text that is JSON from end to end. Each character takes at
    most two steps, one for the value it begins and one for its place in a
    collection. -/
def readJsonText (cs : List Char) : Except JsonFault Value := do
  let (v, rest) ← readJsonValue (2 * cs.length + 2) (skipJsonBlanks cs)
  match skipJsonBlanks rest with
  | [] => return v
  | rest => .error ⟨.extraData, rest.length⟩

/-- The marks that payloads begin with, and how what follows a mark is read. A mark
    that begins with another one comes before it. -/
def byteOrderMarks : List (Bytes × (Bytes → Except CodingFault (List Char))) :=
  [([0x00, 0x00, 0xFE, 0xFF], decodeUtf32 true 4), ([0xFF, 0xFE, 0x00, 0x00], decodeUtf32 false 4),
    ([0xFE, 0xFF], decodeUtf16 true 2), ([0xFF, 0xFE], decodeUtf16 false 2),
    ([0xEF, 0xBB, 0xBF], decodeUtf8)]

/-- The text of bytes without a mark, in the coding that their zeros tell. -/
def decodeUnmarked (bytes : Bytes) : Except CodingFault (List Char) :=
  match bytes with
  | a :: b :: c :: d :: _ =>
    if a = 0 then (if b = 0 then decodeUtf32 true 0 bytes else decodeUtf16 true 0 bytes)
    else if b = 0 then
      (if c = 0 ∧ d = 0 then decodeUtf32 false 0 bytes else decodeUtf16 false 0 bytes)
    else decodeUtf8 bytes
  | [a, b] =>
    if a = 0 then decodeUtf16 true 0 bytes
    else if b = 0 then decodeUtf16 false 0 bytes
    else decodeUtf8 bytes
  | _ => decodeUtf8 bytes

/-- The text of bytes, in the coding that their first bytes tell. -/
def decodeJsonBytes (bytes : Bytes) : Except CodingFault (List Char) :=
  match byteOrderMarks.find? (·.1.isPrefixOf bytes) with
  | some (mark, read) => read (bytes.drop mark.length)
  | none => decodeUnmarked bytes

/-- The data of bytes that are JSON. -/
def readJson (bytes : Bytes) : Except LibraryError Value :=
  match decodeJsonBytes bytes with
  | .error f => .error ⟨"UnicodeDecodeError", f.message⟩
  | .ok cs => (readJsonText cs).mapError (·.error cs)

end Docket
