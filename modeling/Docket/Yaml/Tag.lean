import Docket.Number.Literal

/-!
# Tags of YAML

What a YAML node is, is told by its tag. A node without a tag gets one from its
shape, and a plain scalar gets one from its text: the words for truth and
nothing, integers in four bases and in counts of sixty, floating-point numbers,
dates and points in time are not taken for texts. A text that reads like one of
these must therefore be quoted.

## Main definitions

* `YamlTag`: The tags with a meaning.
* `yamlPlainTag`: The tag that a text speaks for by itself.
* `YamlTimestamp`: The parts of a date or a point in time.
-/

namespace Docket

inductive YamlTag where
  | null
  | bool
  | int
  | float
  | text
  | bytes
  | timestamp
  | list
  | map
  | set
  | orderedMap
  | pairs
  | merge
  | value
  | other
deriving DecidableEq, Inhabited

namespace YamlTag

/-- Whether what has a tag is made of other values. -/
def isCollection (t : YamlTag) : Bool := [list, map, set, orderedMap, pairs].contains t

/-- The names of the tags, without what they all begin with. -/
def named : List (String × YamlTag) :=
  [("null", null), ("bool", bool), ("int", int), ("float", float), ("str", text),
    ("binary", bytes), ("timestamp", timestamp), ("seq", list), ("map", map), ("set", set),
    ("omap", orderedMap), ("pairs", pairs), ("merge", merge), ("value", value)]

/-- What the tags with a meaning begin with. -/
def base : String := "tag:yaml.org,2002:"

/-- The tag that a full name stands for. -/
def ofName (s : String) : YamlTag :=
  match named.find? fun e => base ++ e.1 == s with
  | some e => e.2
  | none => other

/-- A tag in short. -/
def shortName (t : YamlTag) : String :=
  match named.find? fun e => e.2 == t with
  | some e => "!!" ++ e.1
  | none => "!"

end YamlTag

/-- What follows a sign, if there is one. -/
def afterSign : List Char → List Char
  | '+' :: cs => cs
  | '-' :: cs => cs
  | cs => cs

/-- Whether a text has at least one character, all of a kind. -/
def someAll (p : Char → Bool) (cs : List Char) : Bool := !cs.isEmpty && cs.all p

def isDigitOrLow (c : Char) : Bool := isAsciiDigit c || c == '_'

def isOctalOrLow (c : Char) : Bool := ('0' ≤ c && c ≤ '7') || c == '_'

def isBitOrLow (c : Char) : Bool := c == '0' || c == '1' || c == '_'

def isHexOrLow (c : Char) : Bool := (hexValue? c).isSome || c == '_'

/-- Whether a text is one part of a count of sixty: a number below sixty in one
    or two digits. -/
def isSixtieth : List Char → Bool
  | [a] => isAsciiDigit a
  | [a, b] => '0' ≤ a && a ≤ '5' && isAsciiDigit b
  | _ => false

/-- A text cut at every colon. -/
def splitColons : List Char → List (List Char)
  | [] => [[]]
  | c :: rest =>
    let parts := splitColons rest
    if c = ':' then [] :: parts
    else match parts with
      | part :: more => (c :: part) :: more
      | [] => [[c]]

/-- Whether a text begins with a digit other than zero, all else being digits
    and low lines. -/
def isPositive : List Char → Bool
  | c :: rest => isAsciiDigit c && c != '0' && rest.all isDigitOrLow
  | [] => false

/-- Whether a text begins with a digit, all else being digits and low lines. -/
def isNumeral : List Char → Bool
  | c :: rest => isAsciiDigit c && rest.all isDigitOrLow
  | [] => false

/-- Whether a plain scalar is an integer. -/
def isYamlInt (cs : List Char) : Bool :=
  let body := afterSign cs
  (match body with
    | '0' :: 'b' :: digits => someAll isBitOrLow digits
    | '0' :: 'x' :: digits => someAll isHexOrLow digits
    | '0' :: digits => digits.all isOctalOrLow
    | _ => isPositive body) ||
  -- Parts between colons are in base sixty.
  (match splitColons body with
    | first :: part :: more => isPositive first && (part :: more).all isSixtieth
    | _ => false)

/-- Whether a text is empty or an exponent with a sign. -/
def isYamlExponent : List Char → Bool
  | [] => true
  | e :: sign :: digits =>
    (e == 'e' || e == 'E') && (sign == '+' || sign == '-') && someAll isAsciiDigit digits
  | _ => false

/-- Whether a plain scalar is a floating-point number. -/
def isYamlFloat (cs : List Char) : Bool :=
  let body := afterSign cs
  let whole := body.takeWhile (· != '.')
  match body.dropWhile (· != '.') with
  | '.' :: fraction =>
    (isNumeral whole && isYamlExponent (fraction.dropWhile isDigitOrLow)) ||
    (match splitColons whole with
      | first :: part :: more =>
        isNumeral first && (part :: more).all isSixtieth && fraction.all isDigitOrLow
      | _ => false) ||
    -- Infinity may have a sign, and what is no number may not.
    (whole.isEmpty && ["inf", "Inf", "INF"].any (·.toList == fraction)) ||
    (cs.head? == some '.' &&
      ((match fraction with
        | c :: rest => isAsciiDigit c && isYamlExponent (rest.dropWhile isDigitOrLow)
        | [] => false) ||
      ["nan", "NaN", "NAN"].any (·.toList == fraction)))
  | _ => false

/-- A date, or a date with a time of day and a clock. The fraction of the second
    is in microseconds and the clock's offset in seconds. -/
structure YamlTimestamp where
  date : Nat × Nat × Nat
  time : Option (Nat × Nat × Nat × Nat × Option Int)
deriving DecidableEq, Inhabited

/-- The number of one or two digits at the start of a text, and the rest. -/
def takeShortNumber? : List Char → Option (Nat × List Char)
  | a :: b :: rest =>
    if isAsciiDigit a then
      (if isAsciiDigit b then some (digitsValue [a, b], rest)
        else some (digitsValue [a], b :: rest))
    else none
  | [a] => if isAsciiDigit a then some (digitsValue [a], []) else none
  | [] => none

/-- The clock's offset at the end of a point in time; a text that ends before it
    has none. -/
def yamlOffset? (cs : List Char) : Option (Option Int) :=
  match cs.dropWhile fun c => c == ' ' || c == '\t' with
  | [] => if cs.isEmpty then some none else none
  | ['Z'] => some (some 0)
  | sign :: rest => do
    if sign != '+' && sign != '-' then none
    let (hours, rest) ← takeShortNumber? rest
    let (minutes, rest) ← match rest with
      -- Minutes may be left out.
      | ':' :: more => takePair? more
      | _ => some (0, rest)
    if !rest.isEmpty then none
    let offset : Int := ((hours * 60 + minutes) * 60 : Nat)
    return some (if sign = '-' then -offset else offset)

/-- The time of day and the clock, after the date. -/
def yamlTime? (cs : List Char) : Option (Nat × Nat × Nat × Nat × Option Int) := do
  let cs ← match cs with
    | 'T' :: rest => some rest
    | 't' :: rest => some rest
    | cs =>
      let rest := cs.dropWhile fun c => c == ' ' || c == '\t'
      -- Without a letter between them date and time are parted by blanks.
      if rest.length < cs.length then some rest else none
  let (hour, cs) ← takeShortNumber? cs
  let (minute, cs) ← takePair? (← afterChar? ':' cs)
  let (second, cs) ← takePair? (← afterChar? ':' cs)
  let (micro, cs) := match cs with
    | '.' :: rest =>
      (digitsValue ((rest.takeWhile isAsciiDigit ++ List.replicate 6 '0').take 6),
        rest.dropWhile isAsciiDigit)
    | cs => (0, cs)
  return (hour, minute, second, micro, ← yamlOffset? cs)

/-- The parts of a date or a point in time. A month or a day may have one digit
    only. -/
def YamlTimestamp.read? (cs : List Char) : Option YamlTimestamp := do
  let year := cs.take 4
  if !(year.length == 4 && year.all isAsciiDigit) then none
  let (month, rest) ← takeShortNumber? (← afterChar? '-' (cs.drop 4))
  let (day, rest) ← takeShortNumber? (← afterChar? '-' rest)
  if rest.isEmpty then return ⟨(digitsValue year, month, day), none⟩
  return ⟨(digitsValue year, month, day), some (← yamlTime? rest)⟩

/-- Whether a plain scalar is a date or a point in time. A date alone must have
    all its digits. -/
def isYamlTimestamp (cs : List Char) : Bool :=
  match YamlTimestamp.read? cs with
  | some ⟨_, some _⟩ => true
  | some ⟨_, none⟩ => cs.length == 10
  | none => false

def yamlTruthWords : List String :=
  ["yes", "Yes", "YES", "no", "No", "NO", "true", "True", "TRUE", "false", "False", "FALSE",
    "on", "On", "ON", "off", "Off", "OFF"]

def yamlNullWords : List String := ["~", "null", "Null", "NULL"]

/-- A text without the line break that may end it. -/
def withoutLastBreak (cs : List Char) : List Char :=
  if cs.getLast? = some '\n' then cs.dropLast else cs

/-- The tag that a text speaks for by itself, as that of a plain scalar does. A
    line break at its end makes no difference, and a lone mark of a tag or of an
    anchor stands for nothing. -/
def yamlPlainTag (text : List Char) : YamlTag :=
  let cs := withoutLastBreak text
  -- The order matters where forms overlap: an integer is no timestamp, and a float with a point
  -- is no integer.
  if text.isEmpty then .null
  else if yamlTruthWords.any (·.toList == cs) then .bool
  else if isYamlFloat cs then .float
  else if isYamlInt cs then .int
  else if cs == ['<', '<'] then .merge
  else if yamlNullWords.any (·.toList == cs) then .null
  else if isYamlTimestamp cs then .timestamp
  else if cs == ['='] then .value
  else if [['!'], ['&'], ['*']].contains cs then .other
  else .text

end Docket
