import Docket.Calendar.DateTime
import Docket.Value
import Docket.Yaml.Base64
import Docket.Yaml.ScalarText

/-!
# The data of YAML scalars

What the text of a scalar stands for, by its tag. A text that its tag makes no
sense of is a fault, and so is a tag without a meaning for scalars.

## Main definitions

* `yamlInt`, `yamlFloat`, `yamlBool`, `yamlTimestamp`, `yamlBytes`: What texts
  stand for under one tag each.
* `yamlLeaf`: What a text stands for under a tag.
-/

namespace Docket

/-- The number that parts in counts of sixty make up. -/
def sixtieths (parts : List Int) : Int := parts.foldl (fun n p => n * 60 + p) 0

/-- A text without low lines. -/
def withoutLows (cs : List Char) : List Char := cs.filter (· != '_')

/-- The integer of a text that begins with no sign. -/
def yamlMagnitude (cs : List Char) : Except YamlFault Int :=
  let orMalformed (n : Option Int) : Except YamlFault Int :=
    match n with
    | some n => .ok n
    | none => .error .malformed
  match cs with
  | [] => .error .emptyNumber
  | ['0'] => .ok 0
  | '0' :: 'b' :: digits => orMalformed (readInteger? 2 digits)
  | '0' :: 'x' :: digits => orMalformed (readInteger? 16 digits)
  -- A zero at the front means base eight, in which digits beyond seven are refused.
  | '0' :: digits => orMalformed (readInteger? 8 ('0' :: digits))
  | cs =>
    if cs.contains ':' then
      orMalformed (((splitColons cs).mapM (readInteger? 10)).map sixtieths)
    else orMalformed (readInteger? 10 cs)

/-- The integer of a text. -/
def yamlInt (cs : List Char) : Except YamlFault Int :=
  match withoutLows cs with
  | [] => .error .emptyNumber
  | '-' :: rest => (yamlMagnitude rest).map fun n => -n
  | '+' :: rest => yamlMagnitude rest
  | cs => yamlMagnitude cs

/-- The sum of parts in counts of sixty, the last of which is `base` times as
    much as it says, after that of `total`. -/
def sumSixtieths (total : Binary64) (base : Nat) : List Binary64 → Except YamlFault Binary64
  | [] => .ok total
  | x :: rest =>
    match Binary64.ofInt? base with
    | none => .error .tooManyParts
    | some b => sumSixtieths (total.add (x.mul b)) (base * 60) rest

/-- The floating-point number of a text that begins with no sign. -/
def yamlFloatMagnitude (cs : List Char) : Except YamlFault Binary64 :=
  if cs = ".inf".toList then .ok (.infinity false)
  else if cs = ".nan".toList then .ok .nan
  else if cs.contains ':' then
    match (splitColons cs).mapM readFloat? with
    | none => .error .malformed
    -- The last part is worth its own value, and those before it sixty times as much as the next.
    | some parts => sumSixtieths .zero 1 parts.reverse
  else
    match readFloat? cs with
    | none => .error .malformed
    | some x => .ok x

/-- The floating-point number of a text. -/
def yamlFloat (cs : List Char) : Except YamlFault Binary64 :=
  match lower (withoutLows cs) with
  | [] => .error .emptyNumber
  | '-' :: rest => (yamlFloatMagnitude rest).map Binary64.neg
  | '+' :: rest => yamlFloatMagnitude rest
  | cs => yamlFloatMagnitude cs

/-- The truth of a word. -/
def yamlBool (cs : List Char) : Except YamlFault Bool :=
  let word := String.ofList (lower cs)
  if ["yes", "true", "on"].contains word then .ok true
  else if ["no", "false", "off"].contains word then .ok false
  else .error (.unknownWord word)

/-- The date or the point in time of a text, which may end with a line break. -/
def yamlTimestamp (cs : List Char) : Except YamlFault Scalar :=
  match YamlTimestamp.read? (withoutLastBreak cs) with
  | none => .error .noTimestamp
  | some ⟨(year, month, day), time⟩ =>
    let date : Date := ⟨year, month, day⟩
    -- The form alone does not tell that the day exists.
    if ¬ date.Valid then .error .malformed
    else
      match time with
      | none => .ok (.date date)
      | some (hour, minute, second, micro, offset) =>
        if hour < 24 ∧ minute < 60 ∧ second < 60 ∧
            offset.all (·.natAbs < DateTime.secondsPerDay) then
          .ok (.datetime ⟨date, hour, minute, second, micro, offset⟩)
        else .error .malformed

/-- The bytes of a text. -/
def yamlBytes (cs : List Char) : Except YamlFault Bytes :=
  if cs.any (0x80 ≤ ·.toNat) then .error .malformed
  else
    match readBase64? cs with
    | some b => .ok b
    | none => .error .malformed

/-- What a text stands for under a tag of scalars. -/
def yamlLeaf (tag : YamlTag) (cs : List Char) : Except YamlFault Value :=
  match tag with
  | .null => .ok .null
  | .bool => (yamlBool cs).map .bool
  | .int => (yamlInt cs).map .int
  | .float => (yamlFloat cs).map .float
  | .bytes => (yamlBytes cs).map .bytes
  | .timestamp => (yamlTimestamp cs).map .scalar
  | .text => .ok (.text (String.ofList cs))
  | _ => .error .malformed

end Docket
