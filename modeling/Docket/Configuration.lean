import Docket.Detection
import Docket.Session

/-!
# Configuration

The settings of the compiler: the encoding that is used when none is asked for,
and whether JSON is indented. Settings are kept as they were given and validated
when they are used; a change is validated before it is made, so far as it names
an encoding.

Whether a layout is wanted may be said in several ways: by truth, by zero and
one, and by a word in any letter case.

## Main definitions

* `Value.isTruthy`: Whether a value counts as true.
* `Configuration`: Valid settings.
* `configure`, `configureByName`, `configureFrom`, `Settings.seed`: Changes of the settings.
* `Run.configuration`: The settings as they are.
-/

namespace Docket

/-- Whether a leaf counts as true: zero and the empty text do not. -/
def Scalar.isTruthy : Scalar → Bool
  | null => false
  | bool b => b
  | int n _ => n != 0
  | float x _ => !(x.equal .zero)
  | text s _ => !s.isEmpty
  | date _ => true
  | datetime _ => true

/-- Whether a value counts as true: what is zero or empty does not. -/
def Value.isTruthy : Value → Bool
  | .scalar s => s.isTruthy
  | .alien (.binary _ b) => !b.isEmpty
  | .alien (.duration d) => d.toMicroseconds != 0
  | .alien (.decimal x) => !x.isZero
  | .alien (.fraction n _) => n != 0
  | .alien (.complex x y) => !(x.equal .zero && y.equal .zero)
  | .range start stop step => rangeCount start stop step != 0
  | .items _ xs => !xs.isEmpty
  | .mapping _ entries => !entries.isEmpty
  | _ => true

/-- Valid settings. -/
structure Configuration where
  encoding : Encoding
  pretty : Bool
deriving DecidableEq, Inhabited

namespace Configuration

def falseWords : List String := ["0", "off", "f", "false", "n", "no"]

def trueWords : List String := ["1", "on", "t", "true", "y", "yes"]

/-- The truth that a word stands for. -/
def truthOfWord? (s : String) : Option Bool :=
  let word := String.ofList (s.toList.map Char.toLower)
  if trueWords.contains word then some true
  else if falseWords.contains word then some false
  else none

/-- The truth that a number stands for. -/
def truthOfInt? (n : Int) : Option Bool :=
  if n = 1 then some true else if n = 0 then some false else none

/-- The truth that a value stands for. -/
def truth? : Value → Option Bool
  | .scalar (.bool b) => some b
  | .scalar (.int n _) => truthOfInt? n
  | .scalar (.float x _) => x.toInt?.bind truthOfInt?
  | .alien (.decimal x) => x.toBinary.toInt?.bind truthOfInt?
  | .alien (.fraction n d) =>
    (Binary64.ofRatio (decide (n < 0)) n.natAbs d).toInt?.bind truthOfInt?
  | .scalar (.text s _) => truthOfWord? s
  | .alien (.binary .fixed b) =>
    (decodeStrictUtf8? b).bind fun cs => truthOfWord? (String.ofList cs)
  | _ => none

/-- A setting that stands for no truth. -/
def invalid : Failure := .foreign "ValidationError" "" none

/-- Settings of the given values; what is not given is the default, and so is an
    encoding of null. -/
def make (encoding pretty : Option Value) : Except Failure Configuration := do
  let encoding ← match encoding with
    | none => pure Encoding.json
    | some (.scalar .null) => pure Encoding.json
    | some v => Encoding.ofValue v
  match pretty with
  | none => return ⟨encoding, false⟩
  | some v =>
    -- Unlike an encoding of null, a layout of null has no truth, and so it is refused.
    match truth? v with
    | some b => return ⟨encoding, b⟩
    | none => throw invalid

end Configuration

namespace Settings

/-- The settings as they are, if they are valid. What counts as false is the
    default. -/
def validate (s : Settings) : Except Failure Configuration :=
  let encoding := if s.encoding.isEmpty then Encoding.json.name else s.encoding
  let pretty := if s.pretty.isTruthy then s.pretty else .bool false
  Configuration.make (some (.text encoding)) (some pretty)

/-- Settings with a change made to them. Null changes nothing. -/
def change (s : Settings) (encoding pretty : Option Value) : Except Failure Settings := do
  let s ← match encoding with
    | none => pure s
    | some (.scalar .null) => pure s
    | some v => pure { s with encoding := (← Encoding.ofValue v).name }
  match pretty with
  | none => return s
  | some (.scalar .null) => return s
  | some v => return { s with pretty := v }

/-- The settings that texts from outside stand for, once they are found valid.
    What is missing is the default. -/
def changeFrom (s : Settings) (encoding pretty : Option String) : Except Failure Settings := do
  let pretty : Value := match pretty with
    | some text => if text.isEmpty then .bool false else .text text
    | none => .bool false
  let c ← Configuration.make (encoding.map .text) (some pretty)
  s.change (some (.text c.encoding.name)) (some (.bool c.pretty))

/-- The settings that texts from outside give the library to begin with; they
    are not looked at before they are used. -/
def seed (encoding pretty : Option String) : Settings :=
  ⟨encoding.filter (!·.isEmpty) |>.getD Encoding.json.name,
    match pretty.filter (!·.isEmpty) with
    | some text => .text text
    | none => .bool false⟩

end Settings

namespace Run

/-- The settings as they are now. -/
def configuration : Run Configuration := do MonadExcept.ofExcept (← get).settings.validate

/-- Makes a change of the settings, or none if it fails. -/
def changeSettings (f : Settings → Except Failure Settings) : Run Unit := do
  let s ← get
  let settings ← MonadExcept.ofExcept (f s.settings)
  set { s with settings := settings }

end Run

/-- Changes the settings. -/
def configure (encoding pretty : Option Value) : Run Unit :=
  Run.changeSettings (·.change encoding pretty)

/-- Changes the settings by their names. There are two names; another one is
    refused before anything is changed. -/
def configureByName (named : List (String × Value)) : Run Unit :=
  let last (name : String) := (named.reverse.find? (·.1 == name)).map (·.2)
  match named.find? fun n => n.1 != "default_encoding" && n.1 != "pretty" with
  | some (name, _) =>
    throw (.typeError ("configure() got an unexpected keyword argument '" ++ name ++ "'"))
  | none => configure (last "default_encoding") (last "pretty")

/-- Takes over the settings that texts from outside stand for. -/
def configureFrom (encoding pretty : Option String) : Run Unit :=
  Run.changeSettings (·.changeFrom encoding pretty)

end Docket
