import Docket.Text.Blank
import Docket.Text.Lower

/-!
# Encodings

The four encodings a document can be written in. Each has a name and one or
more media types; the first media type is the canonical one. Two encodings are
text and two are binary, and a binary document cannot be shown as text.

An encoding is asked for by its name or by one of its media types, in any
letter case, with blanks around it and with parameters after a semicolon.

## Main definitions

* `Encoding`: The encodings.
* `Encoding.ofName?`: The encoding a text asks for.
-/

namespace Docket

inductive Encoding where
  | json
  | yaml
  | cbor
  | msgpack
deriving DecidableEq, Inhabited

namespace Encoding

/-- The encodings in the order in which they are listed and tried. -/
def all : List Encoding := [json, yaml, cbor, msgpack]

def name : Encoding → String
  | json => "json"
  | yaml => "yaml"
  | cbor => "cbor"
  | msgpack => "msgpack"

/-- The name an encoding has among the encodings. -/
def memberName (e : Encoding) : String := "Encoding." ++ e.name.map Char.toUpper

def mediaTypes : Encoding → List String
  | json => ["application/json", "text/json"]
  | yaml => ["application/yaml", "application/x-yaml", "text/yaml"]
  | cbor => ["application/cbor"]
  | msgpack => ["application/x-msgpack", "application/msgpack", "application/vnd.msgpack"]

/-- The canonical media type. -/
def mediaType : Encoding → String
  | json => "application/json"
  | yaml => "application/yaml"
  | cbor => "application/cbor"
  | msgpack => "application/x-msgpack"

/-- Whether a document in this encoding is bytes that are not text. -/
def binary : Encoding → Bool
  | json => false
  | yaml => false
  | cbor => true
  | msgpack => true

/-- Whether an encoding goes by the given name. -/
def hasName (e : Encoding) (name : List Char) : Bool :=
  (e.name :: e.mediaTypes).any fun n => n.toList == name

/-- What is compared with the names: the text up to the first semicolon,
    without blanks around it, in lower case. -/
def normalName (s : String) : List Char :=
  lower (trim (s.toList.takeWhile (· != ';')))

/-- The encoding a text asks for. -/
def ofName? (s : String) : Option Encoding :=
  let name := normalName s
  all.find? (·.hasName name)

end Encoding

end Docket
