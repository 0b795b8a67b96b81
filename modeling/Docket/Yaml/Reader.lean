import Docket.Yaml.Composition
import Docket.Yaml.Data

/-!
# Reading YAML

A YAML document as data. Bytes are decoded first, as UTF-16 if they begin with
its byte order mark and as UTF-8 otherwise; then all characters must be readable,
the tokens must make up one document, and its graph must stand for data. A text
without a document stands for null.

## Main definitions

* `readYamlText`: The data of a text.
* `readYaml`: The data of bytes.
-/

namespace Docket

/-- The data of a text. -/
def readYamlText (cs : List Char) : Except YamlFault Value :=
  if !cs.all isYamlReadable then .error .malformed
  else
    match YamlGraph.ofTokens (yamlTokens cs) with
    | .error f => .error f
    | .ok none => .ok .null
    | .ok (some (g, root)) => g.data root

/-- The text of bytes. A byte order mark is kept. -/
def decodeYamlBytes? (bytes : Bytes) : Option (List Char) :=
  match bytes with
  | 0xFF :: 0xFE :: _ => decodeStrictUtf16? false bytes
  | 0xFE :: 0xFF :: _ => decodeStrictUtf16? true bytes
  | _ => decodeStrictUtf8? bytes

/-- The data of bytes. -/
def readYaml (bytes : Bytes) : Except LibraryError Value :=
  match decodeYamlBytes? bytes with
  | none => .error YamlFault.malformed.error
  | some cs => (readYamlText cs).mapError YamlFault.error

end Docket
