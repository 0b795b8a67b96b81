import Docket.Failure
import Docket.Text.Coding

/-!
# Telling encodings apart

Which encoding a payload is in, from its first bytes alone. A document is a map,
so a binary document begins with the head of a map, and the heads that the two
binary encodings have for maps do not overlap. A text document begins, after a
byte order mark and blanks, with a bracket or with the mark of a YAML document.

## Main definitions

* `Encoding.detect?`: The encoding of a payload.
* `Encoding.detect`: The same, or why there is none.
-/

namespace Docket

/-- The bytes of a byte order mark, which are skipped in any order. -/
def isMarkByte (b : UInt8) : Bool := b == 0xEF || b == 0xBB || b == 0xBF

/-- The blanks of ASCII. -/
def isBlankByte (b : UInt8) : Bool := b == 0x20 || (0x09 ≤ b && b ≤ 0x0D)

/-- What a text is told by: what follows byte order marks and then blanks. -/
def textStart (bytes : Bytes) : Bytes := (bytes.dropWhile isMarkByte).dropWhile isBlankByte

/-- Whether bytes begin like a CBOR map, or with the mark that CBOR follows. -/
def startsCbor : Bytes → Bool
  | 0xD9 :: 0xD9 :: 0xF7 :: _ => true
  | b :: _ => 0xA0 ≤ b && b ≤ 0xBF
  | [] => false

/-- Whether bytes begin like a MessagePack map. -/
def startsMessagePack : Bytes → Bool
  | b :: _ => (0x80 ≤ b && b ≤ 0x8F) || b == 0xDE || b == 0xDF
  | [] => false

/-- Whether bytes begin like a JSON object or array. -/
def startsJson (bytes : Bytes) : Bool :=
  match textStart bytes with
  | b :: _ => b == 0x7B || b == 0x5B
  | [] => false

/-- Whether bytes begin like a YAML document. -/
def startsYaml (bytes : Bytes) : Bool :=
  [0x2D, 0x2D, 0x2D].isPrefixOf (textStart bytes)

namespace Encoding

/-- The encoding of a payload, if its first bytes tell. -/
def detect? (bytes : Bytes) : Option Encoding :=
  if startsCbor bytes then some .cbor
  else if startsMessagePack bytes then some .msgpack
  else if startsJson bytes then some .json
  else if startsYaml bytes then some .yaml
  else none

/-- The encoding of a payload. A payload that does not tell is shown by its
    start. -/
def detect (bytes : Bytes) : Except Failure Encoding :=
  match detect? bytes with
  | some e => .ok e
  | none => .error (.undetected (bytes.take 8))

/-- The encoding that a value asks for: one of the encodings themselves, or a
    text that names one. -/
def ofValue (v : Value) : Except Failure Encoding :=
  match v with
  | .scalar (.text _ (.encoding e)) => .ok e
  | .scalar (.text s _) =>
    match ofName? s with
    | some e => .ok e
    | none => .error (.unknownEncoding v)
  | v => .error (.unknownEncoding v)

end Encoding

end Docket
