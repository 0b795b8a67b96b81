import Docket.Cbor.Reader
import Docket.Cbor.Writer
import Docket.Detection
import Docket.Json.Reader
import Docket.Json.Writer
import Docket.MessagePack.Reader
import Docket.MessagePack.Writer
import Docket.Session
import Docket.Yaml.Reader
import Docket.Yaml.Writer

/-!
# Payloads

Data as bytes and back, in any of the encodings. Writing prepares the data first
and reports what the writer cannot write. Reading detects the encoding unless it
is given, and reports what is malformed.

Reading itself is the business of libraries. What comes of a payload when they
are what they may be is said by `RawPayload.decode`, for whatever readers there
are (`Readers`) and for whatever is handed over: bytes, or a text, which may be a
broken one that has no bytes. `Encoding.load` are the readers as far as they are
modelled, and `decode` is decoding with them.

The interpreter ends what calls itself too often, and it does so in the libraries
and in this one. Nothing here has such a limit, neither writing nor the modelled
readers: a value or payload that is nested deeply is written and read like any
other. With readers that have a limit, the error they end with is one of those
that `RawPayload.decode` lets through.

## Main definitions

* `Content.write`: Content in an encoding.
* `encode`: Data to a payload.
* `Readers`, `Encoding.load`: The readers of all encodings.
* `RawPayload.decode`, `decode`: A payload to data.
-/

namespace Docket

/-- Content in an encoding. Only JSON tells why content cannot be written, and
    only JSON has a layout. -/
def Content.write (c : Content) (e : Encoding) (layout : JsonLayout) :
    Except (Option Failure) Bytes :=
  -- The other writers only say that they have failed.
  let orFailed (b : Option Bytes) : Except (Option Failure) Bytes :=
    match b with
    | some b => .ok b
    | none => .error none
  match e with
  | .json => ((c.writeJson layout).map encodeUtf8).mapError some
  | .yaml => orFailed (c.writeYaml.map encodeUtf8)
  | .cbor => orFailed c.writeCbor
  | .msgpack => orFailed c.writeMessagePack

/-- Data as a payload. -/
def encode (v : Value) (e : Encoding) (layout : JsonLayout) : Run Bytes := do
  let c ← v.prepare
  match c.write e layout with
  | .ok b => return b
  | .error cause => do
    Run.log (.encoderFailed e cause)
    throw (.encoderFailed e cause)

/-! ## What is handed over -/

/-- A part of a text: a character, or one half of a character that is written in
    two halves. A half alone stands for no character. -/
inductive TextPart where
  | char (c : Char)
  | half (n : Fin 2048)
deriving DecidableEq

namespace TextPart

/-- The character that a part is. -/
def char? : TextPart → Option Char
  | char c => some c
  | half _ => none

def isChar (part : TextPart) : Bool := part.char?.isSome

/-- Why a text has no bytes in which halves of characters stand from `start` on. -/
def unwritable (start : Nat) : List TextPart → LibraryError
  | [half n] => ⟨"UnicodeEncodeError", "'utf-8' codec can't encode character '\\u" ++
      String.ofList (hexDigits 4 (0xD800 + n)) ++ "' in position " ++ toString start ++
      ": surrogates not allowed"⟩
  | halves => ⟨"UnicodeEncodeError", "'utf-8' codec can't encode characters in position " ++
      toString start ++ "-" ++ toString (start + (halves.length - 1)) ++
      ": surrogates not allowed"⟩

end TextPart

/-- What may be handed over to be read: bytes, or a text. -/
inductive RawPayload where
  | bytes (b : Bytes)
  | text (parts : List TextPart)

namespace RawPayload

/-- Whether the payload is given as a text. -/
def isText : RawPayload → Bool
  | bytes _ => false
  | text _ => true

/-- The bytes of a payload. A text stands for its bytes in UTF-8, if all of it are
    characters. -/
def toBytes : RawPayload → Except LibraryError Bytes
  | bytes b => .ok b
  | text parts =>
    if parts.all (·.isChar) then .ok (encodeUtf8 (parts.filterMap (·.char?)))
    else
      -- Only the first halves are told of, and those that follow them at once.
      let start := (parts.takeWhile (·.isChar)).length
      .error (TextPart.unwritable start ((parts.drop start).takeWhile (!·.isChar)))

/-- A text that is all characters stands for their bytes. -/
theorem toBytes_text (cs : List Char) :
    (text (cs.map .char)).toBytes = .ok (encodeUtf8 cs) := by
  have hall : (cs.map TextPart.char).all (·.isChar) = true :=
    List.all_eq_true.mpr fun part hpart => by
      rcases List.mem_map.mp hpart with ⟨c, -, rfl⟩
      rfl
  have hchars : (cs.map TextPart.char).filterMap (·.char?) = cs := by
    rw [List.filterMap_map]
    exact List.filterMap_some
  rw [toBytes, if_pos hall, hchars]

end RawPayload

/-- What is read as a rule: bytes, or a text that stands for its bytes in UTF-8. -/
inductive Payload where
  | bytes (b : Bytes)
  | text (s : String)

namespace Payload

def toBytes : Payload → Bytes
  | bytes b => b
  | text s => encodeUtf8 s.toList

/-- Whether the payload is given as a text. -/
def isText : Payload → Bool
  | bytes _ => false
  | text _ => true

/-- The payload as it is handed over. -/
def raw : Payload → RawPayload
  | bytes b => .bytes b
  | text s => .text (s.toList.map .char)

theorem isText_raw (p : Payload) : p.raw.isText = p.isText := by
  cases p <;> rfl

/-- Such a payload has its bytes. -/
theorem toBytes_raw (p : Payload) : p.raw.toBytes = .ok p.toBytes := by
  cases p with
  | bytes b => rfl
  | text s => exact RawPayload.toBytes_text s.toList

end Payload

/-! ## Reading -/

/-- How bytes are read in each encoding. -/
abbrev Readers := Encoding → Bytes → Except LibraryError Value

/-- The classes of the errors that say that bytes are malformed. -/
def malformedClasses : List String :=
  ["ValueError", "TypeError", "YAMLError", "CBORDecodeError", "UnpackException"]

/-- The failure that an error of a reader is reported as. Errors that do not say
    that the bytes are malformed are let through. Only JSON's are told with their
    words. -/
def Encoding.readFailure (e : Encoding) (f : LibraryError) : Failure :=
  if f.isCaught malformedClasses then
    .readerFailed e (if e = .json then some (.ofLibrary f) else none)
  else .ofLibrary f

namespace RawPayload

/-- The encoding that a payload begins like. -/
def detect (p : RawPayload) : Except Failure Encoding := do
  Encoding.detect (← p.toBytes.mapError .ofLibrary)

/-- The bytes that are read in an encoding. A text is none of a binary one, which is
    noticed before its bytes are asked for. -/
def bytesFor (p : RawPayload) (e : Encoding) : Except Failure Bytes :=
  if p.isText && e.binary then .error (.bytesNeeded e) else p.toBytes.mapError .ofLibrary

/-- The data of a payload, whose encoding is detected unless it is given. -/
def decode (readers : Readers) (p : RawPayload) (e : Option Encoding) :
    Except Failure Value := do
  let e ← match e with
    | some e => pure e
    | none => p.detect
  let bytes ← p.bytesFor e
  (readers e bytes).mapError e.readFailure

end RawPayload

namespace Encoding

/-- The readers. A binary one reports what it refuses by errors of its own class,
    CBOR's also what keeps content from being what its tag says: a pattern that is
    none, or a number that is too large. -/
def load : Readers
  | .json, bytes => readJson bytes
  | .yaml, bytes => readYaml bytes
  | .cbor, bytes => (readCbor? bytes).elim (.error ⟨"CBORDecodeError", ""⟩) .ok
  | .msgpack, bytes => (readMessagePack? bytes).elim (.error ⟨"UnpackException", ""⟩) .ok

@[simp] theorem load_json (bytes : Bytes) : load .json bytes = readJson bytes := rfl

@[simp] theorem load_yaml (bytes : Bytes) : load .yaml bytes = readYaml bytes := rfl

@[simp] theorem load_cbor (bytes : Bytes) :
    load .cbor bytes = (readCbor? bytes).elim (.error ⟨"CBORDecodeError", ""⟩) .ok := rfl

@[simp] theorem load_msgpack (bytes : Bytes) :
    load .msgpack bytes = (readMessagePack? bytes).elim (.error ⟨"UnpackException", ""⟩) .ok := rfl

/-- The data of bytes in an encoding. -/
def read (e : Encoding) (bytes : Bytes) : Except Failure Value :=
  (load e bytes).mapError e.readFailure

end Encoding

/-- The data of a payload, whose encoding is detected unless it is given. -/
def decode (p : Payload) (e : Option Encoding) : Except Failure Value :=
  p.raw.decode Encoding.load e

/-- A payload in a given encoding is read, unless it is a text and has to be bytes. -/
theorem decode_some (p : Payload) (e : Encoding) :
    decode p (some e) =
      if p.isText && e.binary then .error (.bytesNeeded e) else e.read p.toBytes := by
  change ((p.raw.bytesFor e).bind fun bytes => e.read bytes) = _
  rw [RawPayload.bytesFor, p.isText_raw, p.toBytes_raw]
  split <;> rfl

theorem decode_bytes (bytes : Bytes) (e : Encoding) :
    decode (.bytes bytes) (some e) = e.read bytes :=
  decode_some (.bytes bytes) e

/-- What a reader gives is the data. -/
theorem decode_of_load {bytes : Bytes} {e : Encoding} {v : Value} (h : e.load bytes = .ok v) :
    decode (.bytes bytes) (some e) = .ok v := by
  rw [decode_bytes, Encoding.read, h]
  rfl

end Docket
