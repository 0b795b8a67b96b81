/-!
# Coded text

Text as bytes, in the five codings a payload may be written in. Writing always
uses UTF-8. Reading is strict: it either accounts for every byte or says which
bytes are at fault and why. Faulty bytes are counted as far as they could still
have begun a character, so that a sequence cut short is told apart from one
broken off by a foreign byte.

Surrogates have no place among characters. Where they are spelled out in the
bytes they are tolerated and read as the replacement character.

## Main definitions

* `TextCoding`: The codings.
* `CodingFault`: Which bytes do not fit, and why.
* `encodeUtf8`: A text as UTF-8.
* `decodeUtf8`, `decodeUtf16`, `decodeUtf32`: Bytes as text.
* `decodeStrictUtf8?`, `decodeStrictUtf16?`: The same for readers that tolerate
  no surrogates.
-/

namespace Docket

/-- Strings of bytes. -/
abbrev Bytes := List UInt8

inductive TextCoding where
  | utf8
  | utf16 (bigEndian : Bool)
  | utf32 (bigEndian : Bool)
deriving DecidableEq, Inhabited

namespace TextCoding

/-- The name of a coding in messages. -/
def name : TextCoding → String
  | utf8 => "utf-8"
  | utf16 false => "utf-16-le"
  | utf16 true => "utf-16-be"
  | utf32 false => "utf-32-le"
  | utf32 true => "utf-32-be"

end TextCoding

inductive CodingReason where
  | invalidStart
  | invalidContinuation
  | unexpectedEnd
  | truncated
  | outOfRange
deriving DecidableEq, Inhabited

namespace CodingReason

def text : CodingReason → String
  | invalidStart => "invalid start byte"
  | invalidContinuation => "invalid continuation byte"
  | unexpectedEnd => "unexpected end of data"
  | truncated => "truncated data"
  | outOfRange => "code point not in range(0x110000)"

end CodingReason

/-- The `count` bytes from `start` on, of which `byte` is the first, are no
    character. -/
structure CodingFault where
  coding : TextCoding
  start : Nat
  count : Nat
  byte : UInt8
  reason : CodingReason
deriving DecidableEq, Inhabited

/-- The replacement character. -/
def replacementChar : Char := Char.ofNat 0xFFFD

/-- A text as UTF-8. -/
def encodeUtf8 (cs : List Char) : Bytes := cs.flatMap String.utf8EncodeChar

/-- How a character of several bytes goes on after its first: how many bytes
    follow, and the range the first of them lies in. -/
def utf8Lead (b : UInt8) : Option (Nat × UInt8 × UInt8) :=
  if b < 0xC2 then none
  else if b < 0xE0 then some (1, 0x80, 0xBF)
  else if b = 0xE0 then some (2, 0xA0, 0xBF)
  else if b < 0xF0 then some (2, 0x80, 0xBF)
  else if b = 0xF0 then some (3, 0x90, 0xBF)
  else if b < 0xF4 then some (3, 0x80, 0xBF)
  else if b = 0xF4 then some (3, 0x80, 0x8F)
  else none

/-- Whether a byte continues a character. -/
def isTail (b : UInt8) : Bool := decide (0x80 ≤ b) && decide (b ≤ 0xBF)

/-- The six bits a continuing byte carries. -/
def tailBits (b : UInt8) : Nat := b.toNat % 64

/-- The character of a code point, or the replacement of a surrogate. -/
def charOfPoint (n : Nat) : Char := if n.isValidChar then Char.ofNat n else replacementChar

/-- The characters of bytes in UTF-8, after those of `done` and from position
    `pos` on. A surrogate spelled in three bytes counts as one character. -/
def decodeUtf8From (pos : Nat) (done : List Char) : Bytes → Except CodingFault (List Char)
  | [] => .ok done.reverse
  | b :: rest =>
    let fault (count : Nat) (reason : CodingReason) : CodingFault := ⟨.utf8, pos, count, b, reason⟩
    if b < 0x80 then decodeUtf8From (pos + 1) (Char.ofNat b.toNat :: done) rest
    else match utf8Lead b with
      | none => .error (fault 1 .invalidStart)
      | some (tails, low, high) =>
        match rest with
        | [] => .error (fault 1 .unexpectedEnd)
        | b₁ :: rest₁ =>
          if b₁ < low ∨ high < b₁ then .error (fault 1 .invalidContinuation)
          else if tails = 1 then
            decodeUtf8From (pos + 2)
              (charOfPoint (b.toNat % 32 * 64 + tailBits b₁) :: done) rest₁
          else match rest₁ with
            | [] =>
              if b = 0xED ∧ 0x9F < b₁ then .error (fault 1 .invalidContinuation)
              else .error (fault 2 .unexpectedEnd)
            | b₂ :: rest₂ =>
              if !isTail b₂ then
                .error (fault (if b = 0xED ∧ 0x9F < b₁ then 1 else 2) .invalidContinuation)
              else if tails = 2 then
                decodeUtf8From (pos + 3)
                  (charOfPoint (b.toNat % 16 * 4096 + tailBits b₁ * 64 + tailBits b₂) :: done)
                  rest₂
              else match rest₂ with
                | [] => .error (fault 3 .unexpectedEnd)
                | b₃ :: rest₃ =>
                  if !isTail b₃ then .error (fault 3 .invalidContinuation)
                  else
                    decodeUtf8From (pos + 4)
                      (charOfPoint (b.toNat % 8 * 262144 + tailBits b₁ * 4096
                        + tailBits b₂ * 64 + tailBits b₃) :: done) rest₃

/-- The text of bytes in UTF-8. -/
def decodeUtf8 (bytes : Bytes) : Except CodingFault (List Char) := decodeUtf8From 0 [] bytes

/-- Whether bytes spell a surrogate, which strict readers refuse. -/
def spellsSurrogate : Bytes → Bool
  | b :: b₁ :: rest => (b == 0xED && decide (0x9F < b₁)) || spellsSurrogate (b₁ :: rest)
  | _ => false

/-- The text of bytes in UTF-8 that spell no surrogate. -/
def decodeStrictUtf8? (bytes : Bytes) : Option (List Char) :=
  if spellsSurrogate bytes then none else (decodeUtf8 bytes).toOption

/-- A number of two bytes. -/
def pairValue (bigEndian : Bool) (a b : UInt8) : Nat :=
  if bigEndian then a.toNat * 256 + b.toNat else b.toNat * 256 + a.toNat

def isHighSurrogate (n : Nat) : Bool := decide (0xD800 ≤ n) && decide (n < 0xDC00)

def isLowSurrogate (n : Nat) : Bool := decide (0xDC00 ≤ n) && decide (n < 0xE000)

/-- The characters of bytes in UTF-16. -/
def decodeUtf16From (bigEndian : Bool) (pos : Nat) (done : List Char) :
    Bytes → Except CodingFault (List Char)
  | [] => .ok done.reverse
  | [a] => .error ⟨.utf16 bigEndian, pos, 1, a, .truncated⟩
  | a :: b :: rest =>
    let unit := pairValue bigEndian a b
    match rest with
    | c :: d :: rest' =>
      let next := pairValue bigEndian c d
      if isHighSurrogate unit && isLowSurrogate next then
        decodeUtf16From bigEndian (pos + 4)
          (Char.ofNat (0x10000 + (unit - 0xD800) * 1024 + (next - 0xDC00)) :: done) rest'
      else decodeUtf16From bigEndian (pos + 2) (charOfPoint unit :: done) (c :: d :: rest')
    | short => decodeUtf16From bigEndian (pos + 2) (charOfPoint unit :: done) short
termination_by bytes => bytes.length

/-- The text of bytes in UTF-16, the first of which stands at position `pos`. -/
def decodeUtf16 (bigEndian : Bool) (pos : Nat) (bytes : Bytes) : Except CodingFault (List Char) :=
  decodeUtf16From bigEndian pos [] bytes

/-- Whether bytes in UTF-16 hold a surrogate without its partner. -/
def holdsLoneSurrogate (bigEndian : Bool) : Bytes → Bool
  | a :: b :: rest =>
    let unit := pairValue bigEndian a b
    if isLowSurrogate unit then true
    else if isHighSurrogate unit then
      match rest with
      | c :: d :: rest' =>
        !isLowSurrogate (pairValue bigEndian c d) || holdsLoneSurrogate bigEndian rest'
      | _ => true
    else holdsLoneSurrogate bigEndian rest
  | _ => false

/-- The text of bytes in UTF-16 in which all surrogates are paired. -/
def decodeStrictUtf16? (bigEndian : Bool) (bytes : Bytes) : Option (List Char) :=
  if holdsLoneSurrogate bigEndian bytes then none else (decodeUtf16 bigEndian 0 bytes).toOption

/-- The characters of bytes in UTF-32. -/
def decodeUtf32From (bigEndian : Bool) (pos : Nat) (done : List Char) :
    Bytes → Except CodingFault (List Char)
  | [] => .ok done.reverse
  | a :: b :: c :: d :: rest =>
    let point := if bigEndian then pairValue true a b * 65536 + pairValue true c d
      else pairValue false c d * 65536 + pairValue false a b
    if 0x110000 ≤ point then .error ⟨.utf32 bigEndian, pos, 4, a, .outOfRange⟩
    else decodeUtf32From bigEndian (pos + 4) (charOfPoint point :: done) rest
  | a :: rest => .error ⟨.utf32 bigEndian, pos, rest.length + 1, a, .truncated⟩

/-- The text of bytes in UTF-32, the first of which stands at position `pos`. -/
def decodeUtf32 (bigEndian : Bool) (pos : Nat) (bytes : Bytes) : Except CodingFault (List Char) :=
  decodeUtf32From bigEndian pos [] bytes

namespace CodingFault

/-- What is said about a fault: one byte is shown, of several the positions. -/
def message (f : CodingFault) : String :=
  let subject :=
    if f.count = 1 then
      "byte 0x" ++ String.ofList ((Nat.toDigits 16 (f.byte.toNat + 256)).drop 1)
        ++ " in position " ++ toString f.start
    else "bytes in position " ++ toString f.start ++ "-" ++ toString (f.start + f.count - 1)
  "'" ++ f.coding.name ++ "' codec can't decode " ++ subject ++ ": " ++ f.reason.text

end CodingFault

end Docket
