import Docket.Number.Power
import Docket.Text.Coding

/-!
# Bytes as text

Bytes in the alphabet of 64 characters, three bytes to four characters, in lines
of at most 76 characters. What is left over at the end is padded to a whole
group. A reader skips characters that are not in the alphabet and stops where
the padding completes a group.

## Main definitions

* `base64Lines`: Bytes as lines of text.
* `readBase64?`: The bytes of a text.
-/

namespace Docket

/-- The character of six bits. -/
def base64Char (n : Nat) : Char :=
  if n < 26 then Char.ofNat (0x41 + n)
  else if n < 52 then Char.ofNat (0x61 + (n - 26))
  else if n < 62 then Char.ofNat (0x30 + (n - 52))
  else if n = 62 then '+'
  else '/'

/-- The six bits of a character. -/
def base64Value? (c : Char) : Option Nat :=
  if 'A' ≤ c ∧ c ≤ 'Z' then some (c.toNat - 0x41)
  else if 'a' ≤ c ∧ c ≤ 'z' then some (c.toNat - 0x61 + 26)
  else if '0' ≤ c ∧ c ≤ '9' then some (c.toNat - 0x30 + 52)
  else if c = '+' then some 62
  else if c = '/' then some 63
  else none

/-- The `k`-th group of six bits of 24. -/
def base64Part (n k : Nat) : Char := base64Char (n / 64 ^ (3 - k) % 64)

/-- Bytes in groups of four characters. -/
def base64Text : Bytes → List Char
  | a :: b :: c :: rest =>
    let n := (a.toNat * 256 + b.toNat) * 256 + c.toNat
    base64Part n 0 :: base64Part n 1 :: base64Part n 2 :: base64Part n 3 :: base64Text rest
  | [a, b] =>
    let n := (a.toNat * 256 + b.toNat) * 256
    [base64Part n 0, base64Part n 1, base64Part n 2, '=']
  | [a] =>
    -- Padding makes up for the bytes that are missing.
    let n := a.toNat * 65536
    [base64Part n 0, base64Part n 1, '=', '=']
  | [] => []

/-- A text in lines of `width` characters, each ended by a line break; `room` is
    what is left of the first. -/
def cutLines (width : Nat) : Nat → List Char → List Char
  | _, [] => ['\n']
  | 0, c :: rest => '\n' :: c :: cutLines width (width - 1) rest
  | room + 1, c :: rest => c :: cutLines width room rest

/-- Bytes as lines of text; no bytes are no lines. -/
def base64Lines (b : Bytes) : List Char :=
  if b.isEmpty then [] else cutLines 76 76 (base64Text b)

/-- The bytes of the characters left. `bits` holds the `count` characters of the
    group begun, and `pads` how much padding has followed them. -/
def readBase64From (bits count pads : Nat) : List Char → Option Bytes
  | [] => if count = 0 then some [] else none
  | c :: rest =>
    if c = '=' then
      -- Padding counts from the second character of a group on, and ends the bytes once the group
      -- is full.
      if 2 ≤ count ∧ 4 ≤ count + pads + 1 then some []
      else readBase64From bits count (if 2 ≤ count then pads + 1 else pads) rest
    else
      match base64Value? c with
      -- Other characters are skipped.
      | none => readBase64From bits count pads rest
      | some v =>
        let n := bits * 64 + v
        match count with
        | 0 => readBase64From n 1 0 rest
        | 1 => (readBase64From (n % 16) 2 0 rest).map (UInt8.ofNat (n / 16) :: ·)
        | 2 => (readBase64From (n % 4) 3 0 rest).map (UInt8.ofNat (n / 4) :: ·)
        | _ => (readBase64From 0 0 0 rest).map (UInt8.ofNat n :: ·)

/-- The bytes of a text, unless it ends within a group. -/
def readBase64? (cs : List Char) : Option Bytes := readBase64From 0 0 0 cs

end Docket
