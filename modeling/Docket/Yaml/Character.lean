import Docket.Text.Ranges

/-!
# Characters of YAML

YAML has five line breaks, of which two keep their identity when lines are
folded, and it ends a word at a blank, a tab or a break. It admits fewer
characters than Unicode has; the writer is stricter than the reader by two, the
byte order mark and the very last character, which it writes by number.

The end of a text counts as the end of a word. The functions on a text therefore
look at its first character, if it has one.

## Main definitions

* `isYamlBreak`, `isYamlBlank`: What ends a line, what ends a word.
* `isYamlReadable`, `isYamlWritable`: The characters the reader and the writer
  admit.
-/

namespace Docket

/-- The line breaks that are written as such. -/
def isYamlBreak (c : Char) : Bool :=
  c == '\n' || c == '\u0085' || c == '\u2028' || c == '\u2029'

/-- The line breaks that are read; a carriage return is always written by
    number. -/
def isYamlLineEnd (c : Char) : Bool := c == '\r' || isYamlBreak c

/-- What separates words. -/
def isYamlBlank (c : Char) : Bool :=
  c == ' ' || c == '\t' || c == '\u0000' || isYamlLineEnd c

/-- Whether a text is at the end of a word. -/
def atYamlBlank (cs : List Char) : Bool := cs.head?.all isYamlBlank

/-- Whether a text is at the end of a line or at a blank that is no tab. -/
def atYamlSpace (cs : List Char) : Bool := cs.head?.all fun c => c == ' ' || isYamlLineEnd c

/-- The characters that a text may hold. -/
def isYamlReadable (c : Char) : Bool :=
  CharRanges.contains [(0x09, 0x0A), (0x0D, 0x0D), (0x20, 0x7E), (0x85, 0x85), (0xA0, 0xD7FF),
    (0xE000, 0xFFFD), (0x10000, 0x10FFFF)] c

/-- The characters that may be written raw. -/
def isYamlWritable (c : Char) : Bool :=
  CharRanges.contains [(0x0A, 0x0A), (0x20, 0x7E), (0x85, 0x85), (0xA0, 0xD7FF), (0xE000, 0xFEFE),
    (0xFF00, 0xFFFD), (0x10000, 0x10FFFE)] c

end Docket
