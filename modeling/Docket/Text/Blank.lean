import Docket.Text.Ranges

/-!
# Blank characters

Blanks are the characters that trimming removes: those that separate words or
lines in Unicode, and with them the four information separators of ASCII.

## Main definitions

* `isBlank`: Whether a character is a blank.
* `trimStart`, `trimEnd`, `trim`: Text without the blanks at its ends.
-/

namespace Docket

/-- The blank characters. -/
def blankRanges : CharRanges := [
  (0x9, 0xD), (0x1C, 0x20), (0x85, 0x85), (0xA0, 0xA0), (0x1680, 0x1680), (0x2000, 0x200A),
   (0x2028, 0x2029), (0x202F, 0x202F), (0x205F, 0x205F), (0x3000, 0x3000)]

/-- Whether trimming removes a character. -/
def isBlank (c : Char) : Bool := blankRanges.contains c

/-- Text without the blanks at its start. -/
def trimStart (cs : List Char) : List Char := cs.dropWhile isBlank

/-- Text without the blanks at its end. -/
def trimEnd (cs : List Char) : List Char := (cs.reverse.dropWhile isBlank).reverse

/-- Text without the blanks at either end. -/
def trim (cs : List Char) : List Char := trimEnd (trimStart cs)

end Docket
