/-!
# Field names

A field is often assigned by attribute, and the words that a programming
language reserves cannot be attributes. They are written with an underscore at
the end, which is not part of the field's name. An underscore after any other
word is kept.

## Main definitions

* `reservedWords`: The words that need the underscore.
* `fieldName`: The field that an attribute stands for.
-/

namespace Docket

/-- The words that cannot be attributes. -/
def reservedWords : List String :=
  ["False", "None", "True", "and", "as", "assert", "async", "await", "break", "class", "continue",
    "def", "del", "elif", "else", "except", "finally", "for", "from", "global", "if", "import",
    "in", "is", "lambda", "nonlocal", "not", "or", "pass", "raise", "return", "try", "while",
    "with", "yield"]

/-- The field that an attribute stands for. -/
def fieldName (word : String) : String :=
  match reservedWords.find? fun w => w ++ "_" == word with
  | some reserved => reserved
  | none => word

/-- Whether an attribute is private and cannot stand for a field. -/
def isPrivate (word : String) : Bool := word.startsWith "_"

end Docket
