/-!
# Classes of errors

Who handles an error does not ask for its class alone but also for the classes
that it derives from: a reader's error is caught as an error of values, and a
pipe that broke as an error of the operating system. So an error has the names
of all these classes with it. Most errors are of a class that is known by name,
and a class that is not known derives from the ordinary errors only.

## Main definitions

* `ExceptionClass`: A class of errors, with the classes that it derives from.
* `derivedClasses`: The classes that are known by name.
* `ExceptionClass.named`: The class that goes by a name.
* `ExceptionClass.isA`: Whether the errors of a class are caught under a name.
* `LibraryError`: An error that a library raises.

## Theorems

* `ExceptionClass.named_derived`: Deriving from a class goes on through the table.
-/

namespace Docket

/-- A class of errors: its name, and the names of all classes it derives from. -/
structure ExceptionClass where
  name : String
  bases : List String
deriving DecidableEq, Inhabited

/-- The classes that are known by name: each class that others derive from, with
    those that do so directly. It stands before the classes that derive from it.
    The last names of a row are those of libraries, this one included, and a name
    that another class shares with one of this library stands for the latter. -/
def derivedClasses : List (String × List String) := [
  ("BaseException", ["Exception", "BaseExceptionGroup", "GeneratorExit", "KeyboardInterrupt",
    "SystemExit"]),
  ("BaseExceptionGroup", ["ExceptionGroup"]),
  ("Exception", ["ArithmeticError", "AssertionError", "AttributeError", "BufferError", "EOFError",
    "ExceptionGroup", "ImportError", "LookupError", "MemoryError", "NameError", "OSError",
    "ReferenceError", "RuntimeError", "StopAsyncIteration", "StopIteration", "SyntaxError",
    "SystemError", "TypeError", "ValueError", "Warning", "CBORDecodeError", "InvalidStateError",
    "SearchDoError", "UnpackException", "YAMLError"]),
  ("ArithmeticError", ["FloatingPointError", "OverflowError", "ZeroDivisionError",
    "InvalidOperation"]),
  ("ImportError", ["ModuleNotFoundError"]),
  ("LookupError", ["IndexError", "KeyError"]),
  ("NameError", ["UnboundLocalError"]),
  ("OSError", ["BlockingIOError", "ChildProcessError", "ConnectionError", "FileExistsError",
    "FileNotFoundError", "InterruptedError", "IsADirectoryError", "NotADirectoryError",
    "PermissionError", "ProcessLookupError"]),
  ("ConnectionError", ["BrokenPipeError", "ConnectionAbortedError", "ConnectionRefusedError",
    "ConnectionResetError"]),
  ("RuntimeError", ["NotImplementedError", "RecursionError"]),
  ("SyntaxError", ["IndentationError"]),
  ("IndentationError", ["TabError"]),
  ("ValueError", ["UnicodeError", "JSONDecodeError", "ValidationError"]),
  ("UnicodeError", ["UnicodeDecodeError", "UnicodeEncodeError", "UnicodeTranslateError"]),
  ("Warning", ["BytesWarning", "DeprecationWarning", "EncodingWarning", "FutureWarning",
    "ImportWarning", "PendingDeprecationWarning", "ResourceWarning", "RuntimeWarning",
    "SyntaxWarning", "UnicodeWarning", "UserWarning"]),
  ("SearchDoError", ["UnsupportedValueKind", "UnsupportedEncodingKind", "UnsupportedOperation",
    "DocumentCompileError", "SerializationIOError", "DocumentParseError", "TimeoutError",
    "ActionFailedError", "IllegalStateError", "CancelledError"])]

namespace ExceptionClass

/-- The class that goes by a name. -/
def named (name : String) : ExceptionClass :=
  -- From the end on, a class is met after all that derive from it.
  let bases := derivedClasses.foldr
    (fun row found => if row.2.any (fun c => c == name || found.contains c) then row.1 :: found
      else found) []
  if bases.isEmpty && name != "BaseException" then ⟨name, ["BaseException", "Exception"]⟩
  else ⟨name, bases⟩

instance : Coe String ExceptionClass := ⟨named⟩

/-- Whether the errors of a class are caught under a name. -/
def isA (cls : ExceptionClass) (name : String) : Bool :=
  cls.name == name || cls.bases.contains name

/-- A class that goes by a name has that name. -/
@[simp] theorem named_name (name : String) : (named name).name = name := by
  simp only [named]
  split <;> rfl

/-- The table is in the order that `named` relies on: a class is caught under the name
    of the class it derives from and under all that this one is caught under. -/
theorem named_derived : ∀ row ∈ derivedClasses, ∀ name ∈ row.2,
    (named name).isA row.1 = true ∧ ∀ base ∈ (named row.1).bases, (named name).isA base = true := by
  decide +kernel

end ExceptionClass

/-- An error that a library raises, by class and text. -/
structure LibraryError where
  cls : ExceptionClass
  text : String
deriving DecidableEq, Inhabited

/-- Whether an error is caught under one of these names. -/
def LibraryError.isCaught (e : LibraryError) (names : List String) : Bool := names.any e.cls.isA

end Docket
