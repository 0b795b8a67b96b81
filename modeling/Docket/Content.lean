import Docket.Failure
import Docket.Number.Literal

/-!
# Document content

What the writers write: data in which dates have become texts and nothing is
left that has no written form. Preparing data for the writers does no more than
that; numbers and texts keep the form they were offered in, and the keys of
mappings are left as they are, because content may be handed to the writers
without having been compiled.

## Main definitions

* `Content`: Prepared data.
* `Value.prepare`: The content of data.
-/

namespace Docket

inductive Content where
  | null
  | bool (b : Bool)
  | int (n : Int) (form : NumberForm)
  | float (x : Binary64) (form : NumberForm)
  | text (s : String) (form : TextForm)
  | list (items : List Content)
  | map (entries : List (Value × Content))
deriving Inhabited

namespace Scalar

/-- The content of a leaf: dates and points in time are written out, the latter
    on the universal clock if they are aware. -/
def prepare : Scalar → Except Failure Content
  | null => .ok .null
  | bool b => .ok (.bool b)
  | int n form => .ok (.int n form)
  | float x form => .ok (.float x form)
  | text s form => .ok (.text s form)
  | date d => .ok (.text d.text .plain)
  | datetime t =>
    match t.text? with
    | some s => .ok (.text s .plain)
    -- On the universal clock the point in time may lie before the first year, or behind the last.
    | none => .error (.overflow "date value out of range")

end Scalar

mutual

/-- The content of data. -/
def Value.prepare : Value → Except Failure Content
  | .scalar s => s.prepare
  | .items .list xs => return .list (← prepareItems xs)
  | .mapping .plain entries => return .map (← prepareEntries entries)
  | .mapping .ordered entries => return .map (← prepareEntries entries)
  | v => .error (.refuse .unwritable v none)

def prepareItems : List Value → Except Failure (List Content)
  | [] => return []
  | v :: rest => do
    let c ← v.prepare
    return c :: (← prepareItems rest)

def prepareEntries : List (Value × Value) → Except Failure (List (Value × Content))
  | [] => return []
  | (k, v) :: rest => do
    let c ← v.prepare
    return (k, c) :: (← prepareEntries rest)

end

/-- What is said of an integer that is too long. -/
def digitLimitMessage (detail : String) : String :=
  "Exceeds the limit (" ++ toString maxDigits ++ " digits) for integer string conversion" ++
    detail ++ "; use sys.set_int_max_str_digits() to increase the limit"

/-- The decimal digits of an integer, unless there are too many. -/
def intText? (n : Int) : Option (List Char) :=
  if n.natAbs < 10 ^ maxDigits then some (toString n).toList else none

end Docket
