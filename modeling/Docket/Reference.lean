import Docket.Value

/-!
# Collections that refer to each other

A payload may say of a collection that it occurs in several places, one of them
perhaps within the collection itself. While such a payload is read a collection
is referred to by its number, and what it holds is kept apart; when everything
is known the references are replaced by what they stand for. A value that holds
itself has no end and stands for nothing.

## Main definitions

* `Value.unfold?`: A value with its references replaced.
-/

namespace Docket

mutual

/-- A value in which `replace` puts something in the place of each reference. -/
def Value.replaceReferences (replace : Nat → Option Value) : Value → Option Value
  | .alien (.reference n) => replace n
  | .items kind xs => (replaceInItems replace xs).map (.items kind)
  | .mapping kind entries => (replaceInEntries replace entries).map (.mapping kind)
  | .tag n v => (v.replaceReferences replace).map (.tag n)
  | v => some v

def replaceInItems (replace : Nat → Option Value) : List Value → Option (List Value)
  | [] => some []
  | v :: rest => do
    let w ← v.replaceReferences replace
    return w :: (← replaceInItems replace rest)

def replaceInEntries (replace : Nat → Option Value) :
    List (Value × Value) → Option (List (Value × Value))
  | [] => some []
  | (k, v) :: rest => do
    let k ← k.replaceReferences replace
    let v ← v.replaceReferences replace
    return (k, v) :: (← replaceInEntries replace rest)

end

/-- A value in which references are replaced by the collections of their numbers,
    at most `depth` of them one within the other. -/
def Value.unfoldWithin? (collections : Array Value) : Nat → Value → Option Value
  | 0, _ => none
  | depth + 1, v => v.replaceReferences fun n => do
    (← collections[n]?).unfoldWithin? collections depth

/-- A value with its references replaced, unless it holds itself. If it does not,
    no collection is met twice on the way down. -/
def Value.unfold? (collections : Array Value) (v : Value) : Option Value :=
  v.unfoldWithin? collections (collections.size + 1)

end Docket
