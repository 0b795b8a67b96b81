import Docket.Yaml.Node
import Docket.Yaml.ScalarText

/-!
# Maps that take over entries

A map may have an entry whose key is a pair of left arrows and whose value is a
map or a list of maps. The map takes over the entries of those: they come before
its own and give way to them, and those of the last map in a list come first.
What a map takes over is itself merged before it is taken.

A map may even take over its own entries, directly or through others. This comes
to an end because the entry with the arrows is gone before anything is taken.

## Main definitions

* `YamlChange`: Changing a graph.
* `YamlChange.merge`: Merging a map.
-/

namespace Docket

/-- Changing a graph, unless something in it is out of place. -/
abbrev YamlChange := StateT YamlGraph (Except YamlFault)

/-- How many entries of maps take over others. -/
def YamlGraph.mergingEntries (g : YamlGraph) : Nat :=
  g.foldl (fun count p =>
    match p.shape with
    | .map entries => count + entries.countP fun e => g.tag e.1 == .merge
    | _ => count) 0

namespace YamlChange

/-- The entries of a node that must be a map. -/
def entriesOf (n : Nat) : YamlChange (List (Nat × Nat)) := do
  match (← get).entries? n with
  | some entries => return entries
  | none => throw .malformed

/-- Makes keys that stand for the values of their maps mere texts. -/
def keepAsText (keys : List Nat) : YamlChange Unit :=
  keys.forM fun k => modify fun g => if g.tag k = .value then g.setTag k .text else g

/-- Goes on merging a map from its entry number `index`, after what it has taken
    over so far. -/
def mergeFrom (fuel n index : Nat) (taken : List (Nat × Nat)) : YamlChange Unit := do
  match fuel with
  | 0 => throw .malformed
  | fuel + 1 =>
    let g ← get
    let entries ← entriesOf n
    let own := (entries.drop index).takeWhile fun e => g.tag e.1 != .merge
    -- A key that stands for a value is a text among entries.
    keepAsText (own.map (·.1))
    let place := index + own.length
    match entries.drop place with
    | [] => modify (·.setShape n (.map (taken ++ entries)))
    | (_, source) :: rest =>
      -- The entry is taken out first, so that a map that merges itself comes to an end.
      modify (·.setShape n (.map (entries.take place ++ rest)))
      let sources ← match (g.point source).shape with
        | .map _ => pure [source]
        | .list items => pure items
        | .scalar _ => throw .malformed
      let lent ← sources.mapM fun m => do
        mergeFrom fuel m 0 []
        entriesOf m
      -- Of several sources the first has the last word, so that it comes last.
      mergeFrom fuel n place (taken ++ lent.reverse.flatten)

/-- Merges a map. Every step but the last of a map removes an entry that takes
    over others, so no more steps follow each other than there are such entries,
    and one. -/
def merge (n : Nat) : YamlChange Unit := do
  let g ← get
  let keys := (← entriesOf n).map (·.1)
  if keys.any (g.tag · == .merge) then mergeFrom (g.mergingEntries + 1) n 0 []
  else keepAsText keys

end YamlChange

end Docket
