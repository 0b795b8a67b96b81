import Docket.Key
import Docket.Reference
import Docket.Yaml.Leaf
import Docket.Yaml.Merging

/-!
# The data of YAML

What a graph stands for, by the tags of its nodes. The text of a scalar is read
as its tag says. The keys of a map must not change, so no collection can be one,
and a later entry takes the place of an earlier one of the same key.

Collections are filled in the order in which they are met, from the outside in:
what is in a collection is looked at only after all that stands beside it. So of
several faults the one that is met first on this way decides. A node that stands
in several places is looked into once, and in the end it is put into all of them.
A graph that holds itself stands for no data, unless what holds it gives way to a
later entry.

## Main definitions

* `YamlMaking`: What is known while data is made of a graph.
* `YamlGraph.data`: What a graph stands for.
-/

namespace Docket

namespace YamlGraph

/-- The text of a node: that of a scalar, or of the entry of a map that holds its
    value. -/
def textWithin? (g : YamlGraph) : Nat → Nat → Option (List Char)
  | 0, _ => none
  | depth + 1, n =>
    match (g.point n).shape with
    | .scalar text => some text
    | .list _ => none
    | .map entries => do
      let (_, v) ← entries.find? fun e => g.tag e.1 == .value
      g.textWithin? depth v

/-- What a node stands for if its tag is one of scalars. The text of a date must
    be its own. -/
def leafData (g : YamlGraph) (n : Nat) : Except YamlFault Value :=
  match (g.point n).shape, g.textWithin? (g.size + 1) n with
  | .scalar text, _ => yamlLeaf (g.tag n) text
  | _, some text => if g.tag n = .timestamp then .error .malformed else yamlLeaf (g.tag n) text
  | _, none => .error .malformed

end YamlGraph

/-- What is known while data is made of a graph: what nodes stand for, with
    collections by their numbers; what the collections hold that have been looked
    into; and the collections that have been met, in order. -/
structure YamlMaking where
  graph : YamlGraph
  values : Array (Option Value)
  contents : Array Value
  met : Array Nat

/-- Making data. -/
abbrev YamlMake := StateT YamlMaking (Except YamlFault)

namespace YamlMake

/-- What a node stands for. A collection is put off. -/
def valueOf (n : Nat) : YamlMake Value := do
  let s ← get
  match s.values[n]?.join with
  | some v => return v
  | none =>
    if (s.graph.tag n).isCollection then
      -- The value is settled before the collection is looked into, and so at most once.
      let v : Value := .alien (.reference n)
      set { s with values := s.values.setIfInBounds n (some v), met := s.met.push n }
      return v
    else
      let v ← s.graph.leafData n
      set { s with values := s.values.setIfInBounds n (some v) }
      return v

/-- Puts an entry behind others, or in the place of one of the same key. Keys are
    the same if they are one node, whatever it stands for. -/
def putEntry (node : Nat) (key v : Value) :
    List (Nat × Value × Value) → List (Nat × Value × Value)
  | [] => [(node, key, v)]
  | (m, k, w) :: rest =>
    if m = node ∨ k.sameKey key then (m, k, v) :: rest
    else (m, k, w) :: putEntry node key v rest

/-- The entries of a merged map. -/
def mapData (entries : List (Nat × Nat)) : YamlMake (List (Value × Value)) := do
  let done ← entries.foldlM (fun done e => do
    let key ← valueOf e.1
    if key.unhashable?.isSome then throw .malformed
    return putEntry e.1 key (← valueOf e.2) done) []
  return done.map (·.2)

/-- The entries of a node that must be a map, after merging it. -/
def entriesOf (n : Nat) : YamlMake (List (Nat × Nat)) := do
  let s ← get
  let (entries, g) ← (do YamlChange.merge n; YamlChange.entriesOf n).run s.graph
  set { s with graph := g }
  return entries

/-- The items of a node that must be a list. -/
def itemsOf (n : Nat) : YamlMake (List Nat) := do
  match (← get).graph.items? n with
  | some items => return items
  | none => throw .malformed

/-- The entry of a node that must be a map of one entry, as a pair. -/
def pairData (n : Nat) : YamlMake Value := do
  match (← get).graph.entries? n with
  | some [(k, v)] =>
    let key ← valueOf k
    return .items .tuple [key, ← valueOf v]
  | _ => throw .malformed

/-- What a collection holds. -/
def contentOf (n : Nat) : YamlMake Value := do
  match (← get).graph.tag n with
  | .list => return .list (← (← itemsOf n).mapM valueOf)
  | .map => return .dict (← mapData (← entriesOf n))
  | .set => return .items .set ((← mapData (← entriesOf n)).map (·.1))
  | _ => return .list (← (← itemsOf n).mapM pairData)

/-- Looks into the collections that have been met, from number `index` on. -/
def fill : Nat → Nat → YamlMake Unit
  | 0, _ => return ()
  | fuel + 1, index => do
    match (← get).met[index]? with
    | none => return ()
    | some n =>
      -- Looking into one collection may put others behind it.
      let v ← contentOf n
      modify fun s => { s with contents := s.contents.setIfInBounds n v }
      fill fuel (index + 1)

end YamlMake

/-- What a graph stands for, from one of its nodes on. No collection is met
    twice. -/
def YamlGraph.data (g : YamlGraph) (root : Nat) : Except YamlFault Value := do
  let start : YamlMaking :=
    ⟨g, Array.replicate g.size none, Array.replicate g.size .null, #[]⟩
  let (v, s) ← (do let v ← YamlMake.valueOf root; YamlMake.fill g.size 0; return v).run start
  match v.unfold? s.contents with
  | some v => return v
  | none => throw .malformed

end Docket
