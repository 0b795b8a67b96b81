import Docket.Yaml.Tag

/-!
# Nodes of YAML

Scalars, lists and maps, each with its tag. A scalar is a text, whatever its tag
says it means. The keys of a map are nodes too, and nothing keeps them from being
repeated.

What is written is a tree. What is read is a graph, because a node may stand in
several places, even within itself: there the nodes are numbered, and a list or
a map holds the numbers of its nodes.

## Main definitions

* `YamlScalar`: A scalar with its tag.
* `YamlNode`: The trees.
* `YamlPoint`, `YamlGraph`: The nodes of graphs, and graphs.
-/

namespace Docket

structure YamlScalar where
  tag : YamlTag
  text : List Char
deriving DecidableEq, Inhabited

inductive YamlNode where
  | scalar (s : YamlScalar)
  | list (tag : YamlTag) (items : List YamlNode)
  | map (tag : YamlTag) (entries : List (YamlNode × YamlNode))
deriving Inhabited

namespace YamlNode

def leaf (tag : YamlTag) (text : List Char) : YamlNode := .scalar ⟨tag, text⟩

def tag : YamlNode → YamlTag
  | scalar s => s.tag
  | list t _ => t
  | map t _ => t

end YamlNode

/-- What a node of a graph is, but for its tag. -/
inductive YamlShape where
  | scalar (text : List Char)
  | list (items : List Nat)
  | map (entries : List (Nat × Nat))
deriving DecidableEq

/-- A node of a graph. -/
structure YamlPoint where
  tag : YamlTag
  shape : YamlShape
deriving DecidableEq

namespace YamlPoint

/-- What stands where nothing is written. -/
def empty : YamlPoint := ⟨.null, .scalar []⟩

instance : Inhabited YamlPoint := ⟨empty⟩

end YamlPoint

/-- The nodes of a graph by their numbers. -/
abbrev YamlGraph := Array YamlPoint

namespace YamlGraph

/-- The node of a number. -/
def point (g : YamlGraph) (n : Nat) : YamlPoint := g[n]?.getD .empty

def tag (g : YamlGraph) (n : Nat) : YamlTag := (g.point n).tag

/-- The entries of a node, if it is a map. -/
def entries? (g : YamlGraph) (n : Nat) : Option (List (Nat × Nat)) :=
  match (g.point n).shape with
  | .map entries => some entries
  | _ => none

/-- The items of a node, if it is a list. -/
def items? (g : YamlGraph) (n : Nat) : Option (List Nat) :=
  match (g.point n).shape with
  | .list items => some items
  | _ => none

def setTag (g : YamlGraph) (n : Nat) (t : YamlTag) : YamlGraph :=
  g.setIfInBounds n { g.point n with tag := t }

def setShape (g : YamlGraph) (n : Nat) (s : YamlShape) : YamlGraph :=
  g.setIfInBounds n { g.point n with shape := s }

end YamlGraph

end Docket
