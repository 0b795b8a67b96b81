import Docket.Yaml.Token

/-!
# Composing YAML

The graph of a text's tokens. A node may have a tag and an anchor; an alias is the
node of its anchor, which begins before it. A node without a tag gets one from its
shape or, if it is plain, from its text. Where a node is left out there is an
empty one.

A text is one document. It may declare handles for tags before it begins, and
nothing but marks of its end may follow it.

Tokens are looked at no sooner than they are needed, so that of what is wrong with
the tokens and what is wrong with their text the first decides.

## Main definitions

* `YamlComposer`: What is known while tokens are composed.
* `composeNode`: The node that tokens begin with.
* `YamlGraph.ofTokens`: The graph of a document, if there is a document.
-/

namespace Docket

/-- What is known while tokens are composed: the tokens left, what handles of
    tags stand for, the nodes of anchors, and all nodes so far, the last of which
    may not be complete. -/
structure YamlComposer where
  tokens : List YamlToken
  handles : List (List Char × List Char)
  anchors : List (List Char × Nat)
  graph : YamlGraph

/-- Composing part of a document. -/
abbrev Compose := StateT YamlComposer (Except YamlFault)

namespace Compose

/-- The next token, unless the text is at fault there. -/
def peek : Compose YamlToken := do
  match (← get).tokens with
  | .broken f :: _ => throw f
  | t :: _ => return t
  | [] => return .finish

/-- Takes the next token. -/
def skip : Compose Unit := modify fun s => { s with tokens := s.tokens.tail }

/-- Fails because of a token that is out of place. -/
def refuse {α : Type} : Compose α := throw .malformed

/-- Whether the next token is one of some, which it is not taken for. -/
def isNext (ts : List YamlToken) : Compose Bool := return ts.contains (← peek)

/-- Takes the next token if it is the given one. -/
def accept (t : YamlToken) : Compose Bool := do
  if (← peek) = t then
    skip
    return true
  else return false

/-- The complete name of a tag. A lone exclamation mark is no tag. -/
def tagName (handle : Option (List Char)) (name : List Char) : Compose (Option (List Char)) := do
  match handle with
  | none => return if name = ['!'] then none else some name
  | some h =>
    match (← get).handles.find? (·.1 == h) with
    | some e => return if e.2 ++ name = ['!'] then none else some (e.2 ++ name)
    | none => throw .malformed

end Compose

/-- What stands before a node: a tag and an anchor. A node is `marked` if it has
    a tag at all, and then its tag may be told by its text. -/
structure YamlProperties where
  marked : Bool
  tag : Option (List Char)
  anchor : Option (List Char)

namespace YamlProperties

/-- The tag of a node that has a given tag if none is told. -/
def tagOr (p : YamlProperties) (t : YamlTag) : YamlTag :=
  match p.tag with
  | some name => .ofName (String.ofList name)
  | none => t

/-- The tag of a scalar. -/
def scalarTag (p : YamlProperties) (text : List Char) (plain : Bool) : YamlTag :=
  p.tagOr (if plain || p.marked then yamlPlainTag text else .text)

end YamlProperties

namespace Compose

def takeAnchor : Compose (Option (List Char)) := do
  match ← peek with
  | .anchor name => do
    skip
    return some name
  | _ => return none

def takeTag : Compose (Option (Option (List Char) × List Char)) := do
  match ← peek with
  | .tag handle name => do
    skip
    return some (handle, name)
  | _ => return none

/-- The properties that tokens begin with, in either order. -/
def properties : Compose YamlProperties := do
  let anchor ← takeAnchor
  let tag ← takeTag
  let anchor ← if anchor.isNone && tag.isSome then takeAnchor else pure anchor
  match tag with
  | none => return ⟨false, none, anchor⟩
  | some (handle, name) => return ⟨true, ← tagName handle name, anchor⟩

/-- Adds a node. -/
def add (p : YamlPoint) : Compose Nat := do
  let s ← get
  set { s with graph := s.graph.push p }
  return s.graph.size

/-- Adds a node that is not complete, and declares its anchor. -/
def begin (anchor : Option (List Char)) : Compose Nat := do
  let s ← get
  let n ← add .empty
  match anchor with
  | none => return n
  | some a =>
    -- An anchor is declared before its node is complete, so that the node can refer to itself.
    if s.anchors.any (·.1 == a) then refuse
    modify fun s => { s with anchors := (a, n) :: s.anchors }
    return n

/-- Completes a node. -/
def complete (n : Nat) (p : YamlPoint) : Compose Unit :=
  modify fun s => { s with graph := s.graph.setIfInBounds n p }

/-- The node of an alias. -/
def resolve (name : List Char) : Compose Nat := do
  match (← get).anchors.find? (·.1 == name) with
  | some (_, n) => return n
  | none => refuse

end Compose

open Compose in
mutual

/-- The node that tokens begin with. In block style it may be a block
    collection; as part of a map, also a list that is not indented. -/
def composeNode (fuel : Nat) (block indentless : Bool) : Compose Nat := do
  match fuel with
  | 0 => throw .malformed
  | fuel + 1 =>
    match ← peek with
    | .alias name =>
      skip
      resolve name
    | _ =>
      let p ← properties
      let t ← peek
      -- The number of a node is less than those of the nodes in it.
      let n ← begin p.anchor
      complete n (← composePoint fuel block indentless p t)
      return n

/-- A node that has some properties and begins with a given token. -/
def composePoint (fuel : Nat) (block indentless : Bool) (p : YamlProperties) (t : YamlToken) :
    Compose YamlPoint := do
  match fuel with
  | 0 => throw .malformed
  | fuel + 1 =>
    match t with
    | .scalar text plain =>
      skip
      return ⟨p.scalarTag text plain, .scalar text⟩
    | .openList =>
      skip
      return ⟨p.tagOr .list, .list (← composeFlowItems fuel true [])⟩
    | .openMap =>
      skip
      return ⟨p.tagOr .map, .map (← composeFlowEntries fuel true [])⟩
    | t =>
      if t = .dash ∧ indentless then
        return ⟨p.tagOr .list, .list (← composeLooseItems fuel [])⟩
      else if t = .blockList ∧ block then
        skip
        return ⟨p.tagOr .list, .list (← composeBlockItems fuel [])⟩
      else if t = .blockMap ∧ block then
        skip
        return ⟨p.tagOr .map, .map (← composeBlockEntries fuel [])⟩
      -- A node may consist of its properties alone.
      else if p.marked || p.anchor.isSome then return ⟨p.tagOr .null, .scalar []⟩
      else refuse

/-- A node, or an empty one if one of the given tokens is next. -/
def composeUnless (fuel : Nat) (block indentless : Bool) (ends : List YamlToken) :
    Compose Nat := do
  match fuel with
  | 0 => throw .malformed
  | fuel + 1 => if ← isNext ends then add .empty else composeNode fuel block indentless

/-- The items of a block list that are left, after those of `done`, which are in
    reverse. -/
def composeBlockItems (fuel : Nat) (done : List Nat) : Compose (List Nat) := do
  match fuel with
  | 0 => throw .malformed
  | fuel + 1 =>
    if ← accept .dash then
      let n ← composeUnless fuel true false [.dash, .blockEnd]
      composeBlockItems fuel (n :: done)
    else if ← accept .blockEnd then return done.reverse
    else refuse

/-- The items that are left of a list that is not indented. -/
def composeLooseItems (fuel : Nat) (done : List Nat) : Compose (List Nat) := do
  match fuel with
  | 0 => throw .malformed
  | fuel + 1 =>
    if ← accept .dash then
      let n ← composeUnless fuel true false [.dash, .key, .value, .blockEnd]
      composeLooseItems fuel (n :: done)
    else return done.reverse

/-- The value of a key, empty if there is none. -/
def composeValue (fuel : Nat) (block : Bool) (ends : List YamlToken) : Compose Nat := do
  match fuel with
  | 0 => throw .malformed
  | fuel + 1 => if ← accept .value then composeUnless fuel block block ends else add .empty

/-- The entries of a block map that are left. -/
def composeBlockEntries (fuel : Nat) (done : List (Nat × Nat)) :
    Compose (List (Nat × Nat)) := do
  match fuel with
  | 0 => throw .malformed
  | fuel + 1 =>
    if ← accept .key then
      let k ← composeUnless fuel true true [.key, .value, .blockEnd]
      let n ← composeValue fuel true [.key, .value, .blockEnd]
      composeBlockEntries fuel ((k, n) :: done)
    else if ← accept .blockEnd then return done.reverse
    else refuse

/-- The items that are left of a list in brackets. A pair in it is a map. -/
def composeFlowItems (fuel : Nat) (first : Bool) (done : List Nat) : Compose (List Nat) := do
  match fuel with
  | 0 => throw .malformed
  | fuel + 1 =>
    if ← accept .closeList then return done.reverse
    if !first then
      if !(← accept .comma) then refuse
    if ← accept .key then
      let k ← composeUnless fuel false false [.value, .comma, .closeList]
      let n ← composeValue fuel false [.comma, .closeList]
      composeFlowItems fuel false ((← add ⟨.map, .map [(k, n)]⟩) :: done)
    -- A comma may stand behind the last item, too.
    else if ← accept .closeList then return done.reverse
    else
      let n ← composeNode fuel false false
      composeFlowItems fuel false (n :: done)

/-- The entries that are left of a map in brackets. A lone node is a key. -/
def composeFlowEntries (fuel : Nat) (first : Bool) (done : List (Nat × Nat)) :
    Compose (List (Nat × Nat)) := do
  match fuel with
  | 0 => throw .malformed
  | fuel + 1 =>
    if ← accept .closeMap then return done.reverse
    if !first then
      if !(← accept .comma) then refuse
    if ← accept .key then
      let k ← composeUnless fuel false false [.value, .comma, .closeMap]
      let n ← composeValue fuel false [.comma, .closeMap]
      composeFlowEntries fuel false ((k, n) :: done)
    else if ← accept .closeMap then return done.reverse
    else
      let k ← composeNode fuel false false
      -- Its value is left out.
      composeFlowEntries fuel false ((k, ← add .empty) :: done)

end

/-- The handles that are known without being declared. -/
def knownHandles : List (List Char × List Char) :=
  [(['!'], ['!']), (['!', '!'], YamlTag.base.toList)]

namespace Compose

/-- The directives before a document. The version must be the first, and neither
    it nor a handle may be declared twice. -/
def directives : Nat → Bool → List (List Char × List Char) → Compose Unit
  | 0, _, _ => throw .malformed
  | fuel + 1, versioned, declared => do
    match ← peek with
    | .version major =>
      skip
      if versioned || major != 1 then throw .malformed
      directives fuel true declared
    | .tagHandle handle name =>
      skip
      if declared.any (·.1 == handle) then throw .malformed
      directives fuel versioned ((handle, name) :: declared)
    | .reserved =>
      skip
      directives fuel versioned declared
    -- Handles that are declared come before those that are known anyway.
    | _ => modify fun s => { s with handles := declared ++ knownHandles }

/-- Skips the marks of the end of a document. -/
def skipEnds : Compose Unit :=
  modify fun s => { s with tokens := s.tokens.dropWhile (· == .documentEnd) }

/-- Whether a document is announced by directives or its mark. -/
def atAnnouncement : Compose Bool := do
  match ← peek with
  | .version _ => return true
  | .tagHandle .. => return true
  | .reserved => return true
  | .documentStart => return true
  | _ => return false

/-- The node of an announced document, which may be empty. -/
def announced (fuel : Nat) : Compose Nat := do
  directives fuel false []
  if !(← accept .documentStart) then refuse
  if (← atAnnouncement) || (← isNext [.documentEnd, .finish]) then return ← add .empty
  composeNode fuel true false

/-- The node of the only document, if there is one. What announces another one is
    read before that is refused. -/
def document (fuel : Nat) : Compose (Option Nat) := do
  if ← accept .finish then return none
  let n ← if ← atAnnouncement then announced fuel else composeNode fuel true false
  skipEnds
  if ← accept .finish then return some n
  directives fuel false []
  refuse

end Compose

/-- The graph of a document and the node it begins with, if there is a document.
    A token takes at most four steps. -/
def YamlGraph.ofTokens (tokens : List YamlToken) :
    Except YamlFault (Option (YamlGraph × Nat)) := do
  let (root, s) ← (Compose.document (5 * tokens.length + 10)).run ⟨tokens, knownHandles, [], #[]⟩
  return root.map fun n => (s.graph, n)

end Docket
