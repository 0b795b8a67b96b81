import Docket.Proofs.Recording.Data

/-!
# Forms

A number, a text or a name in a derived form is worth the same as in plain form. Here
everything that can hold one is put in plain form throughout: values, nodes, the
expressions, statements and bodies of a script, fields, and what a session has
recorded.

Nothing that the recorder looks at depends on forms. Values are keys or not, and one
key or two, in whatever form (`Value.sameKey_bare`), and fields are found and set by
the texts of their names (`Fields.bare_set`). So putting in plain form goes through
every operation on values.

## Main definitions

* `Value.bare`, `Node.bare`: Values and nodes in plain form.
* `Expr.bare`, `NodeExpr.bare`, `Stmt.bare`, `Body.bare`: Scripts in plain form.
* `Fields.bare`, `Session.bare`: Fields, and the fields of all blocks, in plain form.

## Theorems

* `Value.sameKey_bare`: Keys are the same in plain form.
* `setEntry_bare`, `Fields.bare_set`: Entries and fields are set in plain form.
* `Value.mapLive_bare`, `Value.expand_bare`: Blocks are written out in plain form.
* `Body.depth_bare`, `Node.depth_bare`: Bodies nest as deep as before.
-/

namespace Docket

/-- A name in plain form. -/
def Name.bare (n : Name) : Name := .ofText n.text

mutual

/-- An expression in which all leaves are in plain form. -/
def Expr.bare : Expr → Expr
  | .scalar s => .scalar s.plain
  | .items kind xs => .items kind (bareExprs xs)
  | .mapping kind entries => .mapping kind (barePairs entries)
  | .generator xs ending => .generator (bareExprs xs) ending
  | .body b => .body b.bare
  | .bodyItems b xs => .bodyItems b.bare (bareExprs xs)
  | .node n => .node n.bare
  | e => e

def bareExprs : List Expr → List Expr
  | [] => []
  | e :: rest => e.bare :: bareExprs rest

def barePairs : List (Expr × Expr) → List (Expr × Expr)
  | [] => []
  | (k, e) :: rest => (k.bare, e.bare) :: barePairs rest

def bareKeywords : List (String × Expr) → List (String × Expr)
  | [] => []
  | (name, e) :: rest => (name, e.bare) :: bareKeywords rest

/-- A node written by hand in which all leaves are in plain form. -/
def NodeExpr.bare : NodeExpr → NodeExpr
  | .scalar v kind => .scalar v.bare kind
  | .seq items => .seq (bareNodeExprs items)
  | .mapping entries => .mapping (bareNodePairs entries)
  | .nested b => .nested b.bare
  | .ofFields fields => .ofFields (bareKeywords fields)
  | .raw v => .raw v.bare

def bareNodeExprs : List NodeExpr → List NodeExpr
  | [] => []
  | n :: rest => n.bare :: bareNodeExprs rest

def bareNodePairs : List (String × NodeExpr) → List (String × NodeExpr)
  | [] => []
  | (name, n) :: rest => (name, n.bare) :: bareNodePairs rest

/-- A statement in which all leaves are in plain form. -/
def Stmt.bare : Stmt → Stmt
  | .set path v => .set path v.bare
  | .call path args keywords => .call path (bareExprs args) (bareKeywords keywords)
  | .chain calls => .chain (bareCalls calls)
  | .item key v => .item key.bare v.bare
  | .named name args keywords => .named name.bare (bareExprs args) (bareKeywords keywords)
  | .get key => .get key.bare
  | .contains key => .contains key.bare
  | .trace v => .trace v.bare
  | .attempt s => .attempt s.bare
  | .up levels s => .up levels s.bare
  | .on key s => .on key s.bare
  | s => s

def bareCalls : List (List String × List Expr × List (String × Expr)) →
    List (List String × List Expr × List (String × Expr))
  | [] => []
  | (path, args, keywords) :: rest =>
    (path, bareExprs args, bareKeywords keywords) :: bareCalls rest

def bareStmts : List Stmt → List Stmt
  | [] => []
  | s :: rest => s.bare :: bareStmts rest

/-- A body in which all leaves are in plain form. -/
def Body.bare : Body → Body
  | .mk label stmts => .mk label (bareStmts stmts)

end

mutual

/-- A value in which all leaves and names are in plain form. -/
def Value.bare : Value → Value
  | .scalar s => .scalar s.plain
  | .items kind xs => .items kind (bareItems xs)
  | .mapping kind entries => .mapping kind (bareEntries entries)
  | .generator id xs ending => .generator id (bareItems xs) ending
  | .body b => .body b.bare
  | .bodyItems b xs => .bodyItems b.bare (bareItems xs)
  | .node n => .node n.bare
  | .tag n v => .tag n v.bare
  | v => v

def bareItems : List Value → List Value
  | [] => []
  | v :: rest => v.bare :: bareItems rest

def bareEntries : List (Value × Value) → List (Value × Value)
  | [] => []
  | (k, v) :: rest => (k.bare, v.bare) :: bareEntries rest

/-- A node in which all leaves and names are in plain form. -/
def Node.bare : Node → Node
  | .scalar v kind => .scalar v.bare kind
  | .seq items => .seq (bareNodes items)
  | .mapping entries => .mapping (bareNodeEntries entries)
  | .nested b => .nested b.bare
  | .raw v => .raw v.bare

def bareNodes : List Node → List Node
  | [] => []
  | n :: rest => n.bare :: bareNodes rest

def bareNodeEntries : List (Name × Node) → List (Name × Node)
  | [] => []
  | (name, n) :: rest => (name.bare, n.bare) :: bareNodeEntries rest

end

/-- Fields in plain form. -/
def Fields.bare (fs : Fields) : Fields := fs.map fun f => (f.1.bare, f.2.bare)

/-- A session in which the fields of all blocks are in plain form. -/
def Session.bare (s : Session) : Session := { s with blocks := s.blocks.map Fields.bare }

theorem Session.bare_initial : Session.initial.bare = Session.initial := by
  rw [Session.bare, Session.initial, Array.map_empty]

/-! ## Lists -/

theorem bareItems_eq (xs : List Value) : bareItems xs = xs.map Value.bare := by
  induction xs with
  | nil => rfl
  | cons v rest ih => rw [bareItems, ih, List.map_cons]

theorem bareEntries_eq (entries : List (Value × Value)) :
    bareEntries entries = entries.map fun e => (e.1.bare, e.2.bare) := by
  induction entries with
  | nil => rfl
  | cons e rest ih => rw [bareEntries, ih, List.map_cons]

theorem length_bareItems (xs : List Value) : (bareItems xs).length = xs.length := by
  rw [bareItems_eq, List.length_map]

theorem length_bareEntries (entries : List (Value × Value)) :
    (bareEntries entries).length = entries.length := by
  rw [bareEntries_eq, List.length_map]

/-! ## Leaves and keys -/

theorem Scalar.sameKey_plain (a b : Scalar) : a.plain.sameKey b.plain = a.sameKey b := by
  cases a <;> cases b <;> rfl

theorem Value.worth?_bare (v : Value) : v.bare.worth? = v.worth? := by
  cases v with
  | scalar s => cases s <;> rfl
  | _ => rfl

theorem Alien.sameKeyAs_bare (a : Alien) (v : Value) : a.sameKeyAs v.bare = a.sameKeyAs v := by
  unfold Alien.sameKeyAs
  cases (Value.alien a).worth? with
  | some x => exact congrArg (· == some x) v.worth?_bare
  | none =>
      cases v with
      | scalar s => cases a <;> cases s <;> rfl
      | _ => rfl

mutual

theorem Value.unhashable?_bare : (v : Value) → v.bare.unhashable? = v.unhashable?
  | .scalar _ => rfl
  | .items kind xs => by cases kind <;> first | rfl | exact firstUnhashable?_bare xs
  | .mapping kind entries => by
    cases kind <;> first | rfl | exact firstUnhashableEntry?_bare entries
  | .tag _ v => v.unhashable?_bare
  | .node n => n.unhashable?_bare
  | .alien _ => rfl
  | .range .. => rfl
  | .encodings => rfl
  | .generator .. => rfl
  | .body _ => rfl
  | .bodyItems .. => rfl
  | .failure _ => rfl
  | .block _ => rfl
  | .fieldRef .. => rfl
  | .live _ => rfl

theorem firstUnhashable?_bare : (xs : List Value) →
    firstUnhashable? (bareItems xs) = firstUnhashable? xs
  | [] => rfl
  | v :: rest => by
    rw [bareItems, firstUnhashable?, firstUnhashable?, v.unhashable?_bare,
      firstUnhashable?_bare rest]

theorem firstUnhashableEntry?_bare : (entries : List (Value × Value)) →
    firstUnhashableEntry? (bareEntries entries) = firstUnhashableEntry? entries
  | [] => rfl
  | (k, v) :: rest => by
    rw [bareEntries, firstUnhashableEntry?, firstUnhashableEntry?, v.unhashable?_bare,
      firstUnhashableEntry?_bare rest]

theorem Node.unhashable?_bare : (n : Node) → n.bare.unhashable? = n.unhashable?
  | .scalar v _ => v.unhashable?_bare
  | .seq items => firstUnhashableNode?_bare items
  | .mapping entries => firstUnhashableField?_bare entries
  | .nested _ => rfl
  | .raw v => v.unhashable?_bare

theorem firstUnhashableNode?_bare : (nodes : List Node) →
    firstUnhashableNode? (bareNodes nodes) = firstUnhashableNode? nodes
  | [] => rfl
  | n :: rest => by
    rw [bareNodes, firstUnhashableNode?, firstUnhashableNode?, n.unhashable?_bare,
      firstUnhashableNode?_bare rest]

theorem firstUnhashableField?_bare : (entries : List (Name × Node)) →
    firstUnhashableField? (bareNodeEntries entries) = firstUnhashableField? entries
  | [] => rfl
  | (name, n) :: rest => by
    rw [bareNodeEntries, firstUnhashableField?, firstUnhashableField?, n.unhashable?_bare,
      firstUnhashableField?_bare rest]

end

mutual

/-- Two values are one key in whatever form. -/
theorem Value.sameKey_bare : (v w : Value) → v.bare.sameKey w.bare = v.sameKey w
  | .scalar a, w => by
    -- An alien object on the other side decides itself what it is equal to.
    cases w with
    | alien b => simpa only [Value.bare, Value.sameKey] using b.sameKeyAs_bare (.scalar a)
    | _ => simp only [Value.bare, Value.sameKey, a.sameKey_plain]
  | .items kind xs, w => by
    cases w with
    | items kind' ys =>
        cases kind <;> cases kind' <;>
          simp only [Value.bare, Value.sameKey, sameInOrder_bare xs ys, allWithin_bare xs ys,
            length_bareItems]
    | alien b => simpa only [Value.bare, Value.sameKey] using b.sameKeyAs_bare (.items kind xs)
    | _ => cases kind <;> simp only [Value.bare, Value.sameKey]
  | .mapping kind xs, w => by
    cases w with
    | mapping kind' ys =>
        cases kind <;> cases kind' <;>
          simp only [Value.bare, Value.sameKey, allEntriesWithin_bare xs ys, length_bareEntries]
    | alien b => simpa only [Value.bare, Value.sameKey] using b.sameKeyAs_bare (.mapping kind xs)
    | _ => cases kind <;> simp only [Value.bare, Value.sameKey]
  | .tag n v, w => by
    cases w with
    | alien b => simpa only [Value.bare, Value.sameKey] using b.sameKeyAs_bare (.tag n v)
    | tag m w => simp only [Value.bare, Value.sameKey, v.sameKey_bare w]
    | _ => simp only [Value.bare, Value.sameKey]
  | .alien a, w => by simpa only [Value.bare, Value.sameKey] using a.sameKeyAs_bare w
  | .node n, w => by
    cases w with
    | alien b => simpa only [Value.bare, Value.sameKey] using b.sameKeyAs_bare (.node n)
    | _ => simp only [Value.bare, Value.sameKey]
  | .generator .., w => by
    cases w with
    | alien b => simpa only [Value.bare, Value.sameKey] using b.sameKeyAs_bare (.generator ..)
    | _ => simp only [Value.bare, Value.sameKey]
  | .body .., w => by
    cases w with
    | alien b => simpa only [Value.bare, Value.sameKey] using b.sameKeyAs_bare (.body ..)
    | _ => simp only [Value.bare, Value.sameKey]
  | .bodyItems .., w => by
    cases w with
    | alien b => simpa only [Value.bare, Value.sameKey] using b.sameKeyAs_bare (.bodyItems ..)
    | _ => simp only [Value.bare, Value.sameKey]
  | .range .., w => by cases w <;> simp only [Value.bare, Value.sameKey]
  | .encodings, w => by cases w <;> simp only [Value.bare, Value.sameKey]
  | .failure .., w => by cases w <;> simp only [Value.bare, Value.sameKey]
  | .block .., w => by cases w <;> simp only [Value.bare, Value.sameKey]
  | .fieldRef .., w => by cases w <;> simp only [Value.bare, Value.sameKey]
  | .live .., w => by cases w <;> simp only [Value.bare, Value.sameKey]

theorem sameInOrder_bare : (xs ys : List Value) →
    Value.sameKey.sameInOrder (bareItems xs) (bareItems ys) = Value.sameKey.sameInOrder xs ys
  | [], ys => by cases ys <;> simp only [bareItems, Value.sameKey.sameInOrder]
  | x :: xs, ys => by
    cases ys with
    | nil => simp only [bareItems, Value.sameKey.sameInOrder]
    | cons y ys =>
        simp only [bareItems, Value.sameKey.sameInOrder, x.sameKey_bare y, sameInOrder_bare xs ys]

theorem allWithin_bare : (xs ys : List Value) →
    Value.sameKey.allWithin (bareItems xs) (bareItems ys) = Value.sameKey.allWithin xs ys
  | [], _ => by simp only [bareItems, Value.sameKey.allWithin]
  | x :: xs, ys => by
    rw [bareItems, Value.sameKey.allWithin, Value.sameKey.allWithin, allWithin_bare xs ys,
      bareItems_eq, List.any_map]
    exact congrArg (· && _) (congrArg ys.any (funext fun y => x.sameKey_bare y))

theorem allEntriesWithin_bare : (xs ys : List (Value × Value)) →
    Value.sameKey.allEntriesWithin (bareEntries xs) (bareEntries ys) =
      Value.sameKey.allEntriesWithin xs ys
  | [], _ => by simp only [bareEntries, Value.sameKey.allEntriesWithin]
  | (k, v) :: xs, ys => by
    rw [bareEntries, Value.sameKey.allEntriesWithin, Value.sameKey.allEntriesWithin,
      allEntriesWithin_bare xs ys, bareEntries_eq, List.any_map]
    refine congrArg (· && _) (congrArg ys.any (funext fun e => ?_))
    exact congr (congrArg and (k.sameKey_bare e.1)) (v.sameKey_bare e.2)

end

/-- An entry is put into a mapping in plain form. -/
theorem setEntry_bare (entries : List (Value × Value)) (key v : Value) :
    bareEntries (setEntry entries key v) = setEntry (bareEntries entries) key.bare v.bare := by
  induction entries with
  | nil => rfl
  | cons e rest ih =>
      rw [setEntry, bareEntries, setEntry, e.1.sameKey_bare key]
      split
      · rfl
      · rw [bareEntries, ih]

/-! ## Fields -/

namespace Fields

theorem bare_set (fs : Fields) (name : Name) (v : Value) :
    (fs.set name v).bare = fs.bare.set name.bare v.bare := by
  induction fs with
  | nil => rfl
  | cons f rest ih =>
      have hsame : f.1.bare.same name.bare = f.1.same name := rfl
      rw [set, show bare (f :: rest) = (f.1.bare, f.2.bare) :: bare rest from rfl, set, hsame]
      split
      · rfl
      · rw [← ih]
        rfl

theorem bare_merge (fs news : Fields) : (fs.merge news).bare = fs.bare.merge news.bare := by
  induction news generalizing fs with
  | nil => rfl
  | cons f rest ih =>
      have hstep := ih (fs.set f.1 f.2)
      rw [bare_set] at hstep
      exact hstep

theorem get?_bare (fs : Fields) (name : String) :
    fs.bare.get? name = (fs.get? name).map Value.bare := by
  unfold get? bare
  rw [List.find?_map, Option.map_map, Option.map_map]
  rfl

theorem names_bare (fs : Fields) : fs.bare.names = fs.names := by
  unfold names bare
  rw [List.map_map]
  rfl

theorem toValue_bare (fs : Fields) : fs.toValue.bare = fs.bare.toValue := by
  unfold toValue Value.dict bare
  rw [Value.bare, bareEntries_eq, List.map_map, List.map_map]
  rfl

end Fields

/-! ## Blocks -/

mutual

/-- Blocks are replaced in plain form. -/
theorem Value.mapLive_bare (f : Nat → Value) : (v : Value) →
    (v.mapLive f).bare = v.bare.mapLive fun id => (f id).bare
  | .live _ => rfl
  | .items kind xs => congrArg (Value.items kind) (mapLiveItems_bare f xs)
  | .mapping kind entries => congrArg (Value.mapping kind) (mapLiveEntries_bare f entries)
  | .generator id xs ending =>
    congrArg (Value.generator id · ending) (mapLiveItems_bare f xs)
  | .tag n v => congrArg (Value.tag n) (v.mapLive_bare f)
  | .scalar _ => rfl
  | .alien _ => rfl
  | .range .. => rfl
  | .encodings => rfl
  | .body _ => rfl
  | .bodyItems .. => rfl
  | .failure _ => rfl
  | .node _ => rfl
  | .block _ => rfl
  | .fieldRef .. => rfl

theorem mapLiveItems_bare (f : Nat → Value) : (xs : List Value) →
    bareItems (mapLiveItems f xs) = mapLiveItems (fun id => (f id).bare) (bareItems xs)
  | [] => rfl
  | v :: rest => by
    rw [mapLiveItems, bareItems, bareItems, mapLiveItems, v.mapLive_bare f,
      mapLiveItems_bare f rest]

theorem mapLiveEntries_bare (f : Nat → Value) : (entries : List (Value × Value)) →
    bareEntries (mapLiveEntries f entries) =
      mapLiveEntries (fun id => (f id).bare) (bareEntries entries)
  | [] => rfl
  | (k, v) :: rest => by
    rw [mapLiveEntries, bareEntries, bareEntries, mapLiveEntries, k.mapLive_bare f,
      v.mapLive_bare f, mapLiveEntries_bare f rest]

end

/-- Blocks are written out in plain form. -/
theorem Value.expand_bare (blocks : Array Fields) (depth : Nat) (v : Value) :
    (v.expand blocks depth).bare = v.bare.expand (blocks.map Fields.bare) depth := by
  induction depth generalizing v with
  | zero => rfl
  | succ depth ih =>
      rw [Value.expand, Value.expand, Value.mapLive_bare]
      congr 1
      funext id
      rw [Fields.toValue_bare, Array.getElem?_map]
      congr 1
      cases blocks[id]? with
      | none => rfl
      | some fs =>
          simp only [Option.getD_some, Option.map_some, Fields.bare, List.map_map]
          exact List.map_congr_left fun f _ => Prod.ext rfl (ih f.2)

/-! ## Depths -/

mutual

theorem Expr.depth_bare : (e : Expr) → e.bare.depth = e.depth
  | .items _ xs => itemsDepth_bare xs
  | .mapping _ entries => entriesDepth_bare entries
  | .generator xs _ => itemsDepth_bare xs
  | .body b => b.depth_bare
  | .bodyItems b xs => by rw [Expr.bare, Expr.depth, Expr.depth, b.depth_bare, itemsDepth_bare xs]
  | .node n => n.depth_bare
  | .scalar _ => rfl
  | .alien _ => rfl
  | .range .. => rfl
  | .encodings => rfl
  | .error _ => rfl
  | .counter _ => rfl
  | .read .. => rfl
  | .ref .. => rfl
  | .self _ => rfl

theorem itemsDepth_bare : (xs : List Expr) → itemsDepth (bareExprs xs) = itemsDepth xs
  | [] => rfl
  | e :: rest => by rw [bareExprs, itemsDepth, itemsDepth, e.depth_bare, itemsDepth_bare rest]

theorem entriesDepth_bare : (entries : List (Expr × Expr)) →
    entriesDepth (barePairs entries) = entriesDepth entries
  | [] => rfl
  | (k, e) :: rest => by
    rw [barePairs, entriesDepth, entriesDepth, k.depth_bare, e.depth_bare, entriesDepth_bare rest]

theorem fieldsDepth_bare : (fields : List (String × Expr)) →
    fieldsDepth (bareKeywords fields) = fieldsDepth fields
  | [] => rfl
  | (_, e) :: rest => by
    rw [bareKeywords, fieldsDepth, fieldsDepth, e.depth_bare, fieldsDepth_bare rest]

theorem NodeExpr.depth_bare : (n : NodeExpr) → n.bare.depth = n.depth
  | .scalar v _ => v.depth_bare
  | .seq items => nodesDepth_bare items
  | .mapping entries => nodeEntriesDepth_bare entries
  | .nested b => b.depth_bare
  | .ofFields fields => fieldsDepth_bare fields
  | .raw v => v.depth_bare

theorem nodesDepth_bare : (nodes : List NodeExpr) →
    nodesDepth (bareNodeExprs nodes) = nodesDepth nodes
  | [] => rfl
  | n :: rest => by rw [bareNodeExprs, nodesDepth, nodesDepth, n.depth_bare, nodesDepth_bare rest]

theorem nodeEntriesDepth_bare : (entries : List (String × NodeExpr)) →
    nodeEntriesDepth (bareNodePairs entries) = nodeEntriesDepth entries
  | [] => rfl
  | (_, n) :: rest => by
    rw [bareNodePairs, nodeEntriesDepth, nodeEntriesDepth, n.depth_bare, nodeEntriesDepth_bare rest]

theorem Stmt.depth_bare : (s : Stmt) → s.bare.depth = s.depth
  | .set _ v => v.depth_bare
  | .call _ args keywords => by
    rw [Stmt.bare, Stmt.depth, Stmt.depth, itemsDepth_bare args, fieldsDepth_bare keywords]
  | .chain calls => callsDepth_bare calls
  | .item key v => by rw [Stmt.bare, Stmt.depth, Stmt.depth, key.depth_bare, v.depth_bare]
  | .named name args keywords => by
    rw [Stmt.bare, Stmt.depth, Stmt.depth, name.depth_bare, itemsDepth_bare args,
      fieldsDepth_bare keywords]
  | .get key => key.depth_bare
  | .contains key => key.depth_bare
  | .trace v => v.depth_bare
  | .attempt s => s.depth_bare
  | .up _ s => s.depth_bare
  | .on _ s => s.depth_bare
  | .count => rfl
  | .show => rfl
  | .showRef _ => rfl
  | .raise _ => rfl
  | .keep _ => rfl

theorem callsDepth_bare : (calls : List (List String × List Expr × List (String × Expr))) →
    callsDepth (bareCalls calls) = callsDepth calls
  | [] => rfl
  | (path, args, keywords) :: rest => by
    rw [bareCalls, callsDepth, callsDepth, itemsDepth_bare args, fieldsDepth_bare keywords,
      callsDepth_bare rest]

theorem stmtsDepth_bare : (stmts : List Stmt) → stmtsDepth (bareStmts stmts) = stmtsDepth stmts
  | [] => rfl
  | s :: rest => by rw [bareStmts, stmtsDepth, stmtsDepth, s.depth_bare, stmtsDepth_bare rest]

/-- A body nests as deep as before. -/
theorem Body.depth_bare : (b : Body) → b.bare.depth = b.depth
  | .mk _ stmts => congrArg (· + 1) (stmtsDepth_bare stmts)

end

mutual

/-- So do the bodies in a tree. -/
theorem Node.depth_bare : (n : Node) → n.bare.depth = n.depth
  | .scalar .. => rfl
  | .seq items => nodeListDepth_bare items
  | .mapping entries => nodeFieldsDepth_bare entries
  | .nested b => b.depth_bare
  | .raw _ => rfl

theorem nodeListDepth_bare : (nodes : List Node) →
    nodeListDepth (bareNodes nodes) = nodeListDepth nodes
  | [] => rfl
  | n :: rest => by
    rw [bareNodes, nodeListDepth, nodeListDepth, n.depth_bare, nodeListDepth_bare rest]

theorem nodeFieldsDepth_bare : (entries : List (Name × Node)) →
    nodeFieldsDepth (bareNodeEntries entries) = nodeFieldsDepth entries
  | [] => rfl
  | (_, n) :: rest => by
    rw [bareNodeEntries, nodeFieldsDepth, nodeFieldsDepth, n.depth_bare, nodeFieldsDepth_bare rest]

end

end Docket
