import Docket.Proofs.Yaml.Composition
import Docket.Yaml.Leaf

/-!
# What a graph stands for

A tree stands for data if its scalars make sense for their tags and its keys are
different texts. Of a graph the same is said node by node: all nodes come before those in
them, so that no node is inside itself. What a tree stands for is shown by the graph of
its nodes.

## Main definitions

* `YamlNode.Stands`: The data that a tree stands for.
* `YamlGraph.Shows`: The data that a node of a graph stands for.

## Theorems

* `YamlNode.Stands.shows`: What a tree stands for is shown where its nodes are.
-/

namespace Docket

/-- The data that a tree stands for. Its keys are texts. -/
inductive YamlNode.Stands : YamlNode → Value → Prop
  | scalar {s : YamlScalar} {v : Scalar} (htag : s.tag.isCollection = false)
      (h : yamlLeaf s.tag s.text = .ok (.scalar v)) : YamlNode.Stands (.scalar s) (.scalar v)
  | list {ps : List (YamlNode × Value)} (h : ∀ p ∈ ps, YamlNode.Stands p.1 p.2) :
      YamlNode.Stands (.list .list (ps.map Prod.fst)) (.list (ps.map Prod.snd))
  | map {ps : List (String × YamlNode × Value)} (hnames : (ps.map Prod.fst).Nodup)
      (h : ∀ p ∈ ps, YamlNode.Stands p.2.1 p.2.2) :
      YamlNode.Stands (.map .map (ps.map fun p => (.ofText p.1, p.2.1)))
        (.dict (ps.map fun p => (.text p.1, p.2.2)))

/-- An entry of a map in a graph: the numbers of its nodes, its name, and the data of its
    value. -/
structure YamlMember where
  key : Nat
  value : Nat
  name : String
  data : Value

namespace YamlGraph

/-- The data that a node of a graph stands for, all nodes being numbered before those
    in them. -/
inductive Shows (g : YamlGraph) : Nat → Value → Prop
  | scalar {n : Nat} {tag : YamlTag} {text : List Char} {v : Scalar}
      (hpoint : g[n]? = some ⟨tag, .scalar text⟩) (htag : tag.isCollection = false)
      (h : yamlLeaf tag text = .ok (.scalar v)) : Shows g n (.scalar v)
  | list {n : Nat} {ps : List (Nat × Value)}
      (hpoint : g[n]? = some ⟨.list, .list (ps.map Prod.fst)⟩) (hlater : ∀ p ∈ ps, n < p.1)
      (h : ∀ p ∈ ps, Shows g p.1 p.2) : Shows g n (.list (ps.map Prod.snd))
  | map {n : Nat} {ps : List YamlMember}
      (hpoint : g[n]? = some ⟨.map, .map (ps.map fun p => (p.key, p.value))⟩)
      (hnames : (ps.map YamlMember.name).Nodup) (hlater : ∀ p ∈ ps, n < p.value)
      (hkeys : ∀ p ∈ ps, g[p.key]? = some ⟨.text, .scalar p.name.toList⟩)
      (h : ∀ p ∈ ps, Shows g p.value p.data) :
      Shows g n (.dict (ps.map fun p => (.text p.name, p.data)))

/-- The nodes of a list have their numbers from `start` on. -/
def Holds (g : YamlGraph) (start : Nat) (ps : List YamlPoint) : Prop :=
  ∀ i p, ps[i]? = some p → g[start + i]? = some p

theorem Holds.cons {g : YamlGraph} {start : Nat} {p : YamlPoint} {ps : List YamlPoint}
    (h : g.Holds start (p :: ps)) : g[start]? = some p ∧ g.Holds (start + 1) ps := by
  refine ⟨h 0 p rfl, fun i q hq => ?_⟩
  have := h (i + 1) q hq
  rwa [Nat.add_assoc, Nat.add_comm 1 i]

theorem Holds.append {g : YamlGraph} {start : Nat} {ps qs : List YamlPoint}
    (h : g.Holds start (ps ++ qs)) : g.Holds start ps ∧ g.Holds (start + ps.length) qs := by
  refine ⟨fun i p hp => h i p ?_, fun i q hq => ?_⟩
  · rw [List.getElem?_append_left (List.getElem?_eq_some_iff.mp hp).1]
    exact hp
  · rw [Nat.add_assoc]
    refine h _ q ?_
    rw [List.getElem?_append_right (Nat.le_add_right _ _), Nat.add_sub_cancel_left]
    exact hq

theorem holds_toArray (ps : List YamlPoint) : Holds ps.toArray 0 ps := by
  intro i p hp
  simpa using hp

variable {g : YamlGraph}

/-- The items of a list, by their numbers and what they show. -/
theorem shows_items {ps : List (YamlNode × Value)}
    (h : ∀ p ∈ ps, ∀ start, g.Holds start (p.1.points start) → g.Shows start p.2) (start : Nat)
    (hholds : g.Holds start (YamlNode.itemPoints start (ps.map Prod.fst))) :
    ∃ qs : List (Nat × Value), YamlNode.itemNumbers start (ps.map Prod.fst) = qs.map Prod.fst ∧
      ps.map Prod.snd = qs.map Prod.snd ∧ ∀ q ∈ qs, start ≤ q.1 ∧ g.Shows q.1 q.2 := by
  induction ps generalizing start with
  | nil => exact ⟨[], rfl, rfl, fun q hq => absurd hq List.not_mem_nil⟩
  | cons p rest ih =>
      rw [List.forall_mem_cons] at h
      rw [List.map_cons, YamlNode.itemPoints] at hholds
      -- The rest is numbered from behind the points of the first item.
      obtain ⟨qs, hnumbers, hvalues, hshows⟩ := ih h.2 _ hholds.append.2
      refine ⟨(start, p.2) :: qs, ?_, ?_, ?_⟩
      · rw [List.map_cons, YamlNode.itemNumbers, hnumbers, List.map_cons]
      · rw [List.map_cons, hvalues, List.map_cons]
      · rw [List.forall_mem_cons]
        exact ⟨⟨Nat.le_refl _, h.1 start hholds.append.1⟩, fun q hq =>
          ⟨Nat.le_trans (Nat.le_add_right _ _) (hshows q hq).1, (hshows q hq).2⟩⟩

/-- The entries of a map, by the numbers of their nodes and what their values show. -/
theorem shows_entries {ps : List (String × YamlNode × Value)}
    (h : ∀ p ∈ ps, ∀ start, g.Holds start (p.2.1.points start) → g.Shows start p.2.2) (start : Nat)
    (hholds : g.Holds start (YamlNode.entryPoints start (ps.map fun p => (.ofText p.1, p.2.1)))) :
    ∃ qs : List YamlMember, YamlNode.entryNumbers start (ps.map fun p => (.ofText p.1, p.2.1)) =
        qs.map (fun q => (q.key, q.value)) ∧
      ps.map Prod.fst = qs.map YamlMember.name ∧
      ps.map (fun p => (Value.text p.1, p.2.2)) = qs.map (fun q => (.text q.name, q.data)) ∧
      ∀ q ∈ qs, start ≤ q.value ∧ g[q.key]? = some ⟨.text, .scalar q.name.toList⟩ ∧
        g.Shows q.value q.data := by
  induction ps generalizing start with
  | nil => exact ⟨[], rfl, rfl, rfl, fun q hq => absurd hq List.not_mem_nil⟩
  | cons p rest ih =>
      rw [List.forall_mem_cons] at h
      rw [List.map_cons, YamlNode.entryPoints] at hholds
      -- The nodes of the key come first, then those of the value, then the other entries.
      obtain ⟨hkey, hrest⟩ := hholds.append
      obtain ⟨hvalue, hrest⟩ := hrest.append
      obtain ⟨qs, hnumbers, hnames, hvalues, hshows⟩ := ih h.2 _ hrest
      refine ⟨⟨start, start + (YamlNode.points start (.ofText p.1)).length, p.1, p.2.2⟩ :: qs,
        ?_, ?_, ?_, ?_⟩
      · rw [List.map_cons, YamlNode.entryNumbers, hnumbers, List.map_cons]
      · rw [List.map_cons, hnames, List.map_cons]
      · rw [List.map_cons, hvalues, List.map_cons]
      · rw [List.forall_mem_cons]
        refine ⟨⟨Nat.le_add_right _ _, hkey.cons.1, h.1 _ hvalue⟩, fun q hq => ?_⟩
        obtain ⟨hlater, hshown⟩ := hshows q hq
        exact ⟨Nat.le_trans (by rw [Nat.add_assoc]; exact Nat.le_add_right _ _) hlater, hshown⟩

end YamlGraph

/-- What a tree stands for is shown where its nodes are. -/
theorem YamlNode.Stands.shows {g : YamlGraph} {n : YamlNode} {v : Value} (h : n.Stands v) :
    ∀ start, g.Holds start (n.points start) → g.Shows start v := by
  induction h with
  | scalar htag h =>
      intro start hholds
      rw [points] at hholds
      exact .scalar hholds.cons.1 htag h
  | list _ ih =>
      intro start hholds
      rw [points] at hholds
      obtain ⟨qs, hnumbers, hvalues, hshows⟩ := YamlGraph.shows_items ih _ hholds.cons.2
      rw [hvalues]
      exact .list (hnumbers ▸ hholds.cons.1) (fun q hq => (hshows q hq).1)
        fun q hq => (hshows q hq).2
  | map hnames _ ih =>
      intro start hholds
      rw [points] at hholds
      obtain ⟨qs, hnumbers, hnames', hvalues, hshows⟩ :=
        YamlGraph.shows_entries ih _ hholds.cons.2
      rw [hvalues]
      exact .map (hnumbers ▸ hholds.cons.1) (hnames' ▸ hnames) (fun q hq => (hshows q hq).1)
        (fun q hq => (hshows q hq).2.1) fun q hq => (hshows q hq).2.2

end Docket
