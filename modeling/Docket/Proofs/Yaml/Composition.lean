import Docket.Proofs.Yaml.Tokens
import Docket.Yaml.Composition

/-!
# Composing nodes

The tokens of a tree are composed into a graph whose nodes are those of the tree. A node
gets its number before the nodes in it, and is put in its place once they are known, so
the numbers of nodes grow on the way down.

Rounds are counted against the tokens that are left. Four for each token are enough, as
no more than three are spent between a token and the next.

## Main definitions

* `Gives`: Work that gives a result and leaves a state.
* `YamlNode.points`: The nodes of a tree, as a graph numbers them.
* `YamlNode.Composes`: The tokens of a node are composed.

## Theorems

* `YamlNode.Survives.composes`: Nodes that survive are composed from their tokens.
* `YamlNode.ofTokens_tokens`: The graph of a document.
-/

namespace Docket

section

variable {ε σ α β : Type}

/-- Work begun in `s` gives `a` and leaves `s'`. -/
def Gives (p : StateT σ (Except ε) α) (s : σ) (a : α) (s' : σ) : Prop := p.run s = .ok (a, s')

theorem Gives.bind {p : StateT σ (Except ε) α} {f : α → StateT σ (Except ε) β} {s s₁ s₂ : σ}
    {a : α} {b : β} (hp : Gives p s a s₁) (hf : Gives (f a) s₁ b s₂) : Gives (p >>= f) s b s₂ := by
  unfold Gives at *
  rw [StateT.run_bind, hp]
  exact hf

theorem gives_get (s : σ) : Gives (get : StateT σ (Except ε) σ) s s s := rfl

theorem gives_pure (a : α) (s : σ) : Gives (pure a : StateT σ (Except ε) α) s a s := rfl

end

/-- Whether a token is no fault. -/
def YamlToken.isSound : YamlToken → Bool
  | .broken _ => false
  | _ => true

namespace Compose

variable {t : YamlToken} {ts : List YamlToken} {h : List (List Char × List Char)}
  {an : List (List Char × Nat)} {g : YamlGraph}

theorem gives_peek (ht : t.isSound = true) :
    Gives peek ⟨t :: ts, h, an, g⟩ t ⟨t :: ts, h, an, g⟩ := by
  cases t <;> first | rfl | exact absurd ht Bool.false_ne_true

theorem gives_skip : Gives skip ⟨t :: ts, h, an, g⟩ () ⟨ts, h, an, g⟩ := rfl

/-- A token is taken if it is the one that may come. -/
theorem gives_accept (ht : t.isSound = true) :
    Gives (accept t) ⟨t :: ts, h, an, g⟩ true ⟨ts, h, an, g⟩ := by
  refine (gives_peek ht).bind ?_
  rw [if_pos rfl]
  exact gives_skip.bind (gives_pure _ _)

theorem gives_accept_not (ht : t.isSound = true) {u : YamlToken} (hne : t ≠ u) :
    Gives (accept u) ⟨t :: ts, h, an, g⟩ false ⟨t :: ts, h, an, g⟩ := by
  refine (gives_peek ht).bind ?_
  rw [if_neg hne]
  exact gives_pure _ _

theorem gives_isNext (ht : t.isSound = true) (us : List YamlToken) :
    Gives (isNext us) ⟨t :: ts, h, an, g⟩ (us.contains t) ⟨t :: ts, h, an, g⟩ :=
  (gives_peek ht).bind (gives_pure _ _)

theorem gives_begin : Gives (begin none) ⟨ts, h, an, g⟩ g.size ⟨ts, h, an, g.push .empty⟩ := rfl

theorem gives_complete (n : Nat) (p : YamlPoint) :
    Gives (complete n p) ⟨ts, h, an, g⟩ () ⟨ts, h, an, g.setIfInBounds n p⟩ := rfl

/-- Whether a token begins a node without properties. -/
def BeginsNode : YamlToken → Prop
  | .scalar .. | .openList | .openMap | .blockList | .blockMap | .dash => True
  | _ => False

theorem BeginsNode.sound (ht : BeginsNode t) : t.isSound = true := by
  cases t <;> first | rfl | exact ht.elim

theorem gives_properties (ht : BeginsNode t) :
    Gives properties ⟨t :: ts, h, an, g⟩ ⟨false, none, none⟩ ⟨t :: ts, h, an, g⟩ := by
  have hanchor : Gives takeAnchor ⟨t :: ts, h, an, g⟩ none ⟨t :: ts, h, an, g⟩ := by
    refine (gives_peek ht.sound).bind ?_
    cases t <;> first | exact gives_pure _ _ | exact ht.elim
  have htag : Gives takeTag ⟨t :: ts, h, an, g⟩ none ⟨t :: ts, h, an, g⟩ := by
    refine (gives_peek ht.sound).bind ?_
    cases t <;> first | exact gives_pure _ _ | exact ht.elim
  exact hanchor.bind (htag.bind rfl)

/-- What begins a node announces no document. -/
theorem gives_atAnnouncement (ht : BeginsNode t) :
    Gives atAnnouncement ⟨t :: ts, h, an, g⟩ false ⟨t :: ts, h, an, g⟩ := by
  refine (gives_peek ht.sound).bind ?_
  cases t <;> first | exact gives_pure _ _ | exact ht.elim

theorem gives_directives (fuel : Nat) :
    Gives (directives (fuel + 1) false []) ⟨.documentStart :: ts, h, an, g⟩ ()
      ⟨.documentStart :: ts, knownHandles, an, g⟩ := rfl

/-- A node without properties begins with a token of its own. -/
theorem gives_node {fuel : Nat} {block loose : Bool} {p : YamlPoint} {ts' : List YamlToken}
    {g' : YamlGraph} (ht : BeginsNode t)
    (hpoint : Gives (composePoint fuel block loose ⟨false, none, none⟩ t)
      ⟨t :: ts, h, an, g.push .empty⟩ p ⟨ts', h, an, g'⟩) :
    Gives (composeNode (fuel + 1) block loose) ⟨t :: ts, h, an, g⟩ g.size
      ⟨ts', h, an, g'.setIfInBounds g.size p⟩ := by
  rw [composeNode]
  refine (gives_peek ht.sound).bind ?_
  -- Stated for any token, as the reader goes on alike for all but an alias.
  have hrest : Gives (do
      let p ← properties
      let t ← peek
      let n ← begin p.anchor
      complete n (← composePoint fuel block loose p t)
      return n) ⟨t :: ts, h, an, g⟩ g.size ⟨ts', h, an, g'.setIfInBounds g.size p⟩ :=
    (gives_properties ht).bind ((gives_peek ht.sound).bind (gives_begin.bind (hpoint.bind
      ((gives_complete _ _).bind (gives_pure _ _)))))
  cases t <;> first | exact hrest | exact ht.elim

end Compose

namespace YamlNode

mutual

/-- The nodes of a tree, numbered from `start` on. -/
def points (start : Nat) : YamlNode → List YamlPoint
  | .scalar s => [⟨s.tag, .scalar s.text⟩]
  | .list tag items => ⟨tag, .list (itemNumbers (start + 1) items)⟩ :: itemPoints (start + 1) items
  | .map tag entries =>
    ⟨tag, .map (entryNumbers (start + 1) entries)⟩ :: entryPoints (start + 1) entries

def itemPoints (start : Nat) : List YamlNode → List YamlPoint
  | [] => []
  | n :: rest => n.points start ++ itemPoints (start + (n.points start).length) rest

/-- The numbers of items. -/
def itemNumbers (start : Nat) : List YamlNode → List Nat
  | [] => []
  | n :: rest => start :: itemNumbers (start + (n.points start).length) rest

def entryPoints (start : Nat) : List (YamlNode × YamlNode) → List YamlPoint
  | [] => []
  | (k, n) :: rest =>
    let value := start + (k.points start).length
    k.points start ++ (n.points value ++ entryPoints (value + (n.points value).length) rest)

/-- The numbers of keys and values. -/
def entryNumbers (start : Nat) : List (YamlNode × YamlNode) → List (Nat × Nat)
  | [] => []
  | (k, n) :: rest =>
    let value := start + (k.points start).length
    (start, value) :: entryNumbers (value + (n.points value).length) rest

end

open Compose

/-- The first token of a node. Nothing ends there but a list that is not indented. -/
theorem tokens_eq (n : YamlNode) (loose : Bool) :
    ∃ t ts, n.tokens loose = t :: ts ∧ BeginsNode t ∧ t ≠ .key ∧ t ≠ .value ∧ t ≠ .blockEnd ∧
      (loose = false → t ≠ .dash) := by
  cases n with
  | scalar s => exact ⟨.scalar _ _, [], by rw [tokens], trivial, by simp⟩
  | list tag items =>
      cases items with
      | nil => exact ⟨.openList, [.closeList], by rw [tokens], trivial, by simp⟩
      | cons n items =>
          rw [tokens.eq_4 loose tag _ (List.cons_ne_nil _ _)]
          cases loose with
          | false => exact ⟨.blockList, _, rfl, trivial, by simp⟩
          -- A list that is not indented has no opening of its own.
          | true => exact ⟨.dash, _, by rw [if_pos rfl, itemTokens], trivial, by simp⟩
  | map tag entries =>
      cases entries with
      | nil => exact ⟨.openMap, [.closeMap], by rw [tokens], trivial, by simp⟩
      | cons e entries =>
          exact ⟨.blockMap, _, by rw [tokens.eq_5 loose tag _ (List.cons_ne_nil _ _)], trivial,
            by simp⟩

/-- What follows a list that is not indented. -/
def EndsLoose (ts : List YamlToken) : Prop :=
  ∃ t rest, ts = t :: rest ∧ t.isSound = true ∧ t ≠ .dash

/-- The node that a tree's tokens begin with is composed, and all nodes in it. -/
def Composes (n : YamlNode) : Prop :=
  ∀ (fuel : Nat) (loose indentless : Bool) (ts : List YamlToken)
    (h : List (List Char × List Char)) (g : YamlGraph),
    4 * (n.tokens loose).length + 3 ≤ fuel →
    (loose = true → indentless = true ∧ EndsLoose ts) →
    Gives (composeNode fuel true indentless) ⟨n.tokens loose ++ ts, h, [], g⟩ g.size
      ⟨ts, h, [], g ++ (n.points g.size).toArray⟩

/-- A node that is not left out. -/
theorem Composes.unless {n : YamlNode} (hn : n.Composes) (fuel : Nat) (loose indentless : Bool)
    (us : List YamlToken) (ts : List YamlToken) (h : List (List Char × List Char)) (g : YamlGraph)
    (hfuel : 4 * (n.tokens loose).length + 3 ≤ fuel)
    (hloose : loose = true → indentless = true ∧ EndsLoose ts)
    (hus : ∀ u ∈ us, u = .key ∨ u = .value ∨ u = .blockEnd ∨ (loose = false ∧ u = .dash)) :
    Gives (composeUnless (fuel + 1) true indentless us) ⟨n.tokens loose ++ ts, h, [], g⟩ g.size
      ⟨ts, h, [], g ++ (n.points g.size).toArray⟩ := by
  have hnode := hn fuel loose indentless ts h g hfuel hloose
  obtain ⟨t, rest, htokens, hbegins, hkey, hvalue, hend, hdash⟩ := n.tokens_eq loose
  rw [htokens, List.cons_append] at hnode ⊢
  rw [composeUnless]
  refine (gives_isNext hbegins.sound us).bind ?_
  -- A node begins with none of the tokens by which one is left out.
  have hnot : us.contains t = false := by
    rw [List.contains_eq_mem, decide_eq_false_iff_not]
    intro hmem
    rcases hus t hmem with h | h | h | ⟨hloose, h⟩
    · exact hkey h
    · exact hvalue h
    · exact hend h
    · exact hdash hloose h
  rw [hnot]
  exact hnode

theorem append_points (g : YamlGraph) (xs ys : List YamlPoint) :
    g ++ xs.toArray ++ ys.toArray = g ++ (xs ++ ys).toArray := by
  simp

theorem size_append_points (g : YamlGraph) (xs : List YamlPoint) :
    (g ++ xs.toArray).size = g.size + xs.length := by
  simp

/-- A node is put in its place once the nodes in it are known. -/
theorem setIfInBounds_points (g : YamlGraph) (p q : YamlPoint) (xs : List YamlPoint) :
    (g.push q ++ xs.toArray).setIfInBounds g.size p = g ++ (p :: xs).toArray := by
  apply Array.toList_inj.mp
  simp

section

variable {items : List YamlNode} {entries : List (YamlNode × YamlNode)}

/-- The items of a block list are composed. -/
theorem composes_blockItems (hitems : ∀ n ∈ items, n.Composes) :
    ∀ (fuel : Nat) (done : List Nat) (ts : List YamlToken) (h : List (List Char × List Char))
      (g : YamlGraph), 4 * (itemTokens items).length + 1 ≤ fuel →
      Gives (composeBlockItems fuel done) ⟨itemTokens items ++ .blockEnd :: ts, h, [], g⟩
        (done.reverse ++ itemNumbers g.size items)
        ⟨ts, h, [], g ++ (itemPoints g.size items).toArray⟩ := by
  induction items with
  | nil =>
      intro fuel done ts h g hfuel
      obtain ⟨fuel, rfl⟩ : ∃ k, fuel = k + 1 := ⟨fuel - 1, by omega⟩
      rw [composeBlockItems, itemTokens, itemNumbers, itemPoints, List.append_nil]
      refine (gives_accept_not (t := .blockEnd) (u := .dash) rfl (by simp)).bind
        ((gives_accept (t := .blockEnd) rfl).bind ?_)
      simpa using gives_pure _ _
  | cons n items ih =>
      intro fuel done ts h g hfuel
      rw [List.forall_mem_cons] at hitems
      rw [itemTokens, List.length_cons, List.length_append] at hfuel
      -- One unit of fuel is for the item, and one for the step that looks for it.
      obtain ⟨fuel, rfl⟩ : ∃ k, fuel = k + 2 := ⟨fuel - 2, by omega⟩
      have hnode := hitems.1.unless fuel false false [.dash, .blockEnd]
        (itemTokens items ++ .blockEnd :: ts) h g (by omega) (by simp) (by simp)
      have hrest := ih hitems.2 (fuel + 1) (g.size :: done) ts h (g ++ (n.points g.size).toArray)
        (by omega)
      rw [size_append_points, append_points, List.reverse_cons, List.append_assoc] at hrest
      rw [composeBlockItems, itemTokens, itemNumbers, itemPoints, List.cons_append,
        List.append_assoc]
      exact (gives_accept (t := .dash) rfl).bind (hnode.bind hrest)

/-- So are those of a list that is not indented, up to what follows it. -/
theorem composes_looseItems (hitems : ∀ n ∈ items, n.Composes) :
    ∀ (fuel : Nat) (done : List Nat) (ts : List YamlToken) (h : List (List Char × List Char))
      (g : YamlGraph), 4 * (itemTokens items).length + 1 ≤ fuel → EndsLoose ts →
      Gives (composeLooseItems fuel done) ⟨itemTokens items ++ ts, h, [], g⟩
        (done.reverse ++ itemNumbers g.size items)
        ⟨ts, h, [], g ++ (itemPoints g.size items).toArray⟩ := by
  induction items with
  | nil =>
      rintro fuel done ts h g hfuel ⟨t, rest, rfl, hsound, hdash⟩
      obtain ⟨fuel, rfl⟩ : ∃ k, fuel = k + 1 := ⟨fuel - 1, by omega⟩
      rw [composeLooseItems, itemTokens, itemNumbers, itemPoints, List.append_nil]
      -- There is no closing token: the list ends where no dash follows.
      refine (gives_accept_not hsound hdash).bind ?_
      simpa using gives_pure _ _
  | cons n items ih =>
      intro fuel done ts h g hfuel hends
      rw [List.forall_mem_cons] at hitems
      rw [itemTokens, List.length_cons, List.length_append] at hfuel
      obtain ⟨fuel, rfl⟩ : ∃ k, fuel = k + 2 := ⟨fuel - 2, by omega⟩
      have hnode := hitems.1.unless fuel false false [.dash, .key, .value, .blockEnd]
        (itemTokens items ++ ts) h g (by omega) (by simp) (by simp)
      have hrest := ih hitems.2 (fuel + 1) (g.size :: done) ts h (g ++ (n.points g.size).toArray)
        (by omega) hends
      rw [size_append_points, append_points, List.reverse_cons, List.append_assoc] at hrest
      rw [composeLooseItems, itemTokens, itemNumbers, itemPoints, List.cons_append,
        List.append_assoc]
      exact (gives_accept (t := .dash) rfl).bind (hnode.bind hrest)

/-- Behind the value of an entry there is another entry, or the map ends. -/
theorem endsLoose_entryTokens (entries : List (YamlNode × YamlNode)) (ts : List YamlToken) :
    EndsLoose (entryTokens entries ++ .blockEnd :: ts) := by
  cases entries with
  | nil => exact ⟨.blockEnd, ts, by rw [entryTokens, List.nil_append], rfl, by simp⟩
  | cons e entries => exact ⟨.key, _, by rw [entryTokens, List.cons_append], rfl, by simp⟩

/-- The entries of a block map are composed, whose values may be lists that are not
    indented. -/
theorem composes_blockEntries (hkeys : ∀ e ∈ entries, e.1.Composes)
    (hvalues : ∀ e ∈ entries, e.2.Composes) :
    ∀ (fuel : Nat) (done : List (Nat × Nat)) (ts : List YamlToken)
      (h : List (List Char × List Char)) (g : YamlGraph),
      4 * (entryTokens entries).length + 1 ≤ fuel →
      Gives (composeBlockEntries fuel done) ⟨entryTokens entries ++ .blockEnd :: ts, h, [], g⟩
        (done.reverse ++ entryNumbers g.size entries)
        ⟨ts, h, [], g ++ (entryPoints g.size entries).toArray⟩ := by
  induction entries with
  | nil =>
      intro fuel done ts h g hfuel
      obtain ⟨fuel, rfl⟩ : ∃ k, fuel = k + 1 := ⟨fuel - 1, by omega⟩
      rw [composeBlockEntries, entryTokens, entryNumbers, entryPoints, List.append_nil]
      refine (gives_accept_not (t := .blockEnd) (u := .key) rfl (by simp)).bind
        ((gives_accept (t := .blockEnd) rfl).bind ?_)
      simpa using gives_pure _ _
  | cons e entries ih =>
      obtain ⟨k, n⟩ := e
      intro fuel done ts h g hfuel
      obtain ⟨hkey, hkeys⟩ := List.forall_mem_cons.mp hkeys
      obtain ⟨hvalue, hvalues⟩ := List.forall_mem_cons.mp hvalues
      dsimp only at hkey hvalue
      rw [entryTokens, List.length_cons, List.length_append, List.length_cons,
        List.length_append] at hfuel
      obtain ⟨fuel, rfl⟩ : ∃ k, fuel = k + 3 := ⟨fuel - 3, by omega⟩
      -- The key comes first in the graph, and the value behind all its nodes.
      have hkey := hkey.unless (fuel + 1) false true [.key, .value, .blockEnd]
        (.value :: (n.tokens (k.simpleKey? 0).isSome ++
          (entryTokens entries ++ .blockEnd :: ts))) h g (by omega) (by simp) (by simp)
      have hvalue := hvalue.unless fuel (k.simpleKey? 0).isSome true [.key, .value, .blockEnd]
        (entryTokens entries ++ .blockEnd :: ts) h (g ++ (k.points g.size).toArray) (by omega)
        (fun _ => ⟨rfl, endsLoose_entryTokens entries ts⟩) (by simp)
      have hrest := ih hkeys hvalues (fuel + 2)
        ((g.size, g.size + (k.points g.size).length) :: done) ts h
        (g ++ (k.points g.size).toArray ++
          (n.points (g.size + (k.points g.size).length)).toArray) (by omega)
      simp only [size_append_points, append_points, List.reverse_cons, List.append_assoc,
        List.length_append, List.cons_append, List.nil_append, ← Nat.add_assoc] at hvalue hrest
      rw [composeBlockEntries, entryTokens, entryNumbers, entryPoints]
      simp only [List.cons_append, List.append_assoc]
      refine (gives_accept (t := .key) rfl).bind (hkey.bind (Gives.bind ?_ hrest))
      rw [composeValue]
      exact (gives_accept (t := .value) rfl).bind hvalue

end

/-- A scalar that survives gets the tag it had. -/
theorem scalarTag_survives {indent : Nat} {s : YamlScalar} (h : s.survives indent = true) :
    YamlProperties.scalarTag ⟨false, none, none⟩ s.text (s.style == .plain) = s.tag := by
  unfold YamlProperties.scalarTag YamlProperties.tagOr
  rcases YamlScalar.survives_cases h with ⟨hstyle, -⟩ | ⟨hstyle, htag, -⟩ | ⟨hstyle, htag, -⟩
  · rw [hstyle]
    exact (YamlScalar.style_eq_plain hstyle).1
  · rw [hstyle]
    exact htag.symm
  · rw [hstyle]
    exact htag.symm

/-- A node is composed if what begins with its first token is. -/
theorem composes_of_point {n : YamlNode}
    (h : ∀ (fuel : Nat) (loose indentless : Bool) (t : YamlToken) (rest : List YamlToken)
      (ts : List YamlToken) (hd : List (List Char × List Char)) (g : YamlGraph),
      n.tokens loose = t :: rest → 4 * rest.length + 6 ≤ fuel →
      (loose = true → indentless = true ∧ EndsLoose ts) →
      ∃ p xs, n.points g.size = p :: xs ∧
        Gives (composePoint fuel true indentless ⟨false, none, none⟩ t)
          ⟨t :: rest ++ ts, hd, [], g.push .empty⟩ p
          ⟨ts, hd, [], g.push .empty ++ xs.toArray⟩) :
    n.Composes := by
  intro fuel loose indentless ts hd g hfuel hloose
  obtain ⟨t, rest, htokens, hbegins, -⟩ := n.tokens_eq loose
  rw [htokens, List.length_cons] at hfuel
  -- One step goes to the node itself; its point is composed with the rest.
  obtain ⟨fuel, rfl⟩ : ∃ k, fuel = k + 1 := ⟨fuel - 1, by omega⟩
  obtain ⟨p, xs, hpoints, hpoint⟩ :=
    h fuel loose indentless t rest ts hd g htokens (by omega) hloose
  have hnode := gives_node hbegins hpoint
  rw [setIfInBounds_points] at hnode
  rw [htokens, hpoints]
  exact hnode

theorem composes_scalar {indent : Nat} {s : YamlScalar} (h : s.survives indent = true) :
    (YamlNode.scalar s).Composes := by
  refine composes_of_point fun fuel loose indentless t rest ts hd g htokens hfuel _ => ?_
  rw [tokens, List.cons.injEq] at htokens
  obtain ⟨rfl, rfl⟩ := htokens
  obtain ⟨fuel, rfl⟩ : ∃ k, fuel = k + 1 := ⟨fuel - 1, by omega⟩
  refine ⟨_, [], by rw [points], ?_⟩
  rw [composePoint, scalarTag_survives h]
  rw [Array.append_empty]
  exact gives_skip.bind (gives_pure _ _)

theorem composes_list {items : List YamlNode} (hitems : ∀ n ∈ items, n.Composes) :
    (YamlNode.list .list items).Composes := by
  refine composes_of_point fun fuel loose indentless t rest ts hd g htokens hfuel hloose => ?_
  obtain ⟨fuel, rfl⟩ : ∃ k, fuel = k + 2 := ⟨fuel - 2, by omega⟩
  refine ⟨_, _, by rw [points], ?_⟩
  have hsize : (g.push .empty).size = g.size + 1 := Array.size_push ..
  cases items with
  | nil =>
      rw [tokens, List.cons.injEq] at htokens
      obtain ⟨rfl, rfl⟩ := htokens
      rw [composePoint, composeFlowItems, itemNumbers, itemPoints, Array.append_empty]
      exact gives_skip.bind (Gives.bind (Gives.bind (gives_accept (t := .closeList) rfl)
        (gives_pure _ _)) (gives_pure _ _))
  | cons n items =>
      rw [tokens.eq_4 loose .list _ (List.cons_ne_nil _ _)] at htokens
      -- Only the value of a simple key is a list without indentation.
      cases loose with
      | true =>
          obtain ⟨rfl, hends⟩ := hloose rfl
          rw [if_pos rfl] at htokens
          have hdash : t = .dash := by
            rw [itemTokens, List.cons.injEq] at htokens
            exact htokens.1.symm
          have hpoint := composes_looseItems hitems (fuel + 1) [] ts hd (g.push .empty)
            (by rw [htokens, List.length_cons]; omega) hends
          rw [htokens, hsize] at hpoint
          subst hdash
          rw [composePoint, if_pos ⟨rfl, rfl⟩]
          exact hpoint.bind (gives_pure _ _)
          all_goals simp
      | false =>
          rw [if_neg Bool.false_ne_true, List.cons.injEq] at htokens
          obtain ⟨rfl, rfl⟩ := htokens
          rw [List.length_append, List.length_singleton] at hfuel
          have hpoint := composes_blockItems hitems (fuel + 1) [] ts hd (g.push .empty) (by omega)
          rw [hsize] at hpoint
          rw [composePoint, if_neg (by simp), if_pos ⟨rfl, rfl⟩]
          rw [List.cons_append, List.append_assoc]
          exact gives_skip.bind (hpoint.bind (gives_pure _ _))
          all_goals simp

theorem composes_map {entries : List (YamlNode × YamlNode)} (hkeys : ∀ e ∈ entries, e.1.Composes)
    (hvalues : ∀ e ∈ entries, e.2.Composes) : (YamlNode.map .map entries).Composes := by
  refine composes_of_point fun fuel loose indentless t rest ts hd g htokens hfuel hloose => ?_
  obtain ⟨fuel, rfl⟩ : ∃ k, fuel = k + 2 := ⟨fuel - 2, by omega⟩
  refine ⟨_, _, by rw [points], ?_⟩
  have hsize : (g.push .empty).size = g.size + 1 := Array.size_push ..
  cases entries with
  | nil =>
      rw [tokens, List.cons.injEq] at htokens
      obtain ⟨rfl, rfl⟩ := htokens
      rw [composePoint, composeFlowEntries, entryNumbers, entryPoints, Array.append_empty]
      exact gives_skip.bind (Gives.bind (Gives.bind (gives_accept (t := .closeMap) rfl)
        (gives_pure _ _)) (gives_pure _ _))
  | cons e entries =>
      rw [tokens.eq_5 loose .map _ (List.cons_ne_nil _ _), List.cons.injEq] at htokens
      obtain ⟨rfl, rfl⟩ := htokens
      rw [List.length_append, List.length_singleton] at hfuel
      -- The point of the map is already set aside, so the entries are numbered from behind it.
      have hpoint := composes_blockEntries hkeys hvalues (fuel + 1) [] ts hd (g.push .empty)
        (by omega)
      rw [hsize] at hpoint
      rw [composePoint, if_neg (by simp), if_neg (by simp),
        if_pos ⟨rfl, rfl⟩, List.cons_append, List.append_assoc]
      exact gives_skip.bind (hpoint.bind (gives_pure _ _))
      all_goals simp

/-- Nodes that survive are composed from their tokens. -/
theorem Survives.composes {indent : Nat} {n : YamlNode} (h : n.Survives indent) : n.Composes := by
  induction h with
  | scalar h => exact composes_scalar h
  | list _ ih => exact composes_list ih
  | map hkeys _ ih =>
      exact composes_map (List.forall_mem_map.mpr fun e he => composes_scalar (hkeys e he).1)
        (List.forall_mem_map.mpr ih)

/-- A document is announced by its mark, and its node follows. -/
theorem gives_announced {n : YamlNode} (hn : n.Composes) {fuel : Nat}
    (hfuel : 4 * (n.tokens false).length + 3 ≤ fuel) :
    Gives (announced fuel) ⟨.documentStart :: (n.tokens false ++ [.finish]), knownHandles, [], #[]⟩
      0 ⟨[.finish], knownHandles, [], (n.points 0).toArray⟩ := by
  have hnode := hn fuel false false [.finish] knownHandles #[] hfuel (by simp)
  rw [Array.empty_append] at hnode
  obtain ⟨fuel, rfl⟩ : ∃ k, fuel = k + 1 := ⟨fuel - 1, by omega⟩
  obtain ⟨t, rest, htokens, hbegins, -⟩ := n.tokens_eq false
  rw [htokens] at hnode ⊢
  -- The node is there: no document ends or stream finishes where it begins.
  have hnot : [YamlToken.documentEnd, .finish].contains t = false := by
    cases t <;> first | rfl | exact hbegins.elim
  unfold announced
  refine (gives_directives fuel).bind ?_
  refine Gives.bind (gives_accept (t := .documentStart) rfl) ?_
  refine Gives.bind (gives_atAnnouncement hbegins) ?_
  have hnext : Gives (isNext [.documentEnd, .finish])
      ⟨t :: (rest ++ [.finish]), knownHandles, [], #[]⟩ _ _ := gives_isNext hbegins.sound _
  rw [hnot] at hnext
  exact hnext.bind hnode

/-- Nothing follows the node of a document. -/
theorem gives_document {n : YamlNode} (hn : n.Composes) {fuel : Nat}
    (hfuel : 4 * (n.tokens false).length + 3 ≤ fuel) :
    Gives (document fuel) ⟨.documentStart :: (n.tokens false ++ [.finish]), knownHandles, [], #[]⟩
      (some 0) ⟨[], knownHandles, [], (n.points 0).toArray⟩ := by
  have hat : Gives atAnnouncement
      ⟨.documentStart :: (n.tokens false ++ [.finish]), knownHandles, [], #[]⟩ true
      ⟨.documentStart :: (n.tokens false ++ [.finish]), knownHandles, [], #[]⟩ := rfl
  have hends : Gives skipEnds ⟨[.finish], knownHandles, [], (n.points 0).toArray⟩ ()
      ⟨[.finish], knownHandles, [], (n.points 0).toArray⟩ := rfl
  unfold document
  refine Gives.bind (gives_accept_not (t := .documentStart) (u := .finish) rfl (by simp)) ?_
  refine hat.bind (Gives.bind (gives_announced hn hfuel) (hends.bind ?_))
  exact Gives.bind (gives_accept (t := .finish) rfl) (gives_pure _ _)

/-- A document whose tokens are those of a node has the graph of the node's nodes. -/
theorem ofTokens_tokens {n : YamlNode} (hn : n.Composes) :
    YamlGraph.ofTokens (.documentStart :: (n.tokens false ++ [.finish])) =
      .ok (some ((n.points 0).toArray, 0)) := by
  unfold YamlGraph.ofTokens
  rw [gives_document hn (by rw [List.length_cons, List.length_append]; omega)]
  rfl

end YamlNode

end Docket
