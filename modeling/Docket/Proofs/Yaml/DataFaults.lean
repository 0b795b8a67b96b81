import Docket.Proofs.Yaml.TokenFaults
import Docket.Yaml.Reader

/-!
# Faults of data

The faults that a text may have are all that reading it can meet. Tokens that fit are
composed into a graph in which every scalar has only such faults under its tag as may
arise, because a node has another tag than the one its text speaks for only if a tag is
written somewhere. Merging maps changes tags only to that of texts, which have no faults,
and changes no scalar, so that this stays so until the scalars are read.

## Main definitions

* `YamlPoint.Fits`: The nodes that the graph of a text may have.
* `YamlGraph.Fits`: Graphs of such nodes, while maps are merged.
* `Compose.AllGo`: All functions of the composer keep what holds.

## Theorems

* `ofTokens_lands`: The graph of tokens that fit.
* `YamlGraph.data_lands`: The data of such a graph.
* `readYamlText_lands`: Reading a text meets no other fault than may arise.
-/

namespace Docket

variable {cs : List Char}

/-- The nodes that the graph of a text may have: unless tags are written, what is made of
    other nodes has a tag that says so, and a scalar has a tag that suits it. -/
def YamlPoint.Fits (cs : List Char) (p : YamlPoint) : Prop :=
  '!' ∈ cs ∨ match p.shape with
    | .scalar text => p.tag.Suits cs text
    | _ => p.tag.isCollection = true

theorem fits_empty : YamlPoint.empty.Fits cs := Or.inr trivial

/-- What holds while tokens are composed: what is left of them fits, and so do the nodes. -/
structure YamlComposer.Fits (cs : List Char) (s : YamlComposer) : Prop where
  tokens : ∀ t ∈ s.tokens, t.Fits cs
  points : ∀ p ∈ s.graph, p.Fits cs

namespace Compose

/-- Composing that keeps what holds, comes to what is said and fails as it may. -/
abbrev Goes {α : Type} (cs : List Char) (P : α → Prop) (p : Compose α) : Prop :=
  Carries (YamlComposer.Fits cs) (YamlFault.MayArise cs) P p

theorem goes_peek : Goes cs (YamlToken.Fits cs) peek := by
  refine carries_get.bind fun s hs => ?_
  split
  next f rest heq =>
    have hbroken := hs.tokens (.broken f) (heq ▸ List.mem_cons_self)
    exact carries_throw hbroken
  next t rest hsound heq => exact carries_pure (hs.tokens t (heq ▸ List.mem_cons_self))
  next => exact carries_pure (P := YamlToken.Fits cs) (a := .finish) trivial

theorem goes_skip : Goes cs (fun _ => True) skip :=
  carries_modify fun _ hs => ⟨fun t ht => hs.tokens t (List.mem_of_mem_tail ht), hs.points⟩

theorem goes_refuse {α : Type} {P : α → Prop} : Goes cs P (refuse : Compose α) :=
  carries_throw (e := YamlFault.malformed) trivial

theorem goes_isNext (ts : List YamlToken) : Goes cs (fun _ => True) (isNext ts) :=
  goes_peek.bind fun _ _ => carries_pure trivial

theorem goes_accept (t : YamlToken) : Goes cs (fun _ => True) (accept t) := by
  refine goes_peek.bind fun u _ => ?_
  split
  · exact goes_skip.bind fun _ _ => carries_pure trivial
  · exact carries_pure trivial

theorem goes_tagName (handle : Option (List Char)) (name : List Char) :
    Goes cs (fun _ => True) (tagName handle name) := by
  unfold tagName
  split
  · exact carries_pure trivial
  · refine carries_get.bind fun s _ => ?_
    split
    · exact carries_pure trivial
    · exact carries_throw (e := YamlFault.malformed) trivial

end Compose

/-- Properties show a tag only if one is written. -/
def YamlProperties.Fits (cs : List Char) (p : YamlProperties) : Prop :=
  '!' ∈ cs ∨ p.marked = false ∧ p.tag = none

theorem YamlProperties.Fits.tagOr {p : YamlProperties} (h : p.Fits cs) (t : YamlTag) :
    '!' ∈ cs ∨ p.tagOr t = t := by
  refine h.imp_right fun hp => ?_
  rw [YamlProperties.tagOr, hp.2]

theorem YamlProperties.Fits.scalarTag {p : YamlProperties} (h : p.Fits cs) {text : List Char}
    {plain : Bool} (ht : YamlToken.Fits cs (.scalar text plain)) :
    YamlPoint.Fits cs ⟨p.scalarTag text plain, .scalar text⟩ := by
  rcases h with hmark | ⟨hmarked, htag⟩
  · exact Or.inl hmark
  · refine Or.inr ?_
    change (p.scalarTag text plain).Suits cs text
    rw [YamlProperties.scalarTag, YamlProperties.tagOr, htag, hmarked, Bool.or_false]
    cases plain with
    | true => exact ht
    | false => exact trivial

namespace Compose

theorem goes_takeAnchor : Goes cs (fun _ => True) takeAnchor := by
  refine goes_peek.bind fun t _ => ?_
  split
  · exact goes_skip.bind fun _ _ => carries_pure trivial
  · exact carries_pure trivial

theorem goes_takeTag : Goes cs (fun r => '!' ∈ cs ∨ r = none) takeTag := by
  refine goes_peek.bind fun t ht => ?_
  split
  · exact goes_skip.bind fun _ _ => carries_pure (Or.inl ht)
  · exact carries_pure (Or.inr rfl)

theorem goes_properties : Goes cs (YamlProperties.Fits cs) properties := by
  refine goes_takeAnchor.bind fun anchor _ => ?_
  refine goes_takeTag.bind fun tag htag => ?_
  cases tag with
  | none =>
      dsimp only
      split
      · exact goes_takeAnchor.bind fun _ _ => carries_pure (Or.inr ⟨rfl, rfl⟩)
      · exact carries_pure (Or.inr ⟨rfl, rfl⟩)
  | some tag =>
      -- There is a tag, and with it the mark of tags.
      have hmark : '!' ∈ cs := htag.resolve_right nofun
      dsimp only
      split
      · refine goes_takeAnchor.bind fun _ _ => ?_
        exact (goes_tagName _ _).bind fun _ _ => carries_pure (Or.inl hmark)
      · refine (carries_pure (P := fun _ => True) trivial).bind fun _ _ => ?_
        exact (goes_tagName _ _).bind fun _ _ => carries_pure (Or.inl hmark)

theorem goes_add {p : YamlPoint} (hp : p.Fits cs) : Goes cs (fun _ => True) (add p) := by
  refine carries_get.bind fun s hs => ?_
  refine (carries_set ?_).bind fun _ _ => carries_pure trivial
  exact ⟨hs.tokens, fun q hq => (Array.mem_push.mp hq).elim (hs.points q) (fun h => h ▸ hp)⟩

theorem goes_begin (anchor : Option (List Char)) : Goes cs (fun _ => True) (begin anchor) := by
  refine carries_get.bind fun s _ => ?_
  refine (goes_add fits_empty).bind fun n _ => ?_
  split
  · exact carries_pure trivial
  · have hdeclare : ∀ a, Goes cs (fun _ => True) (do
        modify fun s : YamlComposer => { s with anchors := (a, n) :: s.anchors }
        return n) := fun a =>
      (carries_modify fun _ hs => ⟨hs.tokens, hs.points⟩).bind fun _ _ => carries_pure trivial
    dsimp only
    split
    · exact goes_refuse.bind (P := fun _ => True) fun _ _ => hdeclare _
    · exact hdeclare _

theorem goes_complete (n : Nat) {p : YamlPoint} (hp : p.Fits cs) :
    Goes cs (fun _ => True) (complete n p) := by
  refine carries_modify fun s hs => ⟨hs.tokens, fun q hq => ?_⟩
  rcases Array.mem_or_eq_of_mem_setIfInBounds hq with hmem | rfl
  · exact hs.points q hmem
  · exact hp

theorem goes_resolve (name : List Char) : Goes cs (fun _ => True) (resolve name) := by
  refine carries_get.bind fun s _ => ?_
  split
  · exact carries_pure trivial
  · exact goes_refuse

/-- All composing with some fuel goes well. -/
structure AllGo (cs : List Char) (fuel : Nat) : Prop where
  node (block loose : Bool) : Goes cs (fun _ => True) (composeNode fuel block loose)
  point (block loose : Bool) {p : YamlProperties} {t : YamlToken} (hp : p.Fits cs)
    (ht : t.Fits cs) : Goes cs (YamlPoint.Fits cs) (composePoint fuel block loose p t)
  optional (block loose : Bool) (ends : List YamlToken) :
    Goes cs (fun _ => True) (composeUnless fuel block loose ends)
  blockItems (done : List Nat) : Goes cs (fun _ => True) (composeBlockItems fuel done)
  looseItems (done : List Nat) : Goes cs (fun _ => True) (composeLooseItems fuel done)
  value (block : Bool) (ends : List YamlToken) :
    Goes cs (fun _ => True) (composeValue fuel block ends)
  blockEntries (done : List (Nat × Nat)) : Goes cs (fun _ => True) (composeBlockEntries fuel done)
  flowItems (first : Bool) (done : List Nat) :
    Goes cs (fun _ => True) (composeFlowItems fuel first done)
  flowEntries (first : Bool) (done : List (Nat × Nat)) :
    Goes cs (fun _ => True) (composeFlowEntries fuel first done)

namespace AllGo

variable {fuel : Nat}

theorem zero : AllGo cs 0 := by
  -- Without fuel every part refuses.
  constructor
  · intro block loose
    rw [composeNode]
    exact goes_refuse
  · intro block loose p t _ _
    rw [composePoint]
    exact goes_refuse
  · intro block loose ends
    rw [composeUnless]
    exact goes_refuse
  · intro done
    rw [composeBlockItems]
    exact goes_refuse
  · intro done
    rw [composeLooseItems]
    exact goes_refuse
  · intro block ends
    rw [composeValue]
    exact goes_refuse
  · intro done
    rw [composeBlockEntries]
    exact goes_refuse
  · intro first done
    rw [composeFlowItems]
    exact goes_refuse
  · intro first done
    rw [composeFlowEntries]
    exact goes_refuse

theorem node_succ (h : AllGo cs fuel) (block loose : Bool) :
    Goes cs (fun _ => True) (composeNode (fuel + 1) block loose) := by
  rw [composeNode]
  refine goes_peek.bind fun t ht => ?_
  split
  · exact goes_skip.bind fun _ _ => goes_resolve _
  · -- The node is put in its place before it is complete, as an empty one.
    refine goes_properties.bind fun p hp => ?_
    refine goes_peek.bind fun u hu => ?_
    refine (goes_begin _).bind fun n _ => ?_
    refine (h.point _ _ hp hu).bind fun q hq => ?_
    exact (goes_complete n hq).bind fun _ _ => carries_pure trivial

/-- A collection has the tag that says so unless it has a tag of its own. -/
theorem fits_collection {p : YamlProperties} (hp : p.Fits cs) {t : YamlTag}
    (ht : t.isCollection = true) {s : YamlShape} (hs : ∀ text, s ≠ .scalar text) :
    YamlPoint.Fits cs ⟨p.tagOr t, s⟩ := by
  refine (hp.tagOr t).imp_right fun heq => ?_
  rw [heq]
  cases s with
  | scalar text => exact absurd rfl (hs text)
  | list items => exact ht
  | map entries => exact ht

theorem point_succ (h : AllGo cs fuel) (block loose : Bool) {p : YamlProperties} {t : YamlToken}
    (hp : p.Fits cs) (ht : t.Fits cs) :
    Goes cs (YamlPoint.Fits cs) (composePoint (fuel + 1) block loose p t) := by
  unfold composePoint
  split
  · exact goes_skip.bind fun _ _ => carries_pure (hp.scalarTag ht)
  · refine goes_skip.bind fun _ _ => (h.flowItems _ _).bind fun items _ => ?_
    exact carries_pure (fits_collection hp rfl nofun)
  · refine goes_skip.bind fun _ _ => (h.flowEntries _ _).bind fun entries _ => ?_
    exact carries_pure (fits_collection hp rfl nofun)
  split
  · refine (h.looseItems _).bind fun items _ => ?_
    exact carries_pure (fits_collection hp rfl nofun)
  split
  · refine goes_skip.bind fun _ _ => (h.blockItems _).bind fun items _ => ?_
    exact carries_pure (fits_collection hp rfl nofun)
  split
  · refine goes_skip.bind fun _ _ => (h.blockEntries _).bind fun entries _ => ?_
    exact carries_pure (fits_collection hp rfl nofun)
  split
  · refine carries_pure ((hp.tagOr .null).imp_right fun heq => ?_)
    rw [heq]
    exact trivial
  · exact goes_refuse

theorem optional_succ (h : AllGo cs fuel) (block loose : Bool) (ends : List YamlToken) :
    Goes cs (fun _ => True) (composeUnless (fuel + 1) block loose ends) := by
  rw [composeUnless]
  refine (goes_isNext _).bind fun b _ => ?_
  split
  · exact goes_add fits_empty
  · exact h.node _ _

theorem blockItems_succ (h : AllGo cs fuel) (done : List Nat) :
    Goes cs (fun _ => True) (composeBlockItems (fuel + 1) done) := by
  rw [composeBlockItems]
  refine (goes_accept _).bind fun b _ => ?_
  split
  · exact (h.optional _ _ _).bind fun n _ => h.blockItems _
  · refine (goes_accept _).bind fun b _ => ?_
    split
    · exact carries_pure trivial
    · exact goes_refuse

theorem looseItems_succ (h : AllGo cs fuel) (done : List Nat) :
    Goes cs (fun _ => True) (composeLooseItems (fuel + 1) done) := by
  rw [composeLooseItems]
  refine (goes_accept _).bind fun b _ => ?_
  split
  · exact (h.optional _ _ _).bind fun n _ => h.looseItems _
  · exact carries_pure trivial

theorem value_succ (h : AllGo cs fuel) (block : Bool) (ends : List YamlToken) :
    Goes cs (fun _ => True) (composeValue (fuel + 1) block ends) := by
  rw [composeValue]
  refine (goes_accept _).bind fun b _ => ?_
  split
  · exact h.optional _ _ _
  · exact goes_add fits_empty

theorem blockEntries_succ (h : AllGo cs fuel) (done : List (Nat × Nat)) :
    Goes cs (fun _ => True) (composeBlockEntries (fuel + 1) done) := by
  rw [composeBlockEntries]
  refine (goes_accept _).bind fun b _ => ?_
  split
  · refine (h.optional _ _ _).bind fun k _ => ?_
    exact (h.value _ _).bind fun n _ => h.blockEntries _
  · refine (goes_accept _).bind fun b _ => ?_
    split
    · exact carries_pure trivial
    · exact goes_refuse

/-- A comma is looked for unless nothing came before. -/
theorem goes_comma (first : Bool) {α : Type} {rest : PUnit → Compose α}
    (hrest : Goes cs (fun _ => True) (rest ⟨⟩)) :
    Goes cs (fun _ => True) (if !first then do
      if !(← accept .comma) then do
        let u ← refuse
        rest u
      else rest ⟨⟩
    else rest ⟨⟩) := by
  split
  · refine (goes_accept _).bind fun b _ => ?_
    split
    · exact goes_refuse.bind (P := fun _ => True) fun _ _ => hrest
    · exact hrest
  · exact hrest

theorem flowItems_succ (h : AllGo cs fuel) (first : Bool) (done : List Nat) :
    Goes cs (fun _ => True) (composeFlowItems (fuel + 1) first done) := by
  rw [composeFlowItems]
  refine (goes_accept _).bind fun b _ => ?_
  split
  · exact carries_pure trivial
  refine goes_comma first ?_
  refine (goes_accept _).bind fun b _ => ?_
  split
  · refine (h.optional _ _ _).bind fun k _ => ?_
    refine (h.value _ _).bind fun n _ => ?_
    exact (goes_add (Or.inr rfl)).bind fun m _ => h.flowItems _ _
  · refine (goes_accept _).bind fun b _ => ?_
    split
    · exact carries_pure trivial
    · exact (h.node _ _).bind fun n _ => h.flowItems _ _

theorem flowEntries_succ (h : AllGo cs fuel) (first : Bool) (done : List (Nat × Nat)) :
    Goes cs (fun _ => True) (composeFlowEntries (fuel + 1) first done) := by
  rw [composeFlowEntries]
  refine (goes_accept _).bind fun b _ => ?_
  split
  · exact carries_pure trivial
  refine goes_comma first ?_
  refine (goes_accept _).bind fun b _ => ?_
  split
  · refine (h.optional _ _ _).bind fun k _ => ?_
    exact (h.value _ _).bind fun n _ => h.flowEntries _ _
  · refine (goes_accept _).bind fun b _ => ?_
    split
    · exact carries_pure trivial
    · refine (h.node _ _).bind fun k _ => ?_
      exact (goes_add fits_empty).bind fun n _ => h.flowEntries _ _

end AllGo

/-- Each function of the composer goes on with less fuel only. -/
theorem allGo (fuel : Nat) : AllGo cs fuel := by
  induction fuel with
  | zero => exact .zero
  | succ fuel ih =>
      exact ⟨ih.node_succ, fun block loose _ _ => ih.point_succ block loose, ih.optional_succ,
        ih.blockItems_succ, ih.looseItems_succ, ih.value_succ, ih.blockEntries_succ,
        ih.flowItems_succ, ih.flowEntries_succ⟩

/-! ### Documents -/

theorem goes_directives (fuel : Nat) (versioned : Bool)
    (declared : List (List Char × List Char)) :
    Goes cs (fun _ => True) (directives fuel versioned declared) := by
  induction fuel generalizing versioned declared with
  | zero => exact goes_refuse
  | succ fuel ih =>
      unfold directives
      refine goes_peek.bind fun t _ => ?_
      split
      · refine goes_skip.bind fun _ _ => ?_
        dsimp only
        split
        · exact goes_refuse.bind (P := fun _ => True) fun _ _ => ih _ _
        · exact ih _ _
      · refine goes_skip.bind fun _ _ => ?_
        dsimp only
        split
        · exact goes_refuse.bind (P := fun _ => True) fun _ _ => ih _ _
        · exact ih _ _
      · exact goes_skip.bind fun _ _ => ih _ _
      · exact carries_modify fun _ hs => ⟨hs.tokens, hs.points⟩

theorem goes_skipEnds : Goes cs (fun _ => True) skipEnds :=
  carries_modify fun _ hs =>
    ⟨fun t ht => hs.tokens t ((List.dropWhile_sublist _).mem ht), hs.points⟩

theorem goes_atAnnouncement : Goes cs (fun _ => True) atAnnouncement := by
  refine goes_peek.bind fun t _ => ?_
  split <;> exact carries_pure trivial

theorem goes_announced (fuel : Nat) : Goes cs (fun _ => True) (announced fuel) := by
  have hbody : Goes cs (fun _ => True) (do
      if (← atAnnouncement) || (← isNext [.documentEnd, .finish]) then return ← add .empty
      composeNode fuel true false) := by
    refine goes_atAnnouncement.bind fun b _ => ?_
    refine (goes_isNext _).bind fun b _ => ?_
    split
    · exact goes_add fits_empty
    · exact (allGo fuel).node _ _
  refine (goes_directives _ _ _).bind fun _ _ => ?_
  refine (goes_accept _).bind fun b _ => ?_
  split
  · exact goes_refuse.bind (P := fun _ => True) fun _ _ => hbody
  · exact hbody

theorem goes_document (fuel : Nat) : Goes cs (fun _ => True) (document fuel) := by
  -- The end of a document is the same whether or not it was announced.
  have hend : ∀ n : Nat, Goes cs (fun _ => True) (do
      skipEnds
      if ← accept .finish then return some n
      directives fuel false []
      refuse) := by
    intro n
    refine goes_skipEnds.bind fun _ _ => ?_
    refine (goes_accept _).bind fun b _ => ?_
    split
    · exact carries_pure trivial
    · exact (goes_directives _ _ _).bind fun _ _ => goes_refuse
  refine (goes_accept _).bind fun b _ => ?_
  split
  · exact carries_pure trivial
  refine goes_atAnnouncement.bind fun b _ => ?_
  split
  · exact (goes_announced _).bind fun n _ => hend n
  · exact ((allGo fuel).node _ _).bind fun n _ => hend n

end Compose

/-- The graph of tokens that fit. -/
theorem ofTokens_lands {tokens : List YamlToken} (h : ∀ t ∈ tokens, t.Fits cs) :
    Lands (YamlFault.MayArise cs) (fun r => ∀ g n, r = some (g, n) → ∀ p ∈ g, p.Fits cs)
      (YamlGraph.ofTokens tokens) := by
  refine (Compose.goes_document _ ⟨tokens, knownHandles, [], #[]⟩ ⟨h, nofun⟩).bind fun r hr => ?_
  intro g n heq
  obtain ⟨root, -, hpair⟩ := Option.map_eq_some_iff.mp heq
  rw [← (Prod.mk.inj hpair).1]
  exact hr.2.points

/-! ## Merging -/

namespace YamlGraph

variable {C : Nat → Prop} {g : YamlGraph}

/-- Graphs while maps are merged. Unless tags are written, the tags of the nodes `C` say
    that these are made of other nodes, and all other nodes are scalars with a tag that
    suits them. -/
structure Fits (cs : List Char) (C : Nat → Prop) (g : YamlGraph) : Prop where
  collection (n : Nat) : C n → '!' ∈ cs ∨ (g.tag n).isCollection = true
  scalar (n : Nat) : ¬ C n → '!' ∈ cs ∨
    ∃ text, (g.point n).shape = .scalar text ∧ (g.tag n).Suits cs text

theorem fits_of_points (h : ∀ p ∈ g, p.Fits cs) :
    g.Fits cs fun n => (g.tag n).isCollection = true := by
  refine ⟨fun n hn => Or.inr hn, fun n hn => ?_⟩
  have hpoint : (g.point n).Fits cs := by
    unfold point
    cases hget : g[n]? with
    | none => exact fits_empty
    | some p => exact h p (Array.mem_of_getElem? hget)
  refine hpoint.imp_right fun hfits => ?_
  cases hshape : (g.point n).shape with
  | scalar text => rw [hshape] at hfits; exact ⟨text, rfl, hfits⟩
  | list items => rw [hshape] at hfits; exact absurd hfits hn
  | map entries => rw [hshape] at hfits; exact absurd hfits hn

theorem point_setIfInBounds (n m : Nat) (p : YamlPoint) :
    point (g.setIfInBounds n p) m = if n = m ∧ n < g.size then p else g.point m := by
  unfold point
  rw [Array.getElem?_setIfInBounds]
  grind

theorem point_setShape (n m : Nat) (s : YamlShape) :
    (g.setShape n s).tag m = g.tag m ∧ (m ≠ n → (g.setShape n s).point m = g.point m) := by
  unfold setShape tag
  rw [point_setIfInBounds]
  constructor
  · split
    next h => rw [h.1]
    next => rfl
  · intro hne
    exact if_neg fun h => hne h.1.symm

/-- The nodes in a node may change if it is made of nodes. -/
theorem Fits.setShape (h : g.Fits cs C) {n : Nat} (hn : '!' ∈ cs ∨ C n) (s : YamlShape) :
    (g.setShape n s).Fits cs C := by
  refine ⟨fun m hm => ?_, fun m hm => ?_⟩
  · rw [(point_setShape n m s).1]
    exact h.collection m hm
  · by_cases hmark : '!' ∈ cs
    · exact Or.inl hmark
    · -- The node that changes is in `C`, and this one is not.
      have hne : m ≠ n := fun heq => hm (heq ▸ hn.resolve_left hmark)
      unfold tag
      rw [(point_setShape n m s).2 hne]
      exact h.scalar m hm

theorem Fits.setText (h : g.Fits cs C) {k : Nat} (hk : g.tag k = .value) :
    (g.setTag k .text).Fits cs C := by
  have hpoint : ∀ m, ((g.setTag k .text).point m).shape = (g.point m).shape ∧
      ((g.setTag k .text).tag m = g.tag m ∨ m = k ∧ (g.setTag k .text).tag m = .text) := by
    intro m
    unfold setTag tag
    rw [point_setIfInBounds]
    split
    next heq => exact ⟨by rw [heq.1], Or.inr ⟨heq.1.symm, rfl⟩⟩
    next => exact ⟨rfl, Or.inl rfl⟩
  refine ⟨fun m hm => ?_, fun m hm => ?_⟩
  · refine (h.collection m hm).imp_right fun hcollection => ?_
    rcases (hpoint m).2 with heq | ⟨rfl, -⟩
    · rw [heq]
      exact hcollection
    · -- What stands for the value of its map is no collection.
      rw [hk] at hcollection
      exact absurd hcollection (by decide)
  · refine (h.scalar m hm).imp_right fun ⟨text, hshape, hsuits⟩ => ⟨text, ?_, ?_⟩
    · rw [(hpoint m).1]
      exact hshape
    · rcases (hpoint m).2 with heq | ⟨-, heq⟩
      · rw [heq]
        exact hsuits
      · rw [heq]
        exact trivial

/-- What a scalar stands for, or what is wrong with it. -/
theorem Fits.leafData (h : g.Fits cs C) {n : Nat} (hn : ¬ (g.tag n).isCollection = true) :
    Lands (YamlFault.MayArise cs) (fun _ => True) (g.leafData n) := by
  unfold YamlGraph.leafData
  split
  next text _ hshape =>
    by_cases hC : C n
    · exact suits_of_mark ((h.collection n hC).resolve_right hn) _ _
    · rcases h.scalar n hC with hmark | ⟨ds, hscalar, hsuits⟩
      · exact suits_of_mark hmark _ _
      · rw [hscalar] at hshape
        rw [← YamlShape.scalar.inj hshape]
        exact hsuits
  next text _ hother =>
    -- The text is that of another node, which is so only where a tag is written.
    split
    · exact trivial
    · by_cases hC : C n
      · exact suits_of_mark ((h.collection n hC).resolve_right hn) _ _
      · rcases h.scalar n hC with hmark | ⟨ds, hscalar, -⟩
        · exact suits_of_mark hmark _ _
        · exact (hother ds hscalar).elim
  next => exact trivial

end YamlGraph

namespace YamlChange

variable {C : Nat → Prop}

/-- Merging that keeps what holds of the graph and fails as it may. -/
abbrev Goes {α : Type} (cs : List Char) (C : Nat → Prop) (P : α → Prop) (p : YamlChange α) : Prop :=
  Carries (YamlGraph.Fits cs C) (YamlFault.MayArise cs) P p

theorem goes_entriesOf (n : Nat) : Goes cs C (fun _ => '!' ∈ cs ∨ C n) (entriesOf n) := by
  refine carries_get.bind fun g hg => ?_
  split
  next entries hentries =>
    refine carries_pure ?_
    by_cases hC : C n
    · exact Or.inr hC
    · -- A scalar has no entries.
      refine (hg.scalar n hC).imp_right fun ⟨text, hshape, _⟩ => ?_
      rw [YamlGraph.entries?, hshape] at hentries
      exact absurd hentries nofun
  next => exact carries_throw (e := YamlFault.malformed) trivial

theorem goes_keepAsText (keys : List Nat) : Goes cs C (fun _ => True) (keepAsText keys) := by
  induction keys with
  | nil => exact carries_pure trivial
  | cons k rest ih =>
      refine Carries.bind (carries_modify fun g hg => ?_) fun _ _ => ih
      split
      next hk => exact hg.setText hk
      next => exact hg

theorem goes_mergeFrom (fuel n index : Nat) (taken : List (Nat × Nat)) :
    Goes cs C (fun _ => True) (mergeFrom fuel n index taken) := by
  induction fuel generalizing n index taken with
  | zero => exact carries_throw (e := YamlFault.malformed) trivial
  | succ fuel ih =>
      unfold mergeFrom
      refine carries_get.bind fun g _ => ?_
      refine (goes_entriesOf n).bind fun entries hn => ?_
      refine (goes_keepAsText _).bind fun _ _ => ?_
      dsimp only
      split
      · exact carries_modify fun _ hg => hg.setShape hn _
      · refine (carries_modify fun _ hg => hg.setShape hn _).bind fun _ _ => ?_
        -- The maps that lend their entries are merged first, each with less fuel.
        have hsources : ∀ sources : List Nat, Goes cs C (fun _ => True) (do
            let lent ← sources.mapM fun m => do
              mergeFrom fuel m 0 []
              entriesOf m
            mergeFrom fuel n (index + ((entries.drop index).takeWhile fun e =>
              g.tag e.1 != .merge).length) (taken ++ lent.reverse.flatten)) := by
          intro sources
          refine Carries.bind (Carries.mapM (P := fun _ => True) fun m _ => ?_) fun _ _ => ih _ _ _
          exact (ih _ _ _).bind fun _ _ => (goes_entriesOf m).imp fun _ _ => trivial
        have hmalformed : Goes cs C (fun _ => True) (throw .malformed : YamlChange (List Nat)) :=
          carries_throw (e := YamlFault.malformed) trivial
        split
        · exact hsources _
        · exact hsources _
        · exact hmalformed.bind fun _ _ => hsources _

theorem goes_merge (n : Nat) : Goes cs C (fun _ => True) (merge n) := by
  refine carries_get.bind fun g _ => ?_
  refine (goes_entriesOf n).bind fun entries _ => ?_
  dsimp only
  split
  · exact goes_mergeFrom _ _ _ _
  · exact goes_keepAsText _

end YamlChange

/-! ## Data -/

namespace YamlMake

variable {C : Nat → Prop}

/-- Making data that keeps what holds of the graph and fails as it may. -/
abbrev Goes {α : Type} (cs : List Char) (C : Nat → Prop) (p : YamlMake α) : Prop :=
  Carries (fun s : YamlMaking => s.graph.Fits cs C) (YamlFault.MayArise cs) (fun _ => True) p

theorem goes_valueOf (n : Nat) : Goes cs C (valueOf n) := by
  refine carries_get.bind fun s hs => ?_
  dsimp only
  split
  · exact carries_pure trivial
  split
  · refine Carries.bind (carries_set ?_) fun _ _ => carries_pure trivial
    exact hs
  next hleaf =>
    refine (carries_lift (hs.leafData hleaf)).bind fun v _ => ?_
    refine Carries.bind (carries_set ?_) fun _ _ => carries_pure trivial
    exact hs

theorem goes_malformed {α : Type} : Goes cs C (throw .malformed : YamlMake α) :=
  carries_throw (e := YamlFault.malformed) trivial

theorem goes_mapData (entries : List (Nat × Nat)) : Goes cs C (mapData entries) := by
  -- Whether a key can be one is decided before its value is looked at.
  refine Carries.bind (Carries.foldlM (P := fun _ => True) trivial fun e _ done _ => ?_)
    fun done _ => carries_pure trivial
  refine (goes_valueOf _).bind fun key _ => ?_
  have hput : Goes cs C (do return putEntry e.1 key (← valueOf e.2) done) :=
    (goes_valueOf _).bind fun v _ => carries_pure trivial
  dsimp only
  split
  · exact goes_malformed.bind fun _ _ => hput
  · exact hput

theorem goes_entriesOf (n : Nat) : Goes cs C (entriesOf n) := by
  refine carries_get.bind fun s hs => ?_
  have hmerged : Lands (YamlFault.MayArise cs) (fun r => r.2.Fits cs C)
      ((do YamlChange.merge n; YamlChange.entriesOf n).run s.graph) := by
    have hrun := (YamlChange.goes_merge n).bind (fun _ _ => YamlChange.goes_entriesOf n) s.graph hs
    exact hrun.imp fun r hr => hr.2
  refine (carries_lift hmerged).bind fun r hr => ?_
  refine Carries.bind (carries_set ?_) fun _ _ => carries_pure trivial
  exact hr

theorem goes_itemsOf (n : Nat) : Goes cs C (itemsOf n) := by
  refine carries_get.bind fun s _ => ?_
  split
  · exact carries_pure trivial
  · exact goes_malformed

theorem goes_pairData (n : Nat) : Goes cs C (pairData n) := by
  refine carries_get.bind fun s _ => ?_
  split
  · refine (goes_valueOf _).bind fun key _ => ?_
    exact (goes_valueOf _).bind fun v _ => carries_pure trivial
  · exact goes_malformed

theorem goes_contentOf (n : Nat) : Goes cs C (contentOf n) := by
  have heach : ∀ {make : Nat → YamlMake Value} (ms : List Nat), (∀ m, Goes cs C (make m)) →
      Goes cs C (do return Value.list (← ms.mapM make)) := by
    intro make ms hmake
    exact (Carries.mapM fun m _ => hmake m).bind fun vs _ => carries_pure trivial
  refine carries_get.bind fun s _ => ?_
  split
  · exact (goes_itemsOf n).bind fun items _ => heach items goes_valueOf
  · refine (goes_entriesOf n).bind fun entries _ => ?_
    exact (goes_mapData entries).bind fun done _ => carries_pure trivial
  · refine (goes_entriesOf n).bind fun entries _ => ?_
    exact (goes_mapData entries).bind fun done _ => carries_pure trivial
  · exact (goes_itemsOf n).bind fun items _ => heach items goes_pairData

theorem goes_fill (fuel index : Nat) : Goes cs C (fill fuel index) := by
  induction fuel generalizing index with
  | zero => exact carries_pure trivial
  | succ fuel ih =>
      unfold fill
      refine carries_get.bind fun s _ => ?_
      split
      · exact carries_pure trivial
      · refine (goes_contentOf _).bind fun v _ => ?_
        refine Carries.bind (carries_modify ?_) fun _ _ => ih _
        exact fun s hs => hs

end YamlMake

/-- The data of a graph whose nodes fit. -/
theorem YamlGraph.data_lands {g : YamlGraph} (h : ∀ p ∈ g, p.Fits cs) (root : Nat) :
    Lands (YamlFault.MayArise cs) (fun _ => True) (g.data root) := by
  have hwork : YamlMake.Goes cs (fun n => (g.tag n).isCollection = true)
      (do let v ← YamlMake.valueOf root; YamlMake.fill g.size 0; return v) := by
    refine (YamlMake.goes_valueOf root).bind fun v _ => ?_
    exact (YamlMake.goes_fill _ _).bind fun _ _ => carries_pure trivial
  unfold YamlGraph.data
  refine (hwork _ (YamlGraph.fits_of_points h)).bind fun r _ => ?_
  dsimp only
  split
  · exact trivial
  · exact trivial

/-- Reading a text meets only faults that the text may have. -/
theorem readYamlText_lands (cs : List Char) :
    Lands (YamlFault.MayArise cs) (fun _ => True) (readYamlText cs) := by
  have hgraph := ofTokens_lands (yamlTokens_fit cs)
  unfold readYamlText
  split
  · exact trivial
  · split
    next f hf =>
      rw [hf] at hgraph
      exact hgraph
    next => exact trivial
    next g root hg =>
      rw [hg] at hgraph
      exact YamlGraph.data_lands (hgraph g root rfl) root

end Docket
