import Docket.Proofs.Recording.Turns

/-!
# What classification depends on

Classification looks at a value as it stands: blocks are written out, and generators
give what is left of them. Of what has been drawn it looks at the generators of the value
only, and these are the only ones that it draws from (`remaining_congr`,
`remaining_frame`). So a value is classified alike in any two sessions in which its
generators are left alike, whatever has been done to others.

## Theorems

* `Value.Mirrors.unique`: There is one tree of the shape of a value.
* `remaining_frame`, `remaining_congr`: Other generators do not matter.
* `bodies_remaining`: What remains of a value has no other bodies.
* `yields_classify`: How a value is classified.
-/

namespace Docket

/-! ## Trees -/

mutual

/-- There is one tree of the shape of a value. -/
theorem Value.Mirrors.unique : (v : Value) → (n n' : Node) → v.Mirrors n → v.Mirrors n' → n = n'
  | .items _ xs, _, _, h, h' => by
    cases h with
    | items h =>
        cases h' with
        | items h' => exact congrArg Node.seq (mirrorsItems_unique xs _ _ h h')
  | .mapping _ es, _, _, h, h' => by
    cases h with
    | mapping hkeys hvalues =>
        cases h' with
        | mapping hkeys' hvalues' =>
            exact congrArg Node.mapping
              (mirrorsEntries_unique es _ _ hkeys hvalues hkeys' hvalues')
  | .generator _ xs _, _, _, h, h' => by
    cases h with
    | generator h =>
        cases h' with
        | generator h' => exact congrArg Node.seq (mirrorsItems_unique xs _ _ h h')
  | .node _, _, _, h, h' => by cases h; cases h'; rfl
  | .scalar _, _, _, h, h' => by cases h; cases h'; rfl
  | .range .., _, _, h, h' => by cases h; cases h'; rfl
  | .encodings, _, _, h, h' => by cases h; cases h'; rfl
  | .body _, _, _, h, h' => by cases h; cases h'; rfl
  | .bodyItems .., _, _, h, h' => by cases h; cases h'; rfl
  | .alien _, _, _, h, _ => by cases h
  | .failure _, _, _, h, _ => by cases h
  | .block _, _, _, h, _ => by cases h
  | .fieldRef .., _, _, h, _ => by cases h
  | .live _, _, _, h, _ => by cases h
  | .tag .., _, _, h, _ => by cases h

theorem mirrorsItems_unique : (xs : List Value) → (ns ns' : List Node) →
    List.Forall₂ Value.Mirrors xs ns → List.Forall₂ Value.Mirrors xs ns' → ns = ns'
  | [], _, _, h, h' => by cases h; cases h'; rfl
  | v :: rest, _, _, h, h' => by
    cases h with
    | cons hv hrest =>
        cases h' with
        | cons hv' hrest' =>
            rw [Value.Mirrors.unique v _ _ hv hv', mirrorsItems_unique rest _ _ hrest hrest']

theorem mirrorsEntries_unique : (es : List (Value × Value)) → (ns ns' : List (Name × Node)) →
    List.Forall₂ (fun f n => f.1 = n.1.toValue) es ns →
    List.Forall₂ (fun f n => f.2.Mirrors n.2) es ns →
    List.Forall₂ (fun f n => f.1 = n.1.toValue) es ns' →
    List.Forall₂ (fun f n => f.2.Mirrors n.2) es ns' → ns = ns'
  | [], _, _, h, _, h', _ => by cases h; cases h'; rfl
  | (k, v) :: rest, (name, n) :: ns, (name', n') :: ns', hkeys, hvalues, hkeys', hvalues' => by
    rw [List.forall₂_cons] at hkeys hvalues hkeys' hvalues'
    have hname : name = name' := Name.toValue_inj (hkeys.1.symm.trans hkeys'.1)
    have hnode : n = n' := Value.Mirrors.unique v n n' hvalues.1 hvalues'.1
    rw [hname, hnode, mirrorsEntries_unique rest ns ns' hkeys.2 hvalues.2 hkeys'.2 hvalues'.2]
  | _ :: _, [], _, h, _, _, _ => by cases h
  | _ :: _, _ :: _, [], _, _, h, _ => by cases h

end

/-! ## Other generators -/

mutual

/-- Looking at a value draws from its own generators only. -/
theorem remaining_frame : (v : Value) → (gone : Array Nat) →
    (v.remaining gone).2.size = gone.size ∧
      ∀ g, g ∉ v.generators → (v.remaining gone).2[g]? = gone[g]?
  | .items _ xs, gone => by
    rw [Value.remaining, Value.generators]
    exact remainingItems_frame xs gone
  | .mapping _ es, gone => by
    rw [Value.remaining, Value.generators]
    exact remainingEntries_frame es gone
  | .generator id xs none, gone => by
    rw [Value.remaining, Value.generators]
    exact remainingDrawn_frame xs id _ 0 gone
  | .generator id xs (some e), gone => by
    rw [Value.remaining, Value.generators]
    -- Reaching the failure counts as drawing once more from this generator.
    have hdrawn := remainingDrawn_frame xs id (gone[id]?.getD 0) 0 gone
    split
    · refine ⟨Array.size_modify.trans hdrawn.1, fun g hg => ?_⟩
      rw [List.mem_cons, not_or] at hg
      rw [Array.getElem?_modify, if_neg fun h => hg.1 h.symm,
        hdrawn.2 g fun h => (List.mem_cons.mp h).elim hg.1 hg.2]
    · exact hdrawn
  | .scalar _, _ => ⟨rfl, fun _ _ => rfl⟩
  | .alien _, _ => ⟨rfl, fun _ _ => rfl⟩
  | .range .., _ => ⟨rfl, fun _ _ => rfl⟩
  | .encodings, _ => ⟨rfl, fun _ _ => rfl⟩
  | .body _, _ => ⟨rfl, fun _ _ => rfl⟩
  | .bodyItems .., _ => ⟨rfl, fun _ _ => rfl⟩
  | .failure _, _ => ⟨rfl, fun _ _ => rfl⟩
  | .node _, _ => ⟨rfl, fun _ _ => rfl⟩
  | .block _, _ => ⟨rfl, fun _ _ => rfl⟩
  | .fieldRef .., _ => ⟨rfl, fun _ _ => rfl⟩
  | .live _, _ => ⟨rfl, fun _ _ => rfl⟩
  | .tag .., _ => ⟨rfl, fun _ _ => rfl⟩

theorem remainingItems_frame : (xs : List Value) → (gone : Array Nat) →
    (remainingItems gone xs).2.size = gone.size ∧
      ∀ g, g ∉ generatorsOfItems xs → (remainingItems gone xs).2[g]? = gone[g]?
  | [], _ => ⟨rfl, fun _ _ => rfl⟩
  | v :: rest, gone => by
    rw [remainingItems, generatorsOfItems]
    -- The items share what has been drawn: the rest is looked at after the first.
    rcases remaining_frame v gone with ⟨hsize, hothers⟩
    rcases remainingItems_frame rest (v.remaining gone).2 with ⟨hsize', hothers'⟩
    refine ⟨hsize'.trans hsize, fun g hg => ?_⟩
    rw [List.mem_append, not_or] at hg
    rw [hothers' g hg.2, hothers g hg.1]

theorem remainingEntries_frame : (es : List (Value × Value)) → (gone : Array Nat) →
    (remainingEntries gone es).2.size = gone.size ∧
      ∀ g, g ∉ generatorsOfEntries es → (remainingEntries gone es).2[g]? = gone[g]?
  | [], _ => ⟨rfl, fun _ _ => rfl⟩
  | (k, v) :: rest, gone => by
    rw [remainingEntries, generatorsOfEntries]
    rcases remaining_frame v gone with ⟨hsize, hothers⟩
    rcases remainingEntries_frame rest (v.remaining gone).2 with ⟨hsize', hothers'⟩
    refine ⟨hsize'.trans hsize, fun g hg => ?_⟩
    rw [List.mem_append, not_or] at hg
    rw [hothers' g hg.2, hothers g hg.1]

theorem remainingDrawn_frame : (xs : List Value) → (id drawn pos : Nat) → (gone : Array Nat) →
    (remainingDrawn id drawn pos gone xs).2.size = gone.size ∧
      ∀ g, g ∉ id :: generatorsOfItems xs →
        (remainingDrawn id drawn pos gone xs).2[g]? = gone[g]?
  | [], _, _, _, _ => ⟨rfl, fun _ _ => rfl⟩
  | v :: rest, id, drawn, pos, gone => by
    rw [remainingDrawn, generatorsOfItems]
    split
    -- An item that was drawn before is passed over, with all generators in it.
    · rcases remainingDrawn_frame rest id drawn (pos + 1) gone with ⟨hsize, hothers⟩
      refine ⟨hsize, fun g hg => hothers g fun h => hg ?_⟩
      exact List.mem_cons.mpr ((List.mem_cons.mp h).imp_right (List.mem_append_right _))
    · rcases remaining_frame v (gone.modify id fun _ => pos + 1) with ⟨hsize, hothers⟩
      rcases remainingDrawn_frame rest id drawn (pos + 1)
        (v.remaining (gone.modify id fun _ => pos + 1)).2 with ⟨hsize', hothers'⟩
      refine ⟨hsize'.trans (hsize.trans Array.size_modify), fun g hg => ?_⟩
      rw [List.mem_cons, List.mem_append, not_or, not_or] at hg
      rw [hothers' g fun h => (List.mem_cons.mp h).elim hg.1 hg.2.2, hothers g hg.2.1,
        Array.getElem?_modify, if_neg fun h => hg.1 h.symm]

end

/-- As much has been drawn from some generators. -/
def DrawnAlike (G : Nat → Prop) (gone gone' : Array Nat) : Prop :=
  ∀ g, G g → gone'[g]? = gone[g]?

theorem DrawnAlike.modify {G : Nat → Prop} {gone gone' : Array Nat} (h : DrawnAlike G gone gone')
    (id : Nat) (f : Nat → Nat) : DrawnAlike G (gone.modify id f) (gone'.modify id f) := by
  intro g hg
  rw [Array.getElem?_modify, Array.getElem?_modify, h g hg]

section

variable {G : Nat → Prop}

mutual

/-- What remains of a value depends on what has been drawn from its own generators. -/
theorem remaining_congr : (v : Value) → (gone gone' : Array Nat) → DrawnAlike G gone gone' →
    (∀ g ∈ v.generators, G g) →
      (v.remaining gone').1 = (v.remaining gone).1 ∧
        DrawnAlike G (v.remaining gone).2 (v.remaining gone').2
  | .items kind xs, gone, gone', h, hG => by
    rw [Value.remaining, Value.remaining]
    rcases remainingItems_congr xs gone gone' h hG with ⟨hxs, hdrawn⟩
    exact ⟨congrArg (Value.items kind) hxs, hdrawn⟩
  | .mapping kind es, gone, gone', h, hG => by
    rw [Value.remaining, Value.remaining]
    rcases remainingEntries_congr es gone gone' h hG with ⟨hes, hdrawn⟩
    exact ⟨congrArg (Value.mapping kind) hes, hdrawn⟩
  | .generator id xs none, gone, gone', h, hG => by
    rw [Value.remaining, Value.remaining, h id (hG id List.mem_cons_self)]
    rcases remainingDrawn_congr xs id (gone[id]?.getD 0) 0 gone gone' h
      fun g hg => hG g (List.mem_cons_of_mem id hg) with ⟨hxs, hdrawn⟩
    exact ⟨congrArg (Value.generator id · none) hxs, hdrawn⟩
  | .generator id xs (some e), gone, gone', h, hG => by
    -- As much is left of this generator, so either both come to the failure or neither does.
    rw [Value.remaining, Value.remaining, h id (hG id List.mem_cons_self)]
    rcases remainingDrawn_congr xs id (gone[id]?.getD 0) 0 gone gone' h
      fun g hg => hG g (List.mem_cons_of_mem id hg) with ⟨hxs, hdrawn⟩
    by_cases hleft : gone[id]?.getD 0 ≤ xs.length
    · simp only [hleft, if_true]
      exact ⟨congrArg (Value.generator id · (some e)) hxs, hdrawn.modify id _⟩
    · simp only [hleft, if_false]
      exact ⟨congrArg (Value.generator id · none) hxs, hdrawn⟩
  | .scalar _, _, _, h, _ => ⟨rfl, h⟩
  | .alien _, _, _, h, _ => ⟨rfl, h⟩
  | .range .., _, _, h, _ => ⟨rfl, h⟩
  | .encodings, _, _, h, _ => ⟨rfl, h⟩
  | .body _, _, _, h, _ => ⟨rfl, h⟩
  | .bodyItems .., _, _, h, _ => ⟨rfl, h⟩
  | .failure _, _, _, h, _ => ⟨rfl, h⟩
  | .node _, _, _, h, _ => ⟨rfl, h⟩
  | .block _, _, _, h, _ => ⟨rfl, h⟩
  | .fieldRef .., _, _, h, _ => ⟨rfl, h⟩
  | .live _, _, _, h, _ => ⟨rfl, h⟩
  | .tag .., _, _, h, _ => ⟨rfl, h⟩

theorem remainingItems_congr : (xs : List Value) → (gone gone' : Array Nat) →
    DrawnAlike G gone gone' → (∀ g ∈ generatorsOfItems xs, G g) →
      (remainingItems gone' xs).1 = (remainingItems gone xs).1 ∧
        DrawnAlike G (remainingItems gone xs).2 (remainingItems gone' xs).2
  | [], _, _, h, _ => ⟨rfl, h⟩
  | v :: rest, gone, gone', h, hG => by
    rw [remainingItems, remainingItems]
    rcases remaining_congr v gone gone' h fun g hg => hG g (List.mem_append_left _ hg) with
      ⟨hv, hdrawn⟩
    rcases remainingItems_congr rest _ _ hdrawn fun g hg => hG g (List.mem_append_right _ hg) with
      ⟨hrest, hdrawn'⟩
    exact ⟨congrArg₂ List.cons hv hrest, hdrawn'⟩

theorem remainingEntries_congr : (es : List (Value × Value)) → (gone gone' : Array Nat) →
    DrawnAlike G gone gone' → (∀ g ∈ generatorsOfEntries es, G g) →
      (remainingEntries gone' es).1 = (remainingEntries gone es).1 ∧
        DrawnAlike G (remainingEntries gone es).2 (remainingEntries gone' es).2
  | [], _, _, h, _ => ⟨rfl, h⟩
  | (k, v) :: rest, gone, gone', h, hG => by
    rw [remainingEntries, remainingEntries]
    rcases remaining_congr v gone gone' h fun g hg => hG g (List.mem_append_left _ hg) with
      ⟨hv, hdrawn⟩
    rcases remainingEntries_congr rest _ _ hdrawn
      fun g hg => hG g (List.mem_append_right _ hg) with ⟨hrest, hdrawn'⟩
    exact ⟨congrArg₂ List.cons (congrArg (Prod.mk k) hv) hrest, hdrawn'⟩

theorem remainingDrawn_congr : (xs : List Value) → (id drawn pos : Nat) →
    (gone gone' : Array Nat) → DrawnAlike G gone gone' → (∀ g ∈ generatorsOfItems xs, G g) →
      (remainingDrawn id drawn pos gone' xs).1 = (remainingDrawn id drawn pos gone xs).1 ∧
        DrawnAlike G (remainingDrawn id drawn pos gone xs).2
          (remainingDrawn id drawn pos gone' xs).2
  | [], _, _, _, _, _, h, _ => ⟨rfl, h⟩
  | v :: rest, id, drawn, pos, gone, gone', h, hG => by
    rw [remainingDrawn, remainingDrawn]
    split
    · exact remainingDrawn_congr rest id drawn (pos + 1) gone gone' h
        fun g hg => hG g (List.mem_append_right _ hg)
    · rcases remaining_congr v _ _ (h.modify id fun _ => pos + 1)
        fun g hg => hG g (List.mem_append_left _ hg) with ⟨hv, hdrawn⟩
      rcases remainingDrawn_congr rest id drawn (pos + 1) _ _ hdrawn
        fun g hg => hG g (List.mem_append_right _ hg) with ⟨hrest, hdrawn'⟩
      exact ⟨congrArg₂ List.cons hv hrest, hdrawn'⟩

end

end

/-! ## Bodies -/

mutual

/-- What remains of a value has no other bodies. -/
theorem bodies_remaining : (v : Value) → (gone : Array Nat) →
    ∀ b ∈ (v.remaining gone).1.bodies, b ∈ v.bodies
  | .items _ xs, gone => by
    rw [Value.remaining]
    exact itemsBodies_remaining xs gone
  | .mapping _ es, gone => by
    rw [Value.remaining]
    exact entriesBodies_remaining es gone
  | .generator id xs none, gone => by
    rw [Value.remaining]
    exact itemsBodies_remainingDrawn xs id _ 0 gone
  | .generator id xs (some e), gone => by
    rw [Value.remaining]
    split
    · exact itemsBodies_remainingDrawn xs id _ 0 gone
    · exact itemsBodies_remainingDrawn xs id _ 0 gone
  | .scalar _, _ => fun _ h => h
  | .alien _, _ => fun _ h => h
  | .range .., _ => fun _ h => h
  | .encodings, _ => fun _ h => h
  | .body _, _ => fun _ h => h
  | .bodyItems .., _ => fun _ h => h
  | .failure _, _ => fun _ h => h
  | .node _, _ => fun _ h => h
  | .block _, _ => fun _ h => h
  | .fieldRef .., _ => fun _ h => h
  | .live _, _ => fun _ h => h
  | .tag .., _ => fun _ h => h

theorem itemsBodies_remaining : (xs : List Value) → (gone : Array Nat) →
    ∀ b ∈ itemsBodies (remainingItems gone xs).1, b ∈ itemsBodies xs
  | [], _ => fun _ h => h
  | v :: rest, gone => by
    intro b hb
    rw [remainingItems, itemsBodies, List.mem_append] at hb
    rw [itemsBodies, List.mem_append]
    exact hb.imp (bodies_remaining v gone b) (itemsBodies_remaining rest _ b)

theorem entriesBodies_remaining : (es : List (Value × Value)) → (gone : Array Nat) →
    ∀ b ∈ entriesBodies (remainingEntries gone es).1, b ∈ entriesBodies es
  | [], _ => fun _ h => h
  | (k, v) :: rest, gone => by
    intro b hb
    rw [remainingEntries, entriesBodies, List.mem_append] at hb
    rw [entriesBodies, List.mem_append]
    exact hb.imp (bodies_remaining v gone b) (entriesBodies_remaining rest _ b)

theorem itemsBodies_remainingDrawn : (xs : List Value) → (id drawn pos : Nat) →
    (gone : Array Nat) →
      ∀ b ∈ itemsBodies (remainingDrawn id drawn pos gone xs).1, b ∈ itemsBodies xs
  | [], _, _, _, _ => fun _ h => h
  | v :: rest, id, drawn, pos, gone => by
    intro b hb
    rw [remainingDrawn] at hb
    rw [itemsBodies, List.mem_append]
    split at hb
    · exact Or.inr (itemsBodies_remainingDrawn rest id drawn (pos + 1) gone b hb)
    · rw [itemsBodies, List.mem_append] at hb
      exact hb.imp (bodies_remaining v _ b) (itemsBodies_remainingDrawn rest id drawn (pos + 1) _ b)

end

/-! ## Classification -/

/-- A value is classified exactly if what remains of it is accepted, as the tree of its
    shape, and what has been drawn from its generators is drawn. -/
theorem yields_classify {v : Value} {path : Name} {s s' : Session} {n : Node} :
    Yields (v.classify path) s (.ok n) s' ↔
      ((v.remaining s.drawn).1.Accepted ∧ (v.remaining s.drawn).1.Mirrors n) ∧
        s' = { s with drawn := (v.remaining s.drawn).2 } := by
  rcases classifies_remaining v path s with ⟨m, hm, haccepted, hmirrors⟩ | ⟨e, left, he, hfails⟩
  · constructor
    · intro h
      rcases yields_unique h hm with ⟨hn, rfl⟩
      cases hn
      exact ⟨⟨haccepted, hmirrors⟩, rfl⟩
    -- A tree of the same shape is the one that was found.
    · rintro ⟨⟨-, hmirrors'⟩, rfl⟩
      rw [Value.Mirrors.unique _ n m hmirrors' hmirrors]
      exact hm
  · refine ⟨fun h => absurd (yields_unique h he).1 ok_ne_error, ?_⟩
    rintro ⟨⟨haccepted, -⟩, -⟩
    exact absurd haccepted hfails.not_accepted

end Docket
