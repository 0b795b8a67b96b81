import Docket.Proofs.Recording.Classifying
import Docket.Proofs.Recording.Grammar

/-!
# Accepting values

Classification gives a value its tree exactly if the value belongs to the
grammar, and otherwise reports its first fault.

Classification draws from generators as it goes, so what it sees of a value
depends on what has been drawn already, also on what it has drawn itself when a
generator occurs twice. The grammar looks at a value alone. `Value.remaining`
brings the two together: it puts in the place of each generator what is left for
it to give, and classification judges a value by what remains of it. All remains
of a value whose generators are fresh (`Session.standing_fresh`).

The proof follows the recursion of classification. The parts of a collection are
judged one after another, each in the state that the one before has left, and the
first that is not accepted decides (`finds_cons`, `finds_entry`).

## Main definitions

* `Value.remaining`, `Session.standing`: What a value still has to give.
* `Finds`: Classification comes to something good, or fails for a known reason.

## Theorems

* `Session.standing_fresh`: Of a value that nothing has been drawn from, all remains.
* `classifies_remaining`: Classification accepts a value or finds its first fault.
* `toNode_accepts`: The tree of a value in any session.
-/

namespace Docket

/-! ## What is left of generators -/

mutual

/-- A value in which each generator has only the items that it still gives, and
    fails only if it still fails, when the parts are looked at from left to right;
    and how far the generators have been drawn then. -/
def Value.remaining (gone : Array Nat) : Value → Value × Array Nat
  | .mapping kind entries =>
    let r := remainingEntries gone entries
    (.mapping kind r.1, r.2)
  | .items kind xs =>
    let r := remainingItems gone xs
    (.items kind r.1, r.2)
  | .generator id xs ending =>
    let drawn := gone[id]?.getD 0
    let r := remainingDrawn id drawn 0 gone xs
    match ending with
    | none => (.generator id r.1 none, r.2)
    | some e =>
      if drawn ≤ xs.length then
        (.generator id r.1 (some e), r.2.modify id fun _ => xs.length + 1)
      else (.generator id r.1 none, r.2)
  | v => (v, gone)

def remainingItems (gone : Array Nat) : List Value → List Value × Array Nat
  | [] => ([], gone)
  | v :: rest =>
    let r := v.remaining gone
    let rs := remainingItems r.2 rest
    (r.1 :: rs.1, rs.2)

def remainingEntries (gone : Array Nat) :
    List (Value × Value) → List (Value × Value) × Array Nat
  | [] => ([], gone)
  | (k, v) :: rest =>
    let r := v.remaining gone
    let rs := remainingEntries r.2 rest
    ((k, r.1) :: rs.1, rs.2)

/-- What is left of the items of generator `id`, of which `drawn` are gone; the
    first item given is its item `pos`. -/
def remainingDrawn (id drawn pos : Nat) (gone : Array Nat) :
    List Value → List Value × Array Nat
  | [] => ([], gone)
  | v :: rest =>
    if pos < drawn then remainingDrawn id drawn (pos + 1) gone rest
    else
      let r := v.remaining (gone.modify id fun _ => pos + 1)
      let rs := remainingDrawn id drawn (pos + 1) r.2 rest
      (r.1 :: rs.1, rs.2)

end

/-- A value as it stands in a session: blocks are written out, and generators
    have the items that are left. -/
def Session.standing (s : Session) (v : Value) : Value := ((s.snapshot v).remaining s.drawn).1

namespace Session.Ready

variable {g : Nat} {gs : List Nat} {s s' : Session}

theorem tail (h : s.Ready (g :: gs)) : s.Ready gs :=
  ⟨(List.nodup_cons.mp h.nodup).2, fun i hi => h.undrawn i (List.mem_cons_of_mem g hi)⟩

/-- Generators are as ready as they were when another one has been drawn from. -/
theorem undrawn_of (h : s.Ready gs) (hdrew : Drew [g] s s') (hg : g ∉ gs) : s'.Ready gs := by
  refine ⟨h.nodup, fun i hi => ?_⟩
  rw [hdrew.others i fun hmem => hg (List.mem_singleton.mp hmem ▸ hi)]
  exact h.undrawn i hi

end Session.Ready

mutual

theorem remaining_drew : (v : Value) → (s : Session) → s.Ready v.generators →
    (v.remaining s.drawn).1 = v ∧
      Drew v.generators s { s with drawn := (v.remaining s.drawn).2 }
  | .items kind xs, s, h => by
    rw [Value.generators] at h ⊢
    rw [Value.remaining]
    rcases remainingItems_drew xs s h with ⟨hxs, hdrew⟩
    exact ⟨congrArg _ hxs, hdrew⟩
  | .mapping kind es, s, h => by
    rw [Value.generators] at h ⊢
    rw [Value.remaining]
    rcases remainingEntries_drew es s h with ⟨hes, hdrew⟩
    exact ⟨congrArg _ hes, hdrew⟩
  | .generator id xs none, s, h => by
    rw [Value.generators] at h ⊢
    rw [Value.remaining, h.undrawn id List.mem_cons_self]
    have hnodup := List.nodup_cons.mp h.nodup
    rcases remainingDrawn_drew xs id 0 s h.tail hnodup.1 with ⟨hxs, hdrew⟩
    exact ⟨congrArg (Value.generator id · none) hxs, hdrew⟩
  -- The failing end counts as one more step, behind all the items.
  | .generator id xs (some e), s, h => by
    rw [Value.generators] at h ⊢
    rw [Value.remaining, h.undrawn id List.mem_cons_self]
    have hnodup := List.nodup_cons.mp h.nodup
    rcases remainingDrawn_drew xs id 0 s h.tail hnodup.1 with ⟨hxs, hdrew⟩
    refine ⟨congrArg (Value.generator id · (some e)) hxs, ?_⟩
    exact (hdrew.trans (drew_setDrawn _ id (xs.length + 1) [])).mono fun g hg => by
      rcases List.mem_append.mp hg with hg | hg
      · exact hg
      · exact List.mem_singleton.mp hg ▸ List.mem_cons_self
  | .scalar _, s, _ => ⟨rfl, Drew.refl _ s⟩
  | .alien _, s, _ => ⟨rfl, Drew.refl _ s⟩
  | .range .., s, _ => ⟨rfl, Drew.refl _ s⟩
  | .encodings, s, _ => ⟨rfl, Drew.refl _ s⟩
  | .body _, s, _ => ⟨rfl, Drew.refl _ s⟩
  | .bodyItems .., s, _ => ⟨rfl, Drew.refl _ s⟩
  | .failure _, s, _ => ⟨rfl, Drew.refl _ s⟩
  | .node _, s, _ => ⟨rfl, Drew.refl _ s⟩
  | .block _, s, _ => ⟨rfl, Drew.refl _ s⟩
  | .fieldRef .., s, _ => ⟨rfl, Drew.refl _ s⟩
  | .live _, s, _ => ⟨rfl, Drew.refl _ s⟩
  | .tag .., s, _ => ⟨rfl, Drew.refl _ s⟩

theorem remainingItems_drew : (vs : List Value) → (s : Session) →
    s.Ready (generatorsOfItems vs) →
      (remainingItems s.drawn vs).1 = vs ∧
        Drew (generatorsOfItems vs) s { s with drawn := (remainingItems s.drawn vs).2 }
  | [], s, _ => ⟨rfl, Drew.refl _ s⟩
  | v :: rest, s, h => by
    rw [generatorsOfItems] at h ⊢
    rw [remainingItems]
    rcases remaining_drew v s h.left with ⟨hv, hdrew⟩
    rcases remainingItems_drew rest _ (h.drew hdrew) with ⟨hrest, hdrew'⟩
    exact ⟨congrArg₂ List.cons hv hrest, hdrew.trans hdrew'⟩

theorem remainingEntries_drew : (es : List (Value × Value)) → (s : Session) →
    s.Ready (generatorsOfEntries es) →
      (remainingEntries s.drawn es).1 = es ∧
        Drew (generatorsOfEntries es) s { s with drawn := (remainingEntries s.drawn es).2 }
  | [], s, _ => ⟨rfl, Drew.refl _ s⟩
  | (k, v) :: rest, s, h => by
    rw [generatorsOfEntries] at h ⊢
    rw [remainingEntries]
    rcases remaining_drew v s h.left with ⟨hv, hdrew⟩
    rcases remainingEntries_drew rest _ (h.drew hdrew) with ⟨hrest, hdrew'⟩
    exact ⟨congrArg₂ List.cons (congrArg (Prod.mk k) hv) hrest, hdrew.trans hdrew'⟩

theorem remainingDrawn_drew : (vs : List Value) → (id pos : Nat) → (s : Session) →
    s.Ready (generatorsOfItems vs) → id ∉ generatorsOfItems vs →
      (remainingDrawn id 0 pos s.drawn vs).1 = vs ∧
        Drew (id :: generatorsOfItems vs) s
          { s with drawn := (remainingDrawn id 0 pos s.drawn vs).2 }
  | [], id, pos, s, _, _ => ⟨rfl, Drew.refl _ s⟩
  | v :: rest, id, pos, s, h, hid => by
    rw [generatorsOfItems] at h hid ⊢
    rw [remainingDrawn, if_neg (Nat.not_lt_zero pos)]
    have hset := drew_setDrawn s id (pos + 1) []
    -- Drawing the item leaves the iterators within it as they were, as none of them is this one.
    have hready := h.undrawn_of hset hid
    rcases remaining_drew v _ hready.left with ⟨hv, hdrew⟩
    rcases remainingDrawn_drew rest id (pos + 1) _ (hready.drew hdrew)
      fun hmem => hid (List.mem_append_right _ hmem) with ⟨hrest, hdrew'⟩
    refine ⟨congrArg₂ List.cons hv hrest, (hset.trans (hdrew.trans hdrew')).mono fun g hg => ?_⟩
    simp only [List.mem_append, List.mem_cons, List.not_mem_nil, or_false] at hg ⊢
    rcases hg with rfl | hg | rfl | hg
    · exact Or.inl rfl
    · exact Or.inr (Or.inl hg)
    · exact Or.inl rfl
    · exact Or.inr (Or.inr hg)

end

/-- Of a value whose generators have not been drawn from, all remains. -/
theorem Session.standing_fresh {s : Session} {v : Value} (hheld : v.held = [])
    (hfresh : s.Ready v.generators) : s.standing v = v := by
  have hsnapshot : s.snapshot v = v := Value.mapLive_free hheld
  rw [Session.standing, hsnapshot]
  exact (remaining_drew v s hfresh).1

/-! ## Classification -/

/-- Classification comes to something good or fails for a known reason, and it has
    drawn from generators only. -/
def Finds {α : Type} (p : Run α) (s : Session) (gone : Array Nat) (good : α → Prop)
    (bad : Failure → Prop) : Prop :=
  (∃ a, Yields p s (.ok a) { s with drawn := gone } ∧ good a) ∨
    ∃ e left, Yields p s (.error e) { s with drawn := left } ∧ bad e

namespace Finds

variable {α β : Type} {p : Run α} {s : Session} {gone : Array Nat} {good good' : α → Prop}
  {bad bad' : Failure → Prop}

theorem pure {a : α} (h : good a) : Finds (Pure.pure a) s s.drawn good bad :=
  Or.inl ⟨a, yields_pure.mpr ⟨rfl, rfl⟩, h⟩

theorem throw {e : Failure} (h : bad e) : Finds (MonadExcept.throw e) s gone good bad :=
  Or.inr ⟨e, s.drawn, yields_throw.mpr ⟨rfl, rfl⟩, h⟩

theorem mono (h : Finds p s gone good bad) (hgood : ∀ a, good a → good' a)
    (hbad : ∀ e, bad e → bad' e) : Finds p s gone good' bad' := by
  rcases h with ⟨a, hp, ha⟩ | ⟨e, left, hp, he⟩
  · exact Or.inl ⟨a, hp, hgood a ha⟩
  · exact Or.inr ⟨e, left, hp, hbad e he⟩

/-- Classification in two parts, each of which may fail for the same reasons. -/
theorem bind {f : α → Run β} {m : Array Nat} {good' : β → Prop}
    (hp : Finds p s m good bad)
    (hf : ∀ a, good a → Finds (f a) { s with drawn := m } gone good' bad) :
    Finds (p >>= f) s gone good' bad := by
  rcases hp with ⟨a, hp, ha⟩ | ⟨e, left, hp, he⟩
  · rcases hf a ha with ⟨b, hf, hb⟩ | ⟨e, left, hf, he⟩
    · exact Or.inl ⟨b, (yields_bind_ok hp).mpr hf, hb⟩
    · exact Or.inr ⟨e, left, (yields_bind_ok hp).mpr hf, he⟩
  · exact Or.inr ⟨e, left, (yields_bind_error hp).mpr ⟨rfl, rfl⟩, he⟩

theorem map (h : Finds p s gone good bad) (g : α → β) {good' : β → Prop}
    (hgood : ∀ a, good a → good' (g a)) :
    Finds (do let a ← p; Pure.pure (g a)) s gone good' bad :=
  h.bind fun a ha => Finds.pure (hgood a ha)

end Finds

/-- Items are accepted, and nodes mirror them. -/
def MirrorsAll (vs : List Value) (ns : List Node) : Prop :=
  (∀ v ∈ vs, v.Accepted) ∧ List.Forall₂ Value.Mirrors vs ns

def MirrorsEntries (es : List (Value × Value)) (ns : List (Name × Node)) : Prop :=
  ((∀ f ∈ es, f.1.IsText) ∧ ∀ f ∈ es, f.2.Accepted) ∧
    List.Forall₂ (fun f n => f.1 = n.1.toValue) es ns ∧
      List.Forall₂ (fun f n => f.2.Mirrors n.2) es ns

section

variable {s : Session} {gone : Array Nat} {path : Name}

/-- One item is classified, and then the rest. -/
theorem finds_cons {i : Nat} {v : Value} {vs : List Value} {m : Array Nat} {p : Run Node}
    {q : Run (List Node)}
    (hp : Finds p s m (fun n => v.Accepted ∧ v.Mirrors n) (v.Fails (itemPath path i)))
    (hq : Finds q { s with drawn := m } gone (MirrorsAll vs) (FailsAmong path (i + 1) vs)) :
    Finds (do let n ← p; return n :: (← q)) s gone (MirrorsAll (v :: vs))
      (FailsAmong path i (v :: vs)) := by
  refine (hp.mono (fun _ h => h) fun e he => failsAmong_here he).bind fun n hn => ?_
  refine (hq.mono (fun _ h => h) fun e he => failsAmong_after hn.1 he).map _ fun ns hns => ?_
  exact ⟨List.forall_mem_cons.mpr ⟨hn.1, hns.1⟩, .cons hn.2 hns.2⟩

/-- One entry is classified, and then the rest. -/
theorem finds_entry {name : Name} {v : Value} {es : List (Value × Value)} {m : Array Nat}
    {p : Run Node} {q : Run (List (Name × Node))}
    (hp : Finds p s m (fun n => v.Accepted ∧ v.Mirrors n) (v.Fails (fieldPath path name)))
    (hq : Finds q { s with drawn := m } gone (MirrorsEntries es) (FailsAmongEntries path es)) :
    Finds (do let n ← p; return (name, n) :: (← q)) s gone
      (MirrorsEntries ((name.toValue, v) :: es))
      (FailsAmongEntries path ((name.toValue, v) :: es)) := by
  refine (hp.mono (fun _ h => h) fun e he => ?_).bind fun n hn => ?_
  · exact ⟨[], name.toValue, v, es, rfl, nofun, nofun, Or.inr ⟨name, rfl, he⟩⟩
  · refine (hq.mono (fun _ h => h) fun e he => ?_).map _ fun ns hns => ?_
    · exact failsAmongEntries_after ⟨name, rfl⟩ hn.1 he
    · exact ⟨⟨List.forall_mem_cons.mpr ⟨⟨name, rfl⟩, hns.1.1⟩,
        List.forall_mem_cons.mpr ⟨hn.1, hns.1.2⟩⟩, .cons rfl hns.2.1, .cons hn.2 hns.2.2⟩

theorem finds_drawnOf {bad : Failure → Prop} (id : Nat) :
    Finds (Run.drawnOf id) s s.drawn (fun n => n = s.drawn[id]?.getD 0) bad := by
  refine Or.inl ⟨s.drawn[id]?.getD 0, ?_, rfl⟩
  unfold Run.drawnOf
  exact (yields_bind_ok (yields_get.mpr ⟨rfl, rfl⟩)).mpr (yields_pure.mpr ⟨rfl, rfl⟩)

theorem finds_setDrawn {bad : Failure → Prop} (id n : Nat) :
    Finds (Run.setDrawn id n) s (s.drawn.modify id fun _ => n) (fun _ => True) bad :=
  Or.inl ⟨(), yields_setDrawn.mpr ⟨rfl, rfl⟩, trivial⟩

/-- A key that is no text is refused. -/
theorem finds_key {k v w : Value} {es ws : List (Value × Value)} (hk : ¬ k.IsText) :
    Finds (classifyEntries path ((k, v) :: es)) s gone (MirrorsEntries ((k, w) :: ws))
      (FailsAmongEntries path ((k, w) :: ws)) := by
  have hthrow : classifyEntries path ((k, v) :: es) = throw (.refuse .key k path) := by
    cases k with
    | scalar t =>
        cases t with
        | text name form => exact absurd ⟨⟨name, form⟩, rfl⟩ hk
        | _ => rfl
    | _ => rfl
  rw [hthrow]
  exact Finds.throw ⟨[], k, w, ws, rfl, nofun, nofun, Or.inl ⟨hk, rfl⟩⟩

theorem finds_scalar (t : Scalar) :
    Finds ((Value.scalar t).classify path) s s.drawn
      (fun n => (Value.scalar t).Accepted ∧ (Value.scalar t).Mirrors n)
      ((Value.scalar t).Fails path) := by
  cases t with
  | float x form =>
      rw [Value.classify]
      by_cases hx : x.isFinite = true
      · rw [if_pos hx]
        refine Finds.pure ⟨.scalar ?_, .scalar⟩
        rintro y form' hy
        cases hy
        exact hx
      · rw [if_neg hx]
        exact Finds.throw (Value.Fails.self (.nonFinite (Bool.eq_false_iff.mpr hx)))
  | _ => exact Finds.pure ⟨.scalar nofun, .scalar⟩

end

section

variable {path : Name}

mutual

/-- Classification accepts what remains of a value, and gives a tree of its shape, or
    it finds its first fault. -/
theorem classifies_remaining : (v : Value) → (path : Name) → (s : Session) →
    Finds (v.classify path) s (v.remaining s.drawn).2
      (fun n => (v.remaining s.drawn).1.Accepted ∧ (v.remaining s.drawn).1.Mirrors n)
      ((v.remaining s.drawn).1.Fails path)
  | .scalar t, path, s => finds_scalar t
  | .node n, path, s => by
    rw [Value.classify]
    exact Finds.pure ⟨.node, .node⟩
  | .items kind xs, path, s => by
    rw [Value.classify]
    exact ((classifies_remainingItems xs path 0 s).mono (fun _ h => h)
      fun e he => Value.Fails.items he).map _ fun ns hns => ⟨.items hns.1, .items hns.2⟩
  | .mapping kind es, path, s => by
    rw [Value.classify]
    exact ((classifies_remainingEntries es path s).mono (fun _ h => h)
      fun e he => Value.Fails.mapping he).map _
        fun ns hns => ⟨.mapping hns.1.1 hns.1.2, .mapping hns.2.1 hns.2.2⟩
  | .generator id xs none, path, s => by
    rw [Value.classify, Value.remaining]
    refine (finds_drawnOf id).bind ?_
    rintro drawn rfl
    exact ((classifies_remainingDrawn xs path id _ 0 0 s).mono (fun _ h => h)
      fun e he => Value.Fails.generator he).map _
        fun ns hns => ⟨.generator hns.1, .generator hns.2⟩
  | .generator id xs (some cause), path, s => by
    rw [Value.classify, Value.remaining]
    refine (finds_drawnOf id).bind ?_
    rintro drawn rfl
    have hdrawn := classifies_remainingDrawn xs path id (s.drawn[id]?.getD 0) 0 0 s
    -- An exhausted generator does not fail again.
    by_cases hleft : s.drawn[id]?.getD 0 ≤ xs.length
    · simp only [hleft, if_true]
      refine (hdrawn.mono (fun _ h => h) fun e he => Value.Fails.generator he).bind fun ns hns => ?_
      refine (finds_setDrawn id (xs.length + 1)).bind fun _ _ => ?_
      exact Finds.throw (fails_generator.mpr (Or.inr ⟨hns.1, cause, rfl, rfl⟩))
    · simp only [hleft, if_false]
      exact (hdrawn.mono (fun _ h => h) fun e he => Value.Fails.generator he).map _
        fun ns hns => ⟨.generator hns.1, .generator hns.2⟩
  | .range start stop step, path, s => by
    rw [Value.classify]
    exact Finds.pure ⟨.range, .range⟩
  | .encodings, path, s => by
    rw [Value.classify]
    exact Finds.pure ⟨.encodings, .encodings⟩
  | .body b, path, s => by
    rw [Value.classify]
    exact Finds.pure ⟨.body, .body⟩
  | .bodyItems b xs, path, s => by
    rw [Value.classify]
    exact Finds.pure ⟨.bodyItems, .bodyItems⟩
  | .block id, path, s => by
    rw [Value.classify]
    exact Finds.throw (Value.Fails.self .block)
  | .fieldRef id ps, path, s => by
    rw [Value.classify]
    exact Finds.throw (Value.Fails.self .fieldRef)
  | .alien a, path, s => by
    cases a with
    | binary kind bytes => exact Finds.throw (Value.Fails.self .binary)
    | _ => exact Finds.throw (Value.Fails.self (.alien nofun))
  | .failure e, path, s => Finds.throw (Value.Fails.self .failure)
  | .live id, path, s => Finds.throw (Value.Fails.self .live)
  | .tag n v, path, s => Finds.throw (Value.Fails.self .tag)

theorem classifies_remainingItems : (vs : List Value) → (path : Name) → (i : Nat) →
    (s : Session) → Finds (classifyItems path i vs) s (remainingItems s.drawn vs).2
      (MirrorsAll (remainingItems s.drawn vs).1) (FailsAmong path i (remainingItems s.drawn vs).1)
  | [], path, i, s => by
    rw [classifyItems]
    exact Finds.pure ⟨nofun, .nil⟩
  | v :: rest, path, i, s => by
    rw [classifyItems, remainingItems]
    exact finds_cons (classifies_remaining v (itemPath path i) s)
      (classifies_remainingItems rest path (i + 1) { s with drawn := (v.remaining s.drawn).2 })

theorem classifies_remainingEntries : (es : List (Value × Value)) → (path : Name) →
    (s : Session) → Finds (classifyEntries path es) s (remainingEntries s.drawn es).2
      (MirrorsEntries (remainingEntries s.drawn es).1)
      (FailsAmongEntries path (remainingEntries s.drawn es).1)
  | [], path, s => by
    rw [classifyEntries]
    exact Finds.pure ⟨⟨nofun, nofun⟩, .nil, .nil⟩
  | (k, v) :: rest, path, s => by
    -- A key that is no text is at fault before its value is looked at.
    by_cases hk : k.IsText
    · rcases hk with ⟨name, rfl⟩
      rw [Name.toValue, classifyEntries, remainingEntries]
      exact finds_entry (classifies_remaining v (fieldPath path name) s)
        (classifies_remainingEntries rest path { s with drawn := (v.remaining s.drawn).2 })
    · rw [remainingEntries]
      exact finds_key hk

theorem classifies_remainingDrawn : (vs : List Value) → (path : Name) →
    (id drawn pos i : Nat) → (s : Session) →
      Finds (drawItems path id drawn pos i vs) s (remainingDrawn id drawn pos s.drawn vs).2
        (MirrorsAll (remainingDrawn id drawn pos s.drawn vs).1)
        (FailsAmong path i (remainingDrawn id drawn pos s.drawn vs).1)
  | [], path, id, drawn, pos, i, s => by
    rw [drawItems]
    exact Finds.pure ⟨nofun, .nil⟩
  | v :: rest, path, id, drawn, pos, i, s => by
    rw [drawItems, remainingDrawn]
    -- What was drawn earlier is passed over, and the numbers of the items do not count it.
    by_cases hpos : pos < drawn
    · rw [if_pos hpos, if_pos hpos]
      exact classifies_remainingDrawn rest path id drawn (pos + 1) i s
    · rw [if_neg hpos, if_neg hpos]
      refine (finds_setDrawn id (pos + 1)).bind fun _ _ => ?_
      exact finds_cons (classifies_remaining v (itemPath path i) _)
        (classifies_remainingDrawn rest path id drawn (pos + 1) (i + 1) _)

end

end

theorem finds_toNode (v : Value) (path : Name) (s : Session) :
    ∃ gone, Finds (toNode v path) s gone
      (fun n => (s.standing v).Accepted ∧ (s.standing v).Mirrors n)
      ((s.standing v).Fails path) := by
  refine ⟨((s.snapshot v).remaining s.drawn).2, ?_⟩
  unfold toNode
  rcases classifies_remaining (s.snapshot v) path s with ⟨n, hn, hgood⟩ | ⟨e, left, he, hbad⟩
  · exact Or.inl ⟨n, (yields_bind_ok (yields_get.mpr ⟨rfl, rfl⟩)).mpr hn, hgood⟩
  · exact Or.inr ⟨e, left, (yields_bind_ok (yields_get.mpr ⟨rfl, rfl⟩)).mpr he, hbad⟩

/-- The second item of the list at `b`, in the mapping at `a`, is the first offender. -/
example :
    ((toNode
      (.dict [(.text "a", .dict [(.text "b", .list [.int 1, .block 0])]), (.int 2, .null)])
      (.ofText "")).run.run .initial).1 =
      .error (.refused .handle "Block" (some (.ofText "a.b[1]"))) := by rfl

end Docket
