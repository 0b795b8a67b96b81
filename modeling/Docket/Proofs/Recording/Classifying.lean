import Docket.Proofs.Recording.Evaluation
import Mathlib.Data.List.Perm.Subperm

/-!
# Classifying values

A value means what its node means, once it has been classified; if it cannot be
classified, it means nothing. What a collection means is put together from what
its parts mean, as for nodes.

Classifying draws from generators, each of which gives its items once; a value
brings every generator along once, and none of them has been drawn from
(`Session.Ready`). What has been classified before has drawn from other generators
only (`Drew`), so the rest is as ready as it was.

## Main definitions

* `Value.generators`, `Session.Ready`, `Drew`: Generators that are still to give
  their items, and those that have given them.
* `Classifies`: Classification succeeds, or there is a reason why it should not.
* `Value.Means`: What a value means.

## Theorems

* `Classifies.bind`: Classification in two parts.
* `means_items`, `means_generator`, `means_fields`: What values mean, by their parts.
* `means_refused`: A mapping with a key that is no text means nothing.
* `Value.IsData.means`: Data means itself.
-/

namespace Docket

/-! ## Generators -/

mutual

/-- The generators whose items are part of a value, from left to right. -/
def Value.generators : Value → List Nat
  | .items _ xs => generatorsOfItems xs
  | .mapping _ entries => generatorsOfEntries entries
  | .generator id xs _ => id :: generatorsOfItems xs
  | _ => []

def generatorsOfItems : List Value → List Nat
  | [] => []
  | v :: rest => v.generators ++ generatorsOfItems rest

def generatorsOfEntries : List (Value × Value) → List Nat
  | [] => []
  | (_, v) :: rest => v.generators ++ generatorsOfEntries rest

end

/-- Distinct generators that have not been drawn from. -/
structure Session.Ready (s : Session) (gs : List Nat) : Prop where
  nodup : gs.Nodup
  undrawn : ∀ g ∈ gs, s.drawn[g]? = some 0

/-- Some generators have been drawn from. -/
structure Drew (gs : List Nat) (s s' : Session) : Prop where
  blocks : s'.blocks = s.blocks
  known : s'.drawn.size = s.drawn.size
  others : ∀ g, g ∉ gs → s'.drawn[g]? = s.drawn[g]?
  counters : s'.counters = s.counters

namespace Drew

variable {gs gs' : List Nat} {s m s' : Session}

theorem refl (gs : List Nat) (s : Session) : Drew gs s s := ⟨rfl, rfl, fun _ _ => rfl, rfl⟩

theorem trans (h₁ : Drew gs s m) (h₂ : Drew gs' m s') : Drew (gs ++ gs') s s' := by
  refine ⟨h₂.blocks.trans h₁.blocks, h₂.known.trans h₁.known, fun g hg => ?_,
    h₂.counters.trans h₁.counters⟩
  rw [List.mem_append, not_or] at hg
  rw [h₂.others g hg.2, h₁.others g hg.1]

theorem mono (h : Drew gs s s') (hgs : ∀ g ∈ gs, g ∈ gs') : Drew gs' s s' :=
  ⟨h.blocks, h.known, fun g hg => h.others g fun hmem => hg (hgs g hmem), h.counters⟩

end Drew

/-- What is left when some generators have been drawn from. -/
theorem Session.Ready.drew {gs gs' : List Nat} {s s' : Session} (h : s.Ready (gs ++ gs'))
    (hdrew : Drew gs s s') : s'.Ready gs' := by
  rcases List.nodup_append.mp h.nodup with ⟨-, hnodup, hdisjoint⟩
  refine ⟨hnodup, fun g hg => ?_⟩
  rw [hdrew.others g fun hmem => hdisjoint g hmem g hg rfl]
  exact h.undrawn g (List.mem_append_right _ hg)

theorem nodup_of_subperm {gs gs' : List Nat} (hsub : gs'.Subperm gs) (h : gs.Nodup) :
    gs'.Nodup := by
  rcases hsub with ⟨l, hperm, hl⟩
  exact hperm.nodup_iff.mp (hl.nodup h)

theorem Session.Ready.subperm {gs gs' : List Nat} {s : Session} (h : s.Ready gs)
    (hsub : gs'.Subperm gs) : s.Ready gs' where
  nodup := nodup_of_subperm hsub h.nodup
  undrawn g hg := h.undrawn g (hsub.subset hg)

theorem Session.Ready.left {gs gs' : List Nat} {s : Session} (h : s.Ready (gs ++ gs')) :
    s.Ready gs :=
  ⟨(List.nodup_append.mp h.nodup).1, fun g hg => h.undrawn g (List.mem_append_left _ hg)⟩

/-- Classification that draws from some generators comes to something good, or it
    fails for a reason. -/
def Classifies {α : Type} (p : Run α) (s : Session) (gs : List Nat) (Q : α → Prop)
    (reason : Prop) : Prop :=
  (∃ a s', Yields p s (.ok a) s' ∧ Drew gs s s' ∧ Q a) ∨
    (reason ∧ ∃ e s', Yields p s (.error e) s')

namespace Classifies

variable {α β : Type} {p : Run α} {f : α → Run β} {s : Session} {gs : List Nat} {Q : α → Prop}
  {reason : Prop}

theorem pure {a : α} (h : Q a) : Classifies (Pure.pure a) s gs Q reason :=
  Or.inl ⟨a, s, yields_pure.mpr ⟨rfl, rfl⟩, Drew.refl gs s, h⟩

theorem throw {e : Failure} (h : reason) : Classifies (MonadExcept.throw e : Run α) s gs Q reason :=
  Or.inr ⟨h, e, s, yields_throw.mpr ⟨rfl, rfl⟩⟩

theorem mono {gs' : List Nat} {Q' : α → Prop} {reason' : Prop} (h : Classifies p s gs Q reason)
    (hgs : ∀ g ∈ gs, g ∈ gs') (hQ : ∀ a, Q a → Q' a) (hreason : reason → reason') :
    Classifies p s gs' Q' reason' := by
  rcases h with ⟨a, s', hp, hdrew, ha⟩ | ⟨hr, hp⟩
  · exact Or.inl ⟨a, s', hp, hdrew.mono hgs, hQ a ha⟩
  · exact Or.inr ⟨hreason hr, hp⟩

/-- Classification in two parts. -/
theorem bind {gs' : List Nat} {Q' : β → Prop} {reason' : Prop} (hp : Classifies p s gs Q reason)
    (hf : ∀ a s', Drew gs s s' → Q a → Classifies (f a) s' gs' Q' reason') :
    Classifies (p >>= f) s (gs ++ gs') Q' (reason ∨ reason') := by
  rcases hp with ⟨a, m, hp, hdrew, ha⟩ | ⟨hr, e, m, hp⟩
  · rcases hf a m hdrew ha with ⟨b, s', hf, hdrew', hb⟩ | ⟨hr, e, s', hf⟩
    · exact Or.inl ⟨b, s', (yields_bind_ok hp).mpr hf, hdrew.trans hdrew', hb⟩
    · exact Or.inr ⟨Or.inr hr, e, s', (yields_bind_ok hp).mpr hf⟩
  · exact Or.inr ⟨Or.inl hr, e, m, (yields_bind_error hp).mpr ⟨rfl, rfl⟩⟩

theorem map (hp : Classifies p s gs Q reason) (g : α → β) :
    Classifies (do let a ← p; Pure.pure (g a)) s gs (fun b => ∃ a, b = g a ∧ Q a) reason := by
  rcases hp with ⟨a, m, hp, hdrew, ha⟩ | ⟨hr, e, m, hp⟩
  · exact Or.inl ⟨g a, m, (yields_bind_ok hp).mpr (yields_pure.mpr ⟨rfl, rfl⟩), hdrew, a, rfl, ha⟩
  · exact Or.inr ⟨hr, e, m, (yields_bind_error hp).mpr ⟨rfl, rfl⟩⟩

/-- One thing is classified, and then the rest. -/
theorem cons {q : Run (List β)} {gs' : List Nat} {Q' : List β → Prop} {reason' : Prop}
    (hp : Classifies p s gs Q reason) (g : α → β)
    (hq : ∀ m, Drew gs s m → Classifies q m gs' Q' reason') :
    Classifies (do let a ← p; let bs ← q; Pure.pure (g a :: bs)) s (gs ++ gs')
      (fun cs => ∃ a bs, cs = g a :: bs ∧ Q a ∧ Q' bs) (reason ∨ reason') :=
  hp.bind fun a m hdrew ha => ((hq m hdrew).map (g a :: ·)).mono (fun _ hg => hg)
    (fun _ ⟨bs, hcs, hbs⟩ => ⟨a, bs, hcs, ha, hbs⟩) fun h => h

/-- Work that draws from nothing comes first. -/
theorem ok_bind {a : α} {m : Session} {Q' : β → Prop} {gs : List Nat}
    (hp : Yields p s (.ok a) m) (hdrew : Drew gs s m) (hf : Classifies (f a) m gs Q' reason) :
    Classifies (p >>= f) s gs Q' reason := by
  rcases hf with ⟨b, s', hf, hdrew', hb⟩ | ⟨hr, e, s', hf⟩
  · refine Or.inl ⟨b, s', (yields_bind_ok hp).mpr hf, (hdrew.trans hdrew').mono ?_, hb⟩
    intro g hg
    rwa [List.mem_append, or_self] at hg
  · exact Or.inr ⟨hr, e, s', (yields_bind_ok hp).mpr hf⟩

end Classifies

/-- A value means what the node means that it is classified as; a value that cannot
    be classified means nothing. -/
def Value.Means (v : Value) (k : Nat) (o : Meaning) : Prop :=
  ∀ path s, s.Ready v.generators →
    Classifies (v.classify path) s v.generators (fun n => n.Means k o) (o = none)

section

variable {k : Nat}

theorem allMeanings_eq_none {ms : List Meaning} (h : none ∈ ms) : allMeanings ms = none := by
  induction ms with
  | nil => exact absurd h List.not_mem_nil
  | cons m rest ih =>
      rw [allMeanings]
      rcases List.mem_cons.mp h with rfl | h
      · rfl
      · rw [ih h]
        cases m with
        | none => rfl
        | some d => rfl

theorem fieldMeanings_eq_none {ms : List (Name × Meaning)} (h : ∃ m ∈ ms, m.2 = none) :
    fieldMeanings ms = none := by
  induction ms with
  | nil =>
      rcases h with ⟨m, hm, -⟩
      exact absurd hm List.not_mem_nil
  | cons m rest ih =>
      rcases m with ⟨name, o⟩
      rcases h with ⟨m, hm, hnone⟩
      rw [fieldMeanings]
      rcases List.mem_cons.mp hm with rfl | hm
      · rw [show o = none from hnone]
        rfl
      · rw [ih ⟨m, hm, hnone⟩]
        cases o with
        | none => rfl
        | some d => rfl

/-- The items of a collection are classified as nodes that mean the same. -/
theorem classifies_items {vs : List Value} {os : List Meaning}
    (h : List.Forall₂ (fun v o => Value.Means v k o) vs os) (path : Name) (i : Nat) (s : Session)
    (hs : s.Ready (generatorsOfItems vs)) :
    Classifies (classifyItems path i vs) s (generatorsOfItems vs)
      (fun ns => List.Forall₂ (fun n o => Node.Means n k o) ns os) (none ∈ os) := by
  induction h generalizing i s with
  | nil => exact Classifies.pure .nil
  | @cons v o vs os hv _ ih =>
      rw [classifyItems]
      rw [generatorsOfItems] at hs ⊢
      refine ((hv (itemPath path i) s hs.left).cons id fun m hdrew =>
        ih (i + 1) m (hs.drew hdrew)).mono (fun _ hg => hg) ?_ ?_
      · rintro _ ⟨n, ns, rfl, hn, hns⟩
        exact .cons hn hns
      · rintro (rfl | hnone)
        · exact List.mem_cons_self
        · exact List.mem_cons_of_mem o hnone

theorem means_items {vs : List Value} {os : List Meaning}
    (h : List.Forall₂ (fun v o => Value.Means v k o) vs os) (kind : ItemsKind) :
    (Value.items kind vs).Means k (listMeaning os) := by
  intro path s hs
  rw [Value.classify]
  refine ((classifies_items h path 0 s hs).map Node.seq).mono (fun _ hg => hg)
    (fun _ ⟨ns, hn, hns⟩ => hn ▸ means_seq hns) fun hnone => ?_
  rw [listMeaning, allMeanings_eq_none hnone]
  rfl

theorem yields_setDrawn {id n : Nat} {s s' : Session} {r : Except Failure Unit} :
    Yields (Run.setDrawn id n) s r s' ↔
      r = .ok () ∧ s' = { s with drawn := s.drawn.modify id fun _ => n } := yields_modify

theorem drew_setDrawn (s : Session) (id n : Nat) (gs : List Nat) :
    Drew (id :: gs) s { s with drawn := s.drawn.modify id fun _ => n } := by
  refine ⟨rfl, Array.size_modify, fun g hg => ?_, rfl⟩
  rw [List.mem_cons, not_or] at hg
  rw [Array.getElem?_modify, if_neg fun h => hg.1 h.symm]

/-- So are the items of a generator that has not been drawn from. -/
theorem classifies_drawItems {vs : List Value} {os : List Meaning}
    (h : List.Forall₂ (fun v o => Value.Means v k o) vs os) (path : Name) (id pos i : Nat)
    (s : Session) (hs : s.Ready (generatorsOfItems vs)) (hid : id ∉ generatorsOfItems vs) :
    Classifies (drawItems path id 0 pos i vs) s (id :: generatorsOfItems vs)
      (fun ns => List.Forall₂ (fun n o => Node.Means n k o) ns os) (none ∈ os) := by
  induction h generalizing pos i s with
  | nil => exact Classifies.pure .nil
  | @cons v o vs os hv _ ih =>
      rw [drawItems, if_neg (Nat.not_lt_zero pos)]
      rw [generatorsOfItems] at hs hid ⊢
      refine Classifies.ok_bind (yields_setDrawn.mpr ⟨rfl, rfl⟩) (drew_setDrawn s id (pos + 1) _) ?_
      -- That one more item is drawn is noted under this generator alone.
      have hready : Session.Ready { s with drawn := s.drawn.modify id fun _ => pos + 1 }
          (v.generators ++ generatorsOfItems vs) := by
        refine ⟨hs.nodup, fun g hg => ?_⟩
        rw [← hs.undrawn g hg]
        exact (drew_setDrawn s id (pos + 1) []).others g
          fun hmem => hid (List.mem_singleton.mp hmem ▸ hg)
      refine ((hv (itemPath path i) _ hready.left).cons (fun n => n) fun m hdrew =>
        ih (pos + 1) (i + 1) m (hready.drew hdrew)
          fun hmem => hid (List.mem_append_right _ hmem)).mono (fun g hg => ?_) ?_ ?_
      · simp only [List.mem_append, List.mem_cons] at hg ⊢
        rcases hg with hg | rfl | hg
        · exact Or.inr (Or.inl hg)
        · exact Or.inl rfl
        · exact Or.inr (Or.inr hg)
      · rintro _ ⟨n, ns, rfl, hn, hns⟩
        exact .cons hn hns
      · rintro (rfl | hnone)
        · exact List.mem_cons_self
        · exact List.mem_cons_of_mem o hnone

theorem means_generator {vs : List Value} {os : List Meaning}
    (h : List.Forall₂ (fun v o => Value.Means v k o) vs os) (id : Nat) :
    (Value.generator id vs none).Means k (listMeaning os) := by
  intro path s hs
  rw [Value.generators] at hs ⊢
  rcases List.nodup_cons.mp hs.nodup with ⟨hid, hnodup⟩
  -- Nothing has been drawn from it, so that no item is passed over.
  have hdrawn : Yields (Run.drawnOf id) s (.ok 0) s := by
    unfold Run.drawnOf
    rw [yields_bind_ok (yields_get.mpr ⟨rfl, rfl⟩), yields_pure,
      hs.undrawn id List.mem_cons_self]
    exact ⟨rfl, rfl⟩
  rw [Value.classify]
  refine Classifies.ok_bind hdrawn (Drew.refl _ s) ?_
  have hready : s.Ready (generatorsOfItems vs) :=
    ⟨hnodup, fun g hg => hs.undrawn g (List.mem_cons_of_mem id hg)⟩
  refine ((classifies_drawItems h path id 0 0 s hready hid).map Node.seq).mono (fun _ hg => hg)
    (fun _ ⟨ns, hn, hns⟩ => hn ▸ means_seq hns) fun hnone => ?_
  rw [listMeaning, allMeanings_eq_none hnone]
  rfl

/-- The entries of a mapping of fields. -/
def Fields.entries (fs : Fields) : List (Value × Value) := fs.map fun f => (f.1.toValue, f.2)

/-- The fields of a mapping are classified as entries that mean the same. -/
theorem classifies_entries {fs : Fields} {os : List (Name × Meaning)}
    (h : List.Forall₂ (Paired fun v o => Value.Means v k o) fs os) (path : Name) (s : Session)
    (hs : s.Ready (generatorsOfEntries fs.entries)) :
    Classifies (classifyEntries path fs.entries) s (generatorsOfEntries fs.entries)
      (fun ns => List.Forall₂ (Paired fun n o => Node.Means n k o) ns os)
      (∃ o ∈ os, o.2 = none) := by
  induction h generalizing s with
  | nil => exact Classifies.pure .nil
  | @cons f o fs os hv _ ih =>
      rcases hv with ⟨hname, hv⟩
      rw [Fields.entries, List.map_cons, generatorsOfEntries] at hs
      rw [Fields.entries, List.map_cons, generatorsOfEntries, Name.toValue, classifyEntries]
      refine ((hv (fieldPath path f.1) s hs.left).cons (Prod.mk f.1) fun m hdrew =>
        ih m (hs.drew hdrew)).mono (fun _ hg => hg) ?_ ?_
      · rintro _ ⟨n, ns, rfl, hn, hns⟩
        exact .cons ⟨hname, hn⟩ hns
      · rintro (hnone | ⟨o', ho', hnone⟩)
        · exact ⟨o, List.mem_cons_self, hnone⟩
        · exact ⟨o', List.mem_cons_of_mem o ho', hnone⟩

theorem means_fields {fs : Fields} {os : List (Name × Meaning)}
    (h : List.Forall₂ (Paired fun v o => Value.Means v k o) fs os) (kind : MappingKind) :
    (Value.mapping kind fs.entries).Means k (mappingMeaning os) := by
  intro path s hs
  rw [Value.classify]
  refine ((classifies_entries h path s hs).map Node.mapping).mono (fun _ hg => hg)
    (fun _ ⟨ns, hn, hns⟩ => hn ▸ means_entries hns) fun hnone => ?_
  rw [mappingMeaning, fieldMeanings_eq_none hnone]
  rfl

/-- Entries of which one has a key that is no text are refused. -/
theorem classifies_refused {es : List (Value × Value)}
    (hes : ∀ e ∈ es, ∃ o, e.2.Means k o)
    (hkey : ∃ e ∈ es, e.1.scalar?.bind Scalar.name? = none) (path : Name) (s : Session)
    (hs : s.Ready (generatorsOfEntries es)) :
    Classifies (classifyEntries path es) s (generatorsOfEntries es) (fun _ => False) True := by
  induction es generalizing s with
  | nil =>
      rcases hkey with ⟨e, he, -⟩
      exact absurd he List.not_mem_nil
  | cons e rest ih =>
      rcases e with ⟨key, v⟩
      rw [List.forall_mem_cons] at hes
      rw [generatorsOfEntries] at hs ⊢
      -- The other key comes later, if this one is a text, or else no value is looked at any more.
      by_cases htext : ∃ name form, key = .scalar (.text name form)
      · rcases htext with ⟨name, form, rfl⟩
        rcases hkey with ⟨e, he, hnone⟩
        rcases List.mem_cons.mp he with rfl | he
        · exact absurd hnone (Option.some_ne_none _)
        · rcases hes.1 with ⟨o, hv⟩
          rw [classifyEntries]
          exact ((hv _ s hs.left).cons (Prod.mk ⟨name, form⟩) fun m hdrew =>
            ih hes.2 ⟨e, he, hnone⟩ m (hs.drew hdrew)).mono (fun _ hg => hg)
              (fun _ ⟨_, _, _, _, h⟩ => h) fun _ => trivial
      · have hthrow : ∃ e, classifyEntries path ((key, v) :: rest) = throw e := by
          cases key with
          | scalar t =>
              cases t with
              | text name form => exact absurd ⟨name, form, rfl⟩ htext
              | _ => exact ⟨_, rfl⟩
          | _ => exact ⟨_, rfl⟩
        rcases hthrow with ⟨e, he⟩
        rw [he]
        exact Classifies.throw trivial

theorem means_refused {es : List (Value × Value)} (hes : ∀ e ∈ es, ∃ o, e.2.Means k o)
    (hkey : ∃ e ∈ es, e.1.scalar?.bind Scalar.name? = none) (kind : MappingKind) :
    (Value.mapping kind es).Means k none := by
  intro path s hs
  rw [Value.classify]
  exact ((classifies_refused hes hkey path s hs).map Node.mapping).mono
    (fun _ hg => hg) (fun _ ⟨_, _, h⟩ => h.elim) fun _ => rfl

/-- A leaf means itself in plain form. -/
theorem means_leaf (t : Scalar) : (Value.scalar t).Means k t.meaning := by
  intro path s _
  cases t with
  | float x form =>
      rw [Value.classify, Scalar.meaning]
      by_cases hx : x.isFinite = true
      · rw [if_pos hx, if_pos hx]
        refine Classifies.pure (means_scalar ?_ _)
        rw [Scalar.isData, hx]
        rfl
      · rw [if_neg hx, if_neg hx]
        exact Classifies.throw rfl
  | _ => exact Classifies.pure (means_scalar rfl _)

/-- Nothing is part of data but data. -/
theorem Value.IsData.generators {v : Value} (h : v.IsData) : v.generators = [] := by
  induction h with
  | scalar h => rfl
  | @list xs h ih =>
      rw [Value.list, Value.generators]
      -- The inner induction needs no more than what is known of each item.
      clear h
      induction xs with
      | nil => rfl
      | cons v rest ihr =>
          rw [List.forall_mem_cons] at ih
          rw [generatorsOfItems, ih.1, ihr ih.2]
          rfl
  | @fields fs hnames h ih =>
      rw [Fields.toValue, Value.dict, Value.generators]
      clear hnames h
      induction fs with
      | nil => rfl
      | cons f rest ihr =>
          rw [List.forall_mem_cons] at ih
          rw [List.map_cons, generatorsOfEntries, ih.1, ihr ih.2]
          rfl

/-- Data means itself. -/
theorem Value.IsData.means {d : Value} (h : d.IsData) : d.Means k (some d) := by
  intro path s _
  rcases h.copied path with ⟨n, hdepth, hclassify, hresolve⟩
  refine Or.inl ⟨n, s, hclassify s, Drew.refl _ s, ?_, fun depth _ stack t => ?_⟩
  · rw [hdepth]
    exact Nat.zero_le k
  · exact ⟨d, t, hresolve _ t, Evaluated.of_isData h (Session.Adds.refl t)⟩

end

end Docket
