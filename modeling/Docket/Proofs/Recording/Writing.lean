import Docket.Proofs.Recording.Entries

/-!
# Writing values down

Building the value of an expression in a tree assigns nothing and draws from
nothing; it makes generators, each of them once. What it comes to stands for what
the expression means, as blocks are then. The lemmas here say so for each form of
expression on its own, given as much of its parts.

What is read back is already data, so it stands for itself, and it can be the key
of a mapping only if it is a leaf.

## Main definitions

* `Makes`: Generators have been made, and nothing else.
* `Session.Sees`: The assignments that can be read back.
* `Stands`, `StandsAll`, `StandsPairs`: Values that stand for what they should.

## Theorems

* `realizes_items`, `realizes_generator`, `realizes_bodyItems`: Collections.
* `stands_read`: What is read back stands for what was assigned.
* `realizes_mapping`: A mapping is built, or cannot be written.
-/

namespace Docket

namespace Session

theorem snapshot_of_blocks {s s' : Session} (h : s'.blocks = s.blocks) :
    s'.snapshot = s.snapshot := by
  funext v
  unfold snapshot
  rw [h]

theorem snapshotFields_of_blocks {s s' : Session} (h : s'.blocks = s.blocks) :
    s'.snapshotFields = s.snapshotFields := by
  funext id
  unfold snapshotFields fields
  rw [snapshot_of_blocks h, h]

end Session

/-- Generators have been made, and nothing else. -/
structure Makes (gs : List Nat) (s s' : Session) : Prop where
  blocks : s'.blocks = s.blocks
  size : s.drawn.size ≤ s'.drawn.size
  old : ∀ g, g < s.drawn.size → s'.drawn[g]? = s.drawn[g]?
  nodup : gs.Nodup
  new : ∀ g ∈ gs, s.drawn.size ≤ g ∧ s'.drawn[g]? = some 0
  counters : s'.counters = s.counters

namespace Makes

variable {gs gs' : List Nat} {s m s' : Session}

theorem refl (s : Session) : Makes [] s s :=
  ⟨rfl, Nat.le_refl _, fun _ _ => rfl, List.nodup_nil, nofun, rfl⟩

theorem trans (h₁ : Makes gs s m) (h₂ : Makes gs' m s') : Makes (gs ++ gs') s s' := by
  -- What the first part made is there before the second, so the two do not overlap.
  have hbound : ∀ g ∈ gs, g < m.drawn.size := by
    intro g hg
    rcases Array.getElem?_eq_some_iff.mp (h₁.new g hg).2 with ⟨hlt, -⟩
    exact hlt
  refine ⟨h₂.blocks.trans h₁.blocks, Nat.le_trans h₁.size h₂.size, ?_, ?_, ?_,
    h₂.counters.trans h₁.counters⟩
  · intro g hg
    rw [h₂.old g (Nat.lt_of_lt_of_le hg h₁.size), h₁.old g hg]
  · refine List.nodup_append.mpr ⟨h₁.nodup, h₂.nodup, ?_⟩
    rintro g hg _ hg' rfl
    have hlt := hbound g hg
    have hle := (h₂.new g hg').1
    omega
  · intro g hg
    rcases List.mem_append.mp hg with hg | hg
    · refine ⟨(h₁.new g hg).1, ?_⟩
      rw [h₂.old g (hbound g hg)]
      exact (h₁.new g hg).2
    · exact ⟨Nat.le_trans h₁.size (h₂.new g hg).1, (h₂.new g hg).2⟩

theorem subperm (h : Makes gs s s') (hsub : gs'.Subperm gs) : Makes gs' s s' where
  blocks := h.blocks
  size := h.size
  old := h.old
  nodup := nodup_of_subperm hsub h.nodup
  new g hg := h.new g (hsub.subset hg)
  counters := h.counters

theorem drawsNew (h : Makes gs s s') : s.DrawsNew s' := ⟨h.size, h.old⟩

theorem ready (h : Makes gs s s') : s'.Ready gs := ⟨h.nodup, fun g hg => (h.new g hg).2⟩

theorem snapshot (h : Makes gs s s') : s'.snapshot = s.snapshot :=
  Session.snapshot_of_blocks h.blocks

end Makes

/-! ## Values written out -/

theorem mapLiveEntries_eq_map (f : Nat → Value) (es : List (Value × Value)) :
    mapLiveEntries f es = es.map fun e => (e.1.mapLive f, e.2.mapLive f) := by
  induction es with
  | nil => rfl
  | cons e rest ih => rw [mapLiveEntries, ih, List.map_cons]

theorem generatorsOfItems_eq (vs : List Value) :
    generatorsOfItems vs = vs.flatMap Value.generators := by
  induction vs with
  | nil => rfl
  | cons v rest ih => rw [generatorsOfItems, ih, List.flatMap_cons]

theorem generatorsOfEntries_eq (es : List (Value × Value)) :
    generatorsOfEntries es = es.flatMap (·.2.generators) := by
  induction es with
  | nil => rfl
  | cons e rest ih => rw [generatorsOfEntries, ih, List.flatMap_cons]

namespace Session

theorem snapshot_items (s : Session) (kind : ItemsKind) (vs : List Value) :
    s.snapshot (.items kind vs) = .items kind (vs.map s.snapshot) :=
  congrArg (Value.items kind) (mapLiveItems_eq_map _ vs)

theorem snapshot_generator (s : Session) (id : Nat) (vs : List Value) (ending : Option Failure) :
    s.snapshot (.generator id vs ending) = .generator id (vs.map s.snapshot) ending :=
  congrArg (Value.generator id · ending) (mapLiveItems_eq_map _ vs)

theorem snapshot_mapping (s : Session) (kind : MappingKind) (es : List (Value × Value)) :
    s.snapshot (.mapping kind es) =
      .mapping kind (es.map fun e => (s.snapshot e.1, s.snapshot e.2)) :=
  congrArg (Value.mapping kind) (mapLiveEntries_eq_map _ es)

/-- Writing out neither makes a leaf nor takes one away. -/
theorem scalar?_snapshot (s : Session) (v : Value) : (s.snapshot v).scalar? = v.scalar? := by
  cases v with
  | _ => rfl

/-- What is seen of a list of blocks is what was assigned. -/
def Sees (s : Session) (stack : BlockStack) (env : Fields) : Prop :=
  (∀ f ∈ env, f.2.IsData) ∧
    match stack with
    | [] => env = []
    | id :: _ => s.snapshotFields id = env

theorem Sees.makes {s s' : Session} {gs : List Nat} {stack : BlockStack} {env : Fields}
    (h : s.Sees stack env) (hmakes : Makes gs s s') : s'.Sees stack env := by
  refine ⟨h.1, ?_⟩
  rw [Session.snapshotFields_of_blocks hmakes.blocks]
  exact h.2

end Session

/-- A value that stands for what it should, and is the leaf that it should be, if
    any. -/
structure Stands (s : Session) (k : Nat) (key : Option Scalar) (o : Meaning) (v : Value)
    (s' : Session) : Prop where
  makes : Makes (s.snapshot v).generators s s'
  means : (s.snapshot v).Means k o
  key : v.scalar? = key

/-- Values that stand for what they should, and are the leaves that they should be,
    if any. -/
structure StandsAll (s : Session) (k : Nat) (keys : List (Option Scalar)) (os : List Meaning)
    (vs : List Value) (s' : Session) : Prop where
  makes : Makes (generatorsOfItems (vs.map s.snapshot)) s s'
  means : List.Forall₂ (fun v o => (s.snapshot v).Means k o) vs os
  keys : vs.map Value.scalar? = keys

section

variable {k : Nat} {s s' : Session} {stack : BlockStack} {env : Fields}

theorem stands_free {v : Value} {o : Meaning} (hv : v.held = []) (hgs : v.generators = [])
    (hmeans : v.Means k o) : Stands s k v.scalar? o v s := by
  have hseen : s.snapshot v = v := Value.mapLive_free hv
  refine ⟨?_, ?_, rfl⟩
  · rw [hseen, hgs]
    exact Makes.refl s
  · rw [hseen]
    exact hmeans

theorem allMeanings_some (ds : List Value) : allMeanings (ds.map some) = some ds := by
  induction ds with
  | nil => rfl
  | cons d rest ih =>
      rw [List.map_cons, allMeanings, ih]
      rfl

/-- A list of leaves means the list of these leaves. -/
theorem means_leaves {α : Type} (xs : List α) {leaf : α → Scalar} (kind : α → ScalarKind)
    (h : ∀ x, (leaf x).isData = true) :
    (Node.seq (xs.map fun x => .scalar (.scalar (leaf x)) (kind x))).Means k
      (some (.list (xs.map fun x => .scalar (leaf x)))) := by
  have hitems : List.Forall₂ (fun n o => Node.Means n k o)
      (xs.map fun x => .scalar (.scalar (leaf x)) (kind x))
      ((xs.map fun x => Value.scalar (leaf x)).map some) := by
    induction xs with
    | nil => exact .nil
    | cons x rest ih => exact .cons (means_scalar (h x) _) ih
  have hmeans := means_seq hitems
  rw [listMeaning, allMeanings_some] at hmeans
  exact hmeans

theorem means_range (start stop step : Int) :
    (Value.range start stop step).Means k
      (some (.list ((rangeItems start stop step).map .int))) :=
  fun _ _ _ => Classifies.pure (means_leaves _ _ fun _ => rfl)

theorem means_encodings :
    Value.encodings.Means k (some (.list (Encoding.all.map fun e => .text e.name))) :=
  fun _ _ _ => Classifies.pure (means_leaves _ _ fun _ => rfl)

theorem means_bodyValue {b : Body} {o : Meaning} (h : (Node.nested b).Means k o) :
    (Value.body b).Means k o := fun _ _ _ => Classifies.pure h

/-! ## Items -/

theorem realizes_items_nil :
    Realizes (buildItems stack []) s (itemsMeaning env []) (StandsAll s k []) :=
  Realizes.pure ⟨Makes.refl s, .nil, rfl⟩

theorem realizes_items_cons {e : Expr} {rest : List Expr} (hsees : s.Sees stack env)
    (he : Realizes (e.build stack) s (e.meaning env) (Stands s k (e.key env)))
    (hrest : ∀ s', s'.Sees stack env → Realizes (buildItems stack rest) s'
      (itemsMeaning env rest) (StandsAll s' k (rest.map (Expr.key env)))) :
    Realizes (buildItems stack (e :: rest)) s (itemsMeaning env (e :: rest))
      (StandsAll s k ((e :: rest).map (Expr.key env))) := by
  rw [buildItems, itemsMeaning]
  refine he.bind fun o v m hv => ?_
  refine (hrest m (hsees.makes hv.makes)).bind fun os vs s' hvs => ?_
  have hmakes := hvs.makes
  have hmeans := hvs.means
  rw [hv.makes.snapshot] at hmakes hmeans
  refine Realizes.pure ⟨hv.makes.trans hmakes, .cons hv.means hmeans, ?_⟩
  rw [List.map_cons, List.map_cons, hv.key, hvs.keys]

theorem realizes_items {xs : List Expr} (kind : ItemsKind)
    (h : Realizes (buildItems stack xs) s (itemsMeaning env xs)
      (StandsAll s k (xs.map (Expr.key env)))) :
    Realizes ((Expr.items kind xs).build stack) s ((Expr.items kind xs).meaning env)
      (Stands s k none) := by
  rw [Expr.build, Expr.meaning]
  refine h.bind fun os vs s' hvs => Realizes.pure ⟨?_, ?_, rfl⟩
  · rw [Session.snapshot_items]
    exact hvs.makes
  · rw [Session.snapshot_items]
    exact means_items (List.forall₂_map_left_iff.mpr hvs.means) kind

theorem realizes_newGenerator (s : Session) :
    ∃ m, Yields Run.newGenerator s (.ok s.drawn.size) m ∧ Makes [s.drawn.size] s m := by
  refine ⟨{ s with drawn := s.drawn.push 0 }, ?_, rfl, ?_, fun g hg => ?_,
    List.pairwise_singleton _ _, fun g hg => ?_, rfl⟩
  · unfold Run.newGenerator
    rw [yields_bind_ok (yields_get.mpr ⟨rfl, rfl⟩), yields_bind_ok (yields_set.mpr ⟨rfl, rfl⟩),
      yields_pure]
    exact ⟨rfl, rfl⟩
  · rw [Array.size_push]
    exact Nat.le_succ _
  · rw [Array.getElem?_push_lt hg, Array.getElem?_eq_getElem hg]
  · rw [List.mem_singleton.mp hg]
    exact ⟨Nat.le_refl _, Array.getElem?_push_size⟩

theorem realizes_generator {xs : List Expr}
    (h : Realizes (buildItems stack xs) s (itemsMeaning env xs)
      (StandsAll s k (xs.map (Expr.key env)))) :
    Realizes ((Expr.generator xs none).build stack) s ((Expr.generator xs none).meaning env)
      (Stands s k none) := by
  rw [Expr.build, Expr.meaning]
  refine h.bind fun os vs m hvs => ?_
  rcases realizes_newGenerator m with ⟨s', hnew, hmakes⟩
  refine Realizes.ok_bind hnew (Realizes.pure ⟨?_, ?_, rfl⟩)
  · rw [Option.map_none, Session.snapshot_generator, Value.generators]
    exact (hvs.makes.trans hmakes).subperm (List.perm_append_singleton _ _).symm.subperm
  · rw [Option.map_none, Session.snapshot_generator]
    exact means_generator (List.forall₂_map_left_iff.mpr hvs.means) _

theorem realizes_bodyItems {b : Body} {xs : List Expr}
    (hb : (Node.nested b).Means k (b.den.map Fields.toValue))
    (h : Realizes (buildItems stack xs) s (itemsMeaning env xs)
      (StandsAll s k (xs.map (Expr.key env)))) :
    Realizes ((Expr.bodyItems b xs).build stack) s ((Expr.bodyItems b xs).meaning env)
      (Stands s k none) := by
  rw [Expr.build, Expr.meaning]
  refine h.bind fun os vs s' hvs => Realizes.pure ⟨?_, fun _ _ _ => Classifies.pure hb, rfl⟩
  exact hvs.makes.subperm List.nil_subperm

/-! ## What is read back -/

theorem yields_blockAt (id : Nat) (stack : BlockStack) (s : Session) :
    Yields (blockAt (id :: stack) 0) s (.ok id) s := yields_pure.mpr ⟨rfl, rfl⟩

theorem Fields.get?_map (fs : Fields) (f : Value → Value) (name : String) :
    Fields.get? (fs.map fun p => (p.1, f p.2)) name = (fs.get? name).map f := by
  induction fs with
  | nil => rfl
  | cons p rest ih =>
      unfold Fields.get? at ih ⊢
      rw [List.map_cons, List.find?_cons, List.find?_cons]
      cases p.1.text == name with
      | true => rfl
      | false => exact ih

/-- What is read back is some data that was assigned. -/
theorem realizes_read (name : String) (hsees : s.Sees stack env) :
    Realizes ((Expr.read name 0).build stack) s ((Expr.read name 0).meaning env)
      fun o v s' => s' = s ∧ o = some (s.snapshot v) ∧ (s.snapshot v).IsData ∧
        v.scalar? = (Expr.read name 0).key env := by
  rcases hsees with ⟨hdata, hstack⟩
  rw [Expr.build, Expr.meaning, Expr.key]
  cases stack with
  -- With no block open nothing is in sight, and nothing is found.
  | nil =>
      rw [show env = [] from hstack]
      exact Realizes.error_bind (yields_throw.mpr ⟨rfl, rfl⟩)
  | cons id stack =>
      refine Realizes.ok_bind (yields_blockAt id stack s) ?_
      refine Realizes.ok_bind (yields_fieldsOf.mpr ⟨rfl, rfl⟩) ?_
      have hget : env.get? name = ((s.fields id).get? name).map s.snapshot := by
        rw [← show s.snapshotFields id = env from hstack]
        exact Fields.get?_map (s.fields id) s.snapshot name
      cases hfield : (s.fields id).get? name with
      | none =>
          rw [hget, hfield]
          exact Realizes.throw
      | some v =>
          rw [hfield, Option.map_some] at hget
          rcases Fields.mem_of_get? hget with ⟨f, hf, hfv⟩
          rw [hget]
          refine Realizes.pure ⟨rfl, rfl, hfv ▸ hdata f hf, ?_⟩
          exact (s.scalar?_snapshot v).symm

/-- What is read back stands for what was assigned. -/
theorem stands_read (name : String) (hsees : s.Sees stack env) :
    Realizes ((Expr.read name 0).build stack) s ((Expr.read name 0).meaning env)
      (Stands s k ((Expr.read name 0).key env)) := by
  refine (realizes_read name hsees).mono ?_
  rintro o v s' ⟨rfl, rfl, hdata, hkey⟩
  refine ⟨?_, hdata.means, hkey⟩
  rw [hdata.generators]
  exact Makes.refl s'

/-- Data that is no leaf cannot be a key. -/
theorem unhashable_of_seen {v : Value} (hdata : (s.snapshot v).IsData) (hkey : v.scalar? = none) :
    v.unhashable?.isSome = true := by
  have hseen : ∀ d : Value, d.IsData → d.scalar? = none →
      (∃ xs, d = .items .list xs) ∨ ∃ es, d = .mapping .plain es := by
    intro d hd hnone
    cases hd with
    | scalar h => exact absurd hnone (Option.some_ne_none _)
    | list h => exact Or.inl ⟨_, rfl⟩
    | fields hnames h => exact Or.inr ⟨_, rfl⟩
  rw [← s.scalar?_snapshot] at hkey
  rcases hseen _ hdata hkey with ⟨xs, hxs⟩ | ⟨es, hes⟩
  -- A snapshot keeps the kind of a collection, and only a block is shown as another one.
  · cases v with
    | items kind ws =>
        rw [Session.snapshot_items, Value.items.injEq] at hxs
        rw [hxs.1]
        rfl
    | _ => cases hxs
  · cases v with
    | live id => rfl
    | mapping kind ws =>
        rw [Session.snapshot_mapping, Value.mapping.injEq] at hes
        rw [hes.1]
        rfl
    | _ => cases hes

/-! ## Mappings -/

/-- Pairs that stand for what they should. A key that is no leaf cannot be one. -/
structure StandsPairs (s : Session) (k : Nat) (ms : List (Option Scalar × Meaning))
    (ps : List (Value × Value)) (s' : Session) : Prop where
  makes : Makes (ps.flatMap fun p => (s.snapshot p.2).generators) s s'
  means : List.Forall₂ (fun p m => p.1.scalar? = m.1 ∧ (s.snapshot p.2).Means k m.2) ps ms
  keys : ∀ p ∈ ps, p.1.scalar? = none → p.1.unhashable?.isSome = true

theorem realizes_key {key : Expr} (hkey : key.isKey = true) (hsees : s.Sees stack env) :
    Realizes (key.build stack) s (key.meaning env) fun _ v s' => s' = s ∧
      v.scalar? = key.key env ∧ (v.scalar? = none → v.unhashable?.isSome = true) := by
  cases key with
  | scalar t =>
      exact Realizes.pure ⟨rfl, rfl,
        fun h => absurd h (Option.some_ne_none t)⟩
  | read name up =>
      rw [beq_iff_eq.mp hkey]
      refine (realizes_read name hsees).mono ?_
      rintro o v s' ⟨rfl, -, hdata, hv⟩
      exact ⟨rfl, hv, unhashable_of_seen hdata⟩
  | _ => exact absurd hkey Bool.false_ne_true

theorem realizes_pairs_nil :
    Realizes (buildEntries stack []) s (pairsMeaning env []) (StandsPairs s k) :=
  Realizes.pure ⟨Makes.refl s, .nil, fun _ h => absurd h List.not_mem_nil⟩

theorem realizes_pairs_cons {key e : Expr} {rest : List (Expr × Expr)} (hkey : key.isKey = true)
    (hsees : s.Sees stack env)
    (he : Realizes (e.build stack) s (e.meaning env) (Stands s k (e.key env)))
    (hrest : ∀ s', s'.Sees stack env → Realizes (buildEntries stack rest) s'
      (pairsMeaning env rest) (StandsPairs s' k)) :
    Realizes (buildEntries stack ((key, e) :: rest)) s (pairsMeaning env ((key, e) :: rest))
      (StandsPairs s k) := by
  rw [buildEntries, pairsMeaning]
  refine (realizes_key hkey hsees).bind ?_
  rintro - w m ⟨rfl, hw, hunhashable⟩
  refine he.bind fun o v m hv => ?_
  refine (hrest m (hsees.makes hv.makes)).bind fun ms ps s' hps => ?_
  have hmakes := hps.makes
  have hmeans := hps.means
  rw [hv.makes.snapshot] at hmakes hmeans
  exact Realizes.pure ⟨hv.makes.trans hmakes, .cons ⟨hw, hv.means⟩ hmeans,
    List.forall_mem_cons.mpr ⟨hunhashable, hps.keys⟩⟩

/-- Pairs under texts are the entries of fields. -/
theorem entries_of_named {ps : List (Value × Value)} {ms : List (Option Scalar × Meaning)}
    {named : List (Name × Meaning)} (R : Value → Meaning → Prop)
    (h : List.Forall₂ (fun p m => p.1.scalar? = m.1 ∧ R p.2 m.2) ps ms)
    (hnamed : namedEntries ms = some named) :
    ∃ fs : Fields, ps = fs.entries ∧ List.Forall₂ (Paired R) fs named := by
  induction h generalizing named with
  | nil =>
      rw [namedEntries, Option.some.injEq] at hnamed
      exact ⟨[], rfl, hnamed ▸ .nil⟩
  | @cons p m ps ms hpm _ ih =>
      rcases m with ⟨key, o⟩
      rcases hpm with ⟨hkey, hR⟩
      rw [namedEntries] at hnamed
      rcases Option.bind_eq_some_iff.mp hnamed with ⟨name, hname, hrest⟩
      rcases Option.bind_eq_some_iff.mp hrest with ⟨rest, hrest, hcons⟩
      rcases ih hrest with ⟨fs, rfl, hfs⟩
      rw [← Option.some.inj hcons]
      refine ⟨(name, p.2) :: fs, ?_, .cons ⟨rfl, hR⟩ hfs⟩
      rw [← show p.1.scalar? = key from hkey] at hname
      exact congrArg (List.cons · _) (Prod.ext (Value.eq_of_name? hname) rfl)

theorem refused_of_not_named {ps : List (Value × Value)} {ms : List (Option Scalar × Meaning)}
    (h : List.Forall₂ (fun p m => p.1.scalar? = m.1) ps ms) (hnamed : namedEntries ms = none) :
    ∃ p ∈ ps, p.1.name? = none := by
  induction h with
  | nil => exact absurd hnamed (Option.some_ne_none _)
  | @cons p m ps ms hpm _ ih =>
      rcases m with ⟨key, o⟩
      by_cases hp : p.1.name? = none
      · exact ⟨p, List.mem_cons_self, hp⟩
      -- If all others are named, this one is not.
      · cases hrest : namedEntries ms with
        | none =>
            rcases ih hrest with ⟨q, hq, hnone⟩
            exact ⟨q, List.mem_cons_of_mem p hq, hnone⟩
        | some rest =>
            rcases Option.ne_none_iff_exists'.mp hp with ⟨name, hname⟩
            rw [Value.name?, hpm] at hname
            rw [namedEntries, hname, hrest] at hnamed
            exact absurd hnamed (Option.some_ne_none _)

theorem generators_snapshot_mapping (s : Session) (kind : MappingKind)
    (es : List (Value × Value)) : (s.snapshot (.mapping kind es)).generators =
      es.flatMap fun e => (s.snapshot e.2).generators := by
  rw [Session.snapshot_mapping, Value.generators, generatorsOfEntries_eq, List.flatMap_map]

/-- A mapping of fields means these fields folded in order. -/
theorem means_snapshot_fields {fs : Fields} {os : List (Name × Meaning)}
    (h : List.Forall₂ (Paired fun v o => (s.snapshot v).Means k o) fs os) (kind : MappingKind) :
    (s.snapshot (.mapping kind fs.entries)).Means k (mappingMeaning os) := by
  have hseen : s.snapshot (.mapping kind fs.entries) =
      .mapping kind (Fields.entries (fs.map fun f => (f.1, s.snapshot f.2))) := by
    rw [Session.snapshot_mapping, Fields.entries, Fields.entries, List.map_map, List.map_map]
    rfl
  rw [hseen]
  exact means_fields (List.forall₂_map_left_iff.mpr h) kind

theorem means_snapshot_refused {es : List (Value × Value)}
    (hes : ∀ e ∈ es, ∃ o, (s.snapshot e.2).Means k o) (hkey : ∃ e ∈ es, e.1.name? = none)
    (kind : MappingKind) : (s.snapshot (.mapping kind es)).Means k none := by
  rw [Session.snapshot_mapping]
  refine means_refused (fun e he => ?_) ?_ kind
  · rcases List.mem_map.mp he with ⟨f, hf, rfl⟩
    exact hes f hf
  · rcases hkey with ⟨e, he, hnone⟩
    refine ⟨_, List.mem_map_of_mem he, ?_⟩
    rw [Session.scalar?_snapshot]
    exact hnone

theorem hashable_of_leaf {v : Value} (h : v.scalar?.isSome = true) : v.unhashable? = none := by
  cases v with
  | scalar t => rfl
  | _ => exact absurd h Bool.false_ne_true

theorem all_isSome_of_forall₂ {ps : List (Value × Value)} {ms : List (Option Scalar × Meaning)}
    (h : List.Forall₂ (fun p m => p.1.scalar? = m.1) ps ms) :
    ms.all (·.1.isSome) = ps.all (·.1.scalar?.isSome) := by
  induction h with
  | nil => rfl
  | cons hpm _ ih => rw [List.all_cons, List.all_cons, hpm, ih]

/-- A mapping is built, or cannot be written. -/
theorem realizes_mapping {es : List (Expr × Expr)} (kind : MappingKind)
    (h : Realizes (buildEntries stack es) s (pairsMeaning env es) (StandsPairs s k)) :
    Realizes ((Expr.mapping kind es).build stack) s ((Expr.mapping kind es).meaning env)
      (Stands s k none) := by
  rw [Expr.build, Expr.meaning]
  refine h.bind fun ms ps s' hps => ?_
  have hkeys : List.Forall₂ (fun p m => p.1.scalar? = m.1) ps ms := hps.means.imp fun _ _ h => h.1
  have hall : ∀ p ∈ ps, ∃ o, (s.snapshot p.2).Means k o := by
    have hmeans := hps.means
    clear hps hkeys
    induction hmeans with
    | nil => exact fun p hp => absurd hp List.not_mem_nil
    | cons hpm _ ih => exact List.forall_mem_cons.mpr ⟨⟨_, hpm.2⟩, ih⟩
  have hfields : ∀ named, namedEntries ms = some named → ∃ fs : Fields, ps = fs.entries ∧
      List.Forall₂ (Paired fun v o => (s.snapshot v).Means k o) fs named := fun _ =>
    entries_of_named (fun v o => (s.snapshot v).Means k o) hps.means
  unfold entriesMeaning
  -- Pairs keep all their keys, and are refused later. Other mappings need keys that can be
  -- hashed, of which equal ones are one entry.
  by_cases hkind : kind = .pairs
  · simp only [if_pos hkind]
    refine Realizes.pure ⟨?_, ?_, rfl⟩
    · rw [generators_snapshot_mapping]
      exact hps.makes
    · cases hnamed : namedEntries ms with
      | some named =>
          rcases hfields named hnamed with ⟨fs, rfl, hfs⟩
          exact means_snapshot_fields hfs kind
      | none => exact means_snapshot_refused hall (refused_of_not_named hkeys hnamed) kind
  · simp only [if_neg hkind]
    rw [show ms.all (·.1.isSome) = ps.all (·.1.scalar?.isSome) from all_isSome_of_forall₂ hkeys]
    by_cases hleaf : ∀ p ∈ ps, p.1.scalar?.isSome = true
    · rw [if_pos (List.all_eq_true.mpr hleaf)]
      have hhashable : ∀ p ∈ ps, p.1.unhashable? = none := fun p hp => hashable_of_leaf (hleaf p hp)
      have hgenerators := subperm_enter ps [] fun v => (s.snapshot v).generators
      rw [List.flatMap_nil, List.nil_append] at hgenerators
      refine Realizes.ok_bind (yields_dictEntries hhashable) (Realizes.pure ⟨?_, ?_, rfl⟩)
      · rw [generators_snapshot_mapping]
        exact hps.makes.subperm hgenerators
      · cases hnamed : namedEntries ms with
        | some named =>
            rcases hfields named hnamed with ⟨fs, rfl, hfs⟩
            rw [show enter [] fs.entries = Fields.entries (orderedFold fs) from
              enter_entries fs []]
            exact means_snapshot_fields (forall₂_orderedFold hfs) kind
        | none =>
            have hstays := @enter_refused ps []
              (fun p hp => Option.isSome_iff_ne_none.mp (hleaf p hp))
              (Or.inr (refused_of_not_named hkeys hnamed))
            have hentered := @forall_enter (fun v => ∃ o, (s.snapshot v).Means k o) ps [] hall
              fun e he => absurd he List.not_mem_nil
            exact means_snapshot_refused hentered hstays kind
    · rw [if_neg fun h => hleaf (List.all_eq_true.mp h)]
      simp only [not_forall] at hleaf
      rcases hleaf with ⟨p, hp, hnone⟩
      have hunhashable := hps.keys p hp (Option.not_isSome_iff_eq_none.mp hnone)
      rcases yields_dictEntries_error (s := s') ⟨p, hp, hunhashable⟩ with ⟨e, he⟩
      exact Realizes.error_bind he

end

end Docket
