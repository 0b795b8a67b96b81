import Docket.Session

/-!
# What values hold

A value may hold the field mappings of blocks, and a block holds what its fields
hold. Writing a value out puts the fields of those blocks in their places, to
some depth; if every block holds only blocks made after it, some depth is
enough, and writing out is given by one equation (`Session.snapshot_eq`): the
blocks that a value holds are replaced by their fields, written out.

The lemmas on `Value.mapLive` say that it acts on what a value holds and on
nothing else.

## Main definitions

* `Value.held`, `Fields.held`: The blocks that a value or a block holds.
* `Session.Ordered`, `Session.OrderedFrom`: Every block, or every block from some
  block on, holds only blocks made after it.

## Theorems

* `Value.mapLive_congr`: Only what is put in the place of held blocks matters.
* `Value.mapLive_free`: A value that holds no block stays as it is.
* `Value.held_mapLive`: What a value holds after a replacement.
* `Value.mapLive_mapLive`: One replacement after another.
* `Value.expand_enough`: Some depth is enough.
* `Session.snapshot_eq`: Writing out by one equation.
* `Session.snapshot_eq_of_fields`: What is seen depends on the blocks below.
* `Session.held_snapshot`: What is written out holds no block.
-/

namespace Docket

mutual

/-- The blocks whose field mappings a value holds, from left to right. -/
def Value.held : Value → List Nat
  | .live id => [id]
  | .items _ xs => heldInItems xs
  | .mapping _ entries => heldInEntries entries
  | .generator _ xs _ => heldInItems xs
  | .tag _ v => v.held
  | _ => []

def heldInItems : List Value → List Nat
  | [] => []
  | v :: rest => v.held ++ heldInItems rest

def heldInEntries : List (Value × Value) → List Nat
  | [] => []
  | (k, v) :: rest => k.held ++ (v.held ++ heldInEntries rest)

end

/-- The blocks that the fields of a block hold. -/
def Fields.held (fields : Fields) : List Nat := fields.flatMap (·.2.held)

mutual

theorem Value.mapLive_congr {f g : Nat → Value} :
    (v : Value) → (∀ j ∈ v.held, f j = g j) → v.mapLive f = v.mapLive g
  | .live id, h => h id (List.mem_singleton.mpr rfl)
  | .items kind xs, h => congrArg (Value.items kind) (mapLiveItems_congr xs h)
  | .mapping kind entries, h => congrArg (Value.mapping kind) (mapLiveEntries_congr entries h)
  | .generator id xs ending, h =>
    congrArg (Value.generator id · ending) (mapLiveItems_congr xs h)
  | .tag n v, h => congrArg (Value.tag n) (Value.mapLive_congr v h)
  | .scalar _, _ => rfl
  | .alien _, _ => rfl
  | .range .., _ => rfl
  | .encodings, _ => rfl
  | .body _, _ => rfl
  | .bodyItems .., _ => rfl
  | .failure _, _ => rfl
  | .node _, _ => rfl
  | .block _, _ => rfl
  | .fieldRef .., _ => rfl

theorem mapLiveItems_congr {f g : Nat → Value} :
    (xs : List Value) → (∀ j ∈ heldInItems xs, f j = g j) → mapLiveItems f xs = mapLiveItems g xs
  | [], _ => rfl
  | v :: rest, h => by
    rw [mapLiveItems, mapLiveItems,
      Value.mapLive_congr v fun j hj => h j (List.mem_append_left _ hj),
      mapLiveItems_congr rest fun j hj => h j (List.mem_append_right _ hj)]

theorem mapLiveEntries_congr {f g : Nat → Value} :
    (entries : List (Value × Value)) → (∀ j ∈ heldInEntries entries, f j = g j) →
      mapLiveEntries f entries = mapLiveEntries g entries
  | [], _ => rfl
  | (k, v) :: rest, h => by
    have hv : ∀ j ∈ v.held ++ heldInEntries rest, f j = g j :=
      fun j hj => h j (List.mem_append_right _ hj)
    rw [mapLiveEntries, mapLiveEntries,
      Value.mapLive_congr k fun j hj => h j (List.mem_append_left _ hj),
      Value.mapLive_congr v fun j hj => hv j (List.mem_append_left _ hj),
      mapLiveEntries_congr rest fun j hj => hv j (List.mem_append_right _ hj)]

end

mutual

theorem Value.mapLive_live : (v : Value) → v.mapLive .live = v
  | .live _ => rfl
  | .items kind xs => congrArg (Value.items kind) (mapLiveItems_live xs)
  | .mapping kind entries => congrArg (Value.mapping kind) (mapLiveEntries_live entries)
  | .generator id xs ending => congrArg (Value.generator id · ending) (mapLiveItems_live xs)
  | .tag n v => congrArg (Value.tag n) (Value.mapLive_live v)
  | .scalar _ => rfl
  | .alien _ => rfl
  | .range .. => rfl
  | .encodings => rfl
  | .body _ => rfl
  | .bodyItems .. => rfl
  | .failure _ => rfl
  | .node _ => rfl
  | .block _ => rfl
  | .fieldRef .. => rfl

theorem mapLiveItems_live : (xs : List Value) → mapLiveItems .live xs = xs
  | [] => rfl
  | v :: rest => by rw [mapLiveItems, Value.mapLive_live v, mapLiveItems_live rest]

theorem mapLiveEntries_live : (entries : List (Value × Value)) →
    mapLiveEntries .live entries = entries
  | [] => rfl
  | (k, v) :: rest => by
    rw [mapLiveEntries, Value.mapLive_live k, Value.mapLive_live v, mapLiveEntries_live rest]

end

/-- A value that holds no block stays as it is. -/
theorem Value.mapLive_free {f : Nat → Value} {v : Value} (h : v.held = []) : v.mapLive f = v := by
  have hnone : ∀ j ∈ v.held, f j = .live j := by
    intro j hj
    rw [h] at hj
    exact absurd hj List.not_mem_nil
  rw [v.mapLive_congr hnone, v.mapLive_live]

mutual

/-- What a value holds after a replacement. -/
theorem Value.held_mapLive {f : Nat → Value} :
    (v : Value) → (v.mapLive f).held = v.held.flatMap fun j => (f j).held
  | .live id => by
    rw [Value.mapLive, Value.held, List.flatMap_cons, List.flatMap_nil, List.append_nil]
  | .items _ xs => heldInItems_mapLive xs
  | .mapping _ entries => heldInEntries_mapLive entries
  | .generator _ xs _ => heldInItems_mapLive xs
  | .tag _ v => Value.held_mapLive v
  | .scalar _ => rfl
  | .alien _ => rfl
  | .range .. => rfl
  | .encodings => rfl
  | .body _ => rfl
  | .bodyItems .. => rfl
  | .failure _ => rfl
  | .node _ => rfl
  | .block _ => rfl
  | .fieldRef .. => rfl

theorem heldInItems_mapLive {f : Nat → Value} : (xs : List Value) →
    heldInItems (mapLiveItems f xs) = (heldInItems xs).flatMap fun j => (f j).held
  | [] => rfl
  | v :: rest => by
    rw [mapLiveItems, heldInItems, heldInItems, List.flatMap_append, Value.held_mapLive v,
      heldInItems_mapLive rest]

theorem heldInEntries_mapLive {f : Nat → Value} : (entries : List (Value × Value)) →
    heldInEntries (mapLiveEntries f entries) =
      (heldInEntries entries).flatMap fun j => (f j).held
  | [] => rfl
  | (k, v) :: rest => by
    rw [mapLiveEntries, heldInEntries, heldInEntries, List.flatMap_append, List.flatMap_append,
      Value.held_mapLive k, Value.held_mapLive v, heldInEntries_mapLive rest]

end

mutual

/-- One replacement after another. -/
theorem Value.mapLive_mapLive {f g : Nat → Value} :
    (v : Value) → (v.mapLive f).mapLive g = v.mapLive fun j => (f j).mapLive g
  | .live _ => rfl
  | .items kind xs => congrArg (Value.items kind) (mapLiveItems_mapLive xs)
  | .mapping kind entries => congrArg (Value.mapping kind) (mapLiveEntries_mapLive entries)
  | .generator id xs ending => congrArg (Value.generator id · ending) (mapLiveItems_mapLive xs)
  | .tag n v => congrArg (Value.tag n) (Value.mapLive_mapLive v)
  | .scalar _ => rfl
  | .alien _ => rfl
  | .range .. => rfl
  | .encodings => rfl
  | .body _ => rfl
  | .bodyItems .. => rfl
  | .failure _ => rfl
  | .node _ => rfl
  | .block _ => rfl
  | .fieldRef .. => rfl

theorem mapLiveItems_mapLive {f g : Nat → Value} : (xs : List Value) →
    mapLiveItems g (mapLiveItems f xs) = mapLiveItems (fun j => (f j).mapLive g) xs
  | [] => rfl
  | v :: rest => by
    rw [mapLiveItems, mapLiveItems, mapLiveItems, Value.mapLive_mapLive v,
      mapLiveItems_mapLive rest]

theorem mapLiveEntries_mapLive {f g : Nat → Value} : (entries : List (Value × Value)) →
    mapLiveEntries g (mapLiveEntries f entries) =
      mapLiveEntries (fun j => (f j).mapLive g) entries
  | [] => rfl
  | (k, v) :: rest => by
    rw [mapLiveEntries, mapLiveEntries, mapLiveEntries, Value.mapLive_mapLive k,
      Value.mapLive_mapLive v, mapLiveEntries_mapLive rest]

end

namespace Fields

theorem mem_held {fields : Fields} {j : Nat} :
    j ∈ fields.held ↔ ∃ f ∈ fields, j ∈ f.2.held := List.mem_flatMap

/-- A mapping of fields holds what the fields hold. -/
theorem held_toValue (fields : Fields) : fields.toValue.held = fields.held := by
  unfold toValue Value.dict held
  rw [Value.held]
  induction fields with
  | nil => rfl
  | cons f rest ih =>
      rw [List.map_cons, heldInEntries, ih, List.flatMap_cons]
      rfl

theorem mapLive_toValue (fields : Fields) (f : Nat → Value) :
    fields.toValue.mapLive f = Fields.toValue (fields.map fun p => (p.1, p.2.mapLive f)) := by
  unfold toValue Value.dict
  rw [Value.mapLive]
  refine congrArg _ ?_
  induction fields with
  | nil => rfl
  | cons p rest ih =>
      rw [List.map_cons, List.map_cons, List.map_cons, mapLiveEntries, ih]
      rfl

end Fields

namespace Session

/-- Block `i` holds the field mapping of block `j`. -/
def Holds (s : Session) (i j : Nat) : Prop := j ∈ (s.fields i).held

/-- Every block holds only blocks made after it. -/
def Ordered (s : Session) : Prop := ∀ i j, s.Holds i j → i < j ∧ j < s.blocks.size

/-- Every block from block `n` on holds only blocks made after it. -/
def OrderedFrom (s : Session) (n : Nat) : Prop :=
  ∀ i j, n ≤ i → s.Holds i j → i < j ∧ j < s.blocks.size

theorem Ordered.orderedFrom {s : Session} (hs : s.Ordered) (n : Nat) : s.OrderedFrom n :=
  fun i j _ => hs i j

end Session

/-- A value whose blocks all come late needs no more depth than there are blocks
    from then on. -/
theorem Value.expand_enough {s : Session} {m : Nat} (hs : s.OrderedFrom m) (d : Nat) :
    ∀ (n : Nat) (v : Value), m ≤ n → (∀ j ∈ v.held, n ≤ j ∧ j < s.blocks.size) →
      s.blocks.size < n + d → v.expand s.blocks d = v.expand s.blocks (d + 1) := by
  induction d with
  | zero =>
      intro n v hm hv hn
      -- No depth is left, so there is no block that could come late enough.
      have hfree : v.held = [] := by
        rw [List.eq_nil_iff_forall_not_mem]
        intro j hj
        have hbounds := hv j hj
        omega
      rw [Value.expand, Value.expand, Value.mapLive_free hfree]
  | succ d ih =>
      intro n v hm hv hn
      rw [Value.expand, Value.expand]
      refine v.mapLive_congr fun j hj => congrArg Fields.toValue ?_
      refine List.map_congr_left fun p hp => congrArg (Prod.mk p.1) ?_
      have hj' := (hv j hj).1
      -- The blocks of a field come after the block, and one step of depth pays for it.
      refine ih (j + 1) p.2 (by omega) ?_ (by omega)
      intro k hk
      exact hs j k (Nat.le_trans hm hj') (Fields.mem_held.mpr ⟨p, hp, hk⟩)

namespace Session

/-- Writing out by one equation: the blocks that a value holds are replaced by
    their fields, written out. -/
theorem snapshot_eq_of_late {s : Session} {n : Nat} (hs : s.OrderedFrom n) {v : Value}
    (hv : ∀ j ∈ v.held, n ≤ j) :
    s.snapshot v = v.mapLive fun id => Fields.toValue (s.snapshotFields id) := by
  unfold snapshot snapshotFields
  rw [Value.expand]
  refine v.mapLive_congr fun j hj => congrArg Fields.toValue ?_
  refine List.map_congr_left fun p hp => congrArg (Prod.mk p.1) ?_
  have hj' := hv j hj
  refine Value.expand_enough hs _ (j + 1) p.2 (by omega) ?_ (by omega)
  intro k hk
  exact hs j k hj' (Fields.mem_held.mpr ⟨p, hp, hk⟩)

theorem snapshot_eq {s : Session} (hs : s.Ordered) (v : Value) :
    s.snapshot v = v.mapLive fun id => Fields.toValue (s.snapshotFields id) :=
  snapshot_eq_of_late (hs.orderedFrom 0) fun j _ => Nat.zero_le j

theorem snapshot_live_of_late {s : Session} {id : Nat} (hs : s.OrderedFrom id) :
    s.snapshot (.live id) = Fields.toValue (s.snapshotFields id) := by
  rw [snapshot_eq_of_late hs, Value.mapLive]
  intro j hj
  exact Nat.le_of_eq (List.mem_singleton.mp hj).symm

theorem snapshot_live {s : Session} (hs : s.Ordered) (id : Nat) :
    s.snapshot (.live id) = Fields.toValue (s.snapshotFields id) :=
  snapshot_live_of_late (hs.orderedFrom id)

/-- What is known of the blocks that come late, and then of their fields, is
    known of all blocks from block `n` on. -/
theorem OrderedFrom.induction {s : Session} {n : Nat} (hs : s.OrderedFrom n) {P : Nat → Prop}
    (h : ∀ i, n ≤ i → (∀ j, s.Holds i j → P j) → P i) (i : Nat) (hi : n ≤ i) : P i := by
  -- By induction on how many blocks may follow block `i`.
  have hlate : ∀ k i, n ≤ i → s.blocks.size < i + k → P i := by
    intro k
    induction k with
    | zero =>
        intro i hi hsize
        refine h i hi fun j hj => absurd (hs i j hi hj) ?_
        omega
    | succ k ih =>
        intro i hi hsize
        refine h i hi fun j hj => ?_
        have hij := (hs i j hi hj).1
        exact ih j (by omega) (by omega)
  exact hlate (s.blocks.size + 1) i hi (by omega)

theorem Ordered.induction {s : Session} (hs : s.Ordered) {P : Nat → Prop}
    (h : ∀ i, (∀ j, s.Holds i j → P j) → P i) (i : Nat) : P i :=
  (hs.orderedFrom 0).induction (fun i _ => h i) i (Nat.zero_le i)

/-- What is seen through the blocks from block `n` on depends on these blocks
    alone. -/
theorem snapshot_eq_of_fields {s s' : Session} {n : Nat} (hs : s.OrderedFrom n)
    (hs' : s'.OrderedFrom n)
    (hfields : ∀ i, n ≤ i → i < s.blocks.size → s'.fields i = s.fields i) {v : Value}
    (hv : ∀ j ∈ v.held, n ≤ j ∧ j < s.blocks.size) : s'.snapshot v = s.snapshot v := by
  have hblocks : ∀ i, n ≤ i → i < s.blocks.size → s'.snapshotFields i = s.snapshotFields i := by
    -- A block is seen through its fields, and these through later blocks.
    refine hs.induction fun i hi ih hlt => ?_
    unfold snapshotFields
    rw [hfields i hi hlt]
    refine List.map_congr_left fun p hp => congrArg (Prod.mk p.1) ?_
    have hholds : ∀ j ∈ p.2.held, s.Holds i j := fun j hj => Fields.mem_held.mpr ⟨p, hp, hj⟩
    have hlate : ∀ j ∈ p.2.held, n ≤ j := by
      intro j hj
      have hij := (hs i j hi (hholds j hj)).1
      omega
    rw [snapshot_eq_of_late hs' hlate, snapshot_eq_of_late hs hlate]
    refine p.2.mapLive_congr fun j hj => congrArg Fields.toValue ?_
    exact ih j (hholds j hj) (hs i j hi (hholds j hj)).2
  rw [snapshot_eq_of_late hs' fun j hj => (hv j hj).1,
    snapshot_eq_of_late hs fun j hj => (hv j hj).1]
  exact v.mapLive_congr fun j hj =>
    congrArg Fields.toValue (hblocks j (hv j hj).1 (hv j hj).2)

/-- What is written out holds no block. -/
theorem held_snapshot {s : Session} (hs : s.Ordered) (v : Value) : (s.snapshot v).held = [] := by
  have hfields : ∀ i, Fields.held (s.snapshotFields i) = [] := by
    refine hs.induction fun i ih => ?_
    rw [List.eq_nil_iff_forall_not_mem]
    intro j hj
    rcases Fields.mem_held.mp hj with ⟨p, hp, hpj⟩
    rcases List.mem_map.mp hp with ⟨q, hq, rfl⟩
    rw [snapshot_eq hs, Value.held_mapLive, List.mem_flatMap] at hpj
    rcases hpj with ⟨k, hk, hjk⟩
    rw [Fields.held_toValue, ih k (Fields.mem_held.mpr ⟨q, hq, hk⟩)] at hjk
    exact absurd hjk List.not_mem_nil
  rw [snapshot_eq hs, Value.held_mapLive, List.flatMap_eq_nil_iff]
  intro j hj
  rw [Fields.held_toValue, hfields j]

end Session

end Docket
