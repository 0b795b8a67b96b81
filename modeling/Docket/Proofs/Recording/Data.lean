import Docket.Proofs.Recording.Runs

/-!
# Data

What a tree stands for when no leaf node was made by hand: leaves in plain form,
lists and mappings with distinct names, and nothing else once the fields of
blocks are written out. Data is its own tree: classified and resolved again it
comes out as it went in, which is why a value that is read back and assigned
elsewhere is a faithful copy.

## Main definitions

* `Value.IsLeaf`: What may be a leaf if none is made by hand.
* `Value.IsData`: Values written out that consist of such leaves.
* `Value.sameData`: Whether values are the same data, which can be computed.

## Theorems

* `isLeaf_leafRule`: Leaves in plain form may be leaves.
* `Value.Recorded.isData`: Recorded values without blocks are data.
* `Session.Sound.isData_snapshot`: What is written out is data.
* `Value.IsData.copied`: Data is its own tree.
* `Value.eq_of_sameData`: Values that are the same data are the same values.
-/

namespace Docket

/-- A leaf that passes is in plain form already. -/
theorem Scalar.plain_of_isData {s : Scalar} (h : s.isData = true) : s.plain = s := by
  cases s with
  | float x form =>
      rw [isData, Bool.and_eq_true, beq_iff_eq] at h
      rw [plain, h.2]
  | int n form =>
      change (form == .plain) = true at h
      rw [plain, beq_iff_eq.mp h]
  | text t form =>
      change (form == .plain) = true at h
      rw [plain, beq_iff_eq.mp h]
  | _ => rfl

/-- A leaf as classification lets it pass. -/
def Value.IsLeaf (v : Value) : Prop := ∃ s : Scalar, v = .scalar s ∧ s.isData = true

theorem isLeaf_leafRule : LeafRule Value.IsLeaf where
  scalar s hs := ⟨s, rfl, hs⟩
  free := by
    rintro v ⟨s, rfl, -⟩
    rfl
  made := by
    rintro v ⟨s, rfl, -⟩
    exact trivial

/-- Leaves in plain form, lists, and mappings with distinct names. -/
inductive Value.IsData : Value → Prop
  | scalar {s : Scalar} (h : s.isData = true) : Value.IsData (.scalar s)
  | list {xs : List Value} (h : ∀ v ∈ xs, Value.IsData v) : Value.IsData (.list xs)
  | fields {fs : Fields} (hnames : fs.names.Nodup) (h : ∀ f ∈ fs, Value.IsData f.2) :
      Value.IsData fs.toValue

theorem Value.IsData.held {v : Value} (h : v.IsData) : v.held = [] := by
  induction h with
  | scalar h => rfl
  | @list xs h ih =>
      rw [Value.list, Value.held]
      clear h
      induction xs with
      | nil => rfl
      | cons v rest ihr =>
          rw [List.forall_mem_cons] at ih
          rw [heldInItems, ih.1, ihr ih.2]
          rfl
  | fields hnames h ih =>
      rw [Fields.held_toValue]
      exact List.flatMap_eq_nil_iff.mpr ih

theorem mem_heldInItems {xs : List Value} {v : Value} {j : Nat} (hv : v ∈ xs) (hj : j ∈ v.held) :
    j ∈ heldInItems xs := by
  induction xs with
  | nil => exact absurd hv List.not_mem_nil
  | cons w rest ih =>
      rw [heldInItems, List.mem_append]
      rcases List.mem_cons.mp hv with rfl | hv
      · exact Or.inl hj
      · exact Or.inr (ih hv)

theorem mapLiveItems_eq_map (f : Nat → Value) (xs : List Value) :
    mapLiveItems f xs = xs.map (Value.mapLive f) := by
  induction xs with
  | nil => rfl
  | cons v rest ih => rw [mapLiveItems, ih, List.map_cons]

theorem Fields.names_map (fs : Fields) (f : Value → Value) :
    Fields.names (fs.map fun p => (p.1, f p.2)) = fs.names := by
  unfold Fields.names
  rw [List.map_map]
  rfl

/-- Recorded values are data once the blocks they hold are replaced by data. -/
theorem Value.Recorded.isData {v : Value} (h : v.Recorded Value.IsLeaf) {f : Nat → Value}
    (hf : ∀ j ∈ v.held, (f j).IsData) : (v.mapLive f).IsData := by
  induction h with
  | leaf h =>
      rcases h with ⟨s, rfl, hs⟩
      exact Value.IsData.scalar hs
  | live id => exact hf id (List.mem_singleton.mpr rfl)
  | @list xs h ih =>
      rw [Value.list, Value.mapLive, mapLiveItems_eq_map]
      refine Value.IsData.list fun v hv => ?_
      rcases List.mem_map.mp hv with ⟨w, hw, rfl⟩
      exact ih w hw fun j hj => hf j (mem_heldInItems hw hj)
  | @fields fs hnames h ih =>
      rw [Fields.held_toValue] at hf
      rw [Fields.mapLive_toValue]
      refine Value.IsData.fields ?_ fun p hp => ?_
      · rw [Fields.names_map]
        exact hnames
      · rcases List.mem_map.mp hp with ⟨q, hq, rfl⟩
        exact ih q hq fun j hj => hf j (Fields.mem_held.mpr ⟨q, hq, hj⟩)

/-- What is written out is data. -/
theorem Session.Sound.isData_snapshot {s : Session} (hs : s.Sound Value.IsLeaf) {v : Value}
    (hv : v.Recorded Value.IsLeaf) : (s.snapshot v).IsData := by
  have hfields : ∀ i, (Fields.toValue (s.snapshotFields i)).IsData := by
    refine hs.ordered.induction fun i ih => ?_
    refine Value.IsData.fields ?_ fun p hp => ?_
    · unfold Session.snapshotFields
      rw [Fields.names_map]
      exact hs.names i
    · rcases List.mem_map.mp hp with ⟨q, hq, rfl⟩
      rw [Session.snapshot_eq hs.ordered]
      exact (hs.filled i q hq).isData fun j hj => ih j (Fields.mem_held.mpr ⟨q, hq, hj⟩)
  rw [Session.snapshot_eq hs.ordered]
  exact hv.isData fun j _ => hfields j

/-- A name that is not there yet goes to the end. -/
theorem Fields.set_of_not_mem {fs : Fields} {name : Name} (v : Value)
    (h : name.text ∉ fs.names) : fs.set name v = fs ++ [(name, v)] := by
  induction fs with
  | nil => rfl
  | cons f rest ih =>
      have hcons : Fields.names (f :: rest) = f.1.text :: Fields.names rest := rfl
      rw [hcons, List.mem_cons, not_or] at h
      rw [Fields.set, if_neg fun hsame => h.1 (Name.same_iff.mp hsame).symm, ih h.2]
      rfl

/-- Classified at any place, a value becomes a tree without bodies that stands for
    the value itself, and nothing else happens. -/
def Value.Copied (v : Value) : Prop :=
  ∀ path, ∃ n : Node, n.depth = 0 ∧ (∀ s, Yields (v.classify path) s (.ok n) s) ∧
    ∀ run s, Yields (n.resolve run) s (.ok v) s

theorem copied_items {xs : List Value} (h : ∀ v ∈ xs, v.Copied) (path : Name) (i : Nat) :
    ∃ ns, nodeListDepth ns = 0 ∧ (∀ s, Yields (classifyItems path i xs) s (.ok ns) s) ∧
      ∀ run s, Yields (resolveItems run ns) s (.ok xs) s := by
  induction xs generalizing i with
  | nil =>
      exact ⟨[], rfl, fun s => yields_pure.mpr ⟨rfl, rfl⟩, fun run s => yields_pure.mpr ⟨rfl, rfl⟩⟩
  | cons v rest ih =>
      rw [List.forall_mem_cons] at h
      rcases h.1 (itemPath path i) with ⟨n, hdepth, hclassify, hresolve⟩
      rcases ih h.2 (i + 1) with ⟨ns, hdepths, hclassifies, hresolves⟩
      -- Neither classifying nor resolving changes the session, so the items follow one another.
      refine ⟨n :: ns, ?_, fun s => ?_, fun run s => ?_⟩
      · rw [nodeListDepth, hdepth, hdepths, Nat.max_self]
      · rw [classifyItems, yields_bind_ok (hclassify s), yields_bind_ok (hclassifies s),
          yields_pure]
        exact ⟨rfl, rfl⟩
      · rw [resolveItems, yields_bind_ok (hresolve run s), yields_bind_ok (hresolves run s),
          yields_pure]
        exact ⟨rfl, rfl⟩

theorem copied_fields {fs : Fields} (hnames : fs.names.Nodup) (h : ∀ f ∈ fs, f.2.Copied)
    (path : Name) : ∃ ns, nodeFieldsDepth ns = 0 ∧
      (∀ s, Yields (classifyEntries path (fs.map fun f => (f.1.toValue, f.2))) s (.ok ns) s) ∧
      ∀ run s (done : Fields), (∀ n ∈ done.names, n ∉ fs.names) →
        Yields (resolveEntries run done ns) s (.ok (done ++ fs)) s := by
  induction fs with
  | nil =>
      refine ⟨[], rfl, fun s => yields_pure.mpr ⟨rfl, rfl⟩, fun run s done _ => ?_⟩
      rw [resolveEntries, List.append_nil, yields_pure]
      exact ⟨rfl, rfl⟩
  | cons f rest ih =>
      have hcons : Fields.names (f :: rest) = f.1.text :: Fields.names rest := rfl
      rw [hcons, List.nodup_cons] at hnames
      rw [List.forall_mem_cons] at h
      rcases h.1 (fieldPath path f.1) with ⟨n, hdepth, hclassify, hresolve⟩
      rcases ih hnames.2 h.2 with ⟨ns, hdepths, hclassifies, hresolves⟩
      refine ⟨(f.1, n) :: ns, ?_, fun s => ?_, fun run s done hdone => ?_⟩
      · rw [nodeFieldsDepth, hdepth, hdepths, Nat.max_self]
      · rw [List.map_cons, Name.toValue, classifyEntries, yields_bind_ok (hclassify s),
          yields_bind_ok (hclassifies s), yields_pure]
        exact ⟨rfl, rfl⟩
      · rw [hcons] at hdone
        -- The name is a new one, so that the field is put behind those that are there.
        have hnew : f.1.text ∉ done.names := fun hmem => hdone _ hmem List.mem_cons_self
        rw [resolveEntries, yields_bind_ok (hresolve run s), Fields.set_of_not_mem f.2 hnew]
        have happend : done ++ f :: rest = (done ++ [f]) ++ rest := by
          rw [List.append_assoc, List.singleton_append]
        rw [happend]
        refine hresolves run s (done ++ [f]) fun m hm => ?_
        have hnames' : Fields.names (done ++ [f]) = done.names ++ [f.1.text] := List.map_append
        rw [hnames', List.mem_append, List.mem_singleton] at hm
        rcases hm with hm | rfl
        · exact fun hmem => hdone m hm (List.mem_cons_of_mem _ hmem)
        · exact hnames.1

/-- Data is its own tree. -/
theorem Value.IsData.copied {v : Value} (h : v.IsData) : v.Copied := by
  induction h with
  | @scalar s h =>
      intro path
      have hplain := Scalar.plain_of_isData h
      refine ⟨.scalar (.scalar s) s.kind, rfl, fun t => ?_, fun run t => yields_pure.mpr ⟨rfl, rfl⟩⟩
      -- Of all leaves only a float is looked at, as to whether it is finite.
      cases s with
      | float x form =>
          rw [Scalar.isData, Bool.and_eq_true, beq_iff_eq] at h
          rw [Value.classify, if_pos h.1, h.2]
          exact yields_pure.mpr ⟨rfl, rfl⟩
      | _ =>
          refine yields_pure.mpr ⟨?_, rfl⟩
          rw [hplain]
  | list h ih =>
      intro path
      rcases copied_items ih path 0 with ⟨ns, hdepth, hclassify, hresolve⟩
      refine ⟨.seq ns, hdepth, fun s => ?_, fun run s => ?_⟩
      · rw [Value.list, Value.classify, yields_bind_ok (hclassify s), yields_pure]
        exact ⟨rfl, rfl⟩
      · rw [Node.resolve, yields_bind_ok (hresolve run s), yields_pure]
        exact ⟨rfl, rfl⟩
  | fields hnames h ih =>
      intro path
      rcases copied_fields hnames ih path with ⟨ns, hdepth, hclassify, hresolve⟩
      refine ⟨.mapping ns, hdepth, fun s => ?_, fun run s => ?_⟩
      · rw [Fields.toValue, Value.dict, Value.classify, yields_bind_ok (hclassify s), yields_pure]
        exact ⟨rfl, rfl⟩
      · have hnone := hresolve run s [] fun n hn => absurd hn List.not_mem_nil
        rw [Node.resolve, yields_bind_ok hnone, yields_pure]
        exact ⟨rfl, rfl⟩

/-! ## Comparing data -/

mutual

/-- Whether values are the same data. What is no data is the same as nothing. -/
def Value.sameData : Value → Value → Bool
  | .scalar s, .scalar t => s == t
  | .items kind xs, .items kind' ys => kind == kind' && sameDataItems xs ys
  | .mapping kind xs, .mapping kind' ys => kind == kind' && sameDataEntries xs ys
  | _, _ => false

def sameDataItems : List Value → List Value → Bool
  | [], [] => true
  | v :: vs, w :: ws => v.sameData w && sameDataItems vs ws
  | _, _ => false

def sameDataEntries : List (Value × Value) → List (Value × Value) → Bool
  | [], [] => true
  | (k, v) :: vs, (l, w) :: ws => k.sameData l && v.sameData w && sameDataEntries vs ws
  | _, _ => false

end

mutual

/-- Values that are the same data are the same values. -/
theorem Value.eq_of_sameData : ∀ {v w : Value}, v.sameData w = true → v = w
  | .scalar s, .scalar t, h => by
      rw [Value.sameData, beq_iff_eq] at h
      rw [h]
  | .items kind xs, .items kind' ys, h => by
      rw [Value.sameData, Bool.and_eq_true, beq_iff_eq] at h
      rw [h.1, eq_of_sameDataItems h.2]
  | .mapping kind xs, .mapping kind' ys, h => by
      rw [Value.sameData, Bool.and_eq_true, beq_iff_eq] at h
      rw [h.1, eq_of_sameDataEntries h.2]

theorem eq_of_sameDataItems : ∀ {vs ws : List Value}, sameDataItems vs ws = true → vs = ws
  | [], [], _ => rfl
  | v :: vs, w :: ws, h => by
      rw [sameDataItems, Bool.and_eq_true] at h
      rw [Value.eq_of_sameData h.1, eq_of_sameDataItems h.2]

theorem eq_of_sameDataEntries :
    ∀ {vs ws : List (Value × Value)}, sameDataEntries vs ws = true → vs = ws
  | [], [], _ => rfl
  | (k, v) :: vs, (l, w) :: ws, h => by
      rw [sameDataEntries, Bool.and_eq_true, Bool.and_eq_true] at h
      rw [Value.eq_of_sameData h.1.1, Value.eq_of_sameData h.1.2, eq_of_sameDataEntries h.2]

end

/-- Fields are known by the mapping that they make. -/
theorem Fields.toValue_injective {fs gs : Fields} (h : fs.toValue = gs.toValue) : fs = gs := by
  simp only [Fields.toValue, Value.dict, Value.mapping.injEq, true_and] at h
  refine (List.map_inj_right ?_).mp h
  rintro ⟨⟨a, f⟩, v⟩ ⟨⟨b, g⟩, w⟩ heq
  simp only [Name.toValue, Prod.mk.injEq, Value.scalar.injEq, Scalar.text.injEq] at heq
  simp [heq]

theorem Fields.eq_of_sameData {fs gs : Fields} (h : fs.toValue.sameData gs.toValue = true) :
    fs = gs :=
  Fields.toValue_injective (Value.eq_of_sameData h)

theorem eq_some_of_sameData {found : Option Value} {v : Value}
    (h : found.any (·.sameData v) = true) : found = some v := by
  cases found with
  | none => exact absurd h Bool.false_ne_true
  | some w => rw [Value.eq_of_sameData h]

end Docket
