import Docket.Proofs.Recording.Holding
import Docket.Proofs.Work
import Docket.Recorder

/-!
# What blocks contain

A field of a block contains what a tree stands for: leaves, lists, mappings of
fields, and the field mappings of other blocks. The leaves are what
classification lets pass and what nodes made by hand hold, which need not be
leaves at all. What may be a leaf is therefore a parameter here: `LeafRule L`
says that `L` holds of the leaves that classification lets pass, and of nothing
that could bring another block or an unruly node along.

Under such a rule a value is *made* properly if the nodes in it hold only leaves,
which is all that has to be known of a value for its tree to be clean
(`builds_classify`). Values written out are made properly if all fields contain
recorded values, since writing out only puts fields in the places of blocks.

## Main definitions

* `LeafRule`: What may be a leaf.
* `Value.Recorded`: The values that fields contain.
* `Value.Made`, `Node.Clean`: Values and nodes that bring only leaves along.
* `Session.Filled`: A session whose fields contain recorded values.
* `Draws`, `Builds`: Work that makes values and assigns no field.

## Theorems

* `Value.Recorded.made`: Recorded values are made properly.
* `Session.Filled.made_snapshot`: So are values written out.
* `Builds.bind`: Building in two parts.
* `builds_classify`: The tree of a value made properly is clean.
* `builds_toNode`: So is its tree as blocks are now.
-/

namespace Docket

/-- A leaf that classification lets pass: in plain form, and finite. -/
def Scalar.isData : Scalar → Bool
  | .float x form => x.isFinite && form == .plain
  | s => s.isPlain

/-- The values that fields contain, given what may be a leaf. -/
inductive Value.Recorded (L : Value → Prop) : Value → Prop
  | leaf {v : Value} (h : L v) : Value.Recorded L v
  | live (id : Nat) : Value.Recorded L (.live id)
  | list {xs : List Value} (h : ∀ v ∈ xs, Value.Recorded L v) : Value.Recorded L (.list xs)
  | fields {fs : Fields} (hnames : fs.names.Nodup) (h : ∀ f ∈ fs, Value.Recorded L f.2) :
      Value.Recorded L fs.toValue

mutual

/-- A value in which the nodes made by hand hold only leaves. -/
def Value.Made (L : Value → Prop) : Value → Prop
  | .node n => n.Clean L
  | .items _ xs => madeItems L xs
  | .mapping _ entries => madeEntries L entries
  | .generator _ xs _ => madeItems L xs
  | _ => True

def madeItems (L : Value → Prop) : List Value → Prop
  | [] => True
  | v :: rest => v.Made L ∧ madeItems L rest

def madeEntries (L : Value → Prop) : List (Value × Value) → Prop
  | [] => True
  | (_, v) :: rest => v.Made L ∧ madeEntries L rest

/-- A node whose leaf nodes hold only leaves. -/
def Node.Clean (L : Value → Prop) : Node → Prop
  | .scalar v _ => L v
  | .seq items => cleanNodes L items
  | .mapping entries => cleanEntries L entries
  | .nested _ => True
  | .raw v => v.Made L

def cleanNodes (L : Value → Prop) : List Node → Prop
  | [] => True
  | n :: rest => n.Clean L ∧ cleanNodes L rest

def cleanEntries (L : Value → Prop) : List (Name × Node) → Prop
  | [] => True
  | (_, n) :: rest => n.Clean L ∧ cleanEntries L rest

end

/-- What may be a leaf: at least what classification lets pass, and nothing that
    brings along a block or a node that is not clean. -/
structure LeafRule (L : Value → Prop) : Prop where
  scalar : ∀ s : Scalar, s.isData = true → L (.scalar s)
  free : ∀ v, L v → v.held = []
  made : ∀ v, L v → v.Made L

/-- A session whose fields contain recorded values. -/
def Session.Filled (L : Value → Prop) (s : Session) : Prop :=
  ∀ i, ∀ f ∈ s.fields i, f.2.Recorded L

section

variable {L : Value → Prop}

theorem madeItems_iff {xs : List Value} : madeItems L xs ↔ ∀ v ∈ xs, v.Made L := by
  induction xs with
  | nil => exact ⟨fun _ v hv => absurd hv List.not_mem_nil, fun _ => trivial⟩
  | cons v rest ih => rw [madeItems, ih, List.forall_mem_cons]

theorem madeEntries_iff {entries : List (Value × Value)} :
    madeEntries L entries ↔ ∀ e ∈ entries, e.2.Made L := by
  induction entries with
  | nil => exact ⟨fun _ e he => absurd he List.not_mem_nil, fun _ => trivial⟩
  | cons e rest ih => rw [madeEntries, ih, List.forall_mem_cons]

theorem cleanNodes_iff {nodes : List Node} : cleanNodes L nodes ↔ ∀ n ∈ nodes, n.Clean L := by
  induction nodes with
  | nil => exact ⟨fun _ n hn => absurd hn List.not_mem_nil, fun _ => trivial⟩
  | cons n rest ih => rw [cleanNodes, ih, List.forall_mem_cons]

theorem cleanEntries_iff {entries : List (Name × Node)} :
    cleanEntries L entries ↔ ∀ e ∈ entries, e.2.Clean L := by
  induction entries with
  | nil => exact ⟨fun _ e he => absurd he List.not_mem_nil, fun _ => trivial⟩
  | cons e rest ih => rw [cleanEntries, ih, List.forall_mem_cons]

theorem Name.same_iff {a b : Name} : a.same b = true ↔ a.text = b.text := beq_iff_eq

namespace Fields

theorem made_toValue {fs : Fields} (h : ∀ f ∈ fs, f.2.Made L) : fs.toValue.Made L := by
  unfold toValue Value.dict
  rw [Value.Made, madeEntries_iff]
  intro e he
  rcases List.mem_map.mp he with ⟨f, hf, rfl⟩
  exact h f hf

theorem mem_set {fs : Fields} {name : Name} {v : Value} {f : Name × Value}
    (h : f ∈ fs.set name v) : f ∈ fs ∨ f.2 = v := by
  induction fs with
  | nil =>
      rw [set, List.mem_singleton] at h
      exact Or.inr (congrArg Prod.snd h)
  | cons g rest ih =>
      rw [set] at h
      by_cases hsame : g.1.same name = true
      · rw [if_pos hsame, List.mem_cons] at h
        rcases h with rfl | h
        · exact Or.inr rfl
        · exact Or.inl (List.mem_cons_of_mem g h)
      · rw [if_neg hsame, List.mem_cons] at h
        rcases h with rfl | h
        · exact Or.inl List.mem_cons_self
        · rcases ih h with h | h
          · exact Or.inl (List.mem_cons_of_mem g h)
          · exact Or.inr h

theorem names_set (fs : Fields) (name : Name) (v : Value) :
    (fs.set name v).names = if name.text ∈ fs.names then fs.names else fs.names ++ [name.text] := by
  induction fs with
  | nil => rfl
  | cons g rest ih =>
      rw [set]
      by_cases hsame : g.1.text = name.text
      · rw [if_pos (Name.same_iff.mpr hsame), if_pos]
        · rfl
        · rw [← hsame]
          exact List.mem_cons_self
      · rw [if_neg (fun h => hsame (Name.same_iff.mp h))]
        have hcons : ∀ (w : Value) (l : Fields), names ((g.1, w) :: l) = g.1.text :: names l :=
          fun _ _ => rfl
        rw [hcons, ih, show names (g :: rest) = g.1.text :: names rest from rfl]
        by_cases hmem : name.text ∈ names rest
        · rw [if_pos hmem, if_pos (List.mem_cons_of_mem _ hmem)]
        · rw [if_neg hmem, if_neg]
          · rfl
          · rw [List.mem_cons, not_or]
            exact ⟨fun h => hsame h.symm, hmem⟩

theorem nodup_set {fs : Fields} (name : Name) (v : Value) (h : fs.names.Nodup) :
    (fs.set name v).names.Nodup := by
  rw [names_set]
  by_cases hmem : name.text ∈ fs.names
  · rw [if_pos hmem]
    exact h
  · rw [if_neg hmem, List.nodup_append]
    refine ⟨h, List.pairwise_singleton _ _, ?_⟩
    intro a ha b hb
    rw [List.mem_singleton] at hb
    rw [hb]
    rintro rfl
    exact hmem ha

end Fields

/-- Recorded values are made properly. -/
theorem Value.Recorded.made (hL : LeafRule L) {v : Value} (h : v.Recorded L) : v.Made L := by
  induction h with
  | leaf h => exact hL.made _ h
  | live id => exact trivial
  | list h ih =>
      rw [Value.list, Value.Made, madeItems_iff]
      exact ih
  | fields hnames h ih => exact Fields.made_toValue ih

mutual

theorem Value.Made.mapLive {f : Nat → Value} (hf : ∀ j, (f j).Made L) :
    (v : Value) → v.Made L → (v.mapLive f).Made L
  | .live id, _ => hf id
  | .items _ xs, h => Value.Made.mapLiveItems hf xs h
  | .mapping _ entries, h => Value.Made.mapLiveEntries hf entries h
  | .generator _ xs _, h => Value.Made.mapLiveItems hf xs h
  | .tag .., _ => trivial
  | .scalar _, _ => trivial
  | .alien _, _ => trivial
  | .range .., _ => trivial
  | .encodings, _ => trivial
  | .body _, _ => trivial
  | .bodyItems .., _ => trivial
  | .failure _, _ => trivial
  | .node _, h => h
  | .block _, _ => trivial
  | .fieldRef .., _ => trivial

theorem Value.Made.mapLiveItems {f : Nat → Value} (hf : ∀ j, (f j).Made L) :
    (xs : List Value) → madeItems L xs → madeItems L (Docket.mapLiveItems f xs)
  | [], _ => trivial
  | v :: rest, h => ⟨Value.Made.mapLive hf v h.1, Value.Made.mapLiveItems hf rest h.2⟩

theorem Value.Made.mapLiveEntries {f : Nat → Value} (hf : ∀ j, (f j).Made L) :
    (entries : List (Value × Value)) → madeEntries L entries →
      madeEntries L (Docket.mapLiveEntries f entries)
  | [], _ => trivial
  | (_, v) :: rest, h => ⟨Value.Made.mapLive hf v h.1, Value.Made.mapLiveEntries hf rest h.2⟩

end

/-- Values written out are made properly. -/
theorem Session.Filled.made_snapshot (hL : LeafRule L) {s : Session} (hs : s.Filled L) {v : Value}
    (hv : v.Made L) : (s.snapshot v).Made L := by
  have hexpand : ∀ d (v : Value), v.Made L → (v.expand s.blocks d).Made L := by
    intro d
    induction d with
    | zero => exact fun v hv => hv
    | succ d ih =>
        intro v hv
        rw [Value.expand]
        refine Value.Made.mapLive (fun j => Fields.made_toValue ?_) v hv
        intro p hp
        rcases List.mem_map.mp hp with ⟨q, hq, rfl⟩
        exact ih q.2 ((hs j q hq).made hL)
  exact hexpand _ v hv

/-- A session differs from another only in what has been drawn, noted and made
    by hand. -/
structure Draws (s s' : Session) : Prop where
  blocks : s'.blocks = s.blocks
  history : s'.history = s.history
  kept : s'.kept = s.kept
  leaves : ∀ v ∈ s.leaves, v ∈ s'.leaves

theorem Draws.refl (s : Session) : Draws s s := ⟨rfl, rfl, rfl, fun _ h => h⟩

theorem Draws.trans {s₁ s₂ s₃ : Session} (h₁ : Draws s₁ s₂) (h₂ : Draws s₂ s₃) : Draws s₁ s₃ :=
  ⟨h₂.blocks.trans h₁.blocks, h₂.history.trans h₁.history, h₂.kept.trans h₁.kept,
    fun v h => h₂.leaves v (h₁.leaves v h)⟩

theorem Draws.filled {s s' : Session} (h : Draws s s') (hs : s.Filled L) : s'.Filled L := by
  unfold Session.Filled Session.fields
  rw [h.blocks]
  exact hs

/-- Work that assigns no field, and what it comes to if all fields contain
    recorded values and nodes made by hand hold only leaves. -/
def Builds (L : Value → Prop) {α : Type} (p : Run α) (Q : α → Prop) : Prop :=
  ∀ s r s', Yields p s r s' → Draws s s' ∧
    (s.Filled L → (∀ v ∈ s'.leaves, L v) → ∀ a, r = .ok a → Q a)

namespace Builds

variable {α β : Type}

theorem pure {a : α} {Q : α → Prop} (h : Q a) : Builds L (Pure.pure a) Q := by
  intro s r s' hp
  rcases yields_pure.mp hp with ⟨rfl, rfl⟩
  refine ⟨Draws.refl _, fun _ _ b hb => ?_⟩
  rw [Except.ok.injEq] at hb
  exact hb ▸ h

theorem throw {e : Failure} {Q : α → Prop} : Builds L (MonadExcept.throw e : Run α) Q := by
  intro s r s' hp
  rcases yields_throw.mp hp with ⟨rfl, rfl⟩
  exact ⟨Draws.refl _, fun _ _ b hb => absurd hb error_ne_ok⟩

theorem mono {p : Run α} {Q R : α → Prop} (hp : Builds L p Q) (h : ∀ a, Q a → R a) :
    Builds L p R := by
  intro s r s' hr
  rcases hp s r s' hr with ⟨hdraws, hQ⟩
  exact ⟨hdraws, fun hs hleaves a ha => h a (hQ hs hleaves a ha)⟩

/-- Building in two parts: what the second part comes to may rest on what the
    first one has come to. -/
theorem bind {p : Run α} {f : α → Run β} {Q : α → Prop} {R : β → Prop} (hp : Builds L p Q)
    (hf : ∀ a, Builds L (f a) fun b => Q a → R b) : Builds L (p >>= f) R := by
  intro s r s' h
  rcases yields_bind.mp h with ⟨a, m, h₁, h₂⟩ | ⟨e, h₁, rfl⟩
  · rcases hp s _ m h₁ with ⟨hdraws₁, hQ⟩
    rcases hf a m r s' h₂ with ⟨hdraws₂, hR⟩
    refine ⟨hdraws₁.trans hdraws₂, fun hs hleaves b hb => ?_⟩
    have hm : ∀ v ∈ m.leaves, L v := fun v hv => hleaves v (hdraws₂.leaves v hv)
    exact hR (hdraws₁.filled hs) hleaves b hb (hQ hs hm a rfl)
  · exact ⟨(hp s _ s' h₁).1,
      fun _ _ b hb => absurd hb error_ne_ok⟩

/-- After a failure nothing is done. -/
theorem throw_bind {e : Failure} {f : α → Run β} {R : β → Prop} :
    Builds L ((MonadExcept.throw e : Run α) >>= f) R := by
  intro s r s' h
  rw [yields_bind_error (yields_throw.mpr ⟨rfl, rfl⟩)] at h
  exact throw s r s' (yields_throw.mpr h)

/-- What comes to something good whatever it is may follow anything. -/
theorem any {p : Run α} {Q : α → Prop} {P : Prop} (hp : Builds L p Q) :
    Builds L p fun a => P → Q a :=
  hp.mono fun _ h _ => h

theorem change {f : Session → Session} {Q : PUnit → Prop} (h : ∀ s, Draws s (f s)) (hQ : Q ⟨⟩) :
    Builds L (modify f : Run PUnit) Q := by
  intro s r s' hp
  rcases yields_modify.mp hp with ⟨rfl, rfl⟩
  exact ⟨h s, fun _ _ _ _ => hQ⟩

end Builds


/-- Building if what has been said of the first part suffices for the second. -/
theorem builds_map {α β : Type} {p : Run α} {f : α → β} {Q : α → Prop} {R : β → Prop}
    (hp : Builds L p Q) (h : ∀ a, Q a → R (f a)) :
    Builds L (do let a ← p; pure (f a)) R := by
  refine hp.bind fun a => ?_
  intro s r s' hr
  rcases yields_pure.mp hr with ⟨rfl, rfl⟩
  refine ⟨Draws.refl _, fun _ _ b hb hQ => ?_⟩
  rw [Except.ok.injEq] at hb
  exact hb ▸ h a hQ

theorem builds_drawnOf (id : Nat) : Builds L (Run.drawnOf id) fun _ => True := by
  intro s r s' h
  unfold Run.drawnOf at h
  rw [yields_bind_ok (yields_get.mpr ⟨rfl, rfl⟩), yields_pure] at h
  exact ⟨h.2 ▸ Draws.refl s, fun _ _ _ _ => trivial⟩

theorem builds_setDrawn (id n : Nat) : Builds L (Run.setDrawn id n) fun _ => True :=
  Builds.change (fun _ => ⟨rfl, rfl, rfl, fun _ h => h⟩) trivial

/-- A leaf that passes is a leaf. -/
theorem builds_classify_scalar (hL : LeafRule L) (path : Name) (s : Scalar) :
    Builds L ((Value.scalar s).classify path) (Node.Clean L) := by
  -- Only a float may be refused: one that is not finite.
  cases s with
  | float x form =>
      rw [Value.classify]
      by_cases hx : x.isFinite = true
      · rw [if_pos hx]
        refine Builds.pure (hL.scalar _ ?_)
        rw [Scalar.isData, hx]
        rfl
      · rw [if_neg hx]
        exact Builds.throw
  | null => exact Builds.pure (hL.scalar _ rfl)
  | bool b => exact Builds.pure (hL.scalar _ rfl)
  | int n form => exact Builds.pure (hL.scalar _ rfl)
  | text s form => exact Builds.pure (hL.scalar _ rfl)
  | date d => exact Builds.pure (hL.scalar _ rfl)
  | datetime t => exact Builds.pure (hL.scalar _ rfl)

mutual

/-- The tree of a value made properly is clean. -/
theorem builds_classify (hL : LeafRule L) : (v : Value) → (path : Name) →
    Builds L (v.classify path) fun n => v.Made L → n.Clean L
  | .scalar s, path => (builds_classify_scalar hL path s).any
  | .node n, path => by
    rw [Value.classify]
    exact Builds.pure fun h => h
  | .items kind xs, path => by
    rw [Value.classify]
    exact builds_map (builds_classifyItems hL xs path 0) fun _ hn => hn
  | .mapping kind entries, path => by
    rw [Value.classify]
    exact builds_map (builds_classifyEntries hL entries path) fun _ hn => hn
  | .generator id xs ending, path => by
    rw [Value.classify]
    refine (builds_drawnOf id).bind fun drawn => Builds.any ?_
    refine (builds_drawItems hL xs path id drawn 0 0).bind fun nodes => ?_
    rcases ending with _ | e
    · exact Builds.pure fun hclean hmade => hclean hmade
    -- The failing end was met before if more was drawn than there are items.
    · by_cases hdrawn : drawn ≤ xs.length
      · simp only [hdrawn, if_true]
        exact (builds_setDrawn id _).bind fun _ => Builds.throw
      · simp only [hdrawn, if_false]
        exact Builds.pure fun hclean hmade => hclean hmade
  | .range start stop step, path => by
    rw [Value.classify]
    refine Builds.pure fun _ => cleanNodes_iff.mpr fun n hn => ?_
    rcases List.mem_map.mp hn with ⟨i, -, rfl⟩
    exact hL.scalar _ rfl
  | .encodings, path => by
    rw [Value.classify]
    refine Builds.pure fun _ => cleanNodes_iff.mpr fun n hn => ?_
    rcases List.mem_map.mp hn with ⟨e, -, rfl⟩
    exact hL.scalar _ rfl
  | .body b, path => by
    rw [Value.classify]
    exact Builds.pure fun _ => trivial
  | .bodyItems b xs, path => by
    rw [Value.classify]
    exact Builds.pure fun _ => trivial
  | .block id, path => by
    rw [Value.classify]
    exact Builds.throw
  | .fieldRef id ps, path => by
    rw [Value.classify]
    exact Builds.throw
  | .alien a, path => by
    cases a <;> exact Builds.throw
  | .failure e, path => Builds.throw
  | .live id, path => Builds.throw
  | .tag n v, path => Builds.throw

theorem builds_classifyItems (hL : LeafRule L) : (xs : List Value) → (path : Name) → (i : Nat) →
    Builds L (classifyItems path i xs) fun ns => madeItems L xs → cleanNodes L ns
  | [], path, i => by
    rw [classifyItems]
    exact Builds.pure fun _ => trivial
  | v :: rest, path, i => by
    rw [classifyItems]
    refine (builds_classify hL v (itemPath path i)).bind fun n => ?_
    exact builds_map (builds_classifyItems hL rest path (i + 1))
      fun ns hns hn hmade => ⟨hn hmade.1, hns hmade.2⟩

theorem builds_classifyEntries (hL : LeafRule L) : (entries : List (Value × Value)) →
    (path : Name) →
      Builds L (classifyEntries path entries) fun ns => madeEntries L entries → cleanEntries L ns
  | [], path => by
    rw [classifyEntries]
    exact Builds.pure fun _ => trivial
  | (k, v) :: rest, path => by
    have htext : ∀ name form, k = .scalar (.text name form) →
        Builds L (classifyEntries path ((k, v) :: rest))
          fun ns => madeEntries L ((k, v) :: rest) → cleanEntries L ns := by
      rintro name form rfl
      rw [classifyEntries]
      refine (builds_classify hL v (fieldPath path ⟨name, form⟩)).bind fun n => ?_
      exact builds_map (builds_classifyEntries hL rest path)
        fun ns hns hn hmade => ⟨hn hmade.1, hns hmade.2⟩
    cases k with
    | scalar s =>
        cases s with
        | text name form => exact htext name form rfl
        | _ => exact Builds.throw
    | _ => exact Builds.throw

theorem builds_drawItems (hL : LeafRule L) : (xs : List Value) → (path : Name) →
    (id drawn pos i : Nat) →
      Builds L (drawItems path id drawn pos i xs) fun ns => madeItems L xs → cleanNodes L ns
  | [], path, id, drawn, pos, i => by
    rw [drawItems]
    exact Builds.pure fun _ => trivial
  | v :: rest, path, id, drawn, pos, i => by
    rw [drawItems]
    -- What was drawn before is passed over.
    by_cases hpos : pos < drawn
    · rw [if_pos hpos]
      exact (builds_drawItems hL rest path id drawn (pos + 1) i).mono
        fun ns hns hmade => hns hmade.2
    · rw [if_neg hpos]
      refine (builds_setDrawn id (pos + 1)).bind fun _ => Builds.any ?_
      refine (builds_classify hL v (itemPath path i)).bind fun n => ?_
      exact builds_map (builds_drawItems hL rest path id drawn (pos + 1) (i + 1))
        fun ns hns hn hmade => ⟨hn hmade.1, hns hmade.2⟩

end

/-- The tree of a value as blocks are now is clean. -/
theorem builds_toNode (hL : LeafRule L) (v : Value) (path : Name) :
    Builds L (toNode v path) fun n => v.Made L → n.Clean L := by
  intro s r s' h
  unfold toNode at h
  rw [yields_bind_ok (yields_get.mpr ⟨rfl, rfl⟩)] at h
  rcases builds_classify hL (s.snapshot v) path s r s' h with ⟨hdraws, hclean⟩
  refine ⟨hdraws, fun hs hleaves n hn hmade => ?_⟩
  exact hclean hs hleaves n hn (hs.made_snapshot hL hmade)

end

end Docket
