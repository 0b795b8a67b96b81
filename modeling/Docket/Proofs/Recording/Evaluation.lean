import Docket.Proofs.Recording.Data
import Docket.Proofs.Recording.Meaning
import Mathlib.Data.List.Forall2

/-!
# Evaluating nodes

A node of a tree means what it is resolved to, at every depth that is enough for
the bodies in it, on whatever blocks and in whatever session. What it means is said
with the meanings of the reference semantics, and what a node with parts means is
put together from what its parts mean.

Resolving makes new blocks and leaves the old ones alone (`Session.Grows`), it draws from
no generator that was there before, and it counts nothing (`Session.Adds`). What it comes
to holds new blocks only, so it looks the same ever after (`Shown.later`).

## Main definitions

* `Realizes`: Work comes to what it should, or fails if it should come to nothing.
* `Paired`: Entries of the same name that go together.
* `Session.Grows`, `Session.DrawsNew`, `Session.Adds`: New blocks and new generators.
* `Shown`, `Produced`, `Evaluated`: A value that holds new blocks only, one that was made
  without a change to what was there before, and one that has been evaluated.
* `Node.Means`: What a node means.

## Theorems

* `Realizes.bind`: Work in two parts.
* `forall₂_orderedFold`: Folding entries that go together.
* `Shown.later`: What is seen of new blocks stays as it is.
* `means_seq`, `means_entries`: What nodes mean, by their parts.
-/

namespace Docket

/-! ## Work with a reference -/

section

variable {α β γ δ : Type}

/-- Work comes to something that goes with what it should come to, and fails if
    that is nothing. -/
def Realizes (p : Run α) (s : Session) (o : Option β) (R : β → α → Session → Prop) : Prop :=
  match o with
  | some b => ∃ a s', Yields p s (.ok a) s' ∧ R b a s'
  | none => ∃ e s', Yields p s (.error e) s'

namespace Realizes

variable {p : Run α} {f : α → Run γ} {s m : Session} {o : Option β} {R : β → α → Session → Prop}

theorem pure {a : α} {b : β} (h : R b a s) : Realizes (Pure.pure a) s (some b) R :=
  ⟨a, s, yields_pure.mpr ⟨rfl, rfl⟩, h⟩

theorem throw {e : Failure} : Realizes (MonadExcept.throw e : Run α) s (none : Option β) R :=
  ⟨e, s, yields_throw.mpr ⟨rfl, rfl⟩⟩

theorem mono {R' : β → α → Session → Prop} (h : Realizes p s o R)
    (hR : ∀ b a s', R b a s' → R' b a s') : Realizes p s o R' := by
  cases o with
  | some b =>
      rcases h with ⟨a, s', hp, h⟩
      exact ⟨a, s', hp, hR b a s' h⟩
  | none => exact h

/-- The first part succeeds, and the second goes on. -/
theorem ok_bind {a : α} {o : Option δ} {R : δ → γ → Session → Prop} (hp : Yields p s (.ok a) m)
    (hf : Realizes (f a) m o R) : Realizes (p >>= f) s o R := by
  cases o with
  | some d =>
      rcases hf with ⟨c, s', hf, h⟩
      exact ⟨c, s', (yields_bind_ok hp).mpr hf, h⟩
  | none =>
      rcases hf with ⟨e, s', hf⟩
      exact ⟨e, s', (yields_bind_ok hp).mpr hf⟩

theorem error_bind {e : Failure} {R : δ → γ → Session → Prop} (hp : Yields p s (.error e) m) :
    Realizes (p >>= f) s none R :=
  ⟨e, m, (yields_bind_error hp).mpr ⟨rfl, rfl⟩⟩

/-- Work in two parts realizes a reference in two parts. -/
theorem bind {g : β → Option δ} {R' : δ → γ → Session → Prop} (hp : Realizes p s o R)
    (hf : ∀ b a s', R b a s' → Realizes (f a) s' (g b) R') :
    Realizes (p >>= f) s (o >>= g) R' := by
  cases o with
  | some b =>
      rcases hp with ⟨a, m, hp, h⟩
      exact ok_bind hp (hf b a m h)
  | none =>
      rcases hp with ⟨e, m, hp⟩
      exact error_bind hp

theorem map {g : β → δ} {f : α → γ} {R' : δ → γ → Session → Prop} (hp : Realizes p s o R)
    (h : ∀ b a s', R b a s' → R' (g b) (f a) s') :
    Realizes (do let a ← p; Pure.pure (f a)) s (o.map g) R' := by
  cases o with
  | some b =>
      rcases hp with ⟨a, m, hp, hR⟩
      exact ok_bind hp (pure (h b a m hR))
  | none =>
      rcases hp with ⟨e, m, hp⟩
      exact error_bind hp

/-- Work whose end succeeds and does not matter to what it should come to. -/
theorem then_ok {R' : β → γ → Session → Prop} (hp : Realizes p s o R)
    (hf : ∀ b a m, R b a m → ∃ c s', Yields (f a) m (.ok c) s' ∧ R' b c s') :
    Realizes (p >>= f) s o R' := by
  cases o with
  | some b =>
      rcases hp with ⟨a, m, hp, hR⟩
      rcases hf b a m hR with ⟨c, s', hf, hR'⟩
      exact ok_bind hp ⟨c, s', hf, hR'⟩
  | none =>
      rcases hp with ⟨e, m, hp⟩
      exact error_bind hp

/-- What ends with a failure fails. -/
theorem then_throw (p : Run α) {f : α → Failure} {R : δ → γ → Session → Prop} :
    Realizes (p >>= fun a => (MonadExcept.throw (f a) : Run γ)) s none R := by
  have hp := yields_run p s
  cases hr : (p.run.run s).1 with
  | ok a =>
      rw [hr] at hp
      exact ok_bind hp throw
  | error e =>
      rw [hr] at hp
      exact error_bind hp

/-- What work should come to may be told in another form. -/
theorem of_result {g : β → δ} {R' : δ → α → Session → Prop}
    (h : Realizes p s o fun b a s' => R' (g b) a s') :
    Realizes p s (o >>= fun b => Pure.pure (g b)) R' := by
  cases o with
  | some b => exact h
  | none => exact h

end Realizes

end

/-! ## Folding entries that go together -/

section

variable {β γ : Type}

/-- Entries of the same name whose values go together. -/
def Paired (R : β → γ → Prop) (e : Name × β) (f : Name × γ) : Prop := e.1 = f.1 ∧ R e.2 f.2

theorem forall₂_placed {R : β → γ → Prop} {es : List (Name × β)} {fs : List (Name × γ)}
    (h : List.Forall₂ (Paired R) es fs) (name : Name) {b : β} {c : γ} (hbc : R b c) :
    List.Forall₂ (Paired R) (placed es name b) (placed fs name c) := by
  induction h with
  | nil => exact .cons ⟨rfl, hbc⟩ .nil
  | @cons e f es fs hef hrest ih =>
      rcases hef with ⟨hname, hR⟩
      -- Names are the same on both sides, so the entries are placed alike.
      rw [placed, placed, ← hname]
      by_cases hsame : e.1.text = name.text
      · rw [if_pos hsame, if_pos hsame]
        exact .cons ⟨rfl, hbc⟩ hrest
      · rw [if_neg hsame, if_neg hsame]
        exact .cons ⟨rfl, hR⟩ ih

theorem forall₂_foldl_placed {R : β → γ → Prop} {es : List (Name × β)} {fs : List (Name × γ)}
    (h : List.Forall₂ (Paired R) es fs) {ds : List (Name × β)} {gs : List (Name × γ)}
    (hdone : List.Forall₂ (Paired R) ds gs) :
    List.Forall₂ (Paired R) (es.foldl (fun done e => placed done e.1 e.2) ds)
      (fs.foldl (fun done f => placed done f.1 f.2) gs) := by
  induction h generalizing ds gs with
  | nil => exact hdone
  | @cons e f es fs hef _ ih =>
      rw [List.foldl_cons, List.foldl_cons, ← hef.1]
      exact ih (forall₂_placed hdone e.1 hef.2)

/-- Folding keeps entries together. -/
theorem forall₂_orderedFold {R : β → γ → Prop} {es : List (Name × β)} {fs : List (Name × γ)}
    (h : List.Forall₂ (Paired R) es fs) :
    List.Forall₂ (Paired R) (orderedFold es) (orderedFold fs) :=
  forall₂_foldl_placed h .nil

/-- Assigning a field is placing it. -/
theorem placed_eq_set (fs : Fields) (name : Name) (v : Value) :
    placed fs name v = fs.set name v := by
  induction fs with
  | nil => rfl
  | cons f rest ih =>
      rw [placed, Fields.set, ih]
      by_cases hsame : f.1.text = name.text
      · rw [if_pos hsame, if_pos (Name.same_iff.mpr hsame)]
      · rw [if_neg hsame, if_neg fun h => hsame (Name.same_iff.mp h)]

end

/-! ## Nodes -/

namespace Session

theorem fields_of_size_le {s : Session} {i : Nat} (hi : s.blocks.size ≤ i) : s.fields i = [] := by
  unfold fields
  rw [Array.getElem?_eq_none hi]
  rfl

/-- Blocks have been made that hold only later blocks, and the others are as they
    were. -/
structure Grows (s s' : Session) : Prop where
  size : s.blocks.size ≤ s'.blocks.size
  fields : ∀ i, i < s.blocks.size → s'.fields i = s.fields i
  ordered : s'.OrderedFrom s.blocks.size

namespace Grows

theorem of_blocks {s s' : Session} (h : s'.blocks = s.blocks) : s.Grows s' := by
  have hfields : ∀ i, s'.fields i = s.fields i := by
    intro i
    unfold Session.fields
    rw [h]
  refine ⟨Nat.le_of_eq (congrArg Array.size h).symm, fun i _ => hfields i, fun i j hi hij => ?_⟩
  unfold Holds at hij
  rw [hfields i, fields_of_size_le hi] at hij
  exact absurd hij List.not_mem_nil

theorem refl (s : Session) : s.Grows s := of_blocks rfl

theorem trans {s m s' : Session} (h₁ : s.Grows m) (h₂ : m.Grows s') : s.Grows s' := by
  have hsize₁ := h₁.size
  have hsize₂ := h₂.size
  refine ⟨by omega, fun i hi => ?_, fun i j hi hij => ?_⟩
  · rw [h₂.fields i (by omega), h₁.fields i hi]
  · -- A block of the middle session holds what it held there.
    by_cases him : i < m.blocks.size
    · unfold Holds at hij
      rw [h₂.fields i him] at hij
      have hbounds := h₁.ordered i j hi hij
      omega
    · exact h₂.ordered i j (by omega) hij

end Grows

/-- No generator that was there before has been drawn from. -/
structure DrawsNew (s s' : Session) : Prop where
  known : s.drawn.size ≤ s'.drawn.size
  drawn : ∀ g, g < s.drawn.size → s'.drawn[g]? = s.drawn[g]?

namespace DrawsNew

variable {s m s' : Session}

theorem refl (s : Session) : s.DrawsNew s := ⟨Nat.le_refl _, fun _ _ => rfl⟩

theorem trans (h : s.DrawsNew m) (h' : m.DrawsNew s') : s.DrawsNew s' where
  known := Nat.le_trans h.known h'.known
  drawn g hg := by rw [h'.drawn g (Nat.lt_of_lt_of_le hg h.known), h.drawn g hg]

end DrawsNew

/-- Blocks and generators have been added, and otherwise nothing has happened to blocks,
    generators or counters. -/
structure Adds (s s' : Session) : Prop extends s.Grows s', s.DrawsNew s' where
  counters : s'.counters = s.counters

namespace Adds

variable {s m s' : Session}

theorem refl (s : Session) : s.Adds s := ⟨.refl s, .refl s, rfl⟩

theorem trans (h : s.Adds m) (h' : m.Adds s') : s.Adds s' :=
  ⟨h.toGrows.trans h'.toGrows, h.toDrawsNew.trans h'.toDrawsNew, h'.counters.trans h.counters⟩

end Adds

end Session

/-- A value that holds only blocks made meanwhile and is seen to be another one. -/
structure Shown (s : Session) (d v : Value) (s' : Session) : Prop where
  grows : s.Grows s'
  held : ∀ j ∈ v.held, s.blocks.size ≤ j ∧ j < s'.blocks.size
  seen : s'.snapshot v = d

namespace Shown

variable {s m s' : Session} {d v : Value}

/-- What is seen stays the same. -/
theorem later (h : Shown s d v m) (hm : m.Grows s') : Shown s d v s' where
  grows := h.grows.trans hm
  held j hj := ⟨(h.held j hj).1, Nat.lt_of_lt_of_le (h.held j hj).2 hm.size⟩
  seen := by
    rw [← h.seen]
    exact Session.snapshot_eq_of_fields h.grows.ordered (h.grows.trans hm).ordered
      (fun i _ hi => hm.fields i hi) h.held

theorem earlier (hs : s.Grows m) (h : Shown m d v s') : Shown s d v s' where
  grows := hs.trans h.grows
  held j hj := ⟨Nat.le_trans hs.size (h.held j hj).1, (h.held j hj).2⟩
  seen := h.seen

/-- What holds no block is seen as it is. -/
theorem of_free (h : v.held = []) (hs : s.Grows s') : Shown s v v s' where
  grows := hs
  held j hj := by
    rw [h] at hj
    exact absurd hj List.not_mem_nil
  seen := Value.mapLive_free h

/-- Values that are shown make a list that is shown. -/
theorem list {ds vs : List Value} (hs : s.Grows s')
    (h : List.Forall₂ (fun d v => Shown s d v s') ds vs) :
    Shown s (.list ds) (.list vs) s' := by
  -- What the items hold, and what they are seen as, by one induction.
  have hparts : (∀ j ∈ heldInItems vs, s.blocks.size ≤ j ∧ j < s'.blocks.size) ∧
      vs.map s'.snapshot = ds := by
    induction h with
    | nil => exact ⟨fun j hj => absurd hj List.not_mem_nil, rfl⟩
    | @cons d v ds vs hdv _ ih =>
        rcases ih with ⟨hheld, hseen⟩
        refine ⟨fun j hj => ?_, ?_⟩
        · rw [heldInItems, List.mem_append] at hj
          exact hj.elim (hdv.held j) (hheld j)
        · rw [List.map_cons, hdv.seen, hseen]
  rcases hparts with ⟨hheld, hseen⟩
  refine ⟨hs, hheld, ?_⟩
  rw [← hseen]
  exact congrArg (Value.items .list) (mapLiveItems_eq_map _ vs)

/-- Fields that are shown make a mapping that is shown. -/
theorem fields {ds fs : Fields} (hs : s.Grows s')
    (h : List.Forall₂ (Paired fun d v => Shown s d v s') ds fs) :
    Shown s ds.toValue fs.toValue s' := by
  have hparts : (∀ j ∈ Fields.held fs, s.blocks.size ≤ j ∧ j < s'.blocks.size) ∧
      fs.map (fun f => (f.1, s'.snapshot f.2)) = ds := by
    induction h with
    | nil => exact ⟨fun j hj => absurd hj List.not_mem_nil, rfl⟩
    | @cons d f ds fs hdf _ ih =>
        rcases ih with ⟨hheld, hseen⟩
        rcases hdf with ⟨hname, hdf⟩
        refine ⟨fun j hj => ?_, ?_⟩
        · rcases List.mem_append.mp hj with hj | hj
          · exact hdf.held j hj
          · exact hheld j hj
        · rw [List.map_cons, hdf.seen, hseen, ← hname]
  rcases hparts with ⟨hheld, hseen⟩
  refine ⟨hs, ?_, ?_⟩
  · rw [Fields.held_toValue]
    exact hheld
  · rw [← hseen]
    exact Fields.mapLive_toValue fs _

end Shown

/-- A value that was made without a change to any block or generator that was there
    before, and what is seen of it. -/
structure Produced (s : Session) (d v : Value) (s' : Session) : Prop extends
    Shown s d v s' where
  drawsNew : s.DrawsNew s'

/-- A value that was made, counting nothing, and is seen to be some data. -/
structure Evaluated (s : Session) (d v : Value) (s' : Session) : Prop extends
    Produced s d v s' where
  counters : s'.counters = s.counters
  data : d.IsData

namespace Evaluated

variable {s m s' : Session} {d v : Value}

theorem adds (h : Evaluated s d v s') : s.Adds s' := ⟨h.grows, h.drawsNew, h.counters⟩

theorem later (h : Evaluated s d v m) (hm : m.Adds s') : Evaluated s d v s' :=
  ⟨⟨h.toShown.later hm.toGrows, h.drawsNew.trans hm.toDrawsNew⟩, hm.counters.trans h.counters,
    h.data⟩

theorem earlier (hs : s.Adds m) (h : Evaluated m d v s') : Evaluated s d v s' :=
  ⟨⟨h.toShown.earlier hs.toGrows, hs.toDrawsNew.trans h.drawsNew⟩, h.counters.trans hs.counters,
    h.data⟩

/-- Data is evaluated as it is. -/
theorem of_isData (h : d.IsData) (hs : s.Adds s') : Evaluated s d d s' :=
  ⟨⟨Shown.of_free h.held hs.toGrows, hs.toDrawsNew⟩, hs.counters, h⟩

/-- Evaluated values make an evaluated list. -/
theorem list {ds vs : List Value} (hs : s.Adds s')
    (h : List.Forall₂ (fun d v => Evaluated s d v s') ds vs) :
    Evaluated s (.list ds) (.list vs) s' := by
  refine ⟨⟨Shown.list hs.toGrows (h.imp fun _ _ h => h.toShown), hs.toDrawsNew⟩, hs.counters,
    Value.IsData.list ?_⟩
  induction h with
  | nil => exact nofun
  | cons hdv _ ih => exact List.forall_mem_cons.mpr ⟨hdv.data, ih⟩

/-- Evaluated fields make an evaluated mapping. -/
theorem fields {ds fs : Fields} (hs : s.Adds s') (hnames : ds.names.Nodup)
    (h : List.Forall₂ (Paired fun d v => Evaluated s d v s') ds fs) :
    Evaluated s ds.toValue fs.toValue s' := by
  refine ⟨⟨Shown.fields hs.toGrows (h.imp fun _ _ h => ⟨h.1, h.2.toShown⟩), hs.toDrawsNew⟩,
    hs.counters, Value.IsData.fields hnames ?_⟩
  clear hnames
  induction h with
  | nil => exact nofun
  | cons hdf _ ih => exact List.forall_mem_cons.mpr ⟨hdf.2.data, ih⟩

end Evaluated

/-- A node means what it is resolved to, at every depth that is enough, if it
    nests no deeper than `k`. -/
structure Node.Means (n : Node) (k : Nat) (o : Meaning) : Prop where
  depth : n.depth ≤ k
  resolve : ∀ depth, n.depth ≤ depth → ∀ stack s,
    Realizes (n.resolve (Body.runAt depth stack)) s o (Evaluated s)

section

variable {k : Nat}

theorem means_scalar {t : Scalar} (ht : t.isData = true) (kind : ScalarKind) :
    (Node.scalar (.scalar t) kind).Means k (some (.scalar t)) :=
  ⟨Nat.zero_le k, fun _ _ _ s =>
    Realizes.pure (Evaluated.of_isData (Value.IsData.scalar ht) (Session.Adds.refl s))⟩

theorem depth_nodes {ns : List Node} {os : List Meaning}
    (h : List.Forall₂ (fun n o => Node.Means n k o) ns os) : nodeListDepth ns ≤ k := by
  induction h with
  | nil => exact Nat.zero_le k
  | cons hn _ ih => exact Nat.max_le.mpr ⟨hn.depth, ih⟩

/-- Nodes are resolved to what they mean, from left to right. -/
theorem realizes_resolveItems {ns : List Node} {os : List Meaning}
    (h : List.Forall₂ (fun n o => Node.Means n k o) ns os) {depth : Nat}
    (hdepth : nodeListDepth ns ≤ depth) (stack : BlockStack) (s : Session) :
    Realizes (resolveItems (Body.runAt depth stack) ns) s (allMeanings os) fun ds vs s' =>
      s.Adds s' ∧ List.Forall₂ (fun d v => Evaluated s d v s') ds vs := by
  induction h generalizing s with
  | nil => exact Realizes.pure ⟨Session.Adds.refl s, .nil⟩
  | cons hn _ ih =>
      rcases Nat.max_le.mp hdepth with ⟨hhead, htail⟩
      rw [resolveItems, allMeanings]
      -- The first node is resolved here, and the rest once its blocks have been made.
      refine (hn.resolve depth hhead stack s).bind fun d v m hv => ?_
      refine (ih htail m).bind ?_
      rintro ds vs s' ⟨hadds, hvs⟩
      refine Realizes.pure ⟨hv.adds.trans hadds, .cons (hv.later hadds) ?_⟩
      exact hvs.imp fun _ _ h => h.earlier hv.adds

theorem means_seq {ns : List Node} {os : List Meaning}
    (h : List.Forall₂ (fun n o => Node.Means n k o) ns os) :
    (Node.seq ns).Means k (listMeaning os) := by
  refine ⟨depth_nodes h, fun depth hdepth stack s => ?_⟩
  refine (realizes_resolveItems h hdepth stack s).map ?_
  rintro ds vs s' ⟨hadds, hvs⟩
  exact Evaluated.list hadds hvs

theorem depth_entries {ns : List (Name × Node)} {os : List (Name × Meaning)}
    (h : List.Forall₂ (Paired fun n o => Node.Means n k o) ns os) : nodeFieldsDepth ns ≤ k := by
  induction h with
  | nil => exact Nat.zero_le k
  | cons hn _ ih => exact Nat.max_le.mpr ⟨hn.2.depth, ih⟩

/-- Entries are resolved to what they mean and folded meanwhile. -/
theorem realizes_resolveEntries {ns : List (Name × Node)} {os : List (Name × Meaning)}
    (h : List.Forall₂ (Paired fun n o => Node.Means n k o) ns os) {depth : Nat}
    (hdepth : nodeFieldsDepth ns ≤ depth) (stack : BlockStack) {s m : Session}
    (hm : s.Adds m) {ddone done : Fields}
    (hdone : List.Forall₂ (Paired fun d v => Evaluated s d v m) ddone done) :
    Realizes (resolveEntries (Body.runAt depth stack) done ns) m (fieldMeanings os)
      fun ds fs s' => s.Adds s' ∧ List.Forall₂ (Paired fun d v => Evaluated s d v s')
        (ds.foldl (fun done d => placed done d.1 d.2) ddone) fs := by
  induction h generalizing m ddone done with
  | nil => exact Realizes.pure ⟨hm, hdone⟩
  | @cons n o ns os hn _ ih =>
      rcases Nat.max_le.mp hdepth with ⟨hhead, htail⟩
      rcases hn with ⟨hname, hn⟩
      rw [resolveEntries, fieldMeanings]
      refine (hn.resolve depth hhead stack m).bind fun d v t hv => ?_
      have ht := hm.trans hv.adds
      -- What was evaluated before still shows the same, although the session has moved on.
      have hplaced : List.Forall₂ (Paired fun d v => Evaluated s d v t)
          (placed ddone n.1 d) (placed done n.1 v) :=
        forall₂_placed (hdone.imp fun _ _ h => ⟨h.1, h.2.later hv.adds⟩) n.1 (hv.earlier hm)
      rw [placed_eq_set done, hname] at hplaced
      rw [hname]
      exact (ih htail ht hplaced).of_result

theorem nodup_placed (fs : Fields) (name : Name) (v : Value) (h : fs.names.Nodup) :
    (Fields.names (placed fs name v)).Nodup := by
  rw [placed_eq_set]
  exact Fields.nodup_set name v h

theorem nodup_orderedFold (fs : Fields) : (Fields.names (orderedFold fs)).Nodup := by
  have hfold : ∀ done : Fields, done.names.Nodup →
      (Fields.names (fs.foldl (fun done f => placed done f.1 f.2) done)).Nodup := by
    induction fs with
    | nil => exact fun _ h => h
    | cons f rest ih => exact fun done h => ih _ (nodup_placed done f.1 f.2 h)
  exact hfold [] List.nodup_nil

theorem means_entries {ns : List (Name × Node)} {os : List (Name × Meaning)}
    (h : List.Forall₂ (Paired fun n o => Node.Means n k o) ns os) :
    (Node.mapping ns).Means k (mappingMeaning os) := by
  refine ⟨depth_entries h, fun depth hdepth stack s => ?_⟩
  refine (realizes_resolveEntries h hdepth stack (Session.Adds.refl s) .nil).map ?_
  rintro ds fs s' ⟨hadds, hfs⟩
  exact Evaluated.fields hadds (nodup_orderedFold ds) hfs

end

end Docket
