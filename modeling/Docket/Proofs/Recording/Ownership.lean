import Docket.Proofs.Recording.Data
import Mathlib.Data.List.Nodup

/-!
# Blocks have one owner

In every state that a run of the library reaches, the field mapping of a block is
held at one place at most among the fields of all blocks, by a block made before
it. So blocks form trees, what is seen through them is finite, and storing a field
of a block changes what is seen elsewhere only where the block hangs.

A value that is read back and assigned to a block outside it is an independent
copy: the blocks below the value and those below the copy are apart, and stay
apart whatever is done later, because no block ever moves and a new one is stored
at one place (`Apart.keeps`).

All this needs a condition. A leaf node made by hand is not looked into, and if it
is given the field mapping of a block, that mapping gets a second owner
(`handmade_leaf_shares_block`).

## Main definitions

* `Value.isFree`: A value that brings no block along, not even inside nodes.
* `Session.Under`, `Session.Below`: The blocks that hang below others.
* `Session.Outlines`: What is seen before and after, up to the places of a block.
* `Apart`: Values below which no block is shared.
* `Library.Owned`, `Library.AssignsLocally`, `Library.CopiesApart`: What holds of
  the states that are reached.

## Theorems

* `Session.snapshot_congr`: Only the blocks below a value are seen through it.
* `Session.exists_outline`: Where a change of one block is seen.
* `Session.Sound.under_or_under`: Of two blocks above a third one hangs below the
  other.
* `Apart.keeps`: What is apart stays apart.
* `handmade_leaf_shares_block`: A leaf node made by hand can share a block.
* `reached_single_owner`: Blocks have one owner, changes are local and copies are
  independent.
-/

namespace Docket

mutual

/-- A value that brings no block along, not even inside nodes. -/
def Value.isFree : Value → Bool
  | .live _ => false
  | .items _ xs => itemsFree xs
  | .mapping _ entries => entriesFree entries
  | .generator _ xs _ => itemsFree xs
  | .bodyItems _ xs => itemsFree xs
  | .tag _ v => v.isFree
  | .node n => n.isFree
  | _ => true

def itemsFree : List Value → Bool
  | [] => true
  | v :: rest => v.isFree && itemsFree rest

def entriesFree : List (Value × Value) → Bool
  | [] => true
  | (k, v) :: rest => k.isFree && (v.isFree && entriesFree rest)

def Node.isFree : Node → Bool
  | .scalar v _ => v.isFree
  | .seq items => nodesFree items
  | .mapping entries => nodeEntriesFree entries
  | .nested _ => true
  | .raw v => v.isFree

def nodesFree : List Node → Bool
  | [] => true
  | n :: rest => n.isFree && nodesFree rest

def nodeEntriesFree : List (Name × Node) → Bool
  | [] => true
  | (_, n) :: rest => n.isFree && nodeEntriesFree rest

end

mutual

theorem Value.held_of_isFree : (v : Value) → v.isFree = true → v.held = []
  | .live _, h => absurd h Bool.false_ne_true
  | .items _ xs, h => heldInItems_of_free xs h
  | .mapping _ entries, h => heldInEntries_of_free entries h
  | .generator _ xs _, h => heldInItems_of_free xs h
  | .tag _ v, h => Value.held_of_isFree v h
  | .scalar _, _ => rfl
  | .alien _, _ => rfl
  | .range .., _ => rfl
  | .encodings, _ => rfl
  | .body _, _ => rfl
  | .bodyItems .., _ => rfl
  | .failure _, _ => rfl
  | .node _, _ => rfl
  | .block _, _ => rfl
  | .fieldRef .., _ => rfl

theorem heldInItems_of_free : (xs : List Value) → itemsFree xs = true → heldInItems xs = []
  | [], _ => rfl
  | v :: rest, h => by
    rw [itemsFree, Bool.and_eq_true] at h
    rw [heldInItems, Value.held_of_isFree v h.1, heldInItems_of_free rest h.2]
    rfl

theorem heldInEntries_of_free : (entries : List (Value × Value)) → entriesFree entries = true →
    heldInEntries entries = []
  | [], _ => rfl
  | (k, v) :: rest, h => by
    rw [entriesFree, Bool.and_eq_true, Bool.and_eq_true] at h
    rw [heldInEntries, Value.held_of_isFree k h.1, Value.held_of_isFree v h.2.1,
      heldInEntries_of_free rest h.2.2]
    rfl

end

mutual

theorem Value.made_of_isFree : (v : Value) → v.isFree = true → v.Made fun w => w.isFree = true
  | .node n, h => Node.clean_of_isFree n h
  | .items _ xs, h => madeItems_of_free xs h
  | .mapping _ entries, h => madeEntries_of_free entries h
  | .generator _ xs _, h => madeItems_of_free xs h
  | .live _, _ => trivial
  | .tag .., _ => trivial
  | .scalar _, _ => trivial
  | .alien _, _ => trivial
  | .range .., _ => trivial
  | .encodings, _ => trivial
  | .body _, _ => trivial
  | .bodyItems .., _ => trivial
  | .failure _, _ => trivial
  | .block _, _ => trivial
  | .fieldRef .., _ => trivial

theorem madeItems_of_free : (xs : List Value) → itemsFree xs = true →
    madeItems (fun w => w.isFree = true) xs
  | [], _ => trivial
  | v :: rest, h => by
    rw [itemsFree, Bool.and_eq_true] at h
    exact ⟨Value.made_of_isFree v h.1, madeItems_of_free rest h.2⟩

theorem madeEntries_of_free : (entries : List (Value × Value)) → entriesFree entries = true →
    madeEntries (fun w => w.isFree = true) entries
  | [], _ => trivial
  | (k, v) :: rest, h => by
    rw [entriesFree, Bool.and_eq_true, Bool.and_eq_true] at h
    exact ⟨Value.made_of_isFree v h.2.1, madeEntries_of_free rest h.2.2⟩

theorem Node.clean_of_isFree : (n : Node) → n.isFree = true → n.Clean fun w => w.isFree = true
  | .scalar _ _, h => h
  | .seq items, h => cleanNodes_of_free items h
  | .mapping entries, h => cleanEntries_of_free entries h
  | .nested _, _ => trivial
  | .raw v, h => Value.made_of_isFree v h

theorem cleanNodes_of_free : (ns : List Node) → nodesFree ns = true →
    cleanNodes (fun w => w.isFree = true) ns
  | [], _ => trivial
  | n :: rest, h => by
    rw [nodesFree, Bool.and_eq_true] at h
    exact ⟨Node.clean_of_isFree n h.1, cleanNodes_of_free rest h.2⟩

theorem cleanEntries_of_free : (entries : List (Name × Node)) → nodeEntriesFree entries = true →
    cleanEntries (fun w => w.isFree = true) entries
  | [], _ => trivial
  | (_, n) :: rest, h => by
    rw [nodeEntriesFree, Bool.and_eq_true] at h
    exact ⟨Node.clean_of_isFree n h.1, cleanEntries_of_free rest h.2⟩

end

/-- Whatever brings no block along may be a leaf. -/
theorem isFree_leafRule : LeafRule fun v => v.isFree = true where
  scalar _ _ := rfl
  free := Value.held_of_isFree
  made := Value.made_of_isFree

namespace Session

/-- Block `j` is block `i` or hangs below it. -/
def Under (s : Session) (i j : Nat) : Prop := Relation.ReflTransGen s.Holds i j

/-- Block `j` hangs below a value: the value holds it, or a block above it. -/
def Below (s : Session) (v : Value) (j : Nat) : Prop := ∃ i ∈ v.held, s.Under i j

/-- Only the blocks below a value are seen through it. -/
theorem snapshot_congr {s s' : Session} {v : Value} (hsize : s'.blocks.size = s.blocks.size)
    (hfields : ∀ j, s.Below v j → s'.fields j = s.fields j) : s'.snapshot v = s.snapshot v := by
  -- Fields that are seen at depth `d` are those of blocks below the value.
  have hexpand : ∀ d (v : Value), (∀ j, s.Below v j → s'.fields j = s.fields j) →
      v.expand s'.blocks d = v.expand s.blocks d := by
    intro d
    induction d with
    | zero => exact fun v _ => rfl
    | succ d ih =>
        intro v hv
        rw [Value.expand, Value.expand]
        refine v.mapLive_congr fun j hj => congrArg Fields.toValue ?_
        change (s'.fields j).map _ = (s.fields j).map _
        rw [hv j ⟨j, hj, Relation.ReflTransGen.refl⟩]
        refine List.map_congr_left fun p hp => congrArg (Prod.mk p.1) (ih p.2 ?_)
        rintro k ⟨i, hi, hik⟩
        exact hv k ⟨j, hj, Relation.ReflTransGen.head (Fields.mem_held.mpr ⟨p, hp, hi⟩) hik⟩
  unfold snapshot
  rw [hsize]
  exact hexpand _ v hfields

/-- What is seen through a value does not change with a block that does not hang
    below it. -/
theorem snapshot_assigned_of_not_below {s : Session} {v : Value} {id : Nat} (name : Name)
    (x : Value) (h : ¬ s.Below v id) : (s.assigned id name x).snapshot v = s.snapshot v := by
  refine snapshot_congr (size_assigned s id name x) fun j hj => ?_
  refine fields_assigned_ne s name x ?_
  rintro rfl
  exact h hj

/-- An outline of what is seen through a value, in one session and in another,
    in which nothing is open but the places of one block. -/
structure Outlines (s s' : Session) (id : Nat) (v outline : Value) : Prop where
  places : ∀ j ∈ outline.held, j = id
  before : s.snapshot v = outline.mapLive fun _ => s.snapshot (.live id)
  after : s'.snapshot v = outline.mapLive fun _ => s'.snapshot (.live id)

/-- Outlines of the blocks that a value holds make an outline of the value. -/
theorem outlines_of_held {s s' : Session} (hs : s.Ordered) (hs' : s'.Ordered) {id : Nat}
    {v : Value} (h : ∀ j ∈ v.held, ∃ outline, s.Outlines s' id (.live j) outline) :
    ∃ outline, s.Outlines s' id v outline := by
  -- The outlines of the blocks are put where the blocks are.
  choose! f hf using h
  refine ⟨v.mapLive f, fun k hk => ?_, ?_, ?_⟩
  · rw [Value.held_mapLive, List.mem_flatMap] at hk
    rcases hk with ⟨j, hj, hk⟩
    exact (hf j hj).places k hk
  · rw [Value.mapLive_mapLive, snapshot_eq hs]
    refine v.mapLive_congr fun j hj => ?_
    rw [← snapshot_live hs]
    exact (hf j hj).before
  · rw [Value.mapLive_mapLive, snapshot_eq hs']
    refine v.mapLive_congr fun j hj => ?_
    rw [← snapshot_live hs']
    exact (hf j hj).after

/-- What is seen through a block is what is seen through its fields. -/
theorem snapshot_fields {s : Session} (hs : s.Ordered) (i : Nat) :
    s.snapshot (Fields.toValue (s.fields i)) = s.snapshot (.live i) := by
  rw [snapshot_live hs, snapshot_eq hs, Fields.mapLive_toValue]
  refine congrArg Fields.toValue (List.map_congr_left fun p _ => congrArg (Prod.mk p.1) ?_)
  exact (snapshot_eq hs p.2).symm

/-- A change of one block is seen only where the block hangs. -/
theorem exists_outline {s s' : Session} (hs : s.Ordered) (hs' : s'.Ordered) {id : Nat}
    (hfields : ∀ j, j ≠ id → s'.fields j = s.fields j) (v : Value) :
    ∃ outline, s.Outlines s' id v outline := by
  have hlive : ∀ i, ∃ outline, s.Outlines s' id (.live i) outline := by
    -- The block itself is left open; any other is outlined through the blocks it holds.
    refine hs.induction fun i ih => ?_
    by_cases hi : i = id
    · subst hi
      refine ⟨.live i, fun k hk => List.mem_singleton.mp hk, ?_, ?_⟩
      · rw [Value.mapLive]
      · rw [Value.mapLive]
    · have hheld : ∀ j ∈ (Fields.toValue (s.fields i)).held, s.Holds i j := by
        intro j hj
        rw [Fields.held_toValue] at hj
        exact hj
      rcases outlines_of_held hs hs' fun j hj => ih j (hheld j hj) with ⟨outline, houtline⟩
      refine ⟨outline, houtline.places, ?_, ?_⟩
      · rw [← houtline.before, snapshot_fields hs]
      · rw [← houtline.after, ← hfields i hi, snapshot_fields hs']
  exact outlines_of_held hs hs' fun j _ => hlive j

theorem Under.le {s : Session} (hs : s.Ordered) {i j : Nat} (h : s.Under i j) : i ≤ j := by
  induction h with
  | refl => exact Nat.le_refl i
  | tail _ hjk ih =>
      have hlt := (hs _ _ hjk).1
      omega

section

variable {L : Value → Prop} {s s' : Session}

/-- Of two blocks above a third one hangs below the other. -/
theorem Sound.under_or_under (hs : s.Sound L) {a b j : Nat} (ha : s.Under a j)
    (hb : s.Under b j) : s.Under a b ∨ s.Under b a := by
  induction ha with
  | refl => exact Or.inr hb
  | @tail i j hai hij ih =>
      rcases Relation.ReflTransGen.cases_tail hb with rfl | ⟨k, hbk, hkj⟩
      · exact Or.inl (hai.tail hij)
      · rw [hs.owner k i j hkj hij] at hbk
        exact ih hbk

/-- Blocks that existed before hang where they hung. -/
theorem under_of_keeps (hs' : s'.Ordered) (hkeeps : Keeps s s') {i j : Nat}
    (h : s'.Under i j) : j < s.blocks.size → s.Under i j := by
  induction h with
  | refl => exact fun _ => Relation.ReflTransGen.refl
  | @tail j k _ hjk ih =>
      intro hk
      have hlt := (hs' j k hjk).1
      exact (ih (by omega)).tail (hkeeps.holds j k hk hjk)

end

end Session

/-- Values below which no block is shared. -/
def Apart (s : Session) (v w : Value) : Prop := ∀ j, s.Below v j → ¬ s.Below w j

/-- What is apart stays apart. -/
theorem Apart.keeps {L : Value → Prop} {s s' : Session} (hs' : s'.Sound L)
    (hkeeps : Keeps s s') {v w : Value} (hv : ∀ j ∈ v.held, j < s.blocks.size)
    (hw : ∀ j ∈ w.held, j < s.blocks.size) (h : Apart s v w) : Apart s' v w := by
  rintro j ⟨a, ha, haj⟩ ⟨b, hb, hbj⟩
  rcases hs'.under_or_under haj hbj with hab | hba
  · have hab' := Session.under_of_keeps hs'.ordered hkeeps hab (hw b hb)
    exact h b ⟨a, ha, hab'⟩ ⟨b, hb, Relation.ReflTransGen.refl⟩
  · have hba' := Session.under_of_keeps hs'.ordered hkeeps hba (hv a ha)
    exact h a ⟨a, ha, Relation.ReflTransGen.refl⟩ ⟨b, hb, hba'⟩

theorem Fields.get?_set_self (fs : Fields) (name : Name) (v : Value) :
    (fs.set name v).get? name.text = some v := by
  induction fs with
  | nil =>
      rw [Fields.set, Fields.get?, List.find?_cons, beq_self_eq_true]
      rfl
  | cons p rest ih =>
      rw [Fields.set]
      by_cases hsame : p.1.same name = true
      · rw [if_pos hsame, Fields.get?, List.find?_cons,
          show (p.1.text == name.text) = true from hsame]
        rfl
      · rw [if_neg hsame, Fields.get?, List.find?_cons,
          show (p.1.text == name.text) = false from Bool.not_eq_true _ ▸ hsame]
        exact ih

namespace Library

/-- Every block has one owner at most, among the blocks made before it, and all
    that is seen is finite. -/
structure Owned (l : Library) : Prop where
  /-- the field mapping of a block is held at one place at most -/
  once : (l.session.blocks.toList.flatMap Fields.held).Nodup
  older : ∀ i j, l.session.Holds i j → i < j ∧ j < l.session.blocks.size
  acyclic : ∀ i j, l.session.Holds i j → ¬ l.session.Under j i
  /-- documents hold blocks that exist -/
  documents : ∀ d ∈ l.documents, ∀ j ∈ d.content.held, j < l.session.blocks.size
  /-- nothing is left to look up in what is written out -/
  finite : ∀ v, (l.session.snapshot v).held = []

/-- An assignment that succeeds has evaluated its value and then stored it, and
    storing it is seen only where the block hangs that is assigned to. -/
def AssignsLocally (l : Library) : Prop :=
  ∀ (depth id : Nat) (name : Name) (e : Expr) (s : Session), id < l.session.blocks.size →
    Yields (do
        let v ← e.build l.stack
        assignField (Body.runAt depth) l.stack id name v) l.session (.ok ()) s →
    (∀ v ∈ s.leaves, v.isFree = true) →
      ∃ (m : Session) (v : Value), s = m.assigned id name v ∧
        m.snapshot (.live id) = Fields.toValue (m.snapshotFields id) ∧
        s.snapshot (.live id) = Fields.toValue ((m.snapshotFields id).set name (m.snapshot v)) ∧
        ∀ w, ∃ outline, m.Outlines s id w outline

/-- A value of a field that is assigned to a block outside it is an independent
    copy from then on: no later change below the one is seen through the other.
    It is a faithful copy if no leaf node holds anything but a leaf. -/
def CopiesApart (l : Library) : Prop :=
  ∀ (depth id : Nat) (name : Name) (v : Value) (s : Session), id < l.session.blocks.size →
    (∃ i, ∃ f ∈ l.session.fields i, f.2 = v) → ¬ l.session.Below v id →
    Yields (assignField (Body.runAt depth) l.stack id name v) l.session (.ok ()) s →
    (∀ w ∈ s.leaves, w.isFree = true) →
      ∃ copy, (s.fields id).get? name.text = some copy ∧
        ((∀ w ∈ s.leaves, w.IsLeaf) → copy = l.session.snapshot v) ∧
        ∀ l' : Library, Later ⟨s, l.documents, l.stack⟩ l' →
          (∀ w ∈ l'.session.leaves, w.isFree = true) → ∀ j n x,
            (l'.session.Below v j →
              (l'.session.assigned j n x).snapshot copy = l'.session.snapshot copy) ∧
            (l'.session.Below copy j →
              (l'.session.assigned j n x).snapshot v = l'.session.snapshot v)

variable {l : Library}

theorem Sound.owned {L : Value → Prop} (h : l.Sound L) : l.Owned where
  once := by
    have hget : ∀ (i : Nat) (hi : i < l.session.blocks.toList.length),
        l.session.blocks.toList[i] = l.session.fields i := by
      intro i hi
      rw [Array.length_toList] at hi
      rw [Array.getElem_toList, Session.fields, Array.getElem?_eq_getElem hi]
      rfl
    -- No block is held twice: not within the fields of one block, and not by two blocks.
    rw [List.nodup_flatMap]
    refine ⟨fun fs hfs => ?_, ?_⟩
    · rcases List.mem_iff_getElem.mp hfs with ⟨i, hi, rfl⟩
      rw [hget i hi]
      exact h.session.once i
    · rw [List.pairwise_iff_getElem]
      intro i j hi hj hij k hki hkj
      rw [hget i hi] at hki
      rw [hget j hj] at hkj
      have heq := h.session.owner i j k hki hkj
      omega
  older := h.session.ordered
  acyclic i j hij hji := by
    have hlt := (h.session.ordered i j hij).1
    have hle := hji.le h.session.ordered
    omega
  documents d hd := (h.documents d hd).held
  finite := Session.held_snapshot h.session.ordered

theorem Sound.assignsLocally (h : l.Sound fun v => v.isFree = true) : l.AssignsLocally := by
  intro depth id name e s hid hs hleaves
  rcases yields_bind_eq_ok.mp hs with ⟨v, t, h₁, h₂⟩
  rw [assignField_eq] at h₂
  rcases yields_bind_eq_ok.mp h₂ with ⟨data, m, h₃, h₄⟩
  rcases yields_modify.mp h₄ with ⟨-, rfl⟩
  rcases builds_expr isFree_leafRule l.stack e _ _ t h₁ with ⟨hdraws, hmade⟩
  rcases safe_assigned isFree_leafRule (safe_runAt isFree_leafRule depth) l.stack name v t _ m
    h₃ with ⟨honward, hsafe⟩
  have hsize : t.blocks.size = l.session.blocks.size := congrArg Array.size hdraws.blocks
  have hstack : ∀ j ∈ l.stack, j < t.blocks.size := by
    rw [hsize]
    exact h.stack
  -- What was built is made properly, so that the data assigned is new, and the block it goes to
  -- is not below it.
  have hv := hmade h.session.filled (fun w hw => hleaves w (honward.leaves w hw)) v rfl
  rcases hsafe ⟨hstack, hv⟩ (h.session.draws hdraws) (Nat.le_refl _) hleaves with
    ⟨hm, hkeeps, hfresh⟩
  have hid' : id < t.blocks.size := by omega
  have hassigned := (hm.assign name hkeeps (hfresh data rfl) hid').1
  have hidm : id < m.blocks.size := Nat.lt_of_lt_of_le hid' hkeeps.size
  refine ⟨m, data, rfl, Session.snapshot_live hm.ordered id, ?_, fun w => ?_⟩
  · refine (Session.snapshot_live hassigned.ordered id).trans (congrArg Fields.toValue ?_)
    refine Session.snapshotFields_assigned (hm.ordered.orderedFrom id) name hidm fun j hj => ?_
    have hnew := (hfresh data rfl).newIn.new j hj
    omega
  · exact Session.exists_outline hm.ordered hassigned.ordered
      (fun j hj => Session.fields_assigned_ne m name data hj) w

/-- What is new is apart from what a value held before, once it is stored in a
    block that does not hang below the value. -/
theorem apart_of_assigned {L : Value → Prop} {s m : Session} {id : Nat} {name : Name}
    {v copy : Value} (hm : m.Sound L) (hkeeps : Keeps s m) (hcopy : Fresh L s.blocks.size copy m)
    (hid : id < s.blocks.size) (hv : ∀ j ∈ v.held, j < s.blocks.size) (hbelow : ¬ s.Below v id) :
    Apart (m.assigned id name copy) v copy := by
  rcases hm.assign name hkeeps hcopy hid with ⟨hassigned, hkeeps'⟩
  rintro j ⟨a, ha, haj⟩ ⟨b, hb, hbj⟩
  have hnew := hcopy.newIn.new b hb
  have hold := hv a ha
  rcases hassigned.under_or_under haj hbj with hab | hba
  · -- The only owner of what is new is the block that is assigned to.
    rcases Relation.ReflTransGen.cases_tail hab with rfl | ⟨i, hai, hib⟩
    · omega
    · rcases Session.holds_assigned (Nat.lt_of_lt_of_le hid hkeeps.size) hib with hib | ⟨rfl, -⟩
      · exact hcopy.newIn.free b hb i hib
      · exact hbelow ⟨a, ha, Session.under_of_keeps hassigned.ordered hkeeps' hai hid⟩
  · have hle := hba.le hassigned.ordered
    omega

theorem Reached.copiesApart (h : l.Reached) : l.CopiesApart := by
  intro depth id name v s hid hv hbelow hs hleaves
  rw [assignField_eq] at hs
  rcases yields_bind.mp hs with ⟨copy, m, h₁, h₂⟩ | ⟨e, -, he⟩
  · rcases yields_modify.mp h₂ with ⟨-, rfl⟩
    have hrun := safe_runAt isFree_leafRule depth
    rcases safe_assigned isFree_leafRule hrun l.stack name v l.session _ m h₁ with ⟨honward, hsafe⟩
    have hl := h.sound isFree_leafRule fun w hw => hleaves w (honward.leaves w hw)
    rcases hv with ⟨i, f, hf, rfl⟩
    rcases hsafe ⟨hl.stack, (hl.session.filled i f hf).made isFree_leafRule⟩ hl.session
      (Nat.le_refl _) hleaves with ⟨hm, hkeeps, hfresh⟩
    have hcopy := hfresh copy rfl
    have hidm : id < m.blocks.size := Nat.lt_of_lt_of_le hid hkeeps.size
    have hheld : ∀ j ∈ f.2.held, j < l.session.blocks.size := fun j hj =>
      (hl.session.ordered i j (Fields.mem_held.mpr ⟨f, hf, hj⟩)).2
    rcases hm.assign name hkeeps hcopy hid with ⟨hassigned, hkeeps'⟩
    refine ⟨copy, ?_, fun hleaf => ?_, fun l' hl' hleaves' j n x => ?_⟩
    · change ((m.assigned id name copy).fields id).get? name.text = some copy
      rw [Session.fields_assigned m name copy id hidm, if_pos rfl]
      exact Fields.get?_set_self _ name copy
    -- Where all leaves are data the value shows data, and data is its own tree.
    · have hdata := (h.sound isLeaf_leafRule fun w hw => hleaf w (honward.leaves w hw)).session
      rcases (hdata.isData_snapshot (hdata.filled i f hf)).copied name with
        ⟨node, -, hclassify, hresolve⟩
      unfold toNode at h₁
      rw [bind_assoc, yields_bind_ok (yields_get.mpr ⟨rfl, rfl⟩),
        yields_bind_ok (hclassify l.session)] at h₁
      exact Except.ok.inj (yields_unique h₁ (hresolve _ l.session)).1
    · have hsound : Library.Sound (fun v => v.isFree = true)
          ⟨m.assigned id name copy, l.documents, l.stack⟩ :=
        ⟨hassigned, fun j hj => Nat.lt_of_lt_of_le (hl.stack j hj) hkeeps'.size,
          fun d hd => (hl.documents d hd).of_le hkeeps'.size⟩
      rcases Later.sound isFree_leafRule hl' hsound hleaves' with ⟨hlate, hkeeps''⟩
      -- The copy was new, so that nothing below it was below the value, and no later move joins
      -- them.
      have hapart : Apart l'.session f.2 copy := by
        refine Apart.keeps hlate.session hkeeps'' ?_ ?_
          (apart_of_assigned hm hkeeps hcopy hid hheld hbelow)
        · exact fun j hj => Nat.lt_of_lt_of_le (hheld j hj) hkeeps'.size
        · intro j hj
          change j < (m.assigned id name copy).blocks.size
          rw [Session.size_assigned]
          exact (hcopy.newIn.new j hj).2
      exact ⟨fun hj => Session.snapshot_assigned_of_not_below n x (hapart j hj),
        fun hj => Session.snapshot_assigned_of_not_below n x fun hj' => hapart j hj' hj⟩
  · exact absurd he ok_ne_error

end Library

/-- Blocks have one owner, changes are local and copies are independent in every
    state that is reached, as long as no leaf node made by hand has been given a
    block. -/
theorem reached_single_owner (l : Library) (h : l.Reached)
    (hleaves : ∀ v ∈ l.session.leaves, v.isFree = true) :
    l.Owned ∧ l.AssignsLocally ∧ l.CopiesApart := by
  have hsound := h.sound isFree_leafRule hleaves
  exact ⟨hsound.owned, hsound.assignsLocally, h.copiesApart⟩

/-- A block with a field that is a block, which is read back into a leaf node
    made by hand. -/
def sharingActions : List Action :=
  [.statement (.item (.scalar (.text "a" .plain)) (.body (.mk (.named "inner") []))) 1,
    .statement (.item (.scalar (.text "c" .plain)) (.node (.scalar (.read "a" 0) .null))) 1]

/-- A leaf node made by hand can share a block: the mapping it is given is held at
    two places then. -/
theorem handmade_leaf_shares_block : ∃ l : Library, l.Reached ∧
    ¬ (l.session.blocks.toList.flatMap Fields.held).Nodup := by
  refine ⟨sharingActions.foldl Library.after Library.initial.entered, ?_, ?_⟩
  · exact Relation.ReflTransGen.head (Moves.enters _) (Library.later_actions _ _)
  · decide +kernel

/-- A block in a block, and a copy of it beside it. -/
def copyingActions : List Action :=
  [.statement (.item (.scalar (.text "a" .plain))
      (.body (.mk (.named "inner") [.set ["x"] (.body (.mk (.named "leaf") []))]))) 2,
    .statement (.item (.scalar (.text "c" .plain)) (.read "a" 0)) 1]

theorem copyingActions_single_owner :
    let l := copyingActions.foldl Library.after Library.initial.entered
    (l.Reached ∧ ∀ v ∈ l.session.leaves, v.isFree = true) ∧
      l.Owned ∧ l.AssignsLocally ∧ l.CopiesApart := by
  have hreached : (copyingActions.foldl Library.after Library.initial.entered).Reached :=
    Relation.ReflTransGen.head (Moves.enters _) (Library.later_actions _ _)
  have hleaves : ∀ v ∈ (copyingActions.foldl Library.after Library.initial.entered).session.leaves,
      v.isFree = true := by
    decide +kernel
  exact ⟨⟨hreached, hleaves⟩, reached_single_owner _ hreached hleaves⟩

end Docket
