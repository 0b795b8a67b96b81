import Docket.Proofs.Recording.Folding
import Docket.Proofs.Recording.Independence

/-!
# Keywords

The fields that are assigned one after the other in a body may be assigned all at once as
well, as a mapping of keywords, although the work is done in another order then: the
keywords are folded by the fields they name, all that is left is classified, and only then
is any of it resolved.

Classifying a value draws from the generators that it holds, and resolving it counts and
makes blocks. Values that exist already (`Session.AtHand`) and whose bodies have blocks of
their own only are none the wiser if all are classified first, so what they come to, one
after the other, can be said once for both ways (`Successive`). Folding changes the order
only if two keywords name one field; the values may be taken in another order if no two of
them share a generator and their bodies do not go by counters.

## Main definitions

* `Session.AtHand`, `Session.Gives`: Values that exist in a session, and work that gives
  them as long as blocks are left alone.
* `Successive`: Values that are assigned one after the other, and what they come to.
* `assignEach`, `assignGathered`: Fields set one after the other on a fresh block.
* `Session.Separable`: Keywords that may be assigned all at once.

## Theorems

* `filling_assignments`: Assigning one after the other makes values successive.
* `assigns_of_successive`: Successive values can be assigned all at once.
* `Successive.folded`: Values may be taken in another order.
* `assigns_of_gathered`: What can be assigned in a body can be assigned by keywords.
-/

namespace Docket

/-! ## Values at hand -/

/-- A value is at hand in a session: what it refers to exists, and leaf nodes that were
    made by hand bring no blocks along. -/
structure Session.AtHand (s : Session) (v : Value) : Prop where
  made : v.Made fun w => w.isFree = true
  held : ∀ j ∈ v.held, j < s.blocks.size
  generators : ∀ g ∈ (s.snapshot v).generators, g < s.drawn.size

/-- Work that gives a value, and leaves the session alone, as long as no block is changed
    that was there before. -/
def Session.Gives (s : Session) (p : Run Value) (v : Value) : Prop :=
  ∀ m, s.Grows m → Yields p m (.ok v) m

namespace Session

variable {s m : Session}

theorem gives_pure (s : Session) (v : Value) : s.Gives (pure v) v :=
  fun _ _ => yields_pure.mpr ⟨rfl, rfl⟩

theorem Ordered.grows (hs : s.Ordered) (h : s.Grows m) : m.Ordered := by
  intro i j hij
  -- Blocks that were there before hold what they held, and the others only later ones.
  by_cases hi : i < s.blocks.size
  · unfold Holds at hij
    rw [h.fields i hi] at hij
    exact ⟨(hs i j hij).1, Nat.lt_of_lt_of_le (hs i j hij).2 h.size⟩
  · exact h.ordered i j (Nat.le_of_not_lt hi) hij

/-- Blocks that were there before are seen as before. -/
theorem Ordered.snapshot_grows (hs : s.Ordered) (h : s.Grows m) {v : Value}
    (hv : ∀ j ∈ v.held, j < s.blocks.size) : m.snapshot v = s.snapshot v :=
  snapshot_eq_of_fields (hs.orderedFrom 0) ((hs.grows h).orderedFrom 0)
    (fun i _ hi => h.fields i hi) fun j hj => ⟨Nat.zero_le j, hv j hj⟩

/-- What is seen of a block once a value has been stored that was made meanwhile. -/
theorem Ordered.snapshotFields_shown (hs : s.Ordered) {id : Nat} (hid : id < s.blocks.size)
    {d v : Value} (h : Shown s d v m) (name : Name) :
    (m.assigned id name v).snapshotFields id = (s.snapshotFields id).set name d := by
  have hblock : m.snapshotFields id = s.snapshotFields id := by
    unfold snapshotFields
    rw [h.grows.fields id hid]
    refine List.map_congr_left fun f hf => congrArg (Prod.mk f.1) ?_
    exact hs.snapshot_grows h.grows fun j hj => (hs id j (Fields.mem_held.mpr ⟨f, hf, hj⟩)).2
  rw [snapshotFields_assigned ((hs.grows h.grows).orderedFrom id) name
    (Nat.lt_of_lt_of_le hid h.grows.size) fun j hj =>
      ⟨Nat.lt_of_lt_of_le hid (h.held j hj).1, (h.held j hj).2⟩, hblock, h.seen]

end Session

/-- Names with values and what these come to, if they are assigned one after the other in a
    session after so much has been drawn and counted. -/
inductive Successive {γ : Type} (view : Counters → γ) (depth : Nat) (s : Session) :
    Array Nat → γ → List (Name × Value × Value) → Prop
  | nil {gone : Array Nat} {c : γ} : Successive view depth s gone c []
  | cons {gone : Array Nat} {c c' : γ} {name : Name} {v d : Value} {n : Node}
      {rest : List (Name × Value × Value)}
      (haccepted : ((s.snapshot v).remaining gone).1.Accepted)
      (hmirrors : ((s.snapshot v).remaining gone).1.Mirrors n)
      (hcomes : n.Comes view depth c d c')
      (hrest : Successive view depth s ((s.snapshot v).remaining gone).2 c' rest) :
      Successive view depth s gone c ((name, v, d) :: rest)

/-- The fields that keywords name. -/
def attributeFields (ks : List (String × Value)) : Fields :=
  ks.map fun k => (.ofText (fieldName k.1), k.2)

section

variable {γ : Type} {view : Counters → γ} {c : γ} {depth : Nat} {stack : BlockStack}
  {t m u : Session} {gone : Array Nat} {env : Fields}

/-! ## Assigning one after the other -/

/-- A value is assigned to a block that is being filled. -/
theorem filling_assignField (hs : t.Sound fun w => w.isFree = true)
    (hleaves : ∀ w ∈ t.leaves, w.isFree = true) {v : Value} (hv : t.AtHand v)
    (hown : ∀ b ∈ (t.snapshot v).bodies, b.OwnUpTo view depth) (hm : Filling t m env)
    (hsize : t.drawn.size ≤ m.drawn.size) (hdrawn : DrawnAlike (· < t.drawn.size) gone m.drawn)
    {name : Name}
    (h : Yields (assignField (Body.runAt depth) stack t.blocks.size name v) m (.ok ()) u) :
    ∃ n d, (((t.snapshot v).remaining gone).1.Accepted ∧
        ((t.snapshot v).remaining gone).1.Mirrors n ∧
          n.Comes view depth (view m.counters) d (view u.counters)) ∧
      Filling t u (placed env name d) ∧ t.drawn.size ≤ u.drawn.size ∧
      DrawnAlike (· < t.drawn.size) ((t.snapshot v).remaining gone).2 u.drawn := by
  unfold assignField toNode at h
  rw [bind_assoc, yields_bind_ok (yields_get.mpr ⟨rfl, rfl⟩),
    hs.ordered.snapshot_grows hm.grows hv.held] at h
  rcases yields_bind_eq_ok.mp h with ⟨n, m₁, hn, h⟩
  rcases yields_bind_eq_ok.mp h with ⟨w, m₂, hw, h⟩
  rcases yields_modify.mp h with ⟨-, rfl⟩
  rcases yields_classify.mp hn with ⟨htree, rfl⟩
  -- Classified before any block was made, the value has the same tree.
  have hclean : n.Clean fun w => w.isFree = true :=
    (builds_classify isFree_leafRule (t.snapshot v) name { t with drawn := m.drawn } _ _
      (yields_classify.mpr ⟨htree, rfl⟩)).2 hs.filled hleaves n rfl
      (Session.Filled.made_snapshot isFree_leafRule hs.filled hv.made)
  have hbodies : ∀ b ∈ n.bodies, b.OwnUpTo view depth := by
    rw [(htree.2.bodies_eq _ n).1]
    exact fun b hb => hown b (bodies_remaining _ _ b hb)
  rcases comes_of_resolve (Nat.le_refl depth) n _ _ _ hclean hbodies hw with ⟨d, hd⟩
  -- Resolving it has drawn from new generators only, so later values find theirs untouched.
  have hproduced := (hd.produced (Nat.le_refl depth) rfl hw).1
  rcases remaining_congr (t.snapshot v) gone m.drawn hdrawn hv.generators with ⟨hsame, hdrawn'⟩
  rw [hsame] at htree
  have hsize' : t.drawn.size ≤ ((t.snapshot v).remaining m.drawn).2.size := by
    rw [(remaining_frame _ _).1]
    exact hsize
  have hm' : Filling t { m with drawn := ((t.snapshot v).remaining m.drawn).2 } env :=
    hm.of_blocks rfl
  refine ⟨n, d, ⟨htree.1, htree.2, hd⟩, hm'.assign name hproduced.toShown,
    Nat.le_trans hsize' hproduced.drawsNew.known, fun g hg => ?_⟩
  rw [← hdrawn' g hg]
  exact hproduced.drawsNew.drawn g (Nat.lt_of_lt_of_le hg hsize')

theorem dotted_singleton (name : String) : dotted [name] = name := rfl

/-- An attribute of a block is assigned as a field. -/
theorem yields_setPath_one {run : BodyRunner} {id : Nat} {word : String} {v : Value}
    {s s' : Session} (h : Yields (setPath run (id :: stack) [word] v) s (.ok ()) s') :
    Yields (assignField run (id :: stack) id (.ofText (fieldName word)) v) s (.ok ()) s' := by
  unfold setPath at h
  rw [yields_bind_ok (yields_blockAt id stack s)] at h
  have hpath : Yields (refPath true ([word] : List String).dropLast) s (.ok []) s :=
    yields_pure.mpr ⟨rfl, rfl⟩
  rw [yields_bind_ok hpath] at h
  have hlast : ([word] : List String).getLast?.getD "" = word := rfl
  rw [hlast] at h
  -- Private attributes are refused, and this one was assigned.
  by_cases hprivate : isPrivate word = true
  · simp only [hprivate, if_true] at h
    exact absurd h not_yields_throw_ok
  · simp only [hprivate, if_false, Bool.false_eq_true, List.nil_append, dotted_singleton] at h
    exact h

/-- Sets fields by their attributes, one after the other. -/
def assignEach (run : BodyRunner) (stack : BlockStack) (ps : List (String × Run Value)) :
    Run Unit :=
  ps.forM fun p => do setPath run stack [p.1] (← p.2)

/-- Attributes with work that gives these values. -/
def Giving (s : Session) : List (String × Run Value) → List (String × Value) → Prop :=
  List.Forall₂ fun p k => p.1 = k.1 ∧ s.Gives p.2 k.2

theorem giving_pure (s : Session) (ks : List (String × Value)) :
    Giving s (ks.map fun k => (k.1, pure k.2)) ks :=
  List.forall₂_map_left_iff.mpr (List.forall₂_same.mpr fun k _ => ⟨rfl, s.gives_pure k.2⟩)

/-- Values are assigned one after the other to a block that is being filled. -/
theorem filling_assignments (hs : t.Sound fun w => w.isFree = true)
    (hleaves : ∀ w ∈ t.leaves, w.isFree = true) {ps : List (String × Run Value)}
    {ks : List (String × Value)} (hps : Giving t ps ks) (hks : ∀ k ∈ ks, t.AtHand k.2)
    (hown : ∀ k ∈ ks, ∀ b ∈ (t.snapshot k.2).bodies, b.OwnUpTo view depth)
    (hm : Filling t m env)
    (hsize : t.drawn.size ≤ m.drawn.size) (hdrawn : DrawnAlike (· < t.drawn.size) gone m.drawn)
    (h : Yields (assignEach (Body.runAt depth) (t.blocks.size :: stack) ps) m (.ok ()) u) :
    ∃ es : List (Name × Value × Value), es.map (fun e => (e.1, e.2.1)) = attributeFields ks ∧
      Successive view depth t gone (view m.counters) es ∧
        Filling t u
          ((es.map fun e => (e.1, e.2.2)).foldl (fun done e => placed done e.1 e.2) env) := by
  induction hps generalizing m gone env with
  | nil =>
      rcases yields_pure.mp h with ⟨-, rfl⟩
      exact ⟨[], rfl, .nil, hm⟩
  | @cons p k ps ks hp _ ih =>
      rw [List.forall_mem_cons] at hks hown
      rcases yields_bind_eq_ok.mp h with ⟨⟨⟩, m', hset, h⟩
      rw [yields_bind_ok (hp.2 m hm.grows), hp.1] at hset
      -- The next value is looked at as it would be if no block had been made.
      rcases filling_assignField hs hleaves hks.1 hown.1 hm hsize hdrawn
        (yields_setPath_one hset) with ⟨n, d, ⟨haccepted, hmirrors, hcomes⟩, hm', hsize', hdrawn'⟩
      rcases ih hks.2 hown.2 hm' hsize' hdrawn' h with ⟨es, hes, hsuccessive, hfilling⟩
      exact ⟨(.ofText (fieldName k.1), k.2, d) :: es, congrArg (List.cons _) hes,
        .cons haccepted hmirrors hcomes hsuccessive, hfilling⟩

/-! ## Assigning all at once -/

/-- The entries of a mapping are classified one after the other. -/
theorem classifies_successive {es : List (Name × Value × Value)}
    (h : Successive view depth t gone c es) (path : Name) :
    ∃ ns left c', Yields (classifyEntries path (es.map fun e => (e.1.toValue, t.snapshot e.2.1)))
        { t with drawn := gone } (.ok ns) { t with drawn := left } ∧
      EntriesCome view depth ns c (es.map fun e => (e.1, e.2.2)) c' := by
  induction h with
  | nil => exact ⟨[], _, _, yields_pure.mpr ⟨rfl, rfl⟩, .nil⟩
  | @cons gone c m name v d n rest haccepted hmirrors hcomes _ ih =>
      rcases ih with ⟨ns, left, c', hns, hall⟩
      refine ⟨(name, n) :: ns, left, c', ?_, .cons ⟨rfl, hcomes⟩ hall⟩
      have hn : Yields ((t.snapshot v).classify (fieldPath path name)) { t with drawn := gone }
          (.ok n) { t with drawn := ((t.snapshot v).remaining gone).2 } :=
        yields_classify.mpr ⟨⟨haccepted, hmirrors⟩, rfl⟩
      rw [List.map_cons, Name.toValue, classifyEntries, yields_bind_ok hn, yields_bind_ok hns]
      exact yields_pure.mpr ⟨rfl, rfl⟩

/-- A mapping whose entries follow each other is assigned as what they come to. -/
theorem assigns_of_successive (hs : t.Ordered) {id : Nat} (hid : id < t.blocks.size)
    {es : List (Name × Value × Value)}
    (h : Successive view depth t t.drawn (view t.counters) es) {e : Nat} (he : depth ≤ e)
    (stack : BlockStack) (name : Name) :
    ∃ u, Yields (assignField (Body.runAt e) stack id name
        (Fields.toValue (es.map fun e => (e.1, e.2.1)))) t (.ok ()) u ∧
      u.snapshotFields id = (t.snapshotFields id).set name
        (Fields.toValue (orderedFold (es.map fun e => (e.1, e.2.2)))) := by
  rcases classifies_successive h name with ⟨ns, left, c', hns, hall⟩
  -- The mapping is made a tree in one go, and then its entries follow each other as they did.
  have htree : Yields (toNode (Fields.toValue (es.map fun e => (e.1, e.2.1))) name) t
      (.ok (.mapping ns)) { t with drawn := left } := by
    unfold toNode
    rw [yields_bind_ok (yields_get.mpr ⟨rfl, rfl⟩), Fields.toValue, Value.dict,
      Session.snapshot_mapping, Value.classify, List.map_map, List.map_map]
    exact (yields_bind_ok hns).mpr (yields_pure.mpr ⟨rfl, rfl⟩)
  rcases comes_mapping hall e he stack { t with drawn := left } rfl with ⟨v, m, hv, hproduced, -⟩
  refine ⟨m.assigned id name v, ?_, ?_⟩
  · unfold assignField
    rw [yields_bind_ok htree, yields_bind_ok hv]
    exact yields_modify.mpr ⟨rfl, rfl⟩
  · have hgrows : t.Grows { t with drawn := left } := .of_blocks rfl
    exact hs.snapshotFields_shown hid (hproduced.toShown.earlier hgrows) name

/-! ## In another order -/

/-- Values that have no generator in common. -/
def Session.Unshared (s : Session) (v w : Value) : Prop :=
  ∀ g ∈ (s.snapshot v).generators, g ∉ (s.snapshot w).generators

/-- What a value comes to, whatever has been counted, if it is classified before anything
    else. -/
def ComesFirst (depth : Nat) (s : Session) (v d : Value) : Prop :=
  ∃ n : Node, (s.standing v).Accepted ∧ (s.standing v).Mirrors n ∧
    n.Comes (fun _ => ()) depth () d ()

/-- Nothing has been drawn from the generators of these values. -/
def Untouched (s : Session) (gone : Array Nat) (es : List (Name × Value × Value)) : Prop :=
  ∀ x ∈ es, DrawnAlike (· ∈ (s.snapshot x.2.1).generators) s.drawn gone

/-- Values that share no generator leave each other alone. -/
theorem Untouched.tail {x : Name × Value × Value} {es : List (Name × Value × Value)}
    (h : Untouched t gone (x :: es)) (hx : ∀ y ∈ es, t.Unshared x.2.1 y.2.1) :
    Untouched t ((t.snapshot x.2.1).remaining gone).2 es := by
  intro y hy g hg
  rw [(remaining_frame _ gone).2 g fun hmem => hx y hy g hmem hg]
  exact h y (List.mem_cons_of_mem x hy) g hg

theorem Successive.comesFirst {c : Unit} {es : List (Name × Value × Value)}
    (h : Successive (fun _ => ()) depth t gone c es)
    (hunshared : es.Pairwise fun x y => t.Unshared x.2.1 y.2.1) (hgone : Untouched t gone es) :
    ∀ x ∈ es, ComesFirst depth t x.2.1 x.2.2 := by
  induction h with
  | nil => exact nofun
  | @cons gone _ _ name v d n rest haccepted hmirrors hcomes _ ih =>
      rw [List.pairwise_cons] at hunshared
      refine List.forall_mem_cons.mpr ⟨⟨n, ?_⟩, ih hunshared.2 (hgone.tail hunshared.1)⟩
      -- Values before this one have not drawn from its generators.
      have hremain := remaining_congr _ _ _ (hgone _ List.mem_cons_self) fun _ hg => hg
      rw [hremain.1] at haccepted hmirrors
      exact ⟨haccepted, hmirrors, hcomes⟩

theorem successive_of_comesFirst {es : List (Name × Value × Value)}
    (h : ∀ x ∈ es, ComesFirst depth t x.2.1 x.2.2)
    (hunshared : es.Pairwise fun x y => t.Unshared x.2.1 y.2.1) (hgone : Untouched t gone es) :
    Successive (fun _ => ()) depth t gone () es := by
  induction es generalizing gone with
  | nil => exact .nil
  | cons x rest ih =>
      rw [List.forall_mem_cons] at h
      rw [List.pairwise_cons] at hunshared
      rcases h.1 with ⟨n, haccepted, hmirrors, hcomes⟩
      unfold Session.standing at haccepted hmirrors
      have hremain := remaining_congr _ _ _ (hgone _ List.mem_cons_self) fun _ hg => hg
      rw [← hremain.1] at haccepted hmirrors
      exact .cons haccepted hmirrors hcomes (ih h.2 hunshared.2 (hgone.tail hunshared.1))

/-- Values that share no generator and do not count may be taken in another order. -/
theorem Successive.folded {es : List (Name × Value × Value)}
    (h : Successive (fun _ => ()) depth t t.drawn () es)
    (hunshared : es.Pairwise fun x y => t.Unshared x.2.1 y.2.1) :
    Successive (fun _ => ()) depth t t.drawn () (orderedFold es) := by
  -- Each value comes to the same if it is taken first, and this does not depend on an order.
  have huntouched : Untouched t t.drawn (orderedFold es) := fun _ _ _ _ => rfl
  refine successive_of_comesFirst ?_ ?_ huntouched
  · exact orderedFold_forall (P := fun x : Value × Value => ComesFirst depth t x.1 x.2)
      (h.comesFirst hunshared fun _ _ _ _ => rfl)
  · exact pairwise_orderedFold (R := fun x y : Value × Value => t.Unshared x.1 y.1)
      (fun _ _ hxy g hg hg' => hxy g hg' hg) hunshared

/-! ## Keywords -/

/-- Assigns a block on which fields are set by their attributes. What they are set to is
    found once the block is being recorded. -/
def assignGathered (run : BodyRunner) (stack : BlockStack) (id : Nat) (name : Name)
    (ps : BlockStack → List (String × Run Value)) : Run Unit := do
  let inner ← Run.newBlock
  assignEach run (inner :: stack) (ps (inner :: stack))
  Run.assign id name (.live inner)

/-- Keywords whose bodies touch only their own blocks. If two of them name one field, the
    values of the keywords share no generator, and their bodies do not go by counters. -/
def Session.Separable (s : Session) (depth : Nat) (ks : List (String × Value)) : Prop :=
  ((attributeFields ks).names.Nodup ∧
    ∀ k ∈ ks, ∀ b ∈ (s.snapshot k.2).bodies, b.IsOwn depth) ∨
  ((ks.Pairwise fun a b => s.Unshared a.2 b.2) ∧
    ∀ k ∈ ks, ∀ b ∈ (s.snapshot k.2).bodies, b.IsSteady depth)

variable {id : Nat} {ps : BlockStack → List (String × Run Value)} {ks : List (String × Value)}
  {name : Name} {e : Nat}

/-- What can be assigned one after the other in a body can be assigned as one mapping, if
    the values may as well be taken in the order that folding leaves, and the block looks the
    same then. -/
theorem assigns_of_folded (hs : t.Sound fun w => w.isFree = true)
    (hleaves : ∀ w ∈ t.leaves, w.isFree = true) (hid : id < t.blocks.size)
    (hps : Giving t (ps (t.blocks.size :: stack)) ks) (hks : ∀ k ∈ ks, t.AtHand k.2)
    (hown : ∀ k ∈ ks, ∀ b ∈ (t.snapshot k.2).bodies, b.OwnUpTo view depth)
    (hfold : ∀ es : List (Name × Value × Value),
      es.map (fun e => (e.1, e.2.1)) = attributeFields ks →
        Successive view depth t t.drawn (view t.counters) es →
          Successive view depth t t.drawn (view t.counters) (orderedFold es))
    (h : Yields (assignGathered (Body.runAt depth) stack id name ps) t (.ok ()) u)
    (he : depth ≤ e) (stack' : BlockStack) :
    ∃ w, Yields (assignField (Body.runAt e) stack' id name
        (Fields.toValue (orderedFold (attributeFields ks)))) t (.ok ()) w ∧
      w.snapshotFields id = u.snapshotFields id := by
  unfold assignGathered at h
  rw [yields_bind_ok (yields_newBlock.mpr ⟨rfl, rfl⟩)] at h
  rcases yields_bind_eq_ok.mp h with ⟨⟨⟩, m, hall, h⟩
  rcases yields_modify.mp h with ⟨-, rfl⟩
  rcases filling_assignments hs hleaves hps hks hown (Filling.opened t) (Nat.le_refl _)
    (fun _ _ => rfl) hall with ⟨es, hes, hsuccessive, hfilling⟩
  -- The mapping has the folded entries, with what they come to.
  have hvalues :
      (orderedFold es).map (fun e => (e.1, e.2.1)) = orderedFold (attributeFields ks) := by
    rw [← hes]
    exact (orderedFold_map Prod.fst es).symm
  have hdata : orderedFold ((orderedFold es).map fun e => (e.1, e.2.2)) =
      orderedFold (es.map fun e => (e.1, e.2.2)) := by
    rw [← orderedFold_map Prod.snd es]
    exact orderedFold_of_nodup (nodup_names_orderedFold _)
  rcases assigns_of_successive hs.ordered hid (hfold es hes hsuccessive) he stack' name with
    ⟨w, hw, hseen⟩
  rw [hvalues] at hw
  rw [hdata] at hseen
  refine ⟨w, hw, ?_⟩
  rw [hseen]
  exact (hs.ordered.snapshotFields_shown hid hfilling.shown name).symm

/-- What can be assigned one after the other in a body can be assigned as one mapping. -/
theorem assigns_of_gathered (hs : t.Sound fun w => w.isFree = true)
    (hleaves : ∀ w ∈ t.leaves, w.isFree = true) (hid : id < t.blocks.size)
    (hps : Giving t (ps (t.blocks.size :: stack)) ks) (hks : ∀ k ∈ ks, t.AtHand k.2)
    (hseparable : t.Separable depth ks)
    (h : Yields (assignGathered (Body.runAt depth) stack id name ps) t (.ok ()) u)
    (he : depth ≤ e) (stack' : BlockStack) :
    ∃ w, Yields (assignField (Body.runAt e) stack' id name
        (Fields.toValue (orderedFold (attributeFields ks)))) t (.ok ()) w ∧
      w.snapshotFields id = u.snapshotFields id := by
  rcases hseparable with ⟨hnames, hown⟩ | ⟨hunshared, hsteady⟩
  · -- Distinct fields are in the order of the keywords.
    refine assigns_of_folded hs hleaves hid hps hks hown (fun es hes hsuccessive => ?_) h he stack'
    rw [← hes, Fields.names, List.map_map] at hnames
    rw [orderedFold_of_nodup hnames]
    exact hsuccessive
  -- Shared names are folded, which moves a keyword to the place of an earlier one: what they
  -- leave behind must not depend on their order.
  · refine assigns_of_folded hs hleaves hid hps hks hsteady (fun es hes hsuccessive => ?_) h he
      stack'
    have hpairs : (attributeFields ks).Pairwise fun a b => t.Unshared a.2 b.2 :=
      List.pairwise_map.mpr hunshared
    rw [← hes] at hpairs
    exact hsuccessive.folded
      ((List.pairwise_map (R := fun a b : Name × Value => t.Unshared a.2 b.2)).mp hpairs)

end

end Docket
