import Docket.Document
import Docket.Proofs.Recording.Statements
import Mathlib.Logic.Relation

/-!
# Runs of the library

What a program does with the library is a sequence of moves: it performs actions
(it builds values, runs statements, compiles trees, makes documents, adds to them
and reads, writes or configures them), and between actions bodies begin and end.
The states in between are seen, too: a body that is entered while a statement is
under way makes a move, its statements are moves of their own, and so are the
values that are built before.

A library is sound if its session is, if the blocks being recorded exist and if
the documents hold recorded fields. Every move keeps it sound, as long as the leaf
nodes made by hand hold only leaves.

## Main definitions

* `Library`: A session, the documents, and the blocks being recorded.
* `Action`: What a program does in one go.
* `Moves`, `Library.Reached`: One move, and the states that any moves lead to.
* `Library.Sound`: A sound library.

## Theorems

* `safe_toMap`: The data that a document is built from is new.
* `safe_perform`: Actions are safe.
* `Moves.sound`: A move keeps a library sound.
* `Library.Reached.sound`: Every state that is reached is sound.
-/

namespace Docket

structure Library where
  session : Session
  documents : List Document
  /-- the blocks being recorded, innermost first -/
  stack : BlockStack

/-- What a program does in one go. Documents go by their number. -/
inductive Action where
  | build (e : Expr)
  | statement (s : Stmt) (depth : Nat)
  | compile (tree : Expr)
  | make (encoding pretty : Option Expr)
  | map (document : Nat) (tree : Expr)
  | field (document : Nat) (name tree : Expr)
  | asMap (document : Nat)
  | toBytes (document : Nat)
  | toText (document : Nat)
  | writeTo (document : Nat) (stream : Bytes → Except Failure Unit)
  | configure (encoding pretty : Option Expr)

/-- The values of what is given. -/
def buildGiven (stack : BlockStack) : Option Expr → Run (Option Value)
  | none => return none
  | some e => return some (← e.build stack)

/-- Documents of which one has changed. -/
def onDocument (ds : List Document) (i : Nat) (f : Document → Run Document) :
    Run (List Document) :=
  match ds[i]? with
  | some d => return ds.set i (← f d)
  | none => return ds

namespace Action

/-- Performs an action, and gives the documents as they are then. -/
def perform (stack : BlockStack) (ds : List Document) : Action → Run (List Document)
  | build e => do
    let _ ← e.build stack
    return ds
  | statement s depth => do
    s.exec (Body.runAt depth) stack
    return ds
  | compile tree => do
    let _ ← Docket.toMap (← tree.build stack)
    return ds
  | make encoding pretty => do
    let encoding ← buildGiven stack encoding
    let pretty ← buildGiven stack pretty
    return ds ++ [← Document.make encoding pretty]
  | map i tree => do
    let v ← tree.build stack
    onDocument ds i fun d => d.map v
  | field i name tree => do
    let name ← name.build stack
    let v ← tree.build stack
    onDocument ds i fun d => d.field name v
  | asMap i => onDocument ds i fun d => do
    let _ ← d.asMap
    return d
  | toBytes i => onDocument ds i fun d => return (← d.toBytes).2
  | toText i => onDocument ds i fun d => return (← d.toText).2
  | writeTo i stream => onDocument ds i fun d => return (← d.writeTo stream).2
  | configure encoding pretty => do
    let encoding ← buildGiven stack encoding
    let pretty ← buildGiven stack pretty
    Docket.configure encoding pretty
    return ds

end Action

namespace Library

/-- A library after an action. One that fails leaves the documents as they are,
    and the session as it was left. -/
def after (l : Library) (a : Action) : Library :=
  let (r, s) := (a.perform l.stack l.documents).run.run l.session
  ⟨s, r.toOption.getD l.documents, l.stack⟩

/-- A library in which a body begins. -/
def entered (l : Library) : Library :=
  ⟨l.session.opened, l.documents, l.session.blocks.size :: l.stack⟩

end Library

/-- One move. Whatever blocks there are, they may be the ones being recorded. -/
inductive Moves : Library → Library → Prop
  | performs (l : Library) (a : Action) : Moves l (l.after a)
  | enters (l : Library) : Moves l l.entered
  | turns (l : Library) (stack : BlockStack) (h : ∀ id ∈ stack, id < l.session.blocks.size) :
      Moves l { l with stack := stack }

namespace Library

def initial : Library := ⟨.initial, [], []⟩

/-- A state comes some moves after another. -/
def Later (l l' : Library) : Prop := Relation.ReflTransGen Moves l l'

/-- A state that some moves lead to. -/
def Reached (l : Library) : Prop := initial.Later l

end Library

/-- Actions one after another. -/
theorem Library.later_actions (actions : List Action) (l : Library) :
    l.Later (actions.foldl Library.after l) := by
  induction actions generalizing l with
  | nil => exact Relation.ReflTransGen.refl
  | cons a rest ih => exact Relation.ReflTransGen.head (Moves.performs l a) (ih _)

/-- A document whose fields are recorded and hold some of the first `k` blocks. -/
structure Document.Sound (L : Value → Prop) (k : Nat) (d : Document) : Prop where
  recorded : d.content.Recorded L
  held : ∀ j ∈ d.content.held, j < k

structure Library.Sound (L : Value → Prop) (l : Library) : Prop where
  session : l.session.Sound L
  stack : ∀ id ∈ l.stack, id < l.session.blocks.size
  documents : ∀ d ∈ l.documents, d.Sound L l.session.blocks.size

section

variable {L : Value → Prop} {k : Nat} {P : Prop}

theorem Document.Sound.of_le {d : Document} {n : Nat} (h : d.Sound L k) (hn : k ≤ n) :
    d.Sound L n :=
  ⟨h.recorded, fun j hj => Nat.lt_of_lt_of_le (h.held j hj) hn⟩

/-- What was assumed is known afterwards, too. -/
theorem Safe.known {α : Type} {p : Run α} {Q : Nat → α → Session → Prop} (h : Safe L k P p Q) :
    Safe L k P p fun n a s => P ∧ k ≤ s.blocks.size ∧ Q n a s := by
  intro s r s' hp
  rcases h s r s' hp with ⟨honward, hsafe⟩
  refine ⟨honward, fun hP hs hk hleaves => ?_⟩
  rcases hsafe hP hs hk hleaves with ⟨hs', hkeeps, hQ⟩
  exact ⟨hs', hkeeps, fun a ha => ⟨hP, Nat.le_trans hk hkeeps.size, hQ a ha⟩⟩

/-- Whether a node is that of a document. -/
def Node.isDocument : Node → Bool
  | .mapping _ => true
  | .nested _ => true
  | _ => false

/-- What a document may be built from: the fields of a block, or fields. -/
def Value.IsTop (L : Value → Prop) (v : Value) : Prop :=
  (∃ id, v = .live id) ∨ ∃ fs : Fields, v = fs.toValue ∧ fs.Recorded L

/-- The data that a tree stands for is new. -/
theorem safe_evaluate (hL : LeafRule L) (n : Node) :
    Safe L k P n.evaluate fun m v s => n.Clean L → Fresh L m v s := by
  refine safe_resolve hL (fun b => ?_) n
  exact (safe_runAt hL _ k [] b).weaken fun _ j hj => absurd hj List.not_mem_nil

theorem safe_body_evaluate (hL : LeafRule L) (b : Body) :
    Safe L k P b.evaluate fun m v s => Fresh L m v s :=
  (safe_runAt hL _ k [] b).weaken fun _ _ hj => absurd hj List.not_mem_nil

/-- A body comes to the field mapping of a block. -/
theorem live_of_runAt {depth : Nat} {stack : BlockStack} {b : Body} {s s' : Session} {v : Value}
    (h : Yields (Body.runAt depth stack b) s (.ok v) s') : ∃ id, v = .live id := by
  cases depth with
  | zero =>
      rw [Body.runAt] at h
      exact absurd h not_yields_throw_ok
  | succ depth =>
      rw [Body.runAt, yields_bind_ok (yields_newBlock.mpr ⟨rfl, rfl⟩)] at h
      rcases yields_bind_eq_ok.mp h with ⟨u, m, -, h₂⟩
      rcases yields_pure.mp h₂ with ⟨hv, -⟩
      exact ⟨_, Except.ok.inj hv⟩

/-- The data that a document is built from is new. -/
theorem safe_toMap (hL : LeafRule L) (v : Value) :
    Safe L k P (toMap v) fun n m s => v.Made L → Fresh L n m s ∧ m.IsTop L := by
  unfold toMap
  refine Safe.builds_bind (builds_toNode hL v (.ofText "")) fun node => ?_
  split
  next entries =>
    unfold Node.evaluate
    -- No block is open above a document.
    have hrun : ∀ b, Safe L k (P ∧ (v.Made L → (Node.mapping entries).Clean L))
        (Body.runAt ((Node.mapping entries).depth + replayDepth) [] b)
        fun n w s => Fresh L n w s :=
      fun b => (safe_runAt hL _ k [] b).weaken fun _ j hj => absurd hj List.not_mem_nil
    refine (safe_resolve_mapping (safe_resolveEntries hL hrun entries [])).known.mono ?_
    rintro n m s ⟨⟨-, hclean⟩, -, hm⟩ hmade
    rcases hm (hclean hmade) with ⟨fs, rfl, hrecorded, hnew⟩
    refine ⟨⟨Value.Recorded.fields hrecorded.1 hrecorded.2, ?_⟩, Or.inr ⟨fs, rfl, hrecorded⟩⟩
    rw [Fields.held_toValue]
    exact hnew
  next b =>
    intro s r s' h
    rcases safe_body_evaluate (P := P) (k := k) hL b s r s' h with ⟨honward, hsafe⟩
    refine ⟨honward, fun hP hs hk hleaves => ?_⟩
    rcases hsafe hP.1 hs hk hleaves with ⟨hs', hkeeps, hfresh⟩
    refine ⟨hs', hkeeps, fun m hm _ => ⟨hfresh m hm, Or.inl ?_⟩⟩
    subst hm
    exact live_of_runAt h
  next => exact Safe.throw

/-- What a tree is compiled to is new. -/
theorem safe_compile (hL : LeafRule L) (stack : BlockStack) (tree : Expr) :
    Safe L k P (do let v ← tree.build stack; toMap v) fun n m s => Fresh L n m s ∧ m.IsTop L := by
  refine Safe.builds_bind (builds_expr hL stack tree) fun v => ?_
  refine (safe_toMap hL v).known.mono ?_
  rintro n m s ⟨⟨-, hmade⟩, -, hm⟩
  exact hm hmade

/-- The fields of a mapping of fields. -/
theorem topFields_toValue (fs : Fields) : topFields fs.toValue = pure fs := by
  unfold Fields.toValue Value.dict topFields
  simp only []
  rw [List.filterMap_map]
  exact congrArg pure List.filterMap_some

theorem yields_fieldsOf {id : Nat} {s s' : Session} {r : Except Failure Fields} :
    Yields (Run.fieldsOf id) s r s' ↔ r = .ok (s.fields id) ∧ s' = s := by
  unfold Run.fieldsOf
  rw [yields_bind_ok (yields_get.mpr ⟨rfl, rfl⟩), yields_pure]

theorem eq_of_topFields {v : Value} {s s' : Session} {r : Except Failure Fields}
    (h : Yields (topFields v) s r s') : s' = s := by
  unfold topFields at h
  split at h
  · exact (yields_fieldsOf.mp h).2
  · exact (yields_pure.mp h).2
  · exact (yields_pure.mp h).2

/-- The fields that a document takes over are recorded, and exist. -/
theorem safe_topFields (hL : LeafRule L) (v : Value) :
    Safe L k P (do let m ← toMap v; topFields m) fun _ fs s => v.Made L →
      fs.Recorded L ∧ ∀ j ∈ fs.held, j < s.blocks.size := by
  intro s r s' h
  rcases yields_bind.mp h with ⟨m, t, h₁, h₂⟩ | ⟨e, h₁, rfl⟩
  · rcases safe_toMap (P := P) (k := k) hL v s _ t h₁ with ⟨honward, hsafe⟩
    have hst := eq_of_topFields h₂
    subst hst
    refine ⟨honward, fun hP hs hk hleaves => ?_⟩
    rcases hsafe hP hs hk hleaves with ⟨ht, hkeeps, hm⟩
    refine ⟨ht, hkeeps, fun fs hfs hmade => ?_⟩
    subst hfs
    -- The data is a block, whose fields are those of the session, or it is made of its fields.
    rcases hm m rfl hmade with ⟨hfresh, ⟨id, rfl⟩ | ⟨gs, rfl, hrecorded⟩⟩
    · rcases yields_fieldsOf.mp h₂ with ⟨hid, -⟩
      rw [Except.ok.inj hid]
      exact ⟨⟨ht.names id, ht.filled id⟩, fun j hj => (ht.ordered id j hj).2⟩
    · rw [topFields_toValue] at h₂
      rw [Except.ok.inj (yields_pure.mp h₂).1]
      refine ⟨hrecorded, fun j hj => ?_⟩
      rw [← Fields.held_toValue] at hj
      exact (hfresh.newIn.new j hj).2
  · rcases safe_toMap (P := P) (k := k) hL v s _ s' h₁ with ⟨honward, hsafe⟩
    refine ⟨honward, fun hP hs hk hleaves => ?_⟩
    rcases hsafe hP hs hk hleaves with ⟨hs', hkeeps, -⟩
    exact ⟨hs', hkeeps, fun a ha => absurd ha error_ne_ok⟩

theorem Fields.Recorded.set {fs : Fields} {v : Value} (name : Name) (h : fs.Recorded L)
    (hv : v.Recorded L) : (fs.set name v).Recorded L := by
  refine ⟨Fields.nodup_set name v h.1, fun f hf => ?_⟩
  rcases Fields.mem_set hf with hf | hf
  · exact h.2 f hf
  · exact hf ▸ hv

/-- Merging recorded fields. -/
theorem Document.Sound.merge {d : Document} (hd : d.Sound L k) {news : Fields}
    (hrecorded : ∀ f ∈ news, f.2.Recorded L) (hheld : ∀ j ∈ news.held, j < k) :
    Document.Sound L k { d with content := d.content.merge news } := by
  -- The induction on the new fields changes those that are merged into.
  have hfold : ∀ (fs : Fields), fs.Recorded L → (∀ j ∈ fs.held, j < k) →
      (fs.merge news).Recorded L ∧ ∀ j ∈ (fs.merge news).held, j < k := by
    induction news with
    | nil => exact fun fs hfs hlt => ⟨hfs, hlt⟩
    | cons f rest ih =>
        intro fs hfs hlt
        rw [List.forall_mem_cons] at hrecorded
        refine ih hrecorded.2 (fun j hj => hheld j (List.mem_append_right _ hj)) _
          (hfs.set f.1 hrecorded.1) fun j hj => ?_
        rcases Fields.mem_held_set hj with hj | hj
        · exact hlt j hj
        · exact hheld j (List.mem_append_left _ hj)
  rcases hfold d.content hd.recorded hd.held with ⟨h₁, h₂⟩
  exact ⟨h₁, h₂⟩

theorem Document.Sound.set {d : Document} (hd : d.Sound L k) (name : Name) {v : Value}
    (hrecorded : v.Recorded L) (hheld : ∀ j ∈ v.held, j < k) :
    Document.Sound L k { d with content := d.content.set name v } := by
  refine ⟨hd.recorded.set name hrecorded, fun j hj => ?_⟩
  rcases Fields.mem_held_set hj with hj | hj
  · exact hd.held j hj
  · exact hheld j hj

theorem Document.Sound.of_nil {d : Document} (h : d.content = []) : d.Sound L k := by
  constructor
  · rw [h]
    exact ⟨List.nodup_nil, fun f hf => absurd hf List.not_mem_nil⟩
  · rw [h]
    exact fun j hj => absurd hj List.not_mem_nil

/-- A document stays sound while fields are added to it. -/
abbrev SafeDocument (L : Value → Prop) (k : Nat) (P : Prop) (d : Document) (p : Run Document) :
    Prop :=
  Safe L k (P ∧ d.Sound L k) p fun _ d' s => d'.Sound L s.blocks.size

theorem builds_ensureOpen (d : Document) : Builds L d.ensureOpen fun _ => True := by
  unfold Document.ensureOpen
  split
  · exact Builds.throw
  · exact Builds.pure trivial

theorem safe_document_map (hL : LeafRule L) (d : Document) (tree : Value) :
    SafeDocument L k (P ∧ tree.Made L) d (d.map tree) := by
  unfold Document.map
  refine Safe.builds_bind (builds_ensureOpen d) fun _ => ?_
  have hfields := ((safe_topFields (P := ((P ∧ tree.Made L) ∧ d.Sound L k) ∧ True) (k := k) hL
    tree).known.map fun fs => { d with content := d.content.merge fs })
  rw [bind_assoc] at hfields
  refine hfields.mono ?_
  rintro n d' s ⟨fs, rfl, ⟨⟨⟨-, hmade⟩, hd⟩, -⟩, hk, hfs⟩
  rcases hfs hmade with ⟨hrecorded, hheld⟩
  exact (hd.of_le hk).merge hrecorded.2 hheld

theorem safe_document_field (hL : LeafRule L) (d : Document) (name tree : Value) :
    SafeDocument L k (P ∧ tree.Made L) d (d.field name tree) := by
  unfold Document.field
  refine Safe.builds_bind (builds_ensureOpen d) fun _ => ?_
  split
  next text form =>
    refine Safe.builds_bind (builds_toNode hL tree _) fun node => ?_
    refine ((safe_evaluate hL node).known.map _).mono ?_
    rintro n d' s ⟨v, rfl, ⟨⟨⟨⟨-, hmade⟩, hd⟩, -⟩, hclean⟩, hk, hv⟩
    have hfresh := hv (hclean hmade)
    exact (hd.of_le hk).set _ hfresh.recorded fun j hj => (hfresh.newIn.new j hj).2
  next => exact Safe.throw

theorem yields_lift {α : Type} {x : Except Failure α} {s s' : Session} {r : Except Failure α} :
    Yields (liftM x : Run α) s r s' ↔ r = x ∧ s' = s := by
  constructor
  · intro h
    exact ⟨(congrArg Prod.fst h).symm, (congrArg Prod.snd h).symm⟩
  · rintro ⟨rfl, rfl⟩
    rfl

theorem builds_lift {α : Type} (x : Except Failure α) :
    Builds L (liftM x : Run α) fun _ => True := by
  intro s r s' h
  exact ⟨(yields_lift.mp h).2 ▸ Draws.refl s, fun _ _ _ _ => trivial⟩

theorem builds_ofExcept {α : Type} (x : Except Failure α) :
    Builds L (MonadExcept.ofExcept x : Run α) fun _ => True := by
  cases x with
  | ok a => exact Builds.pure trivial
  | error e => exact Builds.throw

theorem builds_log (r : LogRecord) : Builds L (Run.log r) fun _ => True :=
  Builds.change (fun _ => ⟨rfl, rfl, rfl, fun _ h => h⟩) trivial

theorem builds_get : Builds L (get : Run Session) fun _ => True := by
  intro s r s' h
  exact ⟨(yields_get.mp h).2 ▸ Draws.refl s, fun _ _ _ _ => trivial⟩

theorem builds_encode (v : Value) (e : Encoding) (layout : JsonLayout) :
    Builds L (encode v e layout) fun _ => True := by
  unfold encode
  refine (builds_lift v.prepare).bind fun c => Builds.any ?_
  split
  · exact Builds.pure trivial
  · exact (builds_log _).bind fun _ => Builds.throw

theorem builds_current (d : Document) : Builds L d.current fun _ => True :=
  builds_map builds_get fun _ _ => trivial

theorem builds_asMap (d : Document) : Builds L d.asMap fun _ => True := by
  unfold Document.asMap
  refine (builds_current d).bind fun v => Builds.any ?_
  split
  · exact Builds.pure trivial
  · exact Builds.throw

/-- Finalizing a document leaves its fields as they are. -/
theorem builds_toBytes (d : Document) :
    Builds L d.toBytes fun p => p.2.content = d.content := by
  unfold Document.toBytes
  split
  · exact Builds.pure rfl
  · refine (builds_current d).bind fun v => Builds.any ?_
    refine (builds_encode v d.encoding d.layout).bind fun payload => Builds.any ?_
    exact builds_map (builds_log _) fun _ _ => rfl

theorem builds_toText (d : Document) : Builds L d.toText fun p => p.2.content = d.content := by
  unfold Document.toText
  by_cases hbinary : d.encoding.binary = true
  · simp only [hbinary, if_true]
    exact Builds.throw_bind
  · simp only [hbinary]
    exact builds_map (builds_toBytes d) fun _ h => h

theorem builds_writeTo (d : Document) (stream : Bytes → Except Failure Unit) :
    Builds L (d.writeTo stream) fun p => p.2.content = d.content := by
  unfold Document.writeTo
  exact builds_map (builds_toBytes d) fun _ h => h

theorem builds_configuration : Builds L Run.configuration fun _ => True := by
  unfold Run.configuration
  exact builds_get.bind fun s => Builds.any (builds_ofExcept _)

/-- A new document has no fields. -/
theorem builds_make (encoding pretty : Option Value) :
    Builds L (Document.make encoding pretty) fun d => d.content = [] := by
  unfold Document.make
  refine builds_configuration.bind fun config => Builds.any ?_
  simp only []
  split
  · exact builds_map (Builds.pure (Q := fun _ => True) trivial) fun _ _ => rfl
  · exact builds_map (Builds.pure (Q := fun _ => True) trivial) fun _ _ => rfl
  · exact builds_map (builds_ofExcept _) fun _ _ => rfl

theorem builds_configure (encoding pretty : Option Value) :
    Builds L (configure encoding pretty) fun _ => True := by
  unfold configure Run.changeSettings
  intro s r s' h
  rw [yields_bind_ok (yields_get.mpr ⟨rfl, rfl⟩)] at h
  rcases yields_bind.mp h with ⟨settings, m, h₁, h₂⟩ | ⟨e, h₁, -⟩
  · rcases yields_ofExcept.mp h₁ with ⟨-, rfl⟩
    rcases yields_set.mp h₂ with ⟨-, rfl⟩
    exact ⟨⟨rfl, rfl, rfl, fun _ h => h⟩, fun _ _ _ _ => trivial⟩
  · rcases yields_ofExcept.mp h₁ with ⟨-, rfl⟩
    exact ⟨Draws.refl _, fun _ _ _ _ => trivial⟩

theorem builds_given (hL : LeafRule L) (stack : BlockStack) (e : Option Expr) :
    Builds L (buildGiven stack e) fun _ => True := by
  cases e with
  | none => exact Builds.pure trivial
  | some e => exact builds_map (builds_expr hL stack e) fun _ _ => trivial

/-- One document changes, and the others are still sound. -/
theorem safe_onDocument (ds : List Document) (i : Nat) {f : Document → Run Document}
    (h : ∀ d, SafeDocument L k P d (f d)) :
    Safe L k (P ∧ ∀ d ∈ ds, d.Sound L k) (onDocument ds i f) fun _ ds' s =>
      ∀ d ∈ ds', d.Sound L s.blocks.size := by
  unfold onDocument
  cases hget : ds[i]? with
  | none =>
      refine Safe.pure.known.mono ?_
      rintro n ds' s ⟨⟨-, hds⟩, hk, rfl⟩ d hd
      exact (hds d hd).of_le hk
  | some d =>
      have hd : (P ∧ ∀ e ∈ ds, e.Sound L k) → P ∧ d.Sound L k :=
        fun hP => ⟨hP.1, hP.2 d (List.mem_of_getElem? hget)⟩
      refine (((h d).weaken hd).known.map fun d' => ds.set i d').mono ?_
      rintro n ds' s ⟨d', rfl, ⟨-, hds⟩, hk, hd'⟩ e he
      -- The other documents hold blocks that were there before.
      rcases List.mem_or_eq_of_mem_set he with he | rfl
      · exact (hds e he).of_le hk
      · exact hd'

/-- Reading or finalizing a document leaves its fields as they are. -/
theorem safeDocument_of_builds {d : Document} {p : Run Document}
    (h : Builds L p fun d' => d'.content = d.content) : SafeDocument L k P d p := by
  refine (Safe.of_builds h).known.mono ?_
  rintro n d' s ⟨⟨-, hd⟩, hk, hcontent⟩
  refine ⟨?_, ?_⟩
  · rw [hcontent]
    exact hd.recorded
  · rw [hcontent]
    exact (hd.of_le hk).held

/-- Actions are safe. -/
theorem safe_perform (hL : LeafRule L) (stack : BlockStack) (ds : List Document) (a : Action) :
    Safe L k ((∀ id ∈ stack, id < k) ∧ ∀ d ∈ ds, d.Sound L k) (a.perform stack ds)
      fun _ ds' s => ∀ d ∈ ds', d.Sound L s.blocks.size := by
  -- Some actions leave the documents as they are.
  have hsame : ∀ {α : Type} {P' : Prop} {p : Run α} {Q : Nat → α → Session → Prop},
      (P' → ∀ d ∈ ds, d.Sound L k) → Safe L k P' p Q →
        Safe L k P' (do let _ ← p; pure ds) fun _ ds' s => ∀ d ∈ ds', d.Sound L s.blocks.size := by
    intro α P' p Q hP hp
    refine (hp.known.map fun _ => ds).mono ?_
    rintro n ds' s ⟨u, rfl, hP', hk, -⟩ d hd
    exact (hP hP' d hd).of_le hk
  cases a with
  | build e => exact hsame And.right (Safe.of_builds (builds_expr hL stack e))
  | statement st depth =>
      exact hsame And.right ((safe_exec hL (safe_runAt hL depth) st k stack).weaken And.left)
  | compile tree =>
      refine Safe.builds_bind (builds_expr hL stack tree) fun v => ?_
      exact hsame (fun hP => hP.1.2) (safe_toMap hL v)
  | make encoding pretty =>
      refine Safe.builds_bind (builds_given hL stack encoding) fun encoding => ?_
      refine Safe.builds_bind (builds_given hL stack pretty) fun pretty => ?_
      refine ((Safe.of_builds (builds_make encoding pretty)).known.map fun d => ds ++ [d]).mono ?_
      rintro n ds' s ⟨d, rfl, ⟨⟨⟨-, hds⟩, -⟩, -⟩, hk, hd⟩ e he
      rcases List.mem_append.mp he with he | he
      · exact (hds e he).of_le hk
      · rw [List.mem_singleton.mp he]
        exact Document.Sound.of_nil hd
  | map i tree =>
      refine Safe.builds_bind (builds_expr hL stack tree) fun v => ?_
      refine (safe_onDocument ds i fun d =>
        safe_document_map (P := ∀ id ∈ stack, id < k) hL d v).weaken ?_
      rintro ⟨⟨hstack, hds⟩, hmade⟩
      exact ⟨⟨hstack, hmade⟩, hds⟩
  | field i name tree =>
      refine Safe.builds_bind (builds_expr hL stack name) fun name => ?_
      refine Safe.builds_bind (builds_expr hL stack tree) fun v => ?_
      refine (safe_onDocument ds i fun d =>
        safe_document_field (P := ∀ id ∈ stack, id < k) hL d name v).weaken ?_
      rintro ⟨⟨⟨hstack, hds⟩, -⟩, hmade⟩
      exact ⟨⟨hstack, hmade⟩, hds⟩
  | asMap i =>
      exact safe_onDocument ds i fun d =>
        safeDocument_of_builds (builds_map (builds_asMap d) fun _ _ => rfl)
  | toBytes i =>
      exact safe_onDocument ds i fun d =>
        safeDocument_of_builds (builds_map (builds_toBytes d) fun _ h => h)
  | toText i =>
      exact safe_onDocument ds i fun d =>
        safeDocument_of_builds (builds_map (builds_toText d) fun _ h => h)
  | writeTo i stream =>
      exact safe_onDocument ds i fun d =>
        safeDocument_of_builds (builds_map (builds_writeTo d stream) fun _ h => h)
  | configure encoding pretty =>
      refine Safe.builds_bind (builds_given hL stack encoding) fun encoding => ?_
      refine Safe.builds_bind (builds_given hL stack pretty) fun pretty => ?_
      exact hsame (fun hP => hP.1.1.2) (Safe.of_builds (builds_configure encoding pretty))

/-- A move loses nothing that was recorded. -/
theorem Moves.onward (hL : LeafRule L) {l l' : Library} (h : Moves l l') :
    l.session.Onward l'.session := by
  cases h with
  | performs a =>
      exact (safe_perform (k := 0) hL l.stack l.documents a _ _ _ (yields_run _ _)).1
  | enters => exact .opened _
  | turns stack h => exact .refl _

/-- A move keeps a library sound, and moves no block. -/
theorem Moves.sound (hL : LeafRule L) {l l' : Library} (h : Moves l l') (hl : l.Sound L)
    (hleaves : ∀ v ∈ l'.session.leaves, L v) :
    l'.Sound L ∧ Keeps l.session l'.session := by
  cases h with
  | performs a =>
      rcases safe_perform (k := l.session.blocks.size) hL l.stack l.documents a _ _ _
        (yields_run _ _) with ⟨-, hsafe⟩
      rcases hsafe ⟨hl.stack, hl.documents⟩ hl.session (Nat.le_refl _) hleaves with
        ⟨hs, hkeeps, hds⟩
      -- A failed action leaves the documents, and the blocks they refer to are still there.
      have hkept : ∀ r : Except Failure (List Document),
          (∀ ds, r = .ok ds → ∀ d ∈ ds, d.Sound L (l.after a).session.blocks.size) →
            ∀ d ∈ r.toOption.getD l.documents, d.Sound L (l.after a).session.blocks.size := by
        intro r hr
        cases r with
        | ok ds => exact hr ds rfl
        | error e => exact fun d hd => (hl.documents d hd).of_le hkeeps.size
      exact ⟨⟨hs, fun id hid => Nat.lt_of_lt_of_le (hl.stack id hid) hkeeps.size,
        hkept _ hds⟩, hkeeps⟩
  | enters =>
      have hkeeps := l.session.keeps_opened
      refine ⟨⟨hl.session.opened, ?_, fun d hd => (hl.documents d hd).of_le hkeeps.size⟩, hkeeps⟩
      intro id hid
      change id < l.session.opened.blocks.size
      rw [Session.size_opened]
      rcases List.mem_cons.mp hid with rfl | hid
      · exact Nat.lt_succ_self _
      · exact Nat.lt_succ_of_lt (hl.stack id hid)
  | turns stack h => exact ⟨⟨hl.session, h, hl.documents⟩, Keeps.refl _⟩

namespace Library

theorem sound_initial : initial.Sound L where
  session := by
    have hnone : ∀ i, Session.initial.fields i = [] := fun _ => rfl
    constructor
    case filled => exact fun i f hf => absurd hf List.not_mem_nil
    case names => exact fun i => List.nodup_nil
    case ordered => exact fun i j hij => absurd hij List.not_mem_nil
    case once => exact fun i => List.nodup_nil
    case owner => exact fun i k j hij => absurd hij List.not_mem_nil
    case kept => exact fun k hk => absurd hk List.not_mem_nil
  stack := fun id hid => absurd hid List.not_mem_nil
  documents := fun d hd => absurd hd List.not_mem_nil

/-- Later states have lost nothing that was recorded. -/
theorem Later.onward (hL : LeafRule L) {l l' : Library} (h : l.Later l') :
    l.session.Onward l'.session := by
  induction h with
  | refl => exact .refl _
  | tail _ hmove ih => exact ih.trans (hmove.onward hL)

/-- What later states keep, by induction along the moves. -/
theorem Later.sound (hL : LeafRule L) {l l' : Library} (h : l.Later l') (hl : l.Sound L)
    (hleaves : ∀ v ∈ l'.session.leaves, L v) : l'.Sound L ∧ Keeps l.session l'.session := by
  induction h with
  | refl => exact ⟨hl, Keeps.refl _⟩
  | tail _ hmove ih =>
      rcases ih fun v hv => hleaves v ((hmove.onward hL).leaves v hv) with ⟨hm, hkeeps⟩
      rcases hmove.sound hL hm hleaves with ⟨hl', hkeeps'⟩
      exact ⟨hl', hkeeps.trans hkeeps'⟩

/-- Every state that is reached is sound. -/
theorem Reached.sound (hL : LeafRule L) {l : Library} (h : l.Reached)
    (hleaves : ∀ v ∈ l.session.leaves, L v) : l.Sound L :=
  (Later.sound hL h sound_initial hleaves).1

end Library

end

end Docket
