import Docket.Proofs.Document.Course

/-!
# Compiled trees are fixed points

What a tree is compiled to, as long as no leaf node was made by hand from something
else than a leaf, is data: mappings whose keys are texts, lists and plain leaves.
Data is its own tree, so compiling it again changes nothing, neither the order of
the names at any level nor the session.

For a document it makes no difference whether it takes over a tree, the data that
the tree was compiled to, or the fields of that data one by one. The fields that it
had before may hold blocks, and the tree may bring blocks along where data has their
fields; what is seen in the document is the same.

## Main definitions

* `Document.fieldByField`: Sets fields one after another.

## Theorems

* `Session.snapshot_of_isData`: Data is seen as it is.
* `Document.yields_fieldByField`: Setting fields one after another merges them.
* `yields_toMap_of_isData`: Fields of data are compiled to themselves.
* `compiled_is_fixed`: What a tree was compiled to is a fixed point.
-/

namespace Docket

/-- Sets fields one after another, each to its own value. -/
def Document.fieldByField (d : Document) : Fields → Run Document
  | [] => return d
  | f :: rest => do (← d.field f.1.toValue f.2).fieldByField rest

section

variable {s : Session} {m : Value} {fs : Fields}

/-- Data is seen as it is, since it holds no block. -/
theorem Session.snapshot_of_isData (s : Session) {v : Value} (h : v.IsData) :
    s.snapshot v = v := by
  unfold Session.snapshot
  rw [Value.expand, Value.mapLive_free h.held]

theorem Session.seen_of_isData (s : Session) (h : ∀ f ∈ fs, f.2.IsData) : s.seen fs = fs := by
  have hsame : ∀ f ∈ fs, (f.1, s.snapshot f.2) = id f := fun f hf =>
    congrArg (Prod.mk f.1) (s.snapshot_of_isData (h f hf))
  unfold Session.seen
  rw [List.map_congr_left hsame, List.map_id]

/-- What is seen as data stands for what is seen of it. -/
theorem yields_fieldValue_of_isData (name : Name) {v : Value} (h : (s.snapshot v).IsData) :
    Yields (Document.fieldValue name v) s (.ok (s.snapshot v)) s := by
  -- Data is classified and resolved alike in all sessions.
  rcases h.copied name with ⟨n, -, hclassify, hresolve⟩
  unfold Document.fieldValue toNode Node.evaluate
  rw [bind_assoc, yields_bind_ok (yields_get.mpr ⟨rfl, rfl⟩), yields_bind_ok (hclassify s)]
  exact hresolve _ s

/-- Setting fields one after another merges them as they are seen. -/
theorem Document.yields_fieldByField {d : Document} (hopen : d.isClosed = false)
    (h : ∀ f ∈ fs, (s.snapshot f.2).IsData) :
    Yields (d.fieldByField fs) s (.ok { d with content := d.content.merge (s.seen fs) }) s := by
  induction fs generalizing d with
  | nil => exact yields_pure.mpr ⟨rfl, rfl⟩
  | cons f rest ih =>
      rw [List.forall_mem_cons] at h
      have hfield : Yields (d.field f.1.toValue f.2) s
          (.ok { d with content := d.content.set f.1 (s.snapshot f.2) }) s :=
        Document.yields_field_ok.mpr ⟨hopen, _, yields_fieldValue_of_isData f.1 h.1, rfl⟩
      rw [Document.fieldByField, yields_bind_ok hfield]
      exact ih hopen h.2

/-- Fields of data are compiled to themselves. -/
theorem yields_toMap_of_isData (hm : s.snapshot m = fs.toValue) (hnames : fs.names.Nodup)
    (h : ∀ f ∈ fs, f.2.IsData) : Yields (toMap m) s (.ok fs.toValue) s := by
  rcases copied_fields hnames (fun f hf => (h f hf).copied) (.ofText "") with
    ⟨ns, -, hclassify, hresolve⟩
  have hnode : Yields (toNode m (.ofText "")) s (.ok (.mapping ns)) s := by
    unfold toNode
    rw [yields_bind_ok (yields_get.mpr ⟨rfl, rfl⟩), hm, Fields.toValue, Value.dict,
      Value.classify, yields_bind_ok (hclassify s)]
    exact yields_pure.mpr ⟨rfl, rfl⟩
  unfold toMap
  rw [yields_bind_ok hnode]
  -- A mapping is a document, which is decided by evaluation.
  change Yields ((Node.mapping ns).resolve _) s _ s
  have hfields := hresolve (Body.runAt ((Node.mapping ns).depth + replayDepth) []) s []
    fun n hn => absurd hn List.not_mem_nil
  rw [Node.resolve, yields_bind_ok hfields]
  exact yields_pure.mpr ⟨rfl, rfl⟩

end

/-- What a tree was compiled to is a fixed point: it consists of data only, it is
    compiled to itself, and an open document that takes over the tree, what it was
    compiled to, or the fields of that one by one, is seen to have the same content. -/
theorem compiled_is_fixed (l : Library) (h : l.Reached) (tree : Expr) (m : Value) (s : Session)
    (hrun : Yields (do let v ← tree.build l.stack; toMap v) l.session (.ok m) s)
    (hleaves : ∀ v ∈ s.leaves, v.IsLeaf) :
    (∃ fs : Fields, s.snapshot m = fs.toValue ∧ fs.names.Nodup ∧ ∀ f ∈ fs, f.2.IsData) ∧
    Yields (toMap m) s (.ok (s.snapshot m)) s ∧
    ∀ d : Document, d.isClosed = false → ∃ d₁ d₂ d₃,
      Yields (do let v ← tree.build l.stack; d.map v) l.session (.ok d₁) s ∧
      Yields (d.map m) s (.ok d₂) s ∧
      Yields (do let fs ← topFields m; d.fieldByField fs) s (.ok d₃) s ∧
      s.snapshot d₁.content.toValue = s.snapshot d₂.content.toValue ∧
      s.snapshot d₃.content.toValue = s.snapshot d₂.content.toValue := by
  rcases h.compiled hrun hleaves with ⟨fs, hfs, hnames, hdata⟩
  have hagain : Yields (toMap m) s (.ok fs.toValue) s := yields_toMap_of_isData hfs hnames hdata
  rw [hfs]
  refine ⟨⟨fs, rfl, hnames, hdata⟩, hagain, fun d hopen => ?_⟩
  -- What the document takes over may hold blocks, but is seen as the fields of data.
  rcases yields_bind_eq_ok.mp hrun with ⟨v, u, hbuild, hmap⟩
  rcases safe_compile isLeaf_leafRule (P := True) (k := 0) l.stack tree _ _ _ hrun with
    ⟨honward, hsafe⟩
  have hsound := h.sound isLeaf_leafRule fun w hw => hleaves w (honward.leaves w hw)
  rcases hsafe trivial hsound.session (Nat.zero_le _) hleaves with ⟨hs, -, hm⟩
  rcases Document.exists_topFields m s with ⟨news, hnews⟩
  have hseen : s.seen news = fs := Fields.toValue_injective
    ((Library.snapshot_of_topFields hs.ordered (hm m rfl).2 hnews).symm.trans hfs)
  have hshown : ∀ f ∈ news, (s.snapshot f.2).IsData := fun f hf =>
    hdata (f.1, s.snapshot f.2) (hseen ▸ List.mem_map_of_mem hf)
  refine ⟨{ d with content := d.content.merge news }, { d with content := d.content.merge fs },
    { d with content := d.content.merge (s.seen news) }, ?_, ?_, ?_, ?_, ?_⟩
  · rw [yields_bind_ok hbuild]
    exact Document.yields_map_ok.mpr ⟨hopen, m, news, hmap, hnews, rfl⟩
  · refine Document.yields_map_ok.mpr ⟨hopen, fs.toValue, fs, hagain, ?_, rfl⟩
    rw [topFields_toValue]
    exact yields_pure.mpr ⟨rfl, rfl⟩
  · rw [yields_bind_ok hnews]
    exact Document.yields_fieldByField hopen hshown
  · rw [Session.snapshot_toValue hs.ordered, Session.snapshot_toValue hs.ordered,
      s.seen_merge, s.seen_merge, hseen, s.seen_of_isData hdata]
  · rw [hseen]

/-- A body within a body, a generator, a set, and a name that is repeated. -/
def cartTree : Expr :=
  .mapping .pairs [
    (.scalar (.text "sum" .plain), .scalar (.int 3 .derived)),
    (.scalar (.text "lines" .plain), .generator [.items .set [.scalar (.int 1 .plain)],
      .body (.mk (.named "line") [.set ["unit"] (.scalar (.text "kg" .plain)),
        .set ["part"] (.body (.mk (.named "part") [.set ["from_"] (.scalar .null)]))])] none),
    (.scalar (.text "sum" .plain), .scalar (.int 4 .plain))]

theorem cartTree_is_fixed :
    Yields (do let v ← cartTree.build Library.initial.stack; toMap v) Library.initial.session
        (.ok ((compileAlone cartTree).1.toOption.getD .null)) (compileAlone cartTree).2 ∧
    (∀ v ∈ (compileAlone cartTree).2.leaves, v.IsLeaf) ∧
    cartTree.data = .dict [(.text "sum", .int 4), (.text "lines", .list [.list [.int 1],
      .dict [(.text "unit", .text "kg"), (.text "part", .dict [(.text "from", .null)])]])] ∧
    Yields (toMap ((compileAlone cartTree).1.toOption.getD .null)) (compileAlone cartTree).2
      (.ok cartTree.data) (compileAlone cartTree).2 ∧
    ∀ d : Document, d.isClosed = false → ∃ d₁ d₂ d₃,
      Yields (do let v ← cartTree.build []; d.map v) .initial (.ok d₁) (compileAlone cartTree).2 ∧
      Yields (d.map ((compileAlone cartTree).1.toOption.getD .null)) (compileAlone cartTree).2
        (.ok d₂) (compileAlone cartTree).2 ∧
      Yields (do
          let fs ← topFields ((compileAlone cartTree).1.toOption.getD .null)
          d.fieldByField fs) (compileAlone cartTree).2 (.ok d₃) (compileAlone cartTree).2 ∧
      (compileAlone cartTree).2.snapshot d₁.content.toValue =
        (compileAlone cartTree).2.snapshot d₂.content.toValue ∧
      (compileAlone cartTree).2.snapshot d₃.content.toValue =
        (compileAlone cartTree).2.snapshot d₂.content.toValue := by
  -- The tree is compiled by computing, and the theorem then says what was found.
  have hrun := yields_compileAlone cartTree (by decide +kernel)
  have hleaves : ∀ v ∈ (compileAlone cartTree).2.leaves, v.IsLeaf :=
    Session.isLeaf_of_size (by decide +kernel)
  have hfixed := compiled_is_fixed .initial Relation.ReflTransGen.refl cartTree _ _ hrun hleaves
  exact ⟨hrun, hleaves, Value.eq_of_sameData (by decide +kernel), hfixed.2⟩

end Docket
