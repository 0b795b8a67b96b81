import Docket.Payload
import Docket.Proofs.Text.Utf8
import Docket.Proofs.Yaml.Readable
import Docket.Proofs.Yaml.Trees

/-!
# YAML and back

What a tree stands for is written as YAML and read back as it was, but for dates and
points in time, which come back as texts. Unlike the other encodings, this one has texts
that do not come back: the writer and the reader disagree about them, so that they come
back changed or are not read at all.

The tree that is written stands for the data, its tokens are collected and composed
again, and its graph stands for the data too, each step by itself. Only the first step
from the tree to its tokens needs the texts to survive.

## Theorems

* `readYamlText_write`: A document that survives is read back.
* `yaml_reads_back`: What a tree stands for is written and read back, if its texts
  survive.
* `nextLineTree_comes_back_changed`: A text that does not survive.
-/

namespace Docket

/-- A document is read as the data that it stands for. -/
theorem readYamlText_write {entries : List (YamlNode × YamlNode)} {v : Value}
    (hstands : (YamlNode.map .map entries).Stands v)
    (hsurvives : (YamlNode.map .map entries).Survives 0) :
    readYamlText (YamlNode.map .map entries).write = .ok v := by
  have hcomposes := hsurvives.composes
  cases hsurvives with
  | map hkeys hvalues =>
      have hreadable := List.all_eq_true.mpr (YamlNode.isReadable_write hkeys hvalues .map)
      unfold readYamlText
      rw [hreadable, YamlNode.yamlTokens_write .map hkeys hvalues,
        YamlNode.ofTokens_tokens hcomposes]
      exact hstands.data_eq

/-- What stands for a mapping is a map. -/
theorem YamlNode.Stands.eq_map {n : YamlNode} {v : Value} (h : n.Stands v)
    {es : List (Value × Value)} (heq : v = .dict es) : ∃ entries, n = .map .map entries := by
  cases h with
  | scalar htag h => exact absurd heq nofun
  | list h => exact absurd heq nofun
  | map hnames h => exact ⟨_, rfl⟩

/-- The bytes of a document begin with its mark, so they are never taken for another
    encoding of texts. -/
theorem readYaml_write {entries : List (YamlNode × YamlNode)} {v : Value}
    (hread : readYamlText (YamlNode.map .map entries).write = .ok v) :
    readYaml (encodeUtf8 (YamlNode.map .map entries).write) = .ok v := by
  have hbegins : ∃ rest, (YamlNode.map .map entries).write = '-' :: rest := by
    cases entries with
    | nil => exact ⟨_, rfl⟩
    | cons e rest => exact ⟨_, rfl⟩
  obtain ⟨rest, hbegins⟩ := hbegins
  rw [hbegins] at hread ⊢
  unfold readYaml
  rw [decodeYamlBytes_encodeUtf8 ⟨by decide, by decide⟩]
  dsimp only
  rw [hread]
  rfl

theorem Content.write_yaml_eq {c : Content} {n : YamlNode} (h : c.toYaml? = some n)
    (layout : JsonLayout) : c.write .yaml layout = .ok (encodeUtf8 n.write) := by
  unfold Content.write Content.writeYaml
  rw [h]
  rfl

/-- What a tree stands for is written as YAML and read back, as long as no leaf node was
    made by hand from something else than a leaf, no integer is too long, all names are
    plain texts, and all texts survive. -/
theorem yaml_reads_back (l : Library) (h : l.Reached) (tree : Expr) (m : Value) (s : Session)
    (hrun : Yields (do let v ← tree.build l.stack; toMap v) l.session (.ok m) s)
    (hleaves : ∀ v ∈ s.leaves, v.IsLeaf) (hnormal : (s.snapshot m).Normalizable)
    (hshort : (s.snapshot m).Short) (hplain : (s.snapshot m).hasPlainNames = true)
    (hsurvives : (s.snapshot m).written.survivesYaml 0 = true) :
    ∀ layout, (s.snapshot m).RoundTripsAs .yaml layout := by
  intro layout
  have hdata := h.isData hrun hleaves
  rcases hdata.prepares_ok hnormal with ⟨c, hc⟩
  obtain ⟨n, htree, hstands, hsafe⟩ := hdata.hasTree hshort hplain c hc
  -- What is compiled are fields, so the document is a map.
  obtain ⟨fs, hfs, -⟩ := h.compiled hrun hleaves
  obtain ⟨entries, rfl⟩ := hstands.eq_map (hfs ▸ fs.written_toValue)
  refine ⟨_, yields_encode hc (Content.write_yaml_eq htree layout), ?_⟩
  refine decode_of_load ?_
  rw [Encoding.load_yaml, readYaml_write (readYamlText_write hstands (hsafe 0 hsurvives))]

/-- Texts that look like something else, with blanks at their ends, with quotes, with
    line breaks, empty, or longer than a line. -/
def oddTexts : List String :=
  ["", "true", "12", "1e3", "2014-11-01", "<<", "=", "- a", "b: c", "d #e", "---", " f", "g ",
    "it's", "h\n\n i", "j\u2028k", "\u0007 \u00A0", "größe ✓",
    "words that go on beyond the eightieth column, behind which a line has to be folded"]

/-- Such texts as names and in lists, numbers of both kinds, a date, and a body. -/
def almanacTree : Expr :=
  .mapping .plain [
    (.scalar (.text "texts" .plain),
      .items .list (oddTexts.map fun s => .scalar (.text s .plain))),
    (.scalar (.text "names" .plain), .mapping .plain
      ((oddTexts.drop 6).map fun s => (.scalar (.text s .plain), .items .list []))),
    (.scalar (.text "counts" .plain), .items .list
      [.scalar (.int (-12) .plain), .scalar (.float (Binary64.ofCode true 0) .plain),
        .scalar (.date ⟨2024, 2, 29⟩)]),
    (.scalar (.text "lines" .plain), .items .list
      [.body (.mk (.named "line") [.set ["x"] (.scalar .null)])])]

theorem almanacTree_reads_back :
    (Yields (do let v ← almanacTree.build Library.initial.stack; toMap v) Library.initial.session
        (.ok ((compileAlone almanacTree).1.toOption.getD .null)) (compileAlone almanacTree).2 ∧
      (∀ v ∈ (compileAlone almanacTree).2.leaves, v.IsLeaf) ∧ almanacTree.data.Normalizable ∧
      almanacTree.data.Short ∧ almanacTree.data.hasPlainNames = true ∧
      almanacTree.data.written.survivesYaml 0 = true) ∧
    ∀ layout, almanacTree.data.RoundTripsAs .yaml layout := by
  have hrun := yields_compileAlone almanacTree (by decide +kernel)
  have hleaves := (compileAlone almanacTree).2.isLeaf_of_size (by decide +kernel)
  have hnormal : almanacTree.data.Normalizable := by decide +kernel
  have hshort : almanacTree.data.Short := by decide +kernel
  have hplain : almanacTree.data.hasPlainNames = true := by decide +kernel
  have hsurvives : almanacTree.data.written.survivesYaml 0 = true := by decide +kernel
  exact ⟨⟨hrun, hleaves, hnormal, hshort, hplain, hsurvives⟩,
    yaml_reads_back .initial Relation.ReflTransGen.refl almanacTree _ _ hrun hleaves hnormal hshort
      hplain hsurvives⟩

/-- A text with the line break that is read as another one. -/
def nextLineTree : Expr :=
  .mapping .plain [(.scalar (.text "k" .plain), .scalar (.text "x\u0085y" .plain))]

/-- The tree that its content is written as. -/
def nextLineNode : YamlNode := .map .map [(.ofText "k", .ofText "x\u0085y")]

/-- The line break is written once, and a reader takes a single one for a blank. -/
theorem readYamlText_nextLine :
    readYamlText nextLineNode.write = .ok (.dict [(.text "k", .text "x y")]) := by
  have hreadable : nextLineNode.write.all isYamlReadable = true := by decide +kernel
  have hgraph : (YamlGraph.ofTokens (yamlTokens nextLineNode.write)).toOption =
      some (some (((YamlNode.map .map [(.ofText "k", .ofText "x y")]).points 0).toArray, 0)) := by
    decide +kernel
  have hstands : (YamlNode.map .map [(.ofText "k", .ofText "x y")]).Stands
      (.dict [(.text "k", .text "x y")]) :=
    @YamlNode.Stands.map [("k", .ofText "x y", .text "x y")] (by decide)
      (List.forall_mem_singleton.mpr (.scalar rfl rfl))
  unfold readYamlText
  rw [hreadable]
  cases hread : YamlGraph.ofTokens (yamlTokens nextLineNode.write) with
  | error f =>
      rw [hread] at hgraph
      cases hgraph
  | ok document =>
      rw [hread] at hgraph
      rw [Option.some.inj hgraph]
      exact hstands.data_eq

/-- Its data has no other fault, but it comes back changed. -/
theorem nextLineTree_comes_back_changed :
    (Yields (do let v ← nextLineTree.build Library.initial.stack; toMap v) Library.initial.session
        (.ok ((compileAlone nextLineTree).1.toOption.getD .null)) (compileAlone nextLineTree).2 ∧
      (∀ v ∈ (compileAlone nextLineTree).2.leaves, v.IsLeaf) ∧ nextLineTree.data.Normalizable ∧
      nextLineTree.data.Short ∧ nextLineTree.data.hasPlainNames = true) ∧
    nextLineTree.data.written = .dict [(.text "k", .text "x\u0085y")] ∧
    (∃ payload, (∀ layout s, Yields (encode nextLineTree.data .yaml layout) s (.ok payload) s) ∧
      decode (.bytes payload) (some .yaml) = .ok (.dict [(.text "k", .text "x y")])) ∧
    ∀ layout, ¬ nextLineTree.data.RoundTripsAs .yaml layout := by
  have hrun := yields_compileAlone nextLineTree (by decide +kernel)
  have hleaves := (compileAlone nextLineTree).2.isLeaf_of_size (by decide +kernel)
  have hprepare : nextLineTree.data.prepare =
      .ok (.map [(.text "k", .text "x\u0085y" .plain)]) := by rfl
  have htree : Content.toYaml? (.map [(.text "k", .text "x\u0085y" .plain)]) =
      some nextLineNode := by rfl
  have hwritten : nextLineTree.data.written = .dict [(.text "k", .text "x\u0085y")] := by rfl
  have hencode := fun layout => yields_encode hprepare (Content.write_yaml_eq htree layout)
  have hdecode : decode (.bytes (encodeUtf8 nextLineNode.write)) (some .yaml) =
      .ok (.dict [(.text "k", .text "x y")]) := by
    refine decode_of_load ?_
    rw [Encoding.load_yaml, nextLineNode, readYaml_write readYamlText_nextLine]
  refine ⟨⟨hrun, hleaves, by decide +kernel, by decide +kernel, by decide +kernel⟩, hwritten,
    ⟨_, hencode, hdecode⟩, ?_⟩
  rintro layout ⟨payload, hpayload, hback⟩
  -- There is one payload only, and it is not read as what was written.
  obtain rfl := Except.ok.inj
    (yields_unique (hencode layout Library.initial.session) (hpayload _)).1
  rw [hdecode, hwritten] at hback
  have hsame : (Value.dict [(.text "k", .text "x y")]) = .dict [(.text "k", .text "x\u0085y")] :=
    Except.ok.inj hback
  simp [Value.dict, Value.text] at hsame

end Docket
