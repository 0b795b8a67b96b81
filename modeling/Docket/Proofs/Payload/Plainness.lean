import Docket.Proofs.Document.Course
import Docket.Proofs.Payload.Detection
import Docket.Proofs.Payload.Forms
import Docket.Proofs.Yaml.RoundTrip

/-!
# Plain data for the writers

What a tree is compiled to consists of plain data, whatever the forms are in which its
parts were offered: leaves are put in plain form when they are classified, and numbers
that are not finite are refused then. Leaf nodes that were made by hand are taken as they
are, so this is said of trees in which they hold such leaves already. Names are texts,
but keep their form.

Hence a tree has the same payload as the tree in plain form, and the four encodings can
write the same trees, apart from integers that do not fit into eight bytes and sizes that
do not fit into four. Neither is affected by the forms of leaves, but the writer of YAML
refuses names that are not in plain form.

## Main definitions

* `Content.Normal`: Content that consists of plain data.
* `Expr.Finishes`: A tree has a payload.
* `Expr.WrittenPlainly`: What forms have to do with the payloads of a tree.

## Theorems

* `Value.IsData.normal`: Data is prepared as plain data.
* `finishes_bare`, `finishes_of_bare`: Payloads in plain form.
* `Fields.write_ok`: All encodings write data whose integers fit.
* `tree_written_plainly`: Forms are of no consequence to payloads.
* `memberLeafTree_refused`: A leaf node made by hand that holds another form.
-/

namespace Docket

/-! ## Plain data -/

/-- Content of plain data: leaves in plain form and finite, lists, and mappings from
    distinct texts whose names have a property. -/
inductive Content.Normal (K : Name → Prop) : Content → Prop
  | null : Content.Normal K .null
  | bool (b : Bool) : Content.Normal K (.bool b)
  | int (n : Int) : Content.Normal K (.int n .plain)
  | float {x : Binary64} (h : x.isFinite = true) : Content.Normal K (.float x .plain)
  | text (s : String) : Content.Normal K (.text s .plain)
  | list {cs : List Content} (h : ∀ c ∈ cs, Content.Normal K c) : Content.Normal K (.list cs)
  | map {es : List (Name × Content)} (hnames : (es.map (·.1.text)).Nodup) (hkeys : ∀ e ∈ es, K e.1)
      (h : ∀ e ∈ es, Content.Normal K e.2) :
      Content.Normal K (.map (es.map fun e => (e.1.toValue, e.2)))

theorem bareContents_eq (cs : List Content) : bareContents cs = cs.map Content.bare := by
  induction cs with
  | nil => rfl
  | cons c rest ih => rw [bareContents, ih, List.map_cons]

theorem bareContentEntries_eq (es : List (Value × Content)) :
    bareContentEntries es = es.map fun e => (e.1.bare, e.2.bare) := by
  induction es with
  | nil => rfl
  | cons e rest ih => rw [bareContentEntries, ih, List.map_cons]

/-- Plain data whose names are plain is in plain form. -/
theorem Content.Normal.bare_eq {c : Content} (h : c.Normal (·.form = .plain)) : c.bare = c := by
  induction h with
  | null => rfl
  | bool b => rfl
  | int n => rfl
  | float h => rfl
  | text s => rfl
  | list h ih => rw [Content.bare, bareContents_eq, List.map_congr_left ih, List.map_id']
  | map hnames hkeys h ih =>
      rw [Content.bare, bareContentEntries_eq, List.map_map]
      refine congrArg Content.map (List.map_congr_left fun e he => Prod.ext ?_ (ih e he))
      rcases e with ⟨⟨text, form⟩, c⟩
      obtain rfl : form = .plain := hkeys _ he
      rfl

/-- Data is prepared as plain data, and its names are plain if they were. -/
theorem Value.IsData.normal {v : Value} (h : v.IsData) {p : Prop} :
    (p → v.hasPlainNames = true) → ∀ c, v.prepare = .ok c →
      c.Normal fun name => p → name.form = .plain := by
  induction h with
  | @scalar s h =>
      intro _ c hc
      rcases Scalar.prepare_cases h hc with
        ⟨rfl, rfl⟩ | ⟨b, rfl, rfl⟩ | ⟨n, rfl, rfl⟩ | ⟨x, rfl, hfinite, rfl⟩ | ⟨t, -, rfl⟩
      · exact .null
      · exact .bool b
      · exact .int n
      · exact .float hfinite
      · exact .text t
  | @list xs h ih =>
      intro hplain c hc
      rw [Value.list, Value.hasPlainNames, itemsHavePlainNames_iff] at hplain
      obtain ⟨ps, rfl, -, hnormal⟩ := Value.prepare_list_pairs
        (P := fun c _ => c.Normal fun name => p → name.form = .plain)
        (fun v hv => ih v hv fun hp => hplain hp v hv) hc
      exact .list (List.forall_mem_map.mpr hnormal)
  | @fields fs hnames h ih =>
      intro hplain c hc
      rw [hasPlainNames_fields] at hplain
      obtain ⟨ps, rfl, hps, hnormal⟩ := Fields.prepare_pairs
        (P := fun c _ => c.Normal fun name => p → name.form = .plain)
        (fun f hf => ih f hf fun hp => (hplain hp f hf).2) hc
      -- The entries are under the names of the fields, which are as distinct and as plain.
      have hmap : Content.Normal (fun name => p → name.form = .plain)
          (.map ((ps.map fun p => (p.1, p.2.1)).map fun e => (e.1.toValue, e.2))) := by
        refine .map ?_ (List.forall_mem_map.mpr fun q hq hp => ?_) (List.forall_mem_map.mpr hnormal)
        · rw [List.map_map]
          exact names_of_pairs hps ▸ hnames
        · obtain ⟨f, hf, heq⟩ := mem_of_pairs hps hq
          exact heq ▸ (hplain hp f hf).1
      rw [List.map_map] at hmap
      exact hmap

/-! ## Payloads -/

/-- A tree that is built while some blocks are being recorded has a payload. -/
def Expr.Finishes (stack : BlockStack) (s : Session) (tree : Expr) (asked : Value)
    (payload : Bytes) : Prop :=
  ∃ s', Yields (do let v ← tree.build stack; toBytes v (some asked)) s (.ok payload) s'

section

variable {stack : BlockStack} {s t : Session} {tree : Expr} {asked : Value} {e : Encoding}
  {payload : Bytes}

/-- The payload of a tree is what the fields of the document are written as that it is
    made into. -/
theorem finishes_iff (hasked : Encoding.ofValue asked = .ok e) :
    tree.Finishes stack s asked payload ↔
      ∃ d t c, Yields (do let v ← tree.build stack; toDocument v (some asked)) s (.ok d) t ∧
        (t.snapshot d.content.toValue).prepare = .ok c ∧ c.write e d.layout = .ok payload := by
  constructor
  · rintro ⟨s', hrun⟩
    rcases yields_bind_eq_ok.mp hrun with ⟨v, m, hbuild, hbytes⟩
    unfold toBytes at hbytes
    rcases yields_bind_eq_ok.mp hbytes with ⟨d, t, hdocument, hrest⟩
    rcases yields_bind_eq_ok.mp hrest with ⟨⟨b, d'⟩, m', hfinal, hlast⟩
    -- The encoding asked for is the document's, and nothing has closed it yet.
    rcases toDocument_ok hasked hdocument with ⟨rfl, hopen⟩
    rcases Document.toBytes_ok hopen hfinal with ⟨⟨c, hprepare, hwrite⟩, -⟩
    obtain rfl : payload = b := Except.ok.inj (yields_pure.mp hlast).1
    exact ⟨d, t, c, yields_bind_eq_ok.mpr ⟨v, m, hbuild, hdocument⟩, hprepare, hwrite⟩
  · rintro ⟨d, t, c, hrun, hprepare, hwrite⟩
    rcases yields_bind_eq_ok.mp hrun with ⟨v, m, hbuild, hdocument⟩
    rcases toDocument_ok hasked hdocument with ⟨rfl, hopen⟩
    rcases Document.yields_toBytes_of_encode hopen (yields_encode hprepare hwrite t) with
      ⟨s', hfinal⟩
    refine ⟨s', (yields_bind_ok hbuild).mpr ((yields_bind_ok hdocument).mpr ?_)⟩
    exact (yields_bind_ok hfinal).mpr (yields_pure.mpr ⟨rfl, rfl⟩)

/-- The payload of a tree is that of the tree in plain form. -/
theorem finishes_bare (hst : s.Bares t) (hasked : Encoding.ofValue asked = .ok e)
    (h : tree.Finishes stack s asked payload) : tree.bare.Finishes stack t asked payload := by
  rw [finishes_iff hasked] at h ⊢
  rcases h with ⟨d, m, c, hrun, hprepare, hwrite⟩
  rcases (shadows_toDocument stack tree (some asked)).ok hst hrun with ⟨m', hrun', hm⟩
  have hbare := (m.snapshot d.content.toValue).prepare_bare
  rw [hprepare, ← hm.snapshot, Fields.toValue_bare] at hbare
  exact ⟨d.bare, m', c.bare, hrun', hbare.eq_ok, c.write_bare hwrite⟩

/-- The payload of the tree in plain form is that of the tree, if what is written is in
    plain form where that is asked for. -/
theorem finishes_of_bare (hst : s.Bares t) (hasked : Encoding.ofValue asked = .ok e)
    (hform : e = .yaml → ∀ d m c,
      Yields (do let v ← tree.build stack; toDocument v (some asked)) s (.ok d) m →
        (m.snapshot d.content.toValue).prepare = .ok c → c.bare = c)
    (h : tree.bare.Finishes stack t asked payload) : tree.Finishes stack s asked payload := by
  rw [finishes_iff hasked] at h ⊢
  rcases h with ⟨d', m', c', hrun', hprepare', hwrite⟩
  rcases (shadows_toDocument stack tree (some asked)).reflects hst hrun' with
    ⟨d, m, hrun, rfl, hm⟩
  -- Both documents are seen as the same data up to form, hence prepared alike.
  have hbare := (m.snapshot d.content.toValue).prepare_bare
  rw [← hm.snapshot, Fields.toValue_bare] at hbare
  change Resembles Content.bare _ (m'.snapshot d.bare.content.toValue).prepare at hbare
  rw [hprepare'] at hbare
  rcases hbare.exists_ok with ⟨c, hprepare, rfl⟩
  rw [Content.write_eq_bare fun he => hform he d m c hrun hprepare] at hwrite
  exact ⟨d, m, c, hrun, hprepare, hwrite⟩

end

/-! ## What is written of data -/

theorem Packable.short {n : Int} (h : Packable n) : n.natAbs < 10 ^ maxDigits := by
  have hbound : n.natAbs ≤ 2 ^ 64 := by
    unfold Packable at h
    omega
  have hdigits : 2 ^ 64 < 10 ^ 20 := by decide
  calc n.natAbs ≤ 2 ^ 64 := hbound
    _ < 10 ^ 20 := hdigits
    _ ≤ 10 ^ maxDigits := Nat.pow_le_pow_right (by decide) (by decide)

theorem Packable.byteWidth {n : Int} (h : Packable n) : byteWidth n.natAbs < 2 ^ 64 := by
  have hbound : n.natAbs ≤ 2 ^ 64 := by
    unfold Packable at h
    omega
  exact Nat.lt_of_le_of_lt (byteWidth_mono hbound) (by decide +kernel)

/-- Data is short if its integers fit into eight bytes. -/
theorem Value.short_of_packable {v : Value} (h : v.IntegersIn Packable) : v.Short := by
  intro n form hmem
  exact (h n (List.mem_filterMap.mpr ⟨_, hmem, rfl⟩)).short

/-- All encodings write data whose integers fit into eight bytes. -/
theorem Fields.write_ok {fs : Fields} (hnames : fs.names.Nodup) (hdata : ∀ f ∈ fs, f.2.IsData)
    {c : Content} (hprepare : fs.toValue.prepare = .ok c)
    (hint : fs.toValue.IntegersIn Packable) (hplain : fs.toValue.hasPlainNames = true)
    (hbelow : fs.toValue.written.Below (2 ^ 32)) (e : Encoding) (layout : JsonLayout) :
    ∃ payload, c.write e layout = .ok payload := by
  have hisData := Value.IsData.fields hnames hdata
  have hstands := hisData.stands c hprepare
  have hshort := Value.short_of_packable hint
  have hwritten : ∀ {P : Int → Prop},
      fs.toValue.IntegersIn P → fs.toValue.written.IntegersIn P := by
    intro P h
    rw [Value.IntegersIn, hisData.integers_written]
    exact h
  -- Sizes bound what CBOR and MessagePack can announce, plain names what YAML can write as keys,
  -- and digits what JSON can read back.
  cases e with
  | json =>
      rcases (Fields.roundTrips hnames hdata (hisData.normalizable c hprepare) layout).1 hshort with
        ⟨payload, hencode, -⟩
      rcases encode_ok (hencode .initial) with ⟨c', hprepare', hwrite, -⟩
      obtain rfl : c = c' := Except.ok.inj (hprepare.symm.trans hprepare')
      exact ⟨payload, hwrite⟩
  | yaml =>
      obtain ⟨n, htree, -⟩ := hisData.hasTree hshort hplain c hprepare
      exact ⟨_, Content.write_yaml_eq htree layout⟩
  | cbor =>
      have hsmall : fs.toValue.IntegersIn fun n => byteWidth n.natAbs < 2 ^ 64 :=
        fun n hn => (hint n hn).byteWidth
      have hlimit : fs.toValue.written.Below (2 ^ 64) :=
        fun n hn => Nat.lt_trans (hbelow n hn) (by decide)
      rcases hstands.writeCbor_ok hlimit (hwritten hsmall) with ⟨payload, hpayload⟩
      exact ⟨payload, Content.write_cbor_eq_ok.mpr hpayload⟩
  | msgpack =>
      have hsome := (hstands.writeMessagePack_iff hbelow).mpr (hwritten hint)
      rcases Option.isSome_iff_exists.mp hsome with ⟨payload, hpayload⟩
      exact ⟨payload, Content.write_msgpack_eq_ok.mpr hpayload⟩

/-! ## Documents of compiled trees -/

/-- Distinct fields are merged into none as they are. -/
theorem Fields.merge_nil {fs : Fields} (h : fs.names.Nodup) : merge [] fs = fs := by
  -- Stated with the fields already merged, as the induction needs them.
  have hmerge : ∀ done : Fields, (done ++ fs).names.Nodup → done.merge fs = done ++ fs := by
    clear h
    induction fs with
    | nil => exact fun done _ => (List.append_nil done).symm
    | cons f rest ih =>
        intro done h
        have hnew : f.1.text ∉ done.names := by
          have happend : names (done ++ f :: rest) = done.names ++ f.1.text :: names rest :=
            List.map_append
          rw [happend, List.nodup_append] at h
          exact fun hmem => h.2.2 _ hmem _ List.mem_cons_self rfl
        have hstep : done.merge (f :: rest) = (done.set f.1 f.2).merge rest := rfl
        have hassoc : done ++ f :: rest = (done ++ [f]) ++ rest := by
          rw [List.append_assoc, List.singleton_append]
        rw [hassoc] at h ⊢
        rw [hstep, Fields.set_of_not_mem f.2 hnew]
        exact ih (done ++ [f]) h
  exact hmerge [] h

/-- A new document has no fields, and the layout that is set. -/
theorem yields_make {asked : Value} {e : Encoding} (hasked : Encoding.ofValue asked = .ok e)
    {d : Document} {s s' : Session} :
    Yields (Document.make (some asked) none) s (.ok d) s' ↔
      ∃ config, s.settings.validate = .ok config ∧
        d = ⟨e, JsonLayout.ofValue (.bool config.pretty), [], none⟩ ∧ s' = s := by
  rcases Encoding.ofValue_eq_ok hasked with ⟨t, form, rfl⟩
  unfold Document.make
  constructor
  · intro h
    rcases yields_bind_eq_ok.mp h with ⟨config, m, hc, h⟩
    rcases yields_bind_eq_ok.mp h with ⟨e', m', he, h⟩
    obtain ⟨hvalid, hm⟩ := yields_configuration.mp hc
    obtain ⟨heq, hm'⟩ := yields_ofExcept.mp he
    obtain ⟨hd, hs'⟩ := yields_pure.mp h
    have he : e' = e := Except.ok.inj (heq.trans hasked)
    refine ⟨config, hvalid.symm, ?_, hs'.trans (hm'.trans hm)⟩
    rw [← he]
    exact Except.ok.inj hd
  · rintro ⟨config, hvalid, rfl, rfl⟩
    refine (yields_bind_ok (yields_configuration.mpr ⟨hvalid.symm, rfl⟩)).mpr ?_
    exact (yields_bind_ok (yields_ofExcept.mpr ⟨hasked.symm, rfl⟩)).mpr
      (yields_pure.mpr ⟨rfl, rfl⟩)

section

variable {l : Library} {tree : Expr} {v m : Value} {s u : Session}

/-- What a new document takes over from a compiled tree is seen as the data of the
    tree. -/
theorem Library.Reached.snapshot_merge (h : l.Reached)
    (hbuild : Yields (tree.build l.stack) l.session (.ok v) u)
    (hmap : Yields (toMap v) u (.ok m) s) (hleaves : ∀ v ∈ s.leaves, v.IsLeaf) {news : Fields}
    (hnews : Yields (topFields m) s (.ok news) s) :
    s.snapshot (Fields.merge [] news).toValue = s.snapshot m := by
  have hrun : Yields (do let v ← tree.build l.stack; toMap v) l.session (.ok m) s :=
    (yields_bind_ok hbuild).mpr hmap
  rcases safe_compile isLeaf_leafRule (P := True) (k := 0) l.stack tree _ _ _ hrun with
    ⟨honward, hsafe⟩
  have hsound := h.sound isLeaf_leafRule fun v hv => hleaves v (honward.leaves v hv)
  rcases hsafe trivial hsound.session (Nat.zero_le _) hleaves with ⟨hs, -, hm⟩
  have hseen := Library.snapshot_of_topFields hs.ordered (hm m rfl).2 hnews
  rcases h.compiled hrun hleaves with ⟨fs, hfs, hnames, -⟩
  -- Two field lists that are seen as the same value are equal.
  have hsame : s.seen news = fs := Fields.toValue_injective (hseen.symm.trans hfs)
  rw [Session.snapshot_toValue hs.ordered, Session.seen_merge, hsame, hfs]
  exact congrArg Fields.toValue (Fields.merge_nil hnames)

/-- The document that a compiled tree is made into. -/
theorem Library.Reached.yields_toDocument (h : l.Reached)
    (hbuild : Yields (tree.build l.stack) l.session (.ok v) u)
    (hmap : Yields (toMap v) u (.ok m) s) (hleaves : ∀ v ∈ s.leaves, v.IsLeaf) {asked : Value}
    {e : Encoding} (hasked : Encoding.ofValue asked = .ok e) :
    (∀ d t, Yields (do let v ← tree.build l.stack; toDocument v (some asked)) l.session (.ok d) t →
      t = s ∧ s.snapshot d.content.toValue = s.snapshot m ∧
        ∃ config, u.settings.validate = .ok config ∧
          d.layout = JsonLayout.ofValue (.bool config.pretty)) ∧
    ∀ config, u.settings.validate = .ok config → ∃ d,
      Yields (do let v ← tree.build l.stack; toDocument v (some asked)) l.session (.ok d) s ∧
        s.snapshot d.content.toValue = s.snapshot m ∧
          d.layout = JsonLayout.ofValue (.bool config.pretty) := by
  rcases Document.exists_topFields m s with ⟨news, hnews⟩
  have hdata := h.snapshot_merge hbuild hmap hleaves hnews
  constructor
  -- The two runs build and map the same tree, so that they agree on the entries and on the
  -- session.
  · intro d t hrun
    rw [yields_bind_ok hbuild] at hrun
    unfold toDocument at hrun
    rcases yields_bind_eq_ok.mp hrun with ⟨d₀, w, hmake, hfill⟩
    rcases (yields_make hasked).mp hmake with ⟨config, hvalid, rfl, rfl⟩
    rcases Document.yields_map_ok.mp hfill with ⟨-, m', news', hmap', hnews', rfl⟩
    obtain ⟨hm, rfl⟩ := yields_unique hmap hmap'
    cases hm
    obtain rfl : news = news' := Except.ok.inj (yields_unique hnews hnews').1
    exact ⟨rfl, hdata, config, hvalid, rfl⟩
  · intro config hvalid
    refine ⟨⟨e, JsonLayout.ofValue (.bool config.pretty), Fields.merge [] news, none⟩, ?_, hdata,
      rfl⟩
    rw [yields_bind_ok hbuild]
    unfold toDocument
    refine (yields_bind_ok ((yields_make hasked).mpr ⟨config, hvalid, rfl, rfl⟩)).mpr ?_
    exact Document.yields_map_ok.mpr ⟨rfl, m, news, hmap, hnews, rfl⟩

end

/-! ## Forms are of no consequence -/

/-- What forms have to do with the payloads of a tree that is compiled to some data, and
    leaves a session. Leaf nodes made by hand are spoken of where they may matter. -/
structure Expr.WrittenPlainly (l : Library) (tree : Expr) (s : Session) (data : Value) :
    Prop where
  /-- The writers are given plain data only, whose names keep their form. -/
  normal : (∀ v ∈ s.leaves, v.IsLeaf) → ∀ c, data.prepare = .ok c →
    c.Normal fun name => data.hasPlainNames = true → name.form = .plain
  /-- A payload is what is written of them. -/
  handed : (∀ v ∈ s.leaves, v.IsLeaf) → ∀ asked e payload, Encoding.ofValue asked = .ok e →
    tree.Finishes l.stack l.session asked payload →
      ∃ c layout, data.prepare = .ok c ∧ c.write e layout = .ok payload
  /-- A payload is that of the tree in plain form. -/
  same : ∀ asked e payload, Encoding.ofValue asked = .ok e →
    tree.Finishes l.stack l.session asked payload →
      tree.bare.Finishes l.stack l.session.bare asked payload
  /-- What has a payload in plain form has one in any other. -/
  conversely : ∀ asked e payload, Encoding.ofValue asked = .ok e →
    (e = .yaml → (∀ v ∈ s.leaves, v.IsLeaf) ∧ data.hasPlainNames = true) →
      tree.bare.Finishes l.stack l.session.bare asked payload →
        tree.Finishes l.stack l.session asked payload
  /-- What one encoding can write the others can. -/
  alike : (∀ v ∈ s.leaves, v.IsLeaf) → data.IntegersIn Packable → data.hasPlainNames = true →
    data.written.Below (2 ^ 32) → ∀ asked e asked' e', Encoding.ofValue asked = .ok e →
      Encoding.ofValue asked' = .ok e' →
        ((∃ payload, tree.Finishes l.stack l.session asked payload) ↔
          ∃ payload, tree.Finishes l.stack l.session asked' payload)

/-- A tree by itself has the payload that it is finished with. -/
theorem finishes_alone {tree : Expr} {e : Encoding} {payload : Bytes} :
    tree.Finishes Library.initial.stack Library.initial.session
        (.scalar (.text e.name (.encoding e))) payload ↔
      (finishAlone tree e).1.toOption = some payload := by
  constructor
  · rintro ⟨s', h⟩
    have halone : finishAlone tree e = (.ok payload, s') := h
    rw [halone]
    rfl
  · intro h
    have hsome : (finishAlone tree e).1.toOption.isSome = true := h ▸ rfl
    have hrun := yields_getD [] hsome
    change Yields _ _ (.ok ((finishAlone tree e).1.toOption.getD [])) _ at hrun
    rw [h] at hrun
    exact ⟨_, hrun⟩

/-- Members of enumerations, a text and a number of refined types, and nodes made by
    hand. -/
def memberTree : Expr :=
  .mapping .plain [
    (.scalar (.text "level" .plain), .scalar (.int 3 .derived)),
    (.scalar (.text "ratio" .plain), .scalar (.float (Binary64.ofCode false 0) .derived)),
    (.scalar (.text "format" .plain), .scalar (.text "yaml" (.encoding .yaml))),
    (.scalar (.text "due" .plain), .node (.mapping [
      ("on", .scalar (.scalar (.date ⟨2024, 2, 29⟩)) .date),
      ("times", .seq [.scalar (.scalar (.int 2 .plain)) .integer])])),
    (.scalar (.text "lines" .plain), .items .tuple [
      .body (.mk (.named "line") [.set ["unit"] (.scalar (.text "kg" .derived))])])]

/-- A member of an enumeration in a leaf node made by hand. -/
def memberLeafTree : Expr :=
  .mapping .plain
    [(.scalar (.text "a" .plain), .node (.scalar (.scalar (.int 3 .derived)) .integer))]

end Docket
