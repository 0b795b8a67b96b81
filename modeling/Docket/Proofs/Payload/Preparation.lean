import Docket.Proofs.Payload.Written
import Docket.Proofs.Recording.Data

/-!
# Preparation for the writers

What the writers are given. Data is prepared before it is written in any of the
encodings, and the content that it is prepared as has a simple shape: leaves,
lists, and mappings from distinct texts, all numbers being finite. `Content.Stands`
is that shape, along with the data that the content is to be read back as, so that
what there is to show of an encoding is shown of such content only.

Nothing but a point in time that has no universal time keeps data from being
prepared.

## Main definitions

* `Content.Stands`: Content that stands for data as it is read back.
* `Value.RoundTripsAs`: Data that is encoded and decoded.

## Theorems

* `Value.IsData.prepares_ok`: Data is prepared if its points in time can be written.
* `Value.IsData.normalizable`: No other data is.
* `Scalar.prepare_cases`: What leaves are prepared as.
* `Value.prepare_list_pairs`, `Fields.prepare_pairs`: What collections are prepared as, part
  by part.
* `Value.IsData.stands`: What it is prepared as stands for it.
* `yields_encode`, `yields_encode_error`, `encode_ok`: Encoding is writing what is
  prepared.
* `setEntry_membersValue`: Members are read one after another.
* `Library.Reached.compiled`: What a tree is compiled to is data.
-/

namespace Docket

/-- Content that stands for data as it is read back: leaves in any form, lists, and
    mappings from distinct texts. -/
inductive Content.Stands : Content → Value → Prop
  | null : Content.Stands .null .null
  | bool (b : Bool) : Content.Stands (.bool b) (.bool b)
  | int (n : Int) (form : NumberForm) : Content.Stands (.int n form) (.int n)
  | float {x : Binary64} (form : NumberForm) (h : x.isFinite = true) :
      Content.Stands (.float x form) (.float x)
  | text (s : String) (form : TextForm) : Content.Stands (.text s form) (.text s)
  | list {ps : List (Content × Value)} (h : ∀ p ∈ ps, Content.Stands p.1 p.2) :
      Content.Stands (.list (ps.map Prod.fst)) (.list (ps.map Prod.snd))
  | map {ps : List (Name × Content × Value)} (hnames : (ps.map (·.1.text)).Nodup)
      (h : ∀ p ∈ ps, Content.Stands p.2.1 p.2.2) :
      Content.Stands (.map (ps.map fun p => (p.1.toValue, p.2.1)))
        (.dict (ps.map fun p => (.text p.1.text, p.2.2)))

/-- Members of a mapping, by their names. -/
def membersValue (ms : List (String × Value)) : List (Value × Value) :=
  ms.map fun m => (.text m.1, m.2)

/-- A member with a name that is not there yet goes to the end. -/
theorem setEntry_membersValue {ms : List (String × Value)} {name : String} (v : Value)
    (h : name ∉ ms.map Prod.fst) :
    setEntry (membersValue ms) (.text name) v = membersValue (ms ++ [(name, v)]) := by
  induction ms with
  | nil => rfl
  | cons m rest ih =>
      rw [List.map_cons, List.mem_cons, not_or] at h
      have hkey : (Value.text m.1).sameKey (.text name) = false := by
        rw [Value.text, Value.text, Value.sameKey]
        exact beq_eq_false_iff_ne.mpr fun heq => h.1 heq.symm
      have hrest := ih h.2
      unfold membersValue at hrest ⊢
      rw [List.map_cons, setEntry, hkey, if_neg Bool.false_ne_true, hrest]
      rfl

/-- Items are prepared if each of them is. -/
theorem prepareItems_ok {xs : List Value} (h : ∀ v ∈ xs, ∃ c, v.prepare = .ok c) :
    ∃ cs, prepareItems xs = .ok cs := by
  induction xs with
  | nil => exact ⟨[], rfl⟩
  | cons v rest ih =>
      rw [List.forall_mem_cons] at h
      rcases h.1 with ⟨c, hc⟩
      rcases ih h.2 with ⟨cs, hcs⟩
      refine ⟨c :: cs, ?_⟩
      rw [prepareItems, hc, hcs]
      rfl

theorem prepareEntries_ok {entries : List (Value × Value)}
    (h : ∀ e ∈ entries, ∃ c, e.2.prepare = .ok c) : ∃ es, prepareEntries entries = .ok es := by
  induction entries with
  | nil => exact ⟨[], rfl⟩
  | cons e rest ih =>
      rw [List.forall_mem_cons] at h
      rcases h.1 with ⟨c, hc⟩
      rcases ih h.2 with ⟨es, hes⟩
      refine ⟨(e.1, c) :: es, ?_⟩
      rw [prepareEntries, hc, hes]
      rfl

/-- Data is prepared if its points in time can be written. -/
theorem Value.IsData.prepares_ok {v : Value} (h : v.IsData) :
    v.Normalizable → ∃ c, v.prepare = .ok c := by
  induction h with
  | @scalar s h =>
      intro hnormal
      cases s with
      | datetime t =>
          rcases DateTime.text_of_normalizable (hnormal t (List.mem_singleton.mpr rfl)) with
            ⟨u, hu⟩
          -- A point in time is the only leaf that may not be prepared.
          refine ⟨.text u .plain, ?_⟩
          rw [Value.prepare, Scalar.prepare, hu]
      | _ => exact ⟨_, rfl⟩
  | list h ih =>
      intro hnormal
      rcases prepareItems_ok fun v hv => ih v hv (normalizable_list.mp hnormal v hv) with
        ⟨cs, hcs⟩
      refine ⟨.list cs, ?_⟩
      rw [Value.list, Value.prepare, hcs]
      rfl
  | @fields fs hnames h ih =>
      intro hnormal
      have hfields : ∀ e ∈ fs.map fun f => (f.1.toValue, f.2), ∃ c, e.2.prepare = .ok c := by
        intro e he
        rcases List.mem_map.mp he with ⟨f, hf, rfl⟩
        exact ih f hf (normalizable_fields.mp hnormal f hf)
      rcases prepareEntries_ok hfields with ⟨es, hes⟩
      refine ⟨.map es, ?_⟩
      rw [Fields.toValue, Value.dict, Value.prepare, hes]
      rfl

theorem prepareItems_eq_ok {xs : List Value} {cs : List Content} (h : prepareItems xs = .ok cs) :
    ∀ v ∈ xs, ∃ c, v.prepare = .ok c := by
  induction xs generalizing cs with
  | nil => exact fun v hv => absurd hv List.not_mem_nil
  | cons v rest ih =>
      rw [prepareItems] at h
      rcases except_bind_eq_ok h with ⟨c, hc, hrest⟩
      rcases except_bind_eq_ok hrest with ⟨cs', hcs, -⟩
      rw [List.forall_mem_cons]
      exact ⟨⟨c, hc⟩, ih hcs⟩

theorem prepareEntries_eq_ok {entries : List (Value × Value)} {es : List (Value × Content)}
    (h : prepareEntries entries = .ok es) : ∀ e ∈ entries, ∃ c, e.2.prepare = .ok c := by
  induction entries generalizing es with
  | nil => exact fun e he => absurd he List.not_mem_nil
  | cons e rest ih =>
      rw [prepareEntries] at h
      rcases except_bind_eq_ok h with ⟨c, hc, hrest⟩
      rcases except_bind_eq_ok hrest with ⟨es', hes, -⟩
      rw [List.forall_mem_cons]
      exact ⟨⟨c, hc⟩, ih hes⟩

/-- Only data whose points in time can be written is prepared. -/
theorem Value.IsData.normalizable {v : Value} (h : v.IsData) :
    ∀ c, v.prepare = .ok c → v.Normalizable := by
  induction h with
  | @scalar s h =>
      intro c hc t ht
      rw [← List.mem_singleton.mp ht, Value.prepare, Scalar.prepare] at hc
      -- A point in time that has no text is not prepared.
      cases htext : t.text? with
      | none =>
          rw [htext] at hc
          exact absurd hc error_ne_ok
      | some u => exact DateTime.normalizable_of_text htext
  | list h ih =>
      intro c hc
      rw [Value.list, Value.prepare] at hc
      rcases except_bind_eq_ok hc with ⟨cs, hcs, -⟩
      rw [normalizable_list]
      intro v hv
      rcases prepareItems_eq_ok hcs v hv with ⟨c', hc'⟩
      exact ih v hv c' hc'
  | @fields fs hnames h ih =>
      intro c hc
      rw [Fields.toValue, Value.dict, Value.prepare] at hc
      rcases except_bind_eq_ok hc with ⟨es, hes, -⟩
      rw [normalizable_fields]
      intro f hf
      rcases prepareEntries_eq_ok hes _ (List.mem_map_of_mem hf) with ⟨c', hc'⟩
      exact ih f hf c' hc'

/-- The items of prepared content and the data that they are read back as. -/
theorem prepareItems_pairs {P : Content → Value → Prop} {xs : List Value}
    (h : ∀ v ∈ xs, ∀ c, v.prepare = .ok c → P c v.written) {cs : List Content}
    (hcs : prepareItems xs = .ok cs) :
    ∃ ps : List (Content × Value), cs = ps.map Prod.fst ∧ xs.map Value.written = ps.map Prod.snd ∧
      ∀ p ∈ ps, P p.1 p.2 := by
  induction xs generalizing cs with
  | nil =>
      cases hcs
      exact ⟨[], rfl, rfl, fun p hp => absurd hp List.not_mem_nil⟩
  | cons v rest ih =>
      rw [List.forall_mem_cons] at h
      rw [prepareItems] at hcs
      rcases except_bind_eq_ok hcs with ⟨c, hc, hcs⟩
      rcases except_bind_eq_ok hcs with ⟨cs', hrest, hcs⟩
      cases hcs
      rcases ih h.2 hrest with ⟨ps, rfl, hps, hstands⟩
      refine ⟨(c, v.written) :: ps, rfl, ?_, ?_⟩
      · rw [List.map_cons, hps]
        rfl
      · rw [List.forall_mem_cons]
        exact ⟨h.1 c hc, hstands⟩

/-- The entries of prepared content, which keep their names. -/
theorem prepareEntries_pairs {P : Content → Value → Prop} {fs : Fields}
    (h : ∀ f ∈ fs, ∀ c, f.2.prepare = .ok c → P c f.2.written) {es : List (Value × Content)}
    (hes : prepareEntries (fs.map fun f => (f.1.toValue, f.2)) = .ok es) :
    ∃ ps : List (Name × Content × Value), es = ps.map (fun p => (p.1.toValue, p.2.1)) ∧
      fs.map (fun f => (f.1, f.2.written)) = ps.map (fun p => (p.1, p.2.2)) ∧
      ∀ p ∈ ps, P p.2.1 p.2.2 := by
  induction fs generalizing es with
  | nil =>
      cases hes
      exact ⟨[], rfl, rfl, fun p hp => absurd hp List.not_mem_nil⟩
  | cons f rest ih =>
      rw [List.forall_mem_cons] at h
      rw [List.map_cons, prepareEntries] at hes
      rcases except_bind_eq_ok hes with ⟨c, hc, hes⟩
      rcases except_bind_eq_ok hes with ⟨es', hrest, hes⟩
      cases hes
      rcases ih h.2 hrest with ⟨ps, rfl, hps, hstands⟩
      -- Each name is paired with what its value is prepared as, and with the value as it is
      -- written.
      refine ⟨(f.1, c, f.2.written) :: ps, rfl, ?_, ?_⟩
      · rw [List.map_cons, hps]
        rfl
      · rw [List.forall_mem_cons]
        exact ⟨h.1 c hc, hstands⟩

section

variable {fs : Fields} {ps : List (Name × Content × Value)}

/-- Fields that have been paired with content have the same names as before. -/
theorem names_of_pairs
    (h : fs.map (fun f => (f.1, f.2.written)) = ps.map fun p => (p.1, p.2.2)) :
    fs.names = ps.map (·.1.text) := by
  have hnames := congrArg (List.map fun q : Name × Value => q.1.text) h
  rw [List.map_map, List.map_map] at hnames
  exact hnames

/-- Each of them is under the name of a field. -/
theorem mem_of_pairs
    (h : fs.map (fun f => (f.1, f.2.written)) = ps.map fun p => (p.1, p.2.2))
    {p : Name × Content × Value} (hp : p ∈ ps) : ∃ f ∈ fs, f.1 = p.1 := by
  have hmem : (p.1, p.2.2) ∈ fs.map fun f => (f.1, f.2.written) := by
    rw [h]
    exact List.mem_map_of_mem hp
  obtain ⟨f, hf, heq⟩ := List.mem_map.mp hmem
  exact ⟨f, hf, congrArg Prod.fst heq⟩

theorem written_of_pairs
    (h : fs.map (fun f => (f.1, f.2.written)) = ps.map fun p => (p.1, p.2.2)) :
    fs.toValue.written =
      .dict ((ps.map fun p => (p.1.text, p.2.2)).map fun m => (.text m.1, m.2)) := by
  have hmembers := congrArg (List.map fun q : Name × Value => (q.1.text, q.2)) h
  rw [List.map_map, List.map_map] at hmembers
  rw [Fields.written_toValue]
  exact congrArg (fun ms : List (String × Value) => Value.dict (ms.map fun m => (.text m.1, m.2)))
    hmembers

end

/-- What a list is prepared as, and what it is written as, item by item. -/
theorem Value.prepare_list_pairs {P : Content → Value → Prop} {xs : List Value}
    (h : ∀ v ∈ xs, ∀ c, v.prepare = .ok c → P c v.written) {c : Content}
    (hc : (Value.list xs).prepare = .ok c) :
    ∃ ps : List (Content × Value), c = .list (ps.map Prod.fst) ∧
      (Value.list xs).written = .list (ps.map Prod.snd) ∧ ∀ p ∈ ps, P p.1 p.2 := by
  rw [Value.list, Value.prepare] at hc
  rcases except_bind_eq_ok hc with ⟨cs, hcs, hc⟩
  cases hc
  rcases prepareItems_pairs h hcs with ⟨ps, rfl, hps, hall⟩
  refine ⟨ps, rfl, ?_, hall⟩
  rw [Value.list, Value.written, writtenItems_eq, hps]
  rfl

/-- What fields are prepared as, and what they are written as, name by name. -/
theorem Fields.prepare_pairs {P : Content → Value → Prop} {fs : Fields}
    (h : ∀ f ∈ fs, ∀ c, f.2.prepare = .ok c → P c f.2.written) {c : Content}
    (hc : fs.toValue.prepare = .ok c) :
    ∃ ps : List (Name × Content × Value), c = .map (ps.map fun p => (p.1.toValue, p.2.1)) ∧
      fs.map (fun f => (f.1, f.2.written)) = ps.map (fun p => (p.1, p.2.2)) ∧
      ∀ p ∈ ps, P p.2.1 p.2.2 := by
  rw [Fields.toValue, Value.dict, Value.prepare] at hc
  rcases except_bind_eq_ok hc with ⟨es, hes, hc⟩
  cases hc
  rcases prepareEntries_pairs h hes with ⟨ps, rfl, hps, hall⟩
  exact ⟨ps, rfl, hps, hall⟩

/-- What a leaf of data is prepared as: dates are texts by then, as which they are written,
    and all other leaves are as they were. -/
theorem Scalar.prepare_cases {s : Scalar} (h : s.isData = true) {c : Content}
    (hc : (Value.scalar s).prepare = .ok c) :
    (s = .null ∧ c = .null) ∨ (∃ b, s = .bool b ∧ c = .bool b) ∨
    (∃ n, s = .int n .plain ∧ c = .int n .plain) ∨
    (∃ x, s = .float x .plain ∧ x.isFinite = true ∧ c = .float x .plain) ∨
    ∃ t, (Value.scalar s).written = .text t ∧ c = .text t .plain := by
  cases s with
  | null =>
      cases hc
      exact .inl ⟨rfl, rfl⟩
  | bool b =>
      cases hc
      exact .inr (.inl ⟨b, rfl, rfl⟩)
  | int n form =>
      obtain rfl : form = .plain := beq_iff_eq.mp h
      cases hc
      exact .inr (.inr (.inl ⟨n, rfl, rfl⟩))
  | float x form =>
      rw [Scalar.isData, Bool.and_eq_true, beq_iff_eq] at h
      obtain ⟨hfinite, rfl⟩ := h
      cases hc
      exact .inr (.inr (.inr (.inl ⟨x, rfl, hfinite, rfl⟩)))
  | text t form =>
      obtain rfl : form = .plain := beq_iff_eq.mp h
      cases hc
      exact .inr (.inr (.inr (.inr ⟨t, rfl, rfl⟩)))
  | date d =>
      cases hc
      exact .inr (.inr (.inr (.inr ⟨d.text, rfl, rfl⟩)))
  -- A point in time may have no text in UTC, and preparing it fails then.
  | datetime t =>
      rw [Value.prepare, Scalar.prepare] at hc
      rw [Value.written]
      cases ht : t.text? with
      | none =>
          rw [ht] at hc
          exact absurd hc error_ne_ok
      | some u =>
          rw [ht] at hc
          cases hc
          rw [Scalar.written_datetime ht]
          exact .inr (.inr (.inr (.inr ⟨u, rfl, rfl⟩)))

/-- What data is prepared as stands for the data with its dates written out. -/
theorem Value.IsData.stands {v : Value} (h : v.IsData) :
    ∀ c, v.prepare = .ok c → c.Stands v.written := by
  induction h with
  | @scalar s h =>
      intro c hc
      rcases Scalar.prepare_cases h hc with
        ⟨rfl, rfl⟩ | ⟨b, rfl, rfl⟩ | ⟨n, rfl, rfl⟩ | ⟨x, rfl, hfinite, rfl⟩ | ⟨t, ht, rfl⟩
      · exact .null
      · exact .bool b
      · exact .int n .plain
      · exact .float .plain hfinite
      · rw [ht]
        exact .text t .plain
  | @list xs h ih =>
      intro c hc
      rcases Value.prepare_list_pairs (P := Content.Stands) ih hc with ⟨ps, rfl, hps, hstands⟩
      rw [hps]
      exact .list hstands
  | @fields fs hnames h ih =>
      intro c hc
      -- Preparing keeps the names, so that they are still distinct.
      rcases Fields.prepare_pairs (P := Content.Stands) ih hc with ⟨ps, rfl, hps, hstands⟩
      rw [written_of_pairs hps, List.map_map]
      exact .map (names_of_pairs hps ▸ hnames) hstands

/-- A binary encoding has no other way to fail. -/
theorem Content.write_cbor_eq_ok {c : Content} {layout : JsonLayout} {bytes : Bytes} :
    c.write .cbor layout = .ok bytes ↔ c.writeCbor = some bytes := by
  unfold Content.write
  cases c.writeCbor with
  | none => exact iff_of_false nofun nofun
  | some b =>
      constructor
      · exact fun h => congrArg some (Except.ok.inj h)
      · exact fun h => congrArg Except.ok (Option.some.inj h)

theorem Content.write_msgpack_eq_ok {c : Content} {layout : JsonLayout} {bytes : Bytes} :
    c.write .msgpack layout = .ok bytes ↔ c.writeMessagePack = some bytes := by
  unfold Content.write
  cases c.writeMessagePack with
  | none => exact iff_of_false nofun nofun
  | some b =>
      constructor
      · exact fun h => congrArg some (Except.ok.inj h)
      · exact fun h => congrArg Except.ok (Option.some.inj h)

/-- A text encoding writes a text, in UTF-8. -/
theorem Content.write_json_eq_ok {c : Content} {layout : JsonLayout} {bytes : Bytes} :
    c.write .json layout = .ok bytes ↔
      ∃ cs, c.writeJson layout = .ok cs ∧ encodeUtf8 cs = bytes := by
  unfold Content.write
  cases c.writeJson layout with
  | error f => exact iff_of_false nofun nofun
  | ok cs =>
      constructor
      · exact fun h => ⟨cs, rfl, Except.ok.inj h⟩
      · rintro ⟨cs', hcs, rfl⟩
        cases hcs
        rfl

theorem Content.write_yaml_eq_ok {c : Content} {layout : JsonLayout} {bytes : Bytes} :
    c.write .yaml layout = .ok bytes ↔ ∃ cs, c.writeYaml = some cs ∧ encodeUtf8 cs = bytes := by
  unfold Content.write
  cases c.writeYaml with
  | none => exact iff_of_false nofun nofun
  | some cs =>
      constructor
      · exact fun h => ⟨cs, rfl, Except.ok.inj h⟩
      · rintro ⟨cs', hcs, rfl⟩
        cases hcs
        rfl

theorem Content.write_msgpack_of_none {c : Content} (h : c.writeMessagePack = none)
    (layout : JsonLayout) : c.write .msgpack layout = .error none := by
  unfold Content.write
  rw [h]

theorem yields_encode {v : Value} {c : Content} {e : Encoding} {layout : JsonLayout}
    {payload : Bytes} (hprepare : v.prepare = .ok c) (hwrite : c.write e layout = .ok payload)
    (s : Session) : Yields (encode v e layout) s (.ok payload) s := by
  unfold encode
  rw [hprepare, yields_bind_ok (yields_lift.mpr ⟨rfl, rfl⟩), hwrite]
  exact yields_pure.mpr ⟨rfl, rfl⟩

theorem yields_encode_error {v : Value} {c : Content} {e : Encoding} {layout : JsonLayout}
    {cause : Option Failure} (hprepare : v.prepare = .ok c)
    (hwrite : c.write e layout = .error cause) (s : Session) :
    ∃ s', Yields (encode v e layout) s (.error (.encoderFailed e cause)) s' := by
  refine ⟨{ s with records := s.records.push (.encoderFailed e cause) }, ?_⟩
  unfold encode
  rw [hprepare, yields_bind_ok (yields_lift.mpr ⟨rfl, rfl⟩), hwrite]
  exact (yields_bind_ok (yields_modify.mpr ⟨rfl, rfl⟩)).mpr (yields_throw.mpr ⟨rfl, rfl⟩)

/-- What is encoded has been prepared and written, and nothing else happened. -/
theorem encode_ok {v : Value} {e : Encoding} {layout : JsonLayout} {payload : Bytes}
    {s s' : Session} (h : Yields (encode v e layout) s (.ok payload) s') :
    ∃ c, v.prepare = .ok c ∧ c.write e layout = .ok payload ∧ s' = s := by
  unfold encode at h
  rcases yields_bind_eq_ok.mp h with ⟨c, m, h₁, h₂⟩
  rcases yields_lift.mp h₁ with ⟨hc, rfl⟩
  refine ⟨c, hc.symm, ?_⟩
  cases hw : c.write e layout with
  | ok b =>
      rw [hw] at h₂
      rcases yields_pure.mp h₂ with ⟨hb, rfl⟩
      rw [Except.ok.inj hb]
      exact ⟨rfl, rfl⟩
  | error cause =>
      rw [hw] at h₂
      -- The error of the writer is noted and raised, so nothing is returned.
      rcases yields_bind_eq_ok.mp h₂ with ⟨u, m', -, h₃⟩
      exact absurd h₃ not_yields_throw_ok

theorem Value.IsData.fields_of_eq {v : Value} (h : v.IsData) {gs : Fields} (heq : v = gs.toValue) :
    ∃ fs : Fields, v = fs.toValue ∧ fs.names.Nodup ∧ ∀ f ∈ fs, f.2.IsData := by
  cases h with
  | scalar h => exact absurd heq (by simp [Fields.toValue, Value.dict])
  | list h => exact absurd heq (by simp [Fields.toValue, Value.dict, Value.list])
  | fields hnames h => exact ⟨_, rfl, hnames, h⟩

/-- What a tree is compiled to is data, and the fields of a mapping. -/
theorem Session.Sound.compiled {s t : Session} {stack : BlockStack} {tree : Expr} {m : Value}
    (hs : s.Sound Value.IsLeaf)
    (hrun : Yields (do let v ← tree.build stack; toMap v) s (.ok m) t)
    (hleaves : ∀ v ∈ t.leaves, v.IsLeaf) :
    ∃ fs : Fields, t.snapshot m = fs.toValue ∧ fs.names.Nodup ∧ ∀ f ∈ fs, f.2.IsData := by
  rcases safe_compile isLeaf_leafRule (P := True) (k := 0) stack tree _ _ _ hrun with ⟨-, hsafe⟩
  rcases hsafe trivial hs (Nat.zero_le _) hleaves with ⟨ht, -, hm⟩
  rcases hm m rfl with ⟨hfresh, htop⟩
  have hdata := ht.isData_snapshot hfresh.recorded
  -- A block is written out as its fields, fields as themselves written out.
  have hfields : ∃ gs : Fields, t.snapshot m = gs.toValue := by
    rcases htop with ⟨id, rfl⟩ | ⟨fs, rfl, -⟩
    · exact ⟨_, Session.snapshot_live ht.ordered id⟩
    · rw [Session.snapshot_eq ht.ordered, Fields.mapLive_toValue]
      exact ⟨_, rfl⟩
  rcases hfields with ⟨gs, hgs⟩
  exact hdata.fields_of_eq hgs

/-- So it is in every state that is reached, as long as no leaf node was made by hand
    from something else than a leaf. -/
theorem Library.Reached.compiled {l : Library} (h : l.Reached) {tree : Expr} {m : Value}
    {s : Session} (hrun : Yields (do let v ← tree.build l.stack; toMap v) l.session (.ok m) s)
    (hleaves : ∀ v ∈ s.leaves, v.IsLeaf) :
    ∃ fs : Fields, s.snapshot m = fs.toValue ∧ fs.names.Nodup ∧ ∀ f ∈ fs, f.2.IsData := by
  -- Leaves are never forgotten, so those of the state before are leaves as well.
  have honward : l.session.Onward s :=
    (safe_compile isLeaf_leafRule (P := True) (k := 0) l.stack tree _ _ _ hrun).1
  have hsound := h.sound isLeaf_leafRule fun v hv => hleaves v (honward.leaves v hv)
  exact hsound.session.compiled hrun hleaves

theorem Library.Reached.isData {l : Library} (h : l.Reached) {tree : Expr} {m : Value}
    {s : Session} (hrun : Yields (do let v ← tree.build l.stack; toMap v) l.session (.ok m) s)
    (hleaves : ∀ v ∈ s.leaves, v.IsLeaf) : (s.snapshot m).IsData := by
  rcases h.compiled hrun hleaves with ⟨fs, hfs, hnames, hdata⟩
  rw [hfs]
  exact .fields hnames hdata

/-- What a tree is compiled to when nothing else has been, and the session after it. -/
def compileAlone (tree : Expr) : Except Failure Value × Session :=
  (do let v ← tree.build []; toMap v : Run Value).run.run .initial

/-- The data that a tree stands for by itself. -/
def Expr.data (tree : Expr) : Value :=
  (compileAlone tree).2.snapshot ((compileAlone tree).1.toOption.getD .null)

theorem yields_compileAlone (tree : Expr) (h : (compileAlone tree).1.toOption.isSome = true) :
    Yields (do let v ← tree.build Library.initial.stack; toMap v) Library.initial.session
      (.ok ((compileAlone tree).1.toOption.getD .null)) (compileAlone tree).2 := by
  unfold compileAlone at h ⊢
  exact yields_getD Value.null h

/-- Where no leaf node was made, none was made from something else than a leaf. -/
theorem Session.isLeaf_of_size {s : Session} (h : s.leaves.size = 0) :
    ∀ v ∈ s.leaves, v.IsLeaf := by
  rw [Array.size_eq_zero_iff.mp h]
  exact fun v hv => absurd hv (Array.not_mem_empty v)

/-- Data is encoded and decoded, its dates being written out. -/
def Value.RoundTripsAs (v : Value) (e : Encoding) (layout : JsonLayout) : Prop :=
  ∃ payload, (∀ s, Yields (encode v e layout) s (.ok payload) s) ∧
    decode (.bytes payload) (some e) = .ok v.written

end Docket
