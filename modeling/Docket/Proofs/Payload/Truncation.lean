import Docket.Document
import Docket.Proofs.Cbor.Extension
import Docket.Proofs.Cbor.RoundTrip
import Docket.Proofs.Json.Extension
import Docket.Proofs.Json.RoundTrip
import Docket.Proofs.MessagePack.Extension
import Docket.Proofs.MessagePack.RoundTrip
import Docket.Proofs.Payload.Decoding
import Docket.Proofs.Text.Extension

/-!
# Payloads that were cut off

Part of a payload is never taken for a payload. In each encoding but YAML the reader
looks no further than it reads, so if it read something from the front of a payload,
it would read the same from all of it and leave the rest. But a payload is read from
end to end (`Reads`, `CborSpells`, `Packs`), and nothing of it is left.

JSON is a text, and the bytes of its front need not be those of a text. If they are,
then of one that was cut off itself, because what is missing are characters as well
(`decodeUtf8_append`). Two more things could go wrong in JSON. Its coding is told from
the first bytes, but those of a payload tell it even when there are fewer of them. And
a number that was cut off would be a number, but the payload is an object, so nothing
is read before the bracket that closes it.

What is written is what a tree has been compiled to, so this is said of `toBytes`, and
of the documents that it makes.

## Theorems

* `Fields.decode_cut`: The front of what data is written as is not read.
* `toDocument_ok`, `Document.toBytes_ok`: What `toBytes` does on the way.
* `toBytes_written`: A payload is what data is written as.
* `toBytes_cut_refused`: The front of a payload is refused.
-/

namespace Docket

/-- The text of a mapping in JSON, and what it is read as. -/
theorem Fields.json_reads {fs : Fields} (hnames : fs.names.Nodup) (hdata : ∀ f ∈ fs, f.2.IsData)
    {c : Content} (hprepare : fs.toValue.prepare = .ok c) {layout : JsonLayout} {payload : Bytes}
    (hwrite : c.write .json layout = .ok payload) :
    ∃ b rest, payload = encodeUtf8 ('\x7b' :: b :: rest) ∧ IsAscii b ∧
      Reads ('\x7b' :: b :: rest) fs.toValue.written := by
  have hnormal := (Value.IsData.fields hnames hdata).normalizable c hprepare
  rcases prepareEntries_prepared (fun f hf => (hdata f hf).prepares)
    (normalizable_fields.mp hnormal) with ⟨es, hes, hprepared⟩
  have hc : c = .map es := by
    rw [Fields.toValue, Value.dict, Value.prepare, hes] at hprepare
    exact (Except.ok.inj hprepare).symm
  subst hc
  -- Integers with too many digits are not written, so there would be no payload.
  by_cases hshort : fs.toValue.Short
  · rcases jsonAt_map (readBack_members hprepared hshort) (names_written hnames) layout 0 with
      ⟨b, rest, htext, hb, hreads⟩
    rw [← Fields.written_toValue] at hreads
    refine ⟨b, rest, ?_, hb, hreads⟩
    unfold Content.write Content.writeJson at hwrite
    simp only [] at hwrite
    rw [htext] at hwrite
    exact (Except.ok.inj hwrite).symm
  · unfold Content.write Content.writeJson at hwrite
    simp only [] at hwrite
    rw [(prepared_fields hnames hprepared).2 hshort layout 0] at hwrite
    exact absurd hwrite error_ne_ok

/-- The front of an object in JSON is not read. -/
theorem readJson_cut {b : Char} {rest : List Char} {v : Value} (hb : IsAscii b)
    (h : Reads ('\x7b' :: b :: rest) v) {front back : Bytes}
    (hsplit : encodeUtf8 ('\x7b' :: b :: rest) = front ++ back) (hback : back ≠ []) (w : Value) :
    readJson front ≠ .ok w := by
  intro hread
  unfold readJson at hread
  rw [decodeJsonBytes_front ⟨by decide, by decide⟩ hb hsplit] at hread
  cases hfront : decodeUtf8 front with
  | error e =>
      rw [hfront] at hread
      exact absurd hread error_ne_ok
  | ok cs =>
      rw [hfront] at hread
      have hfull := decodeUtf8_encodeUtf8 ('\x7b' :: b :: rest)
      rw [hsplit] at hfull
      -- The front is a text, so it is the front of the text, and characters are missing.
      rcases decodeUtf8_append hfront hfull with ⟨more, hmore, hne⟩
      rw [hmore] at h
      refine h.not_cut ⟨_, hmore.symm⟩ (hne hback) w ?_
      simp only [] at hread
      cases htext : readJsonText cs with
      | error e =>
          rw [htext] at hread
          exact absurd hread error_ne_ok
      | ok u =>
          rw [htext] at hread
          exact congrArg Except.ok (Except.ok.inj hread)

/-- The front of CBOR is not read. -/
theorem Content.Stands.readCbor_cut {c : Content} {v : Value} (h : c.Stands v)
    {front back : Bytes} (hbytes : c.writeCbor = some (front ++ back)) (hback : back ≠ []) :
    readCbor? front = none := by
  rcases h.cbor _ hbytes with ⟨item, hspells, -⟩
  have hread := hspells.reads (2 * (front ++ back).length + 2) [] (Nat.le_add_right _ _)
  rw [List.append_nil] at hread
  -- The reader takes more steps for more bytes, which `cborExtends` allows for.
  have hfuel : 2 * front.length + 2 ≤ 2 * (front ++ back).length + 2 := by
    rw [List.length_append]
    omega
  unfold readCbor? CborItem.ofBytes?
  rw [(cborExtends hfuel).item.eq_none_of_cut hread hback]
  rfl

/-- The front of MessagePack is not read. -/
theorem Content.Stands.readMessagePack_cut {c : Content} {v : Value} (h : c.Stands v)
    {front back : Bytes} (hbytes : c.writeMessagePack = some (front ++ back)) (hback : back ≠ []) :
    readMessagePack? front = none := by
  have hread := (h.packs _ hbytes).reads (2 * (front ++ back).length + 2) [] (Nat.le_add_right _ _)
  rw [List.append_nil] at hread
  have hfuel : 2 * front.length + 2 ≤ 2 * (front ++ back).length + 2 := by
    rw [List.length_append]
    omega
  unfold readMessagePack?
  rw [(messagePackExtends hfuel).item.eq_none_of_cut hread hback]

/-- The front of a payload is not read. -/
theorem Fields.decode_cut {fs : Fields} (hnames : fs.names.Nodup) (hdata : ∀ f ∈ fs, f.2.IsData)
    {c : Content} (hprepare : fs.toValue.prepare = .ok c) {e : Encoding} (he : e ≠ .yaml)
    {layout : JsonLayout} {front back : Bytes} (hwrite : c.write e layout = .ok (front ++ back))
    (hback : back ≠ []) :
    ∃ cause, decode (.bytes front) (some e) = .error (.readerFailed e cause) := by
  have hstands := (Value.IsData.fields hnames hdata).stands c hprepare
  -- Each reader fails for its own reason: the JSON text lacks its closing brace, and the binary
  -- ones know the length from what they have read.
  cases e with
  | yaml => exact absurd rfl he
  | json =>
      rcases Fields.json_reads hnames hdata hprepare hwrite with ⟨b, rest, hpayload, hb, hreads⟩
      cases hread : readJson front with
      | ok w => exact absurd hread (readJson_cut hb hreads hpayload.symm hback w)
      | error f => exact decode_of_load_error he hread
  | cbor =>
      have hload : Encoding.cbor.load front = .error ⟨"CBORDecodeError", ""⟩ := by
        rw [Encoding.load_cbor, hstands.readCbor_cut (Content.write_cbor_eq_ok.mp hwrite) hback]
        rfl
      exact decode_of_load_error he hload
  | msgpack =>
      have hload : Encoding.msgpack.load front = .error ⟨"UnpackException", ""⟩ := by
        rw [Encoding.load_msgpack,
          hstands.readMessagePack_cut (Content.write_msgpack_eq_ok.mp hwrite) hback]
        rfl
      exact decode_of_load_error he hload

/-- A tree is made into a sound document. -/
theorem safe_toDocument {L : Value → Prop} {k : Nat} {P : Prop} (hL : LeafRule L)
    (stack : BlockStack) (tree : Expr) (asked : Option Value) :
    Safe L k P (do let v ← tree.build stack; toDocument v asked)
      fun _ d s => d.Sound L s.blocks.size := by
  refine Safe.builds_bind (builds_expr hL stack tree) fun v => ?_
  refine Safe.builds_bind (builds_make asked none) fun d => ?_
  exact (safe_document_map (P := P) hL d v).weaken fun h => ⟨h.1, .of_nil h.2⟩

/-- Only a text asks for an encoding. -/
theorem Encoding.ofValue_eq_ok {asked : Value} {e : Encoding}
    (h : Encoding.ofValue asked = .ok e) :
    ∃ s form, asked = .scalar (.text s form) := by
  unfold Encoding.ofValue at h
  split at h
  next s e' => exact ⟨s, .encoding e', rfl⟩
  next s form _ => exact ⟨s, form, rfl⟩
  next => exact absurd h error_ne_ok

/-- A new document is open, and in the encoding asked for. -/
theorem Document.make_ok {asked : Value} {e : Encoding} (hasked : Encoding.ofValue asked = .ok e)
    {pretty : Option Value} {d : Document} {s s' : Session}
    (h : Yields (Document.make (some asked) pretty) s (.ok d) s') :
    d.encoding = e ∧ d.payload = none := by
  rcases Encoding.ofValue_eq_ok hasked with ⟨t, form, rfl⟩
  unfold Document.make at h
  rcases yields_bind_eq_ok.mp h with ⟨config, m, -, hrest⟩
  rcases yields_bind_eq_ok.mp hrest with ⟨e', m', he', hd⟩
  rcases yields_ofExcept.mp he' with ⟨heq, -⟩
  rcases yields_pure.mp hd with ⟨hok, -⟩
  rw [Except.ok.inj hok, Except.ok.inj (heq.trans hasked)]
  exact ⟨rfl, rfl⟩

/-- The document that a tree is made into is as well. -/
theorem toDocument_ok {v asked : Value} {e : Encoding} (hasked : Encoding.ofValue asked = .ok e)
    {d : Document} {s s' : Session} (h : Yields (toDocument v (some asked)) s (.ok d) s') :
    d.encoding = e ∧ d.payload = none := by
  unfold toDocument at h
  rcases yields_bind_eq_ok.mp h with ⟨d₀, m, hmake, hmap⟩
  -- Setting the fields changes neither the encoding nor that the document is open.
  have hopen := Document.make_ok hasked hmake
  unfold Document.map at hmap
  rcases yields_bind_eq_ok.mp hmap with ⟨u, m₁, -, hmap⟩
  rcases yields_bind_eq_ok.mp hmap with ⟨w, m₂, -, hmap⟩
  rcases yields_bind_eq_ok.mp hmap with ⟨fs, m₃, -, hmap⟩
  rw [Except.ok.inj (yields_pure.mp hmap).1]
  exact hopen

/-- A document that is finalized has its fields encoded, and the session goes on without
    anything new in it but a record. -/
theorem Document.toBytes_ok {d d' : Document} (hopen : d.payload = none) {payload : Bytes}
    {s s' : Session} (h : Yields d.toBytes s (.ok (payload, d')) s') :
    (∃ c, (s.snapshot d.content.toValue).prepare = .ok c ∧
      c.write d.encoding d.layout = .ok payload) ∧ s'.leaves = s.leaves := by
  unfold Document.toBytes at h
  rw [hopen] at h
  rcases yields_bind_eq_ok.mp h with ⟨v, m₁, hcurrent, h₁⟩
  rcases yields_bind_eq_ok.mp h₁ with ⟨b, m₂, hencode, h₂⟩
  rcases yields_bind_eq_ok.mp h₂ with ⟨u, m₃, hlog, hlast⟩
  have hv : v = s.snapshot d.content.toValue ∧ m₁ = s := by
    unfold Document.current at hcurrent
    rw [yields_bind_ok (yields_get.mpr ⟨rfl, rfl⟩)] at hcurrent
    rcases yields_pure.mp hcurrent with ⟨hok, hm⟩
    exact ⟨Except.ok.inj hok, hm⟩
  rcases hv with ⟨rfl, rfl⟩
  -- What is left to do is to note that the document was finalized.
  rcases encode_ok hencode with ⟨c, hprepare, hwrite, rfl⟩
  rcases yields_modify.mp hlog with ⟨-, rfl⟩
  rcases yields_pure.mp hlast with ⟨hok, rfl⟩
  rw [(Prod.mk.inj (Except.ok.inj hok)).1]
  exact ⟨⟨c, hprepare, hwrite⟩, rfl⟩

/-- A payload is what data is written as, as long as no leaf node was made by hand from
    something else than a leaf. -/
theorem toBytes_written {l : Library} (h : l.Reached) {tree : Expr} {asked : Value} {e : Encoding}
    {payload : Bytes} {s : Session}
    (hrun : Yields (do let v ← tree.build l.stack; toBytes v (some asked)) l.session
      (.ok payload) s)
    (hleaves : ∀ v ∈ s.leaves, v.IsLeaf) (hasked : Encoding.ofValue asked = .ok e) :
    ∃ (fs : Fields) (c : Content) (layout : JsonLayout), fs.names.Nodup ∧
      (∀ f ∈ fs, f.2.IsData) ∧ fs.toValue.prepare = .ok c ∧ c.write e layout = .ok payload := by
  -- The document that is made on the way.
  rcases yields_bind_eq_ok.mp hrun with ⟨v, m, hbuild, hbytes⟩
  unfold toBytes at hbytes
  rcases yields_bind_eq_ok.mp hbytes with ⟨d, m', hdocument, hrest⟩
  rcases yields_bind_eq_ok.mp hrest with ⟨⟨b, d'⟩, m'', hfinal, hlast⟩
  rcases yields_pure.mp hlast with ⟨hok, rfl⟩
  rcases toDocument_ok hasked hdocument with ⟨rfl, hopen⟩
  rcases Document.toBytes_ok hopen hfinal with ⟨⟨c, hprepare, hwrite⟩, hsame⟩
  obtain rfl : payload = b := Except.ok.inj hok
  -- It is sound, so its fields are data.
  have hmade : Yields (do let v ← tree.build l.stack; toDocument v (some asked)) l.session (.ok d)
      m' :=
    yields_bind_eq_ok.mpr ⟨v, m, hbuild, hdocument⟩
  rcases safe_toDocument isLeaf_leafRule (P := True) (k := 0) l.stack tree (some asked) _ _ _ hmade
    with ⟨honward, hsafe⟩
  rw [hsame] at hleaves
  have hsound := h.sound isLeaf_leafRule fun v hv => hleaves v (honward.leaves v hv)
  rcases hsafe trivial hsound.session (Nat.zero_le _) hleaves with ⟨hm', -, hd⟩
  have hrecorded := (hd d rfl).recorded
  rcases (hm'.isData_snapshot (.fields hrecorded.1 hrecorded.2)).fields_of_eq
    (by rw [Session.snapshot_eq hm'.ordered, Fields.mapLive_toValue]) with ⟨fs, hfs, hnames, hdata⟩
  rw [hfs] at hprepare
  exact ⟨fs, c, d.layout, hnames, hdata, hprepare, hwrite⟩

/-- What a tree is written as is not read in part: of a payload that was cut off, in
    whatever place, no encoding but YAML makes a document, as long as no leaf node was
    made by hand from something else than a leaf. -/
theorem toBytes_cut_refused (l : Library) (h : l.Reached) (tree : Expr) (asked : Value)
    (e : Encoding) (payload : Bytes) (s : Session)
    (hrun : Yields (do let v ← tree.build l.stack; toBytes v (some asked)) l.session
      (.ok payload) s)
    (hleaves : ∀ v ∈ s.leaves, v.IsLeaf) (hasked : Encoding.ofValue asked = .ok e)
    (he : e ≠ .yaml) :
    ∀ front, front <+: payload → front ≠ payload →
      ∃ f, decode (.bytes front) (some e) = .error f ∧ f.kind? = some .parse := by
  rintro front ⟨back, rfl⟩ hne
  have hback : back ≠ [] := by
    rintro rfl
    exact hne (List.append_nil front).symm
  rcases toBytes_written h hrun hleaves hasked with ⟨fs, c, layout, hnames, hdata, hprepare, hwrite⟩
  rcases Fields.decode_cut hnames hdata hprepare he hwrite hback with ⟨cause, hdecode⟩
  exact ⟨_, hdecode, rfl⟩

/-- The payload of a tree when nothing else has been compiled, and the session after it. -/
def finishAlone (tree : Expr) (e : Encoding) : Except Failure Bytes × Session :=
  (do let v ← tree.build []
      toBytes v (some (.scalar (.text e.name (.encoding e)))) : Run Bytes).run.run .initial

theorem voucherTree_cut_refused :
    (∀ e ∈ [Encoding.json, .cbor, .msgpack],
      Yields (do let v ← voucherTree.build Library.initial.stack
                 toBytes v (some (.scalar (.text e.name (.encoding e))))) Library.initial.session
          (.ok ((finishAlone voucherTree e).1.toOption.getD [])) (finishAlone voucherTree e).2 ∧
        (∀ v ∈ (finishAlone voucherTree e).2.leaves, v.IsLeaf) ∧ e ≠ .yaml) ∧
    ∀ e ∈ [Encoding.json, .cbor, .msgpack], ∀ front,
      front <+: (finishAlone voucherTree e).1.toOption.getD [] →
        front ≠ (finishAlone voucherTree e).1.toOption.getD [] →
          ∃ f, decode (.bytes front) (some e) = .error f ∧ f.kind? = some .parse := by
  -- All that is to be known of the three runs is decided at once.
  have hruns : ∀ e ∈ [Encoding.json, .cbor, .msgpack],
      (finishAlone voucherTree e).1.toOption.isSome = true ∧
        (finishAlone voucherTree e).2.leaves.size = 0 ∧ e ≠ .yaml := by
    decide +kernel
  have hyps : ∀ e ∈ [Encoding.json, .cbor, .msgpack],
      Yields (do let v ← voucherTree.build Library.initial.stack
                 toBytes v (some (.scalar (.text e.name (.encoding e))))) Library.initial.session
          (.ok ((finishAlone voucherTree e).1.toOption.getD [])) (finishAlone voucherTree e).2 ∧
        (∀ v ∈ (finishAlone voucherTree e).2.leaves, v.IsLeaf) ∧ e ≠ .yaml := by
    intro e he
    rcases hruns e he with ⟨hok, hsize, hyaml⟩
    exact ⟨yields_getD [] hok, Session.isLeaf_of_size hsize, hyaml⟩
  refine ⟨hyps, fun e he => ?_⟩
  rcases hyps e he with ⟨hrun, hleaves, hyaml⟩
  exact toBytes_cut_refused .initial Relation.ReflTransGen.refl voucherTree _ e _ _ hrun hleaves rfl
    hyaml

end Docket
