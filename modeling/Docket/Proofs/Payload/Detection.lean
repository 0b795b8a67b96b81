import Docket.Proofs.Document.Calls
import Docket.Proofs.Payload.Truncation

/-!
# Payloads that tell their encoding

What is written is recognized by its first bytes, in whatever encoding it is, so it
need not be said in which one it is to be read.

A document is a mapping, and that shows at the front. In the binary encodings it begins
with the head of a map, however many entries there are, and no head of the one lies
among the heads of the other. In the text encodings it begins with ASCII: with a brace,
or with the mark of a YAML document, also if it has no entries.

In front of JSON there may be a byte order mark and blanks. Telling encodings apart
skips more than that, and reading JSON skips just that, so on what both of them skip
they agree (`startsJson_padded`, `readJson_padded`).

## Main definitions

* `Encoding.Recognized`: A payload that is read alike with and without its encoding.
* `utf8Mark`: The byte order mark of UTF-8.

## Theorems

* `detect?_text`: What begins with ASCII is no binary document.
* `Content.detect?_write`: A mapping that is written tells its encoding.
* `readJson_padded`: A mark and blanks in front of JSON do not matter.
* `toBytes_recognized`: Every payload is recognized.
-/

namespace Docket

/-- The byte order mark of UTF-8. -/
def utf8Mark : Bytes := [0xEF, 0xBB, 0xBF]

/-- A payload that tells its encoding, whether it is given as bytes or as a text: it is
    read alike with and without the encoding. JSON is so behind a mark and blanks, too. -/
structure Encoding.Recognized (e : Encoding) (payload : Bytes) : Prop where
  detected : Encoding.detect payload = .ok e
  decoded : ∀ p : Payload, p.toBytes = payload → decode p none = decode p (some e)
  /-- a payload that is not binary can be given as a text -/
  spelled : e.binary = false → (Payload.text (Document.payloadText payload)).toBytes = payload
  padded : e = .json → ∀ mark ∈ [[], utf8Mark], ∀ blanks, Blanks blanks →
    ∀ p : Payload, p.toBytes = mark ++ (encodeUtf8 blanks ++ payload) →
      Encoding.detect p.toBytes = .ok .json ∧ decode p none = decode (.bytes payload) none

/-- Where the mark of CBOR does not begin, only the first byte counts. -/
theorem startsCbor_cons {b : UInt8} (hb : b ≠ 0xD9) (rest : Bytes) :
    startsCbor (b :: rest) = (decide (0xA0 ≤ b) && decide (b ≤ 0xBF)) := by
  unfold startsCbor
  split
  next heq => exact absurd (List.cons.inj heq).1 hb
  next heq => rw [(List.cons.inj heq).1]
  next heq => exact absurd heq (List.cons_ne_nil _ _)

/-- What begins with ASCII, or with the mark of UTF-8, is no binary document. -/
theorem detect?_text {b : UInt8} (hb : b < 0x80 ∨ b = 0xEF) (rest : Bytes) :
    Encoding.detect? (b :: rest) =
      if startsJson (b :: rest) then some .json
      else if startsYaml (b :: rest) then some .yaml else none := by
  have hcbor : startsCbor (b :: rest) = false := by
    rw [startsCbor_cons (by grind)]
    grind
  have hpack : startsMessagePack (b :: rest) = false := by
    unfold startsMessagePack
    grind
  unfold Encoding.detect?
  rw [hcbor, hpack, if_neg Bool.false_ne_true, if_neg Bool.false_ne_true]

/-- A CBOR map begins like one, whatever the number of its entries. -/
theorem detect?_cborHead (n : Nat) (rest : Bytes) :
    Encoding.detect? (cborHead 5 n ++ rest) = some .cbor := by
  -- Only the lead byte matters, and there are 28 of them.
  have hlead : ∀ info < 28, ∀ more : Bytes,
      Encoding.detect? (UInt8.ofNat (5 * 32 + info) :: more) = some .cbor := by
    intro info hinfo more
    have hrange : UInt8.ofNat (5 * 32 + info) ≠ 0xD9 ∧
        (decide (0xA0 ≤ UInt8.ofNat (5 * 32 + info)) &&
          decide (UInt8.ofNat (5 * 32 + info) ≤ 0xBF)) = true := by
      revert info
      decide
    unfold Encoding.detect?
    rw [startsCbor_cons hrange.1, hrange.2, if_pos rfl]
  unfold cborHead
  by_cases h₁ : n < 24
  · rw [if_pos h₁]
    exact hlead n (by omega) _
  rw [if_neg h₁]
  by_cases h₂ : n < 2 ^ 8
  · rw [if_pos h₂]
    exact hlead 24 (by decide) _
  rw [if_neg h₂]
  by_cases h₃ : n < 2 ^ 16
  · rw [if_pos h₃]
    exact hlead 25 (by decide) _
  rw [if_neg h₃]
  by_cases h₄ : n < 2 ^ 32
  · rw [if_pos h₄]
    exact hlead 26 (by decide) _
  · rw [if_neg h₄]
    exact hlead 27 (by decide) _

/-- A MessagePack map begins like one, and not like a map in CBOR. -/
theorem detect?_messagePackHead {n : Nat} {head : Bytes}
    (h : messagePackHead? 0x80 16 mapLeads n = some head) (rest : Bytes) :
    Encoding.detect? (head ++ rest) = some .msgpack := by
  -- The bytes a map can begin with are none that tell a map in CBOR.
  have hlead : ∀ {lead : UInt8}, 0x80 ≤ lead ∧ lead ≤ 0x8F ∨ lead = 0xDE ∨ lead = 0xDF →
      ∀ more : Bytes, Encoding.detect? (lead :: more) = some .msgpack := by
    intro lead hlead more
    have hcbor : startsCbor (lead :: more) = false := by
      rw [startsCbor_cons (by grind)]
      grind
    have hpack : startsMessagePack (lead :: more) = true := by
      unfold startsMessagePack
      grind
    unfold Encoding.detect?
    rw [hcbor, hpack, if_neg Bool.false_ne_true, if_pos rfl]
  rcases messagePackHead_cases h with ⟨hn, rfl⟩ | ⟨l, hl, -, rfl⟩
  · refine hlead (Or.inl ?_) _
    revert n
    decide
  · unfold mapLeads at hl
    simp only [List.mem_cons, List.not_mem_nil, or_false] at hl
    rcases hl with rfl | rfl
    · exact hlead (Or.inr (Or.inl rfl)) _
    · exact hlead (Or.inr (Or.inr rfl)) _

/-- A mapping in JSON begins with a brace. -/
theorem writeJson_map {layout : JsonLayout} {entries : List (Value × Content)} {cs : List Char}
    (h : (Content.map entries).writeJson layout = .ok cs) : ∃ rest, cs = '\x7b' :: rest := by
  unfold Content.writeJson at h
  cases hat : (Content.map entries).jsonAt layout 0 with
  | error f =>
      rw [hat] at h
      exact absurd h error_ne_ok
  | ok text =>
      rw [hat] at h
      rw [← Except.ok.inj h]
      -- An empty mapping is written in one piece, without a line of its own.
      cases entries with
      | nil =>
          rw [Content.jsonAt] at hat
          exact ⟨_, (Except.ok.inj hat).symm⟩
      | cons e rest =>
          rw [Content.jsonAt] at hat
          · rcases except_bind_eq_ok hat with ⟨body, -, hbody⟩
            exact ⟨_, (Except.ok.inj hbody).symm⟩
          · exact List.cons_ne_nil _ _

/-- A mapping in YAML begins with the mark of a document. -/
theorem writeYaml_map {entries : List (Value × Content)} {cs : List Char}
    (h : (Content.map entries).writeYaml = some cs) : ∃ rest, cs = '-' :: '-' :: '-' :: rest := by
  unfold Content.writeYaml at h
  rw [Content.toYaml?, Option.map_map, Option.map_eq_some_iff] at h
  rcases h with ⟨nodes, -, rfl⟩
  cases nodes with
  | nil => exact ⟨_, rfl⟩
  | cons e rest => exact ⟨_, rfl⟩

/-- Blanks are no part of a mark, so telling encodings apart skips the mark and then
    the blanks. -/
theorem startsJson_padded {mark blanks : Bytes} (hmark : ∀ b ∈ mark, isMarkByte b = true)
    (hblanks : ∀ b ∈ blanks, isBlankByte b = true ∧ isMarkByte b = false) (rest : Bytes) :
    startsJson (mark ++ (blanks ++ 0x7B :: rest)) = true := by
  have hnone : (blanks ++ 0x7B :: rest).dropWhile isMarkByte = blanks ++ 0x7B :: rest := by
    cases blanks with
    | nil => rfl
    | cons b bs =>
        rw [List.cons_append, List.dropWhile_cons_of_neg]
        rw [(hblanks b List.mem_cons_self).2]
        exact Bool.false_ne_true
  have hstart : textStart (mark ++ (blanks ++ 0x7B :: rest)) = 0x7B :: rest := by
    unfold textStart
    rw [List.dropWhile_append_of_pos hmark, hnone,
      List.dropWhile_append_of_pos fun b hb => (hblanks b hb).1]
    rfl
  unfold startsJson
  rw [hstart]
  rfl

theorem encodeUtf8_brace (rest : List Char) :
    encodeUtf8 ('\x7b' :: rest) = 0x7B :: encodeUtf8 rest :=
  encodeUtf8_ascii ⟨by decide, by decide⟩ rest

/-- The blanks of JSON are blanks of ASCII. -/
theorem isJsonBlank_byte {c : Char} (h : isJsonBlank c = true) : IsAscii c ∧
    isBlankByte (UInt8.ofNat c.toNat) = true ∧ isMarkByte (UInt8.ofNat c.toNat) = false := by
  unfold isJsonBlank at h
  simp only [Bool.or_eq_true, beq_iff_eq] at h
  rcases h with ((rfl | rfl) | rfl) | rfl
  · exact ⟨⟨by decide, by decide⟩, by decide⟩
  · exact ⟨⟨by decide, by decide⟩, by decide⟩
  · exact ⟨⟨by decide, by decide⟩, by decide⟩
  · exact ⟨⟨by decide, by decide⟩, by decide⟩

theorem encodeUtf8_blanks {blanks : List Char} (h : Blanks blanks) :
    encodeUtf8 blanks = blanks.map fun c => UInt8.ofNat c.toNat := by
  induction blanks with
  | nil => rfl
  | cons c rest ih =>
      unfold Blanks at h
      rw [List.forall_mem_cons] at h
      rw [encodeUtf8_ascii (isJsonBlank_byte h.1).1, ih h.2, List.map_cons]

/-- What begins with a brace behind a mark and blanks is told to be JSON. -/
theorem detect?_padded {mark : Bytes} (hmark : mark ∈ [[], utf8Mark]) {blanks : List Char}
    (hblanks : Blanks blanks) (rest : Bytes) :
    Encoding.detect? (mark ++ (encodeUtf8 blanks ++ 0x7B :: rest)) = some .json := by
  have hjson : startsJson (mark ++ (encodeUtf8 blanks ++ 0x7B :: rest)) = true := by
    refine startsJson_padded (fun b hb => ?_) (fun b hb => ?_) rest
    · rw [List.mem_cons, List.mem_singleton] at hmark
      rcases hmark with rfl | rfl
      · exact absurd hb List.not_mem_nil
      · simp only [utf8Mark, List.mem_cons, List.not_mem_nil, or_false] at hb
        rcases hb with rfl | rfl | rfl <;> decide
    · rw [encodeUtf8_blanks hblanks] at hb
      rcases List.mem_map.mp hb with ⟨c, hc, rfl⟩
      exact (isJsonBlank_byte (hblanks c hc)).2
  -- The first byte is that of a mark, of a blank or the brace.
  have hfirst : ∃ b more, mark ++ (encodeUtf8 blanks ++ 0x7B :: rest) = b :: more ∧
      (b < 0x80 ∨ b = 0xEF) := by
    rw [List.mem_cons, List.mem_singleton] at hmark
    rcases hmark with rfl | rfl
    · cases blanks with
      | nil => exact ⟨0x7B, rest, rfl, Or.inl (by decide)⟩
      | cons c cs =>
          have hascii := (isJsonBlank_byte (hblanks c List.mem_cons_self)).1
          rw [encodeUtf8_ascii hascii]
          exact ⟨_, _, rfl, Or.inl hascii.byte.2⟩
    · exact ⟨0xEF, _, rfl, Or.inr rfl⟩
  rcases hfirst with ⟨b, more, heq, hb⟩
  rw [heq] at hjson ⊢
  rw [detect?_text hb, hjson, if_pos rfl]

/-- A mapping that is written tells its encoding. -/
theorem Content.detect?_write {entries : List (Value × Content)} {e : Encoding}
    {layout : JsonLayout} {payload : Bytes}
    (h : (Content.map entries).write e layout = .ok payload) :
    Encoding.detect? payload = some e := by
  -- A brace, three dashes, and a head of a map in either of the binary encodings.
  cases e with
  | json =>
      rcases Content.write_json_eq_ok.mp h with ⟨cs, hwrite, rfl⟩
      rcases writeJson_map hwrite with ⟨rest, rfl⟩
      have hnone : Blanks [] := fun c hc => absurd hc List.not_mem_nil
      rw [encodeUtf8_brace]
      exact detect?_padded List.mem_cons_self hnone _
  | yaml =>
      rcases Content.write_yaml_eq_ok.mp h with ⟨cs, hwrite, rfl⟩
      rcases writeYaml_map hwrite with ⟨rest, rfl⟩
      iterate 3 rw [encodeUtf8_ascii ⟨by decide, by decide⟩]
      rw [detect?_text (Or.inl (by decide))]
      rfl
  | cbor =>
      have hwrite := Content.write_cbor_eq_ok.mp h
      rw [Content.writeCbor] at hwrite
      rcases Option.bind_eq_some_iff.mp hwrite with ⟨head, hhead, hrest⟩
      rcases Option.bind_eq_some_iff.mp hrest with ⟨body, -, hpayload⟩
      unfold cborSized? at hhead
      rw [← Option.some.inj hpayload]
      split at hhead
      next =>
        rw [← Option.some.inj hhead]
        exact detect?_cborHead _ body
      next => cases hhead
  | msgpack =>
      have hwrite := Content.write_msgpack_eq_ok.mp h
      rw [Content.writeMessagePack] at hwrite
      rcases Option.bind_eq_some_iff.mp hwrite with ⟨head, hhead, hrest⟩
      rcases Option.bind_eq_some_iff.mp hrest with ⟨body, -, hpayload⟩
      rw [← Option.some.inj hpayload]
      exact detect?_messagePackHead hhead body

/-- JSON is read alike behind a mark and blanks. -/
theorem readJson_padded {b : Char} {rest : List Char} {v : Value} (hb : IsAscii b)
    (h : Reads ('\x7b' :: b :: rest) v) {mark : Bytes} (hmark : mark ∈ [[], utf8Mark])
    {blanks : List Char} (hblanks : Blanks blanks) :
    readJson (mark ++ (encodeUtf8 blanks ++ encodeUtf8 ('\x7b' :: b :: rest))) = .ok v := by
  have happend : encodeUtf8 blanks ++ encodeUtf8 ('\x7b' :: b :: rest) =
      encodeUtf8 (blanks ++ '\x7b' :: b :: rest) := List.flatMap_append.symm
  have htext : readJsonText (blanks ++ '\x7b' :: b :: rest) = .ok v := by
    have hskip : skipJsonBlanks (blanks ++ '\x7b' :: b :: rest) = '\x7b' :: b :: rest :=
      skipJsonBlanks_blanks hblanks rfl
    have hread := h.reads (2 * (blanks ++ '\x7b' :: b :: rest).length + 2) []
      (by rw [List.length_append]; omega) stops_nil
    rw [List.append_nil] at hread
    unfold readJsonText
    rw [hskip, hread]
    rfl
  have hdecode : decodeJsonBytes (mark ++ encodeUtf8 (blanks ++ '\x7b' :: b :: rest)) =
      .ok (blanks ++ '\x7b' :: b :: rest) := by
    rw [List.mem_cons, List.mem_singleton] at hmark
    rcases hmark with rfl | rfl
    · have hbrace : IsAscii '\x7b' := ⟨by decide, by decide⟩
      rw [List.nil_append]
      -- Without a mark the coding is told by the first two characters.
      match blanks, hblanks with
      | [], _ => exact decodeJsonBytes_encodeUtf8 hbrace hb rest
      | [c], hc =>
          exact decodeJsonBytes_encodeUtf8 (isJsonBlank_byte (hc c List.mem_cons_self)).1 hbrace _
      | c :: d :: more, hcd =>
          exact decodeJsonBytes_encodeUtf8 (isJsonBlank_byte (hcd c List.mem_cons_self)).1
            (isJsonBlank_byte (hcd d (List.mem_cons_of_mem c List.mem_cons_self))).1 _
    · exact decodeUtf8_encodeUtf8 _
  unfold readJson
  rw [happend, hdecode]
  simp only []
  rw [htext]
  rfl

/-- A payload whose encoding is told is read in that encoding. -/
theorem decode_of_detect {p : Payload} {e : Encoding} (h : Encoding.detect p.toBytes = .ok e) :
    decode p none = decode p (some e) := by
  have hraw : p.raw.detect = .ok e := by
    rw [RawPayload.detect, p.toBytes_raw]
    exact h
  unfold decode RawPayload.decode
  dsimp only
  rw [hraw]
  rfl

/-- JSON may be given either way. -/
theorem decode_json (p : Payload) : decode p (some .json) = Encoding.read .json p.toBytes := by
  rw [decode_some, Encoding.binary, Bool.and_false]
  rfl

/-- What the fields of data are written as is recognized. -/
theorem Fields.recognized {fs : Fields} (hnames : fs.names.Nodup) (hdata : ∀ f ∈ fs, f.2.IsData)
    {c : Content} (hprepare : fs.toValue.prepare = .ok c) {e : Encoding} {layout : JsonLayout}
    {payload : Bytes} (hwrite : c.write e layout = .ok payload) : e.Recognized payload := by
  have hdetect : Encoding.detect payload = .ok e := by
    rw [Fields.toValue, Value.dict, Value.prepare] at hprepare
    rcases except_bind_eq_ok hprepare with ⟨entries, -, hc⟩
    cases hc
    unfold Encoding.detect
    rw [Content.detect?_write hwrite]
  constructor
  case detected => exact hdetect
  case decoded =>
    rintro p rfl
    exact decode_of_detect hdetect
  case spelled =>
    intro hbinary
    exact Document.encodeUtf8_payloadText (yields_encode hprepare hwrite .initial) hbinary
  case padded =>
    rintro rfl mark hmark blanks hblanks p hp
    -- The padding is skipped before the brace, both when the encoding is told and when it is
    -- read.
    rcases Fields.json_reads hnames hdata hprepare hwrite with ⟨b, rest, rfl, hb, hreads⟩
    have hpadded : Encoding.detect p.toBytes = .ok .json := by
      unfold Encoding.detect
      rw [hp, encodeUtf8_brace, detect?_padded hmark hblanks]
    refine ⟨hpadded, ?_⟩
    have hwhole : Encoding.detect (Payload.bytes (encodeUtf8 ('\x7b' :: b :: rest))).toBytes =
        .ok .json := hdetect
    rw [decode_of_detect hpadded, decode_of_detect hwhole, decode_json, decode_json, hp]
    rw [Encoding.read, Encoding.read, Encoding.load_json, Encoding.load_json,
      readJson_padded hb hreads hmark hblanks, Payload.toBytes, readJson_encodeUtf8 hb hreads]

/-- Every payload of a tree tells its encoding, in either layout, as long as no leaf
    node was made by hand from something else than a leaf. -/
theorem toBytes_recognized (l : Library) (h : l.Reached) (tree : Expr) (asked : Value)
    (e : Encoding) (payload : Bytes) (s : Session)
    (hrun : Yields (do let v ← tree.build l.stack; toBytes v (some asked)) l.session
      (.ok payload) s)
    (hleaves : ∀ v ∈ s.leaves, v.IsLeaf) (hasked : Encoding.ofValue asked = .ok e) :
    e.Recognized payload := by
  rcases toBytes_written h hrun hleaves hasked with
    ⟨fs, c, layout, hnames, hdata, hprepare, hwrite⟩
  exact Fields.recognized hnames hdata hprepare hwrite

theorem voucherTree_recognized :
    (∀ e ∈ Encoding.all,
      Yields (do let v ← voucherTree.build Library.initial.stack
                 toBytes v (some (.scalar (.text e.name (.encoding e))))) Library.initial.session
          (.ok ((finishAlone voucherTree e).1.toOption.getD [])) (finishAlone voucherTree e).2 ∧
        ∀ v ∈ (finishAlone voucherTree e).2.leaves, v.IsLeaf) ∧
    ∀ e ∈ Encoding.all, e.Recognized ((finishAlone voucherTree e).1.toOption.getD []) := by
  have hruns : ∀ e ∈ Encoding.all, (finishAlone voucherTree e).1.toOption.isSome = true ∧
      (finishAlone voucherTree e).2.leaves.size = 0 := by
    decide +kernel
  have hyps : ∀ e ∈ Encoding.all,
      Yields (do let v ← voucherTree.build Library.initial.stack
                 toBytes v (some (.scalar (.text e.name (.encoding e))))) Library.initial.session
          (.ok ((finishAlone voucherTree e).1.toOption.getD [])) (finishAlone voucherTree e).2 ∧
        ∀ v ∈ (finishAlone voucherTree e).2.leaves, v.IsLeaf :=
    fun e he => ⟨yields_getD [] (hruns e he).1, Session.isLeaf_of_size (hruns e he).2⟩
  refine ⟨hyps, fun e he => ?_⟩
  rcases hyps e he with ⟨hrun, hleaves⟩
  exact toBytes_recognized .initial Relation.ReflTransGen.refl voucherTree _ e _ _ hrun hleaves rfl

end Docket
