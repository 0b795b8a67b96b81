import Docket.Proofs.Payload.Preparation
import Docket.Proofs.Recording.Ownership
import Docket.Proofs.Text.Utf8

/-!
# Calls of documents

What each call of a document comes to, given the fields that are seen in it. Reading
the fields makes a copy of them, which works out if every leaf can be copied;
finalizing encodes the fields unless that has been done; a closed document takes no
more fields. An action that fails leaves all documents as they are.

Data consists of leaves that can be copied, except where a leaf node was made by hand
around something that is no leaf at all. Such a leaf is enough to make a copy of the
whole document impossible.

## Main definitions

* `Value.Transfers`: A leaf that can be copied and brings no block along.
* `Session.seen`: Fields as they are seen.
* `Document.fieldValue`: What a tree stands for as the value of a field.

## Theorems

* `transfers_leafRule`: What transfers may be a leaf.
* `Session.Sound.copyFault?_snapshot`: What is written out can be copied.
* `yields_asMap`, `yields_map_ok`, `yields_field_ok`: Reading and adding fields.
* `yields_toBytes_of_encode`, `yields_toBytes_of_payload`: Finalizing, and after that.
* `Library.after_of_error`: A failed action leaves all documents as they are.
-/

namespace Docket

/-- A value that can be copied and brings no block along. -/
def Value.Transfers (v : Value) : Prop := v.isFree = true ∧ v.copyFault? = none

/-- Of two faults the first one counts. -/
theorem orElse_eq_none {α : Type} {a b : Option α} :
    (a <|> b) = none ↔ a = none ∧ b = none := by
  cases a with
  | none => simp
  | some x => simp

mutual

theorem Value.made_of_transfers : (v : Value) → v.isFree = true → v.copyFault? = none →
    v.Made Value.Transfers
  | .node n, hfree, hcopy => by
    rw [Value.copyFault?] at hcopy
    exact Node.clean_of_transfers n hfree hcopy
  | .items _ xs, hfree, hcopy => by
    rw [Value.copyFault?] at hcopy
    exact madeItems_of_transfers xs hfree hcopy
  | .mapping .readOnly _, _, hcopy => by simp [Value.copyFault?] at hcopy
  | .mapping .plain entries, hfree, hcopy => madeEntries_of_transfers entries hfree hcopy
  | .mapping .ordered entries, hfree, hcopy => madeEntries_of_transfers entries hfree hcopy
  | .mapping .frozen entries, hfree, hcopy => madeEntries_of_transfers entries hfree hcopy
  | .mapping .pairs entries, hfree, hcopy => madeEntries_of_transfers entries hfree hcopy
  | .mapping .callable entries, hfree, hcopy => madeEntries_of_transfers entries hfree hcopy
  | .generator .., _, hcopy => by simp [Value.copyFault?] at hcopy
  | .live _, _, _ => trivial
  | .tag .., _, _ => trivial
  | .scalar _, _, _ => trivial
  | .alien _, _, _ => trivial
  | .range .., _, _ => trivial
  | .encodings, _, _ => trivial
  | .body _, _, _ => trivial
  | .bodyItems .., _, _ => trivial
  | .failure _, _, _ => trivial
  | .block _, _, _ => trivial
  | .fieldRef .., _, _ => trivial

theorem madeItems_of_transfers : (xs : List Value) → itemsFree xs = true →
    Value.copyFault?.firstFault xs = none → madeItems Value.Transfers xs
  | [], _, _ => trivial
  | v :: rest, hfree, hcopy => by
    rw [itemsFree, Bool.and_eq_true] at hfree
    rw [Value.copyFault?.firstFault, orElse_eq_none] at hcopy
    exact ⟨Value.made_of_transfers v hfree.1 hcopy.1,
      madeItems_of_transfers rest hfree.2 hcopy.2⟩

theorem madeEntries_of_transfers : (entries : List (Value × Value)) →
    entriesFree entries = true → Value.copyFault?.entriesFault entries = none →
      madeEntries Value.Transfers entries
  | [], _, _ => trivial
  | (k, v) :: rest, hfree, hcopy => by
    rw [entriesFree, Bool.and_eq_true, Bool.and_eq_true] at hfree
    rw [Value.copyFault?.entriesFault, orElse_eq_none, orElse_eq_none] at hcopy
    exact ⟨Value.made_of_transfers v hfree.2.1 hcopy.2.1,
      madeEntries_of_transfers rest hfree.2.2 hcopy.2.2⟩

theorem Node.clean_of_transfers : (n : Node) → n.isFree = true →
    Value.copyFault?.nodeFault n = none → n.Clean Value.Transfers
  | .scalar v _, hfree, hcopy => by
    rw [Value.copyFault?.nodeFault] at hcopy
    exact ⟨hfree, hcopy⟩
  | .seq items, hfree, hcopy => by
    rw [Value.copyFault?.nodeFault] at hcopy
    exact cleanNodes_of_transfers items hfree hcopy
  | .mapping entries, hfree, hcopy => by
    rw [Value.copyFault?.nodeFault] at hcopy
    exact cleanEntries_of_transfers entries hfree hcopy
  | .nested _, _, _ => trivial
  | .raw v, hfree, hcopy => by
    rw [Value.copyFault?.nodeFault] at hcopy
    exact Value.made_of_transfers v hfree hcopy

theorem cleanNodes_of_transfers : (ns : List Node) → nodesFree ns = true →
    Value.copyFault?.nodesFault ns = none → cleanNodes Value.Transfers ns
  | [], _, _ => trivial
  | n :: rest, hfree, hcopy => by
    rw [nodesFree, Bool.and_eq_true] at hfree
    rw [Value.copyFault?.nodesFault, orElse_eq_none] at hcopy
    exact ⟨Node.clean_of_transfers n hfree.1 hcopy.1,
      cleanNodes_of_transfers rest hfree.2 hcopy.2⟩

theorem cleanEntries_of_transfers : (ns : List (Name × Node)) → nodeEntriesFree ns = true →
    Value.copyFault?.nodeEntriesFault ns = none → cleanEntries Value.Transfers ns
  | [], _, _ => trivial
  | (_, n) :: rest, hfree, hcopy => by
    rw [nodeEntriesFree, Bool.and_eq_true] at hfree
    rw [Value.copyFault?.nodeEntriesFault, orElse_eq_none] at hcopy
    exact ⟨Node.clean_of_transfers n hfree.1 hcopy.1,
      cleanEntries_of_transfers rest hfree.2 hcopy.2⟩

end

/-- What can be copied and brings no block along may be a leaf. -/
theorem transfers_leafRule : LeafRule Value.Transfers where
  scalar _ _ := ⟨rfl, rfl⟩
  free v h := Value.held_of_isFree v h.1
  made v h := Value.made_of_transfers v h.1 h.2

/-! ## Copies -/

theorem copyFault?_items {xs : List Value} (h : ∀ v ∈ xs, v.copyFault? = none) :
    Value.copyFault?.firstFault xs = none := by
  induction xs with
  | nil => rfl
  | cons v rest ih =>
      rw [List.forall_mem_cons] at h
      rw [Value.copyFault?.firstFault, orElse_eq_none]
      exact ⟨h.1, ih h.2⟩

theorem copyFault?_toValue {fs : Fields} (h : ∀ f ∈ fs, f.2.copyFault? = none) :
    fs.toValue.copyFault? = none := by
  change Value.copyFault?.entriesFault (fs.map fun f => (f.1.toValue, f.2)) = none
  induction fs with
  | nil => rfl
  | cons f rest ih =>
      rw [List.forall_mem_cons] at h
      rw [List.map_cons, Value.copyFault?.entriesFault, orElse_eq_none, orElse_eq_none]
      exact ⟨rfl, h.1, ih h.2⟩

/-- Recorded values can be copied once the blocks they hold are replaced by what can be
    copied. -/
theorem Value.Recorded.copyFault? {v : Value} (h : v.Recorded Value.Transfers)
    {f : Nat → Value} (hf : ∀ j ∈ v.held, (f j).copyFault? = none) :
    (v.mapLive f).copyFault? = none := by
  induction h with
  | @leaf v h =>
      -- A leaf holds no block.
      rw [Value.mapLive_free (Value.held_of_isFree v h.1)]
      exact h.2
  | live id => exact hf id (List.mem_singleton.mpr rfl)
  | @list xs h ih =>
      rw [Value.list, Value.mapLive, mapLiveItems_eq_map]
      refine copyFault?_items fun v hv => ?_
      rcases List.mem_map.mp hv with ⟨w, hw, rfl⟩
      exact ih w hw fun j hj => hf j (mem_heldInItems hw hj)
  | @fields fs hnames h ih =>
      rw [Fields.held_toValue] at hf
      rw [Fields.mapLive_toValue]
      refine copyFault?_toValue fun p hp => ?_
      rcases List.mem_map.mp hp with ⟨q, hq, rfl⟩
      exact ih q hq fun j hj => hf j (Fields.mem_held.mpr ⟨q, hq, hj⟩)

/-- What is written out can be copied. -/
theorem Session.Sound.copyFault?_snapshot {s : Session} (hs : s.Sound Value.Transfers)
    {v : Value} (hv : v.Recorded Value.Transfers) : (s.snapshot v).copyFault? = none := by
  have hfields : ∀ i, (Fields.toValue (s.snapshotFields i)).copyFault? = none := by
    refine hs.ordered.induction fun i ih => copyFault?_toValue fun p hp => ?_
    rcases List.mem_map.mp hp with ⟨q, hq, rfl⟩
    rw [Session.snapshot_eq hs.ordered]
    exact (hs.filled i q hq).copyFault? fun j hj => ih j (Fields.mem_held.mpr ⟨q, hq, hj⟩)
  rw [Session.snapshot_eq hs.ordered]
  exact hv.copyFault? fun j _ => hfields j

/-! ## Fields that are seen -/

/-- Fields written out. -/
def Session.seen (s : Session) (fs : Fields) : Fields := fs.map fun f => (f.1, s.snapshot f.2)

section

variable {s t : Session}

theorem Session.snapshot_toValue (hs : s.Ordered) (fs : Fields) :
    s.snapshot fs.toValue = (s.seen fs).toValue := by
  rw [Session.snapshot_eq hs, Fields.mapLive_toValue]
  refine congrArg Fields.toValue (List.map_congr_left fun p _ => congrArg (Prod.mk p.1) ?_)
  exact (Session.snapshot_eq hs p.2).symm

theorem Session.seen_set (s : Session) (fs : Fields) (name : Name) (v : Value) :
    s.seen (fs.set name v) = (s.seen fs).set name (s.snapshot v) := by
  induction fs with
  | nil => rfl
  | cons f rest ih =>
      simp only [Session.seen, List.map_cons, Fields.set] at ih ⊢
      by_cases hsame : f.1.same name = true
      · simp [hsame]
      · simp [hsame, ih]

theorem Session.seen_merge (s : Session) (fs news : Fields) :
    s.seen (fs.merge news) = (s.seen fs).merge (s.seen news) := by
  induction news generalizing fs with
  | nil => rfl
  | cons f rest ih =>
      have hmerge : fs.merge (f :: rest) = (fs.set f.1 f.2).merge rest := rfl
      rw [hmerge, ih, s.seen_set]
      rfl

end

/-! ## What calls come to -/

/-- The settings are looked at, and have to be valid. -/
theorem yields_configuration {s s' : Session} {r : Except Failure Configuration} :
    Yields Run.configuration s r s' ↔ r = s.settings.validate ∧ s' = s := by
  unfold Run.configuration
  rw [yields_bind_ok (yields_get.mpr ⟨rfl, rfl⟩), yields_ofExcept]

namespace Document

variable {d d' : Document} {s s' t : Session}

theorem yields_current {r : Except Failure Value} :
    Yields d.current s r s' ↔ r = .ok (s.snapshot d.content.toValue) ∧ s' = s := by
  unfold current
  rw [yields_bind_ok (yields_get.mpr ⟨rfl, rfl⟩), yields_pure]

/-- A copy of the fields, if there can be one. -/
theorem yields_asMap (h : (s.snapshot d.content.toValue).copyFault? = none) :
    Yields d.asMap s (.ok (s.snapshot d.content.toValue)) s := by
  unfold asMap
  rw [yields_bind_ok (yields_current.mpr ⟨rfl, rfl⟩)]
  simp only [h]
  exact yields_pure.mpr ⟨rfl, rfl⟩

theorem isClosed_of_payload {p : Bytes} (h : d.payload = some p) : d.isClosed = true := by
  simp [isClosed, h]

theorem isClosed_eq_false : d.isClosed = false ↔ d.payload = none := by
  simp [isClosed]

theorem yields_ensureOpen {r : Except Failure Unit} : Yields d.ensureOpen s r s' ↔
    r = (if d.isClosed then .error .finalized else .ok ()) ∧ s' = s := by
  unfold ensureOpen
  cases d.isClosed with
  | true =>
      simp only [if_true]
      exact yields_throw
  | false =>
      simp only [Bool.false_eq_true, if_false]
      exact yields_pure

/-- An open document lets a call go on. -/
theorem yields_of_open {α : Type} (h : d.isClosed = false) {f : Unit → Run α}
    {r : Except Failure α} : Yields (d.ensureOpen >>= f) s r s' ↔ Yields (f ()) s r s' := by
  refine yields_bind_ok (yields_ensureOpen.mpr ⟨?_, rfl⟩)
  simp [h]

/-- A closed document does not. -/
theorem yields_of_closed {α : Type} (h : d.isClosed = true) (f : Unit → Run α) (s : Session) :
    Yields (d.ensureOpen >>= f) s (.error .finalized) s := by
  have hfail : Yields d.ensureOpen s (.error .finalized) s := by
    refine yields_ensureOpen.mpr ⟨?_, rfl⟩
    simp [h]
  exact (yields_bind_error hfail).mpr ⟨rfl, rfl⟩

theorem open_of_yields {α : Type} {f : Unit → Run α} {a : α}
    (h : Yields (d.ensureOpen >>= f) s (.ok a) s') : d.isClosed = false := by
  cases hclosed : d.isClosed with
  | false => rfl
  | true => exact absurd (yields_unique h (yields_of_closed hclosed f s)).1 ok_ne_error

/-- A closed document takes no more fields. -/
theorem refuses_of_closed (h : d.isClosed = true) (v : Value) (s : Session) :
    Yields (d.map v) s (.error .finalized) s ∧
      ∀ name, Yields (d.field name v) s (.error .finalized) s :=
  ⟨yields_of_closed h _ s, fun _ => yields_of_closed h _ s⟩

/-- Fields can always be taken over from what was compiled. -/
theorem exists_topFields (m : Value) (s : Session) : ∃ fs, Yields (topFields m) s (.ok fs) s := by
  unfold topFields
  split
  · exact ⟨_, yields_fieldsOf.mpr ⟨rfl, rfl⟩⟩
  · exact ⟨_, yields_pure.mpr ⟨rfl, rfl⟩⟩
  · exact ⟨_, yields_pure.mpr ⟨rfl, rfl⟩⟩

/-- Adding a tree evaluates the tree and merges the fields it stands for. -/
theorem yields_map_ok {v : Value} : Yields (d.map v) s (.ok d') s' ↔
    d.isClosed = false ∧ ∃ m fs, Yields (toMap v) s (.ok m) s' ∧
      Yields (topFields m) s' (.ok fs) s' ∧
      d' = { d with content := d.content.merge fs } := by
  unfold map
  constructor
  · intro h
    have hopen := open_of_yields h
    rw [yields_of_open hopen] at h
    rcases yields_bind_eq_ok.mp h with ⟨m, u, hm, h⟩
    rcases yields_bind_eq_ok.mp h with ⟨fs, w, hfs, h⟩
    -- The fields are only looked at.
    have hw := eq_of_topFields hfs
    rcases yields_pure.mp h with ⟨hd', rfl⟩
    subst hw
    exact ⟨hopen, m, fs, hm, hfs, Except.ok.inj hd'⟩
  · rintro ⟨hopen, m, fs, hm, hfs, rfl⟩
    rw [yields_of_open hopen, yields_bind_ok hm, yields_bind_ok hfs]
    exact yields_pure.mpr ⟨rfl, rfl⟩

/-- What a tree stands for as the value of a field. -/
def fieldValue (name : Name) (v : Value) : Run Value := do (← toNode v name).evaluate

/-- Adding a field evaluates its tree and sets the field. -/
theorem yields_field_ok {text : String} {form : TextForm} {v : Value} :
    Yields (d.field (.scalar (.text text form)) v) s (.ok d') s' ↔
      d.isClosed = false ∧ ∃ w, Yields (fieldValue ⟨text, form⟩ v) s (.ok w) s' ∧
        d' = { d with content := d.content.set ⟨text, form⟩ w } := by
  unfold field fieldValue
  constructor
  · intro h
    have hopen := open_of_yields h
    rw [yields_of_open hopen] at h
    rcases yields_bind_eq_ok.mp h with ⟨n, u, hn, h⟩
    rcases yields_bind_eq_ok.mp h with ⟨w, x, hw, h⟩
    rcases yields_pure.mp h with ⟨hd', rfl⟩
    exact ⟨hopen, w, (yields_bind_ok hn).mpr hw, Except.ok.inj hd'⟩
  · rintro ⟨hopen, w, h, rfl⟩
    rw [yields_of_open hopen]
    rcases yields_bind_eq_ok.mp h with ⟨n, u, hn, hw⟩
    rw [yields_bind_ok hn, yields_bind_ok hw]
    exact yields_pure.mpr ⟨rfl, rfl⟩

/-- A field whose name is no text is not set. -/
theorem text_of_yields_field {name v : Value} (h : Yields (d.field name v) s (.ok d') s') :
    ∃ text form, name = .scalar (.text text form) := by
  unfold field at h
  rw [yields_of_open (open_of_yields h)] at h
  split at h
  · exact ⟨_, _, rfl⟩
  · exact absurd h not_yields_throw_ok

/-! ### Finalizing -/

/-- The fields cannot be encoded: the document stays as it is. -/
theorem yields_toBytes_of_error (hopen : d.payload = none) {e : Failure}
    (h : Yields (encode (s.snapshot d.content.toValue) d.encoding d.layout) s (.error e) s') :
    Yields d.toBytes s (.error e) s' := by
  unfold toBytes
  simp only [hopen]
  rw [yields_bind_ok (yields_current.mpr ⟨rfl, rfl⟩)]
  exact (yields_bind_error h).mpr ⟨rfl, rfl⟩

/-- The fields are encoded, which closes the document. -/
theorem yields_toBytes_of_encode (hopen : d.payload = none) {p : Bytes}
    (h : Yields (encode (s.snapshot d.content.toValue) d.encoding d.layout) s (.ok p) s') :
    ∃ t, Yields d.toBytes s (.ok (p, { d with payload := some p })) t := by
  let record := LogRecord.finalized d.encoding d.content.length p.length
  have hlog : Yields (Run.log record) s' (.ok ()) { s' with records := s'.records.push record } :=
    yields_modify.mpr ⟨rfl, rfl⟩
  refine ⟨{ s' with records := s'.records.push record }, ?_⟩
  unfold toBytes
  simp only [hopen]
  rw [yields_bind_ok (yields_current.mpr ⟨rfl, rfl⟩), yields_bind_ok h, yields_bind_ok hlog]
  exact yields_pure.mpr ⟨rfl, rfl⟩

/-- A closed document gives its payload. -/
theorem yields_toBytes_of_payload {p : Bytes} (h : d.payload = some p) (s : Session) :
    Yields d.toBytes s (.ok (p, d)) s := by
  unfold toBytes
  simp only [h]
  exact yields_pure.mpr ⟨rfl, rfl⟩

/-- Finalizing closes the document with the encoded fields, or finds it closed. -/
theorem toBytes_eq_ok {p : Bytes} (h : Yields d.toBytes s (.ok (p, d')) s') :
    (d.payload = some p ∧ d' = d) ∨ d.payload = none ∧ d' = { d with payload := some p } ∧
      Yields (encode (s.snapshot d.content.toValue) d.encoding d.layout) s (.ok p) s := by
  cases hpayload : d.payload with
  | some q =>
      have hsame := (yields_unique h (yields_toBytes_of_payload hpayload s)).1
      simp only [Except.ok.injEq, Prod.mk.injEq] at hsame
      exact Or.inl ⟨congrArg some hsame.1.symm, hsame.2⟩
  | none =>
      cases hresult : (encode (s.snapshot d.content.toValue) d.encoding d.layout).run.run s with
      | mk r t =>
          cases r with
          | error e =>
              have hfail := yields_toBytes_of_error hpayload hresult
              exact absurd (yields_unique h hfail).1 ok_ne_error
          | ok q =>
              rcases yields_toBytes_of_encode hpayload hresult with ⟨u, hclose⟩
              have hsame := (yields_unique h hclose).1
              simp only [Except.ok.injEq, Prod.mk.injEq] at hsame
              -- Encoding leaves the session as it is when it succeeds.
              rcases encode_ok hresult with ⟨-, -, -, rfl⟩
              rcases hsame with ⟨rfl, rfl⟩
              exact Or.inr ⟨rfl, rfl, hresult⟩

/-- A binary document has no text, open or closed. -/
theorem yields_toText_of_binary (h : d.encoding.binary = true) (s : Session) :
    Yields d.toText s (.error (.textOfBinary d.encoding)) s := by
  unfold toText
  simp only [h, if_true]
  exact (yields_bind_error (yields_throw.mpr ⟨rfl, rfl⟩)).mpr ⟨rfl, rfl⟩

/-- The text of a document that is not binary is that of its payload. -/
theorem toText_eq (h : d.encoding.binary = false) :
    d.toText = (fun p => (payloadText p.1, p.2)) <$> d.toBytes := by
  unfold toText
  simp only [h, Bool.false_eq_true, if_false]
  rfl

theorem writeTo_eq (d : Document) (stream : Bytes → Except Failure Unit) :
    d.writeTo stream = (fun p => (deliver stream p.1, p.2)) <$> d.toBytes := rfl

theorem yields_map_of_ok {α β : Type} {p : Run α} {f : α → β} {a : α}
    (h : Yields p s (.ok a) s') : Yields (f <$> p) s (.ok (f a)) s' := by
  rw [map_eq_pure_bind, yields_bind_ok h]
  exact yields_pure.mpr ⟨rfl, rfl⟩

theorem yields_map_of_error {α β : Type} {p : Run α} (f : α → β) {e : Failure}
    (h : Yields p s (.error e) s') : Yields (f <$> p) s (.error e) s' := by
  rw [map_eq_pure_bind, yields_bind_error h]
  exact ⟨rfl, rfl⟩

theorem ok_of_yields_map {α β : Type} {p : Run α} {f : α → β} {b : β}
    (h : Yields (f <$> p) s (.ok b) s') : ∃ a, Yields p s (.ok a) s' ∧ b = f a := by
  rw [map_eq_pure_bind] at h
  rcases yields_bind_eq_ok.mp h with ⟨a, u, ha, h⟩
  rcases yields_pure.mp h with ⟨hb, rfl⟩
  exact ⟨a, ha, Except.ok.inj hb⟩

/-- The text of a payload spells the payload, unless the encoding is binary. -/
theorem encodeUtf8_payloadText {v : Value} {e : Encoding} {layout : JsonLayout} {p : Bytes}
    (h : Yields (encode v e layout) s (.ok p) s') (he : e.binary = false) :
    encodeUtf8 (payloadText p).toList = p := by
  -- What spells a text is read as that text and spells it again.
  have htext : ∀ cs : List Char, encodeUtf8 (payloadText (encodeUtf8 cs)).toList =
      encodeUtf8 cs := by
    intro cs
    simp only [payloadText, decodeStrictUtf8?_encodeUtf8, Option.getD_some, String.toList_ofList]
  rcases encode_ok h with ⟨c, -, hwrite, -⟩
  cases e with
  | json =>
      cases hjson : c.writeJson layout with
      | error f => simp [Content.write, hjson, Except.map, Except.mapError] at hwrite
      | ok cs =>
          simp only [Content.write, hjson, Except.map, Except.mapError, Except.ok.injEq] at hwrite
          rw [← hwrite]
          exact htext cs
  | yaml =>
      cases hyaml : c.writeYaml with
      | none => simp [Content.write, hyaml] at hwrite
      | some cs =>
          simp only [Content.write, hyaml, Option.map_some, Except.ok.injEq] at hwrite
          rw [← hwrite]
          exact htext cs
  | cbor => exact absurd he (by decide)
  | msgpack => exact absurd he (by decide)

/-- What a stream fails with is reported if it may be expected of one. -/
theorem deliver_of_fault {stream : Bytes → Except Failure Unit} {p : Bytes} {e : Failure}
    (h : stream p = .error e) (he : e.isStreamFault = true) :
    deliver stream p = .error (.streamFailed e) := by
  simp [deliver, h, he]

theorem deliver_of_ok {stream : Bytes → Except Failure Unit} {p : Bytes}
    (h : stream p = .ok ()) : deliver stream p = .ok p.length := by
  simp [deliver, h]

end Document

/-! ## Actions -/

namespace Library

variable {l : Library} {a : Action} {s : Session}

/-- A failed action leaves all documents as they are. -/
theorem after_of_error {e : Failure}
    (h : Yields (a.perform l.stack l.documents) l.session (.error e) s) :
    l.after a = ⟨s, l.documents, l.stack⟩ := by
  unfold after
  have hrun : (a.perform l.stack l.documents).run.run l.session = (.error e, s) := h
  rw [hrun]
  rfl

theorem after_of_ok {ds : List Document}
    (h : Yields (a.perform l.stack l.documents) l.session (.ok ds) s) :
    l.after a = ⟨s, ds, l.stack⟩ := by
  unfold after
  have hrun : (a.perform l.stack l.documents).run.run l.session = (.ok ds, s) := h
  rw [hrun]
  rfl

end Library

section

variable {ds ds' : List Document} {i j : Nat} {d : Document} {f : Document → Run Document}
  {s s' : Session}

theorem onDocument_of_some (hd : ds[i]? = some d) :
    onDocument ds i f = (ds.set i ·) <$> f d := by
  unfold onDocument
  rw [hd]
  rfl

/-- One document changes, or there is none. -/
theorem onDocument_ok (h : Yields (onDocument ds j f) s (.ok ds') s') :
    (ds' = ds ∧ ds[j]? = none) ∨ ∃ d d', ds[j]? = some d ∧ Yields (f d) s (.ok d') s' ∧
      ds' = ds.set j d' := by
  cases hget : ds[j]? with
  | none =>
      unfold onDocument at h
      simp only [hget] at h
      exact Or.inl ⟨Except.ok.inj (yields_pure.mp h).1, rfl⟩
  | some d =>
      rw [onDocument_of_some hget] at h
      rcases Document.ok_of_yields_map h with ⟨d', hd', rfl⟩
      exact Or.inr ⟨d, d', rfl, hd', rfl⟩

theorem getElem?_set_same {d' : Document} (hd : ds[i]? = some d) : (ds.set i d')[i]? = some d' := by
  have hlt : i < ds.length := (List.getElem?_eq_some_iff.mp hd).1
  simp [hlt]

end

section

variable {l : Library} {i : Nat} {d : Document}

/-- What a call of a document makes of the documents. -/
theorem Library.documents_after {a : Action} {f : Document → Run Document}
    (ha : a.perform l.stack l.documents = onDocument l.documents i f)
    (hd : l.documents[i]? = some d) {d' : Document} {s : Session}
    (h : Yields (f d) l.session (.ok d') s) : (l.after a).documents[i]? = some d' := by
  have hperform : Yields (a.perform l.stack l.documents) l.session
      (.ok (l.documents.set i d')) s := by
    rw [ha, onDocument_of_some hd]
    exact Document.yields_map_of_ok h
  rw [after_of_ok hperform]
  exact getElem?_set_same hd

theorem Library.documents_after_of_error {a : Action} {f : Document → Run Document}
    (ha : a.perform l.stack l.documents = onDocument l.documents i f)
    (hd : l.documents[i]? = some d) {e : Failure} {s : Session}
    (h : Yields (f d) l.session (.error e) s) : (l.after a).documents = l.documents := by
  have hperform : Yields (a.perform l.stack l.documents) l.session (.error e) s := by
    rw [ha, onDocument_of_some hd]
    exact Document.yields_map_of_error _ h
  rw [after_of_error hperform]

end

end Docket
