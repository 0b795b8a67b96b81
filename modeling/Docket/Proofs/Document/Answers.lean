import Docket.Proofs.Document.Course

/-!
# What documents answer

Every call of a document answers by the fields that were added to it and by its
payload. While the document is open, fields can be added; finalizing encodes the fields,
and closes the document if that works out and leaves it as it is if not. Once it is
closed, nothing can be added, and every call that finalizes it comes to the payload.
What a stream fails with is reported, and changes nothing about that.

Reading the fields makes a copy of them, so that the leaves have to be such that there
is one (`handmade_leaf_not_copied`).

## Main definitions

* `Document.Answers`: What a document answers that has some fields.
* `Document.AnswersOpen`, `Document.AnswersClosed`: What it answers while it is open,
  and once it is closed.

## Theorems

* `Document.answersOpen`, `Document.Follows.answersClosed`: Both hold of documents that
  follow their calls.
* `Library.spares_after`: What evaluates no tree assigns no field.
* `document_answers`: Documents answer by the calls that were made.
-/

namespace Docket

/-! ## What a document answers -/

/-- What document `i` answers while it is open: its fields can be added to, and encoding
    them closes the document, or fails and leaves it as it is. -/
structure Document.AnswersOpen (l : Library) (i : Nat) (d : Document) (fs : Fields) : Prop where
  map : ∀ (v m : Value) (s s' : Session), Yields (toMap v) s (.ok m) s' →
    ∃ d', Yields (d.map v) s (.ok d') s'
  field : ∀ (name : Name) (v w : Value) (s s' : Session),
    Yields (fieldValue name v) s (.ok w) s' →
      ∃ d', Yields (d.field name.toValue v) s (.ok d') s'
  /-- the fields cannot be encoded -/
  fails : ∀ (e : Failure) (s : Session),
    Yields (encode fs.toValue d.encoding d.layout) l.session (.error e) s →
      Yields d.toBytes l.session (.error e) s ∧
      (d.encoding.binary = false → Yields d.toText l.session (.error e) s) ∧
      (∀ stream, Yields (d.writeTo stream) l.session (.error e) s) ∧
      (l.after (.toBytes i)).documents = l.documents ∧
      (l.after (.toText i)).documents = l.documents ∧
      ∀ stream, (l.after (.writeTo i stream)).documents = l.documents
  /-- the fields are encoded -/
  closes : ∀ (p : Bytes) (s : Session),
    Yields (encode fs.toValue d.encoding d.layout) l.session (.ok p) s →
      ∃ t, Yields d.toBytes l.session (.ok (p, { d with payload := some p })) t ∧
        (d.encoding.binary = false → Yields d.toText l.session
          (.ok (payloadText p, { d with payload := some p })) t) ∧
        (∀ stream, Yields (d.writeTo stream) l.session
          (.ok (deliver stream p, { d with payload := some p })) t) ∧
        (l.after (.toBytes i)).documents[i]? = some { d with payload := some p } ∧
        (d.encoding.binary = false →
          (l.after (.toText i)).documents[i]? = some { d with payload := some p }) ∧
        ∀ stream, (l.after (.writeTo i stream)).documents[i]? = some { d with payload := some p }

/-- What document `i` answers once it is closed with a payload: nothing can be added any
    more, and every call that finalizes comes to the payload, which encodes the fields. -/
structure Document.AnswersClosed (l : Library) (i : Nat) (d : Document) (fs : Fields)
    (p : Bytes) : Prop where
  written : ∀ s, Yields (encode fs.toValue d.encoding d.layout) s (.ok p) s
  refuses : ∀ (v : Value) (s : Session), Yields (d.map v) s (.error .finalized) s ∧
    ∀ name, Yields (d.field name v) s (.error .finalized) s
  toBytes : ∀ s, Yields d.toBytes s (.ok (p, d)) s
  toText : d.encoding.binary = false → encodeUtf8 (payloadText p).toList = p ∧
    ∀ s, Yields d.toText s (.ok (payloadText p, d)) s
  writeTo : ∀ stream s, Yields (d.writeTo stream) s (.ok (deliver stream p, d)) s
  /-- the document stays closed with this payload -/
  final : ∀ (results : List Fields) (m : Library), l.Course i results m →
    results = [] ∧ m.documents[i]? = some d

/-- What document `i` answers that has some fields. -/
structure Document.Answers (l : Library) (i : Nat) (d : Document) (fs : Fields) : Prop where
  document : l.documents[i]? = some d
  asMap : Yields d.asMap l.session (.ok fs.toValue) l.session
  /-- a call that fails leaves the documents as they are -/
  fails : ∀ (a : Action) (e : Failure) (s : Session),
    Yields (a.perform l.stack l.documents) l.session (.error e) s →
      (l.after a).documents = l.documents
  textOfBinary : d.encoding.binary = true → ∀ s,
    Yields d.toText s (.error (.textOfBinary d.encoding)) s
  isOpen : d.payload = none → d.AnswersOpen l i fs
  isClosed : ∀ p, d.payload = some p → d.AnswersClosed l i fs p
  /-- what a stream is handed, and what it fails with -/
  delivers : ∀ (stream : Bytes → Except Failure Unit) (p : Bytes),
    (stream p = .ok () → deliver stream p = .ok p.length) ∧
      ∀ e, stream p = .error e → e.isStreamFault = true →
        deliver stream p = .error (.streamFailed e)

section

variable {l m : Library} {i : Nat} {d d₀ : Document} {fs : Fields}

namespace Document

/-- An open document takes fields, and closes when they are encoded. -/
theorem answersOpen (hd : l.documents[i]? = some d) (hopen : d.payload = none)
    (hseen : l.session.snapshot d.content.toValue = fs.toValue) : d.AnswersOpen l i fs where
  map v m s s' h := by
    rcases exists_topFields m s' with ⟨news, hnews⟩
    exact ⟨_, yields_map_ok.mpr ⟨isClosed_eq_false.mpr hopen, m, news, h, hnews, rfl⟩⟩
  field name v w s s' h :=
    ⟨_, yields_field_ok.mpr ⟨isClosed_eq_false.mpr hopen, w, h, rfl⟩⟩
  fails e s h := by
    rw [← hseen] at h
    -- All ways of finalizing encode first, so all of them fail with that error.
    have hbytes := yields_toBytes_of_error hopen h
    have hwrite : ∀ stream, Yields (d.writeTo stream) l.session (.error e) s :=
      fun stream => yields_map_of_error _ hbytes
    refine ⟨hbytes, fun hbinary => ?_, hwrite, ?_, ?_, fun stream => ?_⟩
    · rw [toText_eq hbinary]
      exact yields_map_of_error _ hbytes
    · exact Library.documents_after_of_error rfl hd (yields_map_of_error _ hbytes)
    · cases hbinary : d.encoding.binary with
      | true =>
          exact Library.documents_after_of_error rfl hd
            (yields_map_of_error _ (yields_toText_of_binary hbinary l.session))
      | false =>
          have htext : Yields d.toText l.session (.error e) s := by
            rw [toText_eq hbinary]
            exact yields_map_of_error _ hbytes
          exact Library.documents_after_of_error rfl hd (yields_map_of_error _ htext)
    · exact Library.documents_after_of_error rfl hd (yields_map_of_error _ (hwrite stream))
  closes p s h := by
    rw [← hseen] at h
    -- They differ in what they make of the payload, which closes the document before that.
    rcases yields_toBytes_of_encode hopen h with ⟨t, hbytes⟩
    have htext : d.encoding.binary = false → Yields d.toText l.session
        (.ok (payloadText p, { d with payload := some p })) t := by
      intro hbinary
      rw [toText_eq hbinary]
      exact yields_map_of_ok hbytes
    have hwrite : ∀ stream, Yields (d.writeTo stream) l.session
        (.ok (deliver stream p, { d with payload := some p })) t :=
      fun stream => yields_map_of_ok hbytes
    refine ⟨t, hbytes, htext, hwrite, ?_, fun hbinary => ?_, fun stream => ?_⟩
    · exact Library.documents_after rfl hd (yields_map_of_ok hbytes)
    · exact Library.documents_after rfl hd (yields_map_of_ok (htext hbinary))
    · exact Library.documents_after rfl hd (yields_map_of_ok (hwrite stream))

/-- A closed document answers with its payload. -/
theorem Follows.answersClosed (h : d.Follows l i fs) {p : Bytes} (hclosed : d.payload = some p) :
    d.AnswersClosed l i fs p where
  written := h.written p hclosed
  refuses := refuses_of_closed (isClosed_of_payload hclosed)
  toBytes := yields_toBytes_of_payload hclosed
  toText hbinary := by
    refine ⟨encodeUtf8_payloadText (h.written p hclosed l.session) hbinary, fun s => ?_⟩
    rw [toText_eq hbinary]
    exact yields_map_of_ok (yields_toBytes_of_payload hclosed s)
  writeTo _ s := yields_map_of_ok (yields_toBytes_of_payload hclosed s)
  final _ _ hcourse := hcourse.final h.document hclosed

/-- A document whose fields can be copied answers by them. -/
theorem Follows.answers (h : d.Follows l i fs) (hl : l.Sound Value.Transfers) :
    d.Answers l i fs := by
  -- The fields are what the content looks like in this session.
  have hsnapshot : l.session.snapshot d.content.toValue = fs.toValue := by
    rw [Session.snapshot_toValue hl.session.ordered, h.seen]
  constructor
  case document => exact h.document
  case asMap =>
    rw [← hsnapshot]
    refine yields_asMap (hl.session.copyFault?_snapshot ?_)
    have hrecorded := (hl.documents d (List.mem_of_getElem? h.document)).recorded
    exact .fields hrecorded.1 hrecorded.2
  case fails =>
    intro a e s herror
    rw [Library.after_of_error herror]
  case textOfBinary => exact fun hbinary s => yields_toText_of_binary hbinary s
  case isOpen => exact fun hopen => answersOpen h.document hopen hsnapshot
  case isClosed => exact fun p hclosed => h.answersClosed hclosed
  case delivers => exact fun stream p => ⟨deliver_of_ok, fun e => deliver_of_fault⟩

end Document

/-- A document answers by the calls that were made on it: by the fields that they added,
    merged in order, and by the payload with which it was closed. -/
theorem document_answers {results : List Fields} (hl : l.Reached)
    (hd₀ : l.documents[i]? = some d₀) (hempty : d₀.content = []) (hopen : d₀.payload = none)
    (h : l.Course i results m) (hleaves : ∀ v ∈ m.session.leaves, v.Transfers) :
    ∃ d : Document, d.encoding = d₀.encoding ∧ d.layout = d₀.layout ∧
      d.Answers m i (mergeAll results) := by
  have hbefore : ∀ v ∈ l.session.leaves, v.Transfers := by
    intro v hv
    exact hleaves v (Library.Later.leaves transfers_leafRule h.later v hv)
  have hsound := hl.sound transfers_leafRule hbefore
  rcases h.follows transfers_leafRule hsound hd₀ hempty hopen hleaves with
    ⟨d, hencoding, hlayout, hfollows⟩
  have hm := (Library.Later.sound transfers_leafRule h.later hsound hleaves).1
  exact ⟨d, hencoding, hlayout, hfollows.answers hm⟩

end

/-! ## Runs -/

/-- An action that evaluates no tree. -/
def Action.isPlain : Action → Bool
  | .statement .. => false
  | .compile _ => false
  | .map .. => false
  | .field .. => false
  | _ => true

section

variable {L : Value → Prop}

theorem builds_onDocument (ds : List Document) (i : Nat) {f : Document → Run Document}
    {Q : Document → Prop} (hf : ∀ d, Builds L (f d) Q) :
    Builds L (onDocument ds i f) fun _ => True := by
  unfold onDocument
  cases ds[i]? with
  | none => exact Builds.pure trivial
  | some d => exact builds_map (hf d) fun _ _ => trivial

theorem builds_perform (hL : LeafRule L) (stack : BlockStack) (ds : List Document) {a : Action}
    (h : a.isPlain = true) : Builds L (a.perform stack ds) fun _ => True := by
  cases a with
  | build e => exact builds_map (builds_expr hL stack e) fun _ _ => trivial
  | make encoding pretty =>
      refine (builds_given hL stack encoding).bind fun e => Builds.any ?_
      refine (builds_given hL stack pretty).bind fun p => Builds.any ?_
      exact builds_map (builds_make e p) fun _ _ => trivial
  | asMap i =>
      exact builds_onDocument ds i fun d => builds_map (R := fun _ => True) (builds_asMap d)
        fun _ _ => trivial
  | toBytes i =>
      exact builds_onDocument ds i fun d => builds_map (R := fun _ => True) (builds_toBytes d)
        fun _ _ => trivial
  | toText i =>
      exact builds_onDocument ds i fun d => builds_map (R := fun _ => True) (builds_toText d)
        fun _ _ => trivial
  | writeTo i stream =>
      exact builds_onDocument ds i fun d =>
        builds_map (R := fun _ => True) (builds_writeTo d stream) fun _ _ => trivial
  | configure encoding pretty =>
      refine (builds_given hL stack encoding).bind fun e => Builds.any ?_
      refine (builds_given hL stack pretty).bind fun p => Builds.any ?_
      exact builds_map (builds_configure e p) fun _ _ => trivial
  | statement st depth => exact absurd h Bool.false_ne_true
  | compile tree => exact absurd h Bool.false_ne_true
  | map i tree => exact absurd h Bool.false_ne_true
  | field i name tree => exact absurd h Bool.false_ne_true

/-- What evaluates no tree assigns no field. -/
theorem Library.spares_after (l : Library) {a : Action} (h : a.isPlain = true) :
    l.session.Spares (l.after a).session := by
  have hbuilds := builds_perform isFree_leafRule l.stack l.documents h
  exact Session.spares_of_blocks (hbuilds _ _ _ (yields_run _ _)).1.blocks

end

/-- A course goes on with any action that spares the blocks. -/
theorem Library.Course.exists_after {l m : Library} {i : Nat} {results : List Fields}
    (h : l.Course i results m) {a : Action}
    (hspares : m.session.Spares (m.after a).session) :
    ∃ results', l.Course i results' (m.after a) := by
  by_cases hadds : ∃ fs, m.Adds i a fs
  · rcases hadds with ⟨fs, hadds⟩
    exact ⟨results ++ [fs], h.adds hadds hspares⟩
  · exact ⟨results, h.performs (fun fs hfs => hadds ⟨fs, hfs⟩) hspares⟩

/-- A library with one document, which is empty and open. -/
def Library.withDocument : Library := Library.initial.after (.make none none)

theorem Library.reached_withDocument : Library.withDocument.Reached :=
  Relation.ReflTransGen.single (Moves.performs _ _)

theorem Library.withDocument_empty : ∃ d, Library.withDocument.documents[0]? = some d ∧
    d.content = [] ∧ d.payload = none := by
  have hempty : (Library.withDocument.documents[0]?.map fun d =>
      (d.content.isEmpty, d.payload.isNone)) = some (true, true) := by
    decide +kernel
  rcases Option.map_eq_some_iff.mp hempty with ⟨d, hd, hstate⟩
  simp only [Prod.mk.injEq, List.isEmpty_iff, Option.isNone_iff_eq_none] at hstate
  exact ⟨d, hd, hstate.1, hstate.2⟩

/-- No block is there yet that a tree could assign to. -/
theorem Library.spares_withDocument (a : Action) :
    Library.withDocument.session.Spares (Library.withDocument.after a).session := by
  intro id hid
  have hsize : Library.withDocument.session.blocks.size = 0 := by decide +kernel
  omega

/-- A leaf node around a view of a mapping, of which no copy can be made. -/
def viewTree : Expr :=
  .mapping .plain [(.scalar (.text "a" .plain), .node (.scalar
    (.mapping .readOnly [(.scalar (.text "x" .plain), .scalar (.int 1 .plain))]) .null))]

/-- The fields of an open document cannot be read any more once a leaf node made by hand
    has been added that holds a view. -/
theorem handmade_leaf_not_copied : ∃ (m : Library) (results : List Fields) (d₀ d : Document),
    Library.withDocument.Reached ∧ Library.withDocument.documents[0]? = some d₀ ∧
      d₀.content = [] ∧ d₀.payload = none ∧ Library.withDocument.Course 0 results m ∧
      m.documents[0]? = some d ∧ d.payload = none ∧ d.content.names = ["a"] ∧
      ∀ v s, ¬ Yields d.asMap m.session (.ok v) s := by
  rcases Library.withDocument_empty with ⟨d₀, hd₀, hempty, hopen⟩
  rcases Library.Course.start.exists_after (i := 0)
    (Library.spares_withDocument (.map 0 viewTree)) with ⟨results, hcourse⟩
  -- What is left of the document is computed: its field is there, but reading it fails.
  have hfails : ((Library.withDocument.after (.map 0 viewTree)).documents[0]?.map fun d =>
      (d.content.names, d.payload.isNone, (d.asMap.run.run
        (Library.withDocument.after (.map 0 viewTree)).session).1.toOption.isNone)) =
      some (["a"], true, true) := by
    decide +kernel
  rcases Option.map_eq_some_iff.mp hfails with ⟨d, hd, hstate⟩
  simp only [Prod.mk.injEq, Option.isNone_iff_eq_none] at hstate
  refine ⟨_, results, d₀, d, Library.reached_withDocument, hd₀, hempty, hopen, hcourse, hd,
    hstate.2.1, hstate.1, fun v s h => ?_⟩
  have hnone := hstate.2.2
  rw [show (d.asMap.run.run _).1 = .ok v from congrArg Prod.fst h] at hnone
  exact absurd hnone (by simp [Except.toOption])

/-- A body with a nested one. -/
def memoTree : Expr :=
  .body (.mk (.named "memo") [
    .set ["title"] (.scalar (.text "plans" .plain)),
    .set ["owner"] (.body (.mk (.named "owner") [.set ["name"] (.scalar (.text "ada" .plain))]))])

theorem memoTree_answered : ∃ (results : List Fields) (m : Library) (d₀ : Document),
    (Library.withDocument.Reached ∧ Library.withDocument.documents[0]? = some d₀ ∧
      d₀.content = [] ∧ d₀.payload = none ∧ Library.withDocument.Course 0 results m ∧
      ∀ v ∈ m.session.leaves, v.Transfers) ∧
    ∃ d : Document, d.encoding = d₀.encoding ∧ d.layout = d₀.layout ∧ d.content.length = 2 ∧
      d.isClosed = true ∧ d.Answers m 0 (mergeAll results) := by
  rcases Library.withDocument_empty with ⟨d₀, hd₀, hempty, hopen⟩
  rcases Library.Course.start.exists_after (i := 0)
    (Library.spares_withDocument (.map 0 memoTree)) with ⟨added, hadded⟩
  rcases hadded.exists_after (Library.spares_after _ (a := .toBytes 0) rfl) with
    ⟨results, hcourse⟩
  -- No node was made by hand at all.
  have hleaves : ∀ v ∈ ((Library.withDocument.after (.map 0 memoTree)).after
      (.toBytes 0)).session.leaves, v.Transfers := by
    have hnone : ((Library.withDocument.after (.map 0 memoTree)).after
        (.toBytes 0)).session.leaves.size = 0 := by
      decide +kernel
    rw [Array.size_eq_zero_iff.mp hnone]
    exact fun v hv => absurd hv (Array.not_mem_empty v)
  have hclosed : (((Library.withDocument.after (.map 0 memoTree)).after
      (.toBytes 0)).documents[0]?.map fun d => (d.content.length, d.isClosed)) =
      some (2, true) := by
    decide +kernel
  rcases document_answers Library.reached_withDocument hd₀ hempty hopen hcourse hleaves with
    ⟨d, hencoding, hlayout, hanswers⟩
  rw [hanswers.document, Option.map_some, Option.some.injEq, Prod.mk.injEq] at hclosed
  exact ⟨results, _, d₀, ⟨Library.reached_withDocument, hd₀, hempty, hopen, hcourse, hleaves⟩,
    d, hencoding, hlayout, hclosed.1, hclosed.2, hanswers⟩

end Docket
