import Docket.Proofs.Calendar.Clock
import Docket.Proofs.Payload.Plainness

/-!
# Failures of writing

What keeps data from having a payload. The data of a compiled tree has no part that
the writers do not know, so each of them either writes it or refuses it for its size,
and a refusal is reported as a failure of the encoding.

Dates are written out before any writer is asked. An aware point in time is put on the
universal clock then, which leaves the calendar if the clock is far enough from it in
the first or in the last hours of the calendar. That fault is not reported: it leaves
the library as it was raised, and it is the only one that does.

## Main definitions

* `Value.InCalendar`: Every aware point in time has a date on the universal clock.
* `Value.Encodes`: What comes of encoding data.
* `Library.Serializes`: What comes of trees and documents.

## Theorems

* `Value.inCalendar_iff`: Data that is in the calendar can be prepared.
* `Value.IsData.prepare_eq_error`: Nothing else keeps data from being prepared.
* `Value.IsData.encodes`: What comes of encoding the data of a tree.
* `reached_serializes`: Serialization fails with what is reported, the calendar apart.
* `firstHourTree_escapes`: A point in time that has left the calendar.
-/

namespace Docket

/-! ## The one fault of preparation -/

/-- Every aware point in time has a date on the universal clock. -/
def Value.InCalendar (v : Value) : Prop :=
  ∀ t, Scalar.datetime t ∈ v.scalars → t.offset ≠ none → t.InCalendar

theorem Value.inCalendar_iff {v : Value} : v.InCalendar ↔ v.Normalizable := by
  refine forall₃_congr fun t ht ho => ?_
  rw [← DateTime.toUtc?_isSome_iff, Option.isSome_iff_ne_none]

theorem prepareItems_eq_error {xs : List Value} {f : Failure} (h : prepareItems xs = .error f) :
    ∃ v ∈ xs, v.prepare = .error f := by
  induction xs with
  | nil => exact absurd h ok_ne_error
  | cons v rest ih =>
      rw [prepareItems] at h
      rcases except_bind_eq_error h with hv | ⟨c, -, h⟩
      · exact ⟨v, List.mem_cons_self, hv⟩
      · rcases except_bind_eq_error h with hrest | ⟨cs, -, h⟩
        · obtain ⟨w, hw, hfail⟩ := ih hrest
          exact ⟨w, List.mem_cons_of_mem v hw, hfail⟩
        · exact absurd h ok_ne_error

theorem prepareEntries_eq_error {entries : List (Value × Value)} {f : Failure}
    (h : prepareEntries entries = .error f) : ∃ e ∈ entries, e.2.prepare = .error f := by
  induction entries with
  | nil => exact absurd h ok_ne_error
  | cons e rest ih =>
      rw [prepareEntries] at h
      rcases except_bind_eq_error h with he | ⟨c, -, h⟩
      · exact ⟨e, List.mem_cons_self, he⟩
      · rcases except_bind_eq_error h with hrest | ⟨es, -, h⟩
        · obtain ⟨w, hw, hfail⟩ := ih hrest
          exact ⟨w, List.mem_cons_of_mem e hw, hfail⟩
        · exact absurd h ok_ne_error

/-- What is raised where there is no date. -/
def outOfCalendar : Failure := .overflow "date value out of range"

/-- Data is kept from being prepared by a missing date only. -/
theorem Value.IsData.prepare_eq_error {v : Value} (h : v.IsData) :
    ∀ f, v.prepare = .error f → f = outOfCalendar := by
  induction h with
  | @scalar s h =>
      intro f hf
      cases s with
      | datetime t =>
          rw [Value.prepare, Scalar.prepare] at hf
          -- All leaves but points in time are prepared as they are, or as their texts.
          cases ht : t.text? with
          | none =>
              rw [ht] at hf
              exact (Except.error.inj hf).symm
          | some u =>
              rw [ht] at hf
              exact absurd hf ok_ne_error
      | _ => exact absurd hf ok_ne_error
  | @list xs h ih =>
      intro f hf
      rw [Value.list, Value.prepare] at hf
      rcases except_bind_eq_error hf with hitems | ⟨cs, -, hf⟩
      · obtain ⟨v, hv, hfail⟩ := prepareItems_eq_error hitems
        exact ih v hv f hfail
      · exact absurd hf ok_ne_error
  | @fields fs hnames h ih =>
      intro f hf
      rw [Fields.toValue, Value.dict, Value.prepare] at hf
      rcases except_bind_eq_error hf with hentries | ⟨es, -, hf⟩
      · obtain ⟨e, he, hfail⟩ := prepareEntries_eq_error hentries
        obtain ⟨field, hfield, rfl⟩ := List.mem_map.mp he
        exact ih field hfield f hfail
      · exact absurd hf ok_ne_error

/-- Data with a point in time that has no date is not prepared. -/
theorem Value.IsData.prepare_outside {v : Value} (h : v.IsData) (houtside : ¬ v.InCalendar) :
    v.prepare = .error outOfCalendar := by
  cases hprepare : v.prepare with
  | error f => rw [h.prepare_eq_error f hprepare]
  | ok c => exact absurd (Value.inCalendar_iff.mpr (h.normalizable c hprepare)) houtside

/-! ## What comes of encoding -/

/-- What comes of encoding data with some layout. -/
structure Value.Encodes (data : Value) (e : Encoding) (layout : JsonLayout)
    (r : Except Failure Bytes) : Prop where
  /-- data in the calendar is given to the writer, whose refusal is reported -/
  written : data.InCalendar → ∃ c, data.prepare = .ok c ∧
    r = (c.write e layout).mapError (.encoderFailed e)
  /-- data outside of it is not, and the fault is not reported -/
  escaped : ¬ data.InCalendar → r = .error outOfCalendar
  /-- so a failure is reported unless it is that fault -/
  reported : ∀ f, r = .error f → (f.kind? = some .serialization ↔ data.InCalendar)
  /-- numbers and sizes that fit are refused by no writer -/
  fits : data.InCalendar → data.IntegersIn Packable → data.hasPlainNames = true →
    data.written.Below (2 ^ 32) → ∃ payload, r = .ok payload

/-- What comes of encoding the data of a tree. -/
theorem Value.IsData.encodes {fs : Fields} (hnames : fs.names.Nodup)
    (hdata : ∀ f ∈ fs, f.2.IsData) (e : Encoding) (layout : JsonLayout) (s : Session) :
    ∃ r t, Yields (encode fs.toValue e layout) s r t ∧ fs.toValue.Encodes e layout r := by
  have hisData := Value.IsData.fields hnames hdata
  by_cases hcalendar : fs.toValue.InCalendar
  case neg =>
    have hprepare := hisData.prepare_outside hcalendar
    refine ⟨.error outOfCalendar, s, ?_, ?_⟩
    · unfold encode
      rw [hprepare]
      exact (yields_bind_error (yields_lift.mpr ⟨rfl, rfl⟩)).mpr ⟨rfl, rfl⟩
    · refine ⟨fun h => absurd h hcalendar, fun _ => rfl, fun f hf => ?_,
        fun h => absurd h hcalendar⟩
      rw [← Except.error.inj hf]
      exact iff_of_false (by decide) hcalendar
  case pos =>
    obtain ⟨c, hprepare⟩ := hisData.prepares_ok (Value.inCalendar_iff.mp hcalendar)
    -- The writer is asked, and what it answers is the outcome.
    have hencode : ∃ t, Yields (encode fs.toValue e layout) s
        ((c.write e layout).mapError (.encoderFailed e)) t := by
      cases hwrite : c.write e layout with
      | ok payload => exact ⟨s, yields_encode hprepare hwrite s⟩
      | error cause => exact yields_encode_error hprepare hwrite s
    obtain ⟨t, hyields⟩ := hencode
    refine ⟨_, t, hyields, fun _ => ⟨c, hprepare, rfl⟩, fun h => absurd hcalendar h, ?_, ?_⟩
    · intro f hf
      refine iff_of_true ?_ hcalendar
      cases hwrite : c.write e layout with
      | ok payload =>
          rw [hwrite] at hf
          exact absurd hf ok_ne_error
      | error cause =>
          rw [hwrite] at hf
          rw [← Except.error.inj hf]
          rfl
    · intro _ hint hplain hbelow
      obtain ⟨payload, hwrite⟩ :=
        Fields.write_ok hnames hdata hprepare hint hplain hbelow e layout
      rw [hwrite]
      exact ⟨payload, rfl⟩

/-- A document that is finalized while it is open comes to what the encoding of its
    fields comes to. -/
theorem Document.yields_toBytes_of_open {d : Document} (hopen : d.payload = none) {s t : Session}
    {r : Except Failure Bytes}
    (h : Yields (encode (s.snapshot d.content.toValue) d.encoding d.layout) s r t) :
    ∃ t', Yields d.toBytes s (r.map fun p => (p, { d with payload := some p })) t' := by
  cases r with
  | error f => exact ⟨t, yields_toBytes_of_error hopen h⟩
  | ok p => exact yields_toBytes_of_encode hopen h

/-- A new document is not made with settings that are not valid. -/
theorem yields_make_of_invalid {s : Session} {f : Failure} (h : s.settings.validate = .error f)
    (encoding pretty : Option Value) :
    Yields (Document.make encoding pretty) s (.error f) s := by
  unfold Document.make
  exact (yields_bind_error (yields_configuration.mpr ⟨h.symm, rfl⟩)).mpr ⟨rfl, rfl⟩

/-! ## Trees and documents -/

/-- What comes of trees and documents that are serialized, as long as no leaf node was
    made by hand from something else than a leaf. -/
structure Library.Serializes (l : Library) : Prop where
  /-- A tree that can be compiled, in an encoding that is known: the settings are not
      valid, or its data is encoded. -/
  tree : ∀ (tree : Expr) (v m : Value) (u s : Session),
    Yields (tree.build l.stack) l.session (.ok v) u →
    Yields (toMap v) u (.ok m) s → (∀ w ∈ s.leaves, w.IsLeaf) →
      ∀ asked e, Encoding.ofValue asked = .ok e →
        (∀ f, u.settings.validate = .error f → Yields (toBytes v (some asked)) u (.error f) u) ∧
        ∀ config, u.settings.validate = .ok config →
          ∃ r t, Yields (toBytes v (some asked)) u r t ∧
            (s.snapshot m).Encodes e (JsonLayout.ofValue (.bool config.pretty)) r
  /-- A document, whatever has been added to it: it has a payload already, or its fields
      are encoded. -/
  document : (∀ w ∈ l.session.leaves, w.IsLeaf) → ∀ d ∈ l.documents,
    (∀ p, d.payload = some p → Yields d.toBytes l.session (.ok (p, d)) l.session) ∧
    (d.payload = none → ∃ r t,
      Yields d.toBytes l.session (r.map fun p => (p, { d with payload := some p })) t ∧
        (l.session.snapshot d.content.toValue).Encodes d.encoding d.layout r)

/-- Serialization comes to a payload or fails with what is reported, except for a point
    in time that has left the calendar. -/
theorem reached_serializes (l : Library) (h : l.Reached) : l.Serializes where
  tree tree v m u s hbuild hmap hleaves asked e hasked := by
    have hrun : Yields (do let v ← tree.build l.stack; toMap v) l.session (.ok m) s :=
      (yields_bind_ok hbuild).mpr hmap
    refine ⟨fun f hinvalid => ?_, fun config hvalid => ?_⟩
    · unfold toBytes toDocument
      refine (yields_bind_error ?_).mpr ⟨rfl, rfl⟩
      exact (yields_bind_error (yields_make_of_invalid hinvalid _ _)).mpr ⟨rfl, rfl⟩
    · obtain ⟨fs, hfs, hnames, hdata⟩ := h.compiled hrun hleaves
      -- The document that is made on the way has the data of the tree as its fields.
      obtain ⟨d, hdocument, hcontent, hlayout⟩ :=
        (h.yields_toDocument hbuild hmap hleaves hasked).2 config hvalid
      rw [yields_bind_ok hbuild] at hdocument
      obtain ⟨hencoding, hopen⟩ := toDocument_ok hasked hdocument
      obtain ⟨r, t, hencode, hencodes⟩ := Value.IsData.encodes hnames hdata e d.layout s
      rw [← hfs, ← hcontent, ← hencoding] at hencode
      obtain ⟨t', hbytes⟩ := Document.yields_toBytes_of_open hopen hencode
      refine ⟨r, t', ?_, ?_⟩
      · unfold toBytes
        rw [yields_bind_ok hdocument]
        cases r with
        | error f => exact (yields_bind_error hbytes).mpr ⟨rfl, rfl⟩
        | ok p => exact (yields_bind_ok hbytes).mpr (yields_pure.mpr ⟨rfl, rfl⟩)
      · rw [hfs, ← hlayout]
        exact hencodes
  document hleaves d hd := by
    refine ⟨fun p hp => Document.yields_toBytes_of_payload hp l.session, fun hopen => ?_⟩
    have hsound := h.sound isLeaf_leafRule hleaves
    have hrecorded := (hsound.documents d hd).recorded
    obtain ⟨fs, hfs, hnames, hdata⟩ :=
      (hsound.session.isData_snapshot (.fields hrecorded.1 hrecorded.2)).fields_of_eq
        (Session.snapshot_toValue hsound.session.ordered d.content)
    obtain ⟨r, t, hencode, hencodes⟩ :=
      Value.IsData.encodes hnames hdata d.encoding d.layout l.session
    rw [← hfs] at hencode hencodes
    obtain ⟨t', hbytes⟩ := Document.yields_toBytes_of_open hopen hencode
    exact ⟨r, t', hbytes, hencodes⟩

section

variable (offset : Option ClockOffset)

/-- The first half hour of the calendar. -/
def firstHour : Value :=
  .dict [(.text "opened", .scalar (.datetime ⟨⟨1, 1, 1⟩, 0, 30, 0, 0, offset⟩))]

def firstHourTree : Expr :=
  .mapping .plain
    [(.scalar (.text "opened" .plain), .scalar (.datetime ⟨⟨1, 1, 1⟩, 0, 30, 0, 0, offset⟩))]

theorem yields_firstHourTree : Yields ((firstHourTree offset).build Library.initial.stack)
    Library.initial.session (.ok (firstHour offset)) Library.initial.session := rfl

theorem yields_toMap_firstHour : Yields (toMap (firstHour offset)) Library.initial.session
    (.ok (firstHour offset)) Library.initial.session := rfl

end

theorem firstHourTree_serializes : Library.initial.Serializes ∧
    (∀ w ∈ Library.initial.session.leaves, w.IsLeaf) ∧
    ∀ e ∈ Encoding.all, ∃ payload t,
      Yields (toBytes (firstHour (some (-3600))) (some (.scalar (.text e.name (.encoding e)))))
        Library.initial.session (.ok payload) t := by
  have hserializes := reached_serializes .initial Relation.ReflTransGen.refl
  have hleaves := Session.isLeaf_of_size (s := Library.initial.session) rfl
  refine ⟨hserializes, hleaves, fun e _ => ?_⟩
  obtain ⟨r, t, hyields, hencodes⟩ := (hserializes.tree _ _ _ _ _ (yields_firstHourTree _)
    (yields_toMap_firstHour _) hleaves (.scalar (.text e.name (.encoding e))) e rfl).2
      ⟨.json, false⟩ rfl
  have hsame : Library.initial.session.snapshot (firstHour (some (-3600))) =
      firstHour (some (-3600)) := by rfl
  have hintegers : (firstHour (some (-3600))).integers = [] := by rfl
  rw [hsame] at hencodes
  obtain ⟨payload, rfl⟩ := hencodes.fits (Value.inCalendar_iff.mpr (by decide +kernel))
    (fun n hn => absurd (hintegers ▸ hn) List.not_mem_nil) rfl (by decide +kernel)
  exact ⟨payload, t, hyields⟩

/-- On a clock that is an hour ahead of the universal one it has left the calendar. The
    tree is compiled, but its document fails with an overflow in every encoding. -/
theorem firstHourTree_escapes :
    Yields ((firstHourTree (some 3600)).build Library.initial.stack) Library.initial.session
      (.ok (firstHour (some 3600))) Library.initial.session ∧
    Yields (toMap (firstHour (some 3600))) Library.initial.session
      (.ok (firstHour (some 3600))) Library.initial.session ∧
    Library.initial.session.leaves.size = 0 ∧
    (∀ e ∈ Encoding.all,
      Yields (toBytes (firstHour (some 3600)) (some (.scalar (.text e.name (.encoding e)))))
        Library.initial.session (.error (.overflow "date value out of range"))
        Library.initial.session) ∧
    (Failure.overflow "date value out of range").kind? = none := by
  refine ⟨yields_firstHourTree _, yields_toMap_firstHour _, rfl, ?_, rfl⟩
  simp only [Encoding.all, List.forall_mem_cons]
  exact ⟨rfl, rfl, rfl, rfl, nofun⟩

end Docket
