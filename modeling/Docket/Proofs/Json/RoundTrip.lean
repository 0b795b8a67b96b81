import Docket.Proofs.Json.Nesting
import Docket.Proofs.Payload.Preparation
import Mathlib.Data.List.Forall2

/-!
# JSON and back

What a tree stands for is written as JSON and read back as it was, in both layouts,
but for dates and points in time, which come back as texts.

Data is prepared, written and read back part by part: the parts of a collection and
those of its content go in pairs, and what holds of every pair holds of the two
collections. If there is an integer that is too long, the parts before it are
written for nothing.

## Main definitions

* `Value.ReadBack`: Content that is read back as data.
* `Value.Prepared`: Content that stands for data, short or not.

## Theorems

* `readBack_list`, `readBack_dict`: Content is read back if its parts are.
* `tooLong_items`, `tooLong_entries`: Content is not written if a part is not.
* `Value.IsData.prepares`: Data is read back if it is short, and not written if not.
* `json_reads_back`: What a tree stands for is written and read back.
-/

namespace Docket

/-- Content that is read back as the given data, in whatever layout and at
    whatever level it is written. -/
def Value.ReadBack (v : Value) (c : Content) : Prop :=
  ∀ layout level, ∃ cs, c.jsonAt layout level = .ok cs ∧ Reads cs v

/-- Content with an integer that is too long to be written. -/
def Content.TooLong (c : Content) : Prop :=
  ∀ layout level, c.jsonAt layout level = .error .longInteger

/-- The inside of a list. -/
theorem readsItems_jsonItems {vs : List Value} {cs : List Content}
    (h : List.Forall₂ Value.ReadBack vs cs) (hne : cs ≠ []) (layout : JsonLayout) (level : Nat) :
    ∃ text, jsonItems layout level cs = .ok (layout.newline level ++ text) ∧
      ReadsItems text vs := by
  induction h with
  | nil => exact absurd rfl hne
  -- The last item has no comma behind it, so the list is split twice.
  | @cons v c vs cs hc hcs ih =>
      rcases hc layout level with ⟨text, htext, hreads⟩
      cases hcs with
      | nil =>
          refine ⟨text, ?_, ReadsItems.one hreads⟩
          rw [jsonItems, htext]
          rfl
      | cons hd hds =>
          rcases ih (List.cons_ne_nil _ _) with ⟨body, hbody, hreadsBody⟩
          refine ⟨text ++ ',' :: (layout.newline level ++ body), ?_,
            ReadsItems.cons hreads (blanks_newline layout level) hreadsBody⟩
          rw [jsonItems, htext, hbody]
          · exact congrArg Except.ok (List.append_assoc _ _ _)
          · exact List.cons_ne_nil _ _

/-- A list is read back if its items are. -/
theorem readBack_list {vs : List Value} {cs : List Content}
    (h : List.Forall₂ Value.ReadBack vs cs) : (Value.list vs).ReadBack (.list cs) := by
  intro layout level
  cases h with
  | nil => exact ⟨_, rfl, reads_list_nil⟩
  | cons hc hcs =>
      rcases readsItems_jsonItems (List.Forall₂.cons hc hcs) (List.cons_ne_nil _ _) layout
        (level + 1) with ⟨text, htext, hreads⟩
      refine ⟨'[' :: (layout.newline (level + 1) ++ text) ++ layout.newline level ++ [']'], ?_,
        hreads.reads_list (blanks_newline _ _) (blanks_newline _ _)⟩
      rw [Content.jsonAt, htext]
      · rfl
      · exact List.cons_ne_nil _ _

/-- A field of content that is read back as a member. -/
def ReadBackMember (m : String × Value) (e : Value × Content) : Prop :=
  (∃ form, e.1 = .scalar (.text m.1 form)) ∧ m.2.ReadBack e.2

/-- The inside of a mapping. -/
theorem readsMembers_jsonEntries {ms : List (String × Value)} {es : List (Value × Content)}
    (h : List.Forall₂ ReadBackMember ms es) (hnames : (ms.map Prod.fst).Nodup) (hne : es ≠ [])
    (layout : JsonLayout) (level : Nat) :
    ∃ text, jsonEntries layout level es = .ok (layout.newline level ++ text) ∧
      ReadsMembers text ms := by
  rcases colon_eq layout with ⟨blanks, hcolon, hblanks⟩
  induction h with
  | nil => exact absurd rfl hne
  | @cons m e ms es he hes ih =>
      -- The key is a text in any form, and is written as the name.
      rcases e with ⟨k, c⟩
      rcases he with ⟨⟨form, hkey⟩, hc⟩
      rcases hc layout level with ⟨text, htext, hreads⟩
      simp only [] at hkey htext
      rw [List.map_cons, List.nodup_cons] at hnames
      have hstring : jsonKey k = .ok (jsonString m.1) := by
        rw [hkey]
        rfl
      cases hes with
      | nil =>
          refine ⟨jsonString m.1 ++ ':' :: (blanks ++ text), ?_,
            ReadsMembers.one m.1 hblanks hreads⟩
          rw [jsonEntries, hstring, htext, hcolon]
          refine congrArg Except.ok ?_
          simp only [List.append_assoc, List.cons_append]
      | cons hd hds =>
          rcases ih hnames.2 (List.cons_ne_nil _ _) with ⟨body, hbody, hreadsBody⟩
          refine ⟨jsonString m.1 ++ ':' :: (blanks ++ text) ++
            ',' :: (layout.newline level ++ body), ?_,
            ReadsMembers.cons hblanks hreads (blanks_newline layout level) hreadsBody hnames.1⟩
          rw [jsonEntries, hstring, htext, hbody, hcolon]
          · refine congrArg Except.ok ?_
            simp only [List.append_assoc, List.cons_append]
          · exact List.cons_ne_nil _ _

/-- The text of a mapping is read back, and begins with two characters of ASCII. -/
theorem jsonAt_map {ms : List (String × Value)} {es : List (Value × Content)}
    (h : List.Forall₂ ReadBackMember ms es) (hnames : (ms.map Prod.fst).Nodup)
    (layout : JsonLayout) (level : Nat) :
    ∃ b rest, (Content.map es).jsonAt layout level = .ok ('\x7b' :: b :: rest) ∧ IsAscii b ∧
      Reads ('\x7b' :: b :: rest) (.dict (ms.map fun m => (.text m.1, m.2))) := by
  cases h with
  | nil => exact ⟨'\x7d', [], rfl, ⟨by decide, by decide⟩, reads_map_nil⟩
  | cons he hes =>
      rcases readsMembers_jsonEntries (List.Forall₂.cons he hes) hnames (List.cons_ne_nil _ _)
        layout (level + 1) with ⟨text, htext, hreads⟩
      have hmap := hreads.reads_map (blanks_newline layout (level + 1))
        (blanks_newline layout level)
      -- A quote or the end of a line follows the bracket.
      have hbegins : ∃ b rest, layout.newline (level + 1) ++ text = b :: rest ∧ IsAscii b := by
        rcases hreads.begins with ⟨t, rfl⟩
        cases layout with
        | compact => exact ⟨'"', t, rfl, by decide, by decide⟩
        | indented => exact ⟨'\n', _, rfl, by decide, by decide⟩
      rcases hbegins with ⟨b, rest, hb, hascii⟩
      rw [hb] at hmap htext
      refine ⟨b, rest ++ layout.newline level ++ ['\x7d'], ?_, hascii, hmap⟩
      rw [Content.jsonAt, htext]
      · rfl
      · exact List.cons_ne_nil _ _

/-- A mapping is read back if its fields are. -/
theorem readBack_dict {ms : List (String × Value)} {es : List (Value × Content)}
    (h : List.Forall₂ ReadBackMember ms es) (hnames : (ms.map Prod.fst).Nodup) :
    (Value.dict (ms.map fun m => (.text m.1, m.2))).ReadBack (.map es) := by
  intro layout level
  rcases jsonAt_map h hnames layout level with ⟨b, rest, htext, -, hreads⟩
  exact ⟨_, htext, hreads⟩

/-- Content that is either read back as the given data, if that is short, or has
    an integer that is too long. -/
def Value.Prepared (v : Value) (c : Content) : Prop :=
  (v.Short → v.written.ReadBack c) ∧ (¬ v.Short → c.TooLong)

/-- What goes wrong with an item goes wrong with the list, whatever comes behind it. -/
theorem jsonItems_of_error {layout : JsonLayout} {level : Nat} {c : Content} {f : JsonWriteFault}
    (h : c.jsonAt layout level = .error f) (cs : List Content) :
    jsonItems layout level (c :: cs) = .error f := by
  cases cs with
  | nil =>
      rw [jsonItems, h]
      rfl
  | cons d ds =>
      rw [jsonItems, h]
      · rfl
      · exact List.cons_ne_nil _ _

theorem jsonEntries_of_error {layout : JsonLayout} {level : Nat} {k : Value} {c : Content}
    {name : List Char} {f : JsonWriteFault} (hkey : jsonKey k = .ok name)
    (h : c.jsonAt layout level = .error f) (es : List (Value × Content)) :
    jsonEntries layout level ((k, c) :: es) = .error f := by
  cases es with
  | nil =>
      rw [jsonEntries, hkey, h]
      rfl
  | cons e es =>
      rw [jsonEntries, hkey, h]
      · rfl
      · exact List.cons_ne_nil _ _

/-- A list with an integer that is too long. The items before it have texts, which
    are of no use then. -/
theorem tooLong_items {vs : List Value} {cs : List Content}
    (h : List.Forall₂ Value.Prepared vs cs) (hlong : ∃ v ∈ vs, ¬ v.Short) (layout : JsonLayout)
    (level : Nat) : jsonItems layout level cs = .error .longInteger := by
  induction h with
  | nil =>
      rcases hlong with ⟨v, hv, -⟩
      exact absurd hv List.not_mem_nil
  -- If this item is short, the long integer is in the rest, which is not empty then.
  | @cons v c vs cs hc hcs ih =>
      by_cases hshort : v.Short
      · have hrest : ∃ w ∈ vs, ¬ w.Short :=
          (List.exists_mem_cons_iff ..).mp hlong |>.resolve_left (not_not_intro hshort)
        rcases hc.1 hshort layout level with ⟨text, htext, -⟩
        cases hcs with
        | nil =>
            rcases hrest with ⟨w, hw, -⟩
            exact absurd hw List.not_mem_nil
        | cons hd hds =>
            rw [jsonItems, htext, ih hrest]
            · rfl
            · exact List.cons_ne_nil _ _
      · exact jsonItems_of_error (hc.2 hshort layout level) cs

/-- A field and the content it is prepared as. -/
def PreparedField (f : Name × Value) (e : Value × Content) : Prop :=
  e.1 = f.1.toValue ∧ f.2.Prepared e.2

theorem tooLong_entries {fs : Fields} {es : List (Value × Content)}
    (h : List.Forall₂ PreparedField fs es) (hlong : ∃ f ∈ fs, ¬ f.2.Short) (layout : JsonLayout)
    (level : Nat) : jsonEntries layout level es = .error .longInteger := by
  induction h with
  | nil =>
      rcases hlong with ⟨f, hf, -⟩
      exact absurd hf List.not_mem_nil
  | @cons f e fs es he hes ih =>
      rcases e with ⟨k, c⟩
      rcases he with ⟨hkey, hc⟩
      simp only [] at hkey hc
      have hstring : jsonKey k = .ok (jsonString f.1.text) := by
        rw [hkey]
        rfl
      by_cases hshort : f.2.Short
      · have hrest : ∃ g ∈ fs, ¬ g.2.Short :=
          (List.exists_mem_cons_iff ..).mp hlong |>.resolve_left (not_not_intro hshort)
        rcases hc.1 hshort layout level with ⟨text, htext, -⟩
        cases hes with
        | nil =>
            rcases hrest with ⟨g, hg, -⟩
            exact absurd hg List.not_mem_nil
        | cons hd hds =>
            rw [jsonEntries, hstring, htext, ih hrest]
            · rfl
            · exact List.cons_ne_nil _ _
      · exact jsonEntries_of_error hstring (hc.2 hshort layout level) es

/-- Data is prepared for the writers. -/
def Value.Prepares (v : Value) : Prop :=
  v.Normalizable → ∃ c, v.prepare = .ok c ∧ v.Prepared c

/-- A leaf. -/
theorem prepares_scalar {s : Scalar} (h : s.isData = true) : (Value.scalar s).Prepares := by
  intro hnormal
  -- All leaves but integers are written whatever their size.
  have hprepared : ∀ {c : Content}, (∀ n form, s ≠ .int n form) →
      (Value.scalar s.written).ReadBack c → (Value.scalar s).Prepared c := by
    intro c hs hc
    refine ⟨fun _ => hc, fun hlong => absurd (fun n form hmem => ?_) hlong⟩
    exact absurd (List.mem_singleton.mp hmem).symm (hs n form)
  cases s with
  | null => exact ⟨.null, rfl, hprepared (by simp) fun _ _ => ⟨_, rfl, reads_null⟩⟩
  | bool b => exact ⟨.bool b, rfl, hprepared (by simp) fun _ _ => ⟨_, rfl, reads_bool b⟩⟩
  | float x form =>
      rw [Scalar.isData, Bool.and_eq_true] at h
      have htext : jsonFloat x = .ok (Layout.display.write x).toList := if_pos h.1
      exact ⟨.float x form, rfl, hprepared (by simp) fun _ _ => ⟨_, htext, reads_float htext⟩⟩
  | text t form =>
      exact ⟨.text t form, rfl, hprepared (by simp) fun _ _ => ⟨_, rfl, reads_text t⟩⟩
  | date d =>
      exact ⟨.text d.text .plain, rfl, hprepared (by simp) fun _ _ => ⟨_, rfl, reads_text _⟩⟩
  | datetime t =>
      rcases DateTime.text_of_normalizable (hnormal t (List.mem_singleton.mpr rfl)) with ⟨u, hu⟩
      refine ⟨.text u .plain, ?_, hprepared (by simp) fun _ _ => ⟨_, rfl, ?_⟩⟩
      · rw [Value.prepare, Scalar.prepare, hu]
      · rw [Scalar.written_datetime hu]
        exact reads_text u
  | int n form =>
      refine ⟨.int n form, rfl, fun hshort _ _ => ?_, fun hlong _ _ => ?_⟩
      · have htext := jsonInt_short (hshort n form (List.mem_singleton.mpr rfl))
        exact ⟨_, htext, reads_int htext⟩
      · rw [Content.jsonAt]
        refine jsonInt_long fun hn => hlong fun m form' hmem => ?_
        rw [(Scalar.int.inj (List.mem_singleton.mp hmem)).1]
        exact hn

theorem prepareItems_prepared {xs : List Value} (h : ∀ v ∈ xs, v.Prepares)
    (hnormal : ∀ v ∈ xs, v.Normalizable) :
    ∃ cs, prepareItems xs = .ok cs ∧ List.Forall₂ Value.Prepared xs cs := by
  induction xs with
  | nil => exact ⟨[], rfl, List.Forall₂.nil⟩
  | cons v rest ih =>
      rw [List.forall_mem_cons] at h hnormal
      rcases h.1 hnormal.1 with ⟨c, hc, hprepared⟩
      rcases ih h.2 hnormal.2 with ⟨cs, hcs, hrest⟩
      refine ⟨c :: cs, ?_, List.Forall₂.cons hprepared hrest⟩
      rw [prepareItems, hc, hcs]
      rfl

theorem prepareEntries_prepared {fs : Fields} (h : ∀ f ∈ fs, f.2.Prepares)
    (hnormal : ∀ f ∈ fs, f.2.Normalizable) :
    ∃ es, prepareEntries (fs.map fun f => (f.1.toValue, f.2)) = .ok es ∧
      List.Forall₂ PreparedField fs es := by
  induction fs with
  | nil => exact ⟨[], rfl, List.Forall₂.nil⟩
  | cons f rest ih =>
      rw [List.forall_mem_cons] at h hnormal
      rcases h.1 hnormal.1 with ⟨c, hc, hprepared⟩
      rcases ih h.2 hnormal.2 with ⟨es, hes, hrest⟩
      refine ⟨(f.1.toValue, c) :: es, ?_, List.Forall₂.cons ⟨rfl, hprepared⟩ hrest⟩
      rw [List.map_cons, prepareEntries, hc, hes]
      rfl

/-- A list is prepared if its items are. -/
theorem prepared_list {xs : List Value} {cs : List Content}
    (h : List.Forall₂ Value.Prepared xs cs) : (Value.list xs).Prepared (.list cs) := by
  refine ⟨fun hshort => ?_, fun hlong layout level => ?_⟩
  · have hread : List.Forall₂ Value.ReadBack (xs.map Value.written) cs := by
      rw [List.forall₂_map_left_iff]
      exact ((List.forall₂_and_left xs cs).mpr ⟨short_list.mp hshort, h⟩).imp
        fun v c hv => hv.2.1 hv.1
    rw [Value.list, Value.written, writtenItems_eq]
    exact readBack_list hread
  · rw [short_list, Classical.not_forall] at hlong
    rcases hlong with ⟨v, hv⟩
    rw [Classical.not_imp] at hv
    have hitems := tooLong_items h ⟨v, hv⟩ layout (level + 1)
    -- An empty list has no integer; any other is written item by item.
    cases h with
    | nil => exact absurd hv.1 List.not_mem_nil
    | cons hc hcs =>
        rw [Content.jsonAt, hitems]
        · rfl
        · exact List.cons_ne_nil _ _

/-- The members that fields are read back as. -/
theorem readBack_members {fs : Fields} {es : List (Value × Content)}
    (h : List.Forall₂ PreparedField fs es) (hshort : fs.toValue.Short) :
    List.Forall₂ ReadBackMember (fs.map fun f => (f.1.text, f.2.written)) es := by
  rw [List.forall₂_map_left_iff]
  refine ((List.forall₂_and_left fs es).mpr ⟨short_fields.mp hshort, h⟩).imp fun f e hf => ?_
  exact ⟨⟨f.1.form, hf.2.1⟩, hf.2.2.1 hf.1⟩

theorem names_written {fs : Fields} (h : fs.names.Nodup) :
    ((fs.map fun f => (f.1.text, f.2.written)).map Prod.fst).Nodup := by
  rw [List.map_map]
  exact h

/-- Fields are prepared if their values are. -/
theorem prepared_fields {fs : Fields} {es : List (Value × Content)} (hnames : fs.names.Nodup)
    (h : List.Forall₂ PreparedField fs es) : fs.toValue.Prepared (.map es) := by
  refine ⟨fun hshort => ?_, fun hlong layout level => ?_⟩
  · rw [Fields.written_toValue]
    exact readBack_dict (readBack_members h hshort) (names_written hnames)
  · rw [short_fields, Classical.not_forall] at hlong
    rcases hlong with ⟨f, hf⟩
    rw [Classical.not_imp] at hf
    have hentries := tooLong_entries h ⟨f, hf⟩ layout (level + 1)
    cases h with
    | nil => exact absurd hf.1 List.not_mem_nil
    | cons hc hcs =>
        rw [Content.jsonAt, hentries]
        · rfl
        · exact List.cons_ne_nil _ _

/-- Data is read back if it is short, and not written if not. -/
theorem Value.IsData.prepares {v : Value} (h : v.IsData) : v.Prepares := by
  induction h with
  | scalar h => exact prepares_scalar h
  | list _ ih =>
      intro hnormal
      rcases prepareItems_prepared ih (normalizable_list.mp hnormal) with ⟨cs, hcs, hprepared⟩
      refine ⟨.list cs, ?_, prepared_list hprepared⟩
      rw [Value.list, Value.prepare, hcs]
      rfl
  | fields hnames _ ih =>
      intro hnormal
      rcases prepareEntries_prepared ih (normalizable_fields.mp hnormal) with ⟨es, hes, hprepared⟩
      refine ⟨.map es, ?_, prepared_fields hnames hprepared⟩
      rw [Fields.toValue, Value.dict, Value.prepare, hes]
      rfl

/-- A text is read from end to end. -/
theorem readJson_encodeUtf8 {b : Char} {rest : List Char} {v : Value} (hb : IsAscii b)
    (h : Reads ('\x7b' :: b :: rest) v) : readJson (encodeUtf8 ('\x7b' :: b :: rest)) = .ok v := by
  have hread := h.reads (2 * ('\x7b' :: b :: rest).length + 2) [] (by omega) stops_nil
  rw [List.append_nil] at hread
  have htext : readJsonText ('\x7b' :: b :: rest) = .ok v := by
    unfold readJsonText
    have hskip : skipJsonBlanks ('\x7b' :: b :: rest) = '\x7b' :: b :: rest := rfl
    rw [hskip, hread]
    rfl
  unfold readJson
  rw [decodeJsonBytes_encodeUtf8 ⟨by decide, by decide⟩ hb]
  simp only []
  rw [htext]
  rfl

/-- Data is encoded and decoded. -/
def Value.RoundTrips (v : Value) (layout : JsonLayout) : Prop :=
  ∃ payload, (∀ s, Yields (encode v .json layout) s (.ok payload) s) ∧
    decode (.bytes payload) (some .json) = .ok v.written

/-- Data is not encoded, because an integer is too long. -/
def Value.RefusedAsLong (v : Value) (layout : JsonLayout) : Prop :=
  ∀ s, ∃ s', Yields (encode v .json layout) s
    (.error (.encoderFailed .json (some (JsonWriteFault.longInteger.failure layout)))) s'

/-- Fields are encoded and decoded if they are short, and not encoded if not. -/
theorem Fields.roundTrips {fs : Fields} (hnames : fs.names.Nodup) (hdata : ∀ f ∈ fs, f.2.IsData)
    (hnormal : fs.toValue.Normalizable) (layout : JsonLayout) :
    (fs.toValue.Short → fs.toValue.RoundTrips layout) ∧
      (¬ fs.toValue.Short → fs.toValue.RefusedAsLong layout) := by
  rcases prepareEntries_prepared (fun f hf => (hdata f hf).prepares)
    (normalizable_fields.mp hnormal) with ⟨es, hes, hprepared⟩
  have hprepare : fs.toValue.prepare = .ok (.map es) := by
    rw [Fields.toValue, Value.dict, Value.prepare, hes]
    rfl
  constructor
  · intro hshort
    rcases jsonAt_map (readBack_members hprepared hshort) (names_written hnames) layout 0 with
      ⟨b, rest, htext, hb, hreads⟩
    rw [← Fields.written_toValue] at hreads
    have hwrite : (Content.map es).write .json layout =
        .ok (encodeUtf8 ('\x7b' :: b :: rest)) := by
      unfold Content.write Content.writeJson
      simp only []
      rw [htext]
      rfl
    exact ⟨_, yields_encode hprepare hwrite, decode_of_load (readJson_encodeUtf8 hb hreads)⟩
  -- An integer that is too long is met before anything has been written.
  · intro hlong
    refine yields_encode_error hprepare ?_
    unfold Content.write Content.writeJson
    simp only []
    rw [(prepared_fields hnames hprepared).2 hlong layout 0]
    rfl

/-- What a tree stands for is written as JSON and read back in both layouts, as long
    as no leaf node was made by hand from something else than a leaf. -/
theorem json_reads_back (l : Library) (h : l.Reached) (tree : Expr) (m : Value) (s : Session)
    (hrun : Yields (do let v ← tree.build l.stack; toMap v) l.session (.ok m) s)
    (hleaves : ∀ v ∈ s.leaves, v.IsLeaf) (hnormal : (s.snapshot m).Normalizable) :
    ((s.snapshot m).Short → ∀ layout, (s.snapshot m).RoundTrips layout) ∧
      (¬ (s.snapshot m).Short → ∀ layout, (s.snapshot m).RefusedAsLong layout) := by
  rcases h.compiled hrun hleaves with ⟨fs, hfs, hnames, hdata⟩
  rw [hfs] at hnormal ⊢
  exact ⟨fun hshort layout => (Fields.roundTrips hnames hdata hnormal layout).1 hshort,
    fun hlong layout => (Fields.roundTrips hnames hdata hnormal layout).2 hlong⟩

/-- A text with characters that are escaped, a zero with a sign, a point in time
    ahead of universal time, and a body in a list. -/
def voucherTree : Expr :=
  .mapping .plain [(.scalar (.text "na\"me" .plain), .scalar (.text "a\\b\n\u0001é" .plain)),
    (.scalar (.text "balance" .plain), .scalar (.float (Binary64.ofCode true 0) .plain)),
    (.scalar (.text "seen" .plain), .scalar (.datetime ⟨⟨2024, 2, 29⟩, 1, 2, 3, 4000, some 7200⟩)),
    (.scalar (.text "lines" .plain), .items .list
      [.scalar (.int (-12) .plain), .body (.mk (.named "line") [.set ["x"] (.scalar .null)])])]

/-- What the tree is compiled to, and the session after it. -/
def voucherRun : Except Failure Value × Session :=
  (do let v ← voucherTree.build []; toMap v : Run Value).run.run .initial

def voucher : Value := voucherRun.2.snapshot (voucherRun.1.toOption.getD .null)

theorem voucher_reads_back :
    (Yields (do let v ← voucherTree.build []; toMap v) .initial
        (.ok (voucherRun.1.toOption.getD .null)) voucherRun.2 ∧
      (∀ v ∈ voucherRun.2.leaves, v.IsLeaf) ∧ voucher.Normalizable ∧ voucher.Short) ∧
    ∀ layout, voucher.RoundTrips layout := by
  have hok : voucherRun.1.toOption.isSome = true := by decide +kernel
  have hrun : Yields (do let v ← voucherTree.build []; toMap v) .initial
      (.ok (voucherRun.1.toOption.getD .null)) voucherRun.2 :=
    yields_getD Value.null hok
  have hleaves : ∀ v ∈ voucherRun.2.leaves, v.IsLeaf :=
    Session.isLeaf_of_size (by decide +kernel)
  have hscalars : voucher.scalars = [.text "a\\b\n\u0001é" .plain,
      .float (Binary64.ofCode true 0) .plain,
      .datetime ⟨⟨2024, 2, 29⟩, 1, 2, 3, 4000, some 7200⟩, .int (-12) .plain, .null] := by
    decide +kernel
  have hnormal : voucher.Normalizable := by
    have hutc : (DateTime.toUtc? ⟨⟨2024, 2, 29⟩, 1, 2, 3, 4000, some 7200⟩).isSome = true := by
      decide +kernel
    intro t ht _ hnone
    rw [hscalars] at ht
    simp only [List.mem_cons, reduceCtorEq, Scalar.datetime.injEq, List.not_mem_nil, or_false,
      false_or] at ht
    rw [ht] at hnone
    rw [hnone] at hutc
    exact Bool.false_ne_true hutc
  have hshort : voucher.Short := by
    intro n form hn
    rw [hscalars] at hn
    simp only [List.mem_cons, reduceCtorEq, Scalar.int.injEq, List.not_mem_nil, or_false,
      false_or] at hn
    rw [hn.1]
    exact Nat.lt_of_lt_of_le (Nat.lt_pow_self (by decide) : 12 < 10 ^ 12)
      (Nat.pow_le_pow_right (by decide) (by decide))
  exact ⟨⟨hrun, hleaves, hnormal, hshort⟩,
    (json_reads_back .initial Relation.ReflTransGen.refl voucherTree _ _ hrun hleaves hnormal).1
      hshort⟩

end Docket
