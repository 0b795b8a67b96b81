import Docket.Proofs.Document.Calls

/-!
# The course of a document

What a document answers depends on the calls that were made on it, and on nothing else
that a program does with the library, as long as the trees that are evaluated assign
fields of their own blocks only. Two things are known of a document at any time: the
fields that the calls added which succeeded (`Library.Course` collects them), merged in
order, and the payload, if encoding them has succeeded once. Each step of a program adds
fields, closes the document or does neither (`Library.exists_effect`), and what is seen
through the blocks that the document holds does not change with it.

## Main definitions

* `Session.Spares`: The blocks that there were have the fields they had.
* `Library.Adds`: A call adds fields to a document.
* `Library.Course`: A program runs, and calls add fields to a document.
* `Document.Effect`: What an action makes of a document.
* `Document.Follows`: A document has the fields that were added.

## Theorems

* `Library.exists_effect`, `Library.Adds.effect`: What an action leaves of a document.
* `Library.closed_after`, `Library.Course.final`: A closed document stays as it is.
* `Library.Course.follows`: A document has the fields that were added to it.
-/

namespace Docket

/-- The blocks that there were have the fields they had. -/
def Session.Spares (s s' : Session) : Prop :=
  ∀ id, id < s.blocks.size → s'.fields id = s.fields id

/-- A call that succeeds adds fields to document `i`: what its tree stands for, as it is
    seen then. -/
inductive Library.Adds (l : Library) (i : Nat) : Action → Fields → Prop
  | map {tree : Expr} {v m : Value} {d d' : Document} {fs : Fields} {s t : Session}
      (hd : l.documents[i]? = some d)
      (hbuild : Yields (tree.build l.stack) l.session (.ok v) s)
      (hcall : Yields (d.map v) s (.ok d') t) (hmap : Yields (toMap v) s (.ok m) t)
      (hfs : t.snapshot m = fs.toValue) : Library.Adds l i (.map i tree) fs
  | field {name tree : Expr} {text : String} {form : TextForm} {v w : Value}
      {d d' : Document} {s u t : Session} (hd : l.documents[i]? = some d)
      (hname : Yields (name.build l.stack) l.session (.ok (.scalar (.text text form))) s)
      (hbuild : Yields (tree.build l.stack) s (.ok v) u)
      (hcall : Yields (d.field (.scalar (.text text form)) v) u (.ok d') t)
      (hvalue : Yields (Document.fieldValue ⟨text, form⟩ v) u (.ok w) t) :
      Library.Adds l i (.field i name tree) [(⟨text, form⟩, t.snapshot w)]

/-- A program runs, and calls add fields to document `i`, which are listed call by call.
    Every tree that is evaluated assigns fields of its own blocks only. -/
inductive Library.Course (i : Nat) (l : Library) : List Fields → Library → Prop
  | start : Library.Course i l [] l
  | adds {results : List Fields} {m : Library} {a : Action} {fs : Fields}
      (h : Library.Course i l results m) (hadds : m.Adds i a fs)
      (hspares : m.session.Spares (m.after a).session) :
      Library.Course i l (results ++ [fs]) (m.after a)
  | performs {results : List Fields} {m : Library} {a : Action}
      (h : Library.Course i l results m) (hnot : ∀ fs, ¬ m.Adds i a fs)
      (hspares : m.session.Spares (m.after a).session) :
      Library.Course i l results (m.after a)
  | enters {results : List Fields} {m : Library} (h : Library.Course i l results m) :
      Library.Course i l results m.entered
  | turns {results : List Fields} {m : Library} (h : Library.Course i l results m)
      (stack : BlockStack) (hstack : ∀ id ∈ stack, id < m.session.blocks.size) :
      Library.Course i l results { m with stack := stack }

/-- The fields of calls one after another, merged in order. -/
def mergeAll (results : List Fields) : Fields := results.foldl Fields.merge []

/-! ## What an action leaves of a document -/

section

variable {ds ds' : List Document} {i j : Nat} {d : Document} {s s' : Session}

/-- Work that is done beside the documents leaves them as they are. -/
theorem eq_of_yields_beside {α : Type} {p : Run α}
    (h : Yields (p >>= fun _ => pure ds) s (.ok ds') s') : ds' = ds := by
  rcases yields_bind_eq_ok.mp h with ⟨a, m, -, h⟩
  exact Except.ok.inj (yields_pure.mp h).1

/-- A call of one document, after which another one is as it was. -/
theorem getElem?_of_onDocument {f : Document → Run Document} (hd : ds[i]? = some d)
    (h : Yields (onDocument ds j f) s (.ok ds') s') :
    ds'[i]? = some d ∨ j = i ∧ ∃ d', Yields (f d) s (.ok d') s' ∧ ds'[i]? = some d' := by
  rcases onDocument_ok h with ⟨rfl, -⟩ | ⟨e, e', he, hcall, rfl⟩
  · exact Or.inl hd
  · by_cases hji : j = i
    · subst hji
      rw [hd, Option.some.injEq] at he
      subst he
      exact Or.inr ⟨rfl, e', hcall, getElem?_set_same hd⟩
    · refine Or.inl ?_
      rw [List.getElem?_set_ne hji]
      exact hd

end

/-- The document has been closed with its fields encoded. -/
def Document.ClosedBy (d : Document) (s : Session) (d' : Document) : Prop :=
  ∃ p, d.payload = none ∧ d' = { d with payload := some p } ∧
    Yields (encode (s.snapshot d.content.toValue) d.encoding d.layout) s (.ok p) s

/-- What an action makes of document `i`. -/
inductive Document.Effect (l : Library) (i : Nat) (d : Document) : Action → Document → Prop
  | same {a : Action} : Document.Effect l i d a d
  | closed {a : Action} {d' : Document} (h : d.ClosedBy l.session d') : Document.Effect l i d a d'
  | mapped {tree : Expr} {v : Value} {d' : Document} {s : Session}
      (hbuild : Yields (tree.build l.stack) l.session (.ok v) s)
      (hcall : Yields (d.map v) s (.ok d') (l.after (.map i tree)).session) :
      Document.Effect l i d (.map i tree) d'
  | extended {name tree : Expr} {text : String} {form : TextForm} {v : Value} {d' : Document}
      {s u : Session}
      (hname : Yields (name.build l.stack) l.session (.ok (.scalar (.text text form))) s)
      (hbuild : Yields (tree.build l.stack) s (.ok v) u)
      (hcall : Yields (d.field (.scalar (.text text form)) v) u (.ok d')
        (l.after (.field i name tree)).session) :
      Document.Effect l i d (.field i name tree) d'

namespace Library

variable {l : Library} {a : Action} {i : Nat} {d : Document} {fs : Fields}

/-- Finalizing in any form leaves the document as it is, or closes it. -/
theorem effect_of_toBytes {ds' : List Document} {j : Nat} {s' : Session}
    {f : Document → Run Document}
    (hf : ∀ d' t, Yields (f d) l.session (.ok d') t →
      ∃ p, Yields d.toBytes l.session (.ok (p, d')) t)
    (hd : l.documents[i]? = some d)
    (h : Yields (onDocument l.documents j f) l.session (.ok ds') s') :
    ∃ d', ds'[i]? = some d' ∧ d.Effect l i a d' := by
  rcases getElem?_of_onDocument hd h with hsame | ⟨rfl, d', hcall, hd'⟩
  · exact ⟨d, hsame, .same⟩
  · rcases hf d' s' hcall with ⟨p, hp⟩
    rcases Document.toBytes_eq_ok hp with ⟨-, rfl⟩ | ⟨hopen, hclosed, hencode⟩
    · exact ⟨_, hd', .same⟩
    · exact ⟨d', hd', .closed ⟨p, hopen, hclosed, hencode⟩⟩

/-- An action leaves a document as it is, closes it, or is a call that adds to it. -/
theorem exists_effect (a : Action) (hd : l.documents[i]? = some d) :
    ∃ d', (l.after a).documents[i]? = some d' ∧ d.Effect l i a d' := by
  rcases hresult : (a.perform l.stack l.documents).run.run l.session with ⟨r, s'⟩
  cases r with
  | error e =>
      rw [after_of_error hresult]
      exact ⟨d, hd, .same⟩
  | ok ds' =>
      have hyields : Yields (a.perform l.stack l.documents) l.session (.ok ds') s' := hresult
      have hafter := after_of_ok hyields
      have hdocuments : (l.after a).documents = ds' := congrArg documents hafter
      have hsession : (l.after a).session = s' := congrArg session hafter
      rw [hdocuments]
      -- Most actions leave all documents as they are.
      have hsame : ds' = l.documents → ∃ d', ds'[i]? = some d' ∧ d.Effect l i a d' := by
        rintro rfl
        exact ⟨d, hd, .same⟩
      cases a with
      | build e => exact hsame (eq_of_yields_beside hyields)
      | statement st depth => exact hsame (eq_of_yields_beside hyields)
      | compile tree =>
          rcases yields_bind_eq_ok.mp hyields with ⟨v, m, -, h⟩
          exact hsame (eq_of_yields_beside h)
      | configure encoding pretty =>
          rcases yields_bind_eq_ok.mp hyields with ⟨v, m, -, h⟩
          rcases yields_bind_eq_ok.mp h with ⟨w, n, -, h⟩
          exact hsame (eq_of_yields_beside h)
      | make encoding pretty =>
          rcases yields_bind_eq_ok.mp hyields with ⟨v, m, -, h⟩
          rcases yields_bind_eq_ok.mp h with ⟨w, n, -, h⟩
          rcases yields_bind_eq_ok.mp h with ⟨e, u, -, h⟩
          rw [Except.ok.inj (yields_pure.mp h).1]
          have hlt : i < l.documents.length := (List.getElem?_eq_some_iff.mp hd).1
          -- The new document goes to the end, so the others stay where they are.
          refine ⟨d, ?_, .same⟩
          rw [List.getElem?_append_left hlt]
          exact hd
      | map j tree =>
          rcases yields_bind_eq_ok.mp hyields with ⟨v, s, hbuild, h⟩
          rcases getElem?_of_onDocument hd h with hd' | ⟨rfl, d', hcall, hd'⟩
          · exact ⟨d, hd', .same⟩
          · rw [← hsession] at hcall
            exact ⟨d', hd', .mapped hbuild hcall⟩
      | field j name tree =>
          rcases yields_bind_eq_ok.mp hyields with ⟨n, s, hname, h⟩
          rcases yields_bind_eq_ok.mp h with ⟨v, u, hbuild, h⟩
          rcases getElem?_of_onDocument hd h with hd' | ⟨rfl, d', hcall, hd'⟩
          · exact ⟨d, hd', .same⟩
          · rw [← hsession] at hcall
            rcases Document.text_of_yields_field hcall with ⟨text, form, rfl⟩
            exact ⟨d', hd', .extended hname hbuild hcall⟩
      | asMap j =>
          rcases getElem?_of_onDocument hd hyields with hd' | ⟨rfl, d', hcall, hd'⟩
          · exact ⟨d, hd', .same⟩
          · rcases yields_bind_eq_ok.mp hcall with ⟨v, m, -, h⟩
            rw [Except.ok.inj (yields_pure.mp h).1] at hd'
            exact ⟨d, hd', .same⟩
      | toBytes j =>
          refine effect_of_toBytes (fun d' t h => ?_) hd hyields
          rcases yields_bind_eq_ok.mp h with ⟨p, m, hp, h⟩
          rcases yields_pure.mp h with ⟨hd', rfl⟩
          exact ⟨p.1, Except.ok.inj hd' ▸ hp⟩
      | toText j =>
          refine effect_of_toBytes (fun d' t h => ?_) hd hyields
          rcases yields_bind_eq_ok.mp h with ⟨q, m, hq, h⟩
          rcases yields_pure.mp h with ⟨hd', rfl⟩
          cases hbinary : d.encoding.binary with
          | true =>
              -- There is no text of a binary payload, and such a call fails before it closes
              -- anything.
              have hfail := Document.yields_toText_of_binary hbinary l.session
              exact absurd (yields_unique hq hfail).1 ok_ne_error
          | false =>
              rw [Document.toText_eq hbinary] at hq
              rcases Document.ok_of_yields_map hq with ⟨p, hp, rfl⟩
              exact ⟨p.1, Except.ok.inj hd' ▸ hp⟩
      | writeTo j stream =>
          refine effect_of_toBytes (fun d' t h => ?_) hd hyields
          rcases yields_bind_eq_ok.mp h with ⟨q, m, hq, h⟩
          rcases yields_pure.mp h with ⟨hd', rfl⟩
          rw [Document.writeTo_eq] at hq
          rcases Document.ok_of_yields_map hq with ⟨p, hp, rfl⟩
          exact ⟨p.1, Except.ok.inj hd' ▸ hp⟩

/-- A closed document stays as it is, whatever is done. -/
theorem closed_after (a : Action) (hd : l.documents[i]? = some d) {p : Bytes}
    (hclosed : d.payload = some p) : (l.after a).documents[i]? = some d := by
  rcases exists_effect a hd with ⟨d', hd', heffect⟩
  have hrefuse : ∀ v s, Yields (d.map v) s (.error .finalized) s ∧
      ∀ name, Yields (d.field name v) s (.error .finalized) s :=
    fun v s => Document.refuses_of_closed (Document.isClosed_of_payload hclosed) v s
  cases heffect with
  | same => exact hd'
  | closed h =>
      rcases h with ⟨q, hopen, -⟩
      simp [hclosed] at hopen
  | mapped _ hcall => exact absurd (yields_unique hcall (hrefuse _ _).1).1 ok_ne_error
  | extended _ _ hcall => exact absurd (yields_unique hcall ((hrefuse _ _).2 _)).1 ok_ne_error

section

variable {L : Value → Prop}

/-- What a document takes over from what was compiled is what is seen of it. -/
theorem snapshot_of_topFields {m : Value} {news : Fields} {t : Session} (ht : t.Ordered)
    (hm : m.IsTop L) (h : Yields (topFields m) t (.ok news) t) :
    t.snapshot m = (t.seen news).toValue := by
  rcases hm with ⟨id, rfl⟩ | ⟨gs, rfl, -⟩
  · rw [Except.ok.inj (yields_fieldsOf.mp h).1]
    exact Session.snapshot_live ht id
  · rw [topFields_toValue] at h
    rw [Except.ok.inj (yields_pure.mp h).1]
    exact Session.snapshot_toValue ht gs

/-- A tree that was compiled is compiled to something that a document can be built
    from. -/
theorem Sound.isTop (hL : LeafRule L) (hl : l.Sound L) {tree : Expr} {v m : Value}
    {s t : Session} (hbuild : Yields (tree.build l.stack) l.session (.ok v) s)
    (hmap : Yields (toMap v) s (.ok m) t) (hleaves : ∀ w ∈ t.leaves, L w) : m.IsTop L := by
  have hrun : Yields (do let v ← tree.build l.stack; toMap v) l.session (.ok m) t :=
    (yields_bind_ok hbuild).mpr hmap
  rcases safe_compile hL (P := True) (k := 0) l.stack tree _ _ _ hrun with ⟨-, hsafe⟩
  exact ((hsafe trivial hl.session (Nat.zero_le _) hleaves).2.2 m rfl).2

/-- The session that a call of a document leaves. -/
theorem session_after {f : Document → Run Document} {d' : Document} {s t : Session}
    {p : Run (List Document)} (hp : a.perform l.stack l.documents = p)
    (hyields : ∀ r u, Yields p l.session r u ↔ Yields (onDocument l.documents i f) s r u)
    (hd : l.documents[i]? = some d) (h : Yields (f d) s (.ok d') t) :
    l.after a = ⟨t, l.documents.set i d', l.stack⟩ := by
  refine after_of_ok ?_
  rw [hp, hyields, onDocument_of_some hd]
  exact Document.yields_map_of_ok h

/-- Fields are added to open documents only. -/
theorem Adds.payload_eq_none (hadds : l.Adds i a fs) (hd : l.documents[i]? = some d) :
    d.payload = none := by
  rw [← Document.isClosed_eq_false]
  cases hadds with
  | map he _ hcall _ _ =>
      rw [he, Option.some.injEq] at hd
      rw [← hd]
      exact (Document.yields_map_ok.mp hcall).1
  | field he _ _ hcall _ =>
      rw [he, Option.some.injEq] at hd
      rw [← hd]
      exact (Document.yields_field_ok.mp hcall).1

/-- A call that adds fields to an open document merges them into what is seen. -/
theorem Adds.effect (hL : LeafRule L) (hl : l.Sound L) (hadds : l.Adds i a fs)
    (hl' : (l.after a).Sound L) (hleaves : ∀ v ∈ (l.after a).session.leaves, L v)
    (hd : l.documents[i]? = some d) :
    ∃ news,
      (l.after a).documents[i]? = some { d with content := d.content.merge news } ∧
      (l.after a).session.seen news = fs := by
  cases hadds with
  | @map tree v m e e' fs s t he hbuild hcall hmap hfs =>
      rw [he, Option.some.injEq] at hd
      subst hd
      -- The call is the whole action, so what it left is what the action left.
      have hafter : l.after (.map i tree) = ⟨t, l.documents.set i e', l.stack⟩ :=
        session_after (f := fun d => d.map v) rfl (fun r u => yields_bind_ok hbuild) he hcall
      rw [hafter] at hl' hleaves ⊢
      rcases Document.yields_map_ok.mp hcall with ⟨-, m', news, hmap', hnews, rfl⟩
      rcases yields_unique hmap hmap' with ⟨hm, -⟩
      cases hm
      have hseen := snapshot_of_topFields hl'.session.ordered
        (hl.isTop hL hbuild hmap hleaves) hnews
      rw [hfs] at hseen
      exact ⟨news, getElem?_set_same he,
        (Fields.toValue_injective hseen).symm⟩
  | @field name tree text form v w e e' s u t he hname hbuild hcall hvalue =>
      rw [he, Option.some.injEq] at hd
      subst hd
      have hafter : l.after (.field i name tree) = ⟨t, l.documents.set i e', l.stack⟩ := by
        refine session_after (f := fun d => d.field (.scalar (.text text form)) v) (s := u) rfl
          (fun r u' => ?_) he hcall
        exact (yields_bind_ok hname).trans (yields_bind_ok hbuild)
      rw [hafter]
      rcases Document.yields_field_ok.mp hcall with ⟨-, w', hvalue', rfl⟩
      -- The value that was added is the one that the call took.
      rcases yields_unique hvalue hvalue' with ⟨hw, -⟩
      cases hw
      exact ⟨[(⟨text, form⟩, w)], getElem?_set_same he, rfl⟩

/-- An action that adds no fields leaves a document as it is, or closes it. -/
theorem exists_effect_of_not_adds (hL : LeafRule L) (hl : l.Sound L)
    (hnot : ∀ fs, ¬ l.Adds i a fs) (hl' : (l.after a).Sound L)
    (hleaves : ∀ v ∈ (l.after a).session.leaves, L v) (hd : l.documents[i]? = some d) :
    ∃ d', (l.after a).documents[i]? = some d' ∧ (d' = d ∨ d.ClosedBy l.session d') := by
  rcases exists_effect a hd with ⟨d', hd', heffect⟩
  refine ⟨d', hd', ?_⟩
  cases heffect with
  | same => exact Or.inl rfl
  | closed h => exact Or.inr h
  -- Had it changed the fields, it would have added some.
  | mapped hbuild hcall =>
      rcases Document.yields_map_ok.mp hcall with ⟨-, m, news, hmap, hnews, -⟩
      exact absurd (.map hd hbuild hcall hmap (snapshot_of_topFields hl'.session.ordered
        (hl.isTop hL hbuild hmap hleaves) hnews)) (hnot _)
  | extended hname hbuild hcall =>
      rcases Document.yields_field_ok.mp hcall with ⟨-, w, hvalue, -⟩
      exact absurd (.field hd hname hbuild hcall hvalue) (hnot _)

/-- No leaf node that was made by hand is ever forgotten. -/
theorem Later.leaves (hL : LeafRule L) {m : Library} (h : l.Later m) :
    ∀ v ∈ l.session.leaves, v ∈ m.session.leaves := by
  induction h with
  | refl => exact fun v hv => hv
  | tail _ hmove ih => exact fun v hv => (hmove.onward hL).leaves v (ih v hv)

/-- A library is sound before a move as well as after it. What nodes made by hand hold is
    known before the move if it is known after it, since none of them is forgotten. -/
theorem Later.sound_move (hL : LeafRule L) (hl : l.Sound L) {m m' : Library} (h : l.Later m)
    (hmove : Moves m m') (hleaves : ∀ v ∈ m'.session.leaves, L v) :
    (∀ v ∈ m.session.leaves, L v) ∧ m.Sound L ∧ m'.Sound L := by
  have hbefore : ∀ v ∈ m.session.leaves, L v :=
    fun v hv => hleaves v ((hmove.onward hL).leaves v hv)
  have hm := (Later.sound hL h hl hbefore).1
  exact ⟨hbefore, hm, (hmove.sound hL hm hleaves).1⟩

namespace Course

variable {results : List Fields} {m : Library}

/-- What runs is a run of the library. -/
theorem later (h : l.Course i results m) : l.Later m := by
  induction h with
  | start => exact Relation.ReflTransGen.refl
  | adds _ _ _ ih => exact ih.tail (Moves.performs _ _)
  | performs _ _ _ ih => exact ih.tail (Moves.performs _ _)
  | enters _ ih => exact ih.tail (Moves.enters _)
  | turns _ stack hstack ih => exact ih.tail (Moves.turns _ stack hstack)

/-- Calls add nothing to a closed document, which stays as it is. -/
theorem final (hd : l.documents[i]? = some d) {p : Bytes} (hclosed : d.payload = some p)
    (h : l.Course i results m) : results = [] ∧ m.documents[i]? = some d := by
  induction h with
  | start => exact ⟨rfl, hd⟩
  | @adds results m a fs h hadds hspares ih =>
      have hopen := hadds.payload_eq_none ih.2
      simp [hclosed] at hopen
  | performs h hnot hspares ih => exact ⟨ih.1, closed_after _ ih.2 hclosed⟩
  | enters _ ih => exact ih
  | turns _ _ _ ih => exact ih

end Course

end

end Library

/-! ## What a document has -/

section

variable {s t : Session}

/-- What is seen of fields stays the same if the blocks that there were are spared. -/
theorem Session.Spares.seen (h : s.Spares t) (hs : s.Ordered) (ht : t.Ordered) {fs : Fields}
    (hheld : ∀ j ∈ fs.held, j < s.blocks.size) : t.seen fs = s.seen fs := by
  refine List.map_congr_left fun f hf => congrArg (Prod.mk f.1) ?_
  refine Session.snapshot_eq_of_fields (hs.orderedFrom 0) (ht.orderedFrom 0)
    (fun i _ hi => h i hi) fun j hj => ⟨Nat.zero_le j, ?_⟩
  exact hheld j (Fields.mem_held.mpr ⟨f, hf, hj⟩)

theorem Session.spares_opened (s : Session) : s.Spares s.opened := fun id _ => s.fields_opened id

/-- Work that leaves the blocks as they are spares them. -/
theorem Session.spares_of_blocks (h : t.blocks = s.blocks) : s.Spares t := by
  intro id _
  simp [Session.fields, h]

/-- What was encoded once is encoded again, whatever the session is. -/
theorem yields_encode_again {v : Value} {e : Encoding} {layout : JsonLayout} {p : Bytes}
    (h : Yields (encode v e layout) s (.ok p) t) (u : Session) :
    Yields (encode v e layout) u (.ok p) u := by
  rcases encode_ok h with ⟨c, hprepare, hwrite, -⟩
  exact yields_encode hprepare hwrite u

end

/-- Document `i` has some fields, which its payload encodes if it is closed. -/
structure Document.Follows (l : Library) (i : Nat) (d : Document) (fs : Fields) : Prop where
  document : l.documents[i]? = some d
  seen : l.session.seen d.content = fs
  written : ∀ p, d.payload = some p →
    ∀ s, Yields (encode fs.toValue d.encoding d.layout) s (.ok p) s

section

variable {L : Value → Prop} {l m : Library} {i : Nat} {d d₀ : Document} {fs : Fields}
  {results : List Fields} {a : Action}

theorem mergeAll_concat (results : List Fields) (fs : Fields) :
    mergeAll (results ++ [fs]) = (mergeAll results).merge fs := by
  simp [mergeAll, List.foldl_append]

/-- Steps that spare the blocks leave the fields of a document as they are seen. -/
theorem Document.Follows.spared (h : d.Follows l i fs) (hl : l.Sound L) (hm : m.Sound L)
    (hspares : l.session.Spares m.session) (hd : m.documents[i]? = some d) :
    d.Follows m i fs where
  document := hd
  seen := by
    rw [hspares.seen hl.session.ordered hm.session.ordered
      (hl.documents d (List.mem_of_getElem? h.document)).held]
    exact h.seen
  written := h.written

/-- A call that adds fields. -/
theorem Document.Follows.adds (hL : LeafRule L) (h : d.Follows l i fs) {news : Fields}
    (hadds : l.Adds i a news) (hl : l.Sound L) (hl' : (l.after a).Sound L)
    (hleaves : ∀ v ∈ (l.after a).session.leaves, L v)
    (hspares : l.session.Spares (l.after a).session) :
    ∃ d' : Document, d'.encoding = d.encoding ∧ d'.layout = d.layout ∧
      d'.Follows (l.after a) i (fs.merge news) := by
  rcases hadds.effect hL hl hl' hleaves h.document with ⟨taken, hd', htaken⟩
  refine ⟨{ d with content := d.content.merge taken }, rfl, rfl, hd', ?_, fun p hp => ?_⟩
  · have hheld := (hl.documents d (List.mem_of_getElem? h.document)).held
    rw [Session.seen_merge, htaken, hspares.seen hl.session.ordered hl'.session.ordered hheld,
      h.seen]
  · simp [hadds.payload_eq_none h.document] at hp

/-- An action that adds no fields. -/
theorem Document.Follows.performs (hL : LeafRule L) (h : d.Follows l i fs)
    (hnot : ∀ news, ¬ l.Adds i a news) (hl : l.Sound L) (hl' : (l.after a).Sound L)
    (hleaves : ∀ v ∈ (l.after a).session.leaves, L v)
    (hspares : l.session.Spares (l.after a).session) :
    ∃ d' : Document, d'.encoding = d.encoding ∧ d'.layout = d.layout ∧
      d'.Follows (l.after a) i fs := by
  rcases Library.exists_effect_of_not_adds hL hl hnot hl' hleaves h.document with
    ⟨d', hd', rfl | ⟨p, -, rfl, hencode⟩⟩
  · exact ⟨_, rfl, rfl, h.spared hl hl' hspares hd'⟩
  · have hseen : (l.after a).session.seen d.content = fs := by
      rw [hspares.seen hl.session.ordered hl'.session.ordered
        (hl.documents d (List.mem_of_getElem? h.document)).held]
      exact h.seen
    -- The payload is that of the content as it looked when it was closed, and it looks the same
    -- still.
    rw [Session.snapshot_toValue hl.session.ordered, h.seen] at hencode
    refine ⟨{ d with payload := some p }, rfl, rfl, hd', hseen, fun q hq => ?_⟩
    simp only [Option.some.injEq] at hq
    rw [← hq]
    exact yields_encode_again hencode

/-- A document has the fields that were added to it, by induction along the course. -/
theorem Library.Course.follows (hL : LeafRule L) (hl : l.Sound L)
    (hd₀ : l.documents[i]? = some d₀) (hempty : d₀.content = []) (hopen : d₀.payload = none)
    (h : l.Course i results m) (hleaves : ∀ v ∈ m.session.leaves, L v) :
    ∃ d : Document, d.encoding = d₀.encoding ∧ d.layout = d₀.layout ∧
      d.Follows m i (mergeAll results) := by
  induction h with
  | start =>
      refine ⟨d₀, rfl, rfl, hd₀, ?_, fun p hp => ?_⟩
      · rw [hempty]
        rfl
      · simp [hopen] at hp
  | @adds results m a fs h hadds hspares ih =>
      obtain ⟨hbefore, hm, hm'⟩ := Later.sound_move hL hl h.later (.performs m a) hleaves
      rcases ih hbefore with ⟨d, hencoding, hlayout, hfollows⟩
      rcases hfollows.adds hL hadds hm hm' hleaves hspares with
        ⟨d', hencoding', hlayout', h'⟩
      rw [mergeAll_concat]
      exact ⟨d', hencoding'.trans hencoding, hlayout'.trans hlayout, h'⟩
  | @performs results m a h hnot hspares ih =>
      obtain ⟨hbefore, hm, hm'⟩ := Later.sound_move hL hl h.later (.performs m a) hleaves
      rcases ih hbefore with ⟨d, hencoding, hlayout, hfollows⟩
      rcases hfollows.performs hL hnot hm hm' hleaves hspares with
        ⟨d', hencoding', hlayout', h'⟩
      exact ⟨d', hencoding'.trans hencoding, hlayout'.trans hlayout, h'⟩
  -- The other moves are about blocks alone.
  | @enters results m h ih =>
      obtain ⟨hbefore, hm, hm'⟩ := Later.sound_move hL hl h.later (.enters m) hleaves
      rcases ih hbefore with ⟨d, hencoding, hlayout, hfollows⟩
      exact ⟨d, hencoding, hlayout,
        hfollows.spared hm hm' (Session.spares_opened m.session) hfollows.document⟩
  | @turns results m h stack hstack ih =>
      obtain ⟨hbefore, hm, hm'⟩ := Later.sound_move hL hl h.later (.turns m stack hstack) hleaves
      rcases ih hbefore with ⟨d, hencoding, hlayout, hfollows⟩
      exact ⟨d, hencoding, hlayout,
        hfollows.spared hm hm' (Session.spares_of_blocks rfl) hfollows.document⟩

end

end Docket
