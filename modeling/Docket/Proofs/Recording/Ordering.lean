import Docket.Proofs.Recording.Ownership
import Docket.Proofs.Recording.Turns
import Mathlib.Data.List.Induction

/-!
# The order of fields

A block has its fields in the order in which their first assignments were completed, and
each with the value of its last one. Its journal says which assignments were completed and
when, so this is a statement about reading a journal from its beginning
(`Fields.inOrder_merge`); that fields are nothing else than their journal read in this way
is kept by every step (`Session.Onward.journaled`), whatever blocks are being recorded and
whether or not what is under way fails.

An assignment enters the journal last of all: it is classified, its bodies are run, which
may assign to the same field of the same block, and only if nothing has failed is it stored,
behind everything that was stored meanwhile (`Completes`). One that fails is not
entered, so the block has what it had before and what those bodies have assigned.

## Main definitions

* `Session.latest`: The value that was assigned to a name last.
* `Session.InOrder`: Names in the order of their first assignments, with their last values.
* `Session.Shows`: What a block shows to a script.
* `Session.Journaled`: Fields are what their journals come to.
* `Completes`: An assignment is completed, or fails and stores nothing.
* `Session.AssignsLast`: Every form of assignment is completed in this way.

## Theorems

* `Fields.inOrder_merge`: Reading a journal from its beginning.
* `Session.Onward.journaled`: Every later session is what its journals come to.
* `completes_of_yields`: How assignments are completed.
* `blocks_in_order`: Blocks have their fields in order.
-/

namespace Docket

/-! ## Reading a journal -/

namespace Fields

theorem merge_concat (fs news : Fields) (f : Name × Value) :
    fs.merge (news ++ [f]) = (fs.merge news).set f.1 f.2 := by
  rw [merge_append]
  rfl

theorem names_append (fs news : Fields) : names (fs ++ news) = fs.names ++ news.names :=
  List.map_append

theorem get?_set (fs : Fields) (name : Name) (v : Value) (n : String) :
    (fs.set name v).get? n = if name.text = n then some v else fs.get? n := by
  by_cases hn : name.text = n
  -- Names are told apart by their texts, whatever form they have.
  · rw [if_pos hn, ← hn]
    exact get?_set_self fs name v
  · rw [if_neg hn]
    induction fs with
    | nil => simp [set, get?, hn]
    | cons f rest ih =>
        by_cases hsame : f.1.same name = true
        · have hf : ¬ f.1.text = n := fun h => hn ((Name.same_iff.mp hsame).symm.trans h)
          simp [set, hsame, get?, hf]
        · by_cases hf : f.1.text = n
          · simp [set, hsame, get?, hf]
          · simp only [get?] at ih
            simp [set, hsame, get?, hf, ih]

theorem mem_names_merge (news : Fields) (n : String) :
    n ∈ (merge [] news).names ↔ n ∈ news.names := by
  -- The last entry of the journal is assigned last, so the induction is from the end.
  induction news using List.reverseRecOn with
  | nil => exact Iff.rfl
  | append_singleton news f ih =>
      have hnames : names (news ++ [f]) = names news ++ [f.1.text] := names_append _ _
      rw [merge_concat, names_set, hnames, List.mem_append, List.mem_singleton]
      by_cases hmem : f.1.text ∈ (merge [] news).names
      · rw [if_pos hmem, ih]
        refine ⟨Or.inl, ?_⟩
        rintro (h | rfl)
        · exact h
        · exact ih.mp hmem
      · rw [if_neg hmem, List.mem_append, List.mem_singleton, ih]

end Fields

/-- Names in the order of their first assignments in a journal, and each with the value of
    its last one. -/
structure Fields.InOrder (journal fs : Fields) : Prop where
  distinct : fs.names.Nodup
  present : ∀ name, name ∈ fs.names ↔ name ∈ journal.names
  ordered : fs.names.Pairwise fun a b => journal.names.idxOf a < journal.names.idxOf b
  latest : ∀ name, fs.get? name = Fields.get? journal.reverse name

namespace Fields

/-- A name that is new comes later in the journal than all others. -/
theorem pairwise_merge (news : Fields) : (merge [] news).names.Pairwise fun a b =>
    news.names.idxOf a < news.names.idxOf b := by
  induction news using List.reverseRecOn with
  | nil => exact .nil
  | append_singleton news f ih =>
      have hnames : names (news ++ [f]) = names news ++ [f.1.text] := names_append _ _
      -- Another entry does not change where older names stand in the journal.
      have hold : ∀ a ∈ (merge [] news).names,
          (names news ++ [f.1.text]).idxOf a = (names news).idxOf a :=
        fun a ha => List.idxOf_append_of_mem ((mem_names_merge news a).mp ha)
      have holds : (merge [] news).names.Pairwise fun a b =>
          (names news ++ [f.1.text]).idxOf a < (names news ++ [f.1.text]).idxOf b := by
        refine ih.imp_of_mem fun {a b} ha hb hlt => ?_
        rw [hold a ha, hold b hb]
        exact hlt
      rw [merge_concat, names_set, hnames]
      by_cases hmem : f.1.text ∈ (merge [] news).names
      · rw [if_pos hmem]
        exact holds
      · rw [if_neg hmem]
        refine List.pairwise_append.mpr ⟨holds, List.pairwise_singleton _ _, fun a ha b hb => ?_⟩
        rw [List.mem_singleton] at hb
        -- A name that is new goes to the end of the fields, and stands last in the journal.
        have hnew : f.1.text ∉ names news := fun h => hmem ((mem_names_merge news _).mpr h)
        rw [hb, hold a ha, List.idxOf_append_of_notMem hnew]
        exact Nat.lt_add_right _
          (List.idxOf_lt_length_iff.mpr ((mem_names_merge news a).mp ha))

theorem get?_merge (news : Fields) (n : String) :
    (merge [] news).get? n = get? news.reverse n := by
  induction news using List.reverseRecOn with
  | nil => rfl
  | append_singleton news f ih =>
      rw [merge_concat, get?_set, List.reverse_append, List.reverse_singleton,
        List.singleton_append]
      -- The journal is searched from its end, where this entry is met first.
      by_cases hn : f.1.text = n
      · simp [get?, hn]
      · simp only [get?] at ih
        simp [get?, hn, ih]

theorem nodup_merge (news : Fields) : (merge [] news).names.Nodup := by
  induction news using List.reverseRecOn with
  | nil => exact List.nodup_nil
  | append_singleton news f ih =>
      rw [merge_concat]
      exact nodup_set f.1 f.2 ih

/-- Reading a journal from its beginning gives fields in order. -/
theorem inOrder_merge (journal : Fields) : journal.InOrder (merge [] journal) :=
  ⟨nodup_merge journal, mem_names_merge journal, pairwise_merge journal, get?_merge journal⟩

end Fields

/-! ## Blocks -/

namespace Session

/-- The fields of every block are what its journal comes to. -/
structure Journaled (s : Session) : Prop where
  paired : s.Paired
  fields : ∀ id, s.fields id = Fields.merge [] (s.assignments id)

/-- The value that was assigned to a name of a block last. -/
def latest (s : Session) (id : Nat) (name : String) : Option Value :=
  Fields.get? (s.assignments id).reverse name

/-- The names of a block in the order of their first assignments, with the values of their
    last ones. -/
def InOrder (s : Session) (id : Nat) : Prop := (s.assignments id).InOrder (s.fields id)

variable {s s' : Session} {id : Nat}

theorem Journaled.inOrder (h : s.Journaled) (id : Nat) : s.InOrder id := by
  unfold InOrder
  rw [h.fields]
  exact Fields.inOrder_merge _

/-- Whatever is done, fields are what their journals come to. -/
theorem Onward.journaled (h : s.Onward s') (hs : s.Journaled) : s'.Journaled where
  paired := h.paired hs.paired
  fields id := by
    rcases h.since hs.paired id with ⟨news, hjournal, hfields⟩
    rw [hfields, hs.fields, hjournal, Fields.merge_append]

theorem journaled_initial : Session.initial.Journaled := ⟨rfl, fun _ => rfl⟩

/-- What a block shows to a script: the values that were assigned last, as they are now,
    and which names there are. Nothing changes but what has been traced. -/
structure Shows (s : Session) (id : Nat) : Prop where
  read : ∀ (stack : BlockStack) up name v, stack[up]? = some id → s.latest id name = some v →
    Yields ((Expr.read name up).build stack) s (.ok v) s
  readNone : ∀ (stack : BlockStack) up name, stack[up]? = some id → s.latest id name = none →
    Yields ((Expr.read name up).build stack) s (.error (.keyError (.text name))) s
  get : ∀ run rest name form v, s.latest id name = some v →
    Yields ((Stmt.get (.scalar (.text name form))).exec run (id :: rest)) s (.ok ())
      { s with notes := s.notes.push (.seen "get" (s.snapshot v)) }
  getNone : ∀ run rest name form, s.latest id name = none →
    ∃ e, Yields ((Stmt.get (.scalar (.text name form))).exec run (id :: rest)) s (.error e) s
  contains : ∀ run rest name form,
    Yields ((Stmt.contains (.scalar (.text name form))).exec run (id :: rest)) s (.ok ())
      { s with notes := s.notes.push (.seen "in" (.bool (decide (name ∈ (s.fields id).names)))) }
  count : ∀ run rest, Yields (Stmt.count.exec run (id :: rest)) s (.ok ())
    { s with notes := s.notes.push (.seen "len" (.int (s.fields id).names.length)) }

theorem yields_lookUp (name : String) (form : TextForm) :
    Yields (lookUp id (.scalar (.text name form))) s (.ok ((s.fields id).get? name)) s := by
  unfold lookUp
  exact (yields_bind_ok (yields_fieldsOf.mpr ⟨rfl, rfl⟩)).mpr (yields_pure.mpr ⟨rfl, rfl⟩)

theorem isSome_get? (fs : Fields) (name : String) :
    (fs.get? name).isSome = decide (name ∈ fs.names) := by
  induction fs with
  | nil => rfl
  | cons f rest ih =>
      by_cases hf : f.1.text = name
      · simp [Fields.get?, Fields.names, hf]
      · have hnames : Fields.names (f :: rest) = f.1.text :: Fields.names rest := rfl
        have hget : Fields.get? (f :: rest) name = Fields.get? rest name := by
          simp [Fields.get?, hf]
        rw [hget, hnames, ih]
        simp [Ne.symm hf]

theorem InOrder.shows (h : s.InOrder id) : s.Shows id := by
  have hkey : ∀ (stack : BlockStack) name form,
      Yields ((Expr.scalar (.text name form)).build stack) s
        (.ok (.scalar (.text name form))) s := by
    intro stack name form
    rw [Expr.build]
    exact yields_pure.mpr ⟨rfl, rfl⟩
  have hblock : ∀ rest, Yields (blockAt (id :: rest) 0) s (.ok id) s :=
    fun rest => yields_pure.mpr ⟨rfl, rfl⟩
  have hread : ∀ (stack : BlockStack) up, stack[up]? = some id →
      Yields (blockAt stack up) s (.ok id) s := by
    intro stack up hup
    unfold blockAt
    rw [hup]
    exact yields_pure.mpr ⟨rfl, rfl⟩
  -- Each way to look at the block finds the fields, which are what was assigned last.
  constructor
  case read =>
    intro stack up name v hup hv
    rw [Expr.build, yields_bind_ok (hread stack up hup),
      yields_bind_ok (yields_fieldsOf.mpr ⟨rfl, rfl⟩), h.latest, ← latest, hv]
    exact yields_pure.mpr ⟨rfl, rfl⟩
  case readNone =>
    intro stack up name hup hv
    rw [Expr.build, yields_bind_ok (hread stack up hup),
      yields_bind_ok (yields_fieldsOf.mpr ⟨rfl, rfl⟩), h.latest, ← latest, hv]
    exact yields_throw.mpr ⟨rfl, rfl⟩
  case get =>
    intro run rest name form v hv
    rw [Stmt.exec, yields_bind_ok (hkey _ name form), yields_bind_ok (hblock rest),
      yields_bind_ok (yields_lookUp name form), h.latest, ← latest, hv]
    exact yields_modify.mpr ⟨rfl, rfl⟩
  case getNone =>
    intro run rest name form hv
    refine ⟨.foreign "KeyError" (Value.scalar (.text name form)).display none, ?_⟩
    rw [Stmt.exec, yields_bind_ok (hkey _ name form), yields_bind_ok (hblock rest),
      yields_bind_ok (yields_lookUp name form), h.latest, ← latest, hv]
    exact (yields_bind_ok (yields_pure.mpr ⟨rfl, rfl⟩)).mpr (yields_throw.mpr ⟨rfl, rfl⟩)
  case contains =>
    intro run rest name form
    rw [Stmt.exec, yields_bind_ok (hkey _ name form), yields_bind_ok (hblock rest),
      yields_bind_ok (yields_lookUp name form), isSome_get?]
    exact yields_modify.mpr ⟨rfl, rfl⟩
  case count =>
    intro run rest
    have hlength : (s.fields id).names.length = (s.fields id).length := List.length_map _
    rw [Stmt.exec, yields_bind_ok (hblock rest),
      yields_bind_ok (yields_fieldsOf.mpr ⟨rfl, rfl⟩), hlength]
    exact yields_modify.mpr ⟨rfl, rfl⟩

end Session

/-! ## Assignments -/

/-- How an assignment ends: its value is refused, or some body in it fails or it cannot be
    evaluated for another reason, and then nothing is stored; or all bodies in it have been
    run, and the value is stored behind all that was stored meanwhile. -/
inductive Completes (depth : Nat) (stack : BlockStack) (a : Assignment) (s : Session) :
    Except Failure Unit → Session → Prop
  | refused {gone : Array Nat} {e : Failure}
      (hnode : Yields (toNode a.value a.name) s (.error e) { s with drawn := gone }) :
      Completes depth stack a s (.error e) { s with drawn := gone }
  | failed {gone : Array Nat} {n : Node} {bs : List Body} {cs : List Entry}
      {r : Except Failure Unit} {e : Failure} {t : Session}
      (hnode : Yields (toNode a.value a.name) s (.ok n) { s with drawn := gone })
      (hbegin : bs <+: n.bodies) (hturn : InTurn depth stack bs { s with drawn := gone } cs r t)
      (heval : Yields (n.resolve (Body.runAt depth stack)) { s with drawn := gone }
        (.error e) t) :
      Completes depth stack a s (.error e) t
  | stored {gone : Array Nat} {n : Node} {cs : List Entry} {data : Value} {t : Session}
      (hnode : Yields (toNode a.value a.name) s (.ok n) { s with drawn := gone })
      (hturn : InTurn depth stack n.bodies { s with drawn := gone } cs (.ok ()) t)
      (heval : Yields (n.resolve (Body.runAt depth stack)) { s with drawn := gone }
        (.ok data) t) :
      Completes depth stack a s (.ok ()) (t.assigned a.id a.name data)

section

variable {depth : Nat} {stack : BlockStack} {a : Assignment} {s s' : Session}
  {r : Except Failure Unit}

/-- However an assignment ends, it ends like this. -/
theorem completes_of_yields (h : Yields (a.perform (Body.runAt depth) stack) s r s') :
    Completes depth stack a s r s' := by
  unfold Assignment.perform assignField at h
  rcases finds_toNode a.value a.name s with ⟨gone, ⟨n, hn, -⟩ | ⟨e, left, he, -⟩⟩
  · rw [yields_bind_ok hn] at h
    rcases yields_bind.mp h with ⟨data, t, heval, hassign⟩ | ⟨e, heval, rfl⟩
    · rcases inTurn_resolve n _ _ _ heval with ⟨bs, cs, r₀, -, hturn, hall⟩
      -- What has been evaluated has had all of its bodies run.
      rcases hall (Or.inr ⟨data, rfl⟩) with ⟨rfl, rfl⟩
      rcases yields_modify.mp hassign with ⟨rfl, rfl⟩
      exact .stored hn hturn heval
    · -- Some of them may not have been run.
      rcases inTurn_resolve n _ _ _ heval with ⟨bs, cs, r₀, hprefix, hturn, -⟩
      exact .failed hn hprefix hturn heval
  · rcases (yields_bind_error he).mp h with ⟨rfl, rfl⟩
    exact .refused he

theorem onward_drawn (s : Session) (gone : Array Nat) : s.Onward { s with drawn := gone } :=
  .of_eq (fun _ h => h) rfl rfl

/-- What an assignment stores is the last entry of the journal of its block. -/
theorem Completes.last (hs : s.Paired) (hid : a.id < s.blocks.size)
    (h : Completes depth stack a s (.ok ()) s') :
    ∃ news data, s'.assignments a.id = s.assignments a.id ++ news ++ [(a.name, data)] ∧
      s'.fields a.id = ((s.fields a.id).merge news).set a.name data := by
  cases h with
  | @stored gone n cs data t hnode hturn heval =>
      -- The bodies may have assigned to this very block, and even to this name.
      have honward := (onward_drawn s gone).trans hturn.onward
      rcases honward.since hs a.id with ⟨news, hjournal, hfields⟩
      have hid' : a.id < t.blocks.size := Nat.lt_of_lt_of_le hid honward.size
      have hpaired : a.id < t.history.size := (honward.paired hs).symm ▸ hid'
      refine ⟨news, data, ?_, ?_⟩
      · rw [t.assignments_assigned a.name data hpaired, hjournal]
      · rw [t.fields_assigned a.name data a.id hid', if_pos rfl, hfields]

/-- One that fails leaves what was recorded meanwhile, which is nothing if its value was
    refused. -/
theorem Completes.failing {e : Failure} (h : Completes depth stack a s (.error e) s') :
    (s'.blocks = s.blocks ∧ s'.history = s.history) ∨
      ∃ gone bs cs r, InTurn depth stack bs { s with drawn := gone } cs r s' := by
  cases h with
  | refused _ => exact Or.inl ⟨rfl, rfl⟩
  | failed _ _ hturn _ => exact Or.inr ⟨_, _, _, _, hturn⟩

end

/-! ## Forms of assignment -/

/-- Whether a statement assigns a field itself. -/
def Stmt.isAssignment : Stmt → Bool
  | .set .. => true
  | .item .. => true
  | .call .. => true
  | .named .. => true
  | _ => false

section

variable {s : Session} {stack : BlockStack}

/-- What assigns no field comes to something or fails, and has changed no block. -/
theorem Builds.splits {L : Value → Prop} {α : Type} {p : Run α} {Q : α → Prop}
    (h : Builds L p Q) (s : Session) :
    (∃ v t, Yields p s (.ok v) t ∧ Draws s t) ∨ ∃ e t, Yields p s (.error e) t ∧ Draws s t := by
  have hrun := yields_run p s
  have hdraws := (h _ _ _ hrun).1
  cases hr : (p.run.run s).1 with
  | ok v => exact Or.inl ⟨v, _, hr ▸ hrun, hdraws⟩
  | error e => exact Or.inr ⟨e, _, hr ▸ hrun, hdraws⟩

theorem builds_callParts (stack : BlockStack) (c : FieldCall) :
    Builds Value.IsLeaf (callParts stack c) fun _ => True := by
  unfold callParts
  refine (builds_blockAt stack 0).bind fun id => Builds.any ?_
  refine (builds_refPath true c.1).bind fun names => Builds.any ?_
  refine (builds_items isLeaf_leafRule stack c.2.1).bind fun vs => Builds.any ?_
  exact builds_map (builds_fields isLeaf_leafRule stack c.2.2) fun _ _ => trivial

/-- What assigns no field is passed, or it fails and what follows is not come to. -/
theorem Builds.passed_or_fails {L : Value → Prop} {α β : Type} {p : Run α} {Q : α → Prop}
    (h : Builds L p Q) {f : α → Run β} {goal : Prop} {s t : Session} (hst : Draws s t)
    (hnext : ∀ v u, Yields p t (.ok v) u → Draws s u →
      goal ∨ ∃ e w, Yields (f v) u (.error e) w ∧ Draws s w) :
    goal ∨ ∃ e w, Yields (p >>= f) t (.error e) w ∧ Draws s w := by
  rcases h.splits t with ⟨v, u, hv, htu⟩ | ⟨e, u, he, htu⟩
  · simp only [yields_bind_ok hv]
    exact hnext v u hv (hst.trans htu)
  · exact Or.inr ⟨e, u, (yields_bind_error he).mpr ⟨rfl, rfl⟩, hst.trans htu⟩

/-- A call comes to an assignment, or it fails before anything is recorded. -/
theorem FieldCall.assigns_or_fails (c : FieldCall) (run : BodyRunner) (stack : BlockStack)
    (s : Session) :
    (∃ a t, c.Assigns stack s a t ∧ Draws s t) ∨
      ∃ e t, Yields (c.make run stack) s (.error e) t ∧ Draws s t := by
  rw [FieldCall.make_eq]
  refine (builds_callParts stack c).passed_or_fails (Draws.refl s) ?_
  rintro ⟨id, names, vs, fs⟩ t hparts hst
  cases hnames : names.isEmpty with
  | false =>
      -- A reference is called, and `self` is the only word that it takes itself.
      simp only [Bool.false_eq_true, if_false, callRef]
      cases hself : fs.names.contains "self" with
      | true =>
          simp only [if_true]
          exact Or.inr ⟨_, t, (yields_bind_error (yields_throw.mpr ⟨rfl, rfl⟩)).mpr ⟨rfl, rfl⟩,
            hst⟩
      | false =>
          simp only [Bool.false_eq_true, if_false]
          exact (builds_callValue (L := Value.IsLeaf) vs fs).passed_or_fails hst
            fun v u hvalue hsu => Or.inl ⟨_, u, .reference hparts hnames hself hvalue, hsu⟩
  | true =>
      -- The block itself is called, and takes the name of the field among its arguments.
      simp only [if_true, callBlock]
      cases htaken : fs.names.find?
          (if vs.isEmpty then ["self"] else ["self", "name"]).contains with
      | some word => exact Or.inr ⟨_, t, yields_throw.mpr ⟨rfl, rfl⟩, hst⟩
      | none =>
          refine (builds_calledName (L := Value.IsLeaf) vs fs).passed_or_fails hst ?_
          rintro ⟨name, rest⟩ u hname hsu
          by_cases hkey : name.IsText
          · rcases hkey with ⟨key, rfl⟩
            exact (builds_callValue (L := Value.IsLeaf) rest
              (wordsBesideName vs fs)).passed_or_fails hsu fun v w hvalue hsw =>
                Or.inl ⟨_, w, .block hparts hnames htaken hname hvalue, hsw⟩
          · simp only [callNamed]
            split
            next text form => exact absurd ⟨⟨text, form⟩, rfl⟩ hkey
            next => exact Or.inr ⟨_, u, yields_throw.mpr ⟨rfl, rfl⟩, hsu⟩

/-- So does every statement that assigns. -/
theorem Stmt.assigns_or_fails (st : Stmt) (run : BodyRunner) (stack : BlockStack) (s : Session)
    (h : st.isAssignment = true) :
    (∃ a t, st.Assigns stack s a t ∧ Draws s t) ∨
      ∃ e t, Yields (st.exec run stack) s (.error e) t ∧ Draws s t := by
  cases st with
  | set path e =>
      rw [Stmt.exec]
      refine (builds_expr isLeaf_leafRule stack e).passed_or_fails (Draws.refl s)
        fun v t hvalue hst => ?_
      refine (builds_blockAt (L := Value.IsLeaf) stack 0).passed_or_fails hst
        fun id u hblock hsu => ?_
      refine (builds_refPath (L := Value.IsLeaf) true path.dropLast).passed_or_fails hsu
        fun names w hpath hsw => ?_
      cases hlast : isPrivate (path.getLast?.getD "") with
      | true =>
          simp only [if_true]
          exact Or.inr ⟨_, w, (yields_bind_error (yields_throw.mpr ⟨rfl, rfl⟩)).mpr ⟨rfl, rfl⟩,
            hsw⟩
      | false => exact Or.inl ⟨_, w, .set hvalue hblock hpath hlast, hsw⟩
  | item key e =>
      -- The key is evaluated before the value, and looked at after it.
      rw [Stmt.exec]
      refine (builds_expr isLeaf_leafRule stack key).passed_or_fails (Draws.refl s)
        fun k t hkey hst => ?_
      refine (builds_expr isLeaf_leafRule stack e).passed_or_fails hst fun v u hvalue hsu => ?_
      by_cases htext : k.IsText
      · rcases htext with ⟨key, rfl⟩
        exact (builds_blockAt (L := Value.IsLeaf) stack 0).passed_or_fails hsu
          fun id w hblock hsw => Or.inl ⟨_, w, .item hkey hvalue hblock, hsw⟩
      · split
        next text form => exact absurd ⟨⟨text, form⟩, rfl⟩ htext
        next => exact Or.inr ⟨_, u, yields_throw.mpr ⟨rfl, rfl⟩, hsu⟩
  | call path args keywords =>
      rcases FieldCall.assigns_or_fails (path, args, keywords) run stack s with
        ⟨a, t, ha, hst⟩ | hfails
      · exact Or.inl ⟨a, t, .call ha, hst⟩
      · exact Or.inr hfails
  | named name args keywords =>
      rcases FieldCall.assigns_or_fails ([], name :: args, keywords) run stack s with
        ⟨a, t, ha, hst⟩ | hfails
      · exact Or.inl ⟨a, t, .named ha, hst⟩
      · exact Or.inr hfails
  | _ => exact absurd h Bool.false_ne_true

end

/-! ## Sessions -/

/-- What is stored is stored last, and what fails stores nothing. -/
structure Session.AssignsLast (s : Session) : Prop where
  /-- Statements come to an assignment or fail with every block as it was, and so do the
      calls of a chain. -/
  statement : ∀ run stack (st : Stmt), st.isAssignment = true →
    (∃ a t, st.Assigns stack s a t ∧ Draws s t ∧
      ∀ r s', Yields (st.exec run stack) s r s' ↔ Yields (a.perform run stack) t r s') ∨
    ∃ e t, Yields (st.exec run stack) s (.error e) t ∧ Draws s t
  call : ∀ run stack (c : FieldCall),
    (∃ a t, c.Assigns stack s a t ∧ Draws s t ∧
      ∀ r s', Yields (c.make run stack) s r s' ↔ Yields (a.perform run stack) t r s') ∨
    ∃ e t, Yields (c.make run stack) s (.error e) t ∧ Draws s t
  completes : ∀ depth stack (a : Assignment) r s',
    Yields (a.perform (Body.runAt depth) stack) s r s' → Completes depth stack a s r s'
  /-- What is completed comes behind all that was assigned to the block meanwhile. -/
  stored : ∀ depth stack (a : Assignment) s', a.id < s.blocks.size →
    Yields (a.perform (Body.runAt depth) stack) s (.ok ()) s' →
      ∃ news data, s'.assignments a.id = s.assignments a.id ++ news ++ [(a.name, data)] ∧
        s'.latest a.id a.name.text = some data
  /-- What fails leaves what the bodies run meanwhile have assigned. -/
  failed : ∀ depth stack (a : Assignment) e s',
    Yields (a.perform (Body.runAt depth) stack) s (.error e) s' →
      (s'.blocks = s.blocks ∧ s'.history = s.history) ∨
        ∃ gone bs cs r, InTurn depth stack bs { s with drawn := gone } cs r s'
  /-- All this holds as well while statements and bodies are under way. -/
  onward : ∀ depth stack (st : Stmt) r s',
    Yields (st.exec (Body.runAt depth) stack) s r s' → s.Onward s'
  within : ∀ depth stack bs gone cs r s', InTurn depth stack bs { s with drawn := gone } cs r s' →
    ∀ c ∈ cs, s.Onward c.session.opened

theorem InTurn.onward_entry {depth : Nat} {stack : BlockStack} {bs : List Body} {s s' : Session}
    {cs : List Entry} {r : Except Failure Unit} (h : InTurn depth stack bs s cs r s') :
    ∀ c ∈ cs, s.Onward c.session.opened := by
  induction h with
  | done => exact nofun
  | next hrun _ ih =>
      exact List.forall_mem_cons.mpr ⟨.opened _, fun c hc => hrun.onward.trans (ih c hc)⟩
  | fails _ => exact List.forall_mem_singleton.mpr (.opened _)
  | tooDeep => exact nofun

theorem Session.latest_of_last {s : Session} {id : Nat} {before : Fields} {name : Name}
    {data : Value} (h : s.assignments id = before ++ [(name, data)]) :
    s.latest id name.text = some data := by
  unfold latest
  rw [h, List.reverse_append, List.reverse_singleton, List.singleton_append]
  simp [Fields.get?]

theorem Session.Paired.assignsLast {s : Session} (hs : s.Paired) : s.AssignsLast where
  statement run stack st hst := by
    rcases st.assigns_or_fails run stack s hst with ⟨a, t, ha, hdraws⟩ | hfails
    · exact Or.inl ⟨a, t, ha, hdraws, fun _ _ => ha.perform⟩
    · exact Or.inr hfails
  call run stack c := by
    rcases c.assigns_or_fails run stack s with ⟨a, t, ha, hdraws⟩ | hfails
    · exact Or.inl ⟨a, t, ha, hdraws, fun _ _ => ha.perform⟩
    · exact Or.inr hfails
  completes _ _ _ _ _ h := completes_of_yields h
  stored _ _ _ _ hid h := by
    rcases (completes_of_yields h).last hs hid with ⟨news, data, hjournal, -⟩
    exact ⟨news, data, hjournal, latest_of_last hjournal⟩
  failed _ _ _ _ _ h := (completes_of_yields h).failing
  onward depth stack st _ _ h :=
    (safe_exec isLeaf_leafRule (safe_runAt isLeaf_leafRule depth) st 0 stack _ _ _ h).1
  within _ _ _ gone _ _ _ h c hc := (onward_drawn _ gone).trans (h.onward_entry c hc)

/-- Every block has its fields in the order in which their first assignments were
    completed, each with the value of its last one, in whatever state a program comes to and
    while statements are under way in it; and an assignment is completed only when its
    value has been evaluated, and stores nothing if that fails. -/
theorem blocks_in_order (l : Library) (h : l.Reached) :
    (∀ s, l.session.Onward s → ∀ id, s.InOrder id ∧ s.Shows id) ∧
      ∀ s, l.session.Onward s → s.AssignsLast := by
  -- Journals are kept from the first session on, over all that is done, and from there on
  -- while something is under way.
  have hl : l.session.Journaled :=
    (Library.Later.onward isLeaf_leafRule h).journaled Session.journaled_initial
  refine ⟨fun s hs id => ?_, fun s hs => (hs.paired hl.paired).assignsLast⟩
  have horder := (hs.journaled hl).inOrder id
  exact ⟨horder, horder.shows⟩

/-- A field whose body assigns a field of the block around it, an assignment that does so
    and then fails, and a field assigned once more. -/
def lateActions : List Action :=
  [.statement (.item (.scalar (.text "a" .plain))
      (.body (.mk (.named "first") [.up 1 (.set ["z"] (.scalar (.int 1 .plain)))]))) 1,
    .statement (.attempt (.set ["z"] (.body (.mk (.named "second")
      [.up 1 (.set ["w"] (.scalar (.int 2 .plain))), .raise (.mk "ValueError" none none)])))) 1,
    .statement (.set ["a"] (.scalar (.int 3 .plain))) 1]

/-- The state after these actions on a block. -/
def lateState : Library := lateActions.foldl Library.after Library.initial.entered

theorem lateState_in_order :
    lateState.Reached ∧
    (∀ id, lateState.session.InOrder id ∧ lateState.session.Shows id) ∧
    lateState.session.AssignsLast ∧
    (lateState.session.assignments 0).names = ["z", "a", "w", "a"] ∧
    (lateState.session.fields 0).names = ["z", "a", "w"] ∧
    (lateState.session.latest 0 "a").map Value.display = some "3" := by
  have hreached : lateState.Reached :=
    Relation.ReflTransGen.head (Moves.enters _) (Library.later_actions _ _)
  have hordered := blocks_in_order lateState hreached
  exact ⟨hreached, hordered.1 _ (.refl _), hordered.2 _ (.refl _), by decide +kernel,
    by decide +kernel, by decide +kernel⟩

end Docket
