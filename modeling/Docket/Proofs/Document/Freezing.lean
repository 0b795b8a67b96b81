import Docket.Proofs.Document.Course

/-!
# Closed documents

A document that has been finalized is closed for good: no call changes its record any
more, and its payload is what the fields encoded to when it was finalized. What is seen
of its fields is another matter. A document holds the field mappings of the blocks that
its bodies were recorded on, and a program that has kept such a block can still assign
to it. The payload does not follow, so that a closed document and its payload can come
apart (`closed_document_assigned`).

Nothing else can happen: the fields are seen as they were as long as the blocks that
hang below them have the fields they had.

## Theorems

* `Session.snapshot_eq_of_below`: What is seen depends on the blocks below alone.
* `Library.Later.closed`: A closed document stays closed, with its payload.
* `closed_document_assigned`: Late assignments show in closed documents.
* `finalized_document_lasts`: What lasts of a document that has been finalized.
-/

namespace Docket

/-- What is seen depends on the blocks below alone, whatever other blocks were made
    meanwhile. -/
theorem Session.snapshot_eq_of_below {s t : Session} (hs : s.Ordered) (ht : t.Ordered)
    {v : Value} (h : ∀ j, s.Below v j → t.fields j = s.fields j) :
    t.snapshot v = s.snapshot v := by
  have hblocks : ∀ i, (∀ j, s.Under i j → t.fields j = s.fields j) →
      t.snapshotFields i = s.snapshotFields i := by
    -- By induction on the blocks: a block holds older ones only.
    refine hs.induction fun i ih hi => ?_
    simp only [snapshotFields, hi i Relation.ReflTransGen.refl]
    refine List.map_congr_left fun p hp => congrArg (Prod.mk p.1) ?_
    rw [snapshot_eq ht, snapshot_eq hs]
    refine p.2.mapLive_congr fun j hj => congrArg Fields.toValue ?_
    have hij : s.Holds i j := Fields.mem_held.mpr ⟨p, hp, hj⟩
    exact ih j hij fun k hk => hi k (Relation.ReflTransGen.head hij hk)
  rw [snapshot_eq ht, snapshot_eq hs]
  refine v.mapLive_congr fun j hj => congrArg Fields.toValue ?_
  exact hblocks j fun k hk => h k ⟨j, hj, hk⟩

section

variable {l m : Library} {i : Nat} {d d' : Document} {p : Bytes} {s : Session}

/-- A closed document stays closed, with its payload, by induction along the moves. -/
theorem Library.Later.closed (h : l.Later m) (hd : l.documents[i]? = some d)
    (hclosed : d.payload = some p) : m.documents[i]? = some d := by
  induction h with
  | refl => exact hd
  | tail _ hmove ih =>
      cases hmove with
      | performs a => exact closed_after a ih hclosed
      | enters => exact ih
      | turns => exact ih

/-- A copy of the fields depends on what is seen of them. -/
theorem Document.asMap_congr {t : Session}
    (h : t.snapshot d'.content.toValue = s.snapshot d.content.toValue)
    (r : Except Failure Value) : Yields d'.asMap t r t ↔ Yields d.asMap s r s := by
  unfold asMap
  rw [yields_bind_ok (yields_current.mpr ⟨rfl, rfl⟩),
    yields_bind_ok (yields_current.mpr ⟨rfl, rfl⟩), h]
  cases (s.snapshot d.content.toValue).copyFault? with
  | none => simp [yields_pure]
  | some typeName => simp [yields_throw]

/-- A copy of the fields is what is seen of them. -/
theorem Document.eq_of_asMap {v : Value} (h : Yields d.asMap s (.ok v) s) :
    v = s.snapshot d.content.toValue := by
  unfold asMap at h
  rw [yields_bind_ok (yields_current.mpr ⟨rfl, rfl⟩)] at h
  cases hfault : (s.snapshot d.content.toValue).copyFault? with
  | none =>
      simp only [hfault] at h
      exact Except.ok.inj (yields_pure.mp h).1
  | some typeName =>
      simp only [hfault] at h
      exact absurd h not_yields_throw_ok

end

/-! ## What lasts -/

/-- A document that has been finalized. -/
def Document.closedWith (d : Document) (p : Bytes) : Document := { d with payload := some p }

/-- No block that hung below the document has been assigned to since. -/
def Document.Untouched (d : Document) (before after : Session) : Prop :=
  ∀ j, before.Below d.content.toValue j → after.fields j = before.fields j

/-- What lasts of a document that was finalized in some session: its record with the
    payload, and what is seen of it while no block below it is assigned to. -/
structure Document.Lasts (d : Document) (i : Nat) (p : Bytes) (before : Session)
    (m : Library) : Prop where
  document : m.documents[i]? = some (d.closedWith p)
  toBytes : ∀ t, Yields (d.closedWith p).toBytes t (.ok (p, d.closedWith p)) t
  refuses : ∀ (v : Value) (t : Session), Yields ((d.closedWith p).map v) t (.error .finalized) t ∧
    ∀ name, Yields ((d.closedWith p).field name v) t (.error .finalized) t
  asMap : d.Untouched before m.session →
    ∀ r, Yields (d.closedWith p).asMap m.session r m.session ↔ Yields d.asMap before r before
  /-- the payload encodes what is read -/
  written : d.Untouched before m.session →
    ∀ v, Yields (d.closedWith p).asMap m.session (.ok v) m.session →
      ∀ t, Yields (encode v d.encoding d.layout) t (.ok p) t

section

variable {l m : Library} {i : Nat} {d d' : Document} {p : Bytes} {s : Session}

/-- A document that has been finalized keeps its record and its payload whatever is done
    later, and what is read of it changes with late assignments to its blocks only. -/
theorem finalized_document_lasts (hl : l.Reached) (hd : l.documents[i]? = some d)
    (hopen : d.payload = none) (hfinal : Yields d.toBytes l.session (.ok (p, d')) s)
    (hlater : (l.after (.toBytes i)).Later m)
    (hleaves : ∀ v ∈ m.session.leaves, v.isFree = true) :
    d' = d.closedWith p ∧ d.Lasts i p l.session m := by
  rcases Document.toBytes_eq_ok hfinal with ⟨hclosed, -⟩ | ⟨-, rfl, hencode⟩
  · simp [hopen] at hclosed
  have hall : l.Later m := Relation.ReflTransGen.head (Moves.performs l _) hlater
  -- No leaf that was made by hand is forgotten, so what is known of them later was so before.
  have hbefore : ∀ v ∈ l.session.leaves, v.isFree = true :=
    fun v hv => hleaves v (hall.leaves isFree_leafRule v hv)
  have hsound := hl.sound isFree_leafRule hbefore
  have hm := (hall.sound isFree_leafRule hsound hleaves).1
  have hclosed : (l.after (.toBytes i)).documents[i]? = some (d.closedWith p) :=
    Library.documents_after rfl hd (Document.yields_map_of_ok hfinal)
  have hseen : d.Untouched l.session m.session →
      m.session.snapshot d.content.toValue = l.session.snapshot d.content.toValue :=
    fun h => Session.snapshot_eq_of_below hsound.session.ordered hm.session.ordered h
  refine ⟨rfl, ?_⟩
  constructor
  case document => exact hlater.closed hclosed rfl
  case toBytes => exact Document.yields_toBytes_of_payload rfl
  case refuses => exact Document.refuses_of_closed rfl
  case asMap => exact fun h => Document.asMap_congr (hseen h)
  case written =>
    intro h v hv t
    rw [Document.eq_of_asMap hv]
    change Yields (encode (m.session.snapshot d.content.toValue) d.encoding d.layout) t (.ok p) t
    -- The payload was encoded from what is still seen.
    rw [hseen h]
    exact yields_encode_again hencode t

end

/-- A body with a nested one whose block is kept. -/
def keepingTree : Expr :=
  .body (.mk (.named "outer") [
    .set ["a"] (.body (.mk (.named "inner") [.keep "k"]))])

/-- A library with a document to which the fields of `keepingTree` have been added. -/
def Library.keeping : Library :=
  (Library.initial.after (.make none none)).after (.map 0 keepingTree)

/-- A late assignment to the block that was kept. -/
def lateAssignment : Action := .statement (.on "k" (.set ["z"] (.scalar (.int 1 .plain)))) 1

/-- What a document shows of its fields. -/
def Document.shown? (d : Document) (s : Session) : Option String :=
  ((d.asMap.run.run s).1.toOption).map Value.display

/-- Late assignments to a block that was kept show in a document that is closed, and not
    in its payload. -/
theorem closed_document_assigned : ∃ d p,
    Library.keeping.Reached ∧
      (Library.keeping.after (.toBytes 0)).documents[0]? = some d ∧ d.payload = some p ∧
      ((Library.keeping.after (.toBytes 0)).after lateAssignment).documents[0]? = some d ∧
      d.shown? (Library.keeping.after (.toBytes 0)).session = some "\x7b'a': \x7b\x7d\x7d" ∧
      d.shown? ((Library.keeping.after (.toBytes 0)).after lateAssignment).session =
        some "\x7b'a': \x7b'z': 1\x7d\x7d" := by
  -- The document, its payload and what it shows before and after are decided in one run.
  have hclosed : ((Library.keeping.after (.toBytes 0)).documents[0]?.map fun d =>
      (d.payload.isSome, d.shown? (Library.keeping.after (.toBytes 0)).session,
        d.shown? ((Library.keeping.after (.toBytes 0)).after lateAssignment).session)) =
      some (true, some "\x7b'a': \x7b\x7d\x7d", some "\x7b'a': \x7b'z': 1\x7d\x7d") := by
    decide +kernel
  rcases Option.map_eq_some_iff.mp hclosed with ⟨d, hd, hstate⟩
  simp only [Prod.mk.injEq, Option.isSome_iff_exists] at hstate
  rcases hstate with ⟨⟨p, hp⟩, hbefore, hafter⟩
  have hreached : Library.keeping.Reached :=
    Library.later_actions [.make none none, .map 0 keepingTree] Library.initial
  exact ⟨d, p, hreached, hd, hp, Library.closed_after lateAssignment hd hp, hbefore, hafter⟩

/-- Nothing is assigned to the block below the document while another one is made. -/
theorem keepingTree_lasts : ∃ d d' p s,
    (Library.keeping.Reached ∧ Library.keeping.documents[0]? = some d ∧ d.payload = none ∧
      Yields d.toBytes Library.keeping.session (.ok (p, d')) s ∧
      (Library.keeping.after (.toBytes 0)).Later
        ((Library.keeping.after (.toBytes 0)).after (.make none none)) ∧
      ∀ v ∈ ((Library.keeping.after (.toBytes 0)).after (.make none none)).session.leaves,
        v.isFree = true) ∧
    d' = d.closedWith p ∧ d.Lasts 0 p Library.keeping.session
      ((Library.keeping.after (.toBytes 0)).after (.make none none)) := by
  -- One run decides that the document is there, that it is open, and that it can be finished.
  have hopen : (Library.keeping.documents[0]?.map fun d => (d.payload.isNone,
      (d.toBytes.run.run Library.keeping.session).1.toOption.isSome)) = some (true, true) := by
    decide +kernel
  rcases Option.map_eq_some_iff.mp hopen with ⟨d, hd, hstate⟩
  simp only [Prod.mk.injEq, Option.isNone_iff_eq_none] at hstate
  have hfinal := yields_getD ([], d) hstate.2
  have hreached : Library.keeping.Reached :=
    Library.later_actions [.make none none, .map 0 keepingTree] Library.initial
  have hlater := Library.later_actions [.make none none] (Library.keeping.after (.toBytes 0))
  have hleaves : ∀ v ∈ ((Library.keeping.after (.toBytes 0)).after
      (.make none none)).session.leaves, v.isFree = true := by
    decide +kernel
  exact ⟨d, _, _, _, ⟨hreached, hd, hstate.1, hfinal, hlater, hleaves⟩,
    finalized_document_lasts hreached hd hstate.1 hfinal hlater hleaves⟩

end Docket
