import Docket.Proofs.Recording.Keywords
import Docket.Proofs.Recording.Runs

/-!
# Ways to assign

There are several ways to assign a field: by attributes, by calling what attributes name, by
item, and by calling the block with the name. One value is assigned alike in all of them
(`exec_valueForms`): it comes down to the same assignment under the same name, so blocks,
errors and everything else are the same.

A call with keywords assigns what a nested body assigns that sets the keywords as attributes
of its block, one after the other. The two do not do the same work in the same order, so
this is known of bodies that succeed, if the values keep out of each other's way
(`Session.Separable`). A generator that two values share goes to the one that is taken
first; if two keywords name one field, it need not be the same one.

## Main definitions

* `IsPath`, `pathName`: Paths of attributes and the fields they name.
* `valueForms`: The ways to assign one value.
* `gatheringBody`: The body that sets keywords as attributes.
* `Library.FormsAgree`: All ways to assign agree.

## Theorems

* `exec_valueForms`: All ways to assign one value do the same.
* `callRef_keywords`, `callBlock_keywords`: What calls with keywords assign.
* `assigns_gatheringBody`: What bodies assign that set attributes.
* `Library.Reached.forms_agree`: In every state, all ways to assign a field agree.
* `shared_generator_parts_forms`: They need not agree if a generator is shared.
-/

namespace Docket

/-- The field that a path of attributes names. -/
def pathName (path : List String) : Name := .ofText (dotted (path.map fieldName))

/-- A path of attributes that names a field. -/
structure IsPath (path : List String) : Prop where
  nonempty : path ≠ []
  shown : ∀ p ∈ path, isPrivate p = false

/-- The ways to give one value to the field that a path names. -/
def valueForms (path : List String) (e : Expr) : List Stmt :=
  [.set path e, .call path [e] [], .item (.scalar (.text (pathName path).text .plain)) e,
    .named (.scalar (.text (pathName path).text .plain)) [e] []]

section

variable {run : BodyRunner} {stack : BlockStack} {id : Nat} {path : List String}

theorem refPath_of_public (first : Bool) (h : ∀ p ∈ path, isPrivate p = false) :
    refPath first path = pure (path.map fieldName) := by
  induction path generalizing first with
  | nil => rfl
  | cons p rest ih =>
      rw [List.forall_mem_cons] at h
      rw [refPath, ih false h.2]
      simp only [h.1, Bool.false_eq_true, if_false, pure_bind]
      rfl

theorem blockAt_zero : blockAt (id :: stack) 0 = pure id := rfl

/-- Attributes assign the field that they name. -/
theorem setPath_eq (h : IsPath path) (v : Value) :
    setPath run (id :: stack) path v = assignField run (id :: stack) id (pathName path) v := by
  -- All attributes but the last make the reference, and the last one is set on it.
  rcases List.eq_nil_or_concat path with rfl | ⟨init, last, rfl⟩
  · exact absurd rfl h.nonempty
  · have hinit : ∀ p ∈ init, isPrivate p = false :=
      fun p hp => h.shown p (by simp [hp])
    have hlast : isPrivate last = false := h.shown last (by simp)
    unfold setPath pathName
    rw [blockAt_zero, pure_bind, List.concat_eq_append, List.dropLast_concat,
      List.getLast?_concat, Option.getD_some, refPath_of_public true hinit, pure_bind,
      List.map_append]
    simp only [hlast, Bool.false_eq_true, if_false]
    rfl

/-- A call of attributes builds its arguments and calls the reference. -/
theorem callPath_eq (h : IsPath path) (args : List Expr) (keywords : List (String × Expr)) :
    callPath run (id :: stack) path args keywords = (do
      let vs ← buildItems (id :: stack) args
      let ks ← buildFields (id :: stack) keywords
      callRef run (id :: stack) id (path.map fieldName) vs (keywordFields ks)) := by
  have hne : (path.map fieldName).isEmpty = false := by
    rw [List.isEmpty_map, List.isEmpty_eq_false_iff]
    exact h.nonempty
  unfold callPath
  rw [blockAt_zero, pure_bind, refPath_of_public true h.shown, pure_bind]
  simp only [hne, Bool.false_eq_true, if_false]

theorem callPath_nil (args : List Expr) (keywords : List (String × Expr)) :
    callPath run (id :: stack) [] args keywords = (do
      let vs ← buildItems (id :: stack) args
      let ks ← buildFields (id :: stack) keywords
      callBlock run (id :: stack) id vs (keywordFields ks)) := rfl

/-- All ways to assign one value assign it under the name that the path makes. -/
theorem exec_valueForms (h : IsPath path) (e : Expr) :
    ∀ form ∈ valueForms path e, form.exec run (id :: stack) = (do
      let v ← e.build (id :: stack)
      assignField run (id :: stack) id (pathName path) v) := by
  unfold valueForms
  simp only [List.forall_mem_cons, List.not_mem_nil, false_implies, implies_true, and_true]
  refine ⟨?_, ?_, ?_, ?_⟩
  · rw [Stmt.exec]
    simp only [setPath_eq h]
  · rw [Stmt.exec, callPath_eq h]
    simp [buildItems, buildFields, keywordFields, callRef, callValue, pathName, Fields.names]
  · rw [Stmt.exec]
    simp [Expr.build, blockAt_zero]
    rfl
  · rw [Stmt.exec, callPath_nil]
    simp [buildItems, buildFields, keywordFields, callBlock, calledName, callNamed, callValue,
      Fields.names, Expr.build]
    rfl

/-! ## Keywords -/

theorem exec_call_keywords (h : IsPath path) (kws : List (String × Expr)) :
    (Stmt.call path [] kws).exec run (id :: stack) = (do
      let ks ← buildFields (id :: stack) kws
      callRef run (id :: stack) id (path.map fieldName) [] (keywordFields ks)) := by
  rw [Stmt.exec, callPath_eq h, buildItems, pure_bind]

theorem exec_named_keywords (text : String) (kws : List (String × Expr)) :
    (Stmt.named (.scalar (.text text .plain)) [] kws).exec run (id :: stack) = (do
      let ks ← buildFields (id :: stack) kws
      callBlock run (id :: stack) id [(Name.ofText text).toValue] (keywordFields ks)) := rfl

variable {ks : List (String × Value)}

/-- Keywords alone make a mapping of the fields that they name. -/
theorem callValue_keywords (hdistinct : (ks.map (·.1)).Nodup) :
    callValue [] (keywordFields ks) = pure (Fields.toValue (orderedFold (attributeFields ks))) := by
  have hrenamed : (wordFields ks).map (fun f => (fieldName f.1.text, f.2)) =
      ks.map fun k => (fieldName k.1, k.2) := by
    unfold wordFields
    rw [List.map_map]
    rfl
  -- Distinct words may still name one field, so it is the fields that are folded.
  unfold callValue
  rw [keywordFields_of_nodup hdistinct]
  simp only [hrenamed, keywordFields_eq]
  unfold wordFields attributeFields
  rw [List.map_map]
  rfl

/-- Both calls assign this mapping, if the words are not those of their own parameters. -/
theorem callRef_keywords (hdistinct : (ks.map (·.1)).Nodup) (hself : "self" ∉ ks.map (·.1))
    (names : List String) :
    callRef run stack id names [] (keywordFields ks) = assignField run stack id
      (.ofText (dotted names)) (Fields.toValue (orderedFold (attributeFields ks))) := by
  have hnot : (keywordFields ks).names.contains "self" = false := by
    rw [keywordFields_of_nodup hdistinct, names_wordFields, ← Bool.not_eq_true,
      List.contains_iff_mem]
    exact hself
  unfold callRef
  simp only [hnot, callValue_keywords hdistinct, Bool.false_eq_true, if_false, pure_bind]

theorem callBlock_keywords (hdistinct : (ks.map (·.1)).Nodup) (hself : "self" ∉ ks.map (·.1))
    (hname : "name" ∉ ks.map (·.1)) (name : Name) :
    callBlock run stack id [name.toValue] (keywordFields ks) = assignField run stack id name
      (Fields.toValue (orderedFold (attributeFields ks))) := by
  have hfree : (keywordFields ks).names.find? ["self", "name"].contains = none := by
    rw [keywordFields_of_nodup hdistinct, names_wordFields, List.find?_eq_none]
    intro word hword hmem
    rcases List.mem_cons.mp (List.contains_iff_mem.mp hmem) with rfl | hmem
    · exact hself hword
    · exact hname (List.mem_singleton.mp hmem ▸ hword)
  unfold callBlock
  simp only [List.isEmpty_cons, Bool.false_eq_true, if_false, hfree]
  unfold calledName callNamed Name.toValue
  simp only [pure_bind, callValue_keywords hdistinct]

/-! ## Bodies -/

/-- The body that sets fields by their attributes, one after the other. -/
def gatheringBody (label : BodyLabel) (es : List (String × Expr)) : Body :=
  .mk label (es.map fun e => .set [e.1] e.2)

/-- Errors are handed on, whatever becomes of them on the way. -/
theorem yields_wrapped {α : Type} {p : Run α} {wrap : Failure → Failure} {s u : Session} {a : α} :
    Yields (tryCatch p fun e => throw (wrap e)) s (.ok a) u ↔ Yields p s (.ok a) u := by
  rw [yields_tryCatch]
  constructor
  · rintro (⟨b, hp, heq⟩ | ⟨e, m, -, hthrow⟩)
    · exact heq ▸ hp
    · exact absurd hthrow not_yields_throw_ok
  · exact fun hp => Or.inl ⟨a, hp, rfl⟩

theorem assignEach_map (es : List (String × Expr)) :
    (es.map fun e => Stmt.set [e.1] e.2).forM (·.exec run stack) =
      assignEach run stack (es.map fun e => (e.1, e.2.build stack)) := by
  induction es with
  | nil => rfl
  | cons e rest ih =>
      exact congrArg (fun others : Run Unit =>
        (Stmt.set [e.1] e.2).exec run stack >>= fun _ => others) ih

/-- Such a body is assigned as the fields are gathered. -/
theorem assigns_gatheringBody {depth : Nat} {s u : Session} (label : BodyLabel)
    (es : List (String × Expr)) (name : Name) :
    Yields (assignField (Body.runAt (depth + 1)) stack id name (.body (gatheringBody label es))) s
        (.ok ()) u ↔
      Yields (assignGathered (Body.runAt depth) stack id name fun stack =>
        es.map fun e => (e.1, e.2.build stack)) s (.ok ()) u := by
  -- Classifying a body looks at nothing, so the work begins with the block that is made.
  have htree : Yields (toNode (.body (gatheringBody label es)) name) s
      (.ok (.nested (gatheringBody label es))) s := by
    unfold toNode
    rw [yields_bind_ok (yields_get.mpr ⟨rfl, rfl⟩)]
    exact yields_pure.mpr ⟨rfl, rfl⟩
  unfold assignField assignGathered
  rw [yields_bind_ok htree, Node.resolve, gatheringBody, Body.runAt, bind_assoc,
    yields_bind_ok (yields_newBlock.mpr ⟨rfl, rfl⟩),
    yields_bind_ok (yields_newBlock.mpr ⟨rfl, rfl⟩), bind_assoc, yields_bind_eq_ok,
    yields_bind_eq_ok]
  simp only [yields_wrapped, pure_bind, Body.stmts, assignEach_map]

/-! ## Agreement -/

/-- The ways to assign agree on a block of a library, if bodies may nest as deep as said. -/
structure Library.FormsAgree (l : Library) (id : Nat) (rest : BlockStack) (depth : Nat) : Prop where
  /-- all ways to assign one value do the same -/
  values {path : List String} (hpath : IsPath path) (e : Expr) (run : BodyRunner) :
    ∀ form ∈ valueForms path e, form.exec run (id :: rest) = (do
      let v ← e.build (id :: rest)
      assignField run (id :: rest) id (pathName path) v)
  /-- a chain makes its calls one after the other -/
  chains (calls : List (List String × List Expr × List (String × Expr))) (run : BodyRunner) :
    (Stmt.chain calls).exec run (id :: rest) = (do
      calls.forM fun c => (Stmt.call c.1 c.2.1 c.2.2).exec run (id :: rest)
      Run.trace "chain" (.bool true))
  /-- a body that sets fields by their attributes assigns as they are gathered -/
  bodies {path : List String} (hpath : IsPath path) (label : BodyLabel)
    (es : List (String × Expr)) (s u : Session) :
    Yields ((Stmt.set path (.body (gatheringBody label es))).exec (Body.runAt (depth + 1))
        (id :: rest)) s (.ok ()) u ↔
      Yields (assignGathered (Body.runAt depth) (id :: rest) id (pathName path) fun stack =>
        es.map fun e => (e.1, e.2.build stack)) s (.ok ()) u
  /-- what can be assigned by gathering is assigned by both calls with keywords, if leaf nodes
      that were made by hand have brought no blocks along -/
  keywords {path : List String} (hpath : IsPath path) {kws : List (String × Expr)}
    {ks : List (String × Value)} {ps : BlockStack → List (String × Run Value)} {s u : Session}
    (hleaves : ∀ v ∈ l.session.leaves, v.isFree = true)
    (hbuild : Yields (buildFields (id :: rest) kws) s (.ok ks) l.session)
    (hdistinct : (ks.map (·.1)).Nodup) (hself : "self" ∉ ks.map (·.1))
    (hks : ∀ k ∈ ks, l.session.AtHand k.2) (hseparable : l.session.Separable depth ks)
    (hps : Giving l.session (ps (l.session.blocks.size :: id :: rest)) ks)
    (hgathered : Yields (assignGathered (Body.runAt depth) (id :: rest) id (pathName path) ps)
      l.session (.ok ()) u) :
    (∃ w, Yields ((Stmt.call path [] kws).exec (Body.runAt (depth + 1)) (id :: rest)) s (.ok ()) w ∧
      w.snapshotFields id = u.snapshotFields id) ∧
    ("name" ∉ ks.map (·.1) →
      ∃ w, Yields ((Stmt.named (.scalar (.text (pathName path).text .plain)) [] kws).exec
        (Body.runAt (depth + 1)) (id :: rest)) s (.ok ()) w ∧
        w.snapshotFields id = u.snapshotFields id)

/-- In every state, all ways to assign a field agree. -/
theorem Library.Reached.forms_agree {l : Library} (hl : l.Reached) {id : Nat}
    (hid : id < l.session.blocks.size) (rest : BlockStack) (depth : Nat) :
    l.FormsAgree id rest depth where
  values hpath e _ := exec_valueForms hpath e
  chains _ _ := rfl
  bodies hpath label es s u := by
    rw [exec_valueForms hpath _ _ List.mem_cons_self, Expr.build, pure_bind]
    exact assigns_gatheringBody label es _
  keywords hpath _ _ _ _ _ hleaves hbuild hdistinct hself hks hseparable hps hgathered := by
    have hs := (hl.sound isFree_leafRule hleaves).session
    -- The bodies of keywords nest one level less deep than those in a gathering body.
    rcases assigns_of_gathered hs hleaves hid hps hks hseparable hgathered (Nat.le_succ depth)
      (id :: rest) with ⟨w, hw, hseen⟩
    refine ⟨⟨w, ?_, hseen⟩, fun hname => ⟨w, ?_, hseen⟩⟩
    · rw [exec_call_keywords hpath, yields_bind_ok hbuild, callRef_keywords hdistinct hself]
      exact hw
    · rw [exec_named_keywords, yields_bind_ok hbuild, callBlock_keywords hdistinct hself hname]
      exact hw

end

/-! ## Two keywords for one field -/

/-- Two keywords that name one field, with a body between them. -/
def twinKeywords : List (String × Expr) :=
  [("from_", .scalar (.int 0 .plain)),
    ("a", .body (.mk (.named "inner") [.set ["x"] (.scalar (.int 1 .plain))])),
    ("from", .generator [.scalar (.int 1 .plain), .scalar (.int 2 .plain)] none)]

/-- Their values, the generator being the first one. -/
def twinValues : List (String × Value) :=
  [("from_", .int 0), ("a", .body (.mk (.named "inner") [.set ["x"] (.scalar (.int 1 .plain))])),
    ("from", .generator 0 [.int 1, .int 2] none)]

/-- The state in which a block is being recorded and these values have been built. -/
def twinState : Library :=
  Library.initial.entered.after (.build (.items .list (twinKeywords.map (·.2))))

/-- Their values set as attributes of a nested block, one after the other. -/
def gatherTwins : Run Unit :=
  assignGathered (Body.runAt 1) [0] 0 (pathName ["x"]) fun _ =>
    twinValues.map fun k => (k.1, pure k.2)

theorem twinState_forms_agree :
    twinState.Reached ∧ (∀ v ∈ twinState.session.leaves, v.isFree = true) ∧
    0 < twinState.session.blocks.size ∧ IsPath ["x"] ∧
    (∀ k ∈ twinValues, twinState.session.AtHand k.2) ∧ twinState.session.Separable 1 twinValues ∧
    ∃ w, Yields ((Stmt.call ["x"] [] twinKeywords).exec (Body.runAt 2) [0])
        Library.initial.entered.session (.ok ()) w ∧
      w.snapshotFields 0 = [(.ofText "x", Fields.toValue [
        (.ofText "from", .list [.int 1, .int 2]),
        (.ofText "a", Fields.toValue [(.ofText "x", .int 1)])])] := by
  have hreached : twinState.Reached :=
    Relation.ReflTransGen.head (Moves.enters _) (Library.later_actions [_] _)
  have hleaves : ∀ v ∈ twinState.session.leaves, v.isFree = true := by
    decide +kernel
  have hid : 0 < twinState.session.blocks.size := by decide +kernel
  have hpath : IsPath ["x"] := ⟨by decide, by decide +kernel⟩
  have hagree := hreached.forms_agree hid [] 1
  have hatHand : ∀ k ∈ twinValues, twinState.session.AtHand k.2 := by
    have hnone {P : Nat → Prop} (j : Nat) (hj : j ∈ []) : P j := absurd hj List.not_mem_nil
    unfold twinValues
    simp only [List.forall_mem_cons, List.not_mem_nil, false_implies, implies_true, and_true]
    exact ⟨⟨trivial, hnone, hnone⟩, ⟨trivial, hnone, hnone⟩,
      ⟨⟨trivial, trivial, trivial⟩, hnone, by decide +kernel⟩⟩
  have hseparable : twinState.session.Separable 1 twinValues := by
    -- The name is given twice, so that the values must share no generator, and the bodies must
    -- not go by counters.
    refine Or.inr ⟨?_, ?_⟩
    · unfold Session.Unshared
      decide +kernel
    · unfold twinValues
      simp only [List.forall_mem_cons, List.not_mem_nil, false_implies, implies_true, and_true]
      exact ⟨fun b hb => absurd hb List.not_mem_nil, fun b hb => List.mem_singleton.mp hb ▸
        ownUpTo_of_isTree (by decide +kernel) (by decide +kernel),
        fun b hb => absurd hb List.not_mem_nil⟩
  have hbuild : Yields (buildFields [0] twinKeywords) Library.initial.entered.session
      (.ok twinValues) twinState.session := rfl
  have hgathered : Yields gatherTwins twinState.session (.ok ())
      (gatherTwins.run.run twinState.session).2 := yields_getD () (by decide +kernel)
  refine ⟨hreached, hleaves, hid, hpath, hatHand, hseparable, ?_⟩
  rcases (hagree.keywords hpath hleaves hbuild (by decide +kernel) (by decide +kernel) hatHand
    hseparable (giving_pure _ _) hgathered).1 with ⟨w, hw, hseen⟩
  refine ⟨w, hw, ?_⟩
  rw [hseen]
  exact Fields.eq_of_sameData (by decide +kernel)

/-- The state in which a block is being recorded that holds a generator, in a leaf that was
    made by hand. -/
def sharedState : Library :=
  Library.initial.entered.after (.statement (.item (.scalar (.text "g" .plain))
    (.node (.scalar (.generator [.scalar (.int 1 .plain), .scalar (.int 2 .plain)] none) .null))) 1)

/-- Three keywords, two of which name one field and two of which read the generator back. -/
def sharedKeywords (up : Nat) : List (String × Expr) :=
  [("from_", .scalar (.int 0 .plain)), ("a", .read "g" up), ("from", .read "g" up)]

/-- The generator goes to the value that is taken first, and folding takes the values in
    another order than a body does. -/
theorem shared_generator_parts_forms :
    sharedState.Reached ∧ ∃ u w,
      Yields ((Stmt.set ["x"] (.body (gatheringBody (.named "inner") (sharedKeywords 1)))).exec
        (Body.runAt 2) [0]) sharedState.session (.ok ()) u ∧
      Yields ((Stmt.call ["x"] [] (sharedKeywords 0)).exec (Body.runAt 2) [0]) sharedState.session
        (.ok ()) w ∧
      (u.snapshotFields 0).get? "x" = some (Fields.toValue [
        (.ofText "from", .list []), (.ofText "a", .list [.int 1, .int 2])]) ∧
      (w.snapshotFields 0).get? "x" = some (Fields.toValue [
        (.ofText "from", .list [.int 1, .int 2]), (.ofText "a", .list [])]) ∧
      u.snapshotFields 0 ≠ w.snapshotFields 0 := by
  refine ⟨Relation.ReflTransGen.head (Moves.enters _) (Library.later_actions [_] _), _, _,
    yields_getD () (by decide +kernel), yields_getD () (by decide +kernel),
    eq_some_of_sameData (by decide +kernel), eq_some_of_sameData (by decide +kernel), fun h => ?_⟩
  exact absurd (congrArg (fun fs => (Fields.toValue fs).display) h) (by decide +kernel)

end Docket
