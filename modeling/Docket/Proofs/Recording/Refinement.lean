import Docket.Proofs.Recording.Calling

/-!
# Evaluation refines the reference semantics

What a tree is evaluated to is what it stands for. The work on sessions (values are
built, classified and resolved, bodies run statements on fresh blocks, statements
assign and read back, and all of these call each other) comes to the data that the
recursion on the tree gives, in the same order, and it fails exactly where the tree
stands for nothing.

The induction is on the tree: expressions are built to values that stand for what
they mean, statements keep a session recording, and bodies mean what their
statements make of no fields.

## Theorems

* `realizes_expr`, `realizes_stmt`, `means_body`: Expressions, statements, bodies.
* `isDocument_of_build`, `isDocument_of_classify`: What documents are built from.
* `realizes_toMap`: The data that a document is built from.
* `toMap_refines_den`: Evaluation refines the reference semantics.
-/

namespace Docket

section

variable {k depth : Nat} {s t : Session} {stack : BlockStack} {env : Fields}

theorem yields_trace (label : String) (v : Value) (s : Session) :
    ∃ s', Yields (Run.trace label v) s (.ok ()) s' ∧ Makes [] s s' :=
  ⟨_, yields_modify.mpr ⟨rfl, rfl⟩, rfl, Nat.le_refl _, fun _ _ => rfl, List.nodup_nil, nofun, rfl⟩

/-- A body means what its statements make of no fields. -/
theorem means_nested {label : BodyLabel} {stmts : List Stmt}
    (h : ∀ depth, stmtsDepth stmts ≤ depth → ∀ stack s t env, Recording s t env →
      Realizes (stmts.forM (·.exec (Body.runAt depth) (s.blocks.size :: stack))) t
        (stmtsDen env stmts) fun env' _ t' => Recording s t' env')
    (hk : (Body.mk label stmts).depth ≤ k) :
    (Node.nested (.mk label stmts)).Means k ((Body.den (.mk label stmts)).map Fields.toValue) := by
  refine ⟨hk, fun depth hdepth stack s => ?_⟩
  rw [Node.depth, Body.depth] at hdepth
  rcases Nat.exists_eq_add_of_le' hdepth with ⟨d, rfl⟩
  rw [Node.resolve, ← Nat.add_assoc, Body.runAt, Body.den]
  refine Realizes.ok_bind (yields_newBlock.mpr ⟨rfl, rfl⟩) ?_
  -- The runner has one level less for the statements, and they need no more.
  have hstmts := h (d + stmtsDepth stmts) (Nat.le_add_left _ _) stack s s.opened []
    (Recording.opened s)
  cases hden : stmtsDen [] stmts with
  | none =>
      rw [hden] at hstmts
      rcases hstmts with ⟨e, t, hstmts⟩
      exact Realizes.error_bind
        (yields_tryCatch.mpr (Or.inr ⟨e, t, hstmts, yields_throw.mpr ⟨rfl, rfl⟩⟩))
  | some env =>
      rw [hden] at hstmts
      rcases hstmts with ⟨_, t, hstmts, hrec⟩
      refine Realizes.ok_bind (yields_tryCatch.mpr (Or.inl ⟨_, hstmts, rfl⟩)) ?_
      exact Realizes.pure hrec.evaluated

/-- An item is assigned under a text. -/
theorem realizes_item (hrec : Recording s t env) {o : Meaning} {v : Value}
    (hv : t.Offers s.drawn.size depth o v) (stack : BlockStack) (key : Value) :
    Realizes (match key with
        | .scalar (.text text form) => do
          assignField (Body.runAt depth) (s.blocks.size :: stack)
            (← blockAt (s.blocks.size :: stack) 0) ⟨text, form⟩ v
        | key => throw (.typeError ("Field name must be a string, got " ++ key.typeName))) t
      (assignedMeaning env key.name? o) fun env' _ t' => Recording s t' env' := by
  -- The statement names its field if and only if the key is a text.
  cases hname : key.name? with
  | some name =>
      rw [Value.eq_of_name? hname, assignedMeaning_some]
      exact Realizes.ok_bind (yields_blockAt s.blocks.size stack t)
        (realizes_assignField hrec hv _ name)
  | none =>
      split
      · exact absurd hname (Option.some_ne_none _)
      · exact Realizes.throw

/-- A field is looked up under a text, and found if it has been assigned. -/
theorem realizes_get (hrec : Recording s t env) (stack : BlockStack) (v : Value) :
    Realizes (do
        let id ← blockAt (s.blocks.size :: stack) 0
        match ← lookUp id v with
        | some v => Run.trace "get" v
        | none => throw (.foreign "KeyError" (← displayKey v) none)) t
      (do
        let name ← v.name?
        let _ ← env.get? name.text
        return env)
      fun env' _ t' => Recording s t' env' := by
  refine Realizes.ok_bind (yields_blockAt s.blocks.size stack t) ?_
  cases hname : v.name? with
  | some name =>
      rw [Value.eq_of_name? hname]
      have hlook : Yields (lookUp s.blocks.size name.toValue) t
          (.ok ((t.fields s.blocks.size).get? name.text)) t := by
        unfold lookUp Name.toValue
        simp only [Value.unhashable?]
        exact (yields_bind_ok (yields_fieldsOf.mpr ⟨rfl, rfl⟩)).mpr (yields_pure.mpr ⟨rfl, rfl⟩)
      have hget : env.get? name.text =
          ((t.fields s.blocks.size).get? name.text).map t.snapshot := by
        rw [← hrec.fields]
        exact Fields.get?_map _ _ _
      refine Realizes.ok_bind hlook ?_
      cases hfield : (t.fields s.blocks.size).get? name.text with
      | some w =>
          rw [hfield, Option.map_some] at hget
          rcases yields_trace "get" w t with ⟨t', htrace, hnothing⟩
          simp only [Option.bind_eq_bind, Option.bind_some, hget]
          exact ⟨(), t', htrace, hrec.makes hnothing⟩
      | none =>
          rw [hfield, Option.map_none] at hget
          simp only [Option.bind_eq_bind, Option.bind_some, hget]
          exact Realizes.then_throw _
  | none =>
      have hthrow := Realizes.then_throw (s := t) (displayKey v)
        (f := fun text => .foreign "KeyError" text none)
        (R := fun env' (_ : Unit) t' => Recording s t' env')
      -- Under what is no text nothing was assigned, so it fails with one error or another.
      cases hunhashable : v.unhashable? with
      | some type =>
          have hlook : Yields (lookUp s.blocks.size v) t
              (.error (.typeError ("unhashable type: '" ++ type ++ "'"))) t := by
            unfold lookUp
            simp only [hunhashable]
            exact (yields_bind_error (yields_throw.mpr ⟨rfl, rfl⟩)).mpr ⟨rfl, rfl⟩
          exact Realizes.error_bind hlook
      | none =>
          have hlook : Yields (lookUp s.blocks.size v) t (.ok none) t := by
            unfold lookUp
            simp only [hunhashable]
            split
            · exact absurd hname (Option.some_ne_none _)
            · exact yields_pure.mpr ⟨rfl, rfl⟩
          exact Realizes.ok_bind hlook hthrow

end

mutual

/-- Expressions are built to values that stand for what they mean. -/
theorem realizes_expr : (e : Expr) → e.isTree = true → ∀ k, e.depth ≤ k →
    ∀ stack env s, s.Sees stack env →
      Realizes (e.build stack) s (e.meaning env) (Stands s k (e.key env))
  | .scalar u, _, k, _, stack, env, s, _ =>
    Realizes.pure (stands_free rfl rfl (means_leaf u))
  | .range start stop step, _, k, _, stack, env, s, _ =>
    Realizes.pure (stands_free rfl rfl (means_range start stop step))
  | .encodings, _, k, _, stack, env, s, _ =>
    Realizes.pure (stands_free rfl rfl means_encodings)
  | .items kind xs, htree, k, hk, stack, env, s, hsees =>
    realizes_items kind (realizes_exprs xs htree k hk stack env s hsees)
  | .mapping kind entries, htree, k, hk, stack, env, s, hsees =>
    realizes_mapping kind (realizes_pairs entries htree k hk stack env s hsees)
  | .generator xs ending, htree, k, hk, stack, env, s, hsees => by
    rw [Expr.isTree, Bool.and_eq_true, Option.isNone_iff_eq_none] at htree
    -- A generator in a tree does not fail.
    rw [htree.1]
    exact realizes_generator (realizes_exprs xs htree.2 k hk stack env s hsees)
  | .body b, htree, k, hk, stack, env, s, _ =>
    Realizes.pure (stands_free rfl rfl (means_bodyValue (means_body b htree k hk)))
  | .bodyItems b xs, htree, k, hk, stack, env, s, hsees => by
    rw [Expr.isTree, Bool.and_eq_true] at htree
    rcases Nat.max_le.mp hk with ⟨hb, hxs⟩
    exact realizes_bodyItems (means_body b htree.1 k hb)
      (realizes_exprs xs htree.2 k hxs stack env s hsees)
  | .read name up, htree, k, _, stack, env, s, hsees => by
    rw [Expr.isTree, beq_iff_eq] at htree
    rw [htree]
    exact stands_read name hsees

theorem realizes_exprs : (es : List Expr) → itemsAreTrees es = true → ∀ k, itemsDepth es ≤ k →
    ∀ stack env s, s.Sees stack env → Realizes (buildItems stack es) s (itemsMeaning env es)
      (StandsAll s k (es.map (Expr.key env)))
  | [], _, k, _, stack, env, s, _ => realizes_items_nil
  | e :: rest, htree, k, hk, stack, env, s, hsees => by
    rw [itemsAreTrees, Bool.and_eq_true] at htree
    rcases Nat.max_le.mp hk with ⟨he, hrest⟩
    exact realizes_items_cons hsees (realizes_expr e htree.1 k he stack env s hsees)
      fun s' => realizes_exprs rest htree.2 k hrest stack env s'

theorem realizes_pairs : (es : List (Expr × Expr)) → entriesAreTrees es = true →
    ∀ k, entriesDepth es ≤ k → ∀ stack env s, s.Sees stack env →
      Realizes (buildEntries stack es) s (pairsMeaning env es) (StandsPairs s k)
  | [], _, k, _, stack, env, s, _ => realizes_pairs_nil
  | (key, e) :: rest, htree, k, hk, stack, env, s, hsees => by
    rw [entriesAreTrees, Bool.and_eq_true, Bool.and_eq_true] at htree
    rcases Nat.max_le.mp hk with ⟨hpair, hrest⟩
    exact realizes_pairs_cons htree.1 hsees
      (realizes_expr e htree.2.1 k (Nat.max_le.mp hpair).2 stack env s hsees)
      fun s' => realizes_pairs rest htree.2.2 k hrest stack env s'

theorem realizes_keywords : (ks : List (String × Expr)) → keywordsAreTrees ks = true →
    ∀ k, fieldsDepth ks ≤ k → ∀ stack env s, s.Sees stack env →
      Realizes (buildFields stack ks) s (keywordsMeaning env ks)
        (StandsKeywords s k (ks.map (·.1)))
  | [], _, k, _, stack, env, s, _ => realizes_keywords_nil
  | (name, e) :: rest, htree, k, hk, stack, env, s, hsees => by
    rw [keywordsAreTrees, Bool.and_eq_true] at htree
    rcases Nat.max_le.mp hk with ⟨he, hrest⟩
    exact realizes_keywords_cons hsees (realizes_expr e htree.1 k he stack env s hsees)
      fun s' => realizes_keywords rest htree.2 k hrest stack env s'

/-- A statement makes of the fields of its block what it should. -/
theorem realizes_stmt : (st : Stmt) → st.isTree = true → ∀ depth, st.depth ≤ depth →
    ∀ stack s t env, Recording s t env →
      Realizes (st.exec (Body.runAt depth) (s.blocks.size :: stack)) t (st.den env)
        fun env' _ t' => Recording s t' env'
  | .set path v, htree, depth, hdepth, stack, s, t, env, hrec => by
    rw [Stmt.isTree, Bool.and_eq_true, Bool.not_eq_true', List.isEmpty_eq_false_iff] at htree
    rw [Stmt.exec, Stmt.den]
    refine (realizes_expr v htree.2 depth hdepth _ env t (hrec.sees stack)).bind fun o w u hw => ?_
    exact realizes_setPath (hrec.makes hw.makes) htree.1 (hw.offers hrec.drawsNew.known) stack
  | .call path args keywords, htree, depth, hdepth, stack, s, t, env, hrec => by
    rw [Stmt.isTree, Bool.and_eq_true, Bool.and_eq_true] at htree
    rcases Nat.max_le.mp hdepth with ⟨hargs, hkeywords⟩
    rw [Stmt.exec, Stmt.den]
    exact realizes_callPath hrec htree.1 stack
      (realizes_exprs args htree.2.1 depth hargs _ env t (hrec.sees stack))
      fun m => realizes_keywords keywords htree.2.2 depth hkeywords _ env m
  | .chain calls, htree, depth, hdepth, stack, s, t, env, hrec => by
    rw [Stmt.exec, Stmt.den]
    refine (realizes_calls calls htree depth hdepth stack s t env hrec).then_ok ?_
    intro env' _ m hm
    rcases yields_trace "chain" (.bool true) m with ⟨t', htrace, hnothing⟩
    exact ⟨(), t', htrace, hm.makes hnothing⟩
  | .item key v, htree, depth, hdepth, stack, s, t, env, hrec => by
    rw [Stmt.isTree, Bool.and_eq_true] at htree
    rcases Nat.max_le.mp hdepth with ⟨hkey, hv⟩
    rw [Stmt.exec, Stmt.den]
    refine (realizes_expr key htree.1 depth hkey _ env t (hrec.sees stack)).bind
      fun _ w m hw => ?_
    have hm := hrec.makes hw.makes
    refine (realizes_expr v htree.2 depth hv _ env m (hm.sees stack)).bind fun o x u hx => ?_
    have hname : key.name? env = w.name? := by
      rw [Value.name?, hw.key]
      rfl
    rw [hname]
    exact realizes_item (hm.makes hx.makes) (hx.offers hm.drawsNew.known) stack w
  | .named name args keywords, htree, depth, hdepth, stack, s, t, env, hrec => by
    rw [Stmt.isTree, Bool.and_eq_true, Bool.and_eq_true, Bool.and_eq_true] at htree
    rcases Nat.max_le.mp hdepth with ⟨hname, hrest⟩
    rcases Nat.max_le.mp hrest with ⟨hargs, hkeywords⟩
    rw [Stmt.exec]
    have hsees := hrec.sees stack
    have hcall := realizes_callPath hrec htree.1 stack
      (realizes_items_cons hsees (realizes_expr name htree.2.1 depth hname _ env t hsees)
        fun m => realizes_exprs args htree.2.2.1 depth hargs _ env m)
      fun m => realizes_keywords keywords htree.2.2.2 depth hkeywords _ env m
    -- The name is the first argument of a call of the block.
    simp only [itemsMeaning, bind_assoc, pure_bind] at hcall
    exact hcall
  | .get key, htree, depth, hdepth, stack, s, t, env, hrec => by
    rw [Stmt.exec, Stmt.den]
    refine (realizes_expr key htree depth hdepth _ env t (hrec.sees stack)).bind fun _ w m hw => ?_
    have hname : key.name? env = w.name? := by
      rw [Value.name?, hw.key]
      rfl
    rw [hname]
    exact realizes_get (hrec.makes hw.makes) stack w

theorem realizes_calls : (calls : List (List String × List Expr × List (String × Expr))) →
    callsAreTrees calls = true → ∀ depth, callsDepth calls ≤ depth →
    ∀ stack s t env, Recording s t env →
      Realizes (calls.forM fun c => callPath (Body.runAt depth) (s.blocks.size :: stack) c.1
        c.2.1 c.2.2) t (callsDen env calls) fun env' _ t' => Recording s t' env'
  | [], _, depth, _, stack, s, t, env, hrec => Realizes.pure hrec
  | (path, args, keywords) :: rest, htree, depth, hdepth, stack, s, t, env, hrec => by
    rw [callsAreTrees, Bool.and_eq_true, Bool.and_eq_true, Bool.and_eq_true] at htree
    rcases Nat.max_le.mp hdepth with ⟨hcall, hrest⟩
    rcases Nat.max_le.mp hcall with ⟨hargs, hkeywords⟩
    have hfirst := realizes_callPath hrec htree.1 stack
      (realizes_exprs args htree.2.1 depth hargs _ env t (hrec.sees stack))
      fun m => realizes_keywords keywords htree.2.2.1 depth hkeywords _ env m
    have hall := hfirst.bind fun env' _ m hm =>
      realizes_calls rest htree.2.2.2 depth hrest stack s m env' hm
    simp only [bind_assoc] at hall
    exact hall

theorem realizes_stmts : (stmts : List Stmt) → stmtsAreTrees stmts = true →
    ∀ depth, stmtsDepth stmts ≤ depth → ∀ stack s t env, Recording s t env →
      Realizes (stmts.forM (·.exec (Body.runAt depth) (s.blocks.size :: stack))) t
        (stmtsDen env stmts) fun env' _ t' => Recording s t' env'
  | [], _, depth, _, stack, s, t, env, hrec => Realizes.pure hrec
  | st :: rest, htree, depth, hdepth, stack, s, t, env, hrec => by
    rw [stmtsAreTrees, Bool.and_eq_true] at htree
    rcases Nat.max_le.mp hdepth with ⟨hst, hrest⟩
    exact (realizes_stmt st htree.1 depth hst stack s t env hrec).bind fun env' _ m hm =>
      realizes_stmts rest htree.2 depth hrest stack s m env' hm

/-- Bodies mean what they stand for. -/
theorem means_body : (b : Body) → b.isTree = true → ∀ k, b.depth ≤ k →
    (Node.nested b).Means k (b.den.map Fields.toValue)
  | .mk _ stmts, htree, _, hk => means_nested (realizes_stmts stmts htree) hk

end

/-! ## Documents -/

/-- Whether a document can be built from a value that is written in a tree. -/
def Value.isDocument? : Value → Option Bool
  | .mapping .. => some true
  | .body _ => some true
  | .bodyItems .. => some true
  | .scalar _ => some false
  | .range .. => some false
  | .encodings => some false
  | .items .. => some false
  | .generator .. => some false
  | _ => none

section

variable {s s' : Session}

theorem isDocument_of_build {tree : Expr} (htree : tree.isTree = true) {v : Value}
    (h : Yields (tree.build []) s (.ok v) s') : v.isDocument? = some tree.isDocument := by
  cases tree with
  | mapping kind entries =>
      rw [Expr.build] at h
      rcases yields_bind_eq_ok.mp h with ⟨pairs, m, -, h⟩
      by_cases hkind : kind = .pairs
      · simp only [if_pos hkind] at h
        rw [Except.ok.inj (yields_pure.mp h).1]
        rfl
      · simp only [if_neg hkind] at h
        rcases yields_bind_eq_ok.mp h with ⟨es, m, -, h⟩
        rw [Except.ok.inj (yields_pure.mp h).1]
        rfl
  | items kind xs =>
      rcases yields_bind_eq_ok.mp h with ⟨vs, m, -, h⟩
      rw [Except.ok.inj (yields_pure.mp h).1]
      rfl
  | generator xs ending =>
      rcases yields_bind_eq_ok.mp h with ⟨vs, m, -, h⟩
      rcases yields_bind_eq_ok.mp h with ⟨id, m, -, h⟩
      rw [Except.ok.inj (yields_pure.mp h).1]
      rfl
  | bodyItems b xs =>
      rcases yields_bind_eq_ok.mp h with ⟨vs, m, -, h⟩
      rw [Except.ok.inj (yields_pure.mp h).1]
      rfl
  | read name up =>
      -- Nothing can be read back outside all bodies.
      rcases yields_bind_eq_ok.mp h with ⟨id, m, h, -⟩
      exact absurd h not_yields_throw_ok
  | scalar t | range start stop step | encodings | body b =>
      rw [Except.ok.inj (yields_pure.mp h).1]
      rfl
  | _ => exact absurd htree Bool.false_ne_true

theorem isDocument_of_classify {v : Value} {b : Bool} (hv : v.isDocument? = some b) {path : Name}
    {n : Node} (h : Yields (v.classify path) s (.ok n) s') : n.isDocument = b := by
  cases v with
  | mapping kind entries =>
      rw [Value.classify] at h
      rcases yields_bind_eq_ok.mp h with ⟨ns, m, -, h⟩
      rw [Except.ok.inj (yields_pure.mp h).1]
      exact Option.some.inj hv
  | items kind xs =>
      rw [Value.classify] at h
      rcases yields_bind_eq_ok.mp h with ⟨ns, m, -, h⟩
      rw [Except.ok.inj (yields_pure.mp h).1]
      exact Option.some.inj hv
  | generator id xs ending =>
      rw [Value.classify] at h
      rcases yields_bind_eq_ok.mp h with ⟨drawn, m, -, h⟩
      rcases yields_bind_eq_ok.mp h with ⟨ns, m, -, h⟩
      -- It may still fail, and then it has no tree.
      have hn : n = .seq ns := by
        cases ending with
        | none => exact Except.ok.inj (yields_pure.mp h).1
        | some e =>
            by_cases hdrawn : drawn ≤ xs.length
            · simp only [if_pos hdrawn] at h
              rcases yields_bind_eq_ok.mp h with ⟨_, m, -, h⟩
              exact absurd h not_yields_throw_ok
            · simp only [if_neg hdrawn] at h
              exact Except.ok.inj (yields_pure.mp h).1
      rw [hn]
      exact Option.some.inj hv
  | scalar t =>
      cases t with
      | float x form =>
          rw [Value.classify] at h
          by_cases hx : x.isFinite = true
          · rw [if_pos hx] at h
            rw [Except.ok.inj (yields_pure.mp h).1]
            exact Option.some.inj hv
          · rw [if_neg hx] at h
            exact absurd h not_yields_throw_ok
      | _ =>
          rw [Except.ok.inj (yields_pure.mp h).1]
          exact Option.some.inj hv
  | range start stop step | encodings | body b | bodyItems b xs =>
      rw [Except.ok.inj (yields_pure.mp h).1]
      exact Option.some.inj hv
  | _ => exact absurd hv.symm (Option.some_ne_none b)

/-- The data that a document is built from is what its tree stands for. From
    anything else no document is built. -/
theorem realizes_toMap {v : Value} {b : Bool} (hdoc : v.isDocument? = some b) {k : Nat}
    {o : Meaning} (hv : s.Offers n k o v) :
    Realizes (toMap v) s (if b then o else none) (Shown s) := by
  unfold toMap toNode
  rw [bind_assoc]
  refine Realizes.ok_bind (yields_get.mpr ⟨rfl, rfl⟩) ?_
  -- A block shows a mapping, and is no value of a tree.
  have hseen : (s.snapshot v).isDocument? = some b := by
    cases v with
    | live id => exact absurd hdoc.symm (Option.some_ne_none b)
    | _ => exact hdoc
  rcases hv.means (.ofText "") s hv.ready.toReady with
    ⟨n, m, hclassify, hdrew, hn⟩ | ⟨rfl, e, m, hclassify⟩
  · refine Realizes.ok_bind hclassify ?_
    have hresolve := hn.resolve (n.depth + replayDepth) (Nat.le_add_right _ _) [] m
    have hlater := hresolve.mono fun d w t hw =>
      hw.toShown.earlier (Session.Grows.of_blocks hdrew.blocks)
    rw [← isDocument_of_classify hseen hclassify]
    cases n with
    | mapping entries => exact hlater
    | nested b => exact hlater
    | scalar v kind | seq ns | raw v => exact Realizes.throw
  · rw [ite_self]
    exact Realizes.error_bind hclassify

end

/-- Evaluation refines the reference semantics: whatever the session, the data that
    a document is built from, written out, is what its tree stands for, and a tree
    that stands for nothing is not evaluated to anything. -/
theorem toMap_refines_den (tree : Expr) (htree : tree.isTree = true) (s : Session) (d : Value) :
    tree.den = some d ↔
      ∃ m s', Yields (do toMap (← tree.build [])) s (.ok m) s' ∧ s'.snapshot m = d := by
  have hbuild := realizes_expr tree htree tree.depth (Nat.le_refl _) [] [] s
    ⟨fun f hf => absurd hf List.not_mem_nil, rfl⟩
  -- Building and mapping together realize what the tree stands for. The rest is that a run has
  -- one outcome.
  have hmap : Realizes (do toMap (← tree.build [])) s tree.den fun d m s' => s'.snapshot m = d := by
    unfold Expr.den
    cases hmeaning : tree.meaning [] with
    | none =>
        rw [hmeaning] at hbuild
        rcases hbuild with ⟨e, m, hbuild⟩
        rw [Option.join_none, ite_self]
        exact Realizes.error_bind hbuild
    | some o =>
        rw [hmeaning] at hbuild
        rcases hbuild with ⟨v, m, hbuild, hv⟩
        refine Realizes.ok_bind hbuild ?_
        exact (realizes_toMap (isDocument_of_build htree hbuild) (hv.offers (Nat.le_refl _))).mono
          fun d w t hw => hw.seen
  cases hden : tree.den with
  | some d' =>
      rw [hden] at hmap
      rcases hmap with ⟨m, s', hm, hseen⟩
      constructor
      · intro h
        exact ⟨m, s', hm, hseen.trans (Option.some.inj h)⟩
      · rintro ⟨m', t, hm', hd⟩
        rcases yields_unique hm hm' with ⟨hok, rfl⟩
        rw [← hd, ← Except.ok.inj hok, hseen]
  | none =>
      rw [hden] at hmap
      rcases hmap with ⟨e, s', he⟩
      constructor
      · intro h
        exact absurd h.symm (Option.some_ne_none d)
      · rintro ⟨m, t, hm, -⟩
        exact absurd (yields_unique he hm).1 error_ne_ok

/-- An order with a field under a reserved word, one assigned twice under a path
    that another form spells as a name, keywords, a chain, and a nested body whose
    fields are read back, once as the name of a field. -/
def orderTree : Expr :=
  .body (.mk (.named "order") [
    .set ["from_", "name"] (.scalar (.text "copy" .plain)),
    .call ["tags"] [.scalar (.text "new" .derived), .generator [.scalar (.int 2 .plain)] none] [],
    .chain [
      ([], [.scalar (.text "limits" .plain)], [("min", .scalar (.int 1 .plain))]),
      (["notes"], [], [])],
    .named (.read "from.name" 0) [.body (.mk (.named "inner") [.set ["sizes"] (.range 0 3 1)])] [],
    .item (.scalar (.text "from.name" .plain)) (.read "copy" 0),
    .get (.scalar (.text "tags" .plain))])

/-- What `orderTree` stands for. -/
def orderData : Value :=
  let sizes := Fields.toValue [(.ofText "sizes", .list [.int 0, .int 1, .int 2])]
  Fields.toValue [
    (.ofText "from.name", sizes),
    (.ofText "tags", .list [.text "new", .list [.int 2]]),
    (.ofText "limits", Fields.toValue [(.ofText "min", .int 1)]),
    (.ofText "notes", Fields.toValue []),
    (.ofText "copy", sizes)]

theorem order_builds_its_data :
    orderTree.isTree = true ∧ orderTree.den = some orderData ∧
      ∃ m s', Yields (do toMap (← orderTree.build [])) Session.initial (.ok m) s' ∧
        s'.snapshot m = orderData := by
  have htree : orderTree.isTree = true := by decide +kernel
  have hden : orderTree.den = some orderData := eq_some_of_sameData (by decide +kernel)
  exact ⟨htree, hden, (toMap_refines_den orderTree htree Session.initial orderData).mp hden⟩

end Docket
