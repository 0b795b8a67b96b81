import Docket.Proofs.Recording.Soundness

/-!
# Statements keep sessions sound

Every form of assignment comes down to `assignField`, which is safe because the
value is classified and resolved before it is stored. The other statements
assign nothing, or do so through the statements within them. A body makes a
block that nothing holds yet, and nothing that its statements store is that
block.

## Theorems

* `safe_assignField`: An assignment is safe.
* `safe_exec`: Statements are safe.
* `safe_runAt`: Bodies are safe, and what they come to is new.
* `safe_toMap`: So is the data that a document is built from.
-/

namespace Docket

section

variable {L : Value → Prop} {k : Nat} {P : Prop}

theorem builds_callValue (args : List Value) (keywords : Fields) :
    Builds L (callValue args keywords) fun v =>
      (∀ a ∈ args, a.Made L) → (∀ f ∈ keywords, f.2.Made L) → v.Made L := by
  unfold callValue
  split
  next fs =>
    refine Builds.pure fun _ hfs => Fields.made_toValue fun f hf => ?_
    rcases mem_keywordFields hf with ⟨p, hp, hfp⟩
    rcases List.mem_map.mp hp with ⟨g, hg, rfl⟩
    rw [hfp]
    exact hfs g hg
  next v => exact Builds.pure fun hargs _ => hargs v (List.mem_singleton.mpr rfl)
  next vs _ _ => exact Builds.pure fun hargs _ => madeItems_iff.mpr hargs
  next => exact Builds.throw

theorem builds_trace (label : String) (v : Value) : Builds L (Run.trace label v) fun _ => True :=
  Builds.change (fun _ => ⟨rfl, rfl, rfl, fun _ h => h⟩) trivial

theorem builds_traceAttempt (failure : Option Failure) :
    Builds L (Run.traceAttempt failure) fun _ => True :=
  Builds.change (fun _ => ⟨rfl, rfl, rfl, fun _ h => h⟩) trivial

theorem builds_lookUp (id : Nat) (key : Value) : Builds L (lookUp id key) fun _ => True := by
  unfold lookUp
  cases key.unhashable? with
  | some t => exact Builds.throw_bind
  | none =>
      dsimp only
      split
      · exact builds_map (builds_fieldsOf id) fun _ _ => trivial
      · exact Builds.pure trivial

theorem builds_displayKey (key : Value) : Builds L (displayKey key) fun _ => True := by
  unfold displayKey
  split
  · exact builds_map (builds_fieldsOf _) fun _ _ => trivial
  · exact Builds.pure trivial

/-- What is assigned is new once it has been evaluated. -/
theorem safe_assigned (hL : LeafRule L) {run : BodyRunner} (hrun : SafeRunner L run)
    (stack : BlockStack) (name : Name) (v : Value) :
    Safe L k ((∀ j ∈ stack, j < k) ∧ v.Made L)
      (do let node ← toNode v name; node.resolve (run stack)) fun n data s => Fresh L n data s := by
  refine Safe.builds_bind (builds_toNode hL v name) fun node => ?_
  have hresolve := (safe_resolve hL (hrun k stack) node).weaken
    (W := ((∀ j ∈ stack, j < k) ∧ v.Made L) ∧ (v.Made L → node.Clean L)) fun hP => hP.1.1
  intro s r s' h
  rcases hresolve s r s' h with ⟨honward, hsafe⟩
  refine ⟨honward, fun hP hs hk hleaves => ?_⟩
  rcases hsafe hP hs hk hleaves with ⟨hs', hkeeps, hfresh⟩
  exact ⟨hs', hkeeps, fun data hdata => hfresh data hdata (hP.2 hP.1.2)⟩

theorem assignField_eq (run : BodyRunner) (stack : BlockStack) (id : Nat) (name : Name)
    (v : Value) : assignField run stack id name v =
      (do let node ← toNode v name; node.resolve (run stack)) >>= Run.assign id name := by
  unfold assignField
  rw [bind_assoc]

/-- An assignment is safe: what it stores has been made meanwhile. -/
theorem safe_assignField (hL : LeafRule L) {run : BodyRunner} (hrun : SafeRunner L run)
    (stack : BlockStack) (id : Nat) (name : Name) (v : Value) :
    SafeUnit L k ((∀ j ∈ stack, j < k) ∧ id < k ∧ v.Made L)
      (assignField run stack id name v) := by
  rw [assignField_eq]
  intro s r s' h
  have hassigned := safe_assigned (k := k) hL hrun stack name v
  rcases yields_bind.mp h with ⟨data, m, h₁, h₂⟩ | ⟨e, h₁, -⟩
  · rcases hassigned s _ m h₁ with ⟨honward, hsafe⟩
    rcases yields_modify.mp h₂ with ⟨-, rfl⟩
    refine ⟨honward.trans (.assigned m id name data), fun hP hs hk hleaves => ?_⟩
    rcases hP with ⟨hstack, hid, hmade⟩
    rcases hsafe ⟨hstack, hmade⟩ hs hk hleaves with ⟨hm, hkeeps, hfresh⟩
    -- Storing it is all that is left, and what is stored holds later blocks only.
    have hassign := hm.assign name hkeeps (hfresh data rfl) (Nat.lt_of_lt_of_le hid hk)
    exact ⟨hassign.1, hassign.2, fun _ _ => trivial⟩
  · rcases hassigned s _ s' h₁ with ⟨honward, hsafe⟩
    refine ⟨honward, fun hP hs hk hleaves => ?_⟩
    rcases hsafe ⟨hP.1, hP.2.2⟩ hs hk hleaves with ⟨hs', hkeeps, -⟩
    exact ⟨hs', hkeeps, fun _ _ => trivial⟩

theorem safe_callRef (hL : LeafRule L) {run : BodyRunner} (hrun : SafeRunner L run)
    (stack : BlockStack) (id : Nat) (path : List String) (args : List Value) (keywords : Fields) :
    SafeUnit L k ((∀ j ∈ stack, j < k) ∧ id < k ∧ (∀ a ∈ args, a.Made L) ∧
        ∀ f ∈ keywords, f.2.Made L)
      (callRef run stack id path args keywords) := by
  unfold callRef
  by_cases hself : keywords.names.contains "self" = true
  · simp only [hself, if_true]
    exact Safe.throw_bind
  · simp only [hself]
    refine Safe.builds_bind (builds_callValue args keywords) fun v => ?_
    refine (safe_assignField hL hrun stack id _ v).weaken ?_
    rintro ⟨⟨hstack, hid, hargs, hkeywords⟩, hmade⟩
    exact ⟨hstack, hid, hmade hargs hkeywords⟩

theorem builds_calledName (args : List Value) (keywords : Fields) :
    Builds L (calledName args keywords) fun p => ∀ a ∈ p.2, a ∈ args := by
  unfold calledName
  split
  next name rest => exact Builds.pure fun a ha => List.mem_cons_of_mem name ha
  next => exact Builds.pure fun a ha => absurd ha List.not_mem_nil
  next => exact Builds.throw

theorem safe_callNamed (hL : LeafRule L) {run : BodyRunner} (hrun : SafeRunner L run)
    (stack : BlockStack) (id : Nat) (name : Value) (args : List Value) (keywords : Fields) :
    SafeUnit L k ((∀ j ∈ stack, j < k) ∧ id < k ∧ (∀ a ∈ args, a.Made L) ∧
        ∀ f ∈ keywords, f.2.Made L)
      (callNamed run stack id name args keywords) := by
  unfold callNamed
  split
  · refine Safe.builds_bind (builds_callValue args keywords) fun v => ?_
    refine (safe_assignField hL hrun stack id _ v).weaken ?_
    rintro ⟨⟨hstack, hid, hargs, hkeywords⟩, hmade⟩
    exact ⟨hstack, hid, hmade hargs hkeywords⟩
  · exact Safe.throw

theorem safe_callBlock (hL : LeafRule L) {run : BodyRunner} (hrun : SafeRunner L run)
    (stack : BlockStack) (id : Nat) (args : List Value) (keywords : Fields) :
    SafeUnit L k ((∀ j ∈ stack, j < k) ∧ id < k ∧ (∀ a ∈ args, a.Made L) ∧
        ∀ f ∈ keywords, f.2.Made L)
      (callBlock run stack id args keywords) := by
  -- Keywords are dropped, never added.
  have hfilter : ∀ f ∈ (if args.isEmpty then keywords.filter (·.1.text != "name") else keywords),
      f ∈ keywords := by
    intro f hf
    by_cases hargs : args.isEmpty = true
    · rw [if_pos hargs] at hf
      exact (List.mem_filter.mp hf).1
    · rw [if_neg hargs] at hf
      exact hf
  unfold callBlock
  simp only []
  split
  · exact Safe.throw
  · refine Safe.builds_bind (builds_calledName args keywords) fun p => ?_
    refine (safe_callNamed hL hrun stack id p.1 p.2 _).weaken ?_
    rintro ⟨⟨hstack, hid, hargs, hkeywords⟩, hrest⟩
    exact ⟨hstack, hid, fun a ha => hargs a (hrest a ha), fun f hf => hkeywords f (hfilter f hf)⟩

/-- A call is safe, of a reference or of the block itself. -/
theorem safe_callPath (hL : LeafRule L) {run : BodyRunner} (hrun : SafeRunner L run)
    (stack : BlockStack) (path : List String) (args : List Expr)
    (keywords : List (String × Expr)) :
    SafeUnit L k (∀ j ∈ stack, j < k) (callPath run stack path args keywords) := by
  unfold callPath
  refine Safe.builds_bind (builds_blockAt stack 0) fun id => ?_
  refine Safe.builds_bind (builds_refPath true path) fun names => ?_
  refine Safe.builds_bind (builds_items hL stack args) fun vs => ?_
  refine Safe.builds_bind (builds_fields hL stack keywords) fun fs => ?_
  have hmade : ∀ {P : Prop}, P ∧ (∀ f ∈ fs, f.2.Made L) →
      ∀ f ∈ keywordFields fs, f.2.Made L := by
    intro P h f hf
    rcases mem_keywordFields hf with ⟨p, hp, hfp⟩
    rw [hfp]
    exact h.2 p hp
  have hready : (((((∀ j ∈ stack, j < k) ∧ id ∈ stack) ∧ True) ∧ ∀ v ∈ vs, v.Made L) ∧
      ∀ f ∈ fs, f.2.Made L) → (∀ j ∈ stack, j < k) ∧ id < k ∧ (∀ a ∈ vs, a.Made L) ∧
        ∀ f ∈ keywordFields fs, f.2.Made L :=
    fun h => ⟨h.1.1.1.1, h.1.1.1.1 id h.1.1.1.2, h.1.2, hmade h⟩
  -- Without names the block itself is called.
  by_cases hnames : names.isEmpty = true
  · simp only [hnames, if_true]
    exact (safe_callBlock hL hrun stack id vs _).weaken hready
  · simp only [hnames]
    exact (safe_callRef hL hrun stack id names vs _).weaken hready

theorem safe_setPath (hL : LeafRule L) {run : BodyRunner} (hrun : SafeRunner L run)
    (stack : BlockStack) (path : List String) (v : Value) :
    SafeUnit L k ((∀ j ∈ stack, j < k) ∧ v.Made L) (setPath run stack path v) := by
  unfold setPath
  refine Safe.builds_bind (builds_blockAt stack 0) fun id => ?_
  refine Safe.builds_bind (builds_refPath true _) fun names => ?_
  by_cases hlast : isPrivate (path.getLast?.getD "") = true
  · simp only [hlast, if_true]
    exact Safe.throw_bind
  · simp only [hlast]
    refine (safe_assignField hL hrun stack id _ v).weaken ?_
    rintro ⟨⟨⟨hstack, hmade⟩, hid⟩, -⟩
    exact ⟨hstack, hstack id hid, hmade⟩

theorem Safe.unit_bind {α : Type} {p : Run Unit} {f : Unit → Run α} (hp : SafeUnit L k P p)
    (hf : ∀ a, Safe L k P (f a) fun _ _ _ => True) :
    Safe L k P (p >>= f) fun _ _ _ => True :=
  hp.bind hf fun _ _ _ _ _ _ _ _ _ => trivial

theorem Safe.forM {α : Type} {f : α → Run Unit} (xs : List α)
    (h : ∀ a ∈ xs, SafeUnit L k P (f a)) : SafeUnit L k P (xs.forM f) := by
  induction xs with
  | nil => exact Safe.pure.mono fun _ _ _ _ => trivial
  | cons a rest ih =>
      change SafeUnit L k P (f a >>= fun _ => rest.forM f)
      exact (h a List.mem_cons_self).unit_bind
        fun _ => ih fun b hb => h b (List.mem_cons_of_mem a hb)

/-- Trying is as safe as what is tried. -/
theorem Safe.attempt {p : Run Unit} (hp : SafeUnit L k P p) :
    Safe L k P (tryCatch (p *> Pure.pure none) fun e => Pure.pure (some e))
      fun _ (_ : Option Failure) _ => True := by
  have hnone : Safe L k P (p *> Pure.pure none) fun _ (_ : Option Failure) _ => True :=
    hp.unit_bind fun _ => Safe.pure.mono fun _ _ _ _ => trivial
  intro s r s' h
  rcases yields_tryCatch.mp h with ⟨a, h₁, -⟩ | ⟨e, m, h₁, h₂⟩
  · rcases hnone s _ s' h₁ with ⟨honward, hsafe⟩
    refine ⟨honward, fun hP hs hk hleaves => ?_⟩
    rcases hsafe hP hs hk hleaves with ⟨hs', hkeeps, -⟩
    exact ⟨hs', hkeeps, fun _ _ => trivial⟩
  -- A failure is answered in the session it left behind, which is as safe.
  · rcases yields_pure.mp h₂ with ⟨-, rfl⟩
    rcases hnone s _ s' h₁ with ⟨honward, hsafe⟩
    refine ⟨honward, fun hP hs hk hleaves => ?_⟩
    rcases hsafe hP hs hk hleaves with ⟨hs', hkeeps, -⟩
    exact ⟨hs', hkeeps, fun _ _ => trivial⟩

/-- An error that is wrapped is as safe as the error. -/
theorem Safe.tryCatch_throw {p : Run Unit} {f : Failure → Failure} (hp : SafeUnit L k P p) :
    SafeUnit L k P (tryCatch p fun e => MonadExcept.throw (f e)) := by
  intro s r s' h
  rcases yields_tryCatch.mp h with ⟨a, h₁, -⟩ | ⟨e, m, h₁, h₂⟩
  · rcases hp s _ s' h₁ with ⟨honward, hsafe⟩
    refine ⟨honward, fun hP hs hk hleaves => ?_⟩
    rcases hsafe hP hs hk hleaves with ⟨hs', hkeeps, -⟩
    exact ⟨hs', hkeeps, fun _ _ => trivial⟩
  · rcases yields_throw.mp h₂ with ⟨-, rfl⟩
    rcases hp s _ s' h₁ with ⟨honward, hsafe⟩
    refine ⟨honward, fun hP hs hk hleaves => ?_⟩
    rcases hsafe hP hs hk hleaves with ⟨hs', hkeeps, -⟩
    exact ⟨hs', hkeeps, fun _ _ => trivial⟩

theorem Safe.of_building {α : Type} {p : Run α} {Q : α → Prop} (h : Builds L p Q) :
    Safe L k P p fun _ _ _ => True :=
  (Safe.of_builds h).mono fun _ _ _ _ => trivial

/-- Keeping a block that is being recorded. -/
theorem safe_keep (key : String) (stack : BlockStack) :
    SafeUnit L k (∀ j ∈ stack, j < k) (do let id ← blockAt stack 0; Run.keep key id) := by
  refine Safe.builds_bind (builds_blockAt stack 0) fun id => ?_
  intro s r s' h
  rcases yields_modify.mp h with ⟨-, rfl⟩
  refine ⟨.of_eq (fun _ h => h) rfl rfl, fun hP hs hk _ => ⟨?_, ⟨Nat.le_refl _, fun _ _ _ h => h⟩,
    fun _ _ => trivial⟩⟩
  refine ⟨hs.filled, hs.names, hs.ordered, hs.once, hs.owner, ?_⟩
  intro p hp
  rcases List.mem_cons.mp hp with rfl | hp
  · exact Nat.lt_of_lt_of_le (hP.1 id hP.2) hk
  · exact hs.kept p (List.mem_filter.mp hp).1

/-- A statement on a block that was kept is as safe as the statement. -/
theorem safe_on {p : Nat → Run Unit} {stack : BlockStack} (key : String)
    (hp : ∀ k id, SafeUnit L k (∀ j ∈ id :: stack, j < k) (p id)) :
    SafeUnit L k (∀ j ∈ stack, j < k) (do let id ← Run.keptBlock key; p id) := by
  intro s r s' h
  unfold Run.keptBlock at h
  rw [bind_assoc, yields_bind_ok (yields_get.mpr ⟨rfl, rfl⟩)] at h
  cases hfind : s.kept.find? (·.1 == key) with
  | none =>
      simp only [hfind] at h
      have hthrow : SafeUnit L k (∀ j ∈ stack, j < k)
          ((throw (.keyError (.text key)) : Run Nat) >>= p) := Safe.throw_bind
      exact hthrow s r s' h
  | some entry =>
      simp only [hfind] at h
      rw [yields_bind_ok (yields_pure.mpr ⟨rfl, rfl⟩)] at h
      rcases hp s.blocks.size entry.2 s r s' h with ⟨honward, hsafe⟩
      refine ⟨honward, fun hstack hs hk hleaves => hsafe ?_ hs (Nat.le_refl _) hleaves⟩
      -- A block that was kept is there, and so are those of the stack.
      rw [List.forall_mem_cons]
      exact ⟨hs.kept entry (List.mem_of_find?_eq_some hfind),
        fun j hj => Nat.lt_of_lt_of_le (hstack j hj) hk⟩

/-- Statements are safe, if the bodies run within them are. -/
theorem safe_exec (hL : LeafRule L) {run : BodyRunner} (hrun : SafeRunner L run) :
    (st : Stmt) → (k : Nat) → (stack : BlockStack) →
      SafeUnit L k (∀ j ∈ stack, j < k) (st.exec run stack)
  | .set path v, k, stack => by
    rw [Stmt.exec]
    exact Safe.builds_bind (builds_expr hL stack v) fun w => safe_setPath hL hrun stack path w
  | .call path args keywords, k, stack => by
    rw [Stmt.exec]
    exact safe_callPath hL hrun stack path args keywords
  | .chain calls, k, stack => by
    rw [Stmt.exec]
    refine (Safe.forM calls fun c _ => safe_callPath hL hrun stack c.1 c.2.1 c.2.2).unit_bind ?_
    exact fun _ => Safe.of_building (builds_trace _ _)
  | .item key v, k, stack => by
    rw [Stmt.exec]
    refine Safe.builds_bind (builds_expr hL stack key) fun w => ?_
    refine Safe.builds_bind (builds_expr hL stack v) fun value => ?_
    split
    · refine Safe.builds_bind (builds_blockAt stack 0) fun id => ?_
      refine (safe_assignField hL hrun stack id _ value).weaken ?_
      rintro ⟨⟨⟨hstack, -⟩, hmade⟩, hid⟩
      exact ⟨hstack, hstack id hid, hmade⟩
    · exact Safe.throw
  | .named name args keywords, k, stack => by
    rw [Stmt.exec]
    exact safe_callPath hL hrun stack [] (name :: args) keywords
  | .get key, k, stack => by
    rw [Stmt.exec]
    -- From here on statements only look at the session, and note down what they see.
    refine Safe.of_building (Q := fun _ => True) ?_
    refine (builds_expr hL stack key).bind fun w => Builds.any ?_
    refine (builds_blockAt stack 0).bind fun id => Builds.any ?_
    refine (builds_lookUp id w).bind fun found => Builds.any ?_
    split
    · exact builds_trace _ _
    · exact (builds_displayKey w).bind fun _ => Builds.throw
  | .contains key, k, stack => by
    rw [Stmt.exec]
    refine Safe.of_building (Q := fun _ => True) ?_
    refine (builds_expr hL stack key).bind fun w => Builds.any ?_
    refine (builds_blockAt stack 0).bind fun id => Builds.any ?_
    exact (builds_lookUp id w).bind fun found => Builds.any (builds_trace _ _)
  | .count, k, stack => by
    rw [Stmt.exec]
    refine Safe.of_building (Q := fun _ => True) ?_
    refine (builds_blockAt stack 0).bind fun id => Builds.any ?_
    exact (builds_fieldsOf id).bind fun fs => Builds.any (builds_trace _ _)
  | .show, k, stack => by
    rw [Stmt.exec]
    refine Safe.of_building (Q := fun _ => True) ?_
    refine (builds_blockAt stack 0).bind fun id => Builds.any ?_
    exact (builds_fieldsOf id).bind fun fs => Builds.any (builds_trace _ _)
  | .showRef path, k, stack => by
    rw [Stmt.exec]
    refine Safe.of_building (Q := fun _ => True) ?_
    exact (builds_refPath true path).bind fun names => Builds.any (builds_trace _ _)
  | .trace v, k, stack => by
    rw [Stmt.exec]
    refine Safe.of_building (Q := fun _ => True) ?_
    exact (builds_expr hL stack v).bind fun w => Builds.any (builds_trace _ _)
  | .raise e, k, stack => by
    rw [Stmt.exec]
    exact Safe.throw
  | .attempt st, k, stack => by
    rw [Stmt.exec]
    refine (safe_exec hL hrun st k stack).attempt.bind
      (fun outcome => Safe.of_building (builds_traceAttempt outcome)) ?_
    exact fun _ _ _ _ _ _ _ _ _ => trivial
  | .up levels st, k, stack => by
    rw [Stmt.exec]
    -- The blocks further up were open before.
    refine (safe_exec hL hrun st k (stack.drop levels)).weaken ?_
    exact fun hstack j hj => hstack j (List.mem_of_mem_drop hj)
  | .keep key, k, stack => by
    rw [Stmt.exec]
    exact safe_keep key stack
  | .on key st, k, stack => by
    rw [Stmt.exec]
    exact safe_on key fun k id => safe_exec hL hrun st k (id :: stack)

theorem yields_newBlock {s s' : Session} {r : Except Failure Nat} :
    Yields Run.newBlock s r s' ↔ r = .ok s.blocks.size ∧ s' = s.opened := by
  unfold Run.newBlock
  rw [yields_bind_ok (yields_get.mpr ⟨rfl, rfl⟩), yields_bind_ok (yields_set.mpr ⟨rfl, rfl⟩),
    yields_pure]
  rfl

/-- Bodies are safe at every depth, and what they come to is new. -/
theorem safe_runAt (hL : LeafRule L) (depth : Nat) : SafeRunner L (Body.runAt depth) := by
  induction depth with
  | zero =>
      intro k stack b
      rw [Body.runAt]
      exact Safe.throw
  | succ depth ih =>
      intro k stack b s r s' h
      rw [Body.runAt, yields_bind_ok (yields_newBlock.mpr ⟨rfl, rfl⟩)] at h
      have hstmts := Safe.forM b.stmts fun st _ =>
        safe_exec hL ih st (s.blocks.size + 1) (s.blocks.size :: stack)
      have hrun : SafeUnit L (s.blocks.size + 1)
          (∀ j ∈ s.blocks.size :: stack, j < s.blocks.size + 1)
          (tryCatch (b.stmts.forM (·.exec (Body.runAt depth) (s.blocks.size :: stack)))
            fun e => throw (e.inBody b)) := hstmts.tryCatch_throw
      rcases hrun.map (fun _ => Value.live s.blocks.size) s.opened r s' h with ⟨honward, hsafe⟩
      refine ⟨(Session.Onward.opened s).trans honward, fun hstack hs hk hleaves => ?_⟩
      have hstack' : ∀ j ∈ s.blocks.size :: stack, j < s.blocks.size + 1 := by
        rw [List.forall_mem_cons]
        refine ⟨Nat.lt_succ_self _, fun j hj => ?_⟩
        have hlt := hstack j hj
        omega
      have hsize := s.size_opened
      rcases hsafe hstack' hs.opened (Nat.le_of_eq hsize.symm) hleaves with ⟨hs', hkeeps, hlive⟩
      refine ⟨hs', s.keeps_opened.trans hkeeps, fun v hv => ?_⟩
      rcases hlive v hv with ⟨u, rfl, -⟩
      -- The block is newer than all that were held when it was made.
      refine ⟨Value.Recorded.live _, List.pairwise_singleton _ _, ?_, ?_⟩
      · intro j hj
        rw [Value.held, List.mem_singleton] at hj
        have hle := hkeeps.size
        omega
      · intro j hj i hij
        rw [Value.held, List.mem_singleton] at hj
        have hheld := hkeeps.holds i j (by omega) hij
        have hlt := (hs.opened.ordered i j hheld).2
        have hold := hs.ordered i j (s.holds_opened.mp hheld)
        omega

end

end Docket
