import Docket.Proofs.Recording.Folding
import Docket.Proofs.Recording.Writing

/-!
# Assigning and calling

Every form of assignment places what its value stands for among the fields that
have been assigned so far. A session records a body while nothing but its block
and later blocks have changed, and the fields of its block are seen to be the
assignments so far (`Recording`); an assignment keeps it so.

A call stands for what its arguments make: keywords a mapping, several arguments
a list, none an empty mapping. The field is named by a path of attributes or, if
the block itself is called, by the first argument.

## Main definitions

* `Session.Offers`: A value that stands for something and can be classified.
* `Filling`, `Recording`: The session while a block is being filled, and while a body
  is being run.

## Theorems

* `realizes_callValue`: What the arguments of a call make.
* `realizes_assignField`: An assignment places what its value stands for.
* `realizes_setPath`, `realizes_callPath`: Assignments by attributes and by calls.
-/

namespace Docket

/-- Distinct generators that have not been drawn from, all of them made since there were `n`
    of them. -/
structure Session.ReadyFrom (s : Session) (n : Nat) (gs : List Nat) : Prop extends s.Ready gs where
  late : ∀ g ∈ gs, n ≤ g

namespace Session.ReadyFrom

variable {s t m : Session} {n : Nat} {gs gs' : List Nat}

theorem subperm (h : s.ReadyFrom n gs) (hsub : gs'.Subperm gs) : s.ReadyFrom n gs' :=
  ⟨h.toReady.subperm hsub, fun g hg => h.late g (hsub.subset hg)⟩

/-- Drawing from generators that have been made since leaves the others alone. -/
theorem drawsNew (h : t.ReadyFrom s.drawn.size gs) (hdrew : Drew gs t m) (ht : s.DrawsNew t) :
    s.DrawsNew m where
  known := hdrew.known ▸ ht.known
  drawn g hg := by
    rw [hdrew.others g fun hmem => absurd (h.late g hmem) (Nat.not_le_of_lt hg), ht.drawn g hg]

end Session.ReadyFrom

theorem Makes.readyFrom {gs : List Nat} {s s' : Session} (h : Makes gs s s') {n : Nat}
    (hn : n ≤ s.drawn.size) : s'.ReadyFrom n gs :=
  ⟨h.ready, fun g hg => Nat.le_trans hn (h.new g hg).1⟩

/-- A value that stands for something, and whose generators have been made since there were
    `n` of them and not been drawn from. -/
structure Session.Offers (s : Session) (n k : Nat) (o : Meaning) (v : Value) : Prop where
  ready : s.ReadyFrom n (s.snapshot v).generators
  means : (s.snapshot v).Means k o

/-- Arguments and keywords that stand for what they should and can be classified. -/
structure Session.OffersCall (s : Session) (n k : Nat) (os : List Meaning)
    (ks : List (String × Meaning)) (vs : List Value) (fs : List (String × Value)) : Prop where
  args : List.Forall₂ (fun v o => (s.snapshot v).Means k o) vs os
  keywords : List.Forall₂ (fun f m => f.1 = m.1 ∧ (s.snapshot f.2).Means k m.2) fs ks
  ready : s.ReadyFrom n ((vs.flatMap fun v => (s.snapshot v).generators) ++
    fs.flatMap fun f => (s.snapshot f.2).generators)

theorem Session.OffersCall.tail {s : Session} {n k : Nat} {o : Meaning} {os : List Meaning}
    {ks : List (String × Meaning)} {v : Value} {vs : List Value} {fs : List (String × Value)}
    (h : s.OffersCall n k (o :: os) ks (v :: vs) fs) : s.OffersCall n k os ks vs fs := by
  refine ⟨(List.forall₂_cons.mp h.args).2, h.keywords, h.ready.subperm ?_⟩
  rw [List.flatMap_cons, List.append_assoc]
  exact (List.sublist_append_right _ _).subperm

/-- Keywords whose values stand for what they should. -/
structure StandsKeywords (s : Session) (k : Nat) (words : List String)
    (ks : List (String × Meaning)) (fs : List (String × Value)) (s' : Session) : Prop where
  makes : Makes (fs.flatMap fun f => (s.snapshot f.2).generators) s s'
  words : fs.map (·.1) = words
  means : List.Forall₂ (fun f m => f.1 = m.1 ∧ (s.snapshot f.2).Means k m.2) fs ks

section

variable {n k : Nat} {s s' : Session} {stack : BlockStack} {env : Fields}

theorem Stands.offers {key : Option Scalar} {o : Meaning} {v : Value}
    (h : Stands s k key o v s') (hn : n ≤ s.drawn.size) : s'.Offers n k o v := by
  refine ⟨?_, ?_⟩
  · rw [h.makes.snapshot]
    exact h.makes.readyFrom hn
  · rw [h.makes.snapshot]
    exact h.means

/-! ## Keywords -/

theorem realizes_keywords_nil :
    Realizes (buildFields stack []) s (keywordsMeaning env []) (StandsKeywords s k []) :=
  Realizes.pure ⟨Makes.refl s, rfl, .nil⟩

theorem realizes_keywords_cons {name : String} {e : Expr} {rest : List (String × Expr)}
    (hsees : s.Sees stack env)
    (he : Realizes (e.build stack) s (e.meaning env) (Stands s k (e.key env)))
    (hrest : ∀ s', s'.Sees stack env → Realizes (buildFields stack rest) s'
      (keywordsMeaning env rest) (StandsKeywords s' k (rest.map (·.1)))) :
    Realizes (buildFields stack ((name, e) :: rest)) s (keywordsMeaning env ((name, e) :: rest))
      (StandsKeywords s k (((name, e) :: rest).map (·.1))) := by
  rw [buildFields, keywordsMeaning]
  refine he.bind fun o v m hv => ?_
  refine (hrest m (hsees.makes hv.makes)).bind fun ks fs s' hfs => ?_
  have hmakes := hfs.makes
  have hmeans := hfs.means
  rw [hv.makes.snapshot] at hmakes hmeans
  exact Realizes.pure ⟨hv.makes.trans hmakes, congrArg (List.cons name) hfs.words,
    .cons ⟨rfl, hv.means⟩ hmeans⟩

/-- Keywords as fields. -/
def wordFields (fs : List (String × Value)) : Fields := fs.map fun f => (.ofText f.1, f.2)

theorem names_wordFields (fs : List (String × Value)) :
    (wordFields fs).names = fs.map (·.1) := by
  unfold wordFields Fields.names
  rw [List.map_map]
  rfl

theorem keywordFields_eq (fs : List (String × Value)) :
    keywordFields fs = orderedFold (wordFields fs) := by
  unfold keywordFields orderedFold wordFields
  rw [List.foldl_map]
  simp only [placed_eq_set]

/-- Keywords that are given once are the fields they make. -/
theorem keywordFields_of_nodup {fs : List (String × Value)} (h : (fs.map (·.1)).Nodup) :
    keywordFields fs = wordFields fs := by
  rw [keywordFields_eq]
  refine orderedFold_of_nodup ?_
  unfold wordFields
  rw [List.map_map]
  exact h

/-! ## Arguments -/

/-- A mapping of fields folded in order is offered if the fields are. -/
theorem offers_orderedFold {fs : Fields} {os : List (Name × Meaning)}
    (h : List.Forall₂ (Paired fun v o => (s.snapshot v).Means k o) fs os)
    (hready : s.ReadyFrom n (fs.flatMap fun f => (s.snapshot f.2).generators)) :
    s.Offers n k (mappingMeaning (orderedFold os)) (Fields.toValue (orderedFold fs)) := by
  refine ⟨?_, means_snapshot_fields (forall₂_orderedFold h) .plain⟩
  have hsub := subperm_enter fs.entries [] fun v => (s.snapshot v).generators
  rw [show enter [] fs.entries = Fields.entries (orderedFold fs) from enter_entries fs [],
    List.flatMap_nil, List.nil_append] at hsub
  rw [show Fields.toValue (orderedFold fs) = .mapping .plain (Fields.entries (orderedFold fs))
    from rfl, generators_snapshot_mapping]
  refine hready.subperm (hsub.trans ?_)
  rw [Fields.entries, List.flatMap_map]

/-- What the arguments of a call make. -/
theorem realizes_callValue {vs : List Value} {os : List Meaning} {fs : List (String × Value)}
    {ks : List (String × Meaning)} (h : s.OffersCall n k os ks vs fs) :
    Realizes (callValue vs (wordFields fs)) s (argumentMeaning os ks)
      fun o v s' => s' = s ∧ s.Offers n k o v := by
  rcases h with ⟨hvs, hfs, hready⟩
  cases hvs with
  | nil =>
      -- Keywords alone make a mapping, under the names that their words stand for.
      have hrenamed : (wordFields fs).map (fun f => (fieldName f.1.text, f.2)) =
          fs.map fun f => (fieldName f.1, f.2) := by
        unfold wordFields
        rw [List.map_map]
        rfl
      unfold callValue argumentMeaning
      simp only []
      rw [hrenamed, keywordFields_eq, wordFields, List.map_map]
      refine Realizes.pure ⟨rfl, offers_orderedFold ?_ ?_⟩
      · refine List.forall₂_map_left_iff.mpr (List.forall₂_map_right_iff.mpr (hfs.imp ?_))
        exact fun f m h => ⟨congrArg (fun w => Name.ofText (fieldName w)) h.1, h.2⟩
      · rw [List.flatMap_map]
        exact hready
  | @cons v o vs os hv hvs =>
      cases hfs with
      | nil =>
          rw [List.flatMap_nil, List.append_nil] at hready
          cases hvs with
          | nil =>
              rw [List.flatMap_cons, List.flatMap_nil, List.append_nil] at hready
              exact Realizes.pure ⟨rfl, hready, hv⟩
          | @cons w p vs os hw hvs =>
              -- Two arguments or more make a list.
              refine Realizes.pure ⟨rfl, ?_, ?_⟩
              · rw [Value.list, Session.snapshot_items, Value.generators, generatorsOfItems_eq,
                  List.flatMap_map]
                exact hready
              · rw [Value.list, Session.snapshot_items]
                exact means_items (List.forall₂_map_left_iff.mpr (.cons hv (.cons hw hvs))) .list
      | cons hf hfs =>
          -- Arguments and keywords together are refused.
          cases hvs with
          | _ => exact Realizes.throw

/-! ## Assignments -/

/-- A block is being filled that was made in `s`: nothing but it and later blocks has
    changed, and it is seen to have some fields. -/
structure Filling (s t : Session) (env : Fields) : Prop where
  grows : s.Grows t
  size : s.blocks.size < t.blocks.size
  fields : t.snapshotFields s.blocks.size = env

namespace Filling

variable {t m : Session}

theorem opened (s : Session) : Filling s s.opened [] where
  grows := by
    refine ⟨?_, fun i _ => s.fields_opened i, fun i j hi hij => ?_⟩
    · rw [s.size_opened]
      exact Nat.le_succ _
    · rw [Session.holds_opened, Session.Holds, Session.fields_of_size_le hi] at hij
      exact absurd hij List.not_mem_nil
  size := by
    rw [s.size_opened]
    exact Nat.lt_succ_self _
  fields := by
    unfold Session.snapshotFields
    rw [s.fields_opened, Session.fields_of_size_le (Nat.le_refl _)]
    rfl

theorem of_blocks (h : Filling s t env) (hm : m.blocks = t.blocks) : Filling s m env where
  grows := h.grows.trans (Session.Grows.of_blocks hm)
  size := hm ▸ h.size
  fields := by
    rw [Session.snapshotFields_of_blocks hm]
    exact h.fields

/-- Evaluating a value leaves the fields so far as they are. -/
theorem grow (h : Filling s t env) (hm : t.Grows m) : Filling s m env where
  grows := h.grows.trans hm
  size := Nat.lt_of_lt_of_le h.size hm.size
  fields := by
    -- What the block holds was made after it, and looks the same later.
    rw [← h.fields]
    unfold Session.snapshotFields
    rw [hm.fields _ h.size]
    refine List.map_congr_left fun f hf => congrArg (Prod.mk f.1) ?_
    refine Session.snapshot_eq_of_fields h.grows.ordered (h.grows.trans hm).ordered
      (fun i _ hi => hm.fields i hi) fun j hj => ?_
    have hholds := h.grows.ordered _ j (Nat.le_refl _) (Fields.mem_held.mpr ⟨f, hf, hj⟩)
    omega

/-- An assignment places what is shown. -/
theorem assign {d v : Value} (h : Filling s t env) (name : Name) (hv : Shown t d v m) :
    Filling s (m.assigned s.blocks.size name v) (placed env name d) := by
  have hm := h.grow hv.grows
  -- The value holds blocks made while it was evaluated, after the one it goes to.
  have hlate : ∀ j ∈ v.held, s.blocks.size < j ∧ j < m.blocks.size :=
    fun j hj => ⟨Nat.lt_of_lt_of_le h.size (hv.held j hj).1, (hv.held j hj).2⟩
  constructor
  case grows =>
    refine ⟨?_, fun i hi => ?_, hm.grows.ordered.assigned name hm.size hlate⟩
    · rw [Session.size_assigned]
      exact hm.grows.size
    · rw [Session.fields_assigned_ne m name v (Nat.ne_of_lt hi), hm.grows.fields i hi]
  case size =>
    rw [Session.size_assigned]
    exact hm.size
  case fields =>
    rw [Session.snapshotFields_assigned hm.grows.ordered name hm.size hlate, hm.fields, hv.seen,
      placed_eq_set]

/-- The block is seen to have these fields wherever it is held. -/
theorem shown (h : Filling s t env) : Shown s env.toValue (.live s.blocks.size) t where
  grows := h.grows
  held j hj := by
    rw [Value.held, List.mem_singleton] at hj
    rw [hj]
    exact ⟨Nat.le_refl _, h.size⟩
  seen := by rw [Session.snapshot_live_of_late h.grows.ordered, h.fields]

end Filling

/-- A body is being run that began in `s`: its block is the first new one, and what
    is seen of it are the assignments so far. -/
structure Recording (s t : Session) (env : Fields) : Prop extends Filling s t env where
  data : ∀ f ∈ env, f.2.IsData
  names : env.names.Nodup
  drawsNew : s.DrawsNew t
  counters : t.counters = s.counters

namespace Recording

variable {t m : Session}

theorem opened (s : Session) : Recording s s.opened [] where
  toFilling := .opened s
  data _ hf := absurd hf List.not_mem_nil
  names := List.nodup_nil
  drawsNew := ⟨Nat.le_refl _, fun _ _ => rfl⟩
  counters := rfl

theorem sees (h : Recording s t env) (stack : BlockStack) :
    t.Sees (s.blocks.size :: stack) env := ⟨h.data, h.fields⟩

theorem of_blocks (h : Recording s t env) (hm : m.blocks = t.blocks) (hnew : s.DrawsNew m)
    (hcounters : m.counters = t.counters) : Recording s m env :=
  ⟨h.toFilling.of_blocks hm, h.data, h.names, hnew, hcounters.trans h.counters⟩

theorem makes {gs : List Nat} (h : Recording s t env) (hm : Makes gs t m) : Recording s m env :=
  h.of_blocks hm.blocks (h.drawsNew.trans hm.drawsNew) hm.counters

/-- Generators that have been made meanwhile may be drawn from. -/
theorem drew {gs : List Nat} (h : Recording s t env) (hready : t.ReadyFrom s.drawn.size gs)
    (hdrew : Drew gs t m) : Recording s m env :=
  h.of_blocks hdrew.blocks (hready.drawsNew hdrew h.drawsNew) hdrew.counters

/-- An assignment places what was evaluated. -/
theorem assign {d v : Value} (h : Recording s t env) (name : Name) (hv : Evaluated t d v m) :
    Recording s (m.assigned s.blocks.size name v) (placed env name d) where
  toFilling := h.toFilling.assign name hv.toShown
  data := by
    intro f hf
    rw [placed_eq_set] at hf
    rcases Fields.mem_set hf with hf | hf
    · exact h.data f hf
    · exact hf ▸ hv.data
  names := nodup_placed env name d h.names
  drawsNew := ⟨(h.drawsNew.trans hv.drawsNew).known, (h.drawsNew.trans hv.drawsNew).drawn⟩
  counters := hv.counters.trans h.counters

/-- The block is what the body comes to. -/
theorem evaluated (h : Recording s t env) : Evaluated s env.toValue (.live s.blocks.size) t :=
  ⟨⟨h.shown, h.drawsNew⟩, h.counters, Value.IsData.fields h.names h.data⟩

end Recording

section

variable {t : Session} {depth : Nat}

/-- An assignment places what its value stands for. -/
theorem realizes_assignField (hrec : Recording s t env) {o : Meaning} {v : Value}
    (hv : t.Offers s.drawn.size depth o v) (stack : BlockStack) (name : Name) :
    Realizes (assignField (Body.runAt depth) stack s.blocks.size name v) t (o.map (placed env name))
      fun env' _ t' => Recording s t' env' := by
  rw [assignField_eq, bind_assoc]
  unfold toNode
  rw [bind_assoc]
  refine Realizes.ok_bind (yields_get.mpr ⟨rfl, rfl⟩) ?_
  -- The value is classified in whole or refused; only then are its bodies run.
  rcases hv.means name t hv.ready.toReady with ⟨n, m, hclassify, hdrew, hn⟩ | ⟨rfl, e, m, hclassify⟩
  · refine Realizes.ok_bind hclassify ?_
    have hm := hrec.drew hv.ready hdrew
    have hresolve := hn.resolve depth hn.depth stack m
    cases o with
    | none =>
        rcases hresolve with ⟨e, t', hresolve⟩
        exact Realizes.error_bind hresolve
    | some d =>
        rcases hresolve with ⟨w, t', hresolve, hw⟩
        refine Realizes.ok_bind hresolve ?_
        exact ⟨(), _, yields_modify.mpr ⟨rfl, rfl⟩, hm.assign name hw⟩
  · exact Realizes.error_bind hclassify

theorem assignedMeaning_some (env : Fields) (name : Name) (o : Meaning) :
    assignedMeaning env (some name) o = o.map (placed env name) := by
  cases o with
  | none => rfl
  | some d => rfl

/-- A path of attributes is read, unless one of them is private. -/
theorem realizes_refPath (first : Bool) (path : List String) (t : Session) :
    Realizes (refPath first path) t
      (if path.any isPrivate then none else some (path.map fieldName))
      fun names names' t' => names' = names ∧ t' = t := by
  induction path generalizing first with
  | nil => exact Realizes.pure ⟨rfl, rfl⟩
  | cons p rest ih =>
      rw [refPath, List.any_cons]
      -- The first private name ends the reading, whatever the rest has.
      by_cases hp : isPrivate p = true
      · simp only [hp, if_true, Bool.true_or]
        exact Realizes.error_bind (yields_throw.mpr ⟨rfl, rfl⟩)
      · have hrest := ih false
        simp only [hp, Bool.false_or, if_false, Bool.false_eq_true]
        by_cases hany : rest.any isPrivate = true
        · rw [if_pos hany] at hrest ⊢
          rcases hrest with ⟨e, t', hrest⟩
          exact Realizes.error_bind hrest
        · rw [if_neg hany] at hrest ⊢
          rcases hrest with ⟨names, t', hrest, rfl, rfl⟩
          exact Realizes.ok_bind hrest (Realizes.pure ⟨rfl, rfl⟩)

theorem realizes_setPath (hrec : Recording s t env) {path : List String} (hpath : path ≠ [])
    {o : Meaning} {v : Value} (hv : t.Offers s.drawn.size depth o v) (stack : BlockStack) :
    Realizes (setPath (Body.runAt depth) (s.blocks.size :: stack) path v) t
      (assignedMeaning env (attributeName path) o) fun env' _ t' => Recording s t' env' := by
  rcases List.eq_nil_or_concat path with rfl | ⟨init, last, rfl⟩
  · exact absurd rfl hpath
  · unfold setPath attributeName
    refine Realizes.ok_bind (yields_blockAt s.blocks.size stack t) ?_
    rw [List.concat_eq_append, List.dropLast_concat, List.getLast?_concat, List.any_append,
      List.map_append, Option.getD_some]
    -- All attributes but the last are looked up, the last is assigned.
    have hinit := realizes_refPath true init t
    by_cases hany : init.any isPrivate = true
    · rw [if_pos hany] at hinit
      rcases hinit with ⟨e, t', hinit⟩
      rw [hany, Bool.true_or]
      exact Realizes.error_bind hinit
    · rw [if_neg hany] at hinit
      rcases hinit with ⟨names, t', hinit, rfl, rfl⟩
      refine Realizes.ok_bind hinit ?_
      rw [Bool.not_eq_true] at hany
      rw [hany, Bool.false_or, List.any_cons, List.any_nil, Bool.or_false]
      by_cases hlast : isPrivate last = true
      · simp only [hlast, if_true]
        exact Realizes.error_bind (yields_throw.mpr ⟨rfl, rfl⟩)
      · simp only [hlast, if_false, Bool.false_eq_true]
        rw [assignedMeaning_some]
        exact realizes_assignField hrec hv _ _

/-! ## Calls -/

theorem Session.OffersCall.any_words {n : Nat} {os : List Meaning} {ks : List (String × Meaning)}
    {vs : List Value} {fs : List (String × Value)} (h : t.OffersCall n depth os ks vs fs)
    (words : List String) :
    (ks.any fun k => words.contains k.1) = (wordFields fs).names.any words.contains := by
  rcases h with ⟨-, hfs, -⟩
  rw [names_wordFields]
  induction hfs with
  | nil => rfl
  | cons hf _ ih => rw [List.any_cons, List.map_cons, List.any_cons, ih, hf.1]

theorem contains_eq_any (l : List String) (w : String) : l.contains w = l.any [w].contains := by
  rw [Bool.eq_iff_iff, List.contains_iff_mem, List.any_eq_true]
  simp only [List.contains_iff_mem, List.mem_singleton, exists_eq_right]

variable {vs : List Value} {os : List Meaning} {fs : List (String × Value)}
  {ks : List (String × Meaning)}

/-- A call assigns what its arguments make. -/
theorem realizes_assignCall (hrec : Recording s t env)
    (hcall : t.OffersCall s.drawn.size depth os ks vs fs) (stack : BlockStack) (name : Name) :
    Realizes (callValue vs (wordFields fs) >>=
        assignField (Body.runAt depth) stack s.blocks.size name) t
      (argumentMeaning os ks >>= assignedMeaning env (some name))
      fun env' _ t' => Recording s t' env' := by
  refine (realizes_callValue hcall).bind ?_
  rintro o v t' ⟨rfl, hv⟩
  rw [assignedMeaning_some]
  exact realizes_assignField hrec hv stack name

theorem realizes_callRef (hrec : Recording s t env)
    (hcall : t.OffersCall s.drawn.size depth os ks vs fs) (stack : BlockStack)
    {path : List String} (hpath : path ≠ []) (hpublic : path.any isPrivate = false)
    (first : Option Name) :
    Realizes (callRef (Body.runAt depth) stack s.blocks.size (path.map fieldName) vs
        (wordFields fs)) t
      (callMeaning env path first os ks) fun env' _ t' => Recording s t' env' := by
  have hempty : path.isEmpty = false := List.isEmpty_eq_false_iff.mpr hpath
  unfold callRef callMeaning attributeName
  rw [contains_eq_any, hcall.any_words, hcall.any_words, hempty, hpublic]
  simp only [Bool.false_eq_true, if_false]
  by_cases hself : (wordFields fs).names.any ["self"].contains = true
  · simp only [hself, if_true]
    exact Realizes.error_bind (yields_throw.mpr ⟨rfl, rfl⟩)
  · simp only [hself, if_false, Bool.false_eq_true]
    exact realizes_assignCall hrec hcall stack _

theorem realizes_callNamed (hrec : Recording s t env)
    (hcall : t.OffersCall s.drawn.size depth os ks vs fs) (stack : BlockStack) (v : Value) :
    Realizes (callNamed (Body.runAt depth) stack s.blocks.size v vs (wordFields fs)) t
      (argumentMeaning os ks >>= assignedMeaning env v.name?)
      fun env' _ t' => Recording s t' env' := by
  cases hname : v.name? with
  | some name =>
      rw [Value.eq_of_name? hname]
      exact realizes_assignCall hrec hcall stack name
  | none =>
      have hnothing : (argumentMeaning os ks >>= assignedMeaning env none) = none := by
        cases argumentMeaning os ks with
        | none => rfl
        | some o => rfl
      rw [hnothing]
      cases v with
      | scalar u =>
          cases u with
          | text text form => exact absurd hname (Option.some_ne_none _)
          | _ => exact Realizes.throw
      | _ => exact Realizes.throw

theorem realizes_callBlock (hrec : Recording s t env) {v : Value} {o : Meaning}
    (hcall : t.OffersCall s.drawn.size depth os ks vs fs) (stack : BlockStack) :
    Realizes (callBlock (Body.runAt depth) stack s.blocks.size (v :: vs) (wordFields fs)) t
      (callMeaning env [] v.name? (o :: os) ks) fun env' _ t' => Recording s t' env' := by
  unfold callBlock callMeaning
  rw [hcall.any_words, hcall.any_words]
  simp only [List.isEmpty_nil, List.isEmpty_cons, if_true, Bool.false_eq_true, if_false]
  -- A keyword that is a parameter of the call itself is refused.
  cases hfind : (wordFields fs).names.find? ["self", "name"].contains with
  | some word =>
      have hany : (wordFields fs).names.any ["self", "name"].contains = true :=
        List.any_eq_true.mpr ⟨word, List.mem_of_find?_eq_some hfind, List.find?_some hfind⟩
      rw [if_pos hany]
      exact Realizes.throw
  | none =>
      have hany : ¬ (wordFields fs).names.any ["self", "name"].contains = true := by
        rw [List.any_eq_true]
        rintro ⟨word, hword, hcontains⟩
        exact List.find?_eq_none.mp hfind word hword hcontains
      rw [if_neg hany]
      exact Realizes.ok_bind (yields_pure.mpr ⟨rfl, rfl⟩)
        (realizes_callNamed hrec hcall stack v)

/-- Nothing is assigned under a private name, whatever the arguments. -/
theorem callMeaning_private {path : List String} (hany : path.any isPrivate = true)
    (first : Option Name) (os : List Meaning) (ks : List (String × Meaning)) :
    callMeaning env path first os ks = none := by
  have hne : path ≠ [] := by
    rintro rfl
    exact absurd hany Bool.false_ne_true
  unfold callMeaning attributeName
  rw [List.isEmpty_eq_false_iff.mpr hne, hany]
  simp only [Bool.false_eq_true, if_false, if_true]
  split
  · rfl
  · cases argumentMeaning os ks with
    | none => rfl
    | some o => rfl

/-- Arguments and keywords that have been built one after the other. -/
theorem StandsAll.offersCall {m u : Session} {n : Nat} {keys : List (Option Scalar)}
    {words : List String}
    (hvs : StandsAll t depth keys os vs m) (hfs : StandsKeywords m depth words ks fs u)
    (hn : n ≤ t.drawn.size) : u.OffersCall n depth os ks vs fs := by
  have hmakes := hvs.makes.trans hfs.makes
  have hready := hmakes.readyFrom hn
  have hmeans := hfs.means
  rw [generatorsOfItems_eq, List.flatMap_map] at hready
  -- No block has changed meanwhile, so all of it is seen as it was at first.
  rw [hvs.makes.snapshot] at hready hmeans
  constructor
  case args =>
    rw [hmakes.snapshot]
    exact hvs.means
  case keywords =>
    rw [hmakes.snapshot]
    exact hmeans
  case ready =>
    rw [hmakes.snapshot]
    exact hready

/-- A call reads its path, builds its arguments and assigns what they make. -/
theorem realizes_callPath (hrec : Recording s t env) {path : List String} {args : List Expr}
    {keywords : List (String × Expr)} (hcall : isCall path args keywords = true)
    (stack : BlockStack)
    (hargs : Realizes (buildItems (s.blocks.size :: stack) args) t (itemsMeaning env args)
      (StandsAll t depth (args.map (Expr.key env))))
    (hkeywords : ∀ m, m.Sees (s.blocks.size :: stack) env →
      Realizes (buildFields (s.blocks.size :: stack) keywords) m (keywordsMeaning env keywords)
        (StandsKeywords m depth (keywords.map (·.1)))) :
    Realizes (callPath (Body.runAt depth) (s.blocks.size :: stack) path args keywords) t
      (do
        let ms ← itemsMeaning env args
        let ks ← keywordsMeaning env keywords
        callMeaning env path (args.head?.bind (·.name? env)) ms ks)
      fun env' _ t' => Recording s t' env' := by
  unfold callPath
  refine Realizes.ok_bind (yields_blockAt s.blocks.size stack t) ?_
  rw [isCall, Bool.and_eq_true, Bool.or_eq_true, decide_eq_true_eq] at hcall
  rcases hcall with ⟨hnamed, hnodup⟩
  have hpath := realizes_refPath true path t
  by_cases hany : path.any isPrivate = true
  · rw [if_pos hany] at hpath
    rcases hpath with ⟨e, t', hpath⟩
    simp only [callMeaning_private hany, Option.bind_eq_bind, Option.bind_fun_none]
    exact Realizes.error_bind hpath
  · rw [if_neg hany] at hpath
    rcases hpath with ⟨names, t', hpath, rfl, rfl⟩
    refine Realizes.ok_bind hpath ?_
    refine hargs.bind fun os vs m hvs => ?_
    refine (hkeywords m ((hrec.sees stack).makes hvs.makes)).bind fun ks fs u hfs => ?_
    have hcall := hvs.offersCall hfs hrec.drawsNew.known
    have hrec' := hrec.makes (hvs.makes.trans hfs.makes)
    rw [keywordFields_of_nodup (hfs.words ▸ hnodup), List.isEmpty_map]
    by_cases hempty : path = []
    · -- The block itself is called, so the first argument names the field.
      subst hempty
      have hkeys := hvs.keys
      cases args with
      | nil => exact absurd hnamed (by simp only [List.isEmpty_nil, Bool.not_true,
          Bool.false_eq_true, or_self, not_false_eq_true])
      | cons e rest =>
          rcases List.map_eq_cons_iff.mp hkeys with ⟨v, vs, rfl, hkey, -⟩
          have hname : (e :: rest).head?.bind (·.name? env) = v.name? := by
            rw [Value.name?, hkey]
            rfl
          have hcons := hcall.args
          cases hcons with
          | cons hv hvs =>
              rw [hname]
              exact realizes_callBlock hrec' hcall.tail _
    · rw [List.isEmpty_eq_false_iff.mpr hempty]
      simp only [Bool.false_eq_true, if_false]
      exact realizes_callRef hrec' hcall _ hempty (Bool.not_eq_true _ ▸ hany) _

end

end

end Docket
