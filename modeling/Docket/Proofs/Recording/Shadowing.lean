import Docket.Document
import Docket.Proofs.Recording.Forms

/-!
# Work on plain forms

A script in plain form does what the script itself does: wherever the one succeeds the
other does, what they come to is the same but for forms, and so is what they record.
Failures are worded differently, since a value is named by the type in which it was
offered, but nothing that is done depends on how a failure is worded.

`Shadows f p q` says that `q` does what `p` does, begun in sessions that have recorded
the same but for forms, and comes to `f` of what `p` comes to. It goes through
sequences, choices and handlers, so the theorem about documents is put together along
the structure of the recorder.

## Main definitions

* `Session.Bares`: Sessions that have recorded the same but for forms.
* `Shadows`: Work that does the same but for forms.

## Theorems

* `Shadows.bind`, `Shadows.map`, `Shadows.tryCatch`: Work in parts.
* `shadows_toNode`, `shadows_resolve`: Trees are made and resolved in plain form.
* `shadows_expr`, `shadows_nodeExpr`: So are values built.
* `shadows_stmt`, `shadows_runAt`: So are statements and bodies run.
* `shadows_toMap`, `shadows_toDocument`: So are documents made.
-/

namespace Docket

/-- A session that has recorded the same in plain form. What is only noted down may
    differ. -/
structure Session.Bares (s t : Session) : Prop where
  blocks : t.blocks = s.blocks.map Fields.bare
  drawn : t.drawn = s.drawn
  counters : t.counters = s.counters
  kept : t.kept = s.kept
  settings : t.settings = s.settings

/-- An outcome and the same under `f`. One failure is as good as another. -/
inductive Resembles {α β : Type} (f : α → β) : Except Failure α → Except Failure β → Prop
  | ok (a : α) : Resembles f (.ok a) (.ok (f a))
  | error (e e' : Failure) : Resembles f (.error e) (.error e')

/-- Work that does in plain form what other work does, and comes to `f` of it. -/
def Shadows {α β : Type} (f : α → β) (p : Run α) (q : Run β) : Prop :=
  ∀ s t, s.Bares t → ∀ r s', Yields p s r s' →
    ∃ r' t', Yields q t r' t' ∧ Resembles f r r' ∧ s'.Bares t'

theorem Resembles.eq_ok {α β : Type} {f : α → β} {a : α} {y : Except Failure β}
    (h : Resembles f (.ok a) y) : y = .ok (f a) := by
  cases h
  rfl

theorem Resembles.exists_ok {α β : Type} {f : α → β} {x : Except Failure α} {b : β}
    (h : Resembles f x (.ok b)) : ∃ a, x = .ok a ∧ b = f a := by
  cases h with
  | ok a => exact ⟨a, rfl, rfl⟩

theorem Session.bares_bare (s : Session) : s.Bares s.bare := ⟨rfl, rfl, rfl, rfl, rfl⟩

namespace Session.Bares

variable {s t : Session}

theorem fields (h : s.Bares t) (id : Nat) : t.fields id = (s.fields id).bare := by
  unfold Session.fields
  rw [h.blocks, Array.getElem?_map]
  cases s.blocks[id]? with
  | none => rfl
  | some fs => rfl

/-- Values are written out in plain form. -/
theorem snapshot (h : s.Bares t) (v : Value) : t.snapshot v.bare = (s.snapshot v).bare := by
  unfold Session.snapshot
  rw [Value.expand_bare, h.blocks, Array.size_map]

end Session.Bares

/-! ## Work in parts -/

namespace Shadows

variable {α β γ δ : Type} {f : α → β} {g : γ → δ} {p : Run α} {q : Run β}

theorem pure {a : α} {b : β} (h : b = f a) :
    Shadows f (Pure.pure a : Run α) (Pure.pure b : Run β) := by
  intro s t hst r s' hp
  rcases yields_pure.mp hp with ⟨rfl, rfl⟩
  exact ⟨_, t, yields_pure.mpr ⟨rfl, rfl⟩, h ▸ .ok a, hst⟩

theorem throw (e e' : Failure) :
    Shadows f (MonadExcept.throw e : Run α) (MonadExcept.throw e' : Run β) := by
  intro s t hst r s' hp
  rcases yields_throw.mp hp with ⟨rfl, rfl⟩
  exact ⟨_, t, yields_throw.mpr ⟨rfl, rfl⟩, .error e e', hst⟩

/-- Work in two parts. -/
theorem bind {k : α → Run γ} {k' : β → Run δ} (hp : Shadows f p q)
    (hk : ∀ a, Shadows g (k a) (k' (f a))) : Shadows g (p >>= k) (q >>= k') := by
  intro s t hst r s' h
  rcases yields_bind.mp h with ⟨a, m, h₁, h₂⟩ | ⟨e, h₁, rfl⟩
  · rcases hp s t hst _ m h₁ with ⟨r₁, m', h₁', ⟨⟩, hm⟩
    rcases hk a m m' hm r s' h₂ with ⟨r', t', h₂', hr, ht'⟩
    exact ⟨r', t', (yields_bind_ok h₁').mpr h₂', hr, ht'⟩
  · rcases hp s t hst _ s' h₁ with ⟨r₁, t', h₁', ⟨⟩, ht'⟩
    exact ⟨_, t', (yields_bind_error h₁').mpr ⟨rfl, rfl⟩, .error _ _, ht'⟩

/-- Work whose result is only put to use. -/
theorem map {k : α → γ} {k' : β → δ} (hp : Shadows f p q) (hk : ∀ a, k' (f a) = g (k a)) :
    Shadows g (do return k (← p)) (do return k' (← q)) :=
  hp.bind fun a => .pure (hk a)

/-- After a failure nothing is done. -/
theorem throw_bind {k : α → Run γ} {k' : β → Run δ} (e e' : Failure) :
    Shadows g ((MonadExcept.throw e : Run α) >>= k) ((MonadExcept.throw e' : Run β) >>= k') := by
  intro s t hst r s' h
  rw [yields_bind_error (yields_throw.mpr ⟨rfl, rfl⟩)] at h
  rcases h with ⟨rfl, rfl⟩
  exact ⟨_, t, (yields_bind_error (yields_throw.mpr ⟨rfl, rfl⟩)).mpr ⟨rfl, rfl⟩, .error e e', hst⟩

theorem tryCatch {handle : Failure → Run α} {handle' : Failure → Run β} (hp : Shadows f p q)
    (hhandle : ∀ e e', Shadows f (handle e) (handle' e')) :
    Shadows f (MonadExcept.tryCatch p handle) (MonadExcept.tryCatch q handle') := by
  intro s t hst r s' h
  rcases yields_tryCatch.mp h with ⟨a, h₁, rfl⟩ | ⟨e, m, h₁, h₂⟩
  · rcases hp s t hst _ s' h₁ with ⟨r₁, t', h₁', ⟨⟩, ht'⟩
    exact ⟨_, t', yields_tryCatch.mpr (Or.inl ⟨_, h₁', rfl⟩), .ok a, ht'⟩
  · rcases hp s t hst _ m h₁ with ⟨r₁, m', h₁', hr, hm⟩
    cases hr with
    | error e e' =>
      rcases hhandle e e' m m' hm r s' h₂ with ⟨r', t', h₂', hr, ht'⟩
      exact ⟨r', t', yields_tryCatch.mpr (Or.inr ⟨e', m', h₁', h₂'⟩), hr, ht'⟩

/-- Work that rests on the session as it is. -/
theorem get {k : Session → Run γ} {k' : Session → Run δ}
    (h : ∀ s t, s.Bares t → Shadows g (k s) (k' t)) :
    Shadows g (do k (← MonadState.get)) (do k' (← MonadState.get)) := by
  intro s t hst r s' hp
  rw [yields_bind_ok (yields_get.mpr ⟨rfl, rfl⟩)] at hp
  rcases h s t hst s t hst r s' hp with ⟨r', t', hq, hr, ht'⟩
  exact ⟨r', t', (yields_bind_ok (yields_get.mpr ⟨rfl, rfl⟩)).mpr hq, hr, ht'⟩

theorem put {s t : Session} (h : s.Bares t) :
    Shadows id (MonadStateOf.set s : Run PUnit) (MonadStateOf.set t : Run PUnit) := by
  intro _ _ _ r s' hp
  rcases yields_set.mp hp with ⟨rfl, rfl⟩
  exact ⟨_, t, yields_set.mpr ⟨rfl, rfl⟩, .ok _, h⟩

theorem change {f f' : Session → Session} (h : ∀ s t, s.Bares t → (f s).Bares (f' t)) :
    Shadows id (modify f : Run PUnit) (modify f' : Run PUnit) := by
  intro s t hst r s' hp
  rcases yields_modify.mp hp with ⟨rfl, rfl⟩
  exact ⟨_, _, yields_modify.mpr ⟨rfl, rfl⟩, .ok _, h s t hst⟩

theorem ofExcept {x : Except Failure α} {y : Except Failure β} (h : Resembles f x y) :
    Shadows f (MonadExcept.ofExcept x : Run α) (MonadExcept.ofExcept y : Run β) := by
  intro s t hst r s' hp
  rcases yields_ofExcept.mp hp with ⟨rfl, rfl⟩
  exact ⟨y, t, yields_ofExcept.mpr ⟨rfl, rfl⟩, h, hst⟩

theorem ite {p' : Run α} {q' : Run β} {c : Prop} [Decidable c] (hp : c → Shadows f p q)
    (hp' : ¬ c → Shadows f p' q') : Shadows f (if c then p else p') (if c then q else q') := by
  by_cases h : c
  · rw [if_pos h, if_pos h]
    exact hp h
  · rw [if_neg h, if_neg h]
    exact hp' h

end Shadows

section

variable {α β : Type} {f : α → β} {p : Run α} {q : Run β} {s t : Session}

/-- What succeeds does so in plain form. -/
theorem Shadows.ok (h : Shadows f p q) (hst : s.Bares t) {a : α} {s' : Session}
    (hp : Yields p s (.ok a) s') : ∃ t', Yields q t (.ok (f a)) t' ∧ s'.Bares t' := by
  rcases h s t hst _ s' hp with ⟨r', t', hq, hr, ht'⟩
  exact ⟨t', hr.eq_ok ▸ hq, ht'⟩

/-- What succeeds in plain form does so in any other. -/
theorem Shadows.reflects (h : Shadows f p q) (hst : s.Bares t) {b : β} {t' : Session}
    (hq : Yields q t (.ok b) t') :
    ∃ a s', Yields p s (.ok a) s' ∧ b = f a ∧ s'.Bares t' := by
  have hp := yields_run p s
  rcases h s t hst _ _ hp with ⟨r', t'', hq', hr, ht'⟩
  rcases yields_unique hq hq' with ⟨rfl, rfl⟩
  rcases hr.exists_ok with ⟨a, ha, hb⟩
  exact ⟨a, _, ha ▸ hp, hb, ht'⟩

end

/-! ## Operations on sessions -/

theorem shadows_blockAt (stack : BlockStack) (up : Nat) :
    Shadows id (blockAt stack up) (blockAt stack up) := by
  unfold blockAt
  cases stack[up]? with
  | some i => exact .pure rfl
  | none => exact .throw _ _

theorem shadows_fieldsOf (i : Nat) : Shadows Fields.bare (Run.fieldsOf i) (Run.fieldsOf i) :=
  Shadows.get fun _ _ hst => .pure (hst.fields i)

theorem shadows_newBlock : Shadows id Run.newBlock Run.newBlock := by
  refine Shadows.get fun s t hst => Shadows.bind
    (Shadows.put ⟨?_, hst.drawn, hst.counters, hst.kept, hst.settings⟩) fun _ => .pure ?_
  · rw [hst.blocks, Array.map_push]
    rfl
  · rw [hst.blocks, Array.size_map]
    rfl

/-- A field is assigned in plain form. -/
theorem shadows_assign (i : Nat) (name : Name) (v : Value) :
    Shadows id (Run.assign i name v) (Run.assign i name.bare v.bare) := by
  refine Shadows.change fun s t hst => ⟨?_, hst.drawn, hst.counters, hst.kept, hst.settings⟩
  rw [hst.blocks]
  refine Array.ext_getElem? fun j => ?_
  rw [Array.getElem?_modify, Array.getElem?_map, Array.getElem?_map, Array.getElem?_modify]
  by_cases hj : i = j
  · rw [if_pos hj, if_pos hj, Option.map_map, Option.map_map]
    exact congrArg (Option.map · s.blocks[j]?) (funext fun fs => (fs.bare_set name v).symm)
  · rw [if_neg hj, if_neg hj]

theorem shadows_newGenerator : Shadows id Run.newGenerator Run.newGenerator :=
  Shadows.get fun _ _ hst => Shadows.bind
    (Shadows.put ⟨hst.blocks, congrArg (·.push 0) hst.drawn, hst.counters, hst.kept, hst.settings⟩)
    fun _ => .pure (congrArg Array.size hst.drawn)

theorem shadows_drawnOf (i : Nat) : Shadows id (Run.drawnOf i) (Run.drawnOf i) :=
  Shadows.get fun _ _ hst => .pure (by rw [hst.drawn]; rfl)

theorem shadows_setDrawn (i n : Nat) : Shadows id (Run.setDrawn i n) (Run.setDrawn i n) :=
  Shadows.change fun _ _ hst => ⟨hst.blocks, congrArg (·.modify i fun _ => n) hst.drawn,
    hst.counters, hst.kept, hst.settings⟩

theorem shadows_count (name : String) : Shadows id (Run.count name) (Run.count name) := by
  refine Shadows.get fun s t hst => ?_
  rw [hst.counters]
  exact Shadows.bind (Shadows.put ⟨hst.blocks, hst.drawn, rfl, hst.kept, hst.settings⟩)
    fun _ => .pure rfl

theorem shadows_keep (key : String) (i : Nat) : Shadows id (Run.keep key i) (Run.keep key i) :=
  Shadows.change fun _ _ hst => ⟨hst.blocks, hst.drawn, hst.counters,
    congrArg (fun kept => (key, i) :: kept.filter (·.1 != key)) hst.kept, hst.settings⟩

theorem shadows_keptBlock (key : String) : Shadows id (Run.keptBlock key) (Run.keptBlock key) := by
  refine Shadows.get fun s t hst => ?_
  rw [hst.kept]
  cases s.kept.find? (·.1 == key) with
  | some k => exact .pure rfl
  | none => exact .throw _ _

/-- What is noted down is of no consequence. -/
theorem shadows_trace (label label' : String) (v w : Value) :
    Shadows id (Run.trace label v) (Run.trace label' w) :=
  Shadows.change fun _ _ hst => ⟨hst.blocks, hst.drawn, hst.counters, hst.kept, hst.settings⟩

theorem shadows_traceAttempt (o o' : Option Failure) :
    Shadows id (Run.traceAttempt o) (Run.traceAttempt o') :=
  Shadows.change fun _ _ hst => ⟨hst.blocks, hst.drawn, hst.counters, hst.kept, hst.settings⟩

theorem shadows_noteLeaf (v w : Value) : Shadows id (Run.noteLeaf v) (Run.noteLeaf w) :=
  Shadows.change fun _ _ hst => ⟨hst.blocks, hst.drawn, hst.counters, hst.kept, hst.settings⟩

/-! ## Trees -/

/-- Integers of a range are in plain form. -/
theorem bareNodes_ofInt (ns : List Int) : bareNodes (ns.map .ofInt) = ns.map .ofInt := by
  induction ns with
  | nil => rfl
  | cons n rest ih => rw [List.map_cons, bareNodes, ih]; rfl

mutual

/-- The tree of a value in plain form, at whatever place. -/
theorem shadows_classify : (v : Value) → (path path' : Name) →
    Shadows Node.bare (v.classify path) (v.bare.classify path')
  | .scalar s, path, path' => by
    cases s with
    | float x form =>
        exact Shadows.ite (fun _ => .pure rfl) fun _ => .throw _ _
    | _ => exact .pure rfl
  | .node n, _, _ => .pure rfl
  | .block _, _, _ => .throw _ _
  | .fieldRef .., _, _ => .throw _ _
  | .mapping _ entries, path, path' => (shadows_classifyEntries entries path path').map fun _ => rfl
  | .alien a, _, _ => by cases a <;> exact .throw _ _
  | .body _, _, _ => .pure rfl
  | .bodyItems .., _, _ => .pure rfl
  | .items _ xs, path, path' => (shadows_classifyItems xs path path' 0).map fun _ => rfl
  | .range start stop step, _, _ =>
    .pure (congrArg Node.seq (bareNodes_ofInt (rangeItems start stop step)).symm)
  | .encodings, _, _ => .pure rfl
  | .generator i xs ending, path, path' => by
    refine (shadows_drawnOf i).bind fun drawn => ?_
    refine (shadows_drawItems xs path path' i drawn 0 0).bind fun nodes => ?_
    -- It is exhausted after as many items in either form.
    cases ending with
    | none => exact .pure rfl
    | some e =>
        simp only [id, length_bareItems]
        refine Shadows.ite (fun _ => ?_) fun _ => .pure rfl
        exact (shadows_setDrawn i _).bind fun _ => .throw _ _
  | .live _, _, _ => .throw _ _
  | .failure _, _, _ => .throw _ _
  | .tag .., _, _ => .throw _ _

theorem shadows_classifyItems : (xs : List Value) → (path path' : Name) → (i : Nat) →
    Shadows bareNodes (classifyItems path i xs) (classifyItems path' i (bareItems xs))
  | [], _, _, _ => .pure rfl
  | v :: rest, path, path', i =>
    (shadows_classify v (itemPath path i) (itemPath path' i)).bind fun _ =>
      (shadows_classifyItems rest path path' (i + 1)).map fun _ => rfl

theorem shadows_classifyEntries : (entries : List (Value × Value)) → (path path' : Name) →
    Shadows bareNodeEntries (classifyEntries path entries)
      (classifyEntries path' (bareEntries entries))
  | [], _, _ => .pure rfl
  | (k, v) :: rest, path, path' => by
    have htext : ∀ name form, k = .scalar (.text name form) →
        Shadows bareNodeEntries (classifyEntries path ((k, v) :: rest))
          (classifyEntries path' (bareEntries ((k, v) :: rest))) := by
      rintro name form rfl
      exact (shadows_classify v _ _).bind fun _ =>
        (shadows_classifyEntries rest path path').map fun _ => rfl
    -- A key that is no text is refused in both, whatever form it has.
    cases k with
    | scalar s =>
        cases s with
        | text name form => exact htext name form rfl
        | _ => exact .throw _ _
    | _ => exact .throw _ _

theorem shadows_drawItems : (xs : List Value) → (path path' : Name) → (id drawn pos i : Nat) →
    Shadows bareNodes (drawItems path id drawn pos i xs)
      (drawItems path' id drawn pos i (bareItems xs))
  | [], _, _, _, _, _, _ => .pure rfl
  | v :: rest, path, path', id, drawn, pos, i => by
    refine Shadows.ite (fun _ => shadows_drawItems rest path path' id drawn (pos + 1) i) fun _ => ?_
    refine (shadows_setDrawn id (pos + 1)).bind fun _ => ?_
    exact (shadows_classify v (itemPath path i) (itemPath path' i)).bind fun _ =>
      (shadows_drawItems rest path path' id drawn (pos + 1) (i + 1)).map fun _ => rfl

end

theorem shadows_toNode (v : Value) (path path' : Name) :
    Shadows Node.bare (toNode v path) (toNode v.bare path') :=
  Shadows.get fun s t hst => by
    rw [hst.snapshot]
    exact shadows_classify (s.snapshot v) path path'

/-- A way of running bodies and one that does the same in plain form. -/
def RunsAlike (run run' : BodyRunner) : Prop :=
  ∀ stack b, Shadows Value.bare (run stack b) (run' stack b.bare)

section

variable {run run' : BodyRunner}

mutual

/-- The data of a tree in plain form. -/
theorem shadows_resolve (hrun : RunsAlike run run') (stack : BlockStack) : (n : Node) →
    Shadows Value.bare (n.resolve (run stack)) (n.bare.resolve (run' stack))
  | .scalar _ _ => .pure rfl
  | .seq items => (shadows_resolveItems hrun stack items).map fun _ => rfl
  | .mapping entries => (shadows_resolveEntries hrun stack entries []).map fun fs =>
    fs.toValue_bare.symm
  | .nested b => hrun stack b
  | .raw _ => .throw _ _

theorem shadows_resolveItems (hrun : RunsAlike run run') (stack : BlockStack) :
    (nodes : List Node) →
      Shadows bareItems (resolveItems (run stack) nodes)
        (resolveItems (run' stack) (bareNodes nodes))
  | [] => .pure rfl
  | n :: rest => (shadows_resolve hrun stack n).bind fun _ =>
    (shadows_resolveItems hrun stack rest).map fun _ => rfl

theorem shadows_resolveEntries (hrun : RunsAlike run run') (stack : BlockStack) :
    (entries : List (Name × Node)) → (done : Fields) →
      Shadows Fields.bare (resolveEntries (run stack) done entries)
        (resolveEntries (run' stack) done.bare (bareNodeEntries entries))
  | [], _ => .pure rfl
  | (name, n) :: rest, done => by
    refine (shadows_resolve hrun stack n).bind fun v => ?_
    rw [← Fields.bare_set]
    exact shadows_resolveEntries hrun stack rest (done.set name v)

end

end

/-! ## Values -/

theorem shadows_refPath (first : Bool) (path : List String) :
    Shadows id (refPath first path) (refPath first path) := by
  induction path generalizing first with
  | nil => exact .pure rfl
  | cons p rest ih =>
      rw [refPath]
      cases hp : isPrivate p with
      | true => exact .throw_bind _ _
      | false => exact (ih false).map fun _ => rfl

theorem shadows_dictEntries (pairs : List (Value × Value)) :
    Shadows bareEntries (dictEntries pairs) (dictEntries (bareEntries pairs)) := by
  unfold dictEntries
  change Shadows bareEntries (List.foldlM _ [] pairs)
    (List.foldlM _ (bareEntries []) (bareEntries pairs))
  generalize ([] : List (Value × Value)) = done
  induction pairs generalizing done with
  | nil => exact .pure rfl
  | cons p rest ih =>
      rw [bareEntries, List.foldlM_cons, List.foldlM_cons, p.1.unhashable?_bare]
      cases p.1.unhashable? with
      | some t => exact .throw_bind _ _
      | none => exact Shadows.bind (.pure (setEntry_bare done p.1 p.2).symm) ih

/-- Keywords with values in plain form. -/
def bareNamed (named : List (String × Value)) : List (String × Value) :=
  named.map fun k => (k.1, k.2.bare)

theorem keywordFields_bare (named : List (String × Value)) :
    keywordFields (bareNamed named) = (keywordFields named).bare := by
  have hfold : ∀ fs : Fields,
      (bareNamed named).foldl (fun fs k => fs.set (.ofText k.1) k.2) fs.bare =
        Fields.bare (named.foldl (fun fs k => fs.set (.ofText k.1) k.2) fs) := by
    induction named with
    | nil => exact fun fs => rfl
    | cons k rest ih =>
        intro fs
        have hstep := ih (fs.set (.ofText k.1) k.2)
        rw [Fields.bare_set] at hstep
        exact hstep
  exact hfold []

/-- The fields of a mapping node become nodes one after another. -/
theorem shadows_fieldNodes (fs : Fields) :
    Shadows bareNodeEntries (fs.mapM fun f => return (f.1, ← toNode f.2 f.1))
      (fs.bare.mapM fun f => return (f.1, ← toNode f.2 f.1)) := by
  induction fs with
  | nil => exact .pure rfl
  | cons f rest ih =>
      have hcons : Fields.bare (f :: rest) = (f.1.bare, f.2.bare) :: Fields.bare rest := rfl
      rw [hcons, List.mapM_cons, List.mapM_cons]
      refine Shadows.bind (f := fun e : Name × Node => (e.1.bare, e.2.bare))
        ((shadows_toNode f.2 f.1 f.1.bare).map fun _ => rfl) fun e => ?_
      exact ih.map fun _ => rfl

mutual

/-- Values are built in plain form. -/
theorem shadows_expr (stack : BlockStack) : (e : Expr) →
    Shadows Value.bare (e.build stack) (e.bare.build stack)
  | .scalar _ => .pure rfl
  | .alien _ => .pure rfl
  | .range .. => .pure rfl
  | .encodings => .pure rfl
  | .items _ xs => (shadows_items stack xs).map fun _ => rfl
  | .mapping kind entries => by
    rw [Expr.bare, Expr.build, Expr.build]
    refine (shadows_entries stack entries).bind fun pairs => ?_
    cases kind with
    | pairs => exact .pure rfl
    | _ => exact (shadows_dictEntries pairs).map fun _ => rfl
  | .generator xs _ => (shadows_items stack xs).bind fun _ => shadows_newGenerator.map fun _ => rfl
  | .body _ => .pure rfl
  | .bodyItems _ xs => (shadows_items stack xs).map fun _ => rfl
  | .error _ => .pure rfl
  | .node n => by
    rw [Expr.bare, Expr.build, Expr.build]
    refine (shadows_nodeExpr stack n).bind fun n => ?_
    cases n <;> exact .pure rfl
  | .counter name => (shadows_count name).map fun _ => rfl
  | .read name up => by
    -- A name is in plain form, and the field it finds is that of the other session in plain form.
    change Shadows Value.bare ((Expr.read name up).build stack) ((Expr.read name up).build stack)
    rw [Expr.build]
    refine (shadows_blockAt stack up).bind fun i => (shadows_fieldsOf i).bind fun fs => ?_
    rw [Fields.get?_bare]
    cases fs.get? name with
    | some v => exact .pure rfl
    | none => exact .throw _ _
  | .ref path up => (shadows_blockAt stack up).bind fun _ =>
    (shadows_refPath true path).map fun _ => rfl
  | .self up => (shadows_blockAt stack up).map fun _ => rfl

theorem shadows_items (stack : BlockStack) : (es : List Expr) →
    Shadows bareItems (buildItems stack es) (buildItems stack (bareExprs es))
  | [] => .pure rfl
  | e :: rest => (shadows_expr stack e).bind fun _ => (shadows_items stack rest).map fun _ => rfl

theorem shadows_entries (stack : BlockStack) : (entries : List (Expr × Expr)) →
    Shadows bareEntries (buildEntries stack entries) (buildEntries stack (barePairs entries))
  | [] => .pure rfl
  | (k, e) :: rest => (shadows_expr stack k).bind fun _ => (shadows_expr stack e).bind fun _ =>
    (shadows_entries stack rest).map fun _ => rfl

theorem shadows_fields (stack : BlockStack) : (fields : List (String × Expr)) →
    Shadows bareNamed (buildFields stack fields) (buildFields stack (bareKeywords fields))
  | [] => .pure rfl
  | (_, e) :: rest => (shadows_expr stack e).bind fun _ =>
    (shadows_fields stack rest).map fun _ => rfl

/-- Nodes are written by hand in plain form. -/
theorem shadows_nodeExpr (stack : BlockStack) : (n : NodeExpr) →
    Shadows Node.bare (n.build stack) (n.bare.build stack)
  | .scalar v kind => (shadows_expr stack v).bind fun w =>
    (shadows_noteLeaf w w.bare).bind fun _ => .pure rfl
  | .seq items => (shadows_nodes stack items).map fun _ => rfl
  | .mapping entries => (shadows_nodeEntries stack entries).map fun _ => rfl
  | .nested _ => .pure rfl
  | .ofFields fields => by
    rw [NodeExpr.bare, NodeExpr.build, NodeExpr.build]
    refine (shadows_fields stack fields).bind fun named => ?_
    simp only [keywordFields_bare, Fields.names_bare]
    cases (keywordFields named).names.contains "cls" with
    | true => exact .throw_bind _ _
    | false => exact (shadows_fieldNodes _).map fun _ => rfl
  | .raw v => by
    rw [NodeExpr.bare, NodeExpr.build, NodeExpr.build]
    refine (shadows_expr stack v).bind fun v => ?_
    cases v <;> exact .pure rfl

theorem shadows_nodes (stack : BlockStack) : (ns : List NodeExpr) →
    Shadows bareNodes (buildNodes stack ns) (buildNodes stack (bareNodeExprs ns))
  | [] => .pure rfl
  | n :: rest => (shadows_nodeExpr stack n).bind fun _ =>
    (shadows_nodes stack rest).map fun _ => rfl

theorem shadows_nodeEntries (stack : BlockStack) : (entries : List (String × NodeExpr)) →
    Shadows bareNodeEntries (buildNodeEntries stack entries)
      (buildNodeEntries stack (bareNodePairs entries))
  | [] => .pure rfl
  | (_, n) :: rest => (shadows_nodeExpr stack n).bind fun _ =>
    (shadows_nodeEntries stack rest).map fun _ => rfl

end

/-! ## Statements and bodies -/

section

variable {run run' : BodyRunner}

theorem shadows_assignField (hrun : RunsAlike run run') (stack : BlockStack) (i : Nat)
    (name : Name) (v : Value) :
    Shadows id (assignField run stack i name v) (assignField run' stack i name.bare v.bare) :=
  (shadows_toNode v name name.bare).bind fun n =>
    (shadows_resolve hrun stack n).bind fun data => shadows_assign i name data

theorem shadows_callValue (args : List Value) (keywords : Fields) :
    Shadows Value.bare (callValue args keywords) (callValue (bareItems args) keywords.bare) := by
  have hnamed : (Fields.bare keywords).map (fun f => (fieldName f.1.text, f.2)) =
      bareNamed (keywords.map fun f => (fieldName f.1.text, f.2)) := by
    unfold Fields.bare bareNamed
    rw [List.map_map, List.map_map]
    rfl
  match args, keywords with
  | [], fs =>
      refine .pure ?_
      rw [hnamed, keywordFields_bare, Fields.toValue_bare]
  | [_], [] => exact .pure rfl
  | _ :: _ :: _, [] => exact .pure rfl
  | [_], _ :: _ => exact .throw _ _
  | _ :: _ :: _, _ :: _ => exact .throw _ _

theorem shadows_callRef (hrun : RunsAlike run run') (stack : BlockStack) (i : Nat)
    (path : List String) (args : List Value) (keywords : Fields) :
    Shadows id (callRef run stack i path args keywords)
      (callRef run' stack i path (bareItems args) keywords.bare) := by
  unfold callRef
  rw [Fields.names_bare]
  cases keywords.names.contains "self" with
  | true => exact .throw_bind _ _
  | false =>
      exact (shadows_callValue args keywords).bind fun v =>
        shadows_assignField hrun stack i (.ofText (dotted path)) v

/-- A name and the arguments after it, in plain form. -/
def bareCall (c : Value × List Value) : Value × List Value := (c.1.bare, bareItems c.2)

theorem shadows_calledName (args : List Value) (keywords : Fields) :
    Shadows bareCall (calledName args keywords) (calledName (bareItems args) keywords.bare) := by
  unfold calledName
  rw [Fields.get?_bare]
  match args with
  | _ :: _ => exact .pure rfl
  | [] =>
      cases keywords.get? "name" with
      | some v => exact .pure rfl
      | none => exact .throw _ _

theorem shadows_callNamed (hrun : RunsAlike run run') (stack : BlockStack) (i : Nat)
    (name : Value) (args : List Value) (keywords : Fields) :
    Shadows id (callNamed run stack i name args keywords)
      (callNamed run' stack i name.bare (bareItems args) keywords.bare) := by
  have htext : ∀ t form, name = .scalar (.text t form) →
      Shadows id (callNamed run stack i name args keywords)
        (callNamed run' stack i name.bare (bareItems args) keywords.bare) := by
    rintro t form rfl
    exact (shadows_callValue args keywords).bind fun v =>
      shadows_assignField hrun stack i ⟨t, form⟩ v
  cases name with
  | scalar s =>
      cases s with
      | text t form => exact htext t form rfl
      | _ => exact .throw _ _
  | _ => exact .throw _ _

theorem shadows_callBlock (hrun : RunsAlike run run') (stack : BlockStack) (i : Nat)
    (args : List Value) (keywords : Fields) :
    Shadows id (callBlock run stack i args keywords)
      (callBlock run' stack i (bareItems args) keywords.bare) := by
  have hempty : (bareItems args).isEmpty = args.isEmpty := by cases args <;> rfl
  -- Dropping the forms keeps all names, so the same keywords are left.
  have hkept : (if args.isEmpty then keywords.bare.filter (·.1.text != "name") else keywords.bare) =
      Fields.bare (if args.isEmpty then keywords.filter (·.1.text != "name") else keywords) := by
    cases args.isEmpty with
    | true => exact List.filter_map
    | false => rfl
  unfold callBlock
  simp only [Fields.names_bare, hempty, hkept]
  cases keywords.names.find? (if args.isEmpty then ["self"] else ["self", "name"]).contains with
  | some word => exact .throw _ _
  | none =>
      exact (shadows_calledName args keywords).bind fun c =>
        shadows_callNamed hrun stack i c.1 c.2 _

theorem shadows_callPath (hrun : RunsAlike run run') (stack : BlockStack) (path : List String)
    (args : List Expr) (keywords : List (String × Expr)) :
    Shadows id (callPath run stack path args keywords)
      (callPath run' stack path (bareExprs args) (bareKeywords keywords)) := by
  unfold callPath
  refine (shadows_blockAt stack 0).bind fun i => (shadows_refPath true path).bind fun names =>
    (shadows_items stack args).bind fun vs => (shadows_fields stack keywords).bind fun named => ?_
  rw [keywordFields_bare]
  exact Shadows.ite (fun _ => shadows_callBlock hrun stack i vs _)
    fun _ => shadows_callRef hrun stack i names vs _

theorem shadows_setPath (hrun : RunsAlike run run') (stack : BlockStack) (path : List String)
    (v : Value) : Shadows id (setPath run stack path v) (setPath run' stack path v.bare) := by
  unfold setPath
  refine (shadows_blockAt stack 0).bind fun i =>
    (shadows_refPath true path.dropLast).bind fun names => ?_
  cases isPrivate (path.getLast?.getD "") with
  | true => exact .throw_bind _ _
  | false => exact shadows_assignField hrun stack i _ v

theorem shadows_lookUp (i : Nat) (key : Value) :
    Shadows (Option.map Value.bare) (lookUp i key) (lookUp i key.bare) := by
  unfold lookUp
  rw [key.unhashable?_bare]
  cases key.unhashable? with
  | some t => exact .throw_bind _ _
  | none =>
      cases key with
      | scalar s =>
          cases s with
          | text t form => exact (shadows_fieldsOf i).map fun fs => fs.get?_bare t
          | _ => exact .pure rfl
      | _ => exact .pure rfl

/-- A key that was not found is shown, and that is all. -/
theorem shadows_notFound (key : Value) :
    Shadows id (do throw (.foreign "KeyError" (← displayKey key) none) : Run Unit)
      (do throw (.foreign "KeyError" (← displayKey key.bare) none) : Run Unit) := by
  cases key with
  | block i =>
      refine ((shadows_fieldsOf i).map (g := id) fun fs => ?_).bind fun _ => .throw _ _
      unfold displayBlock
      rw [fs.names_bare]
      rfl
  | _ => exact Shadows.bind (f := fun _ => _) (.pure rfl) fun _ => .throw _ _

/-- What is caught is only noted down. -/
theorem shadows_caught {p q : Run Unit} (hp : Shadows id p q) :
    Shadows id
      (do Run.traceAttempt (← tryCatch (p *> pure none) fun e => pure (some e)))
      (do Run.traceAttempt (← tryCatch (q *> pure none) fun e => pure (some e))) := by
  have hdone : Shadows (id : Option Failure → _) (p *> pure none) (q *> pure none) :=
    hp.bind fun _ => .pure rfl
  intro s t hst r s' h
  rcases yields_bind.mp h with ⟨o, m, h₁, h₂⟩ | ⟨e, h₁, -⟩
  · -- Whether it fails or not, another note is made.
    have hsame : ∃ o' m', Yields
        (tryCatch (q *> pure none) fun e => pure (some e) : Run (Option Failure)) t (.ok o') m' ∧
          m.Bares m' := by
      rcases yields_tryCatch.mp h₁ with ⟨a, hok, -⟩ | ⟨e, m₁, hfail, hcaught⟩
      · rcases hdone s t hst _ m hok with ⟨r', m', hok', ⟨⟩, hm⟩
        exact ⟨_, m', yields_tryCatch.mpr (Or.inl ⟨_, hok', rfl⟩), hm⟩
      · rcases hdone s t hst _ m₁ hfail with ⟨r', m', hfail', hr, hm⟩
        cases hr with
        | error e e' =>
          rw [← (yields_pure.mp hcaught).2] at hm
          exact ⟨some e', m', yields_tryCatch.mpr
            (Or.inr ⟨e', m', hfail', yields_pure.mpr ⟨rfl, rfl⟩⟩), hm⟩
    rcases hsame with ⟨o', m', h₁', hm⟩
    rcases shadows_traceAttempt o o' m m' hm r s' h₂ with ⟨r', t', h₂', hr, ht'⟩
    exact ⟨r', t', (yields_bind_ok h₁').mpr h₂', hr, ht'⟩
  · rcases yields_tryCatch.mp h₁ with ⟨a, -, hok⟩ | ⟨e', m, -, hcaught⟩
    · exact absurd hok error_ne_ok
    · exact absurd (yields_pure.mp hcaught).1 error_ne_ok

mutual

/-- A statement in plain form does what the statement does. -/
theorem shadows_stmt (hrun : RunsAlike run run') : (st : Stmt) → (stack : BlockStack) →
    Shadows id (st.exec run stack) (st.bare.exec run' stack)
  | .set path v, stack => (shadows_expr stack v).bind fun v => shadows_setPath hrun stack path v
  | .call path args keywords, stack => shadows_callPath hrun stack path args keywords
  | .chain calls, stack => (shadows_calls hrun calls stack).bind fun _ => shadows_trace _ _ _ _
  | .item key v, stack => by
    rw [Stmt.bare, Stmt.exec, Stmt.exec]
    refine (shadows_expr stack key).bind fun k => (shadows_expr stack v).bind fun v => ?_
    cases k with
    | scalar s =>
        cases s with
        | text t form =>
            exact (shadows_blockAt stack 0).bind fun i =>
              shadows_assignField hrun stack i ⟨t, form⟩ v
        | _ => exact .throw _ _
    | _ => exact .throw _ _
  | .named name args keywords, stack => shadows_callPath hrun stack [] (name :: args) keywords
  | .get key, stack => by
    rw [Stmt.bare, Stmt.exec, Stmt.exec]
    refine (shadows_expr stack key).bind fun k => (shadows_blockAt stack 0).bind fun i =>
      (shadows_lookUp i k).bind fun found => ?_
    cases found with
    | some v => exact shadows_trace _ _ _ _
    | none => exact shadows_notFound k
  | .contains key, stack => (shadows_expr stack key).bind fun k =>
    (shadows_blockAt stack 0).bind fun i => (shadows_lookUp i k).bind fun _ => shadows_trace _ _ _ _
  | .count, stack => (shadows_blockAt stack 0).bind fun i =>
    (shadows_fieldsOf i).bind fun _ => shadows_trace _ _ _ _
  | .show, stack => (shadows_blockAt stack 0).bind fun i =>
    (shadows_fieldsOf i).bind fun _ => shadows_trace _ _ _ _
  | .showRef path, _ => (shadows_refPath true path).bind fun _ => shadows_trace _ _ _ _
  | .trace v, stack => (shadows_expr stack v).bind fun _ => shadows_trace _ _ _ _
  | .raise _, _ => .throw _ _
  | .attempt st, stack => shadows_caught (shadows_stmt hrun st stack)
  | .up levels st, stack => shadows_stmt hrun st (stack.drop levels)
  | .keep key, stack => (shadows_blockAt stack 0).bind fun i => shadows_keep key i
  | .on key st, stack => (shadows_keptBlock key).bind fun i => shadows_stmt hrun st (i :: stack)

theorem shadows_calls (hrun : RunsAlike run run') :
    (calls : List (List String × List Expr × List (String × Expr))) → (stack : BlockStack) →
      Shadows id (calls.forM fun c => callPath run stack c.1 c.2.1 c.2.2)
        ((bareCalls calls).forM fun c => callPath run' stack c.1 c.2.1 c.2.2)
  | [], _ => .pure rfl
  | (path, args, keywords) :: rest, stack =>
    (shadows_callPath hrun stack path args keywords).bind fun _ => shadows_calls hrun rest stack

end

theorem shadows_stmts (hrun : RunsAlike run run') (stmts : List Stmt) (stack : BlockStack) :
    Shadows id (stmts.forM (·.exec run stack)) ((bareStmts stmts).forM (·.exec run' stack)) := by
  induction stmts with
  | nil => exact .pure rfl
  | cons st rest ih => exact (shadows_stmt hrun st stack).bind fun _ => ih

end

/-- A body in plain form does what the body does. -/
theorem shadows_runAt (depth : Nat) : RunsAlike (Body.runAt depth) (Body.runAt depth) := by
  induction depth with
  | zero => exact fun _ _ => .throw _ _
  | succ depth ih =>
      rintro stack ⟨label, stmts⟩
      refine shadows_newBlock.bind fun i => Shadows.bind (f := id) ?_ fun _ => .pure rfl
      exact (shadows_stmts ih stmts (i :: stack)).tryCatch fun _ _ => .throw _ _

/-! ## Documents -/

theorem shadows_evaluate (n : Node) : Shadows Value.bare n.evaluate n.bare.evaluate := by
  unfold Node.evaluate
  rw [n.depth_bare]
  exact shadows_resolve (shadows_runAt _) [] n

theorem shadows_body (b : Body) : Shadows Value.bare b.evaluate b.bare.evaluate := by
  unfold Body.evaluate
  rw [b.depth_bare]
  exact shadows_runAt _ [] b

theorem shadows_toMap (v : Value) : Shadows Value.bare (toMap v) (toMap v.bare) := by
  unfold toMap
  refine (shadows_toNode v _ _).bind fun n => ?_
  cases n with
  | mapping entries => exact shadows_evaluate (.mapping entries)
  | nested b => exact shadows_body b
  | _ => exact .throw _ _

theorem shadows_topFields (v : Value) :
    Shadows Fields.bare (topFields v) (topFields v.bare) := by
  cases v with
  | live i => exact shadows_fieldsOf i
  | mapping kind entries =>
      refine .pure ?_
      rw [bareEntries_eq, List.filterMap_map]
      unfold Fields.bare
      rw [List.map_filterMap]
      refine congrArg (List.filterMap · entries) (funext fun e => ?_)
      rcases e with ⟨k, w⟩
      cases k with
      | scalar s => cases s <;> rfl
      | _ => rfl
  | _ => exact .pure rfl

/-- A document with its fields in plain form. -/
def Document.bare (d : Document) : Document := { d with content := d.content.bare }

theorem Resembles.refl {α : Type} (x : Except Failure α) : Resembles id x x := by
  cases x with
  | ok a => exact .ok a
  | error e => exact .error e e

theorem shadows_configuration : Shadows id Run.configuration Run.configuration :=
  Shadows.get fun s t hst => by
    rw [hst.settings]
    exact .ofExcept (.refl _)

theorem shadows_make (asked pretty : Option Value) :
    Shadows Document.bare (Document.make asked pretty) (Document.make asked pretty) := by
  unfold Document.make
  refine shadows_configuration.bind fun config => ?_
  match asked with
  | none => exact Shadows.bind (f := id) (.pure rfl) fun _ => .pure rfl
  | some v =>
      have hgiven : ∀ x : Except Failure Encoding,
          Shadows id (MonadExcept.ofExcept x : Run Encoding) (MonadExcept.ofExcept x) :=
        fun x => .ofExcept (.refl x)
      cases v with
      | scalar s =>
          cases s with
          | null => exact Shadows.bind (f := id) (.pure rfl) fun _ => .pure rfl
          | _ => exact (hgiven _).bind fun _ => .pure rfl
      | _ => exact (hgiven _).bind fun _ => .pure rfl

theorem shadows_map (d : Document) (v : Value) :
    Shadows Document.bare (d.map v) (d.bare.map v.bare) := by
  unfold Document.map
  refine Shadows.bind (f := id) ?_ fun _ => (shadows_toMap v).bind fun m =>
    (shadows_topFields m).bind fun fs => .pure ?_
  · exact Shadows.ite (fun _ => .throw _ _) fun _ => .pure rfl
  · unfold Document.bare
    rw [Fields.bare_merge]

/-- A tree in plain form is made into the document in plain form. -/
theorem shadows_toDocument (stack : BlockStack) (tree : Expr) (asked : Option Value) :
    Shadows Document.bare (do let v ← tree.build stack; toDocument v asked)
      (do let v ← tree.bare.build stack; toDocument v asked) :=
  (shadows_expr stack tree).bind fun v => (shadows_make asked none).bind fun d => shadows_map d v

end Docket
