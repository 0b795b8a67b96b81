import Docket.Proofs.Recording.Iterators
import Docket.Proofs.Recording.Ownership
import Docket.Proofs.Recording.Refinement

/-!
# Bodies of their own

A body may look at blocks around it and draw from generators made elsewhere. One that
does neither has its own blocks only (`Body.OwnUpTo`): nothing that was there before is
changed by it, neither blocks nor what has been drawn from generators, and what it comes to
depends on nothing but the counters. It may be that it depends on less, so what is seen of
the counters is a parameter: all of them, or nothing at all, when the body comes to the same
wherever it is run.

What a tree comes to whose bodies are all like that depends on no more, so one run says what
other runs come to (`comes_of_resolve`).

## Main definitions

* `Body.OwnUpTo`, `Body.IsOwn`, `Body.IsSteady`: Bodies with blocks of their own only.
* `Node.Comes`: What a tree comes to.
* `Threaded`: Parts one after the other.

## Theorems

* `ownUpTo_of_isTree`: Bodies that assign and read back.
* `comes_seq`, `comes_mapping`: What trees come to, by their parts.
* `comes_of_resolve`: One run says what others come to.
-/

namespace Docket

/-- The counters and what they have come to. -/
abbrev Counters := List (String × Nat)

section

variable {γ : Type} (view : Counters → γ)

/-- A body that touches nothing but its own blocks, if bodies may nest as deep as said:
    what it comes to on any blocks and in any session, if it does not fail there, depends on
    nothing but what is seen of the counters. -/
def Body.OwnUpTo (depth : Nat) (b : Body) : Prop :=
  ∃ o : γ → Option (Value × γ), ∀ e, depth ≤ e → ∀ stack s,
    Realizes (Body.runAt e stack b) s (o (view s.counters)) fun d v s' =>
      Produced s d.1 v s' ∧ view s'.counters = d.2

/-- What a tree comes to wherever it is resolved when this is seen of the counters, and what
    is seen of them then. -/
def Node.Comes (depth : Nat) (n : Node) (c : γ) (d : Value) (c' : γ) : Prop :=
  ∀ e, depth ≤ e → ∀ stack s, view s.counters = c →
    ∃ v s', Yields (n.resolve (Body.runAt e stack)) s (.ok v) s' ∧ Produced s d v s' ∧
      view s'.counters = c'

end

/-- A body that touches nothing but its own blocks, and the counters. -/
abbrev Body.IsOwn : Nat → Body → Prop := Body.OwnUpTo id

/-- A body that touches nothing but its own blocks, and comes to the same whatever has been
    counted. -/
abbrev Body.IsSteady : Nat → Body → Prop := Body.OwnUpTo fun _ => ()

/-- Things that come to other things one after the other, each where the one before it has
    led. -/
inductive Threaded {α β γ : Type} (R : α → γ → β → γ → Prop) : List α → γ → List β → γ → Prop
  | nil {c : γ} : Threaded R [] c [] c
  | cons {a : α} {as : List α} {b : β} {bs : List β} {c m c' : γ} (hhead : R a c b m)
      (htail : Threaded R as m bs c') : Threaded R (a :: as) c (b :: bs) c'

section

variable {γ : Type} {view : Counters → γ} {c c' : γ} {depth e : Nat} {stack : BlockStack}
  {s s' : Session}

/-- Bodies that assign and read back touch nothing but their own blocks. -/
theorem ownUpTo_of_isTree {b : Body} (htree : b.isTree = true) (hdepth : b.depth ≤ depth) :
    b.OwnUpTo view depth := by
  -- Such a body counts nothing, so what is seen of the counters stays.
  refine ⟨fun c => (b.den.map Fields.toValue).map (·, c), fun e he stack s => ?_⟩
  have hmeans := (means_body b htree b.depth (Nat.le_refl _)).resolve e
    (Nat.le_trans hdepth he) stack s
  rw [Node.resolve] at hmeans
  cases hden : b.den with
  | none =>
      rw [hden] at hmeans
      exact hmeans
  | some fs =>
      rw [hden] at hmeans
      rcases hmeans with ⟨v, s', hv, hevaluated⟩
      exact ⟨v, s', hv, hevaluated.toProduced, congrArg view hevaluated.counters⟩

theorem Node.Comes.produced {n : Node} {d v : Value} (h : n.Comes view depth c d c')
    (he : depth ≤ e) (hc : view s.counters = c)
    (hv : Yields (n.resolve (Body.runAt e stack)) s (.ok v) s') :
    Produced s d v s' ∧ view s'.counters = c' := by
  rcases h e he stack s hc with ⟨w, t, hw, hproduced⟩
  rcases yields_unique hv hw with ⟨heq, rfl⟩
  cases heq
  exact hproduced

/-- Items come to values one after the other. -/
abbrev ItemsCome (view : Counters → γ) (depth : Nat) : List Node → γ → List Value → γ → Prop :=
  Threaded fun n c d c' => n.Comes view depth c d c'

/-- Entries come to fields one after the other. -/
abbrev EntriesCome (view : Counters → γ) (depth : Nat) :
    List (Name × Node) → γ → Fields → γ → Prop :=
  Threaded fun n c d c' => n.1 = d.1 ∧ n.2.Comes view depth c d.2 c'

/-- Items are resolved one after the other. -/
theorem comes_items {ns : List Node} {ds : List Value} (h : ItemsCome view depth ns c ds c')
    (he : depth ≤ e) (stack : BlockStack) (s : Session) (hc : view s.counters = c) :
    ∃ vs s', Yields (resolveItems (Body.runAt e stack) ns) s (.ok vs) s' ∧ s.Grows s' ∧
      s.DrawsNew s' ∧ view s'.counters = c' ∧
      List.Forall₂ (fun d v => Shown s d v s') ds vs := by
  induction h generalizing s with
  | nil => exact ⟨[], s, yields_pure.mpr ⟨rfl, rfl⟩, .refl s, .refl s, hc, .nil⟩
  | cons hn _ ih =>
      rcases hn e he stack s hc with ⟨v, m, hv, hproduced, hm⟩
      -- The rest is resolved after more blocks have been made, in which it takes no part.
      rcases ih m hm with ⟨vs, s', hvs, hgrows, hnew, hc', hshown⟩
      refine ⟨v :: vs, s', ?_, hproduced.grows.trans hgrows, hproduced.drawsNew.trans hnew, hc',
        .cons (hproduced.toShown.later hgrows) (hshown.imp fun _ _ h => h.earlier hproduced.grows)⟩
      rw [resolveItems, yields_bind_ok hv, yields_bind_ok hvs]
      exact yields_pure.mpr ⟨rfl, rfl⟩

theorem comes_seq {ns : List Node} {ds : List Value} (h : ItemsCome view depth ns c ds c') :
    (Node.seq ns).Comes view depth c (.list ds) c' := by
  intro e he stack s hc
  rcases comes_items h he stack s hc with ⟨vs, s', hvs, hgrows, hnew, hc', hshown⟩
  refine ⟨.list vs, s', ?_, ⟨Shown.list hgrows hshown, hnew⟩, hc'⟩
  rw [Node.resolve, yields_bind_ok hvs]
  exact yields_pure.mpr ⟨rfl, rfl⟩

/-- Entries are resolved one after the other and folded meanwhile. -/
theorem comes_entries {ns : List (Name × Node)} {ds : Fields}
    (h : EntriesCome view depth ns c ds c') (he : depth ≤ e) (stack : BlockStack) {s m : Session}
    (hc : view m.counters = c) (hgrows : s.Grows m) (hnew : s.DrawsNew m) {ddone done : Fields}
    (hdone : List.Forall₂ (Paired fun d v => Shown s d v m) ddone done) :
    ∃ fs s', Yields (resolveEntries (Body.runAt e stack) done ns) m (.ok fs) s' ∧ s.Grows s' ∧
      s.DrawsNew s' ∧ view s'.counters = c' ∧ List.Forall₂ (Paired fun d v => Shown s d v s')
        (ds.foldl (fun done d => placed done d.1 d.2) ddone) fs := by
  induction h generalizing m ddone done with
  | nil => exact ⟨done, m, yields_pure.mpr ⟨rfl, rfl⟩, hgrows, hnew, hc, hdone⟩
  | @cons n ns d ds c t c' hn _ ih =>
      rcases hn with ⟨hname, hn⟩
      rcases hn e he stack m hc with ⟨v, m', hv, hproduced, hm'⟩
      -- An earlier value of the same name is put away, but its blocks have been made.
      have hplaced : List.Forall₂ (Paired fun d v => Shown s d v m')
          (placed ddone n.1 d.2) (placed done n.1 v) :=
        forall₂_placed (hdone.imp fun _ _ h => ⟨h.1, h.2.later hproduced.grows⟩) n.1
          (hproduced.toShown.earlier hgrows)
      rw [placed_eq_set done, hname] at hplaced
      rcases ih hm' (hgrows.trans hproduced.grows) (hnew.trans hproduced.drawsNew) hplaced with
        ⟨fs, s', hfs, hrest⟩
      refine ⟨fs, s', ?_, hrest⟩
      rw [resolveEntries, yields_bind_ok hv, hname]
      exact hfs

theorem comes_mapping {ns : List (Name × Node)} {ds : Fields}
    (h : EntriesCome view depth ns c ds c') :
    (Node.mapping ns).Comes view depth c (Fields.toValue (orderedFold ds)) c' := by
  intro e he stack s hc
  rcases comes_entries h he stack hc (.refl s) (.refl s) .nil with
    ⟨fs, s', hfs, hgrows, hnew, hc', hshown⟩
  refine ⟨fs.toValue, s', ?_, ⟨Shown.fields hgrows hshown, hnew⟩, hc'⟩
  rw [Node.resolve, yields_bind_ok hfs]
  exact yields_pure.mpr ⟨rfl, rfl⟩

theorem comes_nested {b : Body} {v : Value} (hown : b.OwnUpTo view depth) (he : depth ≤ e)
    (h : Yields (Body.runAt e stack b) s (.ok v) s') :
    ∃ d, (Node.nested b).Comes view depth (view s.counters) d (view s'.counters) := by
  rcases hown with ⟨o, hown⟩
  have hrun := hown e he stack s
  -- It came to something here, so it does so wherever as much is seen of the counters.
  cases ho : o (view s.counters) with
  | some d =>
      rw [ho] at hrun
      rcases hrun with ⟨w, t, hw, -, hafter⟩
      rcases yields_unique h hw with ⟨-, rfl⟩
      refine ⟨d.1, fun e' he' stack' t ht => ?_⟩
      have hrun' := hown e' he' stack' t
      rw [ht, ho] at hrun'
      rcases hrun' with ⟨w', t', hw', hproduced, hafter'⟩
      exact ⟨w', t', hw', hproduced, hafter'.trans hafter.symm⟩
  | none =>
      rw [ho] at hrun
      rcases hrun with ⟨x, t, hfails⟩
      exact absurd (yields_unique h hfails).1 ok_ne_error

mutual

/-- A tree whose leaves hold no blocks and whose bodies touch only their own comes to the
    same wherever as much is seen of the counters, if it has once been resolved to
    something. -/
theorem comes_of_resolve (he : depth ≤ e) : (n : Node) → (s s' : Session) → (v : Value) →
    (n.Clean fun w => w.isFree = true) → (∀ b ∈ n.bodies, b.OwnUpTo view depth) →
      Yields (n.resolve (Body.runAt e stack)) s (.ok v) s' →
        ∃ d, n.Comes view depth (view s.counters) d (view s'.counters)
  | .scalar w kind, s, s', v, hclean, _, h => by
    rcases yields_pure.mp h with ⟨-, rfl⟩
    exact ⟨w, fun _ _ _ s hc => ⟨w, s, yields_pure.mpr ⟨rfl, rfl⟩,
      ⟨Shown.of_free (isFree_leafRule.free w hclean) (.refl s), .refl s⟩, hc⟩⟩
  | .seq items, s, s', v, hclean, hown, h => by
    rw [Node.resolve] at h
    rcases yields_bind_eq_ok.mp h with ⟨vs, m, hvs, h⟩
    rcases yields_pure.mp h with ⟨-, rfl⟩
    rcases comes_of_resolveItems he items s s' vs hclean hown hvs with ⟨ds, hds⟩
    exact ⟨.list ds, comes_seq hds⟩
  | .mapping entries, s, s', v, hclean, hown, h => by
    rw [Node.resolve] at h
    rcases yields_bind_eq_ok.mp h with ⟨fs, m, hfs, h⟩
    rcases yields_pure.mp h with ⟨-, rfl⟩
    rcases comes_of_resolveEntries he entries [] s s' fs hclean hown hfs with ⟨ds, hds⟩
    exact ⟨_, comes_mapping hds⟩
  | .nested b, s, s', v, _, hown, h => by
    rw [Node.resolve] at h
    exact comes_nested (hown b List.mem_cons_self) he h
  | .raw w, s, s', v, _, _, h => by
    -- No node is never resolved to something.
    rw [Node.resolve] at h
    exact absurd h not_yields_throw_ok

theorem comes_of_resolveItems (he : depth ≤ e) : (ns : List Node) → (s s' : Session) →
    (vs : List Value) → (cleanNodes (fun w => w.isFree = true) ns) →
      (∀ b ∈ nodesBodies ns, b.OwnUpTo view depth) →
        Yields (resolveItems (Body.runAt e stack) ns) s (.ok vs) s' →
          ∃ ds, ItemsCome view depth ns (view s.counters) ds (view s'.counters)
  | [], s, s', vs, _, _, h => by
    rcases yields_pure.mp h with ⟨-, rfl⟩
    exact ⟨[], .nil⟩
  | n :: rest, s, s', vs, hclean, hown, h => by
    rw [resolveItems] at h
    rcases yields_bind_eq_ok.mp h with ⟨v, m, hv, h⟩
    rcases yields_bind_eq_ok.mp h with ⟨ws, t, hws, h⟩
    rcases yields_pure.mp h with ⟨-, rfl⟩
    rw [nodesBodies] at hown
    -- The head changes the counters, and the rest starts from what it left.
    rcases comes_of_resolve he n s m v hclean.1
      (fun b hb => hown b (List.mem_append_left _ hb)) hv with ⟨d, hd⟩
    rcases comes_of_resolveItems he rest m s' ws hclean.2
      (fun b hb => hown b (List.mem_append_right _ hb)) hws with ⟨ds, hds⟩
    exact ⟨d :: ds, .cons hd hds⟩

theorem comes_of_resolveEntries (he : depth ≤ e) : (ns : List (Name × Node)) →
    (done : Fields) → (s s' : Session) → (fs : Fields) →
      (cleanEntries (fun w => w.isFree = true) ns) →
        (∀ b ∈ nodeEntriesBodies ns, b.OwnUpTo view depth) →
          Yields (resolveEntries (Body.runAt e stack) done ns) s (.ok fs) s' →
            ∃ ds, EntriesCome view depth ns (view s.counters) ds (view s'.counters)
  | [], _, s, s', fs, _, _, h => by
    rcases yields_pure.mp h with ⟨-, rfl⟩
    exact ⟨[], .nil⟩
  | (name, n) :: rest, done, s, s', fs, hclean, hown, h => by
    rw [resolveEntries] at h
    rcases yields_bind_eq_ok.mp h with ⟨v, m, hv, h⟩
    rw [nodeEntriesBodies] at hown
    rcases comes_of_resolve he n s m v hclean.1
      (fun b hb => hown b (List.mem_append_left _ hb)) hv with ⟨d, hd⟩
    rcases comes_of_resolveEntries he rest _ m s' fs hclean.2
      (fun b hb => hown b (List.mem_append_right _ hb)) h with ⟨ds, hds⟩
    exact ⟨(name, d) :: ds, .cons ⟨rfl, hd⟩ hds⟩

end

end

end Docket
