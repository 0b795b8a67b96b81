import Docket.Proofs.Document.Calls
import Docket.Proofs.Recording.Acceptance
import Docket.Proofs.Recording.Data
import Docket.Proofs.Recording.Escaping

/-!
# Bodies run in turn

A value that is handed over is first classified as a whole, which runs no body, and only
then are the bodies in it run: one after the other from left to right, depth first, each
as often as it occurs, until one fails. Every body gets a block that is made for it. If a
part of the value is at fault nothing has happened, except that generators have been drawn
from.

A trace says which bodies were run and in which sessions they began (`InTurn`). Resolving a
tree leaves such a trace (`inTurn_resolve`), whatever the bodies do; what they assign is
handed over in the same way, one level further in. A node made by hand may hold something
that is no node and ends the trace early, so a tree is asked to be whole where the trace
has to be complete.

Where the encoding decides that there will be no payload, nothing is looked at at all.

## Main definitions

* `Value.bodies`, `Node.bodies`: The bodies in a value or in a tree.
* `Value.isWhole`, `Node.isWhole`: No node made by hand holds something else.
* `Entry.Runs`: The statements of a body are run on its block.
* `InTurn`: Bodies are run one after the other.
* `HandedOver`: A value is classified, and then its bodies are run in turn.
* `Session.TakesInTurn`: Whatever takes a value takes it like this.

## Theorems

* `InTurn.blocks`, `InTurn.entered`: Who was run, and on which blocks.
* `inTurn_resolve`: Resolving a tree runs its bodies in turn.
* `handedOver_of_yields`: What is evaluated is handed over.
* `value_taken_in_turn`: Whatever takes a value takes it in turn.
-/

namespace Docket

/-! ## Bodies of values -/

mutual

/-- The bodies in a tree, from left to right, depth first, as often as they occur. -/
def Node.bodies : Node → List Body
  | .seq items => nodesBodies items
  | .mapping entries => nodeEntriesBodies entries
  | .nested b => [b]
  | _ => []

def nodesBodies : List Node → List Body
  | [] => []
  | n :: rest => n.bodies ++ nodesBodies rest

def nodeEntriesBodies : List (Name × Node) → List Body
  | [] => []
  | (_, n) :: rest => n.bodies ++ nodeEntriesBodies rest

end

mutual

/-- The bodies in a value, from left to right, depth first, as often as they occur. -/
def Value.bodies : Value → List Body
  | .node n => n.bodies
  | .items _ xs => itemsBodies xs
  | .mapping _ entries => entriesBodies entries
  -- What has been drawn already is left out by looking at a value as it stands.
  | .generator _ xs _ => itemsBodies xs
  | .body b => [b]
  -- A body that is a collection as well is taken for a body.
  | .bodyItems b _ => [b]
  | _ => []

def itemsBodies : List Value → List Body
  | [] => []
  | v :: rest => v.bodies ++ itemsBodies rest

def entriesBodies : List (Value × Value) → List Body
  | [] => []
  | (_, v) :: rest => v.bodies ++ entriesBodies rest

end

mutual

/-- Whether a tree consists of nodes only. -/
def Node.isWhole : Node → Bool
  | .seq items => nodesWhole items
  | .mapping entries => nodeEntriesWhole entries
  | .raw _ => false
  | _ => true

def nodesWhole : List Node → Bool
  | [] => true
  | n :: rest => n.isWhole && nodesWhole rest

def nodeEntriesWhole : List (Name × Node) → Bool
  | [] => true
  | (_, n) :: rest => n.isWhole && nodeEntriesWhole rest

end

mutual

/-- Whether the nodes made by hand in a value consist of nodes only. A value without
    such nodes is whole. -/
def Value.isWhole : Value → Bool
  | .node n => n.isWhole
  | .items _ xs => itemsWhole xs
  | .mapping _ entries => entriesWhole entries
  | .generator _ xs _ => itemsWhole xs
  | _ => true

def itemsWhole : List Value → Bool
  | [] => true
  | v :: rest => v.isWhole && itemsWhole rest

def entriesWhole : List (Value × Value) → Bool
  | [] => true
  | (_, v) :: rest => v.isWhole && entriesWhole rest

end

mutual

/-- What remains of a whole value is whole. -/
theorem isWhole_remaining : (v : Value) → (gone : Array Nat) → v.isWhole = true →
    (v.remaining gone).1.isWhole = true
  | .items _ xs, gone, h => by
    rw [Value.remaining]
    exact itemsWhole_remaining xs gone h
  | .mapping _ es, gone, h => by
    rw [Value.remaining]
    exact entriesWhole_remaining es gone h
  | .generator id xs none, gone, h => by
    rw [Value.remaining]
    exact itemsWhole_remainingDrawn xs id _ 0 gone h
  | .generator id xs (some e), gone, h => by
    -- The items that are left are the same whether or not the failure is still to come.
    rw [Value.remaining]
    split
    · exact itemsWhole_remainingDrawn xs id _ 0 gone h
    · exact itemsWhole_remainingDrawn xs id _ 0 gone h
  | .scalar _, _, _ => rfl
  | .alien _, _, _ => rfl
  | .range .., _, _ => rfl
  | .encodings, _, _ => rfl
  | .body _, _, _ => rfl
  | .bodyItems .., _, _ => rfl
  | .failure _, _, _ => rfl
  | .node _, _, h => h
  | .block _, _, _ => rfl
  | .fieldRef .., _, _ => rfl
  | .live _, _, _ => rfl
  | .tag .., _, _ => rfl

theorem itemsWhole_remaining : (xs : List Value) → (gone : Array Nat) → itemsWhole xs = true →
    itemsWhole (remainingItems gone xs).1 = true
  | [], _, _ => rfl
  | v :: rest, gone, h => by
    rw [itemsWhole, Bool.and_eq_true] at h
    rw [remainingItems, itemsWhole, Bool.and_eq_true]
    exact ⟨isWhole_remaining v gone h.1, itemsWhole_remaining rest _ h.2⟩

theorem entriesWhole_remaining : (es : List (Value × Value)) → (gone : Array Nat) →
    entriesWhole es = true → entriesWhole (remainingEntries gone es).1 = true
  | [], _, _ => rfl
  | (k, v) :: rest, gone, h => by
    rw [entriesWhole, Bool.and_eq_true] at h
    rw [remainingEntries, entriesWhole, Bool.and_eq_true]
    exact ⟨isWhole_remaining v gone h.1, entriesWhole_remaining rest _ h.2⟩

theorem itemsWhole_remainingDrawn : (xs : List Value) → (id drawn pos : Nat) →
    (gone : Array Nat) → itemsWhole xs = true →
      itemsWhole (remainingDrawn id drawn pos gone xs).1 = true
  | [], _, _, _, _, _ => rfl
  | v :: rest, id, drawn, pos, gone, h => by
    rw [itemsWhole, Bool.and_eq_true] at h
    rw [remainingDrawn]
    split
    · exact itemsWhole_remainingDrawn rest id drawn (pos + 1) gone h.2
    · rw [itemsWhole, Bool.and_eq_true]
      exact ⟨isWhole_remaining v _ h.1, itemsWhole_remainingDrawn rest id drawn (pos + 1) _ h.2⟩

end

theorem bodies_of_leaves {α : Type} (f : α → Node) (xs : List α) (hbodies : ∀ a, (f a).bodies = [])
    (hwhole : ∀ a, (f a).isWhole = true) :
    (Node.seq (xs.map f)).bodies = [] ∧ (Node.seq (xs.map f)).isWhole = true := by
  rw [Node.bodies, Node.isWhole]
  induction xs with
  | nil => exact ⟨rfl, rfl⟩
  | cons a rest ih =>
      rw [List.map_cons, nodesBodies, nodesWhole, hbodies, hwhole, ih.1, ih.2]
      exact ⟨rfl, rfl⟩

mutual

/-- A tree of the shape of a value has its bodies, and is whole if the value is. -/
theorem Value.Mirrors.bodies_eq : (v : Value) → (n : Node) → v.Mirrors n →
    n.bodies = v.bodies ∧ n.isWhole = v.isWhole
  | .node n, _, h => by
    cases h
    exact ⟨rfl, rfl⟩
  | .scalar t, _, h => by
    cases h
    exact ⟨rfl, rfl⟩
  | .items _ xs, _, h => by
    cases h with
    | items h => exact mirrorsItems_bodies_eq xs _ h
  | .mapping _ es, _, h => by
    cases h with
    | mapping _ hvalues => exact mirrorsEntries_bodies_eq es _ hvalues
  | .generator _ xs _, _, h => by
    cases h with
    | generator h => exact mirrorsItems_bodies_eq xs _ h
  | .range .., _, h => by
    cases h
    exact bodies_of_leaves Node.ofInt _ (fun _ => rfl) fun _ => rfl
  | .encodings, _, h => by
    cases h
    exact bodies_of_leaves (fun e : Encoding => Node.ofText e.name) _ (fun _ => rfl) fun _ => rfl
  | .body b, _, h => by
    cases h
    exact ⟨rfl, rfl⟩
  | .bodyItems .., _, h => by
    cases h
    exact ⟨rfl, rfl⟩
  | .alien _, _, h => by cases h
  | .failure _, _, h => by cases h
  | .block _, _, h => by cases h
  | .fieldRef .., _, h => by cases h
  | .live _, _, h => by cases h
  | .tag .., _, h => by cases h

theorem mirrorsItems_bodies_eq : (xs : List Value) → (ns : List Node) →
    List.Forall₂ Value.Mirrors xs ns →
      nodesBodies ns = itemsBodies xs ∧ nodesWhole ns = itemsWhole xs
  | [], _, h => by
    cases h
    exact ⟨rfl, rfl⟩
  | v :: rest, _, h => by
    cases h with
    | cons hv hrest =>
        rcases Value.Mirrors.bodies_eq v _ hv with ⟨hbodies, hn⟩
        rcases mirrorsItems_bodies_eq rest _ hrest with ⟨hbodies', hns⟩
        rw [nodesBodies, itemsBodies, nodesWhole, itemsWhole, hbodies, hbodies', hn, hns]
        exact ⟨rfl, rfl⟩

theorem mirrorsEntries_bodies_eq : (es : List (Value × Value)) → (ns : List (Name × Node)) →
    List.Forall₂ (fun f n => f.2.Mirrors n.2) es ns →
      nodeEntriesBodies ns = entriesBodies es ∧ nodeEntriesWhole ns = entriesWhole es
  | [], _, h => by
    cases h
    exact ⟨rfl, rfl⟩
  | (k, v) :: rest, _, h => by
    cases h with
    | cons hv hrest =>
        rcases Value.Mirrors.bodies_eq v _ hv with ⟨hbodies, hn⟩
        rcases mirrorsEntries_bodies_eq rest _ hrest with ⟨hbodies', hns⟩
        rw [nodeEntriesBodies, entriesBodies, nodeEntriesWhole, entriesWhole, hbodies, hbodies',
          hn, hns]
        exact ⟨rfl, rfl⟩

end

/-! ## Traces -/

/-- The statements of a body are run, one after the other, on the block that is made for
    it. -/
def Entry.Runs (depth : Nat) (c : Entry) (r : Except Failure Unit) (s' : Session) : Prop :=
  Yields (c.body.stmts.forM (·.exec (Body.runAt depth) c.inner)) c.session.opened r s'

/-- Bodies are run one after the other at some depth, each of them once, until one fails.
    The entries say in which sessions they began. -/
inductive InTurn : Nat → BlockStack → List Body → Session → List Entry →
    Except Failure Unit → Session → Prop
  | done {depth : Nat} {stack : BlockStack} {s : Session} :
      InTurn depth stack [] s [] (.ok ()) s
  | next {depth : Nat} {stack : BlockStack} {b : Body} {rest : List Body} {s m s' : Session}
      {cs : List Entry} {r : Except Failure Unit}
      (hrun : Entry.Runs depth ⟨stack, b, s⟩ (.ok ()) m)
      (hrest : InTurn (depth + 1) stack rest m cs r s') :
      InTurn (depth + 1) stack (b :: rest) s (⟨stack, b, s⟩ :: cs) r s'
  | fails {depth : Nat} {stack : BlockStack} {b : Body} {rest : List Body} {s s' : Session}
      {x : Failure} (hrun : Entry.Runs depth ⟨stack, b, s⟩ (.error x) s') :
      InTurn (depth + 1) stack (b :: rest) s [⟨stack, b, s⟩] (.error (x.inBody b)) s'
  | tooDeep {stack : BlockStack} {b : Body} {rest : List Body} {s : Session} :
      InTurn 0 stack (b :: rest) s []
        (.error (Failure.inBody b
          (.foreign "RecursionError" "maximum recursion depth exceeded" none))) s

section

variable {depth : Nat} {stack : BlockStack} {b : Body} {bs bs' : List Body}
  {s m s' : Session} {cs cs' : List Entry} {r : Except Failure Unit}

/-- A body that is run to its end comes to its block. -/
theorem runs_of_ok {v : Value} (h : Yields (Body.runAt (depth + 1) stack b) s (.ok v) s') :
    Entry.Runs depth ⟨stack, b, s⟩ (.ok ()) s' := by
  rw [Body.runAt, yields_bind_ok (yields_newBlock.mpr ⟨rfl, rfl⟩)] at h
  rcases yields_bind_eq_ok.mp h with ⟨⟨⟩, t, htry, hlive⟩
  rcases yields_pure.mp hlive with ⟨-, rfl⟩
  rcases yields_tryCatch.mp htry with ⟨⟨⟩, hstmts, -⟩ | ⟨e, u, -, hthrow⟩
  · exact hstmts
  · exact absurd hthrow not_yields_throw_ok

namespace InTurn

theorem append (h : InTurn depth stack bs s cs (.ok ()) m)
    (h' : InTurn depth stack bs' m cs' r s') :
    InTurn depth stack (bs ++ bs') s (cs ++ cs') r s' := by
  -- Only a trace that ends well has another one after it, so two cases are void.
  generalize hr : (Except.ok () : Except Failure Unit) = r₀ at h
  induction h with
  | done => exact h'
  | next hrun _ ih => exact .next hrun (ih h' hr)
  | fails _ => exact absurd hr ok_ne_error
  | tooDeep => exact absurd hr ok_ne_error

/-- After a failure no more bodies are run. -/
theorem append_of_error {e : Failure} (h : InTurn depth stack bs s cs (.error e) s') :
    InTurn depth stack (bs ++ bs') s cs (.error e) s' := by
  generalize hr : (Except.error e : Except Failure Unit) = r₀ at h ⊢
  induction h with
  | done => exact absurd hr error_ne_ok
  | next hrun _ ih => exact .next hrun (ih hr)
  | fails hrun => exact .fails hrun
  | tooDeep => exact .tooDeep

/-- The bodies that were run come first, and all of them were if none failed. -/
theorem entered (h : InTurn depth stack bs s cs r s') :
    cs.map Entry.body <+: bs ∧ (r = .ok () → cs.map Entry.body = bs) ∧
      ∀ c ∈ cs, c.stack = stack := by
  induction h with
  | done => exact ⟨List.prefix_rfl, fun _ => rfl, nofun⟩
  | next _ _ ih =>
      refine ⟨List.cons_prefix_cons.mpr ⟨rfl, ih.1⟩, fun hr => ?_,
        List.forall_mem_cons.mpr ⟨rfl, ih.2.2⟩⟩
      rw [List.map_cons, ih.2.1 hr]
  | fails _ =>
      exact ⟨List.cons_prefix_cons.mpr ⟨rfl, List.nil_prefix⟩, fun hr => absurd hr error_ne_ok,
        List.forall_mem_singleton.mpr rfl⟩
  | tooDeep => exact ⟨List.nil_prefix, fun hr => absurd hr error_ne_ok, nofun⟩

end InTurn

/-- Whatever the statements of a body do, nothing is lost that was recorded. -/
theorem Entry.Runs.onward {c : Entry} (h : c.Runs depth r s') : c.session.Onward s' :=
  (Session.Onward.opened _).trans (Safe.forM c.body.stmts (fun st _ =>
    safe_exec isLeaf_leafRule (safe_runAt isLeaf_leafRule depth) st 0 c.inner) _ _ _ h).1

/-- A body begins with a block that did not exist before. -/
theorem Entry.Runs.size_lt {c : Entry} (h : c.Runs depth r s') :
    c.session.blocks.size < s'.blocks.size := by
  have hsize := (Safe.forM c.body.stmts (fun st _ =>
    safe_exec isLeaf_leafRule (safe_runAt isLeaf_leafRule depth) st 0 c.inner) _ _ _ h).1.size
  rw [Session.size_opened] at hsize
  exact hsize

namespace InTurn

theorem onward (h : InTurn depth stack bs s cs r s') : s.Onward s' := by
  induction h with
  | done => exact .refl _
  | next hrun _ ih => exact hrun.onward.trans ih
  | fails hrun => exact hrun.onward
  | tooDeep => exact .refl _

/-- Bodies run on distinct blocks, each of which was made after those before it. -/
theorem blocks (h : InTurn depth stack bs s cs r s') :
    (cs.map fun c => c.session.blocks.size).Pairwise (· < ·) ∧
      ∀ c ∈ cs, s.blocks.size ≤ c.session.blocks.size := by
  induction h with
  | done => exact ⟨.nil, nofun⟩
  | next hrun _ ih =>
      -- The block of the first body was made before the others began.
      have hlt := hrun.size_lt
      refine ⟨List.pairwise_cons.mpr ⟨fun n hn => ?_, ih.1⟩,
        List.forall_mem_cons.mpr ⟨Nat.le_refl _, fun c hc => ?_⟩⟩
      · rcases List.mem_map.mp hn with ⟨c, hc, rfl⟩
        exact Nat.lt_of_lt_of_le hlt (ih.2 c hc)
      · exact Nat.le_trans (Nat.le_of_lt hlt) (ih.2 c hc)
  | fails _ => exact ⟨List.pairwise_singleton _ _, List.forall_mem_singleton.mpr (Nat.le_refl _)⟩
  | tooDeep => exact ⟨.nil, nofun⟩

end InTurn

end

/-! ## Trees -/

/-- Work that runs bodies in turn. If it is whole or succeeds, it runs all of them and
    fails as they fail. -/
def RunsInTurn (depth : Nat) (stack : BlockStack) (bodies : List Body) (whole : Bool)
    {α : Type} (p : Run α) : Prop :=
  ∀ s r s', Yields p s r s' → ∃ bs cs r₀, bs <+: bodies ∧ InTurn depth stack bs s cs r₀ s' ∧
    ((whole = true ∨ ∃ a, r = .ok a) → bs = bodies ∧ r₀ = r.map fun _ => ())

namespace RunsInTurn

variable {depth : Nat} {stack : BlockStack} {bodies bodies' : List Body} {whole whole' : Bool}
  {α β : Type}

theorem pure (a : α) : RunsInTurn depth stack [] true (Pure.pure a) := by
  intro s r s' h
  rcases yields_pure.mp h with ⟨rfl, rfl⟩
  exact ⟨[], [], .ok (), List.prefix_rfl, .done, fun _ => ⟨rfl, rfl⟩⟩

/-- What ends early has run no body. -/
theorem throw (e : Failure) :
    RunsInTurn depth stack bodies false (MonadExcept.throw e : Run α) := by
  intro s r s' h
  rcases yields_throw.mp h with ⟨rfl, rfl⟩
  refine ⟨[], [], .ok (), List.nil_prefix, .done, ?_⟩
  rintro (h | ⟨a, h⟩)
  · exact absurd h Bool.false_ne_true
  · exact absurd h error_ne_ok

theorem bind {p : Run α} {f : α → Run β} (hp : RunsInTurn depth stack bodies whole p)
    (hf : ∀ a, RunsInTurn depth stack bodies' whole' (f a)) :
    RunsInTurn depth stack (bodies ++ bodies') (whole && whole') (p >>= f) := by
  intro s r s' h
  rcases yields_bind.mp h with ⟨a, m, h₁, h₂⟩ | ⟨e, h₁, rfl⟩
  · rcases hp s _ m h₁ with ⟨bs, cs, r₀, -, hturn, hall⟩
    rcases hall (Or.inr ⟨a, rfl⟩) with ⟨rfl, rfl⟩
    rcases hf a m r s' h₂ with ⟨bs', cs', r₁, hprefix, hturn', hall'⟩
    refine ⟨bs ++ bs', cs ++ cs', r₁, (List.prefix_append_right_inj _).mpr hprefix,
      hturn.append hturn', fun h => ?_⟩
    rcases hall' (h.imp_left fun h => (Bool.and_eq_true _ _ ▸ h).2) with ⟨rfl, hr⟩
    exact ⟨rfl, hr⟩
  · rcases hp s _ s' h₁ with ⟨bs, cs, r₀, hprefix, hturn, hall⟩
    -- Bodies that come later are not run, which is no news if the work ends early anyway.
    cases whole with
    | true =>
        rcases hall (Or.inl rfl) with ⟨rfl, rfl⟩
        exact ⟨bs ++ bodies', cs, _, List.prefix_rfl, hturn.append_of_error, fun _ => ⟨rfl, rfl⟩⟩
    | false =>
        refine ⟨bs, cs, r₀, hprefix.trans (List.prefix_append _ _), hturn, ?_⟩
        rintro (h | ⟨a, h⟩)
        · exact absurd h Bool.false_ne_true
        · exact absurd h error_ne_ok

theorem map {p : Run α} (hp : RunsInTurn depth stack bodies whole p) (g : α → β) :
    RunsInTurn depth stack bodies whole (do let a ← p; Pure.pure (g a)) := by
  have hpure (a : α) : RunsInTurn depth stack [] true (Pure.pure (g a) : Run β) := .pure (g a)
  have hbind := hp.bind hpure
  rw [List.append_nil, Bool.and_true] at hbind
  exact hbind

end RunsInTurn

section

variable {depth : Nat} {stack : BlockStack}

/-- A body is run once. -/
theorem inTurn_runAt (b : Body) : RunsInTurn depth stack [b] true (Body.runAt depth stack b) := by
  intro s r s' h
  cases depth with
  | zero =>
      rw [Body.runAt] at h
      rcases yields_throw.mp h with ⟨rfl, rfl⟩
      exact ⟨[b], [], _, List.prefix_rfl, .tooDeep, fun _ => ⟨rfl, rfl⟩⟩
  | succ depth =>
      cases r with
      | ok v =>
          exact ⟨[b], [⟨stack, b, s⟩], .ok (), List.prefix_rfl, .next (runs_of_ok h) .done,
            fun _ => ⟨rfl, rfl⟩⟩
      | error e =>
          -- What is raised is what the statements raised, labelled by the body.
          rcases (fails_succ_iff (c := ⟨stack, b, s⟩)).mp h with ⟨x, hx, rfl⟩
          exact ⟨[b], [⟨stack, b, s⟩], _, List.prefix_rfl, .fails hx, fun _ => ⟨rfl, rfl⟩⟩

mutual

/-- Resolving a tree runs its bodies in turn. -/
theorem inTurn_resolve : (n : Node) →
    RunsInTurn depth stack n.bodies n.isWhole (n.resolve (Body.runAt depth stack))
  | .scalar v _ => by
    rw [Node.resolve]
    exact RunsInTurn.pure v
  | .seq items => by
    rw [Node.resolve]
    exact (inTurn_resolveItems items).map Value.list
  | .mapping entries => by
    rw [Node.resolve]
    exact (inTurn_resolveEntries entries []).map Fields.toValue
  | .nested b => by
    rw [Node.resolve]
    exact inTurn_runAt b
  | .raw v => by
    -- No node, so the work ends here, and what comes later is not run.
    rw [Node.resolve]
    exact RunsInTurn.throw _

theorem inTurn_resolveItems : (ns : List Node) →
    RunsInTurn depth stack (nodesBodies ns) (nodesWhole ns)
      (resolveItems (Body.runAt depth stack) ns)
  | [] => by
    rw [resolveItems]
    exact RunsInTurn.pure []
  | n :: rest => by
    rw [resolveItems]
    exact (inTurn_resolve n).bind fun v => (inTurn_resolveItems rest).map (List.cons v)

/-- A name that is repeated has its earlier body run all the same. -/
theorem inTurn_resolveEntries : (ns : List (Name × Node)) → (done : Fields) →
    RunsInTurn depth stack (nodeEntriesBodies ns) (nodeEntriesWhole ns)
      (resolveEntries (Body.runAt depth stack) done ns)
  | [], done => by
    rw [resolveEntries]
    exact RunsInTurn.pure done
  | (name, n) :: rest, done => by
    rw [resolveEntries]
    exact (inTurn_resolve n).bind fun v => inTurn_resolveEntries rest (done.set name v)

end

end

/-! ## Values that are handed over -/

/-- A value is handed over: it is classified, which draws from generators at most, and if
    no part of it is at fault its bodies are run in turn, on blocks that are made
    meanwhile. -/
inductive HandedOver (depth : Nat) (stack : BlockStack) (path : Name) (v : Value) (s : Session) :
    List Entry → Except Failure Unit → Session → Prop
  | refused {gone : Array Nat} {e : Failure}
      (hnode : Yields (toNode v path) s (.error e) { s with drawn := gone })
      (hfault : (s.standing v).Fails path e) :
      HandedOver depth stack path v s [] (.error e) { s with drawn := gone }
  | taken {gone : Array Nat} {n : Node} {cs : List Entry} {r : Except Failure Unit}
      {s' : Session} (hnode : Yields (toNode v path) s (.ok n) { s with drawn := gone })
      (haccepted : (s.standing v).Accepted)
      (hturn : InTurn depth stack (s.standing v).bodies { s with drawn := gone } cs r s')
      (hblocks : (cs.map fun c => c.session.blocks.size).Pairwise (· < ·) ∧
        ∀ c ∈ cs, s.blocks.size ≤ c.session.blocks.size) :
      HandedOver depth stack path v s cs r s'

/-- The bodies that were run come first in the value, and all of them were if none
    failed. -/
theorem HandedOver.entered {depth : Nat} {stack : BlockStack} {path : Name} {v : Value}
    {s s' : Session} {cs : List Entry} {r : Except Failure Unit}
    (h : HandedOver depth stack path v s cs r s') :
    cs.map Entry.body <+: (s.standing v).bodies ∧
      (r = .ok () → cs.map Entry.body = (s.standing v).bodies) := by
  cases h with
  | refused _ _ => exact ⟨List.nil_prefix, fun hr => absurd hr error_ne_ok⟩
  | taken _ _ hturn _ => exact ⟨hturn.entered.1, hturn.entered.2.1⟩

/-- The encoding that is asked for, or else the one that is configured. -/
def Session.encodingFor (s : Session) : Option Value → Except Failure Encoding
  | none => s.settings.validate.map (·.encoding)
  | some (.scalar .null) => s.settings.validate.map (·.encoding)
  | some v => Encoding.ofValue v

/-- Whatever takes a value takes it in turn, and where the encoding decides that there will
    be no payload, the value is not looked at. -/
structure Session.TakesInTurn (s : Session) (v : Value) : Prop where
  /-- An assignment stores nothing until everything has been evaluated. -/
  assignment : ∀ depth stack id name r s',
    Yields (assignField (Body.runAt depth) stack id name v) s r s' →
      ∃ cs t, HandedOver depth stack name v s cs r t ∧ (∀ e, r = .error e → s' = t) ∧
        (r = .ok () → ∃ data, s' = t.assigned id name data)
  /-- Every form of assignment is this one. -/
  statement : ∀ run stack (st : Stmt) s₀ id name, st.Assigns stack s₀ ⟨id, name, v⟩ s →
    ∀ r s', Yields (st.exec run stack) s₀ r s' ↔ Yields (assignField run stack id name v) s r s'
  call : ∀ run stack (c : FieldCall) s₀ id name, c.Assigns stack s₀ ⟨id, name, v⟩ s →
    ∀ r s', Yields (c.make run stack) s₀ r s' ↔ Yields (assignField run stack id name v) s r s'
  /-- What can be no document is refused before any body is run. -/
  toMap : ∀ r s', Yields (toMap v) s r s' →
    (∃ depth cs, 0 < depth ∧
      HandedOver depth [] (.ofText "") v s cs (r.map fun _ => ()) s') ∨
    ((s.standing v).Accepted ∧ r = .error (.refuse .notDocument v none) ∧
      ∃ gone, s' = { s with drawn := gone })
  map : ∀ (d : Document) r s', Yields (d.map v) s r s' →
    (d.isClosed = true → r = .error .finalized ∧ s' = s) ∧
    (d.isClosed = false →
      ∃ m, Yields (Docket.toMap v) s m s' ∧ (r.map fun _ => ()) = m.map fun _ => ())
  field : ∀ (d : Document) name r s', Yields (d.field name v) s r s' →
    (d.isClosed = true → r = .error .finalized ∧ s' = s) ∧
    (d.isClosed = false → ∀ text form, name = .scalar (.text text form) →
      ∃ depth cs, 0 < depth ∧
        HandedOver depth [] ⟨text, form⟩ v s cs (r.map fun _ => ()) s') ∧
    (d.isClosed = false → ¬ name.IsText →
      r = .error (.refuse .fieldName name none) ∧ s' = s)
  unknown : ∀ asked e, s.encodingFor asked = .error e →
    (∃ e', Yields (toDocument v asked) s (.error e') s) ∧
    (∃ e', Yields (toBytes v asked) s (.error e') s) ∧ Yields (toText v asked) s (.error e) s
  binary : ∀ asked e, s.encodingFor asked = .ok e → e.binary = true →
    Yields (toText v asked) s (.error (.textOfBinary e)) s

section

variable {s s' : Session} {v : Value} {path : Name} {stack : BlockStack}

/-- What is evaluated is handed over. How deep its bodies may nest may depend on its
    tree. -/
theorem handedOver_of_yields (hwhole : (s.snapshot v).isWhole = true) (depth : Node → Nat)
    {r : Except Failure Value}
    (h : Yields (do let n ← toNode v path; n.resolve (Body.runAt (depth n) stack)) s r s') :
    ∃ n cs, HandedOver (depth n) stack path v s cs (r.map fun _ => ()) s' := by
  rcases finds_toNode v path s with ⟨gone, ⟨n, hn, haccepted, hmirrors⟩ | ⟨e, left, he, hfails⟩⟩
  · rw [yields_bind_ok hn] at h
    -- The tree has the bodies of the value as it stands, and is whole as the value is.
    rcases hmirrors.bodies_eq _ n with ⟨hbodies, hnode⟩
    rcases inTurn_resolve n _ _ _ h with ⟨bs, cs, r₀, -, hturn, hall⟩
    rcases hall (Or.inl (hnode.trans (isWhole_remaining _ _ hwhole))) with ⟨rfl, rfl⟩
    refine ⟨n, cs, .taken hn haccepted ?_ hturn.blocks⟩
    rw [hbodies] at hturn
    exact hturn
  · rcases (yields_bind_error he).mp h with ⟨rfl, rfl⟩
    exact ⟨default, [], .refused he hfails⟩

theorem replayDepth_pos (n : Node) : 0 < n.depth + replayDepth :=
  Nat.lt_of_lt_of_le (by decide) (Nat.le_add_left replayDepth n.depth)

theorem toMap_taken (hwhole : (s.snapshot v).isWhole = true) {r : Except Failure Value}
    (h : Yields (toMap v) s r s') :
    (∃ depth cs, 0 < depth ∧
      HandedOver depth [] (.ofText "") v s cs (r.map fun _ => ()) s') ∨
    ((s.standing v).Accepted ∧ r = .error (.refuse .notDocument v none) ∧
      ∃ gone, s' = { s with drawn := gone }) := by
  rcases finds_toNode v (.ofText "") s with
    ⟨gone, ⟨n, hn, haccepted, -⟩ | ⟨e, left, he, hfails⟩⟩
  · by_cases hdocument : n.isDocument = true
    · have heval : Yields (do
          let n ← toNode v (.ofText "")
          n.resolve (Body.runAt (n.depth + replayDepth) [])) s r s' :=
        (yields_bind_ok hn).mpr ((yields_toMap_of_isDocument hn hdocument).mp h)
      rcases handedOver_of_yields hwhole (fun n => n.depth + replayDepth) heval with ⟨n', cs, hover⟩
      exact Or.inl ⟨_, cs, replayDepth_pos n', hover⟩
    · unfold toMap at h
      rw [yields_bind_ok hn] at h
      refine Or.inr ⟨haccepted, ?_⟩
      -- Mappings and bodies make documents, and all other trees are refused.
      cases n with
      | mapping entries => exact absurd rfl hdocument
      | nested b => exact absurd rfl hdocument
      | _ =>
          rcases yields_throw.mp h with ⟨hr, hs⟩
          exact ⟨hr, gone, hs⟩
  · unfold toMap at h
    rcases (yields_bind_error he).mp h with ⟨rfl, rfl⟩
    -- No body is run, so any depth will do.
    exact Or.inl ⟨1, [], Nat.one_pos, .refused he hfails⟩

theorem assignment_taken (hwhole : (s.snapshot v).isWhole = true) {depth id : Nat} {name : Name}
    {r : Except Failure Unit}
    (h : Yields (assignField (Body.runAt depth) stack id name v) s r s') :
    ∃ cs t, HandedOver depth stack name v s cs r t ∧ (∀ e, r = .error e → s' = t) ∧
      (r = .ok () → ∃ data, s' = t.assigned id name data) := by
  rw [assignField_eq] at h
  rcases yields_bind.mp h with ⟨data, t, heval, hassign⟩ | ⟨e, heval, rfl⟩
  · -- What is stored is stored after all bodies have been run.
    rcases yields_modify.mp hassign with ⟨rfl, rfl⟩
    rcases handedOver_of_yields hwhole (fun _ => depth) heval with ⟨-, cs, hover⟩
    exact ⟨cs, t, hover, fun e he => absurd he ok_ne_error, fun _ => ⟨data, rfl⟩⟩
  · rcases handedOver_of_yields hwhole (fun _ => depth) heval with ⟨-, cs, hover⟩
    exact ⟨cs, s', hover, fun _ _ => rfl, fun hr => absurd hr error_ne_ok⟩

theorem map_taken {d : Document} {r : Except Failure Document} (h : Yields (d.map v) s r s') :
    (d.isClosed = true → r = .error .finalized ∧ s' = s) ∧
    (d.isClosed = false →
      ∃ m, Yields (toMap v) s m s' ∧ (r.map fun _ => ()) = m.map fun _ => ()) := by
  unfold Document.map at h
  refine ⟨fun hclosed => yields_unique h (Document.yields_of_closed hclosed _ s),
    fun hopen => ?_⟩
  rw [Document.yields_of_open hopen] at h
  rcases yields_bind.mp h with ⟨m, t, hm, h⟩ | ⟨e, hm, rfl⟩
  · rcases Document.exists_topFields m t with ⟨fs, hfs⟩
    rw [yields_bind_ok hfs] at h
    rcases yields_pure.mp h with ⟨rfl, rfl⟩
    exact ⟨_, hm, rfl⟩
  · exact ⟨_, hm, rfl⟩

theorem field_taken (hwhole : (s.snapshot v).isWhole = true) {d : Document} {name : Value}
    {r : Except Failure Document} (h : Yields (d.field name v) s r s') :
    (d.isClosed = true → r = .error .finalized ∧ s' = s) ∧
    (d.isClosed = false → ∀ text form, name = .scalar (.text text form) →
      ∃ depth cs, 0 < depth ∧
        HandedOver depth [] ⟨text, form⟩ v s cs (r.map fun _ => ()) s') ∧
    (d.isClosed = false → ¬ name.IsText →
      r = .error (.refuse .fieldName name none) ∧ s' = s) := by
  unfold Document.field at h
  refine ⟨fun hclosed => yields_unique h (Document.yields_of_closed hclosed _ s), ?_, ?_⟩
  · rintro hopen text form rfl
    rw [Document.yields_of_open hopen] at h
    -- Setting the field cannot fail any more, so the call ends as the evaluation does.
    have heval : ∃ m : Except Failure Value, (r.map fun _ => ()) = (m.map fun _ => ()) ∧
        Yields (do
          let n ← toNode v ⟨text, form⟩
          n.resolve (Body.runAt (n.depth + replayDepth) [])) s m s' := by
      rcases yields_bind.mp h with ⟨n, t, hn, h⟩ | ⟨e, hn, rfl⟩
      · rcases yields_bind.mp h with ⟨w, u, hw, h⟩ | ⟨e, he, rfl⟩
        · rcases yields_pure.mp h with ⟨rfl, rfl⟩
          exact ⟨.ok w, rfl, (yields_bind_ok hn).mpr hw⟩
        · exact ⟨.error e, rfl, (yields_bind_ok hn).mpr he⟩
      · exact ⟨.error e, rfl, (yields_bind_error hn).mpr ⟨rfl, rfl⟩⟩
    rcases heval with ⟨m, hm, heval⟩
    rcases handedOver_of_yields hwhole (fun n => n.depth + replayDepth) heval with ⟨n, cs, hover⟩
    rw [hm]
    exact ⟨_, cs, replayDepth_pos n, hover⟩
  · intro hopen hname
    rw [Document.yields_of_open hopen] at h
    split at h
    next text form => exact absurd ⟨⟨text, form⟩, rfl⟩ hname
    next => exact yields_throw.mp h

end

/-! ## Encodings come first -/

section

variable {s s' : Session} {v : Value} {asked : Option Value} {e : Failure}

theorem encodingFor_some {w : Value} (h : w = .scalar .null → False) :
    s.encodingFor (some w) = Encoding.ofValue w := by
  unfold Session.encodingFor
  split
  next heq => cases heq
  next heq => exact absurd (Option.some.inj heq) h
  next heq => rw [Option.some.inj heq]

/-- No document is made for an encoding that is unknown. -/
theorem make_of_unknown (h : s.encodingFor asked = .error e) :
    ∃ e', Yields (Document.make asked none) s (.error e') s := by
  unfold Document.make
  cases hvalid : s.settings.validate with
  | error e' =>
      -- Settings that are not valid are noticed before the encoding that is asked for.
      have hconfig : Yields Run.configuration s (.error e') s :=
        yields_configuration.mpr ⟨hvalid.symm, rfl⟩
      exact ⟨e', (yields_bind_error hconfig).mpr ⟨rfl, rfl⟩⟩
  | ok config =>
      have hconfig : Yields Run.configuration s (.ok config) s :=
        yields_configuration.mpr ⟨hvalid.symm, rfl⟩
      refine ⟨e, (yields_bind_ok hconfig).mpr ?_⟩
      dsimp only
      split
      next =>
        rw [Session.encodingFor, hvalid] at h
        exact absurd h ok_ne_error
      next =>
        rw [Session.encodingFor, hvalid] at h
        exact absurd h ok_ne_error
      next hnull =>
        rw [encodingFor_some hnull] at h
        exact (yields_bind_error (yields_ofExcept.mpr ⟨h.symm, rfl⟩)).mpr ⟨rfl, rfl⟩

/-- Looking for the encoding of a text changes nothing. -/
theorem yields_asked {α : Type} {f : Encoding → Run α} {r : Except Failure α} :
    -- The left side is `toText` as its `do` block is elaborated, with `f` for what follows.
    Yields (match asked with
      | none => do
        let config ← Run.configuration
        let e ← pure config.encoding
        f e
      | some (.scalar .null) => do
        let config ← Run.configuration
        let e ← pure config.encoding
        f e
      | some w => do
        let e ← MonadExcept.ofExcept (Encoding.ofValue w)
        f e) s r s' ↔
      Yields (do let e ← MonadExcept.ofExcept (s.encodingFor asked); f e) s r s' := by
  have hconfigured : Yields (do
      let config ← Run.configuration
      let e ← pure config.encoding
      f e) s r s' ↔
        Yields (do let e ← MonadExcept.ofExcept (s.settings.validate.map (·.encoding)); f e) s r
          s' := by
    cases hvalid : s.settings.validate with
    | error e =>
        rw [yields_bind_error (yields_configuration.mpr ⟨hvalid.symm, rfl⟩)]
        exact (yields_bind_error (yields_ofExcept.mpr ⟨rfl, rfl⟩)).symm
    | ok config =>
        rw [yields_bind_ok (yields_configuration.mpr ⟨hvalid.symm, rfl⟩)]
        exact Iff.rfl
  split
  next => exact hconfigured
  next => exact hconfigured
  next hnull => rw [encodingFor_some hnull]

/-- No text is made for an encoding that is unknown. -/
theorem toText_of_unknown (h : s.encodingFor asked = .error e) :
    Yields (toText v asked) s (.error e) s := by
  unfold toText
  refine yields_asked.mpr ?_
  exact (yields_bind_error (yields_ofExcept.mpr ⟨h.symm, rfl⟩)).mpr ⟨rfl, rfl⟩

/-- Neither is it for one that is binary. -/
theorem toText_of_binary {encoding : Encoding} (h : s.encodingFor asked = .ok encoding)
    (hbinary : encoding.binary = true) :
    Yields (toText v asked) s (.error (.textOfBinary encoding)) s := by
  unfold toText
  refine yields_asked.mpr ?_
  rw [yields_bind_ok (yields_ofExcept.mpr ⟨h.symm, rfl⟩)]
  simp only [hbinary, if_true]
  exact (yields_bind_error (yields_throw.mpr ⟨rfl, rfl⟩)).mpr ⟨rfl, rfl⟩

end

/-- A value is classified as a whole before any body in it is run. If a part of it is at
    fault no body is run, and otherwise its bodies are run in turn until one fails. This
    holds of assignments in all their forms, of trees and of documents, and where the
    encoding decides that there will be no payload nothing is run or drawn from. -/
theorem value_taken_in_turn (s : Session) (v : Value)
    (hwhole : (s.snapshot v).isWhole = true) : s.TakesInTurn v where
  assignment _ _ _ _ _ _ h := assignment_taken hwhole h
  statement _ _ _ _ _ _ h _ _ := h.perform
  call _ _ _ _ _ _ h _ _ := h.perform
  toMap _ _ h := toMap_taken hwhole h
  map _ _ _ h := map_taken h
  field _ _ _ _ h := field_taken hwhole h
  unknown asked e h := by
    -- The document is made before anything is classified, and that fails here.
    rcases make_of_unknown h with ⟨e', hmake⟩
    have hdocument : Yields (toDocument v asked) s (.error e') s :=
      (yields_bind_error hmake).mpr ⟨rfl, rfl⟩
    exact ⟨⟨e', hdocument⟩, ⟨e', (yields_bind_error hdocument).mpr ⟨rfl, rfl⟩⟩,
      toText_of_unknown h⟩
  binary _ _ h hbinary := toText_of_binary h hbinary

/-- A body that counts how often it was run. -/
def tickBody : Body := .mk (.named "tick") [.set ["n"] (.counter "n")]

/-- The body three times, once under a name that is repeated. -/
def tickValue : Value :=
  .mapping .pairs [(.text "a", .body tickBody),
    (.text "b", .items .list [.body tickBody, .body tickBody]), (.text "a", .int 1)]

def tickRun : Except Failure Value × Session := (toMap tickValue).run.run .initial

theorem tickValue_taken_in_turn :
    (Session.initial.snapshot tickValue).isWhole = true ∧
    Session.initial.TakesInTurn tickValue ∧
    tickRun.2.counters = [("n", 3)] ∧
    ∃ depth cs, HandedOver depth [] (.ofText "") tickValue .initial cs (.ok ()) tickRun.2 ∧
      cs.map Entry.body = [tickBody, tickBody, tickBody] := by
  have hwhole : (Session.initial.snapshot tickValue).isWhole = true := by decide +kernel
  have htaken := value_taken_in_turn .initial tickValue hwhole
  have hok : tickRun.1.toOption.isSome = true := by decide +kernel
  have hrun : Yields (toMap tickValue) .initial (.ok (tickRun.1.toOption.getD .null))
      tickRun.2 := by
    unfold tickRun at hok ⊢
    exact yields_getD Value.null hok
  refine ⟨hwhole, htaken, by decide +kernel, ?_⟩
  rcases htaken.toMap _ _ hrun with ⟨depth, cs, -, hover⟩ | ⟨-, herror, -⟩
  · exact ⟨depth, cs, hover, hover.entered.2 rfl⟩
  · exact absurd herror ok_ne_error

end Docket
