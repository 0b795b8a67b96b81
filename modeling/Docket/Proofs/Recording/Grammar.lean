import Docket.Tree
import Mathlib.Data.List.Forall2

/-!
# The grammar of values

Which values have a place in a document, and what is wrong with those that have
none. A value has a place if it and all its parts are of the accepted kinds
(`Value.Accepted`), and then its tree has the same shape (`Value.Mirrors`).
Otherwise there is a first fault: everything before it, from left to right and
depth first, is accepted (`Value.Reaches`), and an error describes that fault
and its place. A place is told by the names and numbers that lead to it
(`PlaceStep`), and they are written one after the other (`place`). Nothing here
looks at how classification goes about its work.

Classification has no list of steps. It writes the place anew at each collection
it goes into, behind the place of the collection, so what has to be known of it
is that a step in front is a step that was taken before (`place_name`,
`place_index`).

A fault is either something refused or a generator that fails when its items
have been accepted. Looking at a collection, the first fault is in the first part
that is not accepted (`fails_items`, `fails_mapping`, `fails_generator`), so no
value has two.

## Main definitions

* `Value.Accepted`: The values that have a place in a document.
* `Value.Mirrors`: A tree of the same shape as a value.
* `PlaceStep`, `place`: What leads to a part of a value, and how it is written.
* `Value.Reaches`: Everything before a place in a value is accepted.
* `Value.Refused`, `Value.Fault`: What is wrong with a value itself.
* `Value.Fails`: The first fault of a value.

## Theorems

* `place_name`, `place_index`: The first step to a place is taken where the
  collection is.
* `Value.Fails.not_accepted`: What has a fault is not accepted.
* `fails_items`, `fails_mapping`, `fails_generator`: The faults of collections.
* `Value.Fails.unique`: There is one first fault.
-/

namespace Docket

namespace Value

/-- A text in whatever form. -/
def IsText (v : Value) : Prop := ∃ name : Name, v = name.toValue

/-- The values that have a place in a document. -/
inductive Accepted : Value → Prop
  | node {n : Node} : Accepted (.node n)
  | scalar {t : Scalar} (hfinite : ∀ x form, t = .float x form → x.isFinite = true) :
      Accepted (.scalar t)
  | mapping {kind : MappingKind} {entries : List (Value × Value)}
      (hkeys : ∀ f ∈ entries, f.1.IsText) (hvalues : ∀ f ∈ entries, f.2.Accepted) :
      Accepted (.mapping kind entries)
  | body {b : Body} : Accepted (.body b)
  | bodyItems {b : Body} {xs : List Value} : Accepted (.bodyItems b xs)
  | items {kind : ItemsKind} {xs : List Value} (h : ∀ v ∈ xs, v.Accepted) :
      Accepted (.items kind xs)
  | range {start stop step : Int} : Accepted (.range start stop step)
  | encodings : Accepted .encodings
  | generator {id : Nat} {xs : List Value} (h : ∀ v ∈ xs, v.Accepted) :
      Accepted (.generator id xs none)

/-- A tree has the shape of a value: items and entries are in the same order,
    repeated names are kept, leaves are in plain form, and bodies are not run. -/
inductive Mirrors : Value → Node → Prop
  | node {n : Node} : Mirrors (.node n) n
  | scalar {t : Scalar} : Mirrors (.scalar t) (.scalar (.scalar t.plain) t.kind)
  | mapping {kind : MappingKind} {entries : List (Value × Value)} {ns : List (Name × Node)}
      (hkeys : List.Forall₂ (fun f n => f.1 = n.1.toValue) entries ns)
      (hvalues : List.Forall₂ (fun f n => f.2.Mirrors n.2) entries ns) :
      Mirrors (.mapping kind entries) (.mapping ns)
  | body {b : Body} : Mirrors (.body b) (.nested b)
  | bodyItems {b : Body} {xs : List Value} : Mirrors (.bodyItems b xs) (.nested b)
  | items {kind : ItemsKind} {xs : List Value} {ns : List Node}
      (h : List.Forall₂ Mirrors xs ns) : Mirrors (.items kind xs) (.seq ns)
  | range {start stop step : Int} :
      Mirrors (.range start stop step) (.seq ((rangeItems start stop step).map .ofInt))
  | encodings : Mirrors .encodings (.seq (Encoding.all.map fun e => .ofText e.name))
  | generator {id : Nat} {xs : List Value} {ns : List Node}
      (h : List.Forall₂ Mirrors xs ns) : Mirrors (.generator id xs none) (.seq ns)

end Value

/-- What leads from a collection to one of its parts: the name of an entry or the
    number of an item. -/
inductive PlaceStep
  | name (n : Name)
  | index (i : Nat)

/-- How a step is written behind the place it is taken from. -/
def PlaceStep.written : PlaceStep → String
  | name n => "." ++ n.display
  | index i => "[" ++ toString i ++ "]"

/-- How the steps that lead to a place are written behind the place they start
    at. A name at the very front has no point before it and is the place itself,
    and names without characters are not seen there. -/
def place (path : Name) : List PlaceStep → Name
  | [] => path
  | .name n :: rest =>
    if path.text.isEmpty then place n rest
    else .ofText (path.display ++ String.join ((.name n :: rest).map PlaceStep.written))
  | .index i :: rest =>
    .ofText (path.display ++ String.join ((.index i :: rest).map PlaceStep.written))

namespace Value

/-- Looking through a value from left to right, depth first, comes along these
    steps to the part `u`: everything before it is accepted. -/
inductive Reaches : Value → List PlaceStep → Value → Prop
  | here {v : Value} : Reaches v [] v
  | entry {name : Name} {steps : List PlaceStep} {kind : MappingKind}
      {before after : List (Value × Value)} {v u : Value} (hkeys : ∀ f ∈ before, f.1.IsText)
      (hvalues : ∀ f ∈ before, f.2.Accepted) (h : Reaches v steps u) :
      Reaches (.mapping kind (before ++ (name.toValue, v) :: after)) (.name name :: steps) u
  | item {steps : List PlaceStep} {kind : ItemsKind} {before after : List Value} {v u : Value}
      (hbefore : ∀ w ∈ before, w.Accepted) (h : Reaches v steps u) :
      Reaches (.items kind (before ++ v :: after)) (.index before.length :: steps) u
  | drawn {steps : List PlaceStep} {id : Nat} {before after : List Value}
      {ending : Option Failure} {v u : Value} (hbefore : ∀ w ∈ before, w.Accepted)
      (h : Reaches v steps u) :
      Reaches (.generator id (before ++ v :: after) ending) (.index before.length :: steps) u

/-- What is wrong with a value itself, and the type that is to blame. A mapping
    is to blame for its first key that is no text, if the entries before it are
    accepted. -/
inductive Refused : Value → Objection → String → Prop
  | block {id : Nat} : Refused (.block id) .handle "Block"
  | fieldRef {id : Nat} {ps : List String} : Refused (.fieldRef id ps) .handle "_FieldRef"
  | nonFinite {x : Binary64} {form : NumberForm} (h : x.isFinite = false) :
      Refused (.scalar (.float x form)) (.nonFinite x) "float"
  | key {kind : MappingKind} {before after : List (Value × Value)} {k v : Value}
      (hkeys : ∀ f ∈ before, f.1.IsText) (hvalues : ∀ f ∈ before, f.2.Accepted)
      (h : ¬ k.IsText) : Refused (.mapping kind (before ++ (k, v) :: after)) .key k.typeName
  | binary {kind : BinaryKind} {bytes : Bytes} :
      Refused (.alien (.binary kind bytes)) .binary (Alien.binary kind bytes).typeName
  | alien {a : Alien} (h : ∀ kind bytes, a ≠ .binary kind bytes) :
      Refused (.alien a) .foreign a.typeName
  | failure {e : Failure} : Refused (.failure e) .foreign e.className
  | live {id : Nat} : Refused (.live id) .foreign "dict"
  | tag {n : Nat} {v : Value} : Refused (.tag n v) .foreign "CBORTag"

/-- What is wrong with the value at a place: it is refused, or it is a generator
    that fails after its items have been accepted. -/
inductive Fault (path : Name) : Value → Failure → Prop
  | refused {u : Value} {why : Objection} {typeName : String} (h : u.Refused why typeName) :
      Fault path u (.refused why typeName (some path))
  | interrupted {id : Nat} {xs : List Value} {cause : Failure} (h : ∀ v ∈ xs, v.Accepted) :
      Fault path (.generator id xs (some cause)) cause.inGenerator

/-- The first fault of the value at `path` is an error. -/
def Fails (path : Name) (v : Value) (e : Failure) : Prop :=
  ∃ steps u, v.Reaches steps u ∧ Fault (place path steps) u e

/-- A generator fails before anything is refused. -/
def Interrupted (v : Value) : Prop :=
  ∃ steps id xs cause, v.Reaches steps (.generator id xs (some cause)) ∧
    ∀ u ∈ xs, Accepted u

end Value

/-! ## Places -/

/-- Behind a place that is written out, every step is written behind it. -/
theorem place_ofText {s : String} (h : s ≠ "") (steps : List PlaceStep) :
    place (.ofText s) steps = .ofText (s ++ String.join (steps.map PlaceStep.written)) := by
  cases steps with
  | nil => exact congrArg Name.ofText String.append_empty.symm
  | cons step rest =>
      cases step with
      | name n => exact if_neg fun hempty => h (String.isEmpty_iff.mp hempty)
      | index i => rfl

/-- What is written for the first step can be written to the place before it. -/
theorem place_written (path : Name) (step : PlaceStep) (steps : List PlaceStep) :
    place (.ofText (path.display ++ step.written)) steps =
      .ofText (path.display ++ String.join ((step :: steps).map PlaceStep.written)) := by
  have hwritten : path.display ++ step.written ≠ "" := by
    cases step <;> simp [PlaceStep.written]
  rw [place_ofText hwritten, List.map_cons, String.join_cons, String.append_assoc]

/-- A number in front is the number of an item of the collection at `path`. -/
theorem place_index (path : Name) (i : Nat) (steps : List PlaceStep) :
    place path (.index i :: steps) = place (itemPath path i) steps := by
  have hpath : itemPath path i = .ofText (path.display ++ PlaceStep.written (.index i)) := by
    simp only [itemPath, PlaceStep.written, String.append_assoc]
  rw [hpath, place_written, place]

/-- A name in front is the name of a field of the mapping at `path`. -/
theorem place_name (path name : Name) (steps : List PlaceStep) :
    place path (.name name :: steps) = place (fieldPath path name) steps := by
  unfold fieldPath
  rw [place]
  split
  · rfl
  · rw [String.append_assoc]
    exact (place_written path (.name name) steps).symm

/-! ## The first fault -/

/-- An item of a list from item `i` on has a fault, and those before it are
    accepted. -/
def FailsAmong (path : Name) (i : Nat) (vs : List Value) (e : Failure) : Prop :=
  ∃ before v after, vs = before ++ v :: after ∧ (∀ u ∈ before, u.Accepted) ∧
    v.Fails (itemPath path (i + before.length)) e

/-- An entry has a key that is no text, or a value that has a fault, and those
    before it are accepted. -/
def FailsAmongEntries (path : Name) (es : List (Value × Value)) (e : Failure) : Prop :=
  ∃ before k v after, es = before ++ (k, v) :: after ∧
    (∀ f ∈ before, f.1.IsText) ∧ (∀ f ∈ before, f.2.Accepted) ∧
    ((¬ k.IsText ∧ e = .refuse .key k (some path)) ∨
      ∃ name : Name, k = name.toValue ∧ v.Fails (fieldPath path name) e)

section

variable {path : Name} {e : Failure}

theorem failsAmong_here {i : Nat} {v : Value} {vs : List Value}
    (h : v.Fails (itemPath path i) e) : FailsAmong path i (v :: vs) e :=
  ⟨[], v, vs, rfl, nofun, h⟩

theorem failsAmong_after {i : Nat} {v : Value} {vs : List Value} (hv : v.Accepted)
    (h : FailsAmong path (i + 1) vs e) : FailsAmong path i (v :: vs) e := by
  rcases h with ⟨before, u, after, rfl, hbefore, hu⟩
  refine ⟨v :: before, u, after, rfl, List.forall_mem_cons.mpr ⟨hv, hbefore⟩, ?_⟩
  rwa [List.length_cons, ← Nat.add_assoc, Nat.add_right_comm]

theorem failsAmongEntries_after {f : Value × Value} {es : List (Value × Value)}
    (hkey : f.1.IsText) (hv : f.2.Accepted) (h : FailsAmongEntries path es e) :
    FailsAmongEntries path (f :: es) e := by
  rcases h with ⟨before, k, v, after, rfl, hkeys, hvalues, hfault⟩
  exact ⟨f :: before, k, v, after, rfl, List.forall_mem_cons.mpr ⟨hkey, hkeys⟩,
    List.forall_mem_cons.mpr ⟨hv, hvalues⟩, hfault⟩

namespace Value.Fails

theorem self {v : Value} {why : Objection} {typeName : String} (h : v.Refused why typeName) :
    v.Fails path (.refused why typeName (some path)) :=
  ⟨[], v, .here, .refused h⟩

theorem items {kind : ItemsKind} {vs : List Value} (h : FailsAmong path 0 vs e) :
    (Value.items kind vs).Fails path e := by
  rcases h with ⟨before, v, after, rfl, hbefore, steps, u, hu, hfault⟩
  rw [Nat.zero_add, ← place_index] at hfault
  exact ⟨_, u, .item hbefore hu, hfault⟩

theorem generator {id : Nat} {vs : List Value} {ending : Option Failure}
    (h : FailsAmong path 0 vs e) : (Value.generator id vs ending).Fails path e := by
  rcases h with ⟨before, v, after, rfl, hbefore, steps, u, hu, hfault⟩
  rw [Nat.zero_add, ← place_index] at hfault
  exact ⟨_, u, .drawn hbefore hu, hfault⟩

theorem mapping {kind : MappingKind} {es : List (Value × Value)}
    (h : FailsAmongEntries path es e) : (Value.mapping kind es).Fails path e := by
  rcases h with ⟨before, k, v, after, rfl, hkeys, hvalues, ⟨hkey, rfl⟩ | ⟨name, rfl, hv⟩⟩
  · exact self (.key hkeys hvalues hkey)
  · rcases hv with ⟨steps, u, hu, hfault⟩
    exact ⟨_, u, .entry hkeys hvalues hu, place_name path name steps ▸ hfault⟩

end Value.Fails

theorem not_accepted_of_refused {v : Value} {why : Objection} {typeName : String}
    (h : v.Refused why typeName) : ¬ v.Accepted := by
  intro hv
  cases h with
  | nonFinite hx =>
      cases hv with
      | scalar hfinite => exact absurd (hfinite _ _ rfl) (by rw [hx]; exact Bool.false_ne_true)
  | key _ _ hkey =>
      cases hv with
      | mapping hkeys _ => exact hkey (hkeys _ (List.mem_append_right _ List.mem_cons_self))
  | _ => cases hv

theorem Value.Fault.not_accepted {u : Value} (h : Fault path u e) :
    ¬ u.Accepted := by
  cases h with
  | refused h => exact not_accepted_of_refused h
  | interrupted _ => exact nofun

theorem Value.Reaches.accepted {steps : List PlaceStep} {v u : Value} (h : v.Reaches steps u)
    (hv : v.Accepted) : u.Accepted := by
  induction h with
  | here => exact hv
  | entry _ _ _ ih =>
      cases hv with
      | mapping _ hvalues => exact ih (hvalues _ (List.mem_append_right _ List.mem_cons_self))
  | item _ _ ih =>
      cases hv with
      | items h => exact ih (h _ (List.mem_append_right _ List.mem_cons_self))
  | drawn _ _ ih =>
      cases hv with
      | generator h => exact ih (h _ (List.mem_append_right _ List.mem_cons_self))

/-- What has a fault is not accepted. -/
theorem Value.Fails.not_accepted {v : Value} (h : v.Fails path e) : ¬ v.Accepted := by
  rcases h with ⟨steps, u, hu, hfault⟩
  exact fun hv => hfault.not_accepted (hu.accepted hv)

/-- The first element without a property has one place in a list. -/
theorem first_unique {α : Type} {P : α → Prop} {x y : α} {before before' after after' : List α}
    (h : before ++ x :: after = before' ++ y :: after') (hbefore : ∀ a ∈ before, P a)
    (hbefore' : ∀ a ∈ before', P a) (hx : ¬ P x) (hy : ¬ P y) : before = before' ∧ x = y := by
  induction before generalizing before' with
  | nil =>
      cases before' with
      | nil => exact ⟨rfl, (List.cons.inj h).1⟩
      | cons b rest => exact absurd ((List.cons.inj h).1 ▸ hbefore' b List.mem_cons_self) hx
  | cons a rest ih =>
      rw [List.forall_mem_cons] at hbefore
      cases before' with
      | nil => exact absurd ((List.cons.inj h).1 ▸ hbefore.1) hy
      | cons b rest' =>
          rw [List.forall_mem_cons] at hbefore'
          rcases List.cons.inj h with ⟨rfl, htail⟩
          rcases ih htail hbefore.2 hbefore'.2 with ⟨rfl, hxy⟩
          exact ⟨rfl, hxy⟩

theorem Name.toValue_inj {name name' : Name} (h : name.toValue = name'.toValue) :
    name = name' := by
  rcases name with ⟨text, form⟩
  rcases name' with ⟨text', form'⟩
  cases h
  rfl

theorem fails_items {kind : ItemsKind} {vs : List Value} :
    (Value.items kind vs).Fails path e ↔ FailsAmong path 0 vs e := by
  refine ⟨fun h => ?_, Value.Fails.items⟩
  rcases h with ⟨steps, u, hu, hfault⟩
  cases hu with
  | here =>
      cases hfault with
      | refused h => cases h
  | item hbefore hu =>
      exact ⟨_, _, _, rfl, hbefore, _, u, hu, by rwa [Nat.zero_add, ← place_index]⟩

theorem fails_mapping {kind : MappingKind} {es : List (Value × Value)} :
    (Value.mapping kind es).Fails path e ↔ FailsAmongEntries path es e := by
  refine ⟨fun h => ?_, Value.Fails.mapping⟩
  rcases h with ⟨steps, u, hu, hfault⟩
  cases hu with
  | here =>
      cases hfault with
      | refused h =>
          cases h with
          | key hkeys hvalues hkey =>
              exact ⟨_, _, _, _, rfl, hkeys, hvalues, Or.inl ⟨hkey, rfl⟩⟩
  | entry hkeys hvalues hu =>
      refine ⟨_, _, _, _, rfl, hkeys, hvalues, Or.inr ⟨_, rfl, _, u, hu, ?_⟩⟩
      rwa [← place_name]

theorem fails_generator {id : Nat} {vs : List Value} {ending : Option Failure} :
    (Value.generator id vs ending).Fails path e ↔ FailsAmong path 0 vs e ∨
      (∀ v ∈ vs, v.Accepted) ∧ ∃ cause, ending = some cause ∧ e = cause.inGenerator := by
  constructor
  · rintro ⟨steps, u, hu, hfault⟩
    cases hu with
    | here =>
        cases hfault with
        | refused h => cases h
        | interrupted h => exact Or.inr ⟨h, _, rfl, rfl⟩
    | drawn hbefore hu =>
        exact Or.inl ⟨_, _, _, rfl, hbefore, _, u, hu, by rwa [Nat.zero_add, ← place_index]⟩
  · rintro (h | ⟨h, cause, rfl, rfl⟩)
    · exact Value.Fails.generator h
    · exact ⟨[], _, .here, .interrupted h⟩

/-- Behind accepted items, an item that is not accepted has the fault of the list. -/
theorem failsAmong_inv {before after : List Value} {v : Value} {i : Nat}
    (hbefore : ∀ u ∈ before, u.Accepted) (hv : ¬ v.Accepted)
    (h : FailsAmong path i (before ++ v :: after) e) :
    v.Fails (itemPath path (i + before.length)) e := by
  rcases h with ⟨before', v', after', heq, hbefore', hfails⟩
  rcases first_unique heq hbefore hbefore' hv hfails.not_accepted with ⟨rfl, rfl⟩
  exact hfails

theorem not_among_of_accepted {vs : List Value} {i : Nat} (hvs : ∀ v ∈ vs, v.Accepted) :
    ¬ FailsAmong path i vs e := by
  rintro ⟨before, v, after, rfl, -, hv⟩
  exact hv.not_accepted (hvs v (List.mem_append_right _ List.mem_cons_self))

theorem failsAmongEntries_inv {before after : List (Value × Value)} {k v : Value}
    (hkeys : ∀ f ∈ before, f.1.IsText) (hvalues : ∀ f ∈ before, f.2.Accepted)
    (hkv : ¬ (k.IsText ∧ v.Accepted))
    (h : FailsAmongEntries path (before ++ (k, v) :: after) e) :
    (¬ k.IsText ∧ e = .refuse .key k (some path)) ∨
      ∃ name : Name, k = name.toValue ∧ v.Fails (fieldPath path name) e := by
  rcases h with ⟨before', k', v', after', heq, hkeys', hvalues', hfault⟩
  have hkv' : ¬ (k'.IsText ∧ v'.Accepted) := by
    rintro ⟨htext, hv'⟩
    rcases hfault with ⟨hkey, -⟩ | ⟨name, -, hfails⟩
    · exact hkey htext
    · exact hfails.not_accepted hv'
  -- Both places are the first at which an entry is at fault.
  have hplace := first_unique heq (P := fun f => f.1.IsText ∧ f.2.Accepted)
    (fun f hf => ⟨hkeys f hf, hvalues f hf⟩) (fun f hf => ⟨hkeys' f hf, hvalues' f hf⟩) hkv hkv'
  rcases Prod.mk.inj hplace.2 with ⟨rfl, rfl⟩
  exact hfault

/-- A value that is at fault itself has no other first fault. -/
theorem Value.Fault.unique {v : Value} {e' : Failure} (h : Fault path v e)
    (h' : v.Fails path e') : e' = e := by
  cases h with
  | interrupted hall =>
      rcases fails_generator.mp h' with hamong | ⟨-, cause, hcause, rfl⟩
      · exact absurd hamong (not_among_of_accepted hall)
      · rw [Option.some.inj hcause]
  | refused h =>
      cases h with
      | key hkeys hvalues hkey =>
          -- The entries before are accepted, so that no fault is found among them.
          rcases failsAmongEntries_inv hkeys hvalues (fun hkv => hkey hkv.1) (fails_mapping.mp h')
            with ⟨-, rfl⟩ | ⟨name, hname, -⟩
          · rfl
          · exact absurd ⟨name, hname⟩ hkey
      | alien ha =>
          rcases h' with ⟨steps, u, hu, hfault⟩
          cases hu
          cases hfault with
          | refused h =>
              cases h with
              | binary => exact absurd rfl (ha _ _)
              | alien _ => rfl
      | binary =>
          rcases h' with ⟨steps, u, hu, hfault⟩
          cases hu
          cases hfault with
          | refused h =>
              cases h with
              | binary => rfl
              | alien ha => exact absurd rfl (ha _ _)
      | _ =>
          rcases h' with ⟨steps, u, hu, hfault⟩
          cases hu
          cases hfault with
          | refused h =>
              cases h
              rfl

/-- There is one first fault. -/
theorem Value.Fails.unique {v : Value} {e' : Failure} (h : v.Fails path e)
    (h' : v.Fails path e') : e' = e := by
  rcases h with ⟨steps, u, hu, hfault⟩
  -- What leads to the fault is not accepted itself, and all that comes before it is.
  have hunaccepted := hfault.not_accepted
  induction hu generalizing path with
  | here => exact hfault.unique h'
  | entry hkeys hvalues hu ih =>
      have hv := fun hv => hunaccepted (hu.accepted hv)
      rw [place_name] at hfault
      rcases failsAmongEntries_inv hkeys hvalues (fun hkv => hv hkv.2) (fails_mapping.mp h')
        with ⟨hkey, -⟩ | ⟨name, hname, hfails⟩
      · exact absurd ⟨_, rfl⟩ hkey
      · exact ih (Name.toValue_inj hname ▸ hfails) hfault hunaccepted
  | item hbefore hu ih =>
      rw [place_index] at hfault
      refine ih ?_ hfault hunaccepted
      have hinv := failsAmong_inv hbefore (fun hv => hunaccepted (hu.accepted hv))
        (fails_items.mp h')
      rwa [Nat.zero_add] at hinv
  | drawn hbefore hu ih =>
      have hv := fun hv => hunaccepted (hu.accepted hv)
      rw [place_index] at hfault
      rcases fails_generator.mp h' with hamong | ⟨hall, -⟩
      · refine ih ?_ hfault hunaccepted
        have hinv := failsAmong_inv hbefore hv hamong
        rwa [Nat.zero_add] at hinv
      · exact absurd (hall _ (List.mem_append_right _ List.mem_cons_self)) hv

end

end Docket
