import Docket.Proofs.Recording.Classifying

/-!
# Putting entries in

A mapping is built by putting its entries in one after another. As long as their
keys are texts, this is folding them in order (`enter_entries`). A key that is no
text stays there (`enter_refused`), and a value that cannot be a key is refused.

## Main definitions

* `Value.name?`: The name that a key makes.
* `enter`: Entries put in one after another.

## Theorems

* `subperm_enter`: Putting entries in multiplies nothing.
* `enter_entries`, `enter_refused`: Entries under texts, and others.
* `yields_dictEntries`, `yields_dictEntries_error`: What is put in, and what is not.
-/

namespace Docket

/-! ## One entry -/

/-- Putting an entry in makes no generator occur more often. -/
theorem subperm_setEntry (es : List (Value × Value)) (key v : Value) (f : Value → List Nat) :
    ((setEntry es key v).flatMap fun e => f e.2).Subperm ((es.flatMap fun e => f e.2) ++ f v) := by
  induction es with
  | nil => exact (@List.perm_append_comm _ (f v) []).subperm
  | cons e rest ih =>
      rw [setEntry, List.flatMap_cons, List.append_assoc]
      by_cases hsame : e.1.sameKey key = true
      · rw [if_pos hsame, List.flatMap_cons]
        exact List.perm_append_comm.subperm.trans (List.sublist_append_right (f e.2) _).subperm
      · rw [if_neg hsame, List.flatMap_cons]
        exact (List.subperm_append_left _).mpr ih

/-- A key that is no text is no key of a text. -/
theorem Scalar.not_sameKey {a b : Scalar} (ha : a.name? ≠ none) (hb : b.name? = none) :
    a.sameKey b = false := by
  cases a with
  | text s form =>
      cases b with
      | text t form' => exact absurd hb (Option.some_ne_none _)
      | _ => rfl
  | _ => exact absurd rfl ha

/-- Whether a value makes the name of a field. -/
def Value.name? (v : Value) : Option Name := v.scalar?.bind Scalar.name?

theorem Value.eq_of_name? {v : Value} {name : Name} (h : v.name? = some name) :
    v = name.toValue := by
  cases v with
  | scalar t =>
      cases t with
      | text s form =>
          rw [← Option.some.inj h]
          rfl
      | _ => exact absurd h.symm (Option.some_ne_none name)
  | _ => exact absurd h.symm (Option.some_ne_none name)

theorem Value.not_sameKey {a b : Value} {t : Scalar} (ha : a.name? ≠ none)
    (hb : b.scalar? = some t) (ht : t.name? = none) : a.sameKey b = false := by
  cases b with
  | scalar u =>
      rw [scalar?, Option.some.injEq] at hb
      subst hb
      cases a with
      | scalar u =>
          rw [sameKey]
          exact Scalar.not_sameKey ha ht
      | _ => exact absurd rfl ha
  | _ => exact absurd hb.symm (Option.some_ne_none t)

/-- A key that is no text stays, and one that comes in does, too. -/
theorem setEntry_refused {es : List (Value × Value)} {key v : Value} (hkey : key.scalar? ≠ none)
    (h : (∃ e ∈ es, e.1.name? = none) ∨ key.name? = none) :
    ∃ e ∈ setEntry es key v, e.1.name? = none := by
  induction es with
  | nil =>
      rcases h with ⟨e, he, -⟩ | h
      · exact absurd he List.not_mem_nil
      · exact ⟨(key, v), List.mem_cons_self, h⟩
  | cons e rest ih =>
      rw [setEntry]
      by_cases hnone : e.1.name? = none
      · by_cases hsame : e.1.sameKey key = true
        · rw [if_pos hsame]
          exact ⟨(e.1, v), List.mem_cons_self, hnone⟩
        · rw [if_neg hsame]
          exact ⟨e, List.mem_cons_self, hnone⟩
      · have hrest : (∃ f ∈ rest, f.1.name? = none) ∨ key.name? = none := by
          rcases h with ⟨f, hf, hfnone⟩ | h
          · rcases List.mem_cons.mp hf with rfl | hf
            · exact absurd hfnone hnone
            · exact Or.inl ⟨f, hf, hfnone⟩
          · exact Or.inr h
        by_cases hsame : e.1.sameKey key = true
        · -- A text is one key with texts only, so another key is refused.
          rw [if_pos hsame]
          rcases hrest with ⟨f, hf, hfnone⟩ | h
          · exact ⟨f, List.mem_cons_of_mem _ hf, hfnone⟩
          · rcases Option.ne_none_iff_exists'.mp hkey with ⟨t, ht⟩
            rw [Value.name?, ht, Option.bind_some] at h
            rw [Value.not_sameKey hnone ht h] at hsame
            exact absurd hsame Bool.false_ne_true
        · rw [if_neg hsame]
          rcases ih hrest with ⟨f, hf, hfnone⟩
          exact ⟨f, List.mem_cons_of_mem e hf, hfnone⟩

/-! ## All entries -/

/-- Entries put in one after another. -/
def enter (done : List (Value × Value)) : List (Value × Value) → List (Value × Value)
  | [] => done
  | (key, v) :: rest => enter (setEntry done key v) rest

theorem forall_enter {P : Value → Prop} {pairs done : List (Value × Value)}
    (hpairs : ∀ p ∈ pairs, P p.2) (hdone : ∀ e ∈ done, P e.2) : ∀ e ∈ enter done pairs, P e.2 := by
  induction pairs generalizing done with
  | nil => exact hdone
  | cons p rest ih =>
      rw [List.forall_mem_cons] at hpairs
      exact ih hpairs.2 (forall_setEntry p.1 hdone hpairs.1)

theorem subperm_enter (pairs done : List (Value × Value)) (f : Value → List Nat) :
    ((enter done pairs).flatMap fun e => f e.2).Subperm
      ((done.flatMap fun e => f e.2) ++ pairs.flatMap fun e => f e.2) := by
  induction pairs generalizing done with
  | nil =>
      rw [List.flatMap_nil, List.append_nil]
      exact List.Subperm.refl _
  | cons p rest ih =>
      rw [enter, List.flatMap_cons, ← List.append_assoc]
      exact (ih _).trans ((subperm_setEntry done p.1 p.2 f).append (List.Subperm.refl _))

theorem enter_refused {pairs done : List (Value × Value)} (hkeys : ∀ p ∈ pairs, p.1.scalar? ≠ none)
    (h : (∃ e ∈ done, e.1.name? = none) ∨ ∃ p ∈ pairs, p.1.name? = none) :
    ∃ e ∈ enter done pairs, e.1.name? = none := by
  induction pairs generalizing done with
  | nil =>
      rcases h with h | ⟨p, hp, -⟩
      · exact h
      · exact absurd hp List.not_mem_nil
  | cons p rest ih =>
      rw [List.forall_mem_cons] at hkeys
      refine ih hkeys.2 ?_
      rcases h with h | ⟨q, hq, hnone⟩
      · exact Or.inl (setEntry_refused hkeys.1 (Or.inl h))
      · rcases List.mem_cons.mp hq with rfl | hq
        · exact Or.inl (setEntry_refused hkeys.1 (Or.inr hnone))
        · exact Or.inr ⟨q, hq, hnone⟩

/-- Entries under texts are put in by folding them in order. -/
theorem enter_entries (fs done : Fields) :
    enter done.entries fs.entries =
      Fields.entries (fs.foldl (fun done f => placed done f.1 f.2) done) := by
  -- One entry is put in where a field of its name would be.
  have hset : ∀ (done : Fields) (name : Name) (v : Value),
      setEntry done.entries name.toValue v = Fields.entries (placed done name v) := by
    intro done name v
    induction done with
    | nil => rfl
    | cons f rest ih =>
        have hsame : f.1.toValue.sameKey name.toValue = (f.1.text == name.text) := by
          unfold Name.toValue
          rw [Value.sameKey]
          rfl
        rw [placed, Fields.entries, List.map_cons, setEntry, hsame]
        by_cases htext : f.1.text = name.text
        · rw [if_pos (beq_iff_eq.mpr htext), if_pos htext]
          rfl
        · rw [if_neg fun h => htext (beq_iff_eq.mp h), if_neg htext]
          exact congrArg (List.cons _) ih
  induction fs generalizing done with
  | nil => rfl
  | cons f rest ih =>
      rw [List.foldl_cons, ← ih, ← hset]
      rfl

/-! ## What is put in -/

section

variable {s : Session}

theorem yields_dictEntries {pairs : List (Value × Value)}
    (h : ∀ p ∈ pairs, p.1.unhashable? = none) :
    Yields (dictEntries pairs) s (.ok (enter [] pairs)) s := by
  unfold dictEntries
  generalize ([] : List (Value × Value)) = done
  induction pairs generalizing done with
  | nil => exact yields_pure.mpr ⟨rfl, rfl⟩
  | cons p rest ih =>
      rw [List.forall_mem_cons] at h
      rw [List.foldlM_cons, h.1]
      exact (yields_bind_ok (yields_pure.mpr ⟨rfl, rfl⟩)).mpr (ih h.2 _)

theorem yields_dictEntries_error {pairs : List (Value × Value)}
    (h : ∃ p ∈ pairs, p.1.unhashable?.isSome = true) :
    ∃ e, Yields (dictEntries pairs) s (.error e) s := by
  unfold dictEntries
  -- Stated for any entries made so far, as the induction needs it.
  generalize ([] : List (Value × Value)) = done
  induction pairs generalizing done with
  | nil =>
      rcases h with ⟨p, hp, -⟩
      exact absurd hp List.not_mem_nil
  | cons p rest ih =>
      rw [List.foldlM_cons]
      cases hp : p.1.unhashable? with
      | some t =>
          exact ⟨_, (yields_bind_error (yields_throw.mpr ⟨rfl, rfl⟩)).mpr ⟨rfl, rfl⟩⟩
      | none =>
          rcases h with ⟨q, hq, hsome⟩
          rcases List.mem_cons.mp hq with rfl | hq
          · rw [hp] at hsome
            exact absurd hsome Bool.false_ne_true
          · rcases ih ⟨q, hq, hsome⟩ (setEntry done p.1 p.2) with ⟨e, he⟩
            exact ⟨e, (yields_bind_ok (yields_pure.mpr ⟨rfl, rfl⟩)).mpr he⟩

end

end Docket
