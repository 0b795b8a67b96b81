import Docket.Causes
import Mathlib.Data.List.Nodup

/-!
# Roots of errors

The search for the root of an error follows the causes of wrapping errors until
it comes to an error that wraps none, or to one it has met before. Causes may lead
round in a circle, so the length of the way is no measure of the search; what it
uses up are the errors it has not met, of which there are only so many.

`Unwraps` is the search as it goes, without any bound on its steps: a derivation of
it is a search that came to an end. What it comes to is then told without the
search, by the chain of causes (`chain`), which takes no notice of classes: the
root is where the chain first leads to an error that wraps none, or else where it
first leads to an error that it led to before (`IsRoot`). The two cannot compete.
Where a chain has led to some error twice it goes round for ever, through wrapping
errors only, and never comes to one that wraps none (`chain_round`).

## Main definitions

* `Errors.IsWrapper`, `Errors.Wraps`: Errors of the classes that only wrap, and
  those among them that have a cause.
* `Errors.Unwraps`: The search for a root.
* `Errors.chain`: The errors that causes lead to.
* `Errors.IsRoot`: Where a chain ends or goes round.
* `FindsRoot`: All that is known of the root of an error.

## Theorems

* `Errors.unwraps_follow`: The search ends while there are errors not met.
* `Errors.isRoot_root`: What it comes to.
* `Errors.IsRoot.unique`, `Errors.IsRoot.again`: An error has one root, and that is
  its own root.
* `Errors.root_link`: Whose causes the search looks at.
* `findsRoot`: The root of every error is found.
-/

namespace Docket

namespace Errors

variable {errors : Errors} {id root : Nat}

/-- An error is of one of the two classes of errors that only wrap the one that
    caused them. -/
def IsWrapper (errors : Errors) (id : Nat) : Prop :=
  ∃ r, errors[id]? = some r ∧ (r.cls = .kind .actionFailed ∨ r.cls = .kind .compile)

/-- An error wraps the one that caused it. -/
def Wraps (errors : Errors) (id : Nat) : Prop :=
  errors.IsWrapper id ∧ ∃ cause, errors.cause? id = some cause

/-- The search for a root, past the errors already met. It goes on from an error
    that wraps another, unless that was met before. -/
inductive Unwraps (errors : Errors) : List Nat → Nat → Nat → Prop
  | plain {seen id} (h : ¬ errors.Wraps id) : Unwraps errors seen id id
  | again {seen id} (h : errors.Wraps id) (hseen : id ∈ seen) : Unwraps errors seen id id
  | cause {seen id cause root} (h : errors.Wraps id) (hseen : id ∉ seen)
      (hcause : errors.cause? id = some cause) (hrest : Unwraps errors (id :: seen) cause root) :
      Unwraps errors seen id root

/-- The error that a number of causes lead to. -/
def chain (errors : Errors) (id : Nat) : Nat → Option Nat
  | 0 => some id
  | n + 1 => (errors.cause? id).bind fun cause => chain errors cause n

/-- The chain of causes leads through different errors, all of which wrap another,
    to the first that wraps none or that was on the way before. -/
def IsRoot (errors : Errors) (id root : Nat) : Prop :=
  ∃ steps, errors.chain id steps = some root ∧
    (∀ n < steps, ∃ j, errors.chain id n = some j ∧ errors.Wraps j) ∧
    (∀ m n, m < n → n < steps → errors.chain id m ≠ errors.chain id n) ∧
    (¬ errors.Wraps root ∨ ∃ n < steps, errors.chain id n = some root)

/-! ### The search -/

theorem wraps_eq_true_iff {c : ErrorClass} :
    c.wraps = true ↔ c = .kind .actionFailed ∨ c = .kind .compile := by
  rcases c with k | _ | name
  · cases k <;> decide
  · exact iff_of_false Bool.false_ne_true (by rintro (h | h) <;> cases h)
  · exact iff_of_false Bool.false_ne_true (by rintro (h | h) <;> cases h)

/-- The cause that the search goes on to, if it does. -/
theorem wrapped?_eq_some_iff {cause : Nat} :
    errors.wrapped? id = some cause ↔ errors.IsWrapper id ∧ errors.cause? id = some cause := by
  unfold wrapped? IsWrapper cause?
  cases hr : errors[id]? with
  | none => exact iff_of_false nofun fun h => absurd h.2 nofun
  | some r =>
      simp only [Option.some.injEq, exists_eq_left', Option.bind_some, ← wraps_eq_true_iff]
      by_cases hw : r.cls.wraps = true
      · rw [if_pos hw, and_iff_right hw]
      · rw [if_neg hw]
        exact iff_of_false nofun fun h => hw h.1

theorem wrapped?_eq_none_iff : errors.wrapped? id = none ↔ ¬ errors.Wraps id := by
  constructor
  · rintro h ⟨hwrapper, cause, hcause⟩
    rw [wrapped?_eq_some_iff.mpr ⟨hwrapper, hcause⟩] at h
    exact absurd h nofun
  · intro h
    cases hw : errors.wrapped? id with
    | none => rfl
    | some cause =>
        rcases wrapped?_eq_some_iff.mp hw with ⟨hwrapper, hcause⟩
        exact absurd ⟨hwrapper, cause, hcause⟩ h

/-- Only errors that there are wrap others. -/
theorem Wraps.lt_size (h : errors.Wraps id) : id < errors.size := by
  rcases h with ⟨⟨r, hr, -⟩, -⟩
  exact (Array.getElem?_eq_some_iff.mp hr).1

/-- The search ends, by induction on its steps: as long as there are more of them than
    errors not met, they are not used up. -/
theorem unwraps_follow {steps : Nat} {seen : List Nat} (hnodup : seen.Nodup)
    (hseen : ∀ j ∈ seen, j < errors.size) (hsteps : errors.size < seen.length + steps) :
    errors.Unwraps seen id (errors.follow steps seen id) := by
  induction steps generalizing seen id with
  | zero =>
      -- There is not one error that has not been met, which the number of steps rules out.
      have hle : seen.length ≤ (List.range errors.size).length :=
        hnodup.length_le_of_subset fun j hj => List.mem_range.mpr (hseen j hj)
      rw [List.length_range] at hle
      omega
  | succ steps ih =>
      rw [follow]
      cases hw : errors.wrapped? id with
      | none => exact Unwraps.plain (wrapped?_eq_none_iff.mp hw)
      | some cause =>
          rcases wrapped?_eq_some_iff.mp hw with ⟨hwrapper, hcause⟩
          have hwraps : errors.Wraps id := ⟨hwrapper, cause, hcause⟩
          simp only [List.contains_iff_mem]
          split
          next hmem => exact Unwraps.again hwraps hmem
          next hmem =>
            -- One error more has been met with one step less to go.
            refine Unwraps.cause hwraps hmem hcause (ih (List.nodup_cons.mpr ⟨hmem, hnodup⟩) ?_ ?_)
            · exact List.forall_mem_cons.mpr ⟨hwraps.lt_size, hseen⟩
            · rw [List.length_cons]
              omega

theorem unwraps_root (errors : Errors) (id : Nat) : errors.Unwraps [] id (errors.root id) :=
  unwraps_follow List.nodup_nil (fun _ hj => absurd hj List.not_mem_nil) (by simp)

/-! ### The chain of causes -/

theorem chain_add (errors : Errors) (id m n : Nat) :
    errors.chain id (m + n) = (errors.chain id m).bind fun j => errors.chain j n := by
  induction m generalizing id with
  | zero =>
      rw [Nat.zero_add]
      rfl
  | succ m ih =>
      rw [Nat.succ_add, chain, chain]
      cases errors.cause? id with
      | none => rfl
      | some cause => exact ih cause

theorem chain_add_of_eq {m j : Nat} (n : Nat) (h : errors.chain id m = some j) :
    errors.chain id (m + n) = errors.chain j n := by
  rw [chain_add, h, Option.bind_some]

/-- What the search comes to, by induction along it: the way it took is a piece of
    the chain. -/
theorem Unwraps.chain {seen : List Nat} (h : errors.Unwraps seen id root) :
    ∃ steps, errors.chain id steps = some root ∧
      (∀ n < steps, ∃ j, errors.chain id n = some j ∧ errors.Wraps j ∧ j ∉ seen) ∧
      (∀ m n, m < n → n < steps → errors.chain id m ≠ errors.chain id n) ∧
      (¬ errors.Wraps root ∨ root ∈ seen ∨ ∃ n < steps, errors.chain id n = some root) := by
  induction h with
  | plain h => exact ⟨0, rfl, nofun, nofun, Or.inl h⟩
  | again h hseen => exact ⟨0, rfl, nofun, nofun, Or.inr (Or.inl hseen)⟩
  | @cause seen id cause root h hseen hcause _ ih =>
      rcases ih with ⟨steps, hroot, hwraps, hdistinct, hends⟩
      have hchain (n : Nat) : errors.chain id (n + 1) = errors.chain cause n := by
        rw [Errors.chain, hcause, Option.bind_some]
      -- The error itself was met, so the rest of the way does not come back to it.
      have hfirst : ∀ n < steps, errors.chain cause n ≠ some id := by
        intro n hn heq
        rcases hwraps n hn with ⟨j, hj, -, hj'⟩
        rw [heq] at hj
        exact hj' (Option.some.inj hj ▸ List.mem_cons_self)
      refine ⟨steps + 1, by rw [hchain, hroot], ?_, ?_, ?_⟩
      · rintro (_ | n) hn
        · exact ⟨id, rfl, h, hseen⟩
        · rcases hwraps n (Nat.lt_of_succ_lt_succ hn) with ⟨j, hj, hjw, hj'⟩
          exact ⟨j, by rw [hchain, hj], hjw, fun hmem => hj' (List.mem_cons_of_mem id hmem)⟩
      · rintro (_ | m) (_ | n) hmn hn
        · exact absurd hmn (Nat.lt_irrefl 0)
        · rw [hchain]
          exact (hfirst n (Nat.lt_of_succ_lt_succ hn)).symm
        · exact absurd hmn (Nat.not_lt_zero _)
        · rw [hchain, hchain]
          exact hdistinct m n (Nat.lt_of_succ_lt_succ hmn) (Nat.lt_of_succ_lt_succ hn)
      · rcases hends with hplain | hmem | ⟨n, hn, heq⟩
        · exact Or.inl hplain
        · rcases List.mem_cons.mp hmem with rfl | hmem
          · exact Or.inr (Or.inr ⟨0, Nat.succ_pos _, rfl⟩)
          · exact Or.inr (Or.inl hmem)
        · exact Or.inr (Or.inr ⟨n + 1, Nat.succ_lt_succ hn, by rw [hchain, heq]⟩)

theorem isRoot_root (errors : Errors) (id : Nat) : errors.IsRoot id (errors.root id) := by
  rcases (unwraps_root errors id).chain with ⟨steps, hroot, hwraps, hdistinct, hends⟩
  refine ⟨steps, hroot, fun n hn => ?_, hdistinct, ?_⟩
  · rcases hwraps n hn with ⟨j, hj, hjw, -⟩
    exact ⟨j, hj, hjw⟩
  · rcases hends with hplain | hmem | hround
    · exact Or.inl hplain
    · exact absurd hmem List.not_mem_nil
    · exact Or.inr hround

/-- A chain that has led to some error twice goes round from then on. -/
theorem chain_round {first steps : Nat} (hlt : first < steps)
    (h : errors.chain id first = errors.chain id steps) (n : Nat) :
    ∃ m < steps, errors.chain id n = errors.chain id m := by
  induction n with
  | zero => exact ⟨0, Nat.zero_lt_of_lt hlt, rfl⟩
  | succ n ih =>
      rcases ih with ⟨m, hm, heq⟩
      have hnext : errors.chain id (n + 1) = errors.chain id (m + 1) := by
        rw [chain_add, chain_add, heq]
      by_cases hlast : m + 1 = steps
      · exact ⟨first, hlt, by rw [hnext, hlast, h]⟩
      · exact ⟨m + 1, by omega, hnext⟩

namespace IsRoot

/-- The search does not go past an error that wraps none. -/
theorem eq_of_plain {n j : Nat} (h : errors.IsRoot id root) (hj : errors.chain id n = some j)
    (hplain : ¬ errors.Wraps j)
    (hbefore : ∀ m < n, ∀ i, errors.chain id m = some i → errors.Wraps i) : root = j := by
  rcases h with ⟨steps, hroot, hwraps, -, hends⟩
  have hnowhere : ∀ m < steps, errors.chain id m ≠ some j := by
    intro m hm heq
    rcases hwraps m hm with ⟨i, hi, hiw⟩
    rw [heq] at hi
    exact hplain (Option.some.inj hi ▸ hiw)
  rcases Nat.lt_trichotomy n steps with hlt | rfl | hlt
  · exact absurd hj (hnowhere n hlt)
  · exact Option.some.inj (hroot.symm.trans hj)
  · -- The root wraps another, so the chain goes round, and never comes to the plain error.
    rcases hends with hend | ⟨first, hfirst, heq⟩
    · exact absurd (hbefore steps hlt root hroot) hend
    · rcases chain_round hfirst (heq.trans hroot.symm) n with ⟨m, hm, hm'⟩
      exact absurd (hm'.symm.trans hj) (hnowhere m hm)

/-- Where all errors on the way wrap others, the root is the first that is met twice. -/
theorem round (h : errors.IsRoot id root)
    (hall : ∀ n, ∃ j, errors.chain id n = some j ∧ errors.Wraps j) :
    ∃ first again, first < again ∧ errors.chain id first = some root ∧
      errors.chain id again = some root ∧
      ∀ m n, m < n → n < again → errors.chain id m ≠ errors.chain id n := by
  rcases h with ⟨steps, hroot, -, hdistinct, hends⟩
  rcases hends with hplain | ⟨first, hfirst, heq⟩
  · rcases hall steps with ⟨j, hj, hjw⟩
    rw [hroot] at hj
    exact absurd (Option.some.inj hj ▸ hjw) hplain
  · exact ⟨first, steps, hfirst, heq, hroot, hdistinct⟩

theorem unique {root' : Nat} (h : errors.IsRoot id root) (h' : errors.IsRoot id root') :
    root = root' := by
  rcases h with ⟨steps, hroot, hwraps, hdistinct, hends⟩
  rcases h' with ⟨steps', hroot', hwraps', hdistinct', hends'⟩
  -- Neither way can be shorter: what ends one of them is on the other in passing.
  have hle {steps steps' root : Nat} (hroot : errors.chain id steps = some root)
      (hends : ¬ errors.Wraps root ∨ ∃ n < steps, errors.chain id n = some root)
      (hwraps : ∀ n < steps', ∃ j, errors.chain id n = some j ∧ errors.Wraps j)
      (hdistinct : ∀ m n, m < n → n < steps' → errors.chain id m ≠ errors.chain id n) :
      steps' ≤ steps := by
    refine Nat.le_of_not_lt fun hlt => ?_
    rcases hends with hplain | ⟨n, hn, heq⟩
    · rcases hwraps steps hlt with ⟨j, hj, hjw⟩
      rw [hroot] at hj
      exact hplain (Option.some.inj hj ▸ hjw)
    · exact hdistinct n steps hn hlt (heq.trans hroot.symm)
  have heq : steps = steps' :=
    Nat.le_antisymm (hle hroot' hends' hwraps hdistinct) (hle hroot hends hwraps' hdistinct')
  subst heq
  exact Option.some.inj (hroot.symm.trans hroot')

/-- A root is its own root: it wraps none, or the chain leads from it round to it. -/
theorem again (h : errors.IsRoot id root) : errors.IsRoot root root := by
  rcases h with ⟨steps, hroot, hwraps, hdistinct, hplain | ⟨first, hfirst, heq⟩⟩
  · exact ⟨0, rfl, nofun, nofun, Or.inl hplain⟩
  · have hshift (n : Nat) : errors.chain root n = errors.chain id (first + n) :=
      (chain_add_of_eq n heq).symm
    refine ⟨steps - first, ?_, ?_, ?_, Or.inr ⟨0, by omega, rfl⟩⟩
    · rw [hshift, Nat.add_sub_of_le (Nat.le_of_lt hfirst), hroot]
    · intro n hn
      rw [hshift]
      exact hwraps (first + n) (by omega)
    · intro m n hmn hn
      rw [hshift, hshift]
      exact hdistinct (first + m) (first + n) (by omega) (by omega)

end IsRoot

/-! ### Whose causes matter -/

/-- The search depends on the causes of wrapping errors only. -/
theorem follow_congr {errors' : Errors} (h : ∀ j, errors'.wrapped? j = errors.wrapped? j)
    (steps : Nat) (seen : List Nat) (id : Nat) :
    errors'.follow steps seen id = errors.follow steps seen id := by
  induction steps generalizing seen id with
  | zero => rfl
  | succ steps ih => simp only [follow, h, ih]

theorem wrapped?_link {other : Nat} (hother : ¬ errors.IsWrapper other) (cause : Option Nat)
    (j : Nat) : (errors.link other cause).wrapped? j = errors.wrapped? j := by
  unfold link wrapped?
  rw [Array.getElem?_modify]
  by_cases heq : other = j
  · subst heq
    rw [if_pos rfl]
    cases hr : errors[other]? with
    | none => rfl
    | some r =>
        have hw : ¬ r.cls.wraps = true := fun hw => hother ⟨r, hr, wraps_eq_true_iff.mp hw⟩
        simp only [Option.map_some, if_neg hw]
  · rw [if_neg heq]

/-- What causes an error that is no wrapper is never looked at. -/
theorem root_link {other : Nat} (hother : ¬ errors.IsWrapper other) (cause : Option Nat)
    (id : Nat) : (errors.link other cause).root id = errors.root id := by
  unfold root
  rw [follow_congr (wrapped?_link hother cause)]
  simp only [link, Array.size_modify]

end Errors

/-- All that is known of the root of an error. -/
structure FindsRoot (errors : Errors) (id : Nat) : Prop where
  /-- the search for it ends, and this is what it comes to -/
  ends : errors.Unwraps [] id (errors.root id)
  /-- it is the first error on the chain of causes that wraps none -/
  plain : ∀ n j, errors.chain id n = some j → ¬ errors.Wraps j →
    (∀ m < n, ∀ i, errors.chain id m = some i → errors.Wraps i) → errors.root id = j
  /-- where the chain leads through wrapping errors only, it is the first that is
      met twice -/
  round : (∀ n, ∃ j, errors.chain id n = some j ∧ errors.Wraps j) →
    ∃ first again, first < again ∧ errors.chain id first = some (errors.root id) ∧
      errors.chain id again = some (errors.root id) ∧
      ∀ m n, m < n → n < again → errors.chain id m ≠ errors.chain id n
  /-- it is its own root -/
  again : errors.root (errors.root id) = errors.root id
  /-- it does not depend on what caused an error that is no wrapper -/
  foreign : ∀ other cause, ¬ errors.IsWrapper other →
    (errors.link other cause).root id = errors.root id

theorem findsRoot (errors : Errors) (id : Nat) : FindsRoot errors id where
  ends := Errors.unwraps_root errors id
  plain := fun _ _ hj hplain hbefore => (Errors.isRoot_root errors id).eq_of_plain hj hplain hbefore
  round := fun hall => (Errors.isRoot_root errors id).round hall
  again := (Errors.isRoot_root errors _).unique (Errors.isRoot_root errors id).again
  foreign := fun _ cause hother => Errors.root_link hother cause id

end Docket
