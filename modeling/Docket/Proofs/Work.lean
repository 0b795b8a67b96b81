/-!
# Work with outcomes

Both the recording of blocks and the exchange of futures are work on a state
that may fail and keeps what it did when it fails. What such work comes to is a
function of the state it begins in, so one equation says everything about a
run: where it began, what came out, and what it left.

`Yields` names that equation, and the lemmas here take it apart along the
structure of a program. A program of two parts either fails in its first part,
or the first part succeeds and the second goes on from the state it left;
`yields_bind` is that case split, and the others say what each single operation
does. Properties of whole programs are assembled from them without ever looking
at how failing work is represented.

Reading a text is work of another kind: it forgets its state when it fails. What is
said about it is which errors it may fail with, and what holds of its state as long as
it does not. `Lands` says so of a result and `Carries` of work.

## Main definitions

* `Yields`: Work begun in one state comes to an outcome and leaves a state.
* `Lands`: A result is one of some values or one of some errors.
* `Carries`: Work keeps what holds of its state, and fails with some errors only.

## Theorems

* `yields_unique`: Work comes to one outcome only.
* `yields_bind`, `yields_bind_eq_ok`: Work in two parts.
* `yields_pure`, `yields_throw`, `yields_get`, `yields_modify`: Single operations.
* `yields_ofExcept`: A result that is known already.
* `yields_tryCatch`: Work with a handler.
* `Lands.bind`, `Carries.bind`: Results and work in two parts.
* `Carries.mapM`, `Carries.foldlM`: Work done for each member of a list.
-/

namespace Docket

section

variable {ε σ α β : Type}

/-- Work `p` begun in `s` comes to the outcome `r` and leaves `s'`. -/
def Yields (p : ExceptT ε (StateM σ) α) (s : σ) (r : Except ε α) (s' : σ) : Prop :=
  p.run.run s = (r, s')

/-- Whatever state work begins in, it comes to something. -/
theorem yields_run (p : ExceptT ε (StateM σ) α) (s : σ) :
    Yields p s (p.run.run s).1 (p.run.run s).2 := rfl

/-- Work that comes to a value comes to the value that it comes to. -/
theorem yields_getD {p : ExceptT ε (StateM σ) α} {s : σ} (a : α)
    (h : (p.run.run s).1.toOption.isSome = true) :
    Yields p s (.ok ((p.run.run s).1.toOption.getD a)) (p.run.run s).2 := by
  refine Prod.ext ?_ rfl
  cases hresult : (p.run.run s).1 with
  | ok b => rfl
  | error e =>
      rw [hresult] at h
      exact absurd h Bool.false_ne_true

theorem yields_unique {p : ExceptT ε (StateM σ) α} {s s₁ s₂ : σ} {r₁ r₂ : Except ε α}
    (h₁ : Yields p s r₁ s₁) (h₂ : Yields p s r₂ s₂) : r₁ = r₂ ∧ s₁ = s₂ := by
  have h : (r₁, s₁) = (r₂, s₂) := h₁.symm.trans h₂
  exact ⟨congrArg Prod.fst h, congrArg Prod.snd h⟩

theorem ok_ne_error {a : α} {e : ε} : (.ok a : Except ε α) ≠ .error e := nofun

theorem error_ne_ok {a : α} {e : ε} : (.error e : Except ε α) ≠ .ok a := nofun

theorem except_bind_eq_ok {x : Except ε α} {f : α → Except ε β} {b : β} (h : x.bind f = .ok b) :
    ∃ a, x = .ok a ∧ f a = .ok b := by
  cases x with
  | error e => exact absurd h error_ne_ok
  | ok a => exact ⟨a, rfl, h⟩

theorem except_bind_eq_error {x : Except ε α} {f : α → Except ε β} {e : ε}
    (h : x.bind f = .error e) : x = .error e ∨ ∃ a, x = .ok a ∧ f a = .error e := by
  cases x with
  | error e' => exact Or.inl (congrArg Except.error (Except.error.inj h))
  | ok a => exact Or.inr ⟨a, rfl, h⟩

theorem except_map_eq_error {x : Except ε α} {f : α → β} {e : ε} :
    x.map f = .error e ↔ x = .error e := by
  cases x with
  | error e' =>
      constructor
      · exact fun h => congrArg Except.error (Except.error.inj h)
      · exact fun h => congrArg Except.error (Except.error.inj h)
  | ok a => exact iff_of_false ok_ne_error ok_ne_error

theorem yields_pure {a : α} {s s' : σ} {r : Except ε α} :
    Yields (pure a : ExceptT ε (StateM σ) α) s r s' ↔ r = .ok a ∧ s' = s := by
  constructor
  · intro h
    exact ⟨(congrArg Prod.fst h).symm, (congrArg Prod.snd h).symm⟩
  · rintro ⟨rfl, rfl⟩
    rfl

theorem yields_throw {e : ε} {s s' : σ} {r : Except ε α} :
    Yields (throw e : ExceptT ε (StateM σ) α) s r s' ↔ r = .error e ∧ s' = s := by
  constructor
  · intro h
    exact ⟨(congrArg Prod.fst h).symm, (congrArg Prod.snd h).symm⟩
  · rintro ⟨rfl, rfl⟩
    rfl

theorem not_yields_throw_ok {a : α} {e : ε} {s s' : σ} :
    ¬ Yields (throw e : ExceptT ε (StateM σ) α) s (.ok a) s' :=
  fun h => ok_ne_error (yields_throw.mp h).1

theorem run_bind (p : ExceptT ε (StateM σ) α) (f : α → ExceptT ε (StateM σ) β) (s : σ) :
    (p >>= f).run.run s = match p.run.run s with
      | (.ok a, m) => (f a).run.run m
      | (.error e, m) => (.error e, m) := by
  change (ExceptT.bindCont f (p.run.run s).1).run (p.run.run s).2 = _
  rcases p.run.run s with ⟨r, m⟩
  cases r with
  | ok a => rfl
  | error e => rfl

/-- Work in two parts fails in its first part, or goes on from where that
    left off. -/
theorem yields_bind {p : ExceptT ε (StateM σ) α} {f : α → ExceptT ε (StateM σ) β}
    {s s' : σ} {r : Except ε β} :
    Yields (p >>= f) s r s' ↔
      (∃ a m, Yields p s (.ok a) m ∧ Yields (f a) m r s') ∨
      (∃ e, Yields p s (.error e) s' ∧ r = .error e) := by
  unfold Yields
  rw [run_bind]
  -- The first part has one outcome, from which the second part starts or does not.
  rcases p.run.run s with ⟨o, m⟩
  cases o with
  | ok a =>
      constructor
      · intro h
        exact Or.inl ⟨a, m, rfl, h⟩
      · rintro (⟨b, n, hp, hf⟩ | ⟨e, hp, -⟩)
        · rcases Prod.mk.inj hp with ⟨hab, rfl⟩
          cases hab
          exact hf
        · exact absurd (congrArg Prod.fst hp) ok_ne_error
  | error e =>
      constructor
      · intro h
        rcases Prod.mk.inj h with ⟨rfl, rfl⟩
        exact Or.inr ⟨e, rfl, rfl⟩
      · rintro (⟨b, n, hp, -⟩ | ⟨e', hp, rfl⟩)
        · exact absurd (congrArg Prod.fst hp) error_ne_ok
        · rcases Prod.mk.inj hp with ⟨he, rfl⟩
          cases he
          rfl

/-- The first part of work succeeds, and the second goes on. -/
theorem yields_bind_ok {p : ExceptT ε (StateM σ) α} {f : α → ExceptT ε (StateM σ) β}
    {s m s' : σ} {a : α} {r : Except ε β} (hp : Yields p s (.ok a) m) :
    Yields (p >>= f) s r s' ↔ Yields (f a) m r s' := by
  unfold Yields at hp ⊢
  rw [run_bind, hp]

/-- The first part of work fails, and with it the whole. -/
theorem yields_bind_error {p : ExceptT ε (StateM σ) α} {f : α → ExceptT ε (StateM σ) β}
    {s m s' : σ} {e : ε} {r : Except ε β} (hp : Yields p s (.error e) m) :
    Yields (p >>= f) s r s' ↔ r = .error e ∧ s' = m := by
  unfold Yields at hp ⊢
  rw [run_bind, hp]
  constructor
  · intro h
    rcases Prod.mk.inj h with ⟨rfl, rfl⟩
    exact ⟨rfl, rfl⟩
  · rintro ⟨rfl, rfl⟩
    rfl

/-- Work in two parts succeeds if both parts do. -/
theorem yields_bind_eq_ok {p : ExceptT ε (StateM σ) α} {f : α → ExceptT ε (StateM σ) β}
    {s s' : σ} {b : β} :
    Yields (p >>= f) s (.ok b) s' ↔ ∃ a m, Yields p s (.ok a) m ∧ Yields (f a) m (.ok b) s' := by
  constructor
  · intro h
    rcases yields_bind.mp h with hok | ⟨e, -, he⟩
    · exact hok
    · exact absurd he ok_ne_error
  · rintro ⟨a, m, hp, hf⟩
    exact (yields_bind_ok hp).mpr hf

theorem yields_get {s s' : σ} {r : Except ε σ} :
    Yields (get : ExceptT ε (StateM σ) σ) s r s' ↔ r = .ok s ∧ s' = s := by
  constructor
  · intro h
    exact ⟨(congrArg Prod.fst h).symm, (congrArg Prod.snd h).symm⟩
  · rintro ⟨rfl, rfl⟩
    rfl

theorem yields_set {t s s' : σ} {r : Except ε PUnit} :
    Yields (set t : ExceptT ε (StateM σ) PUnit) s r s' ↔ r = .ok ⟨⟩ ∧ s' = t := by
  constructor
  · intro h
    exact ⟨(congrArg Prod.fst h).symm, (congrArg Prod.snd h).symm⟩
  · rintro ⟨rfl, rfl⟩
    rfl

theorem yields_modify {f : σ → σ} {s s' : σ} {r : Except ε PUnit} :
    Yields (modify f : ExceptT ε (StateM σ) PUnit) s r s' ↔ r = .ok ⟨⟩ ∧ s' = f s := by
  constructor
  · intro h
    exact ⟨(congrArg Prod.fst h).symm, (congrArg Prod.snd h).symm⟩
  · rintro ⟨rfl, rfl⟩
    rfl

theorem yields_ofExcept {x : Except ε α} {s s' : σ} {r : Except ε α} :
    Yields (MonadExcept.ofExcept x : ExceptT ε (StateM σ) α) s r s' ↔ r = x ∧ s' = s := by
  cases x with
  | ok a => exact yields_pure
  | error e => exact yields_throw

/-- Work with a handler succeeds, or fails and the handler goes on from where it
    left off. -/
theorem yields_tryCatch {p : ExceptT ε (StateM σ) α} {handle : ε → ExceptT ε (StateM σ) α}
    {s s' : σ} {r : Except ε α} :
    Yields (tryCatch p handle) s r s' ↔
      (∃ a, Yields p s (.ok a) s' ∧ r = .ok a) ∨
      (∃ e m, Yields p s (.error e) m ∧ Yields (handle e) m r s') := by
  -- The handler starts in the state that the failure left.
  have hrun : (tryCatch p handle).run.run s = match p.run.run s with
      | (.ok a, m) => (.ok a, m)
      | (.error e, m) => (handle e).run.run m := by
    change (match (p.run.run s).1 with
      | .ok a => (pure (.ok a) : StateM σ (Except ε α))
      | .error e => (handle e).run) (p.run.run s).2 = _
    rcases p.run.run s with ⟨o, m⟩
    cases o with
    | ok a => rfl
    | error e => rfl
  unfold Yields
  rw [hrun]
  rcases p.run.run s with ⟨o, m⟩
  cases o with
  | ok a =>
      constructor
      · intro h
        rcases Prod.mk.inj h with ⟨rfl, rfl⟩
        exact Or.inl ⟨a, rfl, rfl⟩
      · rintro (⟨b, hp, rfl⟩ | ⟨e, n, hp, -⟩)
        · exact hp
        · exact absurd (congrArg Prod.fst hp) ok_ne_error
  | error e =>
      constructor
      · intro h
        exact Or.inr ⟨e, m, rfl, h⟩
      · rintro (⟨b, hp, -⟩ | ⟨e', n, hp, hh⟩)
        · exact absurd (congrArg Prod.fst hp) error_ne_ok
        · rcases Prod.mk.inj hp with ⟨he, rfl⟩
          cases he
          exact hh

end

/-! ## Errors that may be -/

section

variable {ε σ α β : Type} {A : ε → Prop}

/-- A result is a value of `P` or an error of `A`. -/
def Lands (A : ε → Prop) (P : α → Prop) : Except ε α → Prop
  | .ok a => P a
  | .error e => A e

theorem lands_of_error {x : Except ε α} (h : ∀ e, x = .error e → A e) :
    Lands A (fun _ => True) x := by
  cases x with
  | ok a => exact trivial
  | error e => exact h e rfl

theorem Lands.imp {P Q : α → Prop} {x : Except ε α} (h : Lands A P x) (hPQ : ∀ a, P a → Q a) :
    Lands A Q x := by
  cases x with
  | ok a => exact hPQ a h
  | error e => exact h

theorem Lands.bind {P : α → Prop} {Q : β → Prop} {x : Except ε α} {f : α → Except ε β}
    (hx : Lands A P x) (hf : ∀ a, P a → Lands A Q (f a)) : Lands A Q (x >>= f) := by
  cases x with
  | ok a => exact hf a hx
  | error e => exact hx

/-- Work begun where `I` holds comes to a value of `P` and keeps `I`, or fails with an
    error of `A`. -/
def Carries (I : σ → Prop) (A : ε → Prop) (P : α → Prop) (p : StateT σ (Except ε) α) : Prop :=
  ∀ s, I s → Lands A (fun r => P r.1 ∧ I r.2) (p.run s)

variable {I : σ → Prop}

theorem Carries.imp {P Q : α → Prop} {p : StateT σ (Except ε) α} (h : Carries I A P p)
    (hPQ : ∀ a, P a → Q a) : Carries I A Q p :=
  fun s hs => (h s hs).imp fun _ hr => ⟨hPQ _ hr.1, hr.2⟩

theorem Carries.bind {P : α → Prop} {Q : β → Prop} {p : StateT σ (Except ε) α}
    {f : α → StateT σ (Except ε) β} (hp : Carries I A P p)
    (hf : ∀ a, P a → Carries I A Q (f a)) : Carries I A Q (p >>= f) := by
  intro s hs
  rw [StateT.run_bind]
  exact (hp s hs).bind fun r hr => hf r.1 hr.1 r.2 hr.2

theorem carries_pure {P : α → Prop} {a : α} (h : P a) :
    Carries I A P (pure a : StateT σ (Except ε) α) := fun _ hs => ⟨h, hs⟩

theorem carries_throw {P : α → Prop} {e : ε} (h : A e) :
    Carries I A P (throw e : StateT σ (Except ε) α) := fun _ _ => h

theorem carries_get : Carries I A I (get : StateT σ (Except ε) σ) := fun _ hs => ⟨hs, hs⟩

theorem carries_set {t : σ} (h : I t) :
    Carries I A (fun _ => True) (set t : StateT σ (Except ε) PUnit) := fun _ _ => ⟨trivial, h⟩

theorem carries_modify {f : σ → σ} (h : ∀ s, I s → I (f s)) :
    Carries I A (fun _ => True) (modify f : StateT σ (Except ε) PUnit) :=
  fun s hs => ⟨trivial, h s hs⟩

theorem carries_lift {P : α → Prop} {x : Except ε α} (h : Lands A P x) :
    Carries I A P (liftM x : StateT σ (Except ε) α) := by
  intro s hs
  cases x with
  | ok a => exact ⟨h, hs⟩
  | error e => exact h

/-- Work done for each member of a list. -/
theorem Carries.mapM {P : β → Prop} {f : α → StateT σ (Except ε) β} {xs : List α}
    (h : ∀ x ∈ xs, Carries I A P (f x)) : Carries I A (fun ys => ∀ y ∈ ys, P y) (xs.mapM f) := by
  induction xs with
  | nil => exact carries_pure fun y hy => absurd hy List.not_mem_nil
  | cons x rest ih =>
      rw [List.mapM_cons]
      refine (h x List.mem_cons_self).bind fun y hy => ?_
      refine (ih fun z hz => h z (List.mem_cons_of_mem _ hz)).bind fun ys hys => ?_
      exact carries_pure (List.forall_mem_cons.mpr ⟨hy, hys⟩)

/-- Work that goes on from what it came to for the members before. -/
theorem Carries.foldlM {P : β → Prop} {f : β → α → StateT σ (Except ε) β} {xs : List α} {b : β}
    (hb : P b) (h : ∀ x ∈ xs, ∀ c, P c → Carries I A P (f c x)) :
    Carries I A P (xs.foldlM f b) := by
  induction xs generalizing b with
  | nil => exact carries_pure hb
  | cons x rest ih =>
      rw [List.foldlM_cons]
      refine (h x List.mem_cons_self b hb).bind fun c hc => ?_
      exact ih hc fun y hy => h y (List.mem_cons_of_mem _ hy)

end

end Docket
