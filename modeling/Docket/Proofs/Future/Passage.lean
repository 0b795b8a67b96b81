import Docket.Future.Exchange
import Docket.Proofs.Work

/-!
# Passages of an exchange

What single operations do to an exchange. Of its parts only a few matter to
those who listen: the futures and sources, which of them steps are about, the
tickets given out, and the history. `Passes` says how these change from one state
to another; passages follow one another, and whatever else an operation does
(building values, writing the log) passes without a trace.

Most steps only look at a future. `Quiet` is the property they have in common,
and it is closed under all ways in which work is put together.

## Main definitions

* `Passes`: How an exchange changes.
* `Follows`: An exchange in which more has happened.
* `Quiet`: Work that leaves no trace in any future.

## Theorems

* `yields_attempt`, `yields_answered`, `yields_handling`: Work whose failure does
  not end the play.
* `yields_note`, `yields_ticket`, `yields_future`, `yields_setFuture`,
  `yields_raise`: Single operations.
* `Passes.trans`: Passages follow one another.
* `Quiet.bind`: Quiet work in two parts.
* `quiet_waitFor`: Looking at the outcome of a future is quiet.
-/

namespace Docket

open Play

section

variable {α β : Type} {x x' : Exchange}

theorem yields_attempt {p : Play α} {r : Except Failure (Except Failure α)} :
    Yields (attempt p) x r x' ↔ ∃ out, Yields p x out x' ∧ r = .ok out := by
  constructor
  · intro h
    rcases Prod.mk.inj h with ⟨rfl, rfl⟩
    exact ⟨(p.run.run x).1, rfl, rfl⟩
  · rintro ⟨out, h, rfl⟩
    change (Except.ok (p.run.run x).1, (p.run.run x).2) = _
    rw [h]

theorem yields_onSession {p : Run α} {r : Except Failure α} :
    Yields (onSession p) x r x' ↔
      ∃ s, Yields p x.session r s ∧ x' = { x with session := s } := by
  constructor
  · intro h
    rcases Prod.mk.inj h with ⟨rfl, rfl⟩
    exact ⟨(p.run.run x.session).2, rfl, rfl⟩
  · rintro ⟨s, h, rfl⟩
    change ((p.run.run x.session).1, { x with session := (p.run.run x.session).2 }) = _
    rw [h]

theorem yields_answered {p : Play Reply} {r : Except Failure Reply} :
    Yields (answered p) x r x' ↔ ∃ out, Yields p x out x' ∧ r = .ok (.ofExcept out) := by
  constructor
  · intro h
    rcases Prod.mk.inj h with ⟨rfl, rfl⟩
    exact ⟨(p.run.run x).1, rfl, rfl⟩
  · rintro ⟨out, h, rfl⟩
    change (Except.ok (Reply.ofExcept (p.run.run x).1), (p.run.run x).2) = _
    rw [h]

theorem yields_attempt_bind {p : Play α} {f : Except Failure α → Play β} {r : Except Failure β} :
    Yields (attempt p >>= f) x r x' ↔ ∃ out m, Yields p x out m ∧ Yields (f out) m r x' := by
  rw [yields_bind]
  constructor
  · rintro (⟨out, m, hattempt, h⟩ | ⟨e, hattempt, -⟩)
    · rcases yields_attempt.mp hattempt with ⟨out', hp, heq⟩
      exact ⟨out', m, hp, Except.ok.inj heq ▸ h⟩
    · -- An attempt does not fail itself.
      rcases yields_attempt.mp hattempt with ⟨out, -, heq⟩
      exact absurd heq error_ne_ok
  · rintro ⟨out, m, hp, h⟩
    exact Or.inl ⟨out, m, yields_attempt.mpr ⟨out, hp, rfl⟩, h⟩

theorem yields_handling {p : Play Unit} {handle : Failure → Play Unit} {r : Except Failure Unit} :
    Yields (handling p handle) x r x' ↔
      (Yields p x (.ok ()) x' ∧ r = .ok ()) ∨
      ∃ e m, Yields p x (.error e) m ∧
        if e.isOrdinary then Yields (handle e) m r x' else r = .error e ∧ x' = m := by
  unfold handling
  rw [yields_attempt_bind]
  constructor
  · rintro ⟨out, m, hp, h⟩
    cases out with
    | ok u =>
        rcases yields_pure.mp h with ⟨rfl, rfl⟩
        exact Or.inl ⟨hp, rfl⟩
    | error e =>
        refine Or.inr ⟨e, m, hp, ?_⟩
        -- The handler is asked about ordinary errors only.
        by_cases he : e.isOrdinary = true
        · simp only [he, if_true] at h ⊢
          exact h
        · simp only [he, if_false, Bool.false_eq_true] at h ⊢
          exact yields_throw.mp h
  · rintro (⟨hp, rfl⟩ | ⟨e, m, hp, h⟩)
    · exact ⟨.ok (), x', hp, yields_pure.mpr ⟨rfl, rfl⟩⟩
    · refine ⟨.error e, m, hp, ?_⟩
      by_cases he : e.isOrdinary = true
      · simp only [he, if_true] at h ⊢
        exact h
      · simp only [he, if_false, Bool.false_eq_true] at h ⊢
        exact yields_throw.mpr h

theorem yields_note {e : Event} {r : Except Failure Unit} :
    Yields (note e) x r x' ↔ r = .ok () ∧ x' = { x with history := x.history.push e } :=
  yields_modify

theorem yields_current {r : Except Failure Nat} :
    Yields current x r x' ↔ r = .ok x.current ∧ x' = x := by
  unfold current
  rw [yields_bind_ok (yields_get.mpr ⟨rfl, rfl⟩), yields_pure]

theorem yields_future {id : Nat} {r : Except Failure (Future Listener)} :
    Yields (Play.future id) x r x' ↔ r = .ok (x.futures[id]?.getD .fresh) ∧ x' = x := by
  unfold Play.future
  rw [yields_bind_ok (yields_get.mpr ⟨rfl, rfl⟩), yields_pure]

theorem yields_setFuture {id : Nat} {f : Future Listener} {r : Except Failure Unit} :
    Yields (setFuture id f) x r x' ↔
      r = .ok () ∧ x' = { x with futures := x.futures.modify id fun _ => f } :=
  yields_modify

theorem yields_raise {id : Nat} {e : Failure} {r : Except Failure α} :
    Yields (raise id e : Play α) x r x' ↔
      r = .error e ∧ x' = { x with raised := x.raised.push id } := by
  unfold raise
  rw [yields_bind_ok (yields_modify.mpr ⟨rfl, rfl⟩), yields_throw]

theorem yields_ticket {id : Nat} {kind : ListenerKind} {l : Listener}
    {r : Except Failure (Registration Listener)} :
    Yields (ticket id kind l) x r x' ↔ r = .ok ⟨x.tickets, kind, l⟩ ∧
      x' = { x with
        tickets := x.tickets + 1
        history := x.history.push (.registered id ⟨x.tickets, kind, l⟩) } := by
  unfold ticket
  rw [yields_bind_ok (yields_get.mpr ⟨rfl, rfl⟩), yields_bind_ok (yields_set.mpr ⟨rfl, rfl⟩),
    yields_bind_ok (yields_note.mpr ⟨rfl, rfl⟩), yields_pure]

/-- How an exchange changes: no future and no source does, some tickets are given
    out, and some events are added to its history. -/
structure Passes (x x' : Exchange) (count : Nat) (events : List Event) : Prop where
  futures : x'.futures = x.futures
  current : x'.current = x.current
  sources : x'.sources = x.sources
  source : x'.source = x.source
  tickets : x'.tickets = x.tickets + count
  history : x'.history.toList = x.history.toList ++ events

namespace Passes

theorem refl (x : Exchange) : Passes x x 0 [] :=
  ⟨rfl, rfl, rfl, rfl, rfl, (List.append_nil _).symm⟩

theorem trans {x₁ x₂ x₃ : Exchange} {n₁ n₂ : Nat} {e₁ e₂ : List Event}
    (h₁ : Passes x₁ x₂ n₁ e₁) (h₂ : Passes x₂ x₃ n₂ e₂) :
    Passes x₁ x₃ (n₁ + n₂) (e₁ ++ e₂) where
  futures := h₂.futures.trans h₁.futures
  current := h₂.current.trans h₁.current
  sources := h₂.sources.trans h₁.sources
  source := h₂.source.trans h₁.source
  tickets := by rw [h₂.tickets, h₁.tickets, Nat.add_assoc]
  history := by rw [h₂.history, h₁.history, List.append_assoc]

theorem note (x : Exchange) (e : Event) :
    Passes x { x with history := x.history.push e } 0 [e] :=
  ⟨rfl, rfl, rfl, rfl, rfl, Array.toList_push⟩

/-- The current future is as it was. -/
theorem get {n : Nat} {events : List Event} {f : Option (Future Listener)}
    (h : Passes x x' n events) (hx : x.futures[x.current]? = f) :
    x'.futures[x'.current]? = f := by
  rw [h.futures, h.current, hx]

end Passes

/-- An exchange in which more has happened to the same future. -/
structure Follows (x x' : Exchange) : Prop where
  current : x'.current = x.current
  history : x.history.toList <+: x'.history.toList

theorem Follows.refl (x : Exchange) : Follows x x := ⟨rfl, List.prefix_rfl⟩

theorem Follows.trans {x₁ x₂ x₃ : Exchange} (h₁ : Follows x₁ x₂) (h₂ : Follows x₂ x₃) :
    Follows x₁ x₃ :=
  ⟨h₂.current.trans h₁.current, h₁.history.trans h₂.history⟩

theorem Passes.follows {n : Nat} {events : List Event} (h : Passes x x' n events) :
    Follows x x' := by
  refine ⟨h.current, ?_⟩
  rw [h.history]
  exact List.prefix_append _ _

/-- Work that leaves no trace in any future. -/
def Quiet (p : Play α) : Prop := ∀ x r x', Yields p x r x' → Passes x x' 0 []

namespace Quiet

theorem of_same {p : Play α} (h : ∀ x r x', Yields p x r x' → x' = x) : Quiet p := by
  intro x r x' hp
  rw [h x r x' hp]
  exact Passes.refl x

theorem pure (a : α) : Quiet (Pure.pure a : Play α) :=
  of_same fun _ _ _ h => (yields_pure.mp h).2

theorem throw (e : Failure) : Quiet (MonadExcept.throw e : Play α) :=
  of_same fun _ _ _ h => (yields_throw.mp h).2

theorem ofExcept (o : Except Failure α) : Quiet (MonadExcept.ofExcept o : Play α) :=
  of_same fun _ _ _ h => (yields_ofExcept.mp h).2

theorem current : Quiet Play.current := of_same fun _ _ _ h => (yields_current.mp h).2

theorem future (id : Nat) : Quiet (Play.future id) :=
  of_same fun _ _ _ h => (yields_future.mp h).2

theorem get : Quiet (MonadState.get : Play Exchange) := of_same fun _ _ _ h => (yields_get.mp h).2

theorem raise (id : Nat) (e : Failure) : Quiet (Play.raise id e : Play α) := by
  intro x r x' h
  rw [(yields_raise.mp h).2]
  exact ⟨rfl, rfl, rfl, rfl, rfl, (List.append_nil _).symm⟩

theorem onSession (p : Run α) : Quiet (Play.onSession p) := by
  intro x r x' h
  rcases yields_onSession.mp h with ⟨s, -, rfl⟩
  exact ⟨rfl, rfl, rfl, rfl, rfl, (List.append_nil _).symm⟩

theorem bind {p : Play α} {f : α → Play β} (hp : Quiet p) (hf : ∀ a, Quiet (f a)) :
    Quiet (p >>= f) := by
  intro x r x' h
  rcases yields_bind.mp h with ⟨a, m, h₁, h₂⟩ | ⟨e, h₁, -⟩
  · exact (hp x _ m h₁).trans (hf a m r x' h₂)
  · exact hp x _ x' h₁

theorem attempt {p : Play α} (hp : Quiet p) : Quiet (Play.attempt p) := by
  intro x r x' h
  rcases yields_attempt.mp h with ⟨out, hout, -⟩
  exact hp x out x' hout

end Quiet

theorem quiet_build (e : Expr) : Quiet (Play.build e) := Quiet.onSession _

theorem quiet_log (r : LogRecord) : Quiet (Play.log r) := Quiet.onSession _

/-- Writing the log does not fail. -/
theorem yields_log {r : LogRecord} {out : Except Failure Unit} (h : Yields (Play.log r) x out x') :
    out = .ok () ∧ Passes x x' 0 [] := by
  rcases yields_onSession.mp h with ⟨s, hs, -⟩
  exact ⟨(yields_modify.mp hs).1, quiet_log r x out x' h⟩

theorem quiet_readLimit (timeout : Option Value) : Quiet (readLimit timeout) := Quiet.ofExcept _

/-- Looking at the outcome of a future is quiet. -/
theorem quiet_waitFor (id : Nat) (limit : Option Binary64) : Quiet (waitFor id limit) := by
  refine Quiet.bind (Quiet.future id) fun f => ?_
  rcases f.result? with _ | e | v
  · exact Quiet.throw _
  · exact Quiet.raise id e
  · exact Quiet.pure _

end

end Docket
