import Docket.Proofs.Future.Passage

/-!
# Lasting decisions

A future that is decided stays as it is, whatever is done to it or to any other
future from then on: by steps of a script, by the listeners in it, or by sources
that end. There is no step that is an exception, and no level of listeners at
which one could become one.

That a step leaves decided futures alone is not said of its parts one by one.
`Lasting` is closed under all ways in which work is put together, and only two
operations write to a future at all: one writes what `Future.decide` allows, and
that is nothing once the future is decided, and the other adds or removes a
listener, of which a decided future has none.

## Main definitions

* `Lasts`: Decided futures are as they were.
* `Lasting`: Work that leaves decided futures as they are.

## Theorems

* `lasting_decideFuture`, `lasting_register`: What writes to a future.
* `lasting_perform`: Every step leaves decided futures as they are.
* `lasting_tellAt`: So do the listeners that are told.
* `Exchange.lasts_playFrom`: And so does every script.
-/

namespace Docket

open Play

/-- The futures that were decided are decided in the same way. -/
def Lasts (x x' : Exchange) : Prop :=
  ∀ (id : Nat) (o : Outcome),
    x.futures[id]? = some (.decided o) → x'.futures[id]? = some (.decided o)

theorem Lasts.trans {x₁ x₂ x₃ : Exchange} (h₁ : Lasts x₁ x₂) (h₂ : Lasts x₂ x₃) : Lasts x₁ x₃ :=
  fun id o h => h₂ id o (h₁ id o h)

theorem Lasts.of_futures {x x' : Exchange} (h : x'.futures = x.futures) : Lasts x x' := by
  intro id o hx
  rw [h]
  exact hx

/-- A future may be written to as long as it is not decided, or as it is. -/
theorem Lasts.write {x : Exchange} {id : Nat} {f : Future Listener}
    (h : ∀ o, x.futures[id]? = some (.decided o) → f = .decided o) :
    Lasts x { x with futures := x.futures.modify id fun _ => f } := by
  intro id' o hx
  rw [Array.getElem?_modify]
  split
  next heq =>
    subst heq
    rw [hx, h o hx]
    rfl
  next => exact hx

/-- Work that leaves decided futures as they are. -/
def Lasting {α : Type} (p : Play α) : Prop := ∀ x r x', Yields p x r x' → Lasts x x'

section

variable {α β : Type} {tell : Tell}

namespace Lasting

theorem of_quiet {p : Play α} (hp : Quiet p) : Lasting p :=
  fun x r x' h => Lasts.of_futures (hp x r x' h).futures

theorem pure (a : α) : Lasting (Pure.pure a : Play α) := of_quiet (Quiet.pure a)

theorem throw (e : Failure) : Lasting (MonadExcept.throw e : Play α) := of_quiet (Quiet.throw e)

theorem ofExcept (o : Except Failure α) : Lasting (MonadExcept.ofExcept o : Play α) :=
  of_quiet (Quiet.ofExcept o)

theorem current : Lasting Play.current := of_quiet Quiet.current

theorem get : Lasting (MonadState.get : Play Exchange) := of_quiet Quiet.get

theorem build (e : Expr) : Lasting (Play.build e) := of_quiet (quiet_build e)

theorem log (r : LogRecord) : Lasting (Play.log r) := of_quiet (quiet_log r)

theorem waitFor (id : Nat) (limit : Option Binary64) : Lasting (Docket.waitFor id limit) :=
  of_quiet (quiet_waitFor id limit)

theorem readLimit (timeout : Option Value) : Lasting (Docket.readLimit timeout) :=
  of_quiet (quiet_readLimit timeout)

theorem source (id : Nat) : Lasting (Play.source id) :=
  of_quiet (Quiet.bind Quiet.get fun _ => Quiet.pure _)

/-- Whatever does not touch the futures leaves them as they are. -/
theorem modify {f : Exchange → Exchange} (hf : ∀ x, (f x).futures = x.futures) :
    Lasting (MonadStateOf.modifyGet fun x => (PUnit.unit, f x) : Play PUnit) := by
  intro x r x' h
  rw [(yields_modify.mp h).2]
  exact Lasts.of_futures (hf x)

theorem note (e : Event) : Lasting (Play.note e) := modify fun _ => rfl

theorem setSource (id : Nat) (s : Source) : Lasting (Play.setSource id s) := modify fun _ => rfl

theorem bind {p : Play α} {f : α → Play β} (hp : Lasting p) (hf : ∀ a, Lasting (f a)) :
    Lasting (p >>= f) := by
  intro x r x' h
  rcases yields_bind.mp h with ⟨a, m, h₁, h₂⟩ | ⟨e, h₁, -⟩
  · exact (hp x _ m h₁).trans (hf a m r x' h₂)
  · exact hp x _ x' h₁

theorem attempt {p : Play α} (hp : Lasting p) : Lasting (Play.attempt p) := by
  intro x r x' h
  rcases yields_attempt.mp h with ⟨out, hout, -⟩
  exact hp x out x' hout

theorem answered {p : Play Reply} (hp : Lasting p) : Lasting (Play.answered p) :=
  bind hp.attempt fun _ => pure _

theorem handling {p : Play Unit} {handle : Failure → Play Unit} (hp : Lasting p)
    (hhandle : ∀ e, Lasting (handle e)) : Lasting (Play.handling p handle) := by
  refine bind hp.attempt fun r => ?_
  cases r with
  | ok u => exact pure _
  | error e =>
      by_cases he : e.isOrdinary = true
      · simp only [he, if_true]
        exact hhandle e
      · simp only [he, if_false, Bool.false_eq_true]
        exact throw e

theorem mapM {f : α → Play β} (hf : ∀ a, Lasting (f a)) (as : List α) : Lasting (as.mapM f) := by
  induction as with
  | nil =>
      rw [List.mapM_nil]
      exact pure []
  | cons a rest ih =>
      rw [List.mapM_cons]
      exact bind (hf a) fun _ => bind ih fun _ => pure _

theorem newFuture : Lasting Play.newFuture := by
  intro x r x' h
  unfold Play.newFuture at h
  rw [yields_bind_ok (yields_get.mpr ⟨rfl, rfl⟩), yields_bind_ok (yields_set.mpr ⟨rfl, rfl⟩),
    yields_pure] at h
  rw [h.2]
  intro id o hx
  rw [Array.getElem?_push, if_neg (Nat.ne_of_lt (Array.getElem?_eq_some_iff.mp hx).1)]
  exact hx

theorem newSource : Lasting Play.newSource := by
  intro x r x' h
  unfold Play.newSource at h
  rw [yields_bind_ok (yields_get.mpr ⟨rfl, rfl⟩), yields_bind_ok (yields_set.mpr ⟨rfl, rfl⟩),
    yields_pure] at h
  rw [h.2]
  exact Lasts.of_futures rfl

/-- Reading a future and writing back what it allows. -/
theorem rewrite {id : Nat} {f : Future Listener → Future Listener} {p : Future Listener → Play β}
    (hf : ∀ o, f (.decided o) = .decided o) (hp : ∀ g, Lasting (p g)) :
    Lasting (do
      let g ← Play.future id
      setFuture id (f g)
      p g) := by
  intro x r x' h
  rw [yields_bind_ok (yields_future.mpr ⟨rfl, rfl⟩),
    yields_bind_ok (yields_setFuture.mpr ⟨rfl, rfl⟩)] at h
  refine (Lasts.write fun o hx => ?_).trans (hp _ _ r x' h)
  rw [hx, Option.getD_some, hf o]

end Lasting

/-- Only a future that is not decided can be decided. -/
theorem outcome_of_decide {f : Future Listener} {o : Outcome}
    {waiting : List (Registration Listener)} (h : f.decide o = .ok (some waiting)) :
    f = .pending waiting := by
  cases f with
  | pending ws =>
      rw [show (Future.pending ws).decide o = .ok (some ws) by cases o <;> rfl] at h
      rw [Option.some.inj (Except.ok.inj h)]
  | decided earlier => cases earlier <;> cases o <;> exact absurd h nofun

theorem lasting_notify (htell : ∀ id o r, Lasting (tell id o r)) (id : Nat) (o : Outcome)
    (waiting : List (Registration Listener)) : Lasting (notify tell id o waiting) := by
  induction waiting with
  | nil => exact Lasting.pure ()
  | cons r rest ih => exact Lasting.bind (htell id o r) fun _ => ih

/-- Deciding a future leaves those alone that are decided. -/
theorem lasting_decideFuture (htell : ∀ id o r, Lasting (tell id o r)) (id : Nat) (o : Outcome) :
    Lasting (decideFuture tell id o) := by
  intro x r x' h
  unfold decideFuture at h
  rw [yields_bind_ok (yields_future.mpr ⟨rfl, rfl⟩)] at h
  rcases yields_bind.mp h with ⟨who, m, h₁, h₂⟩ | ⟨e, h₁, -⟩
  · rcases yields_ofExcept.mp h₁ with ⟨hdecide, rfl⟩
    cases who with
    | some waiting =>
        simp only [] at h₂
        rw [yields_bind_ok (yields_setFuture.mpr ⟨rfl, rfl⟩)] at h₂
        have hrest : Lasting (do
            note (.decided id o)
            log (.transitioned (Future.decided o : Future Listener).display waiting.length)
            notify tell id o waiting
            return true) :=
          Lasting.bind (Lasting.note _) fun _ => Lasting.bind (Lasting.log _) fun _ =>
            Lasting.bind (lasting_notify htell id o waiting) fun _ => Lasting.pure _
        refine (Lasts.write fun o' hx => ?_).trans (hrest _ r x' h₂)
        -- The listeners that were waiting are the proof that the future was pending.
        have hpending := outcome_of_decide hdecide.symm
        rw [hx, Option.getD_some] at hpending
        exact absurd hpending nofun
    | none =>
        have hrest : Lasting (do
            if !o.isCancelled then
              log (.ignored o.state (m.futures[id]?.getD .fresh).display)
            return false) := by
          cases o.isCancelled with
          | true => exact Lasting.pure false
          | false => exact Lasting.bind (Lasting.log _) fun _ => Lasting.pure false
        exact hrest m r x' h₂
  · rw [(yields_ofExcept.mp h₁).2]
    exact Lasts.of_futures rfl

/-- Registering a listener writes only to a future that is not decided. -/
theorem lasting_register (htell : ∀ id o r, Lasting (tell id o r)) (id : Nat)
    (kind : ListenerKind) (l : Listener) : Lasting (register tell id kind l) := by
  intro x r x' h
  unfold register at h
  rw [yields_bind_ok (yields_ticket.mpr ⟨rfl, rfl⟩)] at h
  have hdrawn : Lasts x { x with
      tickets := x.tickets + 1
      history := x.history.push (.registered id ⟨x.tickets, kind, l⟩) } := Lasts.of_futures rfl
  refine hdrawn.trans ?_
  rw [yields_bind_ok (yields_future.mpr ⟨rfl, rfl⟩)] at h
  have hreturns : ∀ (t : Nat), Lasting (do
      note (.returned t)
      return t) := fun t => Lasting.bind (Lasting.note _) fun _ => Lasting.pure _
  cases hf : x.futures[id]?.getD .fresh with
  | pending waiting =>
      simp only [hf] at h
      rw [yields_bind_ok (yields_setFuture.mpr ⟨rfl, rfl⟩)] at h
      refine (Lasts.write fun o hx => ?_).trans (hreturns _ _ r x' h)
      -- A pending future is none of those that were decided.
      simp only [hx, Option.getD_some, reduceCtorEq] at hf
  | decided o =>
      simp only [hf] at h
      exact Lasting.bind (htell id o _) (fun _ => hreturns _) _ r x' h

section

variable (htell : ∀ id o r, Lasting (tell id o r))
include htell

theorem lasting_passOn (s : Source) : Lasting (passOn tell s) := by
  unfold passOn
  split
  next id o _ _ =>
    exact Lasting.handling
      (Lasting.bind (lasting_decideFuture htell id o).attempt fun _ =>
        Lasting.bind (Lasting.note _) fun _ => Lasting.bind (Lasting.ofExcept _) fun _ =>
          Lasting.pure ())
      fun _ => Lasting.pure ()
  next => exact Lasting.pure ()

theorem lasting_cancelSource (id : Nat) : Lasting (cancelSource tell id) := by
  refine Lasting.bind (Lasting.source id) fun s => ?_
  cases s.cancel? with
  | some s' =>
      exact Lasting.bind (Lasting.setSource id s') fun _ =>
        Lasting.bind (lasting_passOn htell s') fun _ => Lasting.pure _
  | none => exact Lasting.pure _

theorem lasting_finishSource (id : Nat) (result : Except Failure Value) :
    Lasting (finishSource tell id result) :=
  Lasting.bind (Lasting.source id) fun _ => Lasting.bind (Lasting.ofExcept _) fun s =>
    Lasting.bind (Lasting.setSource id s) fun _ => lasting_passOn htell s

theorem lasting_followSource (id : Nat) : Lasting (followSource tell id) :=
  Lasting.bind Lasting.newFuture fun f =>
    Lasting.bind (lasting_register htell f .failure (.canceller id)) fun _ =>
      Lasting.bind (Lasting.source id) fun _ => Lasting.bind (Lasting.setSource id _) fun _ =>
        Lasting.bind (lasting_passOn htell _) fun _ => Lasting.modify fun _ => rfl

theorem lasting_doWork (id : Nat) (result : Except Failure Value) :
    Lasting (doWork tell id result) := by
  refine Lasting.bind (Lasting.source id) fun _ => Lasting.bind (Lasting.ofExcept _) fun started =>
    Lasting.bind (Lasting.setSource id started.2) fun _ => ?_
  cases started.1 with
  | true =>
      exact Lasting.bind (lasting_finishSource htell id result) fun _ => Lasting.pure _
  | false => exact Lasting.pure _

theorem lasting_submitWork (result : Except Failure Value) (now : Bool) :
    Lasting (submitWork tell result now) := by
  refine Lasting.bind Lasting.newSource fun id => ?_
  cases now with
  | true =>
      exact Lasting.bind (lasting_doWork htell id result) fun _ => lasting_followSource htell id
  | false =>
      exact Lasting.bind (Lasting.modify fun _ => rfl) fun _ => lasting_followSource htell id

theorem lasting_sourceStep (s : SourceStep) : Lasting (s.perform tell) := by
  cases s with
  | start =>
      exact Lasting.bind Lasting.get fun _ => Lasting.bind (Lasting.source _) fun _ =>
        Lasting.bind (Lasting.ofExcept _) fun _ => Lasting.bind (Lasting.setSource _ _) fun _ =>
          Lasting.pure _
  | finish v =>
      exact Lasting.bind (Lasting.build v) fun _ => Lasting.bind Lasting.get fun _ =>
        Lasting.bind (lasting_finishSource htell _ _) fun _ => Lasting.pure _
  | fail e =>
      exact Lasting.bind Lasting.get fun _ =>
        Lasting.bind (lasting_finishSource htell _ _) fun _ => Lasting.pure _
  | cancel =>
      exact Lasting.bind Lasting.get fun _ =>
        Lasting.bind (lasting_cancelSource htell _) fun _ => Lasting.pure _
  | state =>
      exact Lasting.bind Lasting.get fun _ => Lasting.bind (Lasting.source _) fun _ =>
        Lasting.pure _

end

mutual

/-- Every step leaves decided futures as they are. -/
theorem lasting_perform (htell : ∀ id o r, Lasting (tell id o r)) :
    ∀ s : Step, Lasting (s.perform tell)
  | .resolve v => by
      rw [Step.perform]
      exact Lasting.bind (Lasting.build v) fun _ => Lasting.bind Lasting.current fun _ =>
        Lasting.bind (lasting_decideFuture htell _ _) fun _ => Lasting.pure _
  | .reject v => by
      rw [Step.perform]
      refine Lasting.bind (Lasting.build v) fun w => ?_
      split
      · exact Lasting.bind Lasting.current fun _ =>
          Lasting.bind (lasting_decideFuture htell _ _) fun _ => Lasting.pure _
      · exact Lasting.throw _
  | .cancel => by
      rw [Step.perform]
      exact Lasting.bind Lasting.current fun _ =>
        Lasting.bind (lasting_decideFuture htell _ _) fun _ => Lasting.pure _
  | .get timeout => by
      rw [Step.perform]
      refine Lasting.bind ?_ fun _ => Lasting.bind Lasting.current fun _ =>
        Lasting.bind (Lasting.readLimit _) fun _ => Lasting.waitFor _ _
      cases timeout with
      | none => exact Lasting.pure none
      | some e => exact Lasting.bind (Lasting.build e) fun _ => Lasting.pure _
  | .listen kind name actions => by
      rw [Step.perform]
      exact Lasting.bind Lasting.current fun _ =>
        Lasting.bind (lasting_register htell _ _ _) fun _ => Lasting.pure _
  | .listenValue kind v => by
      rw [Step.perform]
      exact Lasting.bind (Lasting.build v) fun _ => Lasting.throw _
  | .rootFailure => by
      rw [Step.perform]
      exact Lasting.bind Lasting.current fun _ =>
        Lasting.bind (Lasting.of_quiet (Quiet.future _)) fun _ => Lasting.pure _
  | .query q => by
      rw [Step.perform]
      exact Lasting.bind Lasting.current fun _ =>
        Lasting.bind (Lasting.of_quiet (Quiet.future _)) fun _ => Lasting.pure _
  | .sameFailure => by
      rw [Step.perform]
      refine Lasting.bind Lasting.current fun _ =>
        Lasting.bind (Lasting.waitFor _ _).attempt fun _ => ?_
      split
      · exact Lasting.bind Lasting.get fun _ => Lasting.bind (Lasting.waitFor _ _).attempt fun _ =>
          Lasting.bind Lasting.get fun _ => Lasting.pure _
      · exact Lasting.pure _
  | .getWhile timeout meanwhile => by
      rw [Step.perform]
      refine Lasting.bind Lasting.current fun _ => Lasting.bind (Lasting.build timeout) fun _ =>
        Lasting.bind (Lasting.readLimit _).attempt fun limit => ?_
      -- The other steps are performed in any case. With a limit that cannot be read its error
      -- comes after them.
      cases limit with
      | error e => exact Lasting.bind (lasting_performAll htell meanwhile) fun _ => Lasting.throw _
      | ok limit =>
          refine Lasting.bind (Lasting.waitFor _ _).attempt fun early =>
            Lasting.bind (lasting_performAll htell meanwhile) fun _ => ?_
          cases endsEarly limit with
          | true => exact Lasting.ofExcept early
          | false => exact Lasting.waitFor _ limit
  | .await => by
      rw [Step.perform]
      exact Lasting.bind Lasting.current fun _ => Lasting.waitFor _ _
  | .awaitBriefly => by
      rw [Step.perform]
      refine Lasting.bind Lasting.current fun _ =>
        Lasting.bind (Lasting.of_quiet (Quiet.future _)) fun f => ?_
      cases f.isDone with
      | true => exact Lasting.bind Lasting.current fun _ => Lasting.waitFor _ _
      | false => exact Lasting.pure _
  | .awaitWhile meanwhile => by
      rw [Step.perform]
      refine Lasting.bind Lasting.current fun id =>
        Lasting.bind (lasting_register htell _ _ _) fun ticket =>
          Lasting.bind (lasting_performAll htell meanwhile) fun _ =>
            -- Only the ticket is taken back, which is no outcome.
            Lasting.rewrite (f := fun g => g.withdraw ticket) (fun _ => rfl) fun f => ?_
      cases f.isDone with
      | true => exact Lasting.waitFor _ _
      | false => exact Lasting.pure _
  | .awaitCancelled meanwhile => by
      rw [Step.perform]
      exact Lasting.bind Lasting.current fun id =>
        Lasting.bind (lasting_register htell _ _ _) fun ticket =>
          Lasting.bind (lasting_performAll htell meanwhile) fun _ =>
            Lasting.rewrite (f := fun g => g.withdraw ticket) (fun _ => rfl) fun _ =>
              Lasting.pure _
  | .fresh => by
      rw [Step.perform]
      exact Lasting.bind Lasting.newFuture fun _ =>
        Lasting.bind (Lasting.modify fun _ => rfl) fun _ => Lasting.pure _
  | .follow before => by
      rw [Step.perform]
      exact Lasting.bind Lasting.newSource fun _ =>
        Lasting.bind (Lasting.mapM (fun s => lasting_sourceStep htell s) before) fun _ =>
          Lasting.bind (lasting_followSource htell _) fun _ => Lasting.pure _
  | .source s => by
      rw [Step.perform]
      exact lasting_sourceStep htell s
  | .submit failure args keywords now => by
      rw [Step.perform]
      -- Building does not touch any future, and work that is not started is no outcome yet.
      refine Lasting.bind (Lasting.mapM Lasting.build args) fun args' =>
        Lasting.bind (Lasting.mapM (fun k => Lasting.bind (Lasting.build k.2) fun _ =>
          Lasting.pure _) keywords) fun keywords' => ?_
      split
      · exact Lasting.throw _
      · exact Lasting.bind (lasting_submitWork htell _ _) fun _ => Lasting.pure _
  | .runQueued => by
      rw [Step.perform]
      refine Lasting.bind Lasting.get fun x => ?_
      split
      · exact Lasting.pure _
      · exact Lasting.bind (Lasting.modify fun _ => rfl) fun _ =>
          Lasting.bind (lasting_doWork htell _ _) fun _ => Lasting.pure _
  | .raise e => by
      rw [Step.perform]
      exact Lasting.throw _

theorem lasting_performAll (htell : ∀ id o r, Lasting (tell id o r)) :
    ∀ steps : List Step, Lasting (performAll tell steps)
  | [] => by
      rw [performAll]
      exact Lasting.pure []
  | s :: rest => by
      rw [performAll]
      exact Lasting.bind (lasting_perform htell s).answered fun _ =>
        Lasting.bind (lasting_performAll htell rest) fun _ => Lasting.pure _

end

/-- What a listener does leaves decided futures as they are. -/
theorem lasting_act (htell : ∀ id o r, Lasting (tell id o r)) (ticket : Nat)
    (actions : List Step) : Lasting (act tell ticket actions) := by
  induction actions with
  | nil =>
      rw [act]
      exact Lasting.pure ()
  | cons s rest ih =>
      -- Raising is the one step whose failure is not noted as an answer: it ends the listener.
      by_cases hraise : ∃ e, s = .raise e
      · rcases hraise with ⟨e, rfl⟩
        rw [act]
        exact Lasting.throw _
      · rw [act]
        · exact Lasting.bind (lasting_perform htell s).answered fun _ =>
            Lasting.bind (Lasting.note _) fun _ => ih
        · exact fun e he => hraise ⟨e, he⟩

theorem lasting_tellWith (htell : ∀ id o r, Lasting (tell id o r)) (id : Nat) (o : Outcome)
    (r : Registration Listener) : Lasting (tellWith tell id o r) := by
  unfold tellWith
  cases o.told r.kind with
  | none => exact Lasting.pure ()
  | some args =>
      refine Lasting.handling ?_ fun e => Lasting.log _
      cases r.listener with
      | scripted name actions =>
          exact Lasting.bind (Lasting.note _) fun _ => lasting_act htell _ actions
      | canceller src =>
          cases hsays : o.saysCancelled with
          | true =>
              simp only [Listener.call, hsays, if_true]
              exact Lasting.bind (lasting_cancelSource htell src) fun _ => Lasting.pure ()
          | false =>
              simp only [Listener.call, hsays, if_false, Bool.false_eq_true]
              exact Lasting.pure ()
      | task => exact Lasting.pure ()

/-- Whatever listeners do at any level, decided futures stay as they are. -/
theorem lasting_tellAt (levels : Nat) (id : Nat) (o : Outcome) (r : Registration Listener) :
    Lasting (tellAt levels id o r) := by
  induction levels generalizing id o r with
  | zero => exact Lasting.pure ()
  | succ n ih => exact lasting_tellWith ih id o r

end

/-- No script undoes a decision or makes another one of it. -/
theorem Exchange.lasts_playFrom (levels : Nat) (steps : List Step) (x : Exchange) :
    Lasts x (playFrom levels x steps).2 := by
  induction steps generalizing x with
  | nil => exact Lasts.of_futures rfl
  | cons s rest ih =>
      exact (lasting_perform (lasting_tellAt levels) s x _ _ (yields_run _ x)).trans (ih _)

end Docket
