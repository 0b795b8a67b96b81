import Docket.Proofs.Future.Delivery

/-!
# A source and the future that follows it

A source and its follower are a pair: the future is told how the source ended,
and the source is cancelled when the future is. Steps on the pair that do not
decide the future themselves are paired steps.

Once the future is decided the pair is at rest. Each of the two tries to tell the
other, and neither finds anything left to do: the source has ended, or it runs on
and what it comes to is ignored. `AtRest` says so with a property of the state of
the source that lasts (`Fate`), since a source may still be started in vain or
finish too late.

That callbacks of callbacks come to an end is said by comparing two ways of
telling listeners. `Parallel` compares two programs: begun at rest they do the same,
and leave the pair at rest. Telling is the same whatever would be done below the
last level (`parallel_tellOver`), so that level is never reached.

## Main definitions

* `Step.isPaired`: A step on a source and its follower.
* `tellOver`: Telling with some way of telling below the last level.
* `AtRest`: The future is decided and the source stays as it is.
* `Parallel`: Two programs that do the same and keep something.

## Theorems

* `Parallel.bind`: Programs in two parts.
* `parallel_perform`: Paired steps leave a pair at rest.
* `parallel_tellOver`: So do their listeners, and the lowest level is not reached.
-/

namespace Docket

open Play

mutual

/-- Whether a step is about a source and its follower and does not decide the
    follower otherwise than by cancelling it. So must the steps of listeners. -/
def Step.isPaired : Step → Bool
  | .cancel => true
  | .listen _ _ actions => arePaired actions
  | .source _ => true
  | s => s.looks

/-- Whether steps are all paired. -/
def arePaired : List Step → Bool
  | [] => true
  | s :: rest => s.isPaired && arePaired rest

end

theorem isPaired_of_mem {steps : List Step} (h : arePaired steps = true) :
    ∀ s ∈ steps, s.isPaired = true := by
  induction steps with
  | nil => exact fun s hs => absurd hs List.not_mem_nil
  | cons t rest ih =>
      rw [arePaired, Bool.and_eq_true] at h
      exact List.forall_mem_cons.mpr ⟨h.1, ih h.2⟩

/-- Tells a listener, with so many levels of listeners inside listeners, and those
    below in some other way. -/
def tellOver (bottom : Tell) : Nat → Tell
  | 0 => bottom
  | levels + 1 => tellWith (tellOver bottom levels)

/-- Tells nobody. -/
def idle : Tell := fun _ _ _ => return ()

theorem tellOver_idle (levels : Nat) : tellOver idle levels = tellAt levels := by
  induction levels with
  | zero => rfl
  | succ levels ih => rw [tellOver, tellAt, ih]

/-- A listener that so many levels are enough for: one whose steps are paired, or
    one that cancels source `i`. -/
def Listener.Fits (i levels : Nat) : Listener → Prop
  | .scripted _ actions => arePaired actions = true ∧ weights actions < levels
  | .canceller source => source = i ∧ 0 < levels
  | .task => False

/-- Nothing that was passed on since some history came to a future that was
    decided otherwise. -/
def Smooth (h : List Event) (y : Exchange) : Prop :=
  ∃ events, y.history.toList = h ++ events ∧
    ∀ f state, .passedOn f (.error (.alreadyResolved state)) ∉ events

theorem Smooth.add {h events : List Event} {y y' : Exchange} (hy : Smooth h y)
    (hhistory : y'.history.toList = y.history.toList ++ events)
    (hevents : ∀ f state, .passedOn f (.error (.alreadyResolved state)) ∉ events) :
    Smooth h y' := by
  rcases hy with ⟨before, hbefore, hsmooth⟩
  refine ⟨before ++ events, by rw [hhistory, hbefore, List.append_assoc], fun f state hmem => ?_⟩
  rcases List.mem_append.mp hmem with hmem | hmem
  · exact hsmooth f state hmem
  · exact hevents f state hmem

/-! ## Programs that do the same -/

/-- Two programs that do the same where something holds, and keep it. -/
def Parallel {α : Type} (I : Exchange → Prop) (p p' : Play α) : Prop :=
  ∀ y out y', I y → Yields p y out y' → Yields p' y out y' ∧ I y'

namespace Parallel

variable {α β : Type} {I : Exchange → Prop}

theorem same {p : Play α} (h : ∀ y out y', I y → Yields p y out y' → I y') : Parallel I p p :=
  fun y out y' hy hp => ⟨hp, h y out y' hy hp⟩

theorem pure (a : α) : Parallel I (Pure.pure a : Play α) (Pure.pure a) :=
  same fun _ _ _ hy h => (yields_pure.mp h).2 ▸ hy

theorem throw (e : Failure) : Parallel I (MonadExcept.throw e : Play α) (MonadExcept.throw e) :=
  same fun _ _ _ hy h => (yields_throw.mp h).2 ▸ hy

theorem ofExcept (r : Except Failure α) :
    Parallel I (MonadExcept.ofExcept r : Play α) (MonadExcept.ofExcept r) :=
  same fun _ _ _ hy h => (yields_ofExcept.mp h).2 ▸ hy

/-- Programs in two parts. -/
theorem bind {p p' : Play α} {f f' : α → Play β} (hp : Parallel I p p')
    (hf : ∀ a, Parallel I (f a) (f' a)) : Parallel I (p >>= f) (p' >>= f') := by
  intro y out y' hy h
  rcases yields_bind.mp h with ⟨a, m, h₁, h₂⟩ | ⟨e, h₁, rfl⟩
  · rcases hp y _ m hy h₁ with ⟨h₁', hm⟩
    rcases hf a m out y' hm h₂ with ⟨h₂', hy'⟩
    exact ⟨(yields_bind_ok h₁').mpr h₂', hy'⟩
  · rcases hp y _ y' hy h₁ with ⟨h₁', hy'⟩
    exact ⟨(yields_bind_error h₁').mpr ⟨rfl, rfl⟩, hy'⟩

theorem answered {p p' : Play Reply} (hp : Parallel I p p') :
    Parallel I (Play.answered p) (Play.answered p') := by
  intro y r y' hy h
  rcases yields_answered.mp h with ⟨out, hout, rfl⟩
  rcases hp y out y' hy hout with ⟨hout', hy'⟩
  exact ⟨yields_answered.mpr ⟨out, hout', rfl⟩, hy'⟩

theorem handling {p p' : Play Unit} {handle : Failure → Play Unit} (hp : Parallel I p p')
    (hhandle : ∀ e, Parallel I (handle e) (handle e)) :
    Parallel I (Play.handling p handle) (Play.handling p' handle) := by
  intro y r y' hy h
  rcases yields_handling.mp h with ⟨h₁, rfl⟩ | ⟨e, m, h₁, h₂⟩
  · rcases hp y _ y' hy h₁ with ⟨h₁', hy'⟩
    exact ⟨yields_handling.mpr (Or.inl ⟨h₁', rfl⟩), hy'⟩
  · rcases hp y _ m hy h₁ with ⟨h₁', hm⟩
    refine ⟨yields_handling.mpr (Or.inr ⟨e, m, h₁', h₂⟩), ?_⟩
    by_cases he : e.isOrdinary = true
    · rw [if_pos he] at h₂
      exact (hhandle e m r y' hm h₂).2
    · rw [if_neg he] at h₂
      exact h₂.2 ▸ hm

end Parallel

/-! ## Pairs at rest -/

/-- What a source comes to, as far as its follower is concerned, has been settled:
    the source is under way no longer, or what it comes to is ignored. -/
structure Fate (o : Outcome) (P : SourceState → Prop) : Prop where
  begun : ¬ P .waiting
  withdrawn : P .cancelled → P .withdrawn
  late : P .running → o = .cancelled ∧ ∀ r, P (.finished r)

/-- The follower has the outcome of the source. -/
theorem fate_bound (o : Outcome) : Fate o fun state => state.outcome? = some o where
  begun := nofun
  withdrawn h := h
  late := nofun

/-- The follower was cancelled when the source was running. -/
theorem fate_late :
    Fate .cancelled fun state => state = .running ∨ ∃ r, state = .finished r where
  begun := nofun
  withdrawn := nofun
  late _ := ⟨rfl, fun r => Or.inr ⟨r, rfl⟩⟩

/-- Future `a` follows source `i` and is decided, and the state of the source has a
    property. Steps are about the two. -/
structure AtRest (a i : Nat) (o : Outcome) (P : SourceState → Prop) (h : List Event)
    (y : Exchange) : Prop where
  current : y.current = a
  source : y.source = i
  action : y.futures[a]? = some (.decided o)
  ended : ∃ state, y.sources[i]? = some ⟨state, some a⟩ ∧ P state
  smooth : Smooth h y

section

variable {a i : Nat} {o : Outcome} {P : SourceState → Prop} {h : List Event} {y y' : Exchange}
  {tell tell' : Tell}

theorem AtRest.passes {events : List Event} {n : Nat} (hy : AtRest a i o P h y)
    (hpass : Passes y y' n events)
    (hevents : ∀ f state, .passedOn f (.error (.alreadyResolved state)) ∉ events) :
    AtRest a i o P h y' where
  current := hpass.current.trans hy.current
  source := hpass.source.trans hy.source
  action := hpass.futures ▸ hy.action
  ended := hpass.sources ▸ hy.ended
  smooth := hy.smooth.add hpass.history hevents

theorem AtRest.parallel {α : Type} {p : Play α} (hp : Quiet p) : Parallel (AtRest a i o P h) p p :=
  Parallel.same fun y out y' hy hrun => hy.passes (hp y out y' hrun) fun _ _ => List.not_mem_nil

theorem AtRest.parallel_note {e : Event}
    (he : ∀ f state, e ≠ .passedOn f (.error (.alreadyResolved state))) :
    Parallel (AtRest a i o P h) (note e) (note e) := by
  refine Parallel.same fun y out y' hy hrun => ?_
  rw [(yields_note.mp hrun).2]
  exact hy.passes (Passes.note y e) fun f state hmem => he f state (List.mem_singleton.mp hmem).symm

theorem AtRest.parallel_get {β : Type} {f f' : Exchange → Play β}
    (hf : ∀ z, z.current = a → z.source = i → Parallel (AtRest a i o P h) (f z) (f' z)) :
    Parallel (AtRest a i o P h) (do f (← get)) (do f' (← get)) := by
  intro y out y' hy hrun
  rw [yields_bind_ok (yields_get.mpr ⟨rfl, rfl⟩)] at hrun ⊢
  exact hf y hy.current hy.source y out y' hy hrun

/-- The source goes over to another state of the same kind. -/
theorem AtRest.write {state : SourceState} (hy : AtRest a i o P h y) (hstate : P state) :
    AtRest a i o P h { y with sources := y.sources.modify i fun _ => ⟨state, some a⟩ } where
  current := hy.current
  source := hy.source
  action := hy.action
  ended := by
    rcases hy.ended with ⟨old, hold, -⟩
    refine ⟨state, ?_, hstate⟩
    rw [Array.getElem?_modify, if_pos rfl, hold]
    rfl
  smooth := hy.smooth

/-- Writing the log does not fail. -/
theorem log_yields (r : LogRecord) (y : Exchange) :
    ∃ m, Yields (log r) y (.ok ()) m ∧ Passes y m 0 [] := by
  have hrun := yields_run (log r) y
  rcases yields_log hrun with ⟨hok, hpass⟩
  exact ⟨_, hok ▸ hrun, hpass⟩

/-- To a decided future that ignores it an outcome comes too late. -/
theorem decideFuture_late {o' : Outcome} (haction : y.futures[a]? = some (.decided o))
    (hlate : (Future.decided o : Future Listener).decide o' = .ok none) :
    ∃ m, (∀ tell, Yields (decideFuture tell a o') y (.ok false) m) ∧ Passes y m 0 [] := by
  have hrun : ∀ {out m}, Yields (do
      if !o'.isCancelled then log (.ignored o'.state (Future.decided o : Future Listener).display)
      return false) y out m → ∀ tell, Yields (decideFuture tell a o') y out m := by
    intro out m hrun tell
    unfold decideFuture
    rw [yields_bind_ok (yields_future.mpr ⟨rfl, rfl⟩), haction, Option.getD_some,
      yields_bind_ok (yields_ofExcept.mpr ⟨hlate.symm, rfl⟩)]
    exact hrun
  -- That a late outcome is ignored is noted in the log, unless it is a cancellation.
  cases hcancelled : o'.isCancelled with
  | true =>
      refine ⟨y, hrun ?_, Passes.refl y⟩
      rw [hcancelled]
      exact yields_pure.mpr ⟨rfl, rfl⟩
  | false =>
      rcases log_yields (.ignored o'.state (Future.decided o : Future Listener).display) y with
        ⟨m, hlog, hpass⟩
      refine ⟨m, hrun ?_, hpass⟩
      rw [hcancelled]
      exact (yields_bind_ok hlog).mpr (yields_pure.mpr ⟨rfl, rfl⟩)

theorem yields_source {id : Nat} {r : Except Failure Source} :
    Yields (Play.source id) y r y' ↔ r = .ok (y.sources[id]?.getD .fresh) ∧ y' = y := by
  unfold Play.source
  rw [yields_bind_ok (yields_get.mpr ⟨rfl, rfl⟩), yields_pure]

theorem yields_setSource {id : Nat} {s : Source} {r : Except Failure Unit} :
    Yields (setSource id s) y r y' ↔
      r = .ok () ∧ y' = { y with sources := y.sources.modify id fun _ => s } :=
  yields_modify

/-- Looking at the state of a source is quiet. -/
theorem quiet_sourceState (tell : Tell) : Quiet (SourceStep.state.perform tell) :=
  Quiet.bind Quiet.get fun _ =>
    Quiet.bind (Quiet.of_same fun _ _ _ h => (yields_source.mp h).2) fun _ => Quiet.pure _

/-- What a source passes on to its follower is noted, and if the follower ignores
    it nothing else happens. -/
theorem passOn_late {state : SourceState} {o' : Outcome} (hstate : state.outcome? = some o')
    (haction : y.futures[a]? = some (.decided o))
    (hlate : (Future.decided o : Future Listener).decide o' = .ok none) :
    ∃ m, (∀ tell, Yields (passOn tell ⟨state, some a⟩) y (.ok ()) m) ∧
      Passes y m 0 [.passedOn a (.ok false)] := by
  rcases decideFuture_late haction hlate with ⟨m, hdecide, hpass⟩
  refine ⟨_, fun tell => ?_, hpass.trans (Passes.note m (.passedOn a (.ok false)))⟩
  unfold passOn
  simp only [hstate]
  refine yields_handling.mpr (Or.inl ⟨?_, rfl⟩)
  rw [yields_bind_ok (yields_attempt.mpr ⟨_, hdecide tell, rfl⟩),
    yields_bind_ok (yields_note.mpr ⟨rfl, rfl⟩)]
  exact (yields_bind_ok (yields_ofExcept.mpr ⟨rfl, rfl⟩)).mpr (yields_pure.mpr ⟨rfl, rfl⟩)

/-- A cancelled future ignores everything. -/
theorem decide_cancelled (o' : Outcome) :
    (Future.decided .cancelled : Future Listener).decide o' = .ok none := by
  cases o' <;> rfl

/-- A source that finishes when its follower has been cancelled is finished, and its
    result is dropped. -/
theorem finishSource_late {r : Except Failure Value}
    (haction : y.futures[a]? = some (.decided .cancelled))
    (hsource : y.sources[i]? = some ⟨.running, some a⟩) :
    ∃ m, (∀ tell, Yields (finishSource tell i r) y (.ok ()) m) ∧
      Passes { y with sources := y.sources.modify i fun _ => ⟨.finished r, some a⟩ } m 0
        [.passedOn a (.ok false)] := by
  have hstate : ∃ o', (SourceState.finished r).outcome? = some o' := by
    cases r <;> exact ⟨_, rfl⟩
  rcases hstate with ⟨o', hstate⟩
  rcases passOn_late (y := { y with
    sources := y.sources.modify i fun _ => ⟨.finished r, some a⟩ }) hstate haction
    (decide_cancelled o') with ⟨m, hpassOn, hpass⟩
  refine ⟨m, fun tell => ?_, hpass⟩
  unfold finishSource
  -- What the follower has come to does not keep the source from finishing.
  have hfinish : (Source.mk .running (some a)).finish r = .ok ⟨.finished r, some a⟩ := rfl
  rw [yields_bind_ok (yields_source.mpr ⟨rfl, rfl⟩), hsource, Option.getD_some, hfinish,
    yields_bind_ok (yields_ofExcept.mpr ⟨rfl, rfl⟩),
    yields_bind_ok (yields_setSource.mpr ⟨rfl, rfl⟩)]
  exact hpassOn tell

variable (hfate : Fate o P)
include hfate

theorem parallel_finishSource (r : Except Failure Value) :
    Parallel (AtRest a i o P h) (finishSource tell i r) (finishSource tell' i r) := by
  intro y out y' hy hrun
  rcases hy.ended with ⟨state, hsource, hstate⟩
  -- Only a source that is running can still finish, and then the future was cancelled before.
  by_cases hrunning : state = .running
  · subst hrunning
    rcases hfate.late hstate with ⟨rfl, hlate⟩
    rcases finishSource_late (r := r) hy.action hsource with ⟨m, hfinish, hpass⟩
    rcases yields_unique hrun (hfinish tell) with ⟨rfl, rfl⟩
    refine ⟨hfinish tell', (hy.write (hlate r)).passes hpass fun f state hmem => ?_⟩
    cases List.mem_singleton.mp hmem
  · have hdone : ∃ e, (Source.mk state (some a)).finish r = .error e := by
      cases state with
      | waiting => exact absurd hstate hfate.begun
      | running => exact absurd rfl hrunning
      | finished r' => cases r' <;> exact ⟨_, rfl⟩
      | _ => exact ⟨_, rfl⟩
    rcases hdone with ⟨e, hdone⟩
    have hthrows : ∀ tell, Yields (finishSource tell i r) y (.error e) y := by
      intro tell
      unfold finishSource
      rw [yields_bind_ok (yields_source.mpr ⟨rfl, rfl⟩), hsource, Option.getD_some, hdone]
      exact (yields_bind_error (yields_ofExcept.mpr ⟨rfl, rfl⟩)).mpr ⟨rfl, rfl⟩
    rcases yields_unique hrun (hthrows tell) with ⟨rfl, rfl⟩
    exact ⟨hthrows tell', hy⟩

theorem parallel_cancelSource :
    Parallel (AtRest a i o P h) (cancelSource tell i) (cancelSource tell' i) := by
  intro y out y' hy hrun
  rcases hy.ended with ⟨state, hsource, hstate⟩
  -- Where the follower is at rest the source has at least been started.
  have hnone : (Source.mk state (some a)).cancel? = none := by
    cases state with
    | waiting => exact absurd hstate hfate.begun
    | _ => rfl
  have hanswers : ∀ tell, Yields (cancelSource tell i) y (.ok state.isCancelled) y := by
    intro tell
    unfold cancelSource
    rw [yields_bind_ok (yields_source.mpr ⟨rfl, rfl⟩), hsource, Option.getD_some, hnone]
    exact yields_pure.mpr ⟨rfl, rfl⟩
  rcases yields_unique hrun (hanswers tell) with ⟨rfl, rfl⟩
  exact ⟨hanswers tell', hy⟩

/-- Starting a source at rest fails, or finds out that it was cancelled. -/
theorem parallel_start : Parallel (AtRest a i o P h)
    (do
      let (wanted, s) ← MonadExcept.ofExcept (← Play.source i).start
      setSource i s
      return .bool wanted)
    (do
      let (wanted, s) ← MonadExcept.ofExcept (← Play.source i).start
      setSource i s
      return Reply.bool wanted) := by
  refine Parallel.same fun y out y' hy hrun => ?_
  rcases hy.ended with ⟨state, hsource, hstate⟩
  rw [yields_bind_ok (yields_source.mpr ⟨rfl, rfl⟩), hsource, Option.getD_some] at hrun
  rcases yields_bind.mp hrun with ⟨started, m, h₁, h₂⟩ | ⟨e, h₁, -⟩
  · rcases yields_ofExcept.mp h₁ with ⟨hstarted, rfl⟩
    rw [yields_bind_ok (yields_setSource.mpr ⟨rfl, rfl⟩)] at h₂
    rw [(yields_pure.mp h₂).2]
    -- A source at rest does not wait to be started, and of the others only a cancelled one does
    -- not fail.
    cases state with
    | waiting => exact absurd hstate hfate.begun
    | cancelled =>
        cases hstarted
        exact hy.write (hfate.withdrawn hstate)
    | _ => cases hstarted
  · exact (yields_ofExcept.mp h₁).2 ▸ hy

theorem parallel_sourceStep (s : SourceStep) :
    Parallel (AtRest a i o P h) (s.perform tell) (s.perform tell') := by
  cases s with
  | start =>
      refine AtRest.parallel_get fun z _ hz => ?_
      simp only [hz]
      exact parallel_start hfate
  | finish v =>
      refine Parallel.bind (AtRest.parallel (quiet_build v)) fun w =>
        AtRest.parallel_get fun z _ hz => ?_
      simp only [hz]
      exact Parallel.bind (parallel_finishSource hfate _) fun _ => Parallel.pure _
  | fail e =>
      refine AtRest.parallel_get fun z _ hz => ?_
      simp only [hz]
      exact Parallel.bind (parallel_finishSource hfate _) fun _ => Parallel.pure _
  | cancel =>
      refine AtRest.parallel_get fun z _ hz => ?_
      simp only [hz]
      exact Parallel.bind (parallel_cancelSource hfate) fun _ => Parallel.pure _
  | state => exact AtRest.parallel (quiet_sourceState tell)

omit hfate in
/-- Steps that only look at a future tell nobody. -/
theorem perform_looks (tell tell' : Tell) (s : Step) (hs : s.looks = true) :
    s.perform tell = s.perform tell' := by
  cases s with
  | get t => rw [Step.perform, Step.perform]
  | listenValue kind v => rw [Step.perform, Step.perform]
  | rootFailure => rw [Step.perform, Step.perform]
  | query q => rw [Step.perform, Step.perform]
  | sameFailure => rw [Step.perform, Step.perform]
  | await => rw [Step.perform, Step.perform]
  | awaitBriefly => rw [Step.perform, Step.perform]
  | raise e => rw [Step.perform, Step.perform]
  | _ => exact absurd hs (by simp only [Step.looks, Bool.false_eq_true, not_false_eq_true])

omit hfate in
/-- A registration on a decided future is told at once. -/
theorem parallel_register {n : Nat} {kind : ListenerKind} {l : Listener}
    (htell : ∀ r : Registration Listener, r.listener.Fits i n →
      Parallel (AtRest a i o P h) (tell a o r) (tell' a o r)) (hl : l.Fits i n) :
    Parallel (AtRest a i o P h) (register tell a kind l) (register tell' a kind l) := by
  intro y out y' hy hrun
  unfold register at hrun ⊢
  rw [yields_bind_ok (yields_ticket.mpr ⟨rfl, rfl⟩),
    yields_bind_ok (yields_future.mpr ⟨rfl, rfl⟩), hy.action, Option.getD_some] at hrun ⊢
  -- What was noted is no passing on, and the pair stays at rest.
  have hticket : AtRest a i o P h { y with
      tickets := y.tickets + 1
      history := y.history.push (.registered a ⟨y.tickets, kind, l⟩) } := by
    refine hy.passes (n := 1) ⟨rfl, rfl, rfl, rfl, rfl, Array.toList_push⟩ fun f state hmem => ?_
    cases List.mem_singleton.mp hmem
  have hreturns : Parallel (AtRest a i o P h) (note (.returned y.tickets)) _ :=
    AtRest.parallel_note fun _ _ heq => by cases heq
  exact Parallel.bind (htell ⟨y.tickets, kind, l⟩ hl)
    (fun _ => hreturns.bind fun _ => Parallel.pure _) _ out y' hticket hrun

/-- Paired steps leave a pair at rest, and do the same however listeners are told
    that do more than they do. -/
theorem parallel_perform {n : Nat} (htell : ∀ r : Registration Listener, r.listener.Fits i n →
      Parallel (AtRest a i o P h) (tell a o r) (tell' a o r)) (s : Step) (hs : s.isPaired = true)
    (hweight : s.weight ≤ n) : Parallel (AtRest a i o P h) (s.perform tell) (s.perform tell') := by
  have hcurrent : ∀ {β : Type} {f f' : Nat → Play β}, Parallel (AtRest a i o P h) (f a) (f' a) →
      Parallel (AtRest a i o P h) (current >>= f) (current >>= f') := by
    intro β f f' hf y out y' hy hrun
    rw [yields_bind_ok (yields_current.mpr ⟨rfl, rfl⟩), hy.current] at hrun ⊢
    exact hf y out y' hy hrun
  by_cases hlooks : s.looks = true
  · rw [perform_looks tell' tell s hlooks]
    exact AtRest.parallel (quiet_perform tell s hlooks)
  · cases s with
    | cancel =>
        rw [Step.perform, Step.perform]
        refine hcurrent (Parallel.bind (fun y out y' hy hrun => ?_) fun _ => Parallel.pure _)
        -- No decided future can be cancelled, so this is ignored.
        have hlate : (Future.decided o : Future Listener).decide .cancelled = .ok none := by
          cases o <;> rfl
        rcases decideFuture_late hy.action hlate with ⟨m, hdecide, hpass⟩
        rcases yields_unique hrun (hdecide tell) with ⟨rfl, rfl⟩
        exact ⟨hdecide tell', hy.passes hpass fun _ _ => List.not_mem_nil⟩
    | listen kind name actions =>
        rw [Step.isPaired] at hs
        rw [Step.weight] at hweight
        rw [Step.perform, Step.perform]
        exact hcurrent (Parallel.bind (parallel_register htell ⟨hs, hweight⟩)
          fun _ => Parallel.pure _)
    | source s =>
        rw [Step.perform, Step.perform]
        exact parallel_sourceStep hfate s
    | _ => exact absurd hs hlooks

theorem parallel_act {n : Nat} (htell : ∀ r : Registration Listener, r.listener.Fits i n →
      Parallel (AtRest a i o P h) (tell a o r) (tell' a o r)) (ticket : Nat) (actions : List Step)
    (hactions : ∀ s ∈ actions, s.isPaired = true ∧ s.weight ≤ n) :
    Parallel (AtRest a i o P h) (act tell ticket actions) (act tell' ticket actions) := by
  induction actions with
  | nil =>
      rw [act, act]
      exact Parallel.pure ()
  | cons s rest ih =>
      rw [List.forall_mem_cons] at hactions
      -- What is raised ends the listener on both sides.
      by_cases hraise : ∃ e, s = .raise e
      · rcases hraise with ⟨e, rfl⟩
        rw [act, act]
        exact Parallel.throw _
      · have hne : ∀ e, s = .raise e → False := fun e he => hraise ⟨e, he⟩
        rw [act.eq_3 _ _ _ _ hne, act.eq_3 _ _ _ _ hne]
        exact Parallel.bind (parallel_perform hfate htell s hactions.1.1 hactions.1.2).answered
          fun _ => (AtRest.parallel_note fun _ _ heq => by cases heq).bind fun _ => ih hactions.2

theorem parallel_tellWith {n : Nat} (htell : ∀ r : Registration Listener, r.listener.Fits i n →
      Parallel (AtRest a i o P h) (tell a o r) (tell' a o r)) (r : Registration Listener)
    (hr : r.listener.Fits i (n + 1)) :
    Parallel (AtRest a i o P h) (tellWith tell a o r) (tellWith tell' a o r) := by
  unfold tellWith
  cases o.told r.kind with
  | none => exact Parallel.pure ()
  | some args =>
      refine Parallel.handling ?_ fun e => AtRest.parallel (quiet_log _)
      cases hl : r.listener with
      | scripted name actions =>
          rw [hl] at hr
          refine (AtRest.parallel_note fun _ _ heq => by cases heq).bind fun _ =>
            parallel_act hfate htell _ actions fun s hs => ⟨isPaired_of_mem hr.1 s hs, ?_⟩
          have hle := weight_le_of_mem s hs
          have hlt := hr.2
          omega
      | canceller source =>
          rw [hl] at hr
          -- Cancelling the source is as good as ignored, since the pair is at rest.
          rw [hr.1]
          cases hsays : o.saysCancelled with
          | true =>
              simp only [Listener.call, hsays, if_true]
              exact Parallel.bind (parallel_cancelSource hfate) fun _ => Parallel.pure ()
          | false =>
              simp only [Listener.call, hsays, if_false, Bool.false_eq_true]
              exact Parallel.pure ()
      | task =>
          rw [hl] at hr
          exact hr.elim

/-- Listeners leave a pair at rest, and nobody is told below the last level. -/
theorem parallel_tellOver (bottom bottom' : Tell) (levels : Nat) (r : Registration Listener)
    (hr : r.listener.Fits i levels) :
    Parallel (AtRest a i o P h) (tellOver bottom levels a o r) (tellOver bottom' levels a o r) := by
  induction levels generalizing r with
  | zero =>
      cases hl : r.listener <;> rw [hl] at hr
      · exact absurd hr.2 (Nat.not_lt_zero _)
      · exact absurd hr.2 (Nat.lt_irrefl 0)
      · exact hr.elim
  | succ levels ih => exact parallel_tellWith hfate ih r hr

theorem parallel_notify (bottom bottom' : Tell) (levels : Nat) (rs : List (Registration Listener))
    (hrs : ∀ r ∈ rs, r.listener.Fits i levels) :
    Parallel (AtRest a i o P h) (notify (tellOver bottom levels) a o rs)
      (notify (tellOver bottom' levels) a o rs) := by
  induction rs with
  | nil => exact Parallel.pure ()
  | cons r rest ih =>
      rw [List.forall_mem_cons] at hrs
      exact Parallel.bind (parallel_tellOver hfate bottom bottom' levels r hrs.1) fun _ => ih hrs.2

end

end Docket
