import Docket.Proofs.Future.Lasting
import Docket.Proofs.Future.Agreement
import Docket.Proofs.Future.Pairing
import Mathlib.Data.List.Induction

/-!
# Sources coupled with futures

A future that is made to follow a source, and the source, are two machines that
call each other: the source tells the future how it ended, and the future, when it
is cancelled, has its canceller cancel the source. Whatever is done to the two, in
whatever order, they agree: a decided future has what the source came to, unless
it was cancelled while the source was running.

A pair starts out open, with the future pending, the canceller in the first place of
those who wait, and the source not ended (`Open`). A step leaves it open, or the
source ends and the future is decided by that, or the future is cancelled. In the
last case the canceller is told before anyone else, so a source that waits to be
started is cancelled before a listener could do anything (`Open.cancel`), and a
source that is running runs on (`Late`). From then on the pair is at rest, which all
steps and listeners leave it in (`parallel_perform`). The course of a pair is put
together from these by induction along the steps (`PairStands.steps`).

## Main definitions

* `Open`: The future is pending and the source may come to something.
* `Bound`, `Late`: The two ways in which a pair is at rest.
* `PairStands`: Where a pair stands after some steps.
* `Coupled`: What couples a source with its follower.

## Theorems

* `Open.decide`, `Open.passOn`, `Open.cancel`: How a pair comes to rest.
* `shifts_perform`: A paired step on an open pair.
* `PairStands.step`, `PairStands.steps`: One step more, and any number.
* `followSource_pairs`: A source and a future made to follow it are a pair.
* `followSource_coupled`: They stay coupled, and every callback comes to an end.
-/

namespace Docket

open Play

/-! ## Telling those who wait -/

/-- What fails fails with a request to stop. -/
def OnlyStops {α : Type} (out : Except Failure α) : Prop :=
  ∀ e, out = .error e → e.isOrdinary = false

section

variable {a i levels : Nat} {o : Outcome} {P : SourceState → Prop} {h : List Event}
  {y y' : Exchange} {state : SourceState}

/-- An ordinary error of a listener concerns no one else. -/
theorem stops_tellWith {tell : Tell} {r : Registration Listener} {out : Except Failure Unit}
    (hrun : Yields (tellWith tell a o r) y out y') : OnlyStops out := by
  unfold tellWith at hrun
  cases htold : o.told r.kind with
  | none =>
      rw [htold] at hrun
      rw [(yields_pure.mp hrun).1]
      exact nofun
  | some args =>
      rw [htold] at hrun
      rcases yields_handling.mp hrun with ⟨-, rfl⟩ | ⟨e, m, -, hhandle⟩
      · exact nofun
      -- An ordinary error is only logged, and any other one goes through.
      · by_cases he : e.isOrdinary = true
        · rw [if_pos he] at hhandle
          rw [(yields_log hhandle).1]
          exact nofun
        · rw [if_neg he] at hhandle
          rw [hhandle.1]
          intro e' he'
          cases he'
          exact Bool.eq_false_iff.mpr he

theorem stops_notify {tell : Tell} {rs : List (Registration Listener)} {out : Except Failure Unit}
    (hrun : Yields (notify (tellWith tell) a o rs) y out y') : OnlyStops out := by
  induction rs generalizing y with
  | nil =>
      rw [(yields_pure.mp hrun).1]
      exact nofun
  | cons r rest ih =>
      rcases yields_bind.mp hrun with ⟨u, m, -, hrest⟩ | ⟨e, htell, rfl⟩
      · exact ih hrest
      · intro e' he'
        cases he'
        exact stops_tellWith htell e rfl

/-- A pending future is decided, and then those who waited are told. -/
theorem decideFuture_tells {ws : List (Registration Listener)}
    (haction : y.futures[a]? = some (.pending ws)) :
    ∃ m, Passes { y with futures := y.futures.modify a fun _ => .decided o } m 0 [.decided a o] ∧
      ∀ tell out y', Yields (decideFuture tell a o) y out y' ↔
        Yields (do notify tell a o ws; return true) m out y' := by
  have hdecide : (Future.pending ws).decide o = .ok (some ws) := by cases o <;> rfl
  -- The decision is stored, noted and logged before the first listener is told.
  rcases log_yields (.transitioned (Future.decided o : Future Listener).display ws.length)
    { y with
      futures := y.futures.modify a fun _ => .decided o
      history := y.history.push (.decided a o) } with ⟨m, hlog, hpass⟩
  refine ⟨m, (Passes.note { y with futures := y.futures.modify a fun _ => .decided o }
    (.decided a o)).trans hpass, fun tell out y' => ?_⟩
  unfold decideFuture
  rw [yields_bind_ok (yields_future.mpr ⟨rfl, rfl⟩), haction, Option.getD_some, hdecide,
    yields_bind_ok (yields_ofExcept.mpr ⟨rfl, rfl⟩),
    yields_bind_ok (yields_setFuture.mpr ⟨rfl, rfl⟩),
    yields_bind_ok (yields_note.mpr ⟨rfl, rfl⟩), yields_bind_ok hlog]

/-- The future is pending, the canceller is the first of those who wait for it, and
    the source is in some state. -/
structure Open (a i levels : Nat) (state : SourceState) (h : List Event) (y : Exchange) :
    Prop where
  current : y.current = a
  source : y.source = i
  action : ∃ r rest, y.futures[a]? = some (.pending (r :: rest)) ∧ r.kind = .failure ∧
    r.listener = .canceller i ∧ ∀ r' ∈ rest, r'.listener.Fits i levels
  ended : y.sources[i]? = some ⟨state, some a⟩
  smooth : Smooth h y

/-- The future has the outcome of the source. -/
def Bound (a i : Nat) (o : Outcome) (h : List Event) (y : Exchange) : Prop :=
  AtRest a i o (fun state => state.outcome? = some o) h y

/-- The future was cancelled when the source was running. -/
def Late (a i : Nat) (h : List Event) (y : Exchange) : Prop :=
  AtRest a i .cancelled (fun state => state = .running ∨ ∃ r, state = .finished r) h y

theorem Open.passes {events : List Event} {n : Nat} (hy : Open a i levels state h y)
    (hpass : Passes y y' n events)
    (hevents : ∀ f state, .passedOn f (.error (.alreadyResolved state)) ∉ events) :
    Open a i levels state h y' where
  current := hpass.current.trans hy.current
  source := hpass.source.trans hy.source
  action := hpass.futures ▸ hy.action
  ended := hpass.sources ▸ hy.ended
  smooth := hy.smooth.add hpass.history hevents

theorem Open.write {state' : SourceState} (hy : Open a i levels state h y) :
    Open a i levels state' h
      { y with sources := y.sources.modify i fun _ => ⟨state', some a⟩ } where
  current := hy.current
  source := hy.source
  action := hy.action
  ended := by
    rw [Array.getElem?_modify, if_pos rfl, hy.ended]
    rfl
  smooth := hy.smooth

/-- When the future is decided and the source has what that brings about, the pair is
    at rest as soon as all are told. -/
theorem Open.decide (hy : Open a i levels state h y) (hlevels : 0 < levels) (hfate : Fate o P)
    (hstate : P state) {bottom : Tell} (bottom' : Tell) {out : Except Failure Bool}
    (hrun : Yields (decideFuture (tellOver bottom levels) a o) y out y') :
    Yields (decideFuture (tellOver bottom' levels) a o) y out y' ∧ AtRest a i o P h y' ∧
      OnlyStops out := by
  rcases hy.action with ⟨r, rest, haction, -, hcanceller, hrest⟩
  rcases decideFuture_tells haction with ⟨m, hpass, hdecide⟩
  rw [hdecide] at hrun ⊢
  -- Before anyone is told, the future is decided and the source has ended, which is rest.
  have hm : AtRest a i o P h m := by
    refine AtRest.passes (y := { y with futures := y.futures.modify a fun _ => .decided o })
      ⟨hy.current, hy.source, ?_, ⟨state, hy.ended, hstate⟩, hy.smooth⟩ hpass
      fun f state hmem => ?_
    · rw [Array.getElem?_modify, if_pos rfl, haction]
      rfl
    · cases List.mem_singleton.mp hmem
  have hfits : ∀ r' ∈ r :: rest, r'.listener.Fits i levels := by
    refine List.forall_mem_cons.mpr ⟨?_, hrest⟩
    rw [hcanceller]
    exact ⟨rfl, hlevels⟩
  rcases (parallel_notify hfate bottom bottom' levels _ hfits).bind (fun _ => Parallel.pure true)
    m out y' hm hrun with ⟨hrun', hy'⟩
  refine ⟨hrun', hy', ?_⟩
  -- Ordinary errors stay with the listener, so only a request to stop comes out of telling.
  cases levels with
  | zero => exact absurd hlevels (Nat.lt_irrefl 0)
  | succ n =>
      rcases yields_bind.mp hrun with ⟨u, m', -, hpure⟩ | ⟨e, hnotify, rfl⟩
      · rw [(yields_pure.mp hpure).1]
        exact nofun
      · intro e' he'
        cases he'
        exact stops_notify hnotify e rfl

/-- A source that has ended passes that on, and the future is decided by it. -/
theorem Open.passOn (hy : Open a i levels state h y) (hlevels : 0 < levels)
    (hstate : state.outcome? = some o) {bottom : Tell} (bottom' : Tell)
    {out : Except Failure Unit}
    (hrun : Yields (Docket.passOn (tellOver bottom levels) ⟨state, some a⟩) y out y') :
    Yields (Docket.passOn (tellOver bottom' levels) ⟨state, some a⟩) y out y' ∧
      Bound a i o h y' := by
  have hunfold : ∀ tell : Tell, Docket.passOn tell ⟨state, some a⟩ = handling (do
      let r ← attempt (decideFuture tell a o)
      note (.passedOn a r)
      let _ ← MonadExcept.ofExcept r) fun _ => return () := by
    intro tell
    unfold Docket.passOn
    rw [hstate]
  rw [hunfold] at hrun ⊢
  -- The part that may fail, and the note of how it went, which is never an ordinary error.
  have hpart : ∀ {out : Except Failure Unit} {y' : Exchange}, Yields (do
      let r ← attempt (decideFuture (tellOver bottom levels) a o)
      note (.passedOn a r)
      let _ ← MonadExcept.ofExcept r) y out y' → Yields (do
      let r ← attempt (decideFuture (tellOver bottom' levels) a o)
      note (.passedOn a r)
      let _ ← MonadExcept.ofExcept r) y out y' ∧ Bound a i o h y' := by
    intro out y' hrun
    rcases yields_attempt_bind.mp hrun with ⟨r, m, hdecide, hnote⟩
    rcases hy.decide hlevels (fate_bound o) hstate bottom' hdecide with ⟨hdecide', hm, hstops⟩
    have hsmooth : ∀ f state,
        Event.passedOn a r ≠ .passedOn f (.error (.alreadyResolved state)) := by
      intro f state heq
      cases heq
      exact Bool.noConfusion (hstops _ rfl)
    refine ⟨yields_attempt_bind.mpr ⟨r, m, hdecide', hnote⟩, ?_⟩
    exact (Parallel.bind (AtRest.parallel_note hsmooth) fun _ =>
      Parallel.bind (Parallel.ofExcept r) fun _ => Parallel.pure ()) m out y' hm hnote |>.2
  rcases yields_handling.mp hrun with ⟨hok, rfl⟩ | ⟨e, m, herror, hhandle⟩
  · rcases hpart hok with ⟨hok', hy'⟩
    exact ⟨yields_handling.mpr (Or.inl ⟨hok', rfl⟩), hy'⟩
  · rcases hpart herror with ⟨herror', hm⟩
    refine ⟨yields_handling.mpr (Or.inr ⟨e, m, herror', hhandle⟩), ?_⟩
    by_cases he : e.isOrdinary = true
    · rw [if_pos he] at hhandle
      exact (yields_pure.mp hhandle).2 ▸ hm
    · rw [if_neg he] at hhandle
      exact hhandle.2 ▸ hm

/-- The canceller of a source that waits to be started cancels it. That the source
    passes this on comes too late for the future, which is cancelled already. -/
theorem canceller_cancels {r : Registration Listener} (hkind : r.kind = .failure)
    (hlistener : r.listener = .canceller i)
    (haction : y.futures[a]? = some (.decided .cancelled))
    (hsource : y.sources[i]? = some ⟨.waiting, some a⟩) :
    ∃ m, (∀ tell, Yields (tellWith tell a .cancelled r) y (.ok ()) m) ∧
      Passes { y with sources := y.sources.modify i fun _ => ⟨.cancelled, some a⟩ } m 0
        [.passedOn a (.ok false)] := by
  have hstate : SourceState.cancelled.outcome? = some .cancelled := rfl
  rcases passOn_late (y := { y with
    sources := y.sources.modify i fun _ => ⟨.cancelled, some a⟩ }) hstate haction
    (decide_cancelled .cancelled) with ⟨m, hpassOn, hpass⟩
  refine ⟨m, fun tell => ?_, hpass⟩
  -- A source that waits can be cancelled, and then it has something to pass on.
  have hcancel : Yields (cancelSource tell i) y (.ok true) m := by
    have hcancel? : (Source.mk .waiting (some a)).cancel? = some ⟨.cancelled, some a⟩ := rfl
    unfold cancelSource
    rw [yields_bind_ok (yields_source.mpr ⟨rfl, rfl⟩), hsource, Option.getD_some, hcancel?]
    simp only []
    rw [yields_bind_ok (yields_setSource.mpr ⟨rfl, rfl⟩), yields_bind_ok (hpassOn tell)]
    exact yields_pure.mpr ⟨rfl, rfl⟩
  unfold tellWith
  rw [hkind, hlistener]
  refine yields_handling.mpr (Or.inl ⟨?_, rfl⟩)
  exact (yields_bind_ok hcancel).mpr (yields_pure.mpr ⟨rfl, rfl⟩)

/-- When the future is cancelled, a source that waits to be started is cancelled with
    it before anyone else is told. -/
theorem Open.cancel (hy : Open a i levels .waiting h y) (hlevels : 0 < levels) {bottom : Tell}
    (bottom' : Tell) {out : Except Failure Bool}
    (hrun : Yields (decideFuture (tellOver bottom levels) a .cancelled) y out y') :
    Yields (decideFuture (tellOver bottom' levels) a .cancelled) y out y' ∧
      Bound a i .cancelled h y' := by
  rcases hy.action with ⟨r, rest, haction, hkind, hcanceller, hrest⟩
  rcases decideFuture_tells (o := .cancelled) haction with ⟨m, hpass, hdecide⟩
  rw [hdecide] at hrun ⊢
  have hdecided : m.futures[a]? = some (.decided .cancelled) := by
    rw [hpass.futures, Array.getElem?_modify, if_pos rfl, haction]
    rfl
  have hsource : m.sources[i]? = some ⟨.waiting, some a⟩ := by rw [hpass.sources, hy.ended]
  rcases canceller_cancels hkind hcanceller hdecided hsource with ⟨m', htell, hpass'⟩
  -- The canceller is the first of those who wait, so it brings the pair to rest before anyone
  -- else is told.
  have hm' : Bound a i .cancelled h m' := by
    refine AtRest.passes (y := { m with
      sources := m.sources.modify i fun _ => ⟨.cancelled, some a⟩ })
      ⟨hpass.current.trans hy.current, hpass.source.trans hy.source, hdecided,
        ⟨.cancelled, ?_, rfl⟩, hy.smooth.add hpass.history fun f state hmem => ?_⟩ hpass'
      fun f state hmem => ?_
    · rw [Array.getElem?_modify, if_pos rfl, hsource]
      rfl
    · cases List.mem_singleton.mp hmem
    · cases List.mem_singleton.mp hmem
  cases levels with
  | zero => exact absurd hlevels (Nat.lt_irrefl 0)
  | succ n =>
      have hnotify : ∀ bottom, Yields (tellOver bottom (n + 1) a .cancelled r) m (.ok ()) m' :=
        fun bottom => htell (tellOver bottom n)
      rw [notify, bind_assoc, yields_bind_ok (hnotify _)] at hrun ⊢
      exact (parallel_notify (fate_bound .cancelled) bottom bottom' (n + 1) rest hrest).bind
        (fun _ => Parallel.pure true) m' out y' hm' hrun

/-! ## Steps on a pair -/

/-- A source that has not ended is waiting to be started, or running. -/
theorem waiting_or_running (hstate : state.outcome? = none) :
    state = .waiting ∨ state = .running := by
  cases state with
  | waiting => exact Or.inl rfl
  | running => exact Or.inr rfl
  | cancelled => cases hstate
  | withdrawn => cases hstate
  | finished r => cases r <;> cases hstate

/-- Two programs do the same on an open pair, and it stands somewhere afterwards;
    if the source runs on, the future was cancelled meanwhile. -/
def Shifts {α : Type} (a i levels : Nat) (state : SourceState) (h : List Event) (cancels : Prop)
    (p p' : Play α) : Prop :=
  ∀ y out y', Open a i levels state h y → Yields p y out y' → Yields p' y out y' ∧
    ((∃ state', state'.outcome? = none ∧ Open a i levels state' h y') ∨
      (∃ o, Bound a i o h y') ∨ (Late a i h y' ∧ cancels ∧ state = .running))

theorem shifts_quiet {α : Type} {cancels : Prop} {p : Play α} (hstate : state.outcome? = none)
    (hp : Quiet p) : Shifts a i levels state h cancels p p :=
  fun y out y' hy hrun => ⟨hrun, Or.inl ⟨state, hstate,
    hy.passes (hp y out y' hrun) fun _ _ => List.not_mem_nil⟩⟩

/-- What a step answers does not matter. -/
theorem Shifts.answering {α β : Type} {cancels : Prop} {p p' : Play α} {g : α → β}
    (hp : Shifts a i levels state h cancels p p') :
    Shifts a i levels state h cancels (do let r ← p; return g r) (do let r ← p'; return g r) := by
  intro y out y' hy hrun
  rcases yields_bind.mp hrun with ⟨r, m, hp₁, hpure⟩ | ⟨e, hp₁, rfl⟩
  · rcases yields_pure.mp hpure with ⟨rfl, rfl⟩
    rcases hp y _ _ hy hp₁ with ⟨hp', hy'⟩
    exact ⟨(yields_bind_ok hp').mpr hpure, hy'⟩
  · rcases hp y _ _ hy hp₁ with ⟨hp', hy'⟩
    exact ⟨(yields_bind_error hp').mpr ⟨rfl, rfl⟩, hy'⟩

/-- Building values and looking things up comes first. -/
theorem Shifts.after_quiet {α β : Type} {cancels : Prop} {q : Play α} {f f' : α → Play β}
    (hstate : state.outcome? = none) (hq : Quiet q)
    (hf : ∀ r, Shifts a i levels state h cancels (f r) (f' r)) :
    Shifts a i levels state h cancels (q >>= f) (q >>= f') := by
  intro y out y' hy hrun
  rcases yields_bind.mp hrun with ⟨r, m, hq₁, hf₁⟩ | ⟨e, hq₁, rfl⟩
  · have hm := hy.passes (hq y _ m hq₁) fun _ _ => List.not_mem_nil
    rcases hf r m out y' hm hf₁ with ⟨hf', hy'⟩
    exact ⟨(yields_bind_ok hq₁).mpr hf', hy'⟩
  · exact ⟨(yields_bind_error hq₁).mpr ⟨rfl, rfl⟩,
      Or.inl ⟨state, hstate, hy.passes (hq y _ y' hq₁) fun _ _ => List.not_mem_nil⟩⟩

/-- Steps are about the pair. -/
theorem Shifts.here {β : Type} {cancels : Prop} {f f' : Exchange → Play β}
    (hf : ∀ z, z.current = a → z.source = i → Shifts a i levels state h cancels (f z) (f' z)) :
    Shifts a i levels state h cancels (do f (← get)) (do f' (← get)) := by
  intro y out y' hy hrun
  rw [yields_bind_ok (yields_get.mpr ⟨rfl, rfl⟩)] at hrun ⊢
  exact hf y hy.current hy.source y out y' hy hrun

variable (hlevels : 0 < levels) (hstate : state.outcome? = none) (bottom bottom' : Tell)
include hlevels hstate

/-- A source that has not ended finishes, and its follower is decided by that. -/
theorem shifts_finishSource {cancels : Prop} (r : Except Failure Value) :
    Shifts a i levels state h cancels (finishSource (tellOver bottom levels) i r)
      (finishSource (tellOver bottom' levels) i r) := by
  intro y out y' hy hrun
  have hfinish : (Source.mk state (some a)).finish r = .ok ⟨.finished r, some a⟩ := by
    rw [Source.finish, SourceState.isDone, hstate]
    rfl
  -- Up to passing on nobody is told, so that the tellers make no difference.
  have hunfold : ∀ {tell out y'}, Yields (finishSource tell i r) y out y' ↔
      Yields (passOn tell ⟨.finished r, some a⟩)
        { y with sources := y.sources.modify i fun _ => ⟨.finished r, some a⟩ } out y' := by
    intro tell out y'
    unfold finishSource
    rw [yields_bind_ok (yields_source.mpr ⟨rfl, rfl⟩), hy.ended, Option.getD_some, hfinish,
      yields_bind_ok (yields_ofExcept.mpr ⟨rfl, rfl⟩),
      yields_bind_ok (yields_setSource.mpr ⟨rfl, rfl⟩)]
  have houtcome : ∃ o, (SourceState.finished r).outcome? = some o := by
    cases r <;> exact ⟨_, rfl⟩
  rcases houtcome with ⟨o, houtcome⟩
  rw [hunfold] at hrun ⊢
  rcases hy.write.passOn hlevels houtcome bottom' hrun with ⟨hrun', hy'⟩
  exact ⟨hrun', Or.inr (Or.inl ⟨o, hy'⟩)⟩

theorem shifts_cancelSource {cancels : Prop} :
    Shifts a i levels state h cancels (cancelSource (tellOver bottom levels) i)
      (cancelSource (tellOver bottom' levels) i) := by
  intro y out y' hy hrun
  unfold cancelSource at hrun ⊢
  rw [yields_bind_ok (yields_source.mpr ⟨rfl, rfl⟩), hy.ended, Option.getD_some] at hrun ⊢
  -- A source that waits ends by this; one that is running cannot be cancelled.
  rcases waiting_or_running hstate with rfl | rfl
  · have hcancel? : (Source.mk .waiting (some a)).cancel? = some ⟨.cancelled, some a⟩ := rfl
    rw [hcancel?] at hrun ⊢
    simp only [] at hrun ⊢
    rw [yields_bind_ok (yields_setSource.mpr ⟨rfl, rfl⟩)] at hrun ⊢
    have hpassOn : ∀ {out y'}, Yields (passOn (tellOver bottom levels) ⟨.cancelled, some a⟩)
        { y with sources := y.sources.modify i fun _ => ⟨.cancelled, some a⟩ } out y' → _ :=
      fun hrun => hy.write.passOn hlevels (o := .cancelled) rfl bottom' hrun
    rcases yields_bind.mp hrun with ⟨u, m, hrun₁, hpure⟩ | ⟨e, hrun₁, rfl⟩
    · rcases yields_pure.mp hpure with ⟨rfl, rfl⟩
      rcases hpassOn hrun₁ with ⟨hrun', hy'⟩
      exact ⟨(yields_bind_ok hrun').mpr hpure, Or.inr (Or.inl ⟨_, hy'⟩)⟩
    · rcases hpassOn hrun₁ with ⟨hrun', hy'⟩
      exact ⟨(yields_bind_error hrun').mpr ⟨rfl, rfl⟩, Or.inr (Or.inl ⟨_, hy'⟩)⟩
  · have hcancel? : (Source.mk .running (some a)).cancel? = none := rfl
    rw [hcancel?] at hrun ⊢
    exact ⟨hrun, Or.inl ⟨.running, rfl, (yields_pure.mp hrun).2 ▸ hy⟩⟩

omit hlevels bottom bottom' in
/-- A source that has not ended may be started once. -/
theorem shifts_start {cancels : Prop} {p : Play Reply} (hp : p = do
      let (wanted, s) ← MonadExcept.ofExcept (← Play.source i).start
      setSource i s
      return .bool wanted) : Shifts a i levels state h cancels p p := by
  subst hp
  intro y out y' hy hrun
  refine ⟨hrun, ?_⟩
  rw [yields_bind_ok (yields_source.mpr ⟨rfl, rfl⟩), hy.ended, Option.getD_some] at hrun
  rcases waiting_or_running hstate with rfl | rfl
  · have hstart : (Source.mk .waiting (some a)).start = .ok (true, ⟨.running, some a⟩) := rfl
    rw [hstart, yields_bind_ok (yields_ofExcept.mpr ⟨rfl, rfl⟩),
      yields_bind_ok (yields_setSource.mpr ⟨rfl, rfl⟩), yields_pure] at hrun
    exact Or.inl ⟨.running, rfl, hrun.2 ▸ hy.write⟩
  -- It has been started already, so this fails and changes nothing.
  · rcases yields_bind.mp hrun with ⟨started, m, hstarted, -⟩ | ⟨e, hstarted, -⟩
    · cases (yields_ofExcept.mp hstarted).1
    · exact Or.inl ⟨.running, rfl, (yields_ofExcept.mp hstarted).2 ▸ hy⟩

theorem shifts_sourceStep {cancels : Prop} (s : SourceStep) :
    Shifts a i levels state h cancels (s.perform (tellOver bottom levels))
      (s.perform (tellOver bottom' levels)) := by
  cases s with
  | start =>
      refine Shifts.here fun z _ hz => ?_
      simp only [hz]
      exact shifts_start hstate rfl
  | finish v =>
      refine Shifts.after_quiet hstate (quiet_build v) fun w => Shifts.here fun z _ hz => ?_
      simp only [hz]
      exact (shifts_finishSource hlevels hstate bottom bottom' _).answering
  | fail e =>
      refine Shifts.here fun z _ hz => ?_
      simp only [hz]
      exact (shifts_finishSource hlevels hstate bottom bottom' _).answering
  | cancel =>
      refine Shifts.here fun z _ hz => ?_
      simp only [hz]
      exact (shifts_cancelSource hlevels hstate bottom bottom').answering
  | state => exact shifts_quiet hstate (quiet_sourceState _)

omit hlevels in
/-- A listener that is registered before the decision waits behind the canceller. -/
theorem shifts_register {cancels : Prop} {kind : ListenerKind} {l : Listener}
    (hl : l.Fits i levels) :
    Shifts a i levels state h cancels (register (tellOver bottom levels) a kind l)
      (register (tellOver bottom' levels) a kind l) := by
  intro y out y' hy hrun
  rcases hy.action with ⟨r, rest, haction, hkind, hcanceller, hrest⟩
  unfold register at hrun ⊢
  rw [yields_bind_ok (yields_ticket.mpr ⟨rfl, rfl⟩), yields_bind_ok (yields_future.mpr ⟨rfl, rfl⟩),
    haction, Option.getD_some] at hrun ⊢
  refine ⟨hrun, Or.inl ⟨state, hstate, ?_⟩⟩
  simp only [] at hrun
  rw [yields_bind_ok (yields_setFuture.mpr ⟨rfl, rfl⟩),
    yields_bind_ok (yields_note.mpr ⟨rfl, rfl⟩), yields_pure] at hrun
  rw [hrun.2]
  -- The canceller stays in the first place, since the new listener goes to the end.
  refine ⟨hy.current, hy.source, ⟨r, rest ++ [⟨y.tickets, kind, l⟩], ?_, hkind, hcanceller, ?_⟩,
    hy.ended, ?_⟩
  · rw [Array.getElem?_modify, if_pos rfl, haction]
    rfl
  · intro r' hr'
    rcases List.mem_append.mp hr' with hr' | hr'
    · exact hrest r' hr'
    · rw [List.mem_singleton.mp hr']
      exact hl
  · have hhistory : ((y.history.push (.registered a ⟨y.tickets, kind, l⟩)).push
        (.returned y.tickets)).toList = y.history.toList ++
          [.registered a ⟨y.tickets, kind, l⟩, .returned y.tickets] := by
      simp only [Array.toList_push, List.append_assoc, List.singleton_append]
    refine hy.smooth.add hhistory fun f state hmem => ?_
    simp only [List.mem_cons, reduceCtorEq, List.not_mem_nil, or_self] at hmem

/-- A paired step on an open pair. -/
theorem shifts_perform (s : Step) (hs : s.isPaired = true) (hweight : s.weight ≤ levels) :
    Shifts a i levels state h (s = .cancel) (s.perform (tellOver bottom levels))
      (s.perform (tellOver bottom' levels)) := by
  have hcurrent : ∀ {β : Type} {f f' : Nat → Play β},
      Shifts a i levels state h (s = .cancel) (f a) (f' a) →
        Shifts a i levels state h (s = .cancel) (current >>= f) (current >>= f') := by
    intro β f f' hf y out y' hy hrun
    rw [yields_bind_ok (yields_current.mpr ⟨rfl, rfl⟩), hy.current] at hrun ⊢
    exact hf y out y' hy hrun
  by_cases hlooks : s.looks = true
  · rw [perform_looks (tellOver bottom' levels) (tellOver bottom levels) s hlooks]
    exact shifts_quiet hstate (quiet_perform _ s hlooks)
  · cases s with
    | cancel =>
        rw [Step.perform, Step.perform]
        refine hcurrent (Shifts.answering fun y out y' hy hrun => ?_)
        -- A source that waits is cancelled along with the future; one that is running runs on.
        rcases waiting_or_running hstate with rfl | rfl
        · rcases hy.cancel hlevels bottom' hrun with ⟨hrun', hy'⟩
          exact ⟨hrun', Or.inr (Or.inl ⟨_, hy'⟩)⟩
        · rcases hy.decide hlevels fate_late (Or.inl rfl) bottom' hrun with ⟨hrun', hy', -⟩
          exact ⟨hrun', Or.inr (Or.inr ⟨hy', rfl, rfl⟩)⟩
    | listen kind name actions =>
        rw [Step.isPaired] at hs
        rw [Step.weight] at hweight
        rw [Step.perform, Step.perform]
        have hl : (Listener.scripted name actions).Fits i levels := ⟨hs, hweight⟩
        exact hcurrent (shifts_register hstate bottom bottom' hl).answering
    | source s =>
        rw [Step.perform, Step.perform]
        exact shifts_sourceStep hlevels hstate bottom bottom' s
    | _ => exact absurd hs hlooks

end

/-! ## Courses of steps -/

/-- Where a pair stands after some steps: it is open, or at rest; and if the source
    runs on, one of the steps cancelled the future while the source was running. -/
def PairStands (a i levels : Nat) (h : List Event) (x : Exchange) (taken : List Step) : Prop :=
  (∃ state, state.outcome? = none ∧ Open a i levels state h (x.after levels taken)) ∨
    (∃ o, Bound a i o h (x.after levels taken)) ∨
      (Late a i h (x.after levels taken) ∧ ∃ earlier later, taken = earlier ++ .cancel :: later ∧
        Open a i levels .running h (x.after levels earlier))

section

variable {a i levels : Nat} {h : List Event} {x : Exchange} {taken : List Step}

theorem after_step (s : Step) {out : Except Failure Reply} {y' : Exchange}
    (hrun : Yields (s.perform (tellAt levels)) (x.after levels taken) out y') :
    x.after levels (taken ++ [s]) = y' := by
  rw [Exchange.after_append_singleton]
  exact congrArg Prod.snd hrun

/-- One step more, and the same is done however listeners below the last level would be
    told. -/
theorem PairStands.step (hlevels : 0 < levels) (hx : PairStands a i levels h x taken) (s : Step)
    (hs : s.isPaired = true) (hweight : s.weight ≤ levels) :
    PairStands a i levels h x (taken ++ [s]) ∧ ∀ bottom out y',
      Yields (s.perform (tellAt levels)) (x.after levels taken) out y' →
        Yields (s.perform (tellOver bottom levels)) (x.after levels taken) out y' := by
  have hrun := yields_run (s.perform (tellAt levels)) (x.after levels taken)
  unfold PairStands
  rw [after_step s hrun]
  rw [← tellOver_idle] at hrun ⊢
  -- A pair at rest is left at rest, whoever would be told below the last level.
  have hparallel : ∀ {o P}, Fate o P → ∀ bottom, Parallel (AtRest a i o P h)
      (s.perform (tellOver idle levels)) (s.perform (tellOver bottom levels)) :=
    fun hfate bottom =>
      parallel_perform hfate (parallel_tellOver hfate idle bottom levels) s hs hweight
  rcases hx with ⟨state, hstate, hy⟩ | ⟨o, hy⟩ | ⟨hy, earlier, later, hcut, hopen⟩
  · have hshifts : ∀ bottom, Shifts a i levels state h (s = .cancel)
        (s.perform (tellOver idle levels)) (s.perform (tellOver bottom levels)) :=
      fun bottom => shifts_perform hlevels hstate idle bottom s hs hweight
    refine ⟨?_, fun bottom out y' hrun => (hshifts bottom _ out y' hy hrun).1⟩
    rcases (hshifts idle _ _ _ hy hrun).2 with hopen | hbound | ⟨hlate, rfl, rfl⟩
    · exact Or.inl hopen
    · exact Or.inr (Or.inl hbound)
    · exact Or.inr (Or.inr ⟨hlate, taken, [], rfl, hy⟩)
  · have hrests := hparallel (fate_bound o)
    exact ⟨Or.inr (Or.inl ⟨o, (hrests idle _ _ _ hy hrun).2⟩),
      fun bottom out y' hrun => (hrests bottom _ out y' hy hrun).1⟩
  · have hrests := hparallel fate_late
    refine ⟨Or.inr (Or.inr ⟨(hrests idle _ _ _ hy hrun).2, earlier, later ++ [s], ?_, hopen⟩),
      fun bottom out y' hrun => (hrests bottom _ out y' hy hrun).1⟩
    -- The step that cancelled the future is still among those taken.
    rw [hcut, List.append_assoc, List.cons_append]

/-- A pair stands somewhere after any number of steps. -/
theorem PairStands.steps (hlevels : 0 < levels) (hx : PairStands a i levels h x [])
    (hsteps : ∀ s ∈ taken, s.isPaired = true ∧ s.weight ≤ levels) :
    PairStands a i levels h x taken := by
  induction taken using List.reverseRecOn with
  | nil => exact hx
  | append_singleton taken s ih =>
      rw [List.forall_mem_append] at hsteps
      rcases hsteps.2 s List.mem_cons_self with ⟨hs, hweight⟩
      exact ((ih hsteps.1).step hlevels s hs hweight).1

/-! ## Following a source -/

/-- The canceller finds nothing to do where the source has been started or is over. -/
theorem canceller_rests {o : Outcome} {r : Registration Listener} {y : Exchange} {s : Source}
    (hlistener : r.listener = .canceller i) (hsource : y.sources[i]? = some s)
    (hcancel : s.cancel? = none) (tell : Tell) : Yields (tellWith tell a o r) y (.ok ()) y := by
  have hcancels : Yields (cancelSource tell i) y (.ok s.state.isCancelled) y := by
    unfold cancelSource
    rw [yields_bind_ok (yields_source.mpr ⟨rfl, rfl⟩), hsource, Option.getD_some, hcancel]
    exact yields_pure.mpr ⟨rfl, rfl⟩
  unfold tellWith
  cases o.told r.kind with
  | none => exact yields_pure.mpr ⟨rfl, rfl⟩
  | some args =>
      rw [hlistener]
      refine yields_handling.mpr (Or.inl ⟨?_, rfl⟩)
      -- It asks the source to be cancelled, or it does nothing at all.
      cases hsays : o.saysCancelled with
      | true =>
          simp only [Listener.call, hsays, if_true]
          exact (yields_bind_ok hcancels).mpr (yields_pure.mpr ⟨rfl, rfl⟩)
      | false =>
          simp only [Listener.call, hsays, if_false, Bool.false_eq_true]
          exact yields_pure.mpr ⟨rfl, rfl⟩

/-- An exchange in which a new future waits for a source, before it has been told
    anything. -/
def Exchange.following (x : Exchange) (state : SourceState) : Exchange :=
  { x with
    futures := (x.futures.push .fresh).modify x.futures.size fun _ =>
      .pending [⟨x.tickets, .failure, .canceller x.source⟩]
    sources := x.sources.modify x.source fun _ => ⟨state, some x.futures.size⟩
    tickets := x.tickets + 1
    history := (x.history.push (.registered x.futures.size
      ⟨x.tickets, .failure, .canceller x.source⟩)).push (.returned x.tickets) }

theorem yields_followSource {state : SourceState} {tell : Tell}
    (hsource : x.sources[x.source]? = some ⟨state, none⟩) {out : Except Failure Unit}
    {x' : Exchange} : Yields (followSource tell x.source) x out x' ↔
      Yields (do
        passOn tell ⟨state, some x.futures.size⟩
        modify fun x' => { x' with current := x.futures.size }) (x.following state) out x' := by
  have hnew : Yields newFuture x (.ok x.futures.size)
      { x with futures := x.futures.push .fresh } := by
    unfold newFuture
    rw [yields_bind_ok (yields_get.mpr ⟨rfl, rfl⟩), yields_bind_ok (yields_set.mpr ⟨rfl, rfl⟩)]
    exact yields_pure.mpr ⟨rfl, rfl⟩
  -- The new future is pending, so that its listener waits.
  have hregister : Yields (register tell x.futures.size .failure (.canceller x.source))
      { x with futures := x.futures.push .fresh } (.ok x.tickets)
      { x.following state with sources := x.sources } := by
    unfold register
    rw [yields_bind_ok (yields_ticket.mpr ⟨rfl, rfl⟩),
      yields_bind_ok (yields_future.mpr ⟨rfl, rfl⟩), Array.getElem?_push_size, Option.getD_some]
    simp only [Future.fresh]
    rw [yields_bind_ok (yields_setFuture.mpr ⟨rfl, rfl⟩),
      yields_bind_ok (yields_note.mpr ⟨rfl, rfl⟩)]
    exact yields_pure.mpr ⟨rfl, rfl⟩
  unfold followSource
  rw [yields_bind_ok hnew, yields_bind_ok hregister,
    yields_bind_ok (yields_source.mpr ⟨rfl, rfl⟩), hsource, Option.getD_some,
    yields_bind_ok (yields_setSource.mpr ⟨rfl, rfl⟩)]
  rfl

theorem following_action (x : Exchange) (state : SourceState) :
    (x.following state).futures[x.futures.size]? =
      some (.pending [⟨x.tickets, .failure, .canceller x.source⟩]) := by
  rw [Exchange.following, Array.getElem?_modify, if_pos rfl, Array.getElem?_push_size]
  rfl

theorem following_source {state : SourceState}
    (hsource : x.sources[x.source]? = some ⟨state, none⟩) :
    (x.following state).sources[x.source]? = some ⟨state, some x.futures.size⟩ := by
  rw [Exchange.following, Array.getElem?_modify, if_pos rfl, hsource]
  rfl

theorem following_smooth (x : Exchange) (state : SourceState) :
    Smooth x.history.toList (x.following state) := by
  refine ⟨[.registered x.futures.size ⟨x.tickets, .failure, .canceller x.source⟩,
    .returned x.tickets], ?_, fun f state hmem => ?_⟩
  · simp only [Exchange.following, Array.toList_push, List.append_assoc, List.singleton_append]
  · simp only [List.mem_cons, reduceCtorEq, List.not_mem_nil, or_self] at hmem

/-- A source that has ended already decides the future that is to follow it. -/
theorem passOn_following {state : SourceState} {o : Outcome}
    (hsource : x.sources[x.source]? = some ⟨state, none⟩) (hstate : state.outcome? = some o) :
    ∃ m, (∀ tell, Yields (passOn (tellWith tell) ⟨state, some x.futures.size⟩)
        (x.following state) (.ok ()) m) ∧
      Passes { x.following state with
        futures := (x.following state).futures.modify x.futures.size fun _ => .decided o } m 0
        [.decided x.futures.size o, .passedOn x.futures.size (.ok true)] := by
  rcases decideFuture_tells (o := o) (following_action x state) with ⟨m, hpass, hdecide⟩
  -- The canceller is the only one who waits, and it finds nothing left to cancel.
  have hcancel : (Source.mk state (some x.futures.size)).cancel? = none := by
    cases state with
    | waiting => cases hstate
    | _ => rfl
  have htells : ∀ tell, Yields (decideFuture (tellWith tell) x.futures.size o)
      (x.following state) (.ok true) m := by
    intro tell
    have hrests := canceller_rests (o := o) (a := x.futures.size)
      (r := ⟨x.tickets, .failure, .canceller x.source⟩) rfl
      (by rw [hpass.sources]; exact following_source hsource) hcancel tell
    rw [hdecide, notify, notify, bind_assoc, yields_bind_ok hrests]
    exact yields_pure.mpr ⟨rfl, rfl⟩
  refine ⟨_, fun tell => ?_, hpass.trans (Passes.note m (.passedOn x.futures.size (.ok true)))⟩
  unfold passOn
  simp only [hstate]
  refine yields_handling.mpr (Or.inl ⟨?_, rfl⟩)
  rw [yields_bind_ok (yields_attempt.mpr ⟨_, htells tell, rfl⟩),
    yields_bind_ok (yields_note.mpr ⟨rfl, rfl⟩)]
  exact (yields_bind_ok (yields_ofExcept.mpr ⟨rfl, rfl⟩)).mpr (yields_pure.mpr ⟨rfl, rfl⟩)

/-- A future that is made to follow a source makes a pair with it, whatever the source
    has come to so far. -/
theorem followSource_pairs {state : SourceState} (levels : Nat)
    (hsource : x.sources[x.source]? = some ⟨state, none⟩) :
    ∃ x₀, (∀ tell, Yields (followSource (tellWith tell) x.source) x (.ok ()) x₀) ∧
      PairStands x.futures.size x.source levels x.history.toList x₀ [] := by
  cases hstate : state.outcome? with
  -- A source that is not over has nothing to pass on yet.
  | none =>
      refine ⟨{ x.following state with current := x.futures.size }, fun tell => ?_, Or.inl
        ⟨state, hstate, rfl, rfl, ⟨_, [], following_action x state, rfl, rfl, nofun⟩,
          following_source hsource, following_smooth x state⟩⟩
      rw [yields_followSource hsource]
      unfold passOn
      simp only [hstate]
      exact (yields_bind_ok (yields_pure.mpr ⟨rfl, rfl⟩)).mpr (yields_modify.mpr ⟨rfl, rfl⟩)
  | some o =>
      rcases passOn_following hsource hstate with ⟨m, hpassOn, hpass⟩
      refine ⟨{ m with current := x.futures.size }, fun tell => ?_, Or.inr (Or.inl
        ⟨o, rfl, hpass.source, ?_, ⟨state, ?_, hstate⟩, ?_⟩)⟩
      · rw [yields_followSource hsource, yields_bind_ok (hpassOn tell)]
        exact yields_modify.mpr ⟨rfl, rfl⟩
      · refine (congrArg (·[x.futures.size]?) hpass.futures).trans ?_
        rw [Array.getElem?_modify, if_pos rfl, following_action]
        rfl
      · exact (congrArg (·[x.source]?) hpass.sources).trans (following_source hsource)
      · refine (following_smooth x state).add hpass.history fun f state' hmem => ?_
        simp only [List.mem_cons, reduceCtorEq, List.not_mem_nil, or_false,
          Event.passedOn.injEq, and_false] at hmem

/-! ## The coupling -/

/-- What couples a source with the future that was made to follow it in `x`, after some
    steps on the pair that began in `x₀`: the state of the source, and the future. -/
structure Coupled (levels : Nat) (x x₀ : Exchange) (taken : List Step) (state : SourceState)
    (f : Future Listener) : Prop where
  source : (x₀.after levels taken).sources[x.source]? = some ⟨state, some x.futures.size⟩
  future : (x₀.after levels taken).futures[x.futures.size]? = some f
  /-- if the source has finished or is cancelled, the future is decided -/
  ended : state.isDone = true → f.isDone = true
  /-- a value or a failure of the future is what the source finished with -/
  value : ∀ v, f = .decided (.value v) → state = .finished (.ok v)
  failure : ∀ e, f = .decided (.failure e) → state = .finished (.error e)
  /-- if the future is cancelled, the source is cancelled, or it was running when the
      future was cancelled -/
  cancelled : f = .decided .cancelled → state.isCancelled = true ∨
    ∃ earlier later ws, taken = earlier ++ .cancel :: later ∧
      (x₀.after levels earlier).sources[x.source]? = some ⟨.running, some x.futures.size⟩ ∧
      (x₀.after levels earlier).futures[x.futures.size]? = some (.pending ws)
  /-- what a source comes to when its future has been cancelled is dropped -/
  dropped : f = .decided .cancelled → state = .running → ∀ r, ∃ z,
    (∀ tell, Yields (finishSource tell x.source r) (x₀.after levels taken) (.ok ()) z) ∧
      z.sources[x.source]? = some ⟨.finished r, some x.futures.size⟩ ∧
      z.futures = (x₀.after levels taken).futures
  /-- a decided future stays as it is -/
  lasting : ∀ o more, f = .decided o →
    ((x₀.after levels taken).after levels more).futures[x.futures.size]? = some f
  /-- nothing has been passed on to a future that was decided otherwise -/
  smooth : Smooth x.history.toList (x₀.after levels taken)

section

variable {x₀ : Exchange} {state : SourceState}

theorem lasting_after {f : Future Listener}
    (hf : (x₀.after levels taken).futures[a]? = some f) (o : Outcome) (more : List Step)
    (ho : f = .decided o) : ((x₀.after levels taken).after levels more).futures[a]? = some f := by
  subst ho
  exact Exchange.lasts_playFrom levels more _ _ o hf

theorem Open.coupled (hy : Open x.futures.size x.source levels state x.history.toList
    (x₀.after levels taken)) (hstate : state.outcome? = none) :
    ∃ f, Coupled levels x x₀ taken state f := by
  rcases hy.action with ⟨r, rest, haction, -⟩
  refine ⟨_, hy.ended, haction, fun hdone => ?_, nofun, nofun, nofun, nofun, nofun, hy.smooth⟩
  rw [SourceState.isDone, hstate] at hdone
  cases hdone

theorem Bound.coupled {o : Outcome} (hy : Bound x.futures.size x.source o x.history.toList
    (x₀.after levels taken)) : ∃ state f, Coupled levels x x₀ taken state f := by
  rcases hy.ended with ⟨state, hsource, hstate⟩
  -- The outcome of the future is that of the source, which tells the state of the source.
  refine ⟨state, _, hsource, hy.action, fun _ => rfl, ?_, ?_, ?_, ?_, lasting_after hy.action,
    hy.smooth⟩
  case refine_1 =>
    rintro v hv
    cases hv
    rcases state with _ | _ | _ | _ | _ | _ <;> cases hstate
    rfl
  case refine_2 =>
    rintro e he
    cases he
    rcases state with _ | _ | _ | _ | _ | _ <;> cases hstate
    rfl
  case refine_3 =>
    intro ho
    cases ho
    rcases state with _ | _ | _ | _ | _ | _ <;> cases hstate
    · exact Or.inl rfl
    · exact Or.inl rfl
  case refine_4 =>
    rintro - rfl
    cases hstate

theorem Late.coupled (hy : Late x.futures.size x.source x.history.toList (x₀.after levels taken))
    {earlier later : List Step} (hcut : taken = earlier ++ .cancel :: later)
    (hopen : Open x.futures.size x.source levels .running x.history.toList
      (x₀.after levels earlier)) : ∃ state f, Coupled levels x x₀ taken state f := by
  rcases hy.ended with ⟨state, hsource, -⟩
  rcases hopen.action with ⟨r, rest, haction, -⟩
  refine ⟨state, _, hsource, hy.action, fun _ => rfl, nofun, nofun,
    fun _ => Or.inr ⟨earlier, later, _, hcut, hopen.ended, haction⟩, ?_, lasting_after hy.action,
    hy.smooth⟩
  rintro - rfl r
  rcases finishSource_late (r := r) hy.action hsource with ⟨z, hfinish, hpass⟩
  refine ⟨z, hfinish, ?_, hpass.futures⟩
  rw [hpass.sources, Array.getElem?_modify, if_pos rfl, hsource]
  rfl

end

/-- A future that is made to follow a source stays coupled with it, whatever is done to
    the two: starting, finishing and cancelling on either side, in any order, also
    by listeners. Every callback comes to an end: the listeners inside listeners
    are as many levels deep as the steps are, so it does not matter how any below
    would be told. -/
theorem followSource_coupled (levels : Nat) (steps : List Step) (x : Exchange)
    (state : SourceState) (hsource : x.sources[x.source]? = some ⟨state, none⟩)
    (hsteps : arePaired steps = true) (hlevels : weights steps < levels) :
    ∃ x₀, (∀ tell, Yields (followSource (tellWith tell) x.source) x (.ok ()) x₀) ∧
      (∀ taken rest, steps = taken ++ rest → ∃ state f, Coupled levels x x₀ taken state f) ∧
      ∀ taken s rest, steps = taken ++ s :: rest → ∀ bottom out y,
        Yields (s.perform (tellAt levels)) (x₀.after levels taken) out y →
          Yields (s.perform (tellOver bottom levels)) (x₀.after levels taken) out y := by
  rcases followSource_pairs levels hsource with ⟨x₀, hfollow, hpair⟩
  have hpositive : 0 < levels := Nat.lt_of_le_of_lt (Nat.zero_le _) hlevels
  have hpaired : ∀ s ∈ steps, s.isPaired = true ∧ s.weight ≤ levels := by
    intro s hs
    have hweight := weight_le_of_mem s hs
    exact ⟨isPaired_of_mem hsteps s hs, by omega⟩
  -- After each part of the steps the pair stands somewhere, and so it is coupled.
  refine ⟨x₀, hfollow, fun taken rest hcut => ?_, fun taken s rest hcut => ?_⟩
  · have htaken : PairStands x.futures.size x.source levels x.history.toList x₀ taken :=
      hpair.steps hpositive fun s hs => hpaired s (hcut ▸ List.mem_append_left _ hs)
    rcases htaken with ⟨state, hstate, hy⟩ | ⟨o, hy⟩ | ⟨hy, earlier, later, hlate, hopen⟩
    · exact ⟨state, hy.coupled hstate⟩
    · exact hy.coupled
    · exact hy.coupled hlate hopen
  · have htaken : PairStands x.futures.size x.source levels x.history.toList x₀ taken :=
      hpair.steps hpositive fun s hs => hpaired s (hcut ▸ List.mem_append_left _ hs)
    rcases hpaired s (hcut ▸ List.mem_append_right _ List.mem_cons_self) with ⟨hs, hweight⟩
    exact (htaken.step hpositive s hs hweight).2

/-- A source that is running. -/
def runningExchange : Exchange := { Exchange.initial with sources := #[⟨.running, none⟩] }

/-- The future is cancelled, which a listener tries again, and then the source, which
    was running, finishes. -/
def lateScript : List Step :=
  [.listen .failure "again" [.cancel, .source .cancel, .listen .complete "inner" [.get none]],
    .query .done, .cancel, .source .cancel, .source (.finish (.scalar (.int 1 .plain))), .get none,
    .source (.fail (.mk "ValueError" none none))]

theorem lateScript_coupled :
    runningExchange.sources[runningExchange.source]? = some ⟨.running, none⟩ ∧
    arePaired lateScript = true ∧ weights lateScript < 12 ∧
      ∃ x₀, (∀ tell, Yields (followSource (tellWith tell) runningExchange.source) runningExchange
          (.ok ()) x₀) ∧
        (∀ taken rest, lateScript = taken ++ rest →
          ∃ state f, Coupled 12 runningExchange x₀ taken state f) ∧
        ∀ taken s rest, lateScript = taken ++ s :: rest → ∀ bottom out y,
          Yields (s.perform (tellAt 12)) (x₀.after 12 taken) out y →
            Yields (s.perform (tellOver bottom 12)) (x₀.after 12 taken) out y :=
  ⟨rfl, by decide, by decide,
    followSource_coupled 12 lateScript runningExchange .running rfl (by decide) (by decide)⟩

/-- The result of the source comes too late, and the future stays cancelled. -/
example : (Exchange.play [.follow [.start], .cancel, .source (.finish (.scalar (.int 1 .plain)))]
    ).2.currentFuture.outcome? = some .cancelled := by rfl

end

end Docket
