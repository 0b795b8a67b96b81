import Docket.Proofs.Future.Passage

/-!
# Replies

What every step on a future is answered, given nothing but the outcome that the
future has been decided with so far, if it has. This is the table that the
decision of a future is judged by: whoever offers an outcome first is told that
it was taken, whoever offers one later is told that it was not, or that nobody
should have offered another one, and whoever asks or waits is told what was
offered first.

The arguments of a step are built before the step is taken, and building them
depends on the session and may fail, so a reply is one in a session.

## Main definitions

* `Step.offer?`: The outcome that a step offers.
* `offerReply`, `waitReply`, `rootReply`, `queryReply`: The table.
* `Step.reply?`: What a step is answered.
* `Step.looks`: A step that only looks at a future.

## Theorems

* `yields_build`, `yields_limit`: Arguments are built in the session.
* `waitFor_reply`: Waiting is answered by the table, and what is raised is new.
* `looking_reply`: So is every step that only looks at a future.
-/

namespace Docket

open Play

/-- What an expression comes to in a session. -/
def Expr.valueIn (e : Expr) (t : Session) : Except Failure Value := ((e.build []).run.run t).1

/-- The time limit of a step that waits. -/
def limitIn (timeout : Option Expr) (t : Session) : Except Failure (Option Binary64) :=
  match timeout with
  | none => Timeout.ofValue .null
  | some e => match e.valueIn t with
    | .error f => .error f
    | .ok v => Timeout.ofValue v

/-- The outcome that a step offers, if there is one in what it is given. -/
def Step.offer? (t : Session) : Step → Option Outcome
  | .resolve v => match v.valueIn t with
    | .ok w => some (.value w)
    | .error _ => none
  | .reject v => match v.valueIn t with
    | .ok (.failure e) => some (.failure e)
    | _ => none
  | .cancel => some .cancelled
  | _ => none

/-- Whoever offers an outcome first succeeds. Later it is too late to cancel, and
    once cancelled it is too late for anything; any other second outcome is an
    error. -/
def offerReply (offered : Outcome) : Option Outcome → Reply
  | none => .bool true
  | some earlier => match offered, earlier with
    | .cancelled, _ => .bool false
    | _, .cancelled => .bool false
    | _, .value _ => .failed (.alreadyResolved .completed)
    | _, .failure _ => .failed (.alreadyResolved .failed)

/-- Whoever waits gets the value, or a failure around the one that the action
    ended with. -/
def waitReply (limit : Option Binary64) : Option Outcome → Reply
  | none => .failed (.timedOut ((limit.map Timeout.milliseconds).getD (Timeout.longest * 1000)))
  | some (.value v) => .value v
  | some (.failure e) => .failed (.actionFailed e)
  | some .cancelled => .failed (.actionFailed .cancelled)

/-- Whoever asks for the root of the failure gets it if there is a failure. -/
def rootReply : Option Outcome → Reply
  | some (.failure e) => .value (.failure e.root)
  | some .cancelled => .value (.failure .cancelled)
  | _ => .null

/-- What is said about the future itself. -/
def queryReply : Query → Option Outcome → Reply
  | .state, none => .value (.text FutureState.pending.name)
  | .state, some (.value _) => .value (.text FutureState.completed.name)
  | .state, some _ => .value (.text FutureState.failed.name)
  | .done, o => .bool o.isSome
  | .cancelled, some .cancelled => .bool true
  | .cancelled, _ => .bool false

/-- What a step is answered, given the outcome so far. Steps that concern more
    than one future are not answered by an outcome alone. -/
def Step.reply? (o : Option Outcome) (t : Session) : Step → Option Reply
  | .resolve v => match v.valueIn t with
    | .ok w => some (offerReply (.value w) o)
    | .error e => some (.failed e)
  | .reject v => match v.valueIn t with
    | .ok (.failure e) => some (offerReply (.failure e) o)
    | .ok w => some (.failed (.typeError ("error must be an exception, got " ++ w.typeName)))
    | .error e => some (.failed e)
  | .cancel => some (offerReply .cancelled o)
  | .get timeout => match limitIn timeout t with
    | .ok limit => some (waitReply limit o)
    | .error e => some (.failed e)
  | .listen .. => some (.bool true)
  | .listenValue _ v => match v.valueIn t with
    | .ok _ => some (.failed (.typeError "listener must be callable"))
    | .error e => some (.failed e)
  | .rootFailure => some (rootReply o)
  | .query q => some (queryReply q o)
  | .sameFailure => match o.bind Outcome.failure? with
    | some _ => some (.value (.list [.bool true, .bool true, .bool true]))
    | none => some (waitReply (some .zero) o)
  | .await => some (waitReply none o)
  | .awaitBriefly => if o.isSome then some (waitReply none o) else some .timedOut
  | .raise e => some (.failed e.build)
  | _ => none

/-- Whether a step only looks at a future, or fails by itself. -/
def Step.looks : Step → Bool
  | .get _ => true
  | .listenValue .. => true
  | .rootFailure => true
  | .query _ => true
  | .sameFailure => true
  | .await => true
  | .awaitBriefly => true
  | .raise _ => true
  | _ => false

section

variable {x x' : Exchange}

/-- What is no failure cannot be what an action ends with. -/
theorem reply_reject_other {o : Option Outcome} {t : Session} {v : Expr} {w : Value}
    (hv : v.valueIn t = .ok w) (hw : ∀ e, w ≠ .failure e) : (Step.reject v).reply? o t =
      some (.failed (.typeError ("error must be an exception, got " ++ w.typeName))) := by
  rw [Step.reply?, hv]
  split
  next e heq => exact absurd (Except.ok.inj heq) (hw e)
  next w' _ heq => rw [Except.ok.inj heq]
  next e heq => exact absurd heq.symm nofun

theorem yields_build {e : Expr} {r : Except Failure Value} (h : Yields (build e) x r x') :
    r = e.valueIn x.session ∧ ∃ s, x' = { x with session := s } := by
  rcases yields_onSession.mp h with ⟨s, hs, rfl⟩
  exact ⟨(congrArg Prod.fst hs).symm, s, rfl⟩

/-- The time limit of a step is built and then read. -/
theorem yields_limit {timeout : Option Expr} {r : Except Failure Reply}
    (h : Yields (do
      let timeout ← timeout.mapM build
      waitFor (← current) (← readLimit timeout) : Play Reply) x r x') :
    (∃ e, limitIn timeout x.session = .error e ∧ r = .error e ∧ ∃ s, x' = { x with session := s }) ∨
      ∃ limit s, limitIn timeout x.session = .ok limit ∧
        Yields (waitFor x.current limit) { x with session := s } r x' := by
  -- Reading the limit of a value that has been built.
  have hread : ∀ {s : Session} {v : Option Value},
      Yields (do waitFor (← current) (← readLimit v) : Play Reply) { x with session := s } r x' →
        (∃ e, Timeout.ofValue (v.getD .null) = .error e ∧ r = .error e ∧
          x' = { x with session := s }) ∨
        ∃ limit, Timeout.ofValue (v.getD .null) = .ok limit ∧
          Yields (waitFor x.current limit) { x with session := s } r x' := by
    intro s v hv
    rw [yields_bind_ok (yields_current.mpr ⟨rfl, rfl⟩)] at hv
    rcases yields_bind.mp hv with ⟨limit, m, h₁, h₂⟩ | ⟨e, h₁, rfl⟩
    · rcases yields_ofExcept.mp h₁ with ⟨hlimit, rfl⟩
      exact Or.inr ⟨limit, hlimit.symm, h₂⟩
    · rcases yields_ofExcept.mp h₁ with ⟨hlimit, rfl⟩
      exact Or.inl ⟨e, hlimit.symm, rfl, rfl⟩
  cases timeout with
  | none =>
      rcases hread (s := x.session) (v := none) h with ⟨e, he, rfl, rfl⟩ | ⟨limit, hlimit, hwait⟩
      · exact Or.inl ⟨e, he, rfl, x.session, rfl⟩
      · exact Or.inr ⟨limit, x.session, hlimit, hwait⟩
  | some e =>
      rcases yields_bind.mp h with ⟨v, m, h₁, h₂⟩ | ⟨f, h₁, rfl⟩
      · rcases yields_bind.mp h₁ with ⟨w, m', h₃, h₄⟩ | ⟨f, h₃, hf⟩
        · rcases yields_pure.mp h₄ with ⟨hv, rfl⟩
          rw [Except.ok.inj hv] at h₂
          rcases yields_build h₃ with ⟨hw, s, rfl⟩
          unfold limitIn
          simp only [← hw]
          rcases hread h₂ with ⟨f, hf, rfl, rfl⟩ | ⟨limit, hlimit, hwait⟩
          · exact Or.inl ⟨f, hf, rfl, s, rfl⟩
          · exact Or.inr ⟨limit, s, hlimit, hwait⟩
        · exact absurd hf ok_ne_error
      · rcases yields_bind.mp h₁ with ⟨w, m', h₃, h₄⟩ | ⟨g, h₃, hg⟩
        · exact absurd (yields_pure.mp h₄).1 error_ne_ok
        · rcases yields_build h₃ with ⟨hw, s, rfl⟩
          rw [Except.error.inj hg]
          refine Or.inl ⟨g, ?_, rfl, s, rfl⟩
          unfold limitIn
          simp only [← hw]

/-- Waiting for a future that is not decided takes too long. -/
theorem yields_waitFor_pending {id : Nat} {limit : Option Binary64}
    {waiting : List (Registration Listener)} {out : Except Failure Reply}
    (hf : x.futures[id]? = some (.pending waiting)) :
    Yields (waitFor id limit) x out x' ↔ out = .error (.timedOut
      ((limit.map Timeout.milliseconds).getD (Timeout.longest * 1000))) ∧ x' = x := by
  unfold waitFor
  rw [yields_bind_ok (yields_future.mpr ⟨rfl, rfl⟩), hf, Option.getD_some]
  exact yields_throw

theorem yields_waitFor_value {id : Nat} {limit : Option Binary64} {v : Value}
    {out : Except Failure Reply} (hf : x.futures[id]? = some (.decided (.value v))) :
    Yields (waitFor id limit) x out x' ↔ out = .ok (.value v) ∧ x' = x := by
  unfold waitFor
  rw [yields_bind_ok (yields_future.mpr ⟨rfl, rfl⟩), hf, Option.getD_some]
  exact yields_pure

/-- Whoever waits for an action that failed gets a failure that was not raised
    before. -/
theorem yields_waitFor_failure {id : Nat} {limit : Option Binary64} {o : Outcome} {e : Failure}
    {out : Except Failure Reply} (hf : x.futures[id]? = some (.decided o))
    (ho : o.failure? = some e) :
    Yields (waitFor id limit) x out x' ↔
      out = .error (.actionFailed e) ∧ x' = { x with raised := x.raised.push id } := by
  unfold waitFor
  rw [yields_bind_ok (yields_future.mpr ⟨rfl, rfl⟩), hf, Option.getD_some]
  cases o with
  | value v => exact absurd ho (Option.some_ne_none e).symm
  | failure e' =>
      cases ho
      exact yields_raise
  | cancelled =>
      cases ho
      exact yields_raise

/-- Waiting is answered by the outcome. -/
theorem waitFor_reply {id : Nat} {limit : Option Binary64} {f : Future Listener}
    {out : Except Failure Reply} (hf : x.futures[id]? = some f)
    (h : Yields (waitFor id limit) x out x') : .ofExcept out = waitReply limit f.outcome? := by
  rcases f with waiting | v | e | _
  · rw [((yields_waitFor_pending hf).mp h).1]
    rfl
  · rw [((yields_waitFor_value hf).mp h).1]
    rfl
  · rw [((yields_waitFor_failure hf rfl).mp h).1]
    rfl
  · rw [((yields_waitFor_failure hf rfl).mp h).1]
    rfl

/-- What is said of a future follows from its outcome. -/
theorem queryReply_eq (f : Future Listener) (q : Query) :
    queryReply q f.outcome? = .value (f.answer q) := by
  rcases f with waiting | o
  · cases q <;> rfl
  · cases q <;> cases o <;> rfl

theorem rootReply_eq (f : Future Listener) :
    rootReply f.outcome? = .value ((f.rootFailure?.map .failure).getD .null) := by
  rcases f with waiting | o
  · rfl
  · cases o <;> rfl

/-- Two failures raised one after the other for one future are two, around one. -/
theorem compareRaised_twice {raised : Array Nat} {id : Nat}
    (h : x.raised = (raised.push id).push id) :
    x.compareRaised raised.size = .list (List.replicate 3 (.bool true)) := by
  have hfirst : ((raised.push id).push id)[raised.size]? = some id := by
    rw [Array.getElem?_push, Array.size_push, if_neg (by omega), Array.getElem?_push, if_pos rfl]
  have hlast : ((raised.push id).push id)[raised.size + 1]? = some id := by
    rw [Array.getElem?_push, Array.size_push, if_pos rfl]
  have hne : (raised.size != raised.size + 1) = true :=
    bne_iff_ne.mpr (Nat.ne_of_lt (Nat.lt_succ_self _))
  unfold Exchange.compareRaised
  rw [h, Array.size_push, Array.size_push, Nat.add_sub_cancel, hfirst]
  simp only []
  rw [hlast, hne, beq_self_eq_true]
  rfl

/-- Two waits for an action that failed raise two failures around the same one. -/
theorem sameFailure_reply {tell : Tell} {f : Future Listener} {out : Except Failure Reply}
    (hf : x.futures[x.current]? = some f) (h : Yields (Step.sameFailure.perform tell) x out x') :
    Step.sameFailure.reply? f.outcome? x.session = some (.ofExcept out) := by
  rw [Step.perform, yields_bind_ok (yields_current.mpr ⟨rfl, rfl⟩)] at h
  have hfailed : ∀ {o : Outcome} {e : Failure}, x.futures[x.current]? = some (.decided o) →
      o.failure? = some e →
        .ofExcept out = Reply.value (.list (List.replicate 3 (.bool true))) := by
    intro o e hx ho
    -- Whatever was raised before, one more wait raises one more failure.
    have hwait : ∀ raised, Yields (waitFor x.current (some .zero)) { x with raised := raised }
        (.error (.actionFailed e)) { x with raised := raised.push x.current } := by
      intro raised
      exact (yields_waitFor_failure (x := { x with raised := raised }) hx ho).mpr ⟨rfl, rfl⟩
    rw [yields_bind_ok (yields_attempt.mpr ⟨_, hwait x.raised, rfl⟩)] at h
    simp only [] at h
    rw [yields_bind_ok (yields_get.mpr ⟨rfl, rfl⟩),
      yields_bind_ok (yields_attempt.mpr ⟨_, hwait (x.raised.push x.current), rfl⟩),
      yields_bind_ok (yields_get.mpr ⟨rfl, rfl⟩), yields_pure] at h
    have hsize : (x.raised.push x.current).size - 1 = x.raised.size := by
      rw [Array.size_push, Nat.add_sub_cancel]
    rw [h.1]
    simp only [hsize]
    exact congrArg Reply.value (compareRaised_twice rfl)
  rcases f with waiting | v | e | _
  · rw [yields_bind_ok
      (yields_attempt.mpr ⟨_, (yields_waitFor_pending hf).mpr ⟨rfl, rfl⟩, rfl⟩)] at h
    rw [(yields_pure.mp h).1]
    rfl
  · rw [yields_bind_ok (yields_attempt.mpr ⟨_, (yields_waitFor_value hf).mpr ⟨rfl, rfl⟩, rfl⟩)] at h
    rw [(yields_pure.mp h).1]
    rfl
  · rw [hfailed hf rfl]
    rfl
  · rw [hfailed hf rfl]
    rfl

/-- Every step that only looks at a future is answered by its outcome. -/
theorem looking_reply {tell : Tell} {f : Future Listener} (s : Step) {out : Except Failure Reply}
    (hs : s.looks = true) (hf : x.futures[x.current]? = some f)
    (h : Yields (s.perform tell) x out x') :
    s.reply? f.outcome? x.session = some (.ofExcept out) := by
  cases s with
  | get timeout =>
      rw [Step.perform] at h
      rw [Step.reply?]
      -- Building the limit changes the session only, so the future is as it was.
      rcases yields_limit h with ⟨e, hlimit, rfl, -⟩ | ⟨limit, t, hlimit, hwait⟩
      · rw [hlimit]
        rfl
      · rw [hlimit, waitFor_reply (x := { x with session := t }) hf hwait]
  | listenValue kind v =>
      rw [Step.perform] at h
      rw [Step.reply?]
      rcases yields_bind.mp h with ⟨w, m, h₁, h₂⟩ | ⟨e, h₁, rfl⟩
      · rw [← (yields_build h₁).1, (yields_throw.mp h₂).1]
        rfl
      · rw [← (yields_build h₁).1]
        rfl
  | rootFailure =>
      rw [Step.perform, yields_bind_ok (yields_current.mpr ⟨rfl, rfl⟩),
        yields_bind_ok (yields_future.mpr ⟨rfl, rfl⟩), hf, yields_pure] at h
      rw [Step.reply?, rootReply_eq, h.1]
      rfl
  | query q =>
      rw [Step.perform, yields_bind_ok (yields_current.mpr ⟨rfl, rfl⟩),
        yields_bind_ok (yields_future.mpr ⟨rfl, rfl⟩), hf, yields_pure] at h
      rw [Step.reply?, queryReply_eq, h.1]
      rfl
  | sameFailure => exact sameFailure_reply hf h
  | await =>
      rw [Step.perform, yields_bind_ok (yields_current.mpr ⟨rfl, rfl⟩)] at h
      rw [Step.reply?, waitFor_reply hf h]
  | awaitBriefly =>
      rw [Step.perform, yields_bind_ok (yields_current.mpr ⟨rfl, rfl⟩),
        yields_bind_ok (yields_future.mpr ⟨rfl, rfl⟩), hf, Option.getD_some] at h
      rw [Step.reply?]
      unfold Future.isDone at h
      split at h
      next hdone =>
        rw [yields_bind_ok (yields_current.mpr ⟨rfl, rfl⟩)] at h
        rw [if_pos hdone, waitFor_reply hf h]
      next hdone =>
        rw [if_neg hdone, (yields_pure.mp h).1]
        rfl
  | raise e =>
      rw [Step.perform, yields_throw] at h
      rw [Step.reply?, h.1]
      rfl
  | _ => exact absurd hs (by simp only [Step.looks, Bool.false_eq_true, not_false_eq_true])

end

end Docket
