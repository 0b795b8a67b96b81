import Docket.Proofs.Future.Gathering
import Docket.Proofs.Future.Lasting

/-!
# Agreement

The first outcome that is offered to a future is the one it has, and everybody
who asks is told the same.

Who is first is settled by the order in which steps are taken, so the outcome
after some steps is the head of the list of what those steps offered
(`Exchange.offers`). Everything else is the table of replies, which knows nothing
but that outcome: steps of the script are answered by it (`Obeys`), and so are
the steps that listeners take while they are told, which find the future decided
(`Settles.answers`). A future need not be alone for this, nor need it have been
decided by a script: once it is decided, however that came about, it stays so
(`Lasts`) and everything local about it follows the table (`Settled`).

## Main definitions

* `Exchange.offers`: What the steps of a script offer.
* `Agrees`: A script in which all observers agree with whoever was first.
* `Settled`: A future that is decided, for all that is done from now on.

## Theorems

* `Exchange.obeys_playFrom`: What a script keeps, and that its steps obey.
* `settled_of_decided`: A decided future is settled.
* `play_agrees`: In every script all observers agree.
* `hastyScript_gets_nothing`: Who waits a length of time that is none gets no value.
-/

namespace Docket

open Play

namespace Exchange

/-- What the steps of a script offer, each in the session that it is taken in. -/
def offers (levels : Nat) : Exchange → List Step → List Outcome
  | _, [] => []
  | x, s :: rest => (s.offer? x.session).toList ++ offers levels (playStep levels x s).2 rest

/-- An exchange after some steps of a script. -/
def after (levels : Nat) (x : Exchange) (taken : List Step) : Exchange :=
  (playFrom levels x taken).2

variable {levels : Nat} {x : Exchange}

theorem after_cons (s : Step) (rest : List Step) :
    x.after levels (s :: rest) = (playStep levels x s).2.after levels rest := rfl

theorem after_append_singleton (taken : List Step) (s : Step) :
    x.after levels (taken ++ [s]) = (playStep levels (x.after levels taken) s).2 := by
  induction taken generalizing x with
  | nil => rfl
  | cons t taken ih => exact ih

/-- The offer of one step comes before those of the steps after it. -/
theorem head?_offers_cons (s : Step) (rest : List Step) : (offers levels x (s :: rest)).head? =
    (s.offer? x.session).or (offers levels (playStep levels x s).2 rest).head? := by
  rw [offers]
  cases s.offer? x.session <;> rfl

/-- One step more, at some place of a script, and what is seen of it. -/
theorem played_at (taken rest : List Step) (s : Step) :
    (playFrom levels x (taken ++ s :: rest)).1[taken.length]? =
      some (playStep levels (x.after levels taken) s).1 := by
  induction taken generalizing x with
  | nil => rfl
  | cons t taken ih =>
      rw [after_cons, ← ih]
      rfl

/-- What a script keeps, by induction along its steps: after each of them the
    future has the outcome that was offered first, and each of them obeys. -/
theorem obeys_playFrom {steps : List Step}
    (hsteps : ∀ s ∈ steps, s.isLocal = true ∧ s.weight ≤ levels) :
    ∀ {done : List Step} {x : Exchange}, Course levels done x → ∀ {taken rest : List Step},
      steps = taken ++ rest →
        (x.after levels taken).currentFuture.outcome? =
            x.currentFuture.outcome?.or (offers levels x taken).head? ∧
          Course levels (done ++ taken) (x.after levels taken) ∧
          ∀ s ∈ rest.head?, Obeys s (x.after levels taken)
            (playStep levels (x.after levels taken) s).2
            (playStep levels (x.after levels taken) s).1.reply := by
  induction steps with
  | nil =>
      intro done x hx taken rest hcut
      rcases List.append_eq_nil_iff.mp hcut.symm with ⟨rfl, rfl⟩
      refine ⟨(Option.or_none).symm, ?_, fun s hs => absurd hs nofun⟩
      rw [List.append_nil]
      exact hx
  | cons t steps ih =>
      intro done x hx taken rest hcut
      rcases hsteps t List.mem_cons_self with ⟨hlocal, hweight⟩
      -- One step keeps the course and obeys; what the rest offers comes after its offer.
      rcases course_perform t hlocal hweight hx (yields_run _ x) with ⟨-, ht, hobeys⟩
      cases taken with
      | nil =>
          rw [List.nil_append] at hcut
          subst hcut
          refine ⟨(Option.or_none).symm, ?_, ?_⟩
          · rw [List.append_nil]
            exact hx
          · intro s hs
            rw [← Option.some.inj hs]
            exact hobeys
      | cons t' taken =>
          rw [List.cons_append, List.cons.injEq] at hcut
          rcases hcut with ⟨rfl, hcut⟩
          rcases ih (fun s hs => hsteps s (List.mem_cons_of_mem t hs)) ht hcut with
            ⟨houtcome, hcourse, hrest⟩
          rw [List.append_assoc, List.singleton_append] at hcourse
          refine ⟨?_, hcourse, hrest⟩
          rw [after_cons, head?_offers_cons, ← Option.or_assoc]
          exact houtcome.trans (congrArg (Option.or · _) hobeys.outcome)

end Exchange

/-- A script in which all observers of a future agree with whoever was first to
    offer it an outcome. -/
structure Agrees (levels : Nat) (x : Exchange) (steps : List Step) : Prop where
  /-- the first offer is the outcome, from when it is made -/
  first : ∀ taken rest, steps = taken ++ rest →
    (x.after levels taken).currentFuture.outcome? = (x.offers levels taken).head?
  /-- a step is answered by the outcome that there is when it is taken, and only
      the first offer and the listeners before it write to a future -/
  obeys : ∀ taken s rest, steps = taken ++ s :: rest →
    ∃ played, (x.playFrom levels steps).1[taken.length]? = some played ∧
      Obeys s (x.after levels taken) (x.after levels (taken ++ [s])) played.reply
  /-- a step that a listener takes is answered by the outcome -/
  within : ∀ ticket s a, .answered ticket s a ∈ (x.after levels steps).history.toList →
    ∃ o t, (x.offers levels steps).head? = some o ∧ s.reply? (some o) t = some a

/-- A future that is decided, for all that is done from now on. -/
structure Settled (x : Exchange) (o : Outcome) : Prop where
  /-- nothing that any script does to it or to other futures changes it -/
  lasts : ∀ levels steps, (x.after levels steps).futures[x.current]? = some (.decided o)
  /-- a step that concerns it is answered by its outcome, wherever it is taken,
      and writes to no future -/
  late : ∀ (levels : Nat) (s : Step) (out : Except Failure Reply) (x' : Exchange),
    s.isLocal = true → s.weight ≤ levels → Yields (s.perform (tellAt levels)) x out x' →
      x'.futures = x.futures ∧ s.reply? (some o) x.session = some (.ofExcept out)
  /-- what is raised to someone who waits for an action that failed is a failure
      not raised before, with the failure of the action as its cause and the same
      root -/
  wrapped : ∀ (tell : Tell) (timeout : Option Expr) (limit : Option Binary64) (e : Failure)
    (out : Except Failure Reply) (x' : Exchange), o.failure? = some e →
    limitIn timeout x.session = .ok limit → Yields ((Step.get timeout).perform tell) x out x' →
      ∃ f, out = .error f ∧ f.kind? = some .actionFailed ∧ f.cause? = some e ∧
        rootReply (some o) = .value (.failure f.root) ∧ x'.raised = x.raised.push x.current

/-- Steps that are taken on a future that is decided do not change it, and those
    who wait for it get what it was decided with. -/
theorem settled_of_decided {x : Exchange} {o : Outcome}
    (hx : x.futures[x.current]? = some (.decided o)) : Settled x o where
  lasts := fun levels steps => Exchange.lasts_playFrom levels steps x x.current o hx
  late := by
    intro levels s out x' hlocal hweight h
    rcases perform_decided (tellsAt levels) s hlocal hweight hx h with
      ⟨n, events, hpass, -, hreply⟩
    exact ⟨hpass.futures, hreply⟩
  wrapped := by
    intro tell timeout limit e out x' ho hlimit h
    rw [Step.perform] at h
    -- The limit is good, so what is raised is raised by the wait.
    rcases yields_limit h with ⟨f, hf, -, -⟩ | ⟨limit', t, -, hwait⟩
    · rw [hlimit] at hf
      exact absurd hf ok_ne_error
    · rcases (yields_waitFor_failure (x := { x with session := t }) hx ho).mp hwait with
        ⟨rfl, rfl⟩
      refine ⟨.actionFailed e, rfl, rfl, rfl, ?_, rfl⟩
      cases o with
      | value v => exact absurd ho nofun
      | failure e' =>
          cases ho
          rfl
      | cancelled =>
          cases ho
          rfl

/-- What listeners do while they are told is answered by the outcome. -/
theorem Course.within {levels : Nat} {steps : List Step} {x : Exchange} {ticket : Nat} {s : Step}
    {a : Reply} (h : Course levels steps x) (hmem : .answered ticket s a ∈ x.history.toList) :
    ∃ o t, x.currentFuture.outcome? = some o ∧ s.reply? (some o) t = some a := by
  -- Nothing is answered while listeners gather, nor before the decision.
  rcases h with ⟨waiting, -, hgathers⟩ |
    ⟨o, waiting, earlier, later, first, count, before, after, hfuture, -, hgathers, hhistory, -,
      hsettles⟩
  · exact absurd hmem (hgathers.unanswered ticket s a)
  · rw [hhistory] at hmem
    simp only [List.mem_append, List.mem_cons, reduceCtorEq, false_or] at hmem
    rcases hmem with hmem | hmem
    · exact absurd hmem (hgathers.unanswered ticket s a)
    · rcases hsettles.answers ticket s a hmem with ⟨t, ht⟩
      refine ⟨o, t, ?_, ht⟩
      rw [currentFuture_of_get hfuture]
      rfl

/-- The first to offer a future an outcome decides it, whatever the script does
    and whatever its listeners do when they are told; all others are told so, and
    all who ask or wait are told that outcome. So it is with every future once it
    is decided. -/
theorem play_agrees (steps : List Step) (hlocal : areLocal steps = true) :
    Agrees (weights steps) .initial steps ∧
      ∀ (x : Exchange) (o : Outcome), x.futures[x.current]? = some (.decided o) →
        Settled x o := by
  refine ⟨?_, fun x o hx => settled_of_decided hx⟩
  have hsteps : ∀ s ∈ steps, s.isLocal = true ∧ s.weight ≤ weights steps :=
    fun s hs => ⟨isLocal_of_mem hlocal s hs, weight_le_of_mem s hs⟩
  have hkeeps : ∀ {taken rest : List Step}, steps = taken ++ rest → _ :=
    Exchange.obeys_playFrom hsteps (course_initial (weights steps))
  constructor
  case first => exact fun taken rest hcut => (hkeeps hcut).1
  case obeys =>
    intro taken s rest hcut
    rw [Exchange.after_append_singleton]
    refine ⟨_, ?_, (hkeeps hcut).2.2 s rfl⟩
    rw [hcut]
    exact Exchange.played_at taken rest s
  case within =>
    intro ticket s a hmem
    -- All of the script has been played, so nothing is left of it.
    rcases hkeeps (List.append_nil steps).symm with ⟨houtcome, hcourse, -⟩
    rcases hcourse.within hmem with ⟨o, t, ho, ht⟩
    rw [houtcome] at ho
    exact ⟨o, t, ho, ht⟩

/-- A listener that does everything again while it is told, and one more that it
    registers; what comes before is refused, and what comes after is too late. -/
def contendedScript : List Step :=
  [.listen .complete "again" [.query .state, .cancel, .resolve (.scalar (.bool true)),
      .reject (.error (.mk "KeyError" none none)), .listen .failure "inner" [.get none, .cancel],
      .get none, .rootFailure, .raise (.mk "ValueError" none none)],
    .reject (.scalar .null), .reject (.error (.mk "OSError" none none)), .cancel,
    .query .cancelled, .sameFailure]

theorem play_contendedScript_agrees : areLocal contendedScript = true ∧
    Agrees (weights contendedScript) .initial contendedScript ∧
      ∀ (x : Exchange) (o : Outcome), x.futures[x.current]? = some (.decided o) → Settled x o :=
  ⟨by decide, play_agrees contendedScript (by decide)⟩

/-- A value, and a wait for it of a length that is none. -/
def hastyScript : List Step :=
  [.resolve (.scalar (.int 1 .plain)), .get (some (.scalar (.text "-5s" .plain)))]

/-- Who waits a length of time that is none gets neither the value nor a failure
    of the action. -/
theorem hastyScript_gets_nothing : areLocal hastyScript = true ∧
    (Exchange.play hastyScript).2.currentFuture.outcome? = some (.value (.int 1)) ∧
      ∃ a, (Exchange.play hastyScript).1[1]?.map (·.reply) = some a ∧ a ≠ .value (.int 1) ∧
        ∀ e, a ≠ .failed (.actionFailed e) :=
  ⟨by decide, rfl, .failed (.valueError
    "Invalid time value: '-5s' (expected e.g. '500ms', '30s', '1m')"), rfl, nofun, nofun⟩

end Docket
