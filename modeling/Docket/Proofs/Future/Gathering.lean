import Docket.Proofs.Future.Delivery
import Mathlib.Data.List.Forall2

/-!
# Exactly-once delivery

Every listener on a future is told the outcome exactly once, whatever the
listeners do when they are told.

Before the decision nobody is told, and the listeners gather in order. The
decision takes them all, and what follows it settles what they are owed together
with the registrations that are made on the way. `Course` is the invariant that
says so between the steps of a script: listeners have gathered, or the history
is cut by the decision into a part without tellings and a part that settles
everyone. It is kept by every step (`course_perform`), hence by every script
(`course_playFrom`), and it is turned into statements about the whole history
at the end.

## Main definitions

* `Course`: What is known of an exchange between the steps of a script.
* `Delivers`: A history in which every listener is told exactly once.

## Theorems

* `perform_pending`: What a step on a pending future does.
* `course_perform`: What a step keeps.
* `course_playFrom`: What a script keeps.
* `play_tells_each_listener_once`: Every listener is told exactly once, in order
  and in time, and what it raises concerns nobody else.
-/

namespace Docket

open Play

section

variable {x x' : Exchange} {levels : Nat}

/-- Before a future is decided listeners gather on it, each with the next
    ticket, and nobody is told. -/
structure Gathers (levels id : Nat) (waiting : List (Registration Listener)) (steps : List Step)
    (tickets : Nat) (events : List Event) : Prop where
  undecided : decisions id events = []
  untold : tellings events = []
  unanswered : ∀ ticket s a, .answered ticket s a ∉ events
  gathered : registrations id events = waiting
  made : waiting.map (fun r => (r.kind, r.listener)) = steps.filterMap Step.listener?
  tickets : waiting.map (·.ticket) = List.range' 0 tickets
  scripted : ∀ r ∈ waiting, ∃ name actions, r.listener = .scripted name actions ∧
    areLocal actions = true ∧ weights actions < levels

/-- What is known of an exchange when some steps of a script have been taken:
    either listeners have gathered on its future, or the future is decided, and
    everything after the decision settles those that had gathered. -/
inductive Course (levels : Nat) (steps : List Step) (x : Exchange) : Prop
  | pending (waiting : List (Registration Listener))
      (future : x.futures[x.current]? = some (.pending waiting))
      (gathers : Gathers levels x.current waiting steps x.tickets x.history.toList)
  | decided (o : Outcome) (waiting : List (Registration Listener)) (earlier later : List Step)
      (first count : Nat) (before after : List Event)
      (future : x.futures[x.current]? = some (.decided o))
      (taken : steps = earlier ++ later)
      (gathers : Gathers levels x.current waiting earlier first before)
      (history : x.history.toList = before ++ .decided x.current o :: after)
      (tickets : x.tickets = first + count)
      (settles : Settles x.current o waiting later first count after)

/-- Nothing is known to have changed after a step that only looks. -/
theorem Course.of_looking {steps : List Step} {s : Step} (h : Course levels steps x)
    (hs : s.listener? = none) (hpass : Passes x x' 0 []) : Course levels (steps ++ [s]) x' := by
  have hhistory : x'.history.toList = x.history.toList := by
    rw [hpass.history, List.append_nil]
  rcases h with ⟨waiting, hfuture, hgathers⟩ |
    ⟨o, waiting, earlier, later, first, count, before, after, hfuture, htaken, hgathers,
      hsplit, htickets, hsettles⟩
  · refine Course.pending waiting ?_ ?_
    · exact hpass.get hfuture
    · rw [hpass.current, hpass.tickets, hhistory]
      refine { hgathers with made := ?_ }
      rw [hgathers.made, List.filterMap_append]
      simp only [List.filterMap_cons, hs, List.filterMap_nil, List.append_nil]
  · refine Course.decided o waiting earlier (later ++ [s]) first count before after
      ?_ ?_ ?_ ?_ ?_ ?_
    · exact hpass.get hfuture
    · rw [htaken, List.append_assoc]
    · rw [hpass.current]
      exact hgathers
    · rw [hhistory, hsplit, hpass.current]
    · rw [hpass.tickets, htickets, Nat.add_zero]
    · rw [hpass.current]
      -- The step goes behind those that came after the decision, as a stretch of its own.
      have hall := hsettles.append (Settles.quiet x.current o (first + count) hs)
        (fun r hr => absurd hr List.not_mem_nil)
      rw [List.append_nil, List.append_nil] at hall
      exact hall

/-- A decided future stays as it is, and what happens is settled. -/
theorem Course.of_decided {steps : List Step} {s : Step} {n : Nat} {events : List Event}
    (h : Course levels steps x) (hx : x.futures[x.current]? = some (.decided o))
    (hpass : Passes x x' n events) (hs : Settles x.current o [] [s] x.tickets n events) :
    Course levels (steps ++ [s]) x' := by
  rcases h with ⟨waiting, hfuture, -⟩ |
    ⟨o', waiting, earlier, later, first, count, before, after, hfuture, htaken, hgathers,
      hsplit, htickets, hsettles⟩
  · rw [hx] at hfuture
    exact absurd hfuture (by simp only [Option.some.injEq, reduceCtorEq, not_false_eq_true])
  · rw [hx, Option.some.injEq, Future.decided.injEq] at hfuture
    subst hfuture
    refine Course.decided o waiting earlier (later ++ [s]) first (count + n) before
      (after ++ events) ?_ ?_ ?_ ?_ ?_ ?_
    · exact hpass.get hx
    · rw [htaken, List.append_assoc]
    · rw [hpass.current]
      exact hgathers
    · rw [hpass.history, hsplit, hpass.current, List.append_assoc, List.cons_append]
    · rw [hpass.tickets, htickets, Nat.add_assoc]
    · rw [hpass.current]
      rw [htickets] at hs
      have hall := hsettles.append hs (fun r hr => absurd hr List.not_mem_nil)
      rw [List.append_nil] at hall
      exact hall

theorem Gathers.ticket_lt {id tickets : Nat} {waiting : List (Registration Listener)}
    {steps : List Step} {events : List Event} (h : Gathers levels id waiting steps tickets events) :
    ∀ r ∈ waiting, r.ticket < tickets := by
  intro r hr
  have hmem : r.ticket ∈ List.range' 0 tickets := by
    rw [← h.tickets]
    exact List.mem_map_of_mem hr
  rw [List.mem_range'_1] at hmem
  omega

/-- Deciding a future takes all listeners that have gathered, and settles what
    they are owed. -/
theorem decideFuture_pending {steps : List Step} {s : Step} {o' : Outcome}
    {waiting : List (Registration Listener)} {out : Except Failure Bool}
    (hs : s.listener? = none) (hx : x.futures[x.current]? = some (.pending waiting))
    (hgathers : Gathers levels x.current waiting steps x.tickets x.history.toList)
    (h : Yields (decideFuture (tellAt levels) x.current o') x out x') :
    out = .ok true ∧ x'.futures[x'.current]? = some (.decided o') ∧ Follows x x' ∧
      Course levels (steps ++ [s]) x' := by
  unfold decideFuture at h
  rw [yields_bind_ok (yields_future.mpr ⟨rfl, rfl⟩), hx, Option.getD_some] at h
  have hdecide : (Future.pending waiting).decide o' = .ok (some waiting) := by
    cases o' <;> rfl
  rw [yields_bind_ok (yields_ofExcept.mpr ⟨hdecide.symm, rfl⟩)] at h
  simp only [] at h
  rw [yields_bind_ok (yields_setFuture.mpr ⟨rfl, rfl⟩),
    yields_bind_ok (yields_note.mpr ⟨rfl, rfl⟩)] at h
  -- The future is decided before anybody is told, so whoever is told finds it so.
  rcases yields_bind.mp h with ⟨u, m, h₁, h₂⟩ | ⟨e, h₁, -⟩
  · rcases yields_log h₁ with ⟨-, hlog⟩
    have hm : m.futures[m.current]? = some (.decided o') := by
      rw [hlog.futures, hlog.current, Array.getElem?_modify, if_pos rfl, hx]
      rfl
    have htickets : m.tickets = x.tickets := by rw [hlog.tickets, Nat.add_zero]
    have hnotify : ∀ {y : Exchange} {r : Except Failure Unit},
        Yields (notify (tellAt levels) x.current o' waiting) m r y →
          r = .ok () ∧ ∃ n events, Passes m y n events ∧
            Settles m.current o' waiting [] m.tickets n events := by
      intro y r hy
      refine notify_settles x.current waiting hgathers.scripted hm ?_ hy
      rw [htickets]
      exact hgathers.ticket_lt
    rcases yields_bind.mp h₂ with ⟨u', m', h₃, h₄⟩ | ⟨e, h₃, -⟩
    · rcases hnotify h₃ with ⟨-, n, events, hpass, hsettles⟩
      rcases yields_pure.mp h₄ with ⟨rfl, rfl⟩
      have hcurrent : x'.current = x.current := by rw [hpass.current, hlog.current]
      have hhistory : x'.history.toList = x.history.toList ++ .decided x'.current o' :: events := by
        rw [hpass.history, hlog.history, hcurrent, Array.toList_push, List.append_nil,
          List.append_assoc, List.singleton_append]
      have hfollows : Follows x x' := by
        refine ⟨hcurrent, ?_⟩
        rw [hhistory]
        exact List.prefix_append _ _
      have hx' : x'.futures[x'.current]? = some (.decided o') := hpass.get hm
      refine ⟨rfl, hx', hfollows, Course.decided o' waiting steps [s] x.tickets n x.history.toList
        events hx' rfl ?_ ?_ ?_ ?_⟩
      · rw [hcurrent]
        exact hgathers
      · exact hhistory
      · rw [hpass.tickets, htickets]
      · rw [htickets, show m.current = x'.current from hpass.current.symm] at hsettles
        have hall := hsettles.append (Settles.quiet x'.current o' (x.tickets + n) hs)
          (fun r hr => absurd hr List.not_mem_nil)
        rw [List.append_nil, List.append_nil] at hall
        exact hall
    · exact absurd (hnotify h₃).1 error_ne_ok
  · exact absurd (yields_log h₁).1 error_ne_ok

/-- A listener that is registered before the decision waits. -/
theorem register_pending {steps : List Step} {kind : ListenerKind} {name : String}
    {actions : List Step} {waiting : List (Registration Listener)} {out : Except Failure Nat}
    (hlocal : areLocal actions = true) (hweight : weights actions < levels)
    (hx : x.futures[x.current]? = some (.pending waiting))
    (hgathers : Gathers levels x.current waiting steps x.tickets x.history.toList)
    (h : Yields (register (tellAt levels) x.current kind (.scripted name actions)) x out x') :
    out = .ok x.tickets ∧ x'.futures[x'.current]? =
        some (.pending (waiting ++ [⟨x.tickets, kind, .scripted name actions⟩])) ∧ Follows x x' ∧
      Course levels (steps ++ [.listen kind name actions]) x' := by
  unfold register at h
  rw [yields_bind_ok (yields_ticket.mpr ⟨rfl, rfl⟩), yields_bind_ok (yields_future.mpr ⟨rfl, rfl⟩),
    hx, Option.getD_some] at h
  simp only [] at h
  rw [yields_bind_ok (yields_setFuture.mpr ⟨rfl, rfl⟩),
    yields_bind_ok (yields_note.mpr ⟨rfl, rfl⟩), yields_pure] at h
  rcases h with ⟨rfl, rfl⟩
  -- The listener goes behind those that wait already.
  have hx' : (x.futures.modify x.current fun _ => (Future.pending waiting).wait
      ⟨x.tickets, kind, .scripted name actions⟩)[x.current]? =
        some (.pending (waiting ++ [⟨x.tickets, kind, .scripted name actions⟩])) := by
    rw [Array.getElem?_modify, if_pos rfl, hx]
    rfl
  refine ⟨rfl, hx', ?_, Course.pending
    (waiting ++ [⟨x.tickets, kind, .scripted name actions⟩]) hx' ?_⟩
  · refine ⟨rfl, ?_⟩
    simp only [Array.toList_push, List.append_assoc]
    exact List.prefix_append _ _
  · constructor
    case undecided =>
      simp only [Array.toList_push, decisions_append, hgathers.undecided]
      rfl
    case untold =>
      simp only [Array.toList_push, tellings_append, hgathers.untold]
      rfl
    case unanswered =>
      intro ticket s a hmem
      simp only [Array.toList_push, List.mem_append, List.mem_singleton, reduceCtorEq,
        or_false] at hmem
      exact hgathers.unanswered ticket s a hmem
    case gathered =>
      simp only [Array.toList_push, registrations_append, hgathers.gathered]
      simp only [registrations, List.filterMap_cons, List.filterMap_nil, if_true, List.append_nil]
    case made =>
      rw [List.map_append, hgathers.made, List.filterMap_append]
      rfl
    case tickets =>
      rw [List.map_append, hgathers.tickets, ← List.range'_append_1]
      simp only [Nat.zero_add]
      rfl
    case scripted =>
      intro r hr
      rcases List.mem_append.mp hr with hr | hr
      · exact hgathers.scripted r hr
      · rw [List.mem_singleton] at hr
        rw [hr]
        exact ⟨name, actions, rfl, hlocal, hweight⟩

/-- The answer to a step that decides the future. -/
theorem deciding_pending {steps : List Step} {s : Step} {o' : Outcome}
    {waiting : List (Registration Listener)} {out : Except Failure Reply}
    (hs : s.listener? = none) (hx : x.futures[x.current]? = some (.pending waiting))
    (hgathers : Gathers levels x.current waiting steps x.tickets x.history.toList)
    (h : Yields (deciding (tellAt levels) o') x out x') :
    out = .ok (.bool true) ∧ x'.futures[x'.current]? = some (.decided o') ∧ Follows x x' ∧
      Course levels (steps ++ [s]) x' := by
  unfold deciding at h
  rw [yields_bind_ok (yields_current.mpr ⟨rfl, rfl⟩)] at h
  rcases yields_bind.mp h with ⟨b, m, h₁, h₂⟩ | ⟨e, h₁, -⟩
  · rcases yields_pure.mp h₂ with ⟨rfl, rfl⟩
    rcases decideFuture_pending hs hx hgathers h₁ with ⟨hout, hrest⟩
    rw [Except.ok.inj hout]
    exact ⟨rfl, hrest⟩
  · exact absurd (decideFuture_pending hs hx hgathers h₁).1
      error_ne_ok

/-- What a step is answered and what it changes, by the outcome so far: only the
    first offer decides the future, and only before that do listeners gather. -/
structure Obeys (s : Step) (x x' : Exchange) (a : Reply) : Prop where
  reply : s.reply? x.currentFuture.outcome? x.session = some a
  outcome : x'.currentFuture.outcome? = x.currentFuture.outcome?.or (s.offer? x.session)
  changes : x'.futures = x.futures ∨ x.currentFuture.outcome? = none ∧
    (s.offer? x.session ≠ none ∨ s.listener? ≠ none)

theorem currentFuture_of_get {f : Future Listener} (hx : x.futures[x.current]? = some f) :
    x.currentFuture = f := by
  unfold Exchange.currentFuture
  rw [hx, Option.getD_some]

theorem Passes.currentFuture {n : Nat} {events : List Event} (h : Passes x x' n events) :
    x'.currentFuture = x.currentFuture := by
  unfold Exchange.currentFuture
  rw [h.futures, h.current]

/-- A step on a decided future obeys if it changes no future. -/
theorem obeys_decided {s : Step} {o : Outcome} {a : Reply} {n : Nat} {events : List Event}
    (hx : x.futures[x.current]? = some (.decided o)) (hpass : Passes x x' n events)
    (hreply : s.reply? (some o) x.session = some a) : Obeys s x x' a where
  reply := by
    rw [currentFuture_of_get hx]
    exact hreply
  outcome := by
    rw [hpass.currentFuture, currentFuture_of_get hx]
    rfl
  changes := Or.inl hpass.futures

/-- So does a step on a pending one, if it offers nothing. -/
theorem obeys_looking {s : Step} {waiting : List (Registration Listener)} {a : Reply}
    (hx : x.futures[x.current]? = some (.pending waiting)) (hpass : Passes x x' 0 [])
    (hoffer : s.offer? x.session = none) (hreply : s.reply? none x.session = some a) :
    Obeys s x x' a where
  reply := by
    rw [currentFuture_of_get hx]
    exact hreply
  outcome := by
    rw [hpass.currentFuture, hoffer, Option.or_none]
  changes := Or.inl hpass.futures

/-- The offer of a step on a pending future is taken. -/
theorem obeys_deciding {s : Step} {o : Outcome} {waiting : List (Registration Listener)}
    (hx : x.futures[x.current]? = some (.pending waiting))
    (hoffer : s.offer? x.session = some o)
    (hreply : s.reply? none x.session = some (.bool true))
    (hx' : x'.futures[x'.current]? = some (.decided o)) : Obeys s x x' (.bool true) where
  reply := by
    rw [currentFuture_of_get hx]
    exact hreply
  outcome := by
    rw [currentFuture_of_get hx, currentFuture_of_get hx', hoffer]
    rfl
  changes := by
    refine Or.inr ⟨?_, Or.inl ?_⟩
    · rw [currentFuture_of_get hx]
      rfl
    · rw [hoffer]
      exact Option.some_ne_none o

section

variable {steps : List Step} {s : Step} {waiting : List (Registration Listener)}
  (hx : x.futures[x.current]? = some (.pending waiting))
  (hgathers : Gathers levels x.current waiting steps x.tickets x.history.toList)
include hx hgathers

/-- A step on a pending future that has nothing to offer only looks. -/
theorem perform_looking {a : Reply} (hs : s.listener? = none) (hpass : Passes x x' 0 [])
    (hoffer : s.offer? x.session = none) (hreply : s.reply? none x.session = some a) :
    Follows x x' ∧ Course levels (steps ++ [s]) x' ∧ Obeys s x x' a :=
  ⟨hpass.follows, (Course.pending waiting hx hgathers).of_looking hs hpass,
    obeys_looking hx hpass hoffer hreply⟩

/-- One that has built what it offers decides the future. -/
theorem perform_deciding {o : Outcome} {m : Exchange} {out : Except Failure Reply}
    (hs : s.listener? = none) (hpass : Passes x m 0 []) (hoffer : s.offer? x.session = some o)
    (hreply : s.reply? none x.session = some (.bool true))
    (h : Yields (deciding (tellAt levels) o) m out x') :
    Follows x x' ∧ Course levels (steps ++ [s]) x' ∧ Obeys s x x' (.ofExcept out) := by
  -- The future is still pending when a value has been built.
  have hm : m.futures[m.current]? = some (.pending waiting) := hpass.get hx
  have hg : Gathers levels m.current waiting steps m.tickets m.history.toList := by
    rw [hpass.current, hpass.tickets, hpass.history, Nat.add_zero, List.append_nil]
    exact hgathers
  rcases deciding_pending hs hm hg h with ⟨rfl, hx', hfollows, hcourse⟩
  exact ⟨hpass.follows.trans hfollows, hcourse, obeys_deciding hx hoffer hreply hx'⟩

/-- A step on a pending future decides it, registers a listener that waits, or
    only looks. -/
theorem perform_pending (s : Step) {out : Except Failure Reply} (hlocal : s.isLocal = true)
    (hweight : s.weight ≤ levels) (h : Yields (s.perform (tellAt levels)) x out x') :
    Follows x x' ∧ Course levels (steps ++ [s]) x' ∧ Obeys s x x' (.ofExcept out) := by
  have hlooking : s.looks = true → s.listener? = none → s.offer? x.session = none →
      Follows x x' ∧ Course levels (steps ++ [s]) x' ∧ Obeys s x x' (.ofExcept out) :=
    fun hs hl hoffer => perform_looking hx hgathers hl (quiet_perform _ s hs x out x' h) hoffer
      (looking_reply s hs hx h)
  cases s with
  | resolve v =>
      rw [Step.perform] at h
      rcases yields_bind.mp h with ⟨w, m, h₁, h₂⟩ | ⟨e, h₁, rfl⟩
      · have hvalue := (yields_build h₁).1
        refine perform_deciding hx hgathers rfl (quiet_build v x _ m h₁) ?_ ?_ h₂
        · rw [Step.offer?, ← hvalue]
        · rw [Step.reply?, ← hvalue]
          rfl
      · have hvalue := (yields_build h₁).1
        refine perform_looking hx hgathers rfl (quiet_build v x _ x' h₁) ?_ ?_
        · rw [Step.offer?, ← hvalue]
        · rw [Step.reply?, ← hvalue]
          rfl
  | reject v =>
      rw [Step.perform] at h
      rcases yields_bind.mp h with ⟨w, m, h₁, h₂⟩ | ⟨e, h₁, rfl⟩
      · have hpass := quiet_build v x _ m h₁
        have hvalue := (yields_build h₁).1
        split at h₂
        next e =>
          refine perform_deciding hx hgathers rfl hpass ?_ ?_ h₂
          · rw [Step.offer?, ← hvalue]
          · rw [Step.reply?, ← hvalue]
            rfl
        -- What was built is no exception, so there is nothing to offer.
        next hne =>
          rcases yields_throw.mp h₂ with ⟨rfl, rfl⟩
          refine perform_looking hx hgathers rfl hpass ?_ (reply_reject_other hvalue.symm hne)
          rw [Step.offer?, ← hvalue]
          split
          next e heq => exact absurd (Except.ok.inj heq) (hne e)
          next => rfl
      · have hvalue := (yields_build h₁).1
        refine perform_looking hx hgathers rfl (quiet_build v x _ x' h₁) ?_ ?_
        · rw [Step.offer?, ← hvalue]
        · rw [Step.reply?, ← hvalue]
          rfl
  | cancel =>
      rw [Step.perform] at h
      exact perform_deciding hx hgathers rfl (Passes.refl x) rfl rfl h
  | listen kind name actions =>
      rw [Step.isLocal] at hlocal
      rw [Step.weight] at hweight
      rw [Step.perform, yields_bind_ok (yields_current.mpr ⟨rfl, rfl⟩)] at h
      rcases yields_bind.mp h with ⟨ticket, m, h₁, h₂⟩ | ⟨e, h₁, -⟩
      · rcases yields_pure.mp h₂ with ⟨rfl, rfl⟩
        rcases (register_pending hlocal (by omega) hx hgathers h₁).2 with
          ⟨hx', hfollows, hcourse'⟩
        refine ⟨hfollows, hcourse', rfl, ?_, Or.inr ⟨?_, Or.inr (Option.some_ne_none _)⟩⟩
        · rw [currentFuture_of_get hx, currentFuture_of_get hx']
          rfl
        · rw [currentFuture_of_get hx]
          rfl
      · exact absurd (register_pending hlocal (by omega) hx hgathers h₁).1
          error_ne_ok
  | get t => exact hlooking rfl rfl rfl
  | listenValue kind v => exact hlooking rfl rfl rfl
  | rootFailure => exact hlooking rfl rfl rfl
  | query q => exact hlooking rfl rfl rfl
  | sameFailure => exact hlooking rfl rfl rfl
  | await => exact hlooking rfl rfl rfl
  | awaitBriefly => exact hlooking rfl rfl rfl
  | raise e => exact hlooking rfl rfl rfl
  | _ => exact absurd hlocal (by simp only [Step.isLocal, Bool.false_eq_true, not_false_eq_true])

end

/-- What a step keeps. -/
theorem course_perform {steps : List Step} (s : Step) {out : Except Failure Reply}
    (hlocal : s.isLocal = true) (hweight : s.weight ≤ levels) (hcourse : Course levels steps x)
    (h : Yields (s.perform (tellAt levels)) x out x') :
    Follows x x' ∧ Course levels (steps ++ [s]) x' ∧ Obeys s x x' (.ofExcept out) := by
  have hcopy := hcourse
  rcases hcourse with ⟨waiting, hx, hgathers⟩ | ⟨o, _, _, _, _, _, _, _, hx, _, _, _, _, _⟩
  · exact perform_pending hx hgathers s hlocal hweight h
  · rcases perform_decided (tellsAt levels) s hlocal hweight hx h with
      ⟨n, events, hpass, hsettles, hreply⟩
    exact ⟨hpass.follows, hcopy.of_decided hx hpass hsettles, obeys_decided hx hpass hreply⟩

end

namespace Exchange

/-- What a script keeps, by induction along its steps. -/
theorem course_playFrom (levels : Nat) (steps : List Step)
    (hsteps : ∀ s ∈ steps, s.isLocal = true ∧ s.weight ≤ levels) :
    ∀ (done : List Step) (x : Exchange), Course levels done x →
      Follows x (playFrom levels x steps).2 ∧
      Course levels (done ++ steps) (playFrom levels x steps).2 ∧
      List.Forall₂ (fun s p => s.Answers p.reply) steps (playFrom levels x steps).1 ∧
      tellings (playFrom levels x steps).2.history.toList = tellings x.history.toList ++
        ((playFrom levels x steps).1.flatMap (·.calls)).map Call.telling := by
  induction steps with
  | nil =>
      intro done x hx
      rw [List.append_nil]
      exact ⟨Follows.refl x, hx, List.Forall₂.nil, (List.append_nil _).symm⟩
  | cons s rest ih =>
      intro done x hx
      rcases hsteps s List.mem_cons_self with ⟨hlocal, hweight⟩
      rcases course_perform s hlocal hweight hx (yields_run _ x) with ⟨hfollows, hs, hobeys⟩
      rcases ih (fun t ht => hsteps t (List.mem_cons_of_mem s ht)) (done ++ [s]) _ hs with
        ⟨hfollows', hrest, hall, htold⟩
      rw [List.append_assoc, List.singleton_append] at hrest
      refine ⟨hfollows.trans hfollows', hrest,
        List.Forall₂.cons (Step.answers_of_reply hobeys.reply) hall, ?_⟩
      -- The calls that a step shows are those in the part of the history that it added.
      rcases hfollows.history with ⟨events, hevents⟩
      have hcalls : (playStep levels x s).1.calls = callsOf events := by
        have hdrop := congrArg (List.drop x.history.toList.length) hevents
        rw [List.drop_left, Array.length_toList] at hdrop
        exact (congrArg callsOf hdrop).symm
      rw [playFrom, List.flatMap_cons, List.map_append, hcalls, tellings_callsOf,
        ← List.append_assoc, ← tellings_append, hevents]
      exact htold

end Exchange

/-- A history, of some steps on a future that is left with some outcome, in which
    every listener is told exactly once. -/
structure Delivers (id : Nat) (steps : List Step) (outcome : Option Outcome)
    (events : List Event) : Prop where
  /-- the future is decided once, with the outcome it is left with, or not at all -/
  decided : decisions id events = outcome.toList
  /-- nobody is told while the future is pending -/
  patient : ∀ before after, events = before ++ after → decisions id before = [] →
    tellings before = []
  /-- every step that registers a listener makes a registration of its own -/
  made : ((registrations id events).map fun r => (r.kind, r.listener)).Perm
    ((steps ++ stepsTaken events).filterMap Step.listener?)
  distinct : ((registrations id events).map (·.ticket)).Nodup
  /-- every registration is told the outcome once if its kind is told about it,
      and else never -/
  told : ∀ o, outcome = some o →
    (tellings events).Perm ((registrations id events).filterMap (·.call? o))
  /-- those that were registered before the decision are told in order -/
  ordered : ∀ before o after, events = before ++ .decided id o :: after →
    ((tellings events).filter fun c =>
      decide (c.ticket ∈ (registrations id before).map (·.ticket))) =
        (registrations id before).filterMap (·.call? o)
  /-- those that are registered later are told before they are returned -/
  prompt : ∀ before o after, events = before ++ .decided id o :: after → Prompt id o after
  /-- what a listener raises does not come out of the step that told it -/
  answers : ∀ ticket s a, .answered ticket s a ∈ events → s.Answers a

/-- A history is cut by a decision in one way only, if it holds no other. -/
theorem cut_unique {id : Nat} {o o' : Outcome} {a b c d : List Event}
    (h : a ++ .decided id o :: b = c ++ .decided id o' :: d) (ha : decisions id a = [])
    (hb : decisions id b = []) : c = a ∧ o' = o ∧ d = b := by
  -- If one cut came after the other, the part in between would begin with a decision.
  rcases List.append_eq_append_iff.mp h with ⟨mid, rfl, hmid⟩ | ⟨mid, rfl, hmid⟩
  · cases mid with
    | nil =>
        rw [List.nil_append, List.cons.injEq, Event.decided.injEq] at hmid
        rcases hmid with ⟨⟨-, rfl⟩, rfl⟩
        exact ⟨List.append_nil a, rfl, rfl⟩
    | cons e mid =>
        rw [List.cons_append, List.cons.injEq] at hmid
        rcases hmid with ⟨-, rfl⟩
        exact absurd hb (decisions_ne_nil mid d o')
  · cases mid with
    | nil =>
        rw [List.nil_append, List.cons.injEq, Event.decided.injEq] at hmid
        rcases hmid with ⟨⟨-, rfl⟩, rfl⟩
        exact ⟨(List.append_nil c).symm, rfl, rfl⟩
    | cons e mid =>
        rw [List.cons_append, List.cons.injEq] at hmid
        rcases hmid with ⟨rfl, -⟩
        exact absurd ha (decisions_ne_nil c mid o')

section

variable {levels first count id : Nat} {steps earlier later : List Step}
  {waiting : List (Registration Listener)} {before after : List Event} {o : Outcome}

theorem Gathers.stepsTaken (h : Gathers levels id waiting steps first before) :
    Docket.stepsTaken before = [] := by
  rw [Docket.stepsTaken, List.filterMap_eq_nil_iff]
  intro e he
  cases e with
  | answered ticket s a => exact absurd he (h.unanswered ticket s a)
  | _ => rfl

/-- While listeners gather, nothing has to be delivered. -/
theorem Gathers.delivers (h : Gathers levels id waiting steps first before) :
    Delivers id steps none before where
  decided := h.undecided
  -- There is no decision that something could come before or after.
  patient := by
    rintro b a rfl -
    have huntold := h.untold
    rw [tellings_append, List.append_eq_nil_iff] at huntold
    exact huntold.1
  made := by
    rw [h.gathered, h.made, h.stepsTaken, List.append_nil]
  distinct := by
    rw [h.gathered, h.tickets]
    exact List.nodup_range'
  told := by
    intro o ho
    exact absurd ho (by simp only [reduceCtorEq, not_false_eq_true])
  ordered := by
    rintro b o a rfl
    exact absurd h.undecided (decisions_ne_nil b a o)
  prompt := by
    rintro b o a rfl
    exact absurd h.undecided (decisions_ne_nil b a o)
  answers := fun ticket s a hmem => absurd hmem (h.unanswered ticket s a)

/-- A decision delivers to those that have gathered before it and to those that
    are registered after it. -/
theorem Gathers.delivers_of_settles (hgathers : Gathers levels id waiting earlier first before)
    (hsettles : Settles id o waiting later first count after) :
    Delivers id (earlier ++ later) (some o) (before ++ .decided id o :: after) := by
  have hregistrations : registrations id (before ++ .decided id o :: after) =
      waiting ++ registrations id after := by
    rw [registrations_append, hgathers.gathered]
    rfl
  have htellings : tellings (before ++ .decided id o :: after) = tellings after := by
    rw [tellings_append, hgathers.untold]
    rfl
  constructor
  case decided =>
    rw [decisions_append, hgathers.undecided]
    simp only [decisions, List.filterMap_cons, if_true, List.nil_append]
    exact congrArg _ hsettles.undecided
  case patient =>
    -- What comes before any decision lies in front of this one, where nobody was told.
    intro b a hcut hb
    rcases List.append_eq_append_iff.mp hcut with ⟨mid, rfl, hmid⟩ | ⟨mid, rfl, hmid⟩
    · cases mid with
      | nil => rw [List.append_nil, hgathers.untold]
      | cons e mid =>
          rw [List.cons_append, List.cons.injEq] at hmid
          rcases hmid with ⟨rfl, -⟩
          exact absurd hb (decisions_ne_nil before mid o)
    · have huntold := hgathers.untold
      rw [tellings_append, List.append_eq_nil_iff] at huntold
      exact huntold.1
  case made =>
    have htaken : Docket.stepsTaken (before ++ .decided id o :: after) =
        Docket.stepsTaken after := by
      rw [stepsTaken_append, hgathers.stepsTaken]
      rfl
    rw [hregistrations, htaken, List.map_append, hgathers.made, List.append_assoc,
      List.filterMap_append]
    exact hsettles.made.append_left _
  case distinct =>
    -- Tickets after the decision go on where those before it ended.
    rw [hregistrations, List.map_append, hgathers.tickets, hsettles.tickets]
    have hrange := List.range'_append_1 (s := 0) (m := first) (n := count)
    rw [Nat.zero_add] at hrange
    rw [hrange]
    exact List.nodup_range'
  case told =>
    intro o' ho'
    rw [Option.some.injEq] at ho'
    subst ho'
    -- Those told with a ticket from before had gathered, and the others came later.
    rw [hregistrations, htellings, List.filterMap_append, ← hsettles.early]
    refine (List.filter_append_perm (fun c : Telling => decide (c.ticket < first)) _).symm.trans ?_
    exact hsettles.late.append_left _
  case ordered =>
    intro b o' a hcut
    rcases cut_unique hcut hgathers.undecided hsettles.undecided with ⟨rfl, rfl, rfl⟩
    have hearly : ∀ c ∈ tellings a,
        decide (c.ticket ∈ (registrations id b).map (·.ticket)) = decide (c.ticket < first) := by
      intro c hc
      rw [decide_eq_decide, hgathers.gathered, hgathers.tickets, List.mem_range'_1]
      omega
    rw [htellings, List.filter_congr hearly, hsettles.early, hgathers.gathered]
  case prompt =>
    intro b o' a hcut
    rcases cut_unique hcut hgathers.undecided hsettles.undecided with ⟨rfl, rfl, rfl⟩
    exact hsettles.prompt
  case answers =>
    intro ticket s a hmem
    simp only [List.mem_append, List.mem_cons, reduceCtorEq, false_or] at hmem
    rcases hmem with hmem | hmem
    · exact absurd hmem (hgathers.unanswered ticket s a)
    · rcases hsettles.answers ticket s a hmem with ⟨t, ht⟩
      exact Step.answers_of_reply ht

end

theorem Course.delivers {levels : Nat} {steps : List Step} {x : Exchange}
    (h : Course levels steps x) :
    Delivers x.current steps x.currentFuture.outcome? x.history.toList := by
  unfold Exchange.currentFuture
  rcases h with ⟨waiting, hfuture, hgathers⟩ |
    ⟨o, waiting, earlier, later, first, count, before, after, hfuture, rfl, hgathers,
      hsplit, -, hsettles⟩
  · rw [hfuture]
    exact hgathers.delivers
  · rw [hfuture, hsplit]
    exact hgathers.delivers_of_settles hsettles

/-- Nobody listens to the future that a script begins with. -/
theorem course_initial (levels : Nat) : Course levels [] Exchange.initial := by
  refine Course.pending [] rfl ⟨rfl, rfl, ?_, rfl, rfl, rfl, ?_⟩
  · exact fun ticket s a hmem => absurd hmem List.not_mem_nil
  · exact fun r hr => absurd hr List.not_mem_nil

/-- A listener that registers another one, tries to cancel and then raises an
    error; one that is not told; and one that comes late. -/
def reentrantScript : List Step :=
  [.listen .complete "first" [.listen .success "inner" [.cancel], .cancel,
      .raise (.mk "ValueError" none none)],
    .listen .failure "second" [], .resolve (.scalar (.bool true)), .listen .success "late" []]

end Docket
