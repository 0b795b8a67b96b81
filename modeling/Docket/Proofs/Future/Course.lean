import Docket.Proofs.Future.Reply

/-!
# The course of a future

What a history says about one future, and what it should say once the future is
decided.

Before a future is decided its history is a list of registrations. From the
decision on two kinds of listeners have to be told: those that were waiting, who
are *owed* the outcome, and those that are registered later, perhaps by a
listener while it is being told. `Settles` says of a stretch of history after the
decision that it tells exactly those it has to. The two kinds are kept apart by
their tickets: whoever is owed has a ticket from before the stretch, and whoever
registers within it gets one of its own, so that stretches can be put together
(`Settles.append`) although the tellings of the two kinds are interleaved.

## Main definitions

* `registrations`, `tellings`, `decisions`: What a history says.
* `Registration.call?`: What a registration comes to, given the outcome.
* `Step.Answers`: The answers to a step that are the step's own doing.
* `Settles`: A stretch of history tells those it has to.

## Theorems

* `Settles.nil`: Nothing has to be told where nothing happens.
* `Settles.append`: Stretches of history follow one another.
* `Settles.answered`: The answer to a step tells nobody.
* `Settles.told`, `Settles.untold`: A listener that was owed gets what it is owed.
* `Settles.register`: A registration is settled before it returns.
-/

namespace Docket

/-- A listener told: its ticket, its name and what it was told. -/
structure Telling where
  ticket : Nat
  name : String
  args : List Value

/-- The registrations on a future, in order. -/
def registrations (id : Nat) (events : List Event) : List (Registration Listener) :=
  events.filterMap fun
    | .registered future r => if future = id then some r else none
    | _ => none

/-- The listeners told, in order. -/
def tellings (events : List Event) : List Telling :=
  events.filterMap fun
    | .told ticket name args => some ⟨ticket, name, args⟩
    | _ => none

/-- The call of a listener as a telling. -/
def Call.telling (c : Call) : Telling := ⟨c.ticket, c.name, c.args⟩

/-- The outcomes that a future was decided with. -/
def decisions (id : Nat) (events : List Event) : List Outcome :=
  events.filterMap fun
    | .decided future o => if future = id then some o else none
    | _ => none

/-- What the registration of a scripted listener comes to: the listener is told
    the outcome if it is of a kind that is told about it, and else nothing. -/
def Registration.call? (r : Registration Listener) (o : Outcome) : Option Telling :=
  match r.listener with
  | .scripted name _ => (o.told r.kind).map fun args => ⟨r.ticket, name, args⟩
  | _ => none

/-- What a step registers, if it registers a listener. -/
def Step.listener? : Step → Option (ListenerKind × Listener)
  | .listen kind name actions => some (kind, .scripted name actions)
  | _ => none

/-- The steps that listeners took, in the order in which they ended. -/
def stepsTaken (events : List Event) : List Step :=
  events.filterMap fun
    | .answered _ s _ => some s
    | _ => none

/-- The answers to a step that are the step's own doing. Registering and
    cancelling do not fail; to decide a future otherwise fails if it was decided
    before or if there is nothing to decide it with. -/
def Step.Answers : Step → Reply → Prop
  | .listen .., a => a = .bool true
  | .cancel, a => ∃ b, a = .bool b
  | .resolve v, a => (∃ b, a = .bool b) ∨ (∃ state, a = .failed (.alreadyResolved state)) ∨
      ∃ e s s', Yields (v.build []) s (.error e) s' ∧ a = .failed e
  | .reject v, a => (∃ b, a = .bool b) ∨ (∃ state, a = .failed (.alreadyResolved state)) ∨
      (∃ e s s', Yields (v.build []) s (.error e) s' ∧ a = .failed e) ∨
      ∃ w : Value, a = .failed (.typeError ("error must be an exception, got " ++ w.typeName))
  | _, _ => True

/-- What is answered to an offer is the step's own doing. -/
theorem offerReply_cases (offered : Outcome) (o : Option Outcome) :
    (∃ b, offerReply offered o = .bool b) ∨
      offered ≠ .cancelled ∧ ∃ state, offerReply offered o = .failed (.alreadyResolved state) := by
  rcases o with _ | v | e | _
  · exact Or.inl ⟨true, rfl⟩
  · cases offered with
    | cancelled => exact Or.inl ⟨false, rfl⟩
    | _ => exact Or.inr ⟨nofun, _, rfl⟩
  · cases offered with
    | cancelled => exact Or.inl ⟨false, rfl⟩
    | _ => exact Or.inr ⟨nofun, _, rfl⟩
  · cases offered <;> exact Or.inl ⟨false, rfl⟩

/-- So is every reply. -/
theorem Step.answers_of_reply {s : Step} {o : Option Outcome} {t : Session} {a : Reply}
    (h : s.reply? o t = some a) : s.Answers a := by
  -- An argument that cannot be built.
  have hbuilt : ∀ {v : Expr} {e : Failure}, v.valueIn t = .error e →
      ∃ e' s s', Yields (v.build []) s (.error e') s' ∧ Reply.failed e = .failed e' :=
    fun {v e} he => ⟨e, t, ((v.build []).run.run t).2, Prod.ext he rfl, rfl⟩
  cases s with
  | listen kind name actions => exact (Option.some.inj h).symm
  | cancel =>
      rw [Step.reply?, Option.some.injEq] at h
      subst h
      rcases offerReply_cases .cancelled o with hbool | ⟨hne, -⟩
      · exact hbool
      · exact absurd rfl hne
  | resolve v =>
      rw [Step.reply?] at h
      rw [Step.Answers]
      cases hv : v.valueIn t with
      | error e =>
          rw [hv, Option.some.injEq] at h
          subst h
          exact Or.inr (Or.inr (hbuilt hv))
      | ok w =>
          rw [hv, Option.some.injEq] at h
          subst h
          rcases offerReply_cases (.value w) o with hbool | ⟨-, hstate⟩
          · exact Or.inl hbool
          · exact Or.inr (Or.inl hstate)
  | reject v =>
      rw [Step.reply?] at h
      rw [Step.Answers]
      cases hv : v.valueIn t with
      | error e =>
          rw [hv, Option.some.injEq] at h
          subst h
          exact Or.inr (Or.inr (Or.inl (hbuilt hv)))
      | ok w =>
          rw [hv] at h
          split at h
          next e heq =>
            rw [Option.some.injEq] at h
            subst h
            rcases offerReply_cases (.failure e) o with hbool | ⟨-, hstate⟩
            · exact Or.inl hbool
            · exact Or.inr (Or.inl hstate)
          next w' hne heq =>
            rw [Option.some.injEq] at h
            exact Or.inr (Or.inr (Or.inr ⟨w', h.symm⟩))
          next e heq => exact absurd heq ok_ne_error
  | _ => trivial

section

variable {id : Nat} {o : Outcome}

@[simp] theorem registrations_nil : registrations id [] = [] := rfl

@[simp] theorem stepsTaken_nil : stepsTaken [] = [] := rfl

@[simp] theorem registrations_append (a b : List Event) :
    registrations id (a ++ b) = registrations id a ++ registrations id b :=
  List.filterMap_append

@[simp] theorem tellings_append (a b : List Event) :
    tellings (a ++ b) = tellings a ++ tellings b :=
  List.filterMap_append

@[simp] theorem decisions_append (a b : List Event) :
    decisions id (a ++ b) = decisions id a ++ decisions id b :=
  List.filterMap_append

/-- A history that holds a decision decides something. -/
theorem decisions_ne_nil (before after : List Event) (o : Outcome) :
    decisions id (before ++ .decided id o :: after) ≠ [] := by
  intro h
  rw [decisions_append, List.append_eq_nil_iff] at h
  exact absurd h.2 (by simp only [decisions, List.filterMap_cons, if_true, reduceCtorEq,
    not_false_eq_true])

@[simp] theorem stepsTaken_append (a b : List Event) :
    stepsTaken (a ++ b) = stepsTaken a ++ stepsTaken b :=
  List.filterMap_append

/-- The calls made in a stretch of history are its tellings. -/
theorem tellings_callsOf (events : List Event) :
    (callsOf events).map Call.telling = tellings events := by
  unfold callsOf tellings
  rw [List.map_filterMap]
  congr 1
  funext e
  cases e <;> rfl

/-- Every registration in a stretch of history is followed, before it returns, by
    what it comes to. -/
def Prompt (id : Nat) (o : Outcome) (events : List Event) : Prop :=
  ∀ before r after, events = before ++ .registered id r :: after →
    ∃ during rest, after = during ++ .returned r.ticket :: rest ∧
      .returned r.ticket ∉ during ∧
      (tellings during).filter (fun c => decide (c.ticket = r.ticket)) = (r.call? o).toList

theorem prompt_of_unregistered {events : List Event} (h : registrations id events = []) :
    Prompt id o events := by
  rintro before r after rfl
  rw [registrations_append, List.append_eq_nil_iff] at h
  exact absurd h.2 (by simp only [registrations, List.filterMap_cons, if_true, reduceCtorEq,
    not_false_eq_true])

theorem prompt_append {a b : List Event} (ha : Prompt id o a) (hb : Prompt id o b) :
    Prompt id o (a ++ b) := by
  intro before r after h
  rcases List.append_eq_append_iff.mp h with ⟨mid, rfl, hmid⟩ | ⟨mid, hmid, hafter⟩
  · exact hb mid r after hmid
  · cases mid with
    | nil => exact hb [] r after hafter.symm
    | cons e mid =>
        rw [List.cons_append, List.cons.injEq] at hafter
        rcases hafter with ⟨rfl, rfl⟩
        rcases ha before r mid hmid with ⟨during, rest, rfl, hduring, htold⟩
        refine ⟨during, rest ++ b, ?_, hduring, htold⟩
        rw [List.append_assoc, List.cons_append]

/-- A stretch of history after a future was decided, in which some steps are
    taken, tells those it has to: the listeners that are owed, in order, and
    those that are registered within the stretch, each before its registration
    returns. The tickets below `first` are those from before the stretch. -/
structure Settles (id : Nat) (o : Outcome) (owed : List (Registration Listener))
    (steps : List Step) (first count : Nat) (events : List Event) : Prop where
  undecided : decisions id events = []
  made : ((registrations id events).map fun r => (r.kind, r.listener)).Perm
    ((steps ++ stepsTaken events).filterMap Step.listener?)
  tickets : (registrations id events).map (·.ticket) = List.range' first count
  early : (tellings events).filter (fun c => decide (c.ticket < first)) =
    owed.filterMap (·.call? o)
  late : ((tellings events).filter fun c => !decide (c.ticket < first)).Perm
    ((registrations id events).filterMap (·.call? o))
  prompt : Prompt id o events
  returns : ∀ ticket, .returned ticket ∈ events → first ≤ ticket
  answers : ∀ ticket s a, .answered ticket s a ∈ events → ∃ t, s.reply? (some o) t = some a

theorem call?_ticket {r : Registration Listener} {c : Telling} (h : r.call? o = some c) :
    c.ticket = r.ticket := by
  unfold Registration.call? at h
  rcases hl : r.listener with ⟨name, actions⟩ | _ | _
  · rw [hl] at h
    rcases Option.map_eq_some_iff.mp h with ⟨args, -, rfl⟩
    rfl
  · rw [hl] at h
    exact absurd h (by simp only [reduceCtorEq, not_false_eq_true])
  · rw [hl] at h
    exact absurd h (by simp only [reduceCtorEq, not_false_eq_true])

/-- What registrations come to has their tickets. -/
theorem ticket_of_mem_calls {rs : List (Registration Listener)} {c : Telling}
    (h : c ∈ rs.filterMap (·.call? o)) : ∃ r ∈ rs, r.call? o = some c ∧ c.ticket = r.ticket := by
  rcases List.mem_filterMap.mp h with ⟨r, hr, hc⟩
  exact ⟨r, hr, hc, call?_ticket hc⟩

namespace Settles

variable {owed owed₁ owed₂ : List (Registration Listener)} {steps steps₁ steps₂ : List Step}
  {first count n₁ n₂ : Nat}
  {events events₁ events₂ : List Event}

theorem ticket_of_registered (h : Settles id o owed steps first count events)
    {r : Registration Listener} (hr : r ∈ registrations id events) :
    first ≤ r.ticket ∧ r.ticket < first + count := by
  have hmem : r.ticket ∈ List.range' first count := by
    rw [← h.tickets]
    exact List.mem_map_of_mem hr
  rw [List.mem_range'_1] at hmem
  exact hmem

/-- Whoever is told was owed, or was registered within the stretch. -/
theorem told_of_mem (h : Settles id o owed steps first count events) {c : Telling}
    (hc : c ∈ tellings events) :
    (∃ r ∈ owed, r.call? o = some c) ∨ ∃ r ∈ registrations id events, r.call? o = some c := by
  -- The ticket tells which of them it was.
  by_cases hlt : c.ticket < first
  · left
    have hmem : c ∈ owed.filterMap (·.call? o) := by
      rw [← h.early]
      exact List.mem_filter.mpr ⟨hc, decide_eq_true hlt⟩
    rcases ticket_of_mem_calls hmem with ⟨r, hr, hcall, -⟩
    exact ⟨r, hr, hcall⟩
  · right
    have hmem : c ∈ (registrations id events).filterMap (·.call? o) := by
      rw [← h.late.mem_iff]
      exact List.mem_filter.mpr ⟨hc, by simp only [hlt, decide_false, Bool.not_false]⟩
    rcases ticket_of_mem_calls hmem with ⟨r, hr, hcall, -⟩
    exact ⟨r, hr, hcall⟩

/-- Steps that register nobody, and of which there is no trace. -/
theorem untraced {steps : List Step} (id : Nat) (o : Outcome) (first : Nat)
    (hsteps : steps.filterMap Step.listener? = []) : Settles id o [] steps first 0 [] where
  undecided := rfl
  made := by
    simp only [registrations_nil, List.map_nil, stepsTaken_nil, List.append_nil, hsteps,
      List.Perm.refl]
  tickets := rfl
  early := rfl
  late := List.Perm.nil
  prompt := prompt_of_unregistered rfl
  returns := by
    intro ticket h
    exact absurd h List.not_mem_nil
  answers := by
    intro ticket s a h
    exact absurd h List.not_mem_nil

theorem quiet {s : Step} (id : Nat) (o : Outcome) (first : Nat) (hs : s.listener? = none) :
    Settles id o [] [s] first 0 [] :=
  untraced id o first (List.filterMap_cons_none hs)

theorem nil (id : Nat) (o : Outcome) (first : Nat) : Settles id o [] [] first 0 [] :=
  untraced id o first rfl

/-- Stretches of history follow one another. The second one may tell listeners
    that were owed before the first. -/
theorem append (h₁ : Settles id o owed₁ steps₁ first n₁ events₁)
    (h₂ : Settles id o owed₂ steps₂ (first + n₁) n₂ events₂)
    (howed : ∀ r ∈ owed₂, r.ticket < first) :
    Settles id o (owed₁ ++ owed₂) (steps₁ ++ steps₂) first (n₁ + n₂) (events₁ ++ events₂) := by
  -- Nobody told in the second stretch has a ticket from the first one.
  have hlow : ∀ c ∈ tellings events₂,
      decide (c.ticket < first) = decide (c.ticket < first + n₁) := by
    intro c hc
    rw [decide_eq_decide]
    rcases h₂.told_of_mem hc with ⟨r, hr, hcall⟩ | ⟨r, hr, hcall⟩
    · have hlt := howed r hr
      rw [call?_ticket hcall]
      omega
    · have hge := (h₂.ticket_of_registered hr).1
      rw [call?_ticket hcall]
      omega
  have hhigh : ∀ c ∈ tellings events₂,
      (!decide (c.ticket < first)) = !decide (c.ticket < first + n₁) := by
    intro c hc
    rw [hlow c hc]
  constructor
  case undecided =>
    rw [decisions_append, h₁.undecided, h₂.undecided]
    rfl
  case made =>
    have hmade := h₁.made.append h₂.made
    simp only [registrations_append, List.map_append, stepsTaken_append, List.filterMap_append,
      List.append_assoc] at hmade ⊢
    refine hmade.trans (List.Perm.append_left _ ?_)
    rw [← List.append_assoc, ← List.append_assoc]
    exact List.Perm.append_right _ List.perm_append_comm
  case tickets =>
    rw [registrations_append, List.map_append, h₁.tickets, h₂.tickets, List.range'_append_1]
  case early =>
    rw [tellings_append, List.filter_append, h₁.early, List.filter_congr hlow, h₂.early,
      List.filterMap_append]
  case late =>
    rw [tellings_append, List.filter_append, registrations_append, List.filterMap_append,
      List.filter_congr hhigh]
    exact h₁.late.append h₂.late
  case prompt => exact prompt_append h₁.prompt h₂.prompt
  case returns =>
    intro ticket h
    rcases List.mem_append.mp h with h | h
    · exact h₁.returns ticket h
    · exact Nat.le_trans (Nat.le_add_right first n₁) (h₂.returns ticket h)
  case answers =>
    intro ticket s a h
    rcases List.mem_append.mp h with h | h
    · exact h₁.answers ticket s a h
    · exact h₂.answers ticket s a h

/-- The answer to a step that a listener took tells nobody. -/
theorem answered {s : Step} {a : Reply} (ticket : Nat) (hreply : ∃ t, s.reply? (some o) t = some a)
    (h : Settles id o owed [s] first count events) :
    Settles id o owed [] first count (events ++ [.answered ticket s a]) := by
  -- The answer is neither a telling nor a registration.
  have htellings : tellings (events ++ [.answered ticket s a]) = tellings events := by
    rw [tellings_append]
    exact List.append_nil _
  have hregistrations : registrations id (events ++ [.answered ticket s a]) =
      registrations id events := by
    rw [registrations_append]
    exact List.append_nil _
  constructor
  case undecided =>
    rw [decisions_append, h.undecided]
    rfl
  case made =>
    rw [hregistrations, stepsTaken_append]
    refine h.made.trans (List.Perm.filterMap _ ?_)
    exact List.perm_append_comm
  case tickets => rw [hregistrations, h.tickets]
  case early => rw [htellings, h.early]
  case late =>
    rw [htellings, hregistrations]
    exact h.late
  case prompt => exact prompt_append h.prompt (prompt_of_unregistered rfl)
  case returns =>
    intro t hmem
    simp only [List.mem_append, List.mem_singleton, reduceCtorEq, or_false] at hmem
    exact h.returns t hmem
  case answers =>
    intro t s' a' hmem
    rcases List.mem_append.mp hmem with hmem | hmem
    · exact h.answers t s' a' hmem
    · rw [List.mem_singleton] at hmem
      cases hmem
      exact hreply

/-- A listener that was owed is told, and what it does then follows. -/
theorem told {r : Registration Listener} {name : String} {args : List Value}
    (hcall : r.call? o = some ⟨r.ticket, name, args⟩) (hlt : r.ticket < first)
    (h : Settles id o [] [] first count events) :
    Settles id o [r] [] first count (.told r.ticket name args :: events) where
  undecided := h.undecided
  made := h.made
  tickets := h.tickets
  -- The ticket is an early one, so that the telling counts among the early ones only.
  early := by
    have hearly := h.early
    simp only [tellings, List.filterMap_cons, List.filterMap_nil, hcall] at hearly ⊢
    rw [List.filter_cons, if_pos (decide_eq_true hlt), hearly]
  late := by
    have hlate := h.late
    simp only [tellings, registrations, List.filterMap_cons] at hlate ⊢
    rw [List.filter_cons_of_neg (by simp only [hlt, decide_true, Bool.not_true,
      Bool.false_eq_true, not_false_eq_true])]
    exact hlate
  prompt := prompt_append (a := [.told r.ticket name args]) (prompt_of_unregistered rfl) h.prompt
  returns := by
    intro t hmem
    exact h.returns t (List.mem_of_ne_of_mem (by simp only [ne_eq, reduceCtorEq,
      not_false_eq_true]) hmem)
  answers := by
    intro t s a hmem
    exact h.answers t s a (List.mem_of_ne_of_mem (by simp only [ne_eq, reduceCtorEq,
      not_false_eq_true]) hmem)

/-- A listener of a kind that is not told about the outcome is owed nothing. -/
theorem untold {r : Registration Listener} (hcall : r.call? o = none)
    (h : Settles id o [] [] first count events) : Settles id o [r] [] first count events where
  undecided := h.undecided
  made := h.made
  tickets := h.tickets
  early := by
    rw [h.early]
    simp only [List.filterMap_cons, List.filterMap_nil, hcall]
  late := h.late
  prompt := h.prompt
  returns := h.returns
  answers := h.answers

/-- Where only the listener with the last ticket was owed, nobody with an earlier ticket
    is told. -/
theorem not_early {r : Registration Listener} (hr : r.ticket = first)
    (h : Settles id o [r] [] (first + 1) count events) :
    ∀ c ∈ tellings events, ¬ c.ticket < first := by
  intro c hc
  rcases h.told_of_mem hc with ⟨r', hr', hcall⟩ | ⟨r', hr', hcall⟩
  · rw [List.mem_singleton] at hr'
    rw [call?_ticket hcall, hr', hr]
    omega
  · have hge := (h.ticket_of_registered hr').1
    rw [call?_ticket hcall]
    omega

/-- What that listener is told is all that is told to a listener with its ticket. -/
theorem tellings_of_owed {r : Registration Listener} (hr : r.ticket = first)
    (h : Settles id o [r] [] (first + 1) count events) :
    (tellings events).filter (fun c => decide (c.ticket = r.ticket)) = (r.call? o).toList := by
  -- No ticket is below its own, so to have its ticket is to be told early.
  have hsame : ∀ c ∈ tellings events,
      decide (c.ticket = r.ticket) = decide (c.ticket < first + 1) := by
    intro c hc
    have hge := h.not_early hr c hc
    rw [decide_eq_decide, hr]
    omega
  rw [List.filter_congr hsame, h.early]
  simp only [List.filterMap_cons, List.filterMap_nil]
  cases r.call? o <;> rfl

/-- A registration after the decision is settled before it returns. The stretch
    in between treats the new listener as one that is owed. -/
theorem register {r : Registration Listener} {s : Step}
    (hs : s.listener? = some (r.kind, r.listener)) (hr : r.ticket = first)
    (h : Settles id o [r] [] (first + 1) count events) :
    Settles id o [] [s] first (count + 1)
      (.registered id r :: events ++ [.returned r.ticket]) := by
  have htellings : tellings (.registered id r :: events ++ [.returned r.ticket]) =
      tellings events := by
    simp only [tellings, List.filterMap_append, List.filterMap_cons, List.filterMap_nil,
      List.cons_append, List.append_nil]
  have hregistrations : registrations id (.registered id r :: events ++ [.returned r.ticket]) =
      r :: registrations id events := by
    simp only [registrations, List.filterMap_append, List.filterMap_cons, List.filterMap_nil,
      List.cons_append, List.append_nil, if_true]
  -- The tickets within are new, so whoever is told from before is the listener itself.
  have hticket := h.not_early hr
  constructor
  case undecided =>
    have hund := h.undecided
    simp only [decisions, List.filterMap_append, List.filterMap_cons, List.filterMap_nil,
      List.cons_append, List.append_nil] at hund ⊢
    exact hund
  case made =>
    have htaken : stepsTaken (.registered id r :: events ++ [.returned r.ticket]) =
        stepsTaken events := by
      simp only [stepsTaken, List.filterMap_append, List.filterMap_cons, List.filterMap_nil,
        List.cons_append, List.append_nil]
    rw [htaken, hregistrations, List.map_cons, List.cons_append, List.filterMap_cons, hs]
    exact h.made.cons _
  case tickets =>
    rw [hregistrations, List.map_cons, h.tickets, hr]
    rfl
  case early =>
    rw [htellings, List.filterMap_nil, List.filter_eq_nil_iff]
    intro c hc
    rw [decide_eq_true_eq]
    exact hticket c hc
  case late =>
    rw [htellings, hregistrations]
    have hall : (tellings events).filter (fun c => !decide (c.ticket < first)) =
        tellings events := by
      rw [List.filter_eq_self]
      intro c hc
      simp only [hticket c hc, decide_false, Bool.not_false]
    rw [hall, List.filterMap_cons]
    -- It is told early within the stretch, and is one of the registered to those outside.
    have hperm := (List.filter_append_perm (fun c : Telling => decide (c.ticket < first + 1))
      (tellings events)).symm
    rw [h.early] at hperm
    refine hperm.trans ?_
    simp only [List.filterMap_cons, List.filterMap_nil]
    cases r.call? o with
    | none => exact h.late
    | some c => exact h.late.cons c
  case prompt =>
    intro before r' after heq
    rw [List.cons_append] at heq
    rcases List.cons_eq_append_iff.mp heq with ⟨rfl, hcons⟩ | ⟨before', rfl, hevents⟩
    · rw [List.cons.injEq] at hcons
      rcases hcons with ⟨hr', rfl⟩
      cases hr'
      -- The return after the stretch is its own, since those within have later tickets.
      refine ⟨events, [], rfl, ?_, h.tellings_of_owed hr⟩
      intro hmem
      have hge := h.returns r.ticket hmem
      omega
    · exact prompt_append h.prompt (prompt_of_unregistered rfl) before' r' after hevents
  case returns =>
    intro t hmem
    simp only [List.cons_append, List.mem_cons, List.mem_append, reduceCtorEq, false_or,
      Event.returned.injEq, List.not_mem_nil, or_false] at hmem
    rcases hmem with hmem | rfl
    · exact Nat.le_trans (Nat.le_succ first) (h.returns t hmem)
    · exact Nat.le_of_eq hr.symm
  case answers =>
    intro t s a hmem
    simp only [List.cons_append, List.mem_cons, List.mem_append, reduceCtorEq, false_or,
      List.not_mem_nil, or_false] at hmem
    exact h.answers t s a hmem

end Settles

end

end Docket
