import Docket.Proofs.Future.Course
import Docket.Proofs.Future.Passage

/-!
# Delivery to listeners

What follows the decision of a future.

The difficulty is that a listener is told while others are still waiting to be,
and may register, resolve or cancel meanwhile. Two facts cut this short. A
listener is told only after the future has changed its state, so whatever it
does to the future finds it decided: `perform_decided` shows that a step on a
decided future changes no future at all, and settles the registrations it makes
by itself. And a listener that is told registers only listeners that stand in
its own script, so levels of telling are used up no faster than the script is
(`tellsAt`). Telling those who waited, one after another, is then putting
together the stretches of history that each of them gives rise to.

## Main definitions

* `Step.isLocal`: A step that concerns one future and its listeners.
* `TellsAt`: So many levels are enough to settle what a listener is owed.

## Theorems

* `decideFuture_decided`: It is too late to decide a decided future.
* `perform_decided`: A step on a decided future settles what it registers.
* `tellsAt`: A listener that is told settles what it is owed.
* `notify_settles`: Telling those who waited settles what all of them are owed.
-/

namespace Docket

open Play

mutual

/-- Whether a step concerns only the future that steps are about: it decides it,
    listens to it or looks at it. So must the steps of listeners, and what they
    raise must be ordinary errors. -/
def Step.isLocal : Step → Bool
  | .resolve _ => true
  | .reject _ => true
  | .cancel => true
  | .get _ => true
  | .listen _ _ actions => areLocal actions
  | .listenValue .. => true
  | .rootFailure => true
  | .query _ => true
  | .sameFailure => true
  | .await => true
  | .awaitBriefly => true
  | .raise e => e.build.isOrdinary
  | _ => false

/-- Whether steps are all local. -/
def areLocal : List Step → Bool
  | [] => true
  | s :: rest => s.isLocal && areLocal rest

end

theorem isLocal_of_mem {steps : List Step} (h : areLocal steps = true) :
    ∀ s ∈ steps, s.isLocal = true := by
  induction steps with
  | nil => exact fun s hs => absurd hs List.not_mem_nil
  | cons t rest ih =>
      rw [areLocal, Bool.and_eq_true] at h
      intro s hs
      rcases List.mem_cons.mp hs with rfl | hs
      · exact h.1
      · exact ih h.2 s hs

theorem weight_le_of_mem {steps : List Step} : ∀ s ∈ steps, s.weight ≤ weights steps := by
  induction steps with
  | nil => exact fun s hs => absurd hs List.not_mem_nil
  | cons t rest ih =>
      intro s hs
      rw [weights]
      rcases List.mem_cons.mp hs with rfl | hs
      · omega
      · have hle := ih s hs
        omega

section

variable {x x' : Exchange} {o : Outcome} {levels : Nat}

/-- What there is to decide about a decided future is what the table says. -/
theorem offerReply_decide (o o' : Outcome) :
    ((Future.decided o : Future Listener).decide o' = .ok none ∧
        offerReply o' (some o) = .bool false) ∨
      ∃ e, (Future.decided o : Future Listener).decide o' = .error e ∧
        offerReply o' (some o) = .failed e := by
  cases o' with
  | cancelled => cases o <;> exact Or.inl ⟨rfl, rfl⟩
  | value w =>
      cases o with
      | cancelled => exact Or.inl ⟨rfl, rfl⟩
      | _ => exact Or.inr ⟨_, rfl, rfl⟩
  | failure e =>
      cases o with
      | cancelled => exact Or.inl ⟨rfl, rfl⟩
      | _ => exact Or.inr ⟨_, rfl, rfl⟩

/-- It is too late to decide a decided future. -/
theorem decideFuture_decided {o' : Outcome} {tell : Tell} {out : Except Failure Bool}
    (hx : x.futures[x.current]? = some (.decided o))
    (h : Yields (decideFuture tell x.current o') x out x') :
    Passes x x' 0 [] ∧ .ofExcept (out.map Reply.bool) = offerReply o' (some o) := by
  unfold decideFuture at h
  rw [yields_bind_ok (yields_future.mpr ⟨rfl, rfl⟩), hx, Option.getD_some] at h
  rcases offerReply_decide o o' with ⟨hdecide, hreply⟩ | ⟨e, hdecide, hreply⟩
  · rw [yields_bind_ok (yields_ofExcept.mpr ⟨hdecide.symm, rfl⟩)] at h
    -- What there is to say about a late outcome goes to the log.
    simp only [] at h
    by_cases hc : (!o'.isCancelled) = true
    · rw [if_pos hc] at h
      rcases yields_bind.mp h with ⟨u, m, h₁, h₂⟩ | ⟨e, h₁, -⟩
      · rcases yields_pure.mp h₂ with ⟨rfl, rfl⟩
        exact ⟨(yields_log h₁).2, hreply.symm⟩
      · exact absurd (yields_log h₁).1 error_ne_ok
    · rw [if_neg hc] at h
      rcases yields_pure.mp h with ⟨rfl, rfl⟩
      exact ⟨Passes.refl _, hreply.symm⟩
  · rw [yields_bind_error (yields_ofExcept.mpr ⟨hdecide.symm, rfl⟩)] at h
    rcases h with ⟨rfl, rfl⟩
    exact ⟨Passes.refl _, hreply.symm⟩

/-- A step that decides the future, without what it is decided with. -/
def deciding (tell : Tell) (o' : Outcome) : Play Reply := do
  return .bool (← decideFuture tell (← current) o')

/-- The answer to a step that comes too late to decide the future. -/
theorem deciding_decided {o' : Outcome} {tell : Tell} {out : Except Failure Reply}
    (hx : x.futures[x.current]? = some (.decided o)) (h : Yields (deciding tell o') x out x') :
    Passes x x' 0 [] ∧ .ofExcept out = offerReply o' (some o) := by
  unfold deciding at h
  rw [yields_bind_ok (yields_current.mpr ⟨rfl, rfl⟩)] at h
  rcases yields_bind.mp h with ⟨b, m, h₁, h₂⟩ | ⟨e, h₁, rfl⟩
  · rcases yields_pure.mp h₂ with ⟨rfl, rfl⟩
    exact decideFuture_decided hx h₁
  · exact decideFuture_decided hx h₁

/-- Telling a listener of a script, at some level, settles what it is owed. The
    level suffices if it is above the weight of what the listener does. -/
def TellsAt (levels : Nat) : Prop :=
  ∀ (x x' : Exchange) (o : Outcome) (id : Nat) (r : Registration Listener) (name : String)
    (actions : List Step) (out : Except Failure Unit),
    Yields (tellAt levels id o r) x out x' → x.futures[x.current]? = some (.decided o) →
      r.listener = .scripted name actions → areLocal actions = true →
        weights actions < levels → r.ticket < x.tickets →
          out = .ok () ∧ ∃ n events, Passes x x' n events ∧
            Settles x.current o [r] [] x.tickets n events

/-- Registering a listener on a decided future settles the registration. -/
theorem register_decided (htell : TellsAt levels) {kind : ListenerKind} {name : String}
    {actions : List Step} {out : Except Failure Nat} (hlocal : areLocal actions = true)
    (hweight : weights actions < levels) (hx : x.futures[x.current]? = some (.decided o))
    (h : Yields (register (tellAt levels) x.current kind (.scripted name actions)) x out x') :
    out = .ok x.tickets ∧ ∃ n events, Passes x x' n events ∧
      Settles x.current o [] [.listen kind name actions] x.tickets n events := by
  unfold register at h
  rw [yields_bind_ok (yields_ticket.mpr ⟨rfl, rfl⟩), yields_bind_ok (yields_future.mpr ⟨rfl, rfl⟩),
    hx, Option.getD_some] at h
  -- The registration is noted, and then the listener is told at once.
  have hnew : Passes x
      { x with
        tickets := x.tickets + 1
        history := x.history.push
          (.registered x.current ⟨x.tickets, kind, .scripted name actions⟩) }
      1 [.registered x.current ⟨x.tickets, kind, .scripted name actions⟩] :=
    ⟨rfl, rfl, rfl, rfl, rfl, Array.toList_push⟩
  rcases yields_bind.mp h with ⟨u, m, h₁, h₂⟩ | ⟨e, h₁, -⟩
  · rcases htell _ m o x.current _ name actions _ h₁ hx rfl hlocal hweight (Nat.lt_succ_self _) with
      ⟨-, n, events, hpass, hsettles⟩
    rw [yields_bind_ok (yields_note.mpr ⟨rfl, rfl⟩), yields_pure] at h₂
    rcases h₂ with ⟨rfl, rfl⟩
    refine ⟨rfl, n + 1, _, ?_, Settles.register rfl rfl hsettles⟩
    have hall := (hnew.trans hpass).trans (Passes.note m (.returned x.tickets))
    rw [Nat.add_zero, Nat.add_comm 1 n] at hall
    exact hall
  · exact absurd (htell _ x' o x.current _ name actions _ h₁ hx rfl hlocal hweight
      (Nat.lt_succ_self _)).1 error_ne_ok

/-- Steps that only look at a future are quiet. -/
theorem quiet_perform (tell : Tell) (s : Step) (hs : s.looks = true) :
    Quiet (s.perform tell) := by
  cases s with
  | get t =>
      rw [Step.perform]
      refine Quiet.bind ?_ fun t' => Quiet.bind Quiet.current fun id =>
        Quiet.bind (quiet_readLimit t') fun limit => quiet_waitFor id limit
      cases t with
      | none => exact Quiet.pure none
      | some e => exact Quiet.bind (quiet_build e) fun v => Quiet.pure _
  | listenValue kind v =>
      rw [Step.perform]
      exact Quiet.bind (quiet_build v) fun _ => Quiet.throw _
  | rootFailure =>
      rw [Step.perform]
      exact Quiet.bind Quiet.current fun id => Quiet.bind (Quiet.future id) fun f => Quiet.pure _
  | query q =>
      rw [Step.perform]
      exact Quiet.bind Quiet.current fun id => Quiet.bind (Quiet.future id) fun f => Quiet.pure _
  -- A failure that was raised is noted down beside the history, which stays as it is.
  | sameFailure =>
      rw [Step.perform]
      refine Quiet.bind Quiet.current fun id => Quiet.bind (quiet_waitFor id _).attempt fun r => ?_
      split
      · exact Quiet.bind Quiet.get fun y => Quiet.bind (quiet_waitFor id _).attempt fun _ =>
          Quiet.bind Quiet.get fun _ => Quiet.pure _
      · exact Quiet.pure _
  | await =>
      rw [Step.perform]
      exact Quiet.bind Quiet.current fun id => quiet_waitFor id _
  | awaitBriefly =>
      rw [Step.perform]
      refine Quiet.bind Quiet.current fun id => Quiet.bind (Quiet.future id) fun f => ?_
      split
      · exact Quiet.bind Quiet.current fun id => quiet_waitFor id _
      · exact Quiet.pure _
  | raise e =>
      rw [Step.perform]
      exact Quiet.throw _
  | _ => exact absurd hs (by simp only [Step.looks, Bool.false_eq_true, not_false_eq_true])

/-- Where a future is only looked at there is nothing to settle. -/
theorem settles_of_looking {s : Step} {out : Except Failure Reply} (hs : s.listener? = none)
    (hpass : Passes x x' 0 []) (hreply : s.reply? (some o) x.session = some (.ofExcept out)) :
    ∃ n events, Passes x x' n events ∧ Settles x.current o [] [s] x.tickets n events ∧
      s.reply? (some o) x.session = some (.ofExcept out) :=
  ⟨0, [], hpass, Settles.quiet _ _ _ hs, hreply⟩

/-- A step on a decided future settles the registrations it makes, and is answered
    by the outcome. -/
theorem perform_decided (htell : TellsAt levels) (s : Step) {out : Except Failure Reply}
    (hlocal : s.isLocal = true) (hweight : s.weight ≤ levels)
    (hx : x.futures[x.current]? = some (.decided o))
    (h : Yields (s.perform (tellAt levels)) x out x') :
    ∃ n events, Passes x x' n events ∧ Settles x.current o [] [s] x.tickets n events ∧
      s.reply? (some o) x.session = some (.ofExcept out) := by
  have hlooking : s.looks = true → s.listener? = none →
      ∃ n events, Passes x x' n events ∧ Settles x.current o [] [s] x.tickets n events ∧
        s.reply? (some o) x.session = some (.ofExcept out) :=
    fun hs hl => settles_of_looking hl (quiet_perform _ s hs x out x' h) (looking_reply s hs hx h)
  cases s with
  | resolve v =>
      rw [Step.perform] at h
      rw [Step.reply?]
      rcases yields_bind.mp h with ⟨w, m, h₁, h₂⟩ | ⟨e, h₁, rfl⟩
      · have hpass := quiet_build v x _ m h₁
        -- The value is built first, so what is wrong with it is answered even though it is
        -- too late for it.
        rcases deciding_decided (hpass.get hx) h₂ with ⟨hlate, hreply⟩
        rw [← (yields_build h₁).1]
        exact ⟨0, [], hpass.trans hlate, Settles.quiet _ _ _ rfl, congrArg some hreply.symm⟩
      · rw [← (yields_build h₁).1]
        exact ⟨0, [], quiet_build v x _ x' h₁, Settles.quiet _ _ _ rfl, rfl⟩
  | reject v =>
      rw [Step.perform] at h
      rcases yields_bind.mp h with ⟨w, m, h₁, h₂⟩ | ⟨e, h₁, rfl⟩
      · have hpass := quiet_build v x _ m h₁
        have hvalue := (yields_build h₁).1
        split at h₂
        next e =>
          rcases deciding_decided (hpass.get hx) h₂ with ⟨hlate, hreply⟩
          refine ⟨0, [], hpass.trans hlate, Settles.quiet _ _ _ rfl, ?_⟩
          rw [Step.reply?, ← hvalue, hreply]
        next hne =>
          rcases yields_throw.mp h₂ with ⟨rfl, rfl⟩
          exact ⟨0, [], hpass, Settles.quiet _ _ _ rfl, reply_reject_other hvalue.symm hne⟩
      · refine ⟨0, [], quiet_build v x _ x' h₁, Settles.quiet _ _ _ rfl, ?_⟩
        rw [Step.reply?, ← (yields_build h₁).1]
        rfl
  | cancel =>
      rw [Step.perform] at h
      rcases deciding_decided hx h with ⟨hlate, hreply⟩
      exact settles_of_looking rfl hlate (congrArg some hreply.symm)
  | listen kind name actions =>
      rw [Step.isLocal] at hlocal
      rw [Step.weight] at hweight
      rw [Step.perform, yields_bind_ok (yields_current.mpr ⟨rfl, rfl⟩)] at h
      rcases yields_bind.mp h with ⟨ticket, m, h₁, h₂⟩ | ⟨e, h₁, -⟩
      · rcases yields_pure.mp h₂ with ⟨rfl, rfl⟩
        rcases (register_decided htell hlocal (by omega) hx h₁).2 with
          ⟨n, events, hpass, hsettles⟩
        exact ⟨n, events, hpass, hsettles, rfl⟩
      · exact absurd (register_decided htell hlocal (by omega) hx h₁).1
          error_ne_ok
  | get t => exact hlooking rfl rfl
  | listenValue kind v => exact hlooking rfl rfl
  | rootFailure => exact hlooking rfl rfl
  | query q => exact hlooking rfl rfl
  | sameFailure => exact hlooking rfl rfl
  | await => exact hlooking rfl rfl
  | awaitBriefly => exact hlooking rfl rfl
  | raise e => exact hlooking rfl rfl
  | _ => exact absurd hlocal (by simp only [Step.isLocal, Bool.false_eq_true, not_false_eq_true])

/-- What a listener does when it is told settles the registrations it makes. If
    it raises an error, that is an ordinary one. -/
theorem act_decided (htell : TellsAt levels) (ticket : Nat) (actions : List Step)
    (hlocal : areLocal actions = true) (hweight : weights actions ≤ levels) :
    ∀ {x x' : Exchange} {out : Except Failure Unit},
      Yields (act (tellAt levels) ticket actions) x out x' →
        x.futures[x.current]? = some (.decided o) →
          (∀ e, out = .error e → e.isOrdinary = true) ∧
            ∃ n events, Passes x x' n events ∧ Settles x.current o [] [] x.tickets n events := by
  induction actions with
  | nil =>
      intro x x' out h hx
      rw [act, yields_pure] at h
      rcases h with ⟨rfl, rfl⟩
      exact ⟨fun e he => absurd he ok_ne_error,
        0, [], Passes.refl _, Settles.nil _ _ _⟩
  | cons s rest ih =>
      intro x x' out h hx
      rw [areLocal, Bool.and_eq_true] at hlocal
      rw [weights] at hweight
      -- What a listener raises ends it, and all its other steps are answered.
      by_cases hraise : ∃ e, s = .raise e
      · rcases hraise with ⟨e, rfl⟩
        rw [act, yields_throw] at h
        rcases h with ⟨rfl, rfl⟩
        refine ⟨?_, 0, [], Passes.refl _, Settles.nil _ _ _⟩
        intro e' he
        rw [← Except.error.inj he]
        exact hlocal.1
      · rw [act] at h
        · rcases yields_bind.mp h with ⟨a, m, h₁, h₂⟩ | ⟨e, h₁, -⟩
          · rcases yields_answered.mp h₁ with ⟨r, hr, ha⟩
            rw [Except.ok.injEq] at ha
            rcases perform_decided htell s hlocal.1 (by omega) hx hr with
              ⟨n, events, hpass, hsettles, hreply⟩
            rw [yields_bind_ok (yields_note.mpr ⟨rfl, rfl⟩)] at h₂
            rcases ih hlocal.2 (by omega) h₂ (hpass.get hx) with
              ⟨hout, n', events', hpass', hsettles'⟩
            rw [hpass.current, hpass.tickets] at hsettles'
            rw [← ha] at hreply
            refine ⟨hout, n + 0 + n', _, (hpass.trans (Passes.note m _)).trans hpass', ?_⟩
            exact (hsettles.answered ticket ⟨x.session, hreply⟩).append hsettles'
              (fun r hr => absurd hr List.not_mem_nil)
          · rcases yields_answered.mp h₁ with ⟨r, -, ha⟩
            exact absurd ha error_ne_ok
        · exact fun e he => hraise ⟨e, he⟩

/-- A listener that is told settles what it is owed, at every level. -/
theorem tellsAt (levels : Nat) : TellsAt levels := by
  induction levels with
  | zero =>
      intro x x' o id r name actions out h hx hl hlocal hweight
      exact absurd hweight (Nat.not_lt_zero _)
  | succ n ih =>
      intro x x' o id r name actions out h hx hl hlocal hweight hticket
      rw [tellAt, tellWith] at h
      cases htold : o.told r.kind with
      | none =>
          rw [htold, yields_pure] at h
          rcases h with ⟨rfl, rfl⟩
          have hcall : r.call? o = none := by
            simp only [Registration.call?, hl, htold, Option.map_none]
          exact ⟨rfl, 0, [], Passes.refl _, Settles.untold hcall (Settles.nil _ _ _)⟩
      | some args =>
          have hcall : r.call? o = some ⟨r.ticket, name, args⟩ := by
            simp only [Registration.call?, hl, htold, Option.map_some]
          simp only [htold, hl, Listener.call] at h
          -- The level below is that of the listeners which this one tells, and the error of
          -- this one is only logged, so either way what it did is settled.
          rcases yields_handling.mp h with ⟨h₁, rfl⟩ | ⟨e, m, h₁, h₂⟩
          · rw [yields_bind_ok (yields_note.mpr ⟨rfl, rfl⟩)] at h₁
            rcases act_decided ih r.ticket actions hlocal (by omega) h₁ hx with
              ⟨-, k, events, hpass, hsettles⟩
            refine ⟨rfl, 0 + k, _, (Passes.note x _).trans hpass, ?_⟩
            rw [Nat.zero_add]
            exact Settles.told hcall hticket hsettles
          · rw [yields_bind_ok (yields_note.mpr ⟨rfl, rfl⟩)] at h₁
            rcases act_decided ih r.ticket actions hlocal (by omega) h₁ hx with
              ⟨hordinary, k, events, hpass, hsettles⟩
            rw [if_pos (hordinary e rfl)] at h₂
            rcases yields_log h₂ with ⟨rfl, hlog⟩
            refine ⟨rfl, 0 + k, _, ((Passes.note x _).trans hpass).trans hlog, ?_⟩
            rw [Nat.zero_add, List.append_nil]
            exact Settles.told hcall hticket hsettles

/-- Telling listeners one after another settles what all of them are owed. -/
theorem notify_settles (id : Nat) (owed : List (Registration Listener))
    (howed : ∀ r ∈ owed, ∃ name actions, r.listener = .scripted name actions ∧
      areLocal actions = true ∧ weights actions < levels) :
    ∀ {x x' : Exchange} {out : Except Failure Unit}, x.futures[x.current]? = some (.decided o) →
      (∀ r ∈ owed, r.ticket < x.tickets) → Yields (notify (tellAt levels) id o owed) x out x' →
        out = .ok () ∧ ∃ n events, Passes x x' n events ∧
          Settles x.current o owed [] x.tickets n events := by
  induction owed with
  | nil =>
      intro x x' out hx hticket h
      rw [notify, yields_pure] at h
      rcases h with ⟨rfl, rfl⟩
      exact ⟨rfl, 0, [], Passes.refl _, Settles.nil _ _ _⟩
  | cons r rest ih =>
      intro x x' out hx hticket h
      rcases howed r List.mem_cons_self with ⟨name, actions, hl, hlocal, hweight⟩
      rw [notify] at h
      rcases yields_bind.mp h with ⟨u, m, h₁, h₂⟩ | ⟨e, h₁, -⟩
      · rcases tellsAt levels x m o id r name actions _ h₁ hx hl hlocal hweight
          (hticket r List.mem_cons_self) with ⟨-, n, events, hpass, hsettles⟩
        -- Tickets are only given out, so those of the rest stay below the next one.
        have hrest : ∀ q ∈ rest, q.ticket < x.tickets :=
          fun q hq => hticket q (List.mem_cons_of_mem r hq)
        rcases ih (fun q hq => howed q (List.mem_cons_of_mem r hq)) (hpass.get hx)
          (fun q hq => by rw [hpass.tickets]; have hlt := hrest q hq; omega) h₂ with
          ⟨hout, n', events', hpass', hsettles'⟩
        rw [hpass.current, hpass.tickets] at hsettles'
        exact ⟨hout, n + n', _, hpass.trans hpass', hsettles.append hsettles' hrest⟩
      · exact absurd (tellsAt levels x x' o id r name actions _ h₁ hx hl hlocal hweight
          (hticket r List.mem_cons_self)).1 error_ne_ok

end

end Docket
