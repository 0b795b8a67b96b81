import Docket.Proofs.Causes.Wrapping
import Docket.Proofs.Future.Coupling
import Docket.Proofs.Future.Lasting
import Docket.Proofs.Future.Reply

/-!
# Failures handed on

Actions often fail because another one did: whoever waits for the first is raised a
failure around the one it failed with, and lets the second action fail with that.
Along such a relay the failures grow, but the root stays the same, and every future
of the relay names it, now and later.

A relay is said of an exchange in which other things go on as well. Between any two
of its moves anything may happen that leaves decided futures alone, and nothing else
can (`Exchange.lasts_playFrom`). Listeners of its futures are told as they are
rejected, and may do what they like.

Failures are values and run in no circles. That the same holds of errors that are
known by number, where the first one may be part of a circle of causes, is
`Errors.relay_sharesRoot`, and `StandsFor` is how the two ways of telling agree.

## Main definitions

* `Relay`: Futures that fail one because of the other.

## Theorems

* `decided_of_decideFuture`: A pending future has the outcome it is decided with.
* `exists_relay`: From every exchange there are relays of all lengths.
* `Relay.futures`: All futures of a relay name one root.
* `root_found_and_handed_on`: The root of every error is found, and it is the root of
  whatever fails because of it.
-/

namespace Docket

open Play

/-- Futures that fail one because of the other, each with what was raised to someone
    who waited for it: the first is rejected with a given failure, each other with what
    was raised for the one before. -/
inductive Relay (levels : Nat) : Failure → List (Nat × Failure) → Exchange → Exchange → Prop
  | done {e x x'} (h : Lasts x x') : Relay levels e [] x x'
  | next {e raised id rest x x₁ x₂ x₃ x₄ x' waiting out limit} (before : Lasts x x₁)
      (pending : x₁.futures[id]? = some (.pending waiting))
      (rejected : Yields (decideFuture (tellAt levels) id (.failure e)) x₁ out x₂)
      (between : Lasts x₂ x₃) (waited : Yields (waitFor id limit) x₃ (.error raised) x₄)
      (h : Relay levels raised rest x₄ x') : Relay levels e ((id, raised) :: rest) x x'

section

variable {levels : Nat} {x x' : Exchange}

/-- A pending future has the outcome that it is decided with, whatever its listeners do
    when they are told. -/
theorem decided_of_decideFuture {id : Nat} {o : Outcome} {waiting : List (Registration Listener)}
    {out : Except Failure Bool} (hpending : x.futures[id]? = some (.pending waiting))
    (h : Yields (decideFuture (tellAt levels) id o) x out x') :
    x'.futures[id]? = some (.decided o) := by
  rcases decideFuture_tells (o := o) hpending with ⟨m, hpass, htells⟩
  have hm : m.futures[id]? = some (.decided o) := by
    rw [hpass.futures, Array.getElem?_modify, if_pos rfl, hpending]
    rfl
  have hlasting : Lasting (do notify (tellAt levels) id o waiting; return true) :=
    Lasting.bind (lasting_notify (lasting_tellAt levels) id o waiting) fun _ => Lasting.pure true
  exact hlasting m out x' ((htells _ out x').mp h) id o hm

/-- A relay may begin in any exchange and be as long as one likes: there are always
    futures that nothing has been done with. -/
theorem exists_relay (levels n : Nat) : ∀ (x : Exchange) (e : Failure),
    ∃ handed x', handed.length = n ∧ Relay levels e handed x x' := by
  induction n with
  | zero => exact fun x e => ⟨[], x, rfl, .done fun _ _ h => h⟩
  | succ n ih =>
      intro x e
      let x₁ : Exchange := { x with futures := x.futures.push .fresh }
      -- A new future is pending, and rejecting it decides it.
      have hbefore : Lasts x x₁ := Lasting.newFuture x (.ok x.futures.size) x₁ rfl
      have hpending : x₁.futures[x.futures.size]? = some (.pending []) := Array.getElem?_push_size
      have hrejected := yields_run (decideFuture (tellAt levels) x.futures.size (.failure e)) x₁
      have hdecided := decided_of_decideFuture hpending hrejected
      have hwaited : Yields (waitFor x.futures.size none) _ (.error (.actionFailed e)) _ :=
        (yields_waitFor_failure hdecided rfl).mpr ⟨rfl, rfl⟩
      rcases ih _ (.actionFailed e) with ⟨handed, x', hlength, hrest⟩
      exact ⟨(x.futures.size, .actionFailed e) :: handed, x', by rw [List.length_cons, hlength],
        .next hbefore hpending hrejected (fun _ _ h => h) hwaited hrest⟩

namespace Relay

variable {e : Failure} {handed : List (Nat × Failure)}

theorem lasts (h : Relay levels e handed x x') : Lasts x x' := by
  induction h with
  | done h => exact h
  | next before _ rejected between waited _ ih =>
      exact before.trans ((lasting_decideFuture (lasting_tellAt levels) _ _ _ _ _ rejected).trans
        (between.trans ((Lasting.waitFor _ _ _ _ _ waited).trans ih)))

/-- All futures of a relay name the root of the failure it began with, and so does what
    was raised to those who waited, by induction along the relay: what is handed on has
    the root of what it is around. -/
theorem futures (h : Relay levels e handed x x') : ∀ p ∈ handed,
    (∃ f, x'.futures[p.1]? = some f ∧ f.rootFailure? = some e.root) ∧
      ∃ c, p.2 = .actionFailed c ∧ c.root = e.root := by
  induction h with
  | done => exact fun p hp => absurd hp List.not_mem_nil
  | @next e raised id rest _ _ _ x₃ _ _ _ _ _ _ pending rejected between waited h ih =>
      have hdecided : x₃.futures[id]? = some (.decided (.failure e)) :=
        between id _ (decided_of_decideFuture pending rejected)
      -- Nobody can have changed the outcome since, so it is what the wait comes to.
      rcases (yields_waitFor_failure hdecided rfl).mp waited with ⟨hraised, rfl⟩
      cases hraised
      refine List.forall_mem_cons.mpr ⟨⟨⟨_, h.lasts id _ hdecided, rfl⟩, e, rfl, rfl⟩, ?_⟩
      exact ih

end Relay

end

/-- The root of every error is found, whatever circles the causes run in. It is the
    root of all errors that are put around that one because actions fail one because
    of the other, and of the failures that futures name. -/
theorem root_found_and_handed_on :
    (∀ (errors : Errors) (id : Nat), FindsRoot errors id) ∧
    (∀ (errors : Errors) (id n : Nat), errors.IsClosed → id < errors.size →
      ∃ later raised, Errors.relay n errors id = .ok (later, raised) ∧ raised.length = n ∧
        errors.SharesRoot later id raised) ∧
    (∀ (levels n : Nat) (x : Exchange) (e : Failure), ∃ handed x', handed.length = n ∧
      Relay levels e handed x x') ∧
    (∀ (levels : Nat) (x x' : Exchange) (e : Failure) (handed : List (Nat × Failure)),
      Relay levels e handed x x' → ∀ p ∈ handed,
        (∃ f, x'.futures[p.1]? = some f ∧ f.rootFailure? = some e.root) ∧
          ∃ c, p.2 = .actionFailed c ∧ c.root = e.root) ∧
    ∀ (errors : Errors) (e : Failure) (id : Nat), StandsFor errors e id →
      StandsFor errors e.root (errors.root id) ∧
        ∀ errors', errors.raiseAround id = .ok errors' →
          StandsFor errors' (.actionFailed e) errors.size := by
  refine ⟨findsRoot, ?_, exists_relay, ?_, ?_⟩
  · intro errors id n hclosed hid
    rcases Errors.relay_sharesRoot n hclosed hid with ⟨later, raised, hrelay, hlength, -, hshares⟩
    exact ⟨later, raised, hrelay, hlength, hshares⟩
  · exact fun levels x x' e handed h => h.futures
  · exact fun errors e id h => ⟨h.root, fun errors' hraise => h.raiseAround hraise⟩

/-- Two errors that cause one another, and one around the first of them. -/
def circledErrors : Errors :=
  #[⟨.kind .compile, [], 0, "", some 1, []⟩, ⟨.kind .compile, [], 0, "", some 0, []⟩,
    ⟨.kind .actionFailed, [], 0, "", some 0, []⟩]

theorem circledErrors_handed_on : circledErrors.IsClosed ∧ circledErrors.root 2 = 0 ∧
    ∃ later raised, Errors.relay 3 circledErrors 2 = .ok (later, raised) ∧ raised.length = 3 ∧
      circledErrors.SharesRoot later 2 raised := by
  have hclosed : circledErrors.IsClosed := by
    rintro (_ | _ | _ | id) cause h
    · cases h
      decide
    · cases h
      decide
    · cases h
      decide
    · exact absurd h nofun
  exact ⟨hclosed, by decide, root_found_and_handed_on.2.1 circledErrors 2 3 hclosed (by decide)⟩

end Docket
