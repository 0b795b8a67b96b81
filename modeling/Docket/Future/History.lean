import Docket.Future.Step

/-!
# The history of futures

What happens to futures and their listeners while steps are taken, in order.
The calls that a script makes are read off its history, and so is the order in
which everything took place: who was registered before a future was decided, and
who was told while a registration was still under way.

A listener is known by its ticket, and is told once, so the answers to the steps
it takes belong to its ticket.

## Main definitions

* `Reply`: The answer to a step.
* `Event`: What happens.
* `callsOf`: The calls made in a stretch of history.
-/

namespace Docket

/-- The answer to a step. -/
inductive Reply where
  | value (v : Value)
  | failed (e : Failure)
  /-- a task gave up waiting -/
  | timedOut
  /-- a task was cancelled, after some steps had been taken -/
  | interrupted (meanwhile : List Reply)
  /-- whether work was done, and not cancelled before -/
  | worked (done : Bool)

namespace Reply

def bool (b : Bool) : Reply := value (.bool b)

def null : Reply := value .null

/-- The reply to a step that may have failed. -/
def ofExcept : Except Failure Reply → Reply
  | .ok r => r
  | .error e => failed e

end Reply

/-- A listener told: by its ticket and name, with what it was told and the
    answers to the steps it took. -/
structure Call where
  ticket : Nat
  name : String
  args : List Value
  answers : List Reply

inductive Event where
  /-- a listener is registered on a future -/
  | registered (future : Nat) (r : Registration Listener)
  /-- the call that registered the listener of a ticket is over -/
  | returned (ticket : Nat)
  /-- a future is decided -/
  | decided (future : Nat) (o : Outcome)
  /-- a listener of a script is told -/
  | told (ticket : Nat) (name : String) (args : List Value)
  /-- a step that a listener takes is over -/
  | answered (ticket : Nat) (s : Step) (r : Reply)
  /-- a source has passed on its end to the future that follows it -/
  | passedOn (future : Nat) (r : Except Failure Bool)

/-- The answers to the steps of one listener. -/
def answersOf (ticket : Nat) (events : List Event) : List Reply :=
  events.filterMap fun
    | .answered t _ r => if t = ticket then some r else none
    | _ => none

/-- The calls made in a stretch of history. -/
def callsOf (events : List Event) : List Call :=
  events.filterMap fun
    | .told t name args => some ⟨t, name, args, answersOf t events⟩
    | _ => none

end Docket
