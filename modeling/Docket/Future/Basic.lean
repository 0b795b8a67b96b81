import Docket.Failure

/-!
# Futures

A future stands for the outcome of an action that is still under way. It is
decided once: while it is pending, listeners gather; whoever decides it takes
them all away to be told, and from then on it holds nothing but its outcome.
That a decided future has no listeners left is part of its type.

An action ends with a value, with a failure, or by being cancelled. A cancelled
action counts as failed, but an outcome that comes after cancelling is not
wrong, only late, and is ignored.

## Main definitions

* `Outcome`: How an action ended.
* `Outcome.told`: What a listener of some kind is told.
* `Future`: A pending or a decided future.
* `Future.decide`: Who is to be told if the future is decided now.
* `Future.result?`: What those who wait for it get.
* `Future.answer`: What it says of itself.
-/

namespace Docket

/-- How an action ended. -/
inductive Outcome where
  | value (v : Value)
  | failure (e : Failure)
  | cancelled

namespace Outcome

def state : Outcome → FutureState
  | value _ => .completed
  | _ => .failed

def isCancelled : Outcome → Bool
  | cancelled => true
  | _ => false

/-- The failure an action ended with. -/
def failure? : Outcome → Option Failure
  | value _ => none
  | failure e => some e
  | cancelled => some .cancelled

/-- What those who wait get: the value, or a failure of their own around the
    one the action ended with. -/
def result : Outcome → Except Failure Value
  | value v => .ok v
  | failure e => .error (.actionFailed e)
  | cancelled => .error (.actionFailed .cancelled)

/-- The word for the outcome. -/
def status (o : Outcome) : String := if o.isCancelled then "cancelled" else o.state.name

end Outcome

/-- Which outcomes a listener is told about: all, or those of one sort. -/
inductive ListenerKind where
  | complete
  | success
  | failure
deriving DecidableEq, Inhabited

namespace Outcome

/-- What a listener of some kind is told, if anything. One that is told about
    all outcomes gets the value and the failure, of which one is missing. -/
def told (o : Outcome) : ListenerKind → Option (List Value)
  | .complete => match o with
    | value v => some [v, .null]
    | failure e => some [.null, .failure e]
    | cancelled => some [.null, .failure .cancelled]
  | .success => match o with
    | value v => some [v]
    | _ => none
  -- A cancelled future has a failure to tell, as one that was rejected has.
  | .failure => o.failure?.map fun e => [.failure e]

end Outcome

/-- What a future is asked about itself. -/
inductive Query where
  | state
  | done
  | cancelled
deriving DecidableEq, Inhabited

/-- A listener on a future. Registrations are numbered, because the same
    listener may be registered more than once. -/
structure Registration (L : Type) where
  ticket : Nat
  kind : ListenerKind
  listener : L

inductive Future (L : Type) where
  | pending (waiting : List (Registration L))
  | decided (o : Outcome)

namespace Future

variable {L : Type}

/-- A future that nobody listens to yet. -/
def fresh : Future L := pending []

def outcome? : Future L → Option Outcome
  | pending _ => none
  | decided o => some o

/-- The listeners that wait for the outcome. -/
def waiting : Future L → List (Registration L)
  | pending waiting => waiting
  | decided _ => []

def state (f : Future L) : FutureState := (f.outcome?.map (·.state)).getD .pending

def isDone (f : Future L) : Bool := f.outcome?.isSome

def isCancelled (f : Future L) : Bool := f.outcome?.any (·.isCancelled)

/-- What a future says of itself. -/
def answer (f : Future L) : Query → Value
  | .state => .text f.state.name
  | .done => .bool f.isDone
  | .cancelled => .bool f.isCancelled

/-- A future in full. -/
def display (f : Future L) : String :=
  "ActionFuture(" ++ (f.outcome?.map (·.status)).getD FutureState.pending.name ++ ")"

/-- The failure behind the wrapping ones, of an action that failed. -/
def rootFailure? (f : Future L) : Option Failure :=
  (f.outcome?.bind (·.failure?)).map (·.root)

/-- What those who wait get, once it is decided. -/
def result? (f : Future L) : Option (Except Failure Value) := f.outcome?.map (·.result)

/-- Who is to be told if the future is decided in this way now. Nobody is, and
    nothing changes, if it is too late to cancel or if it has been cancelled; to
    decide any other future twice is an error. -/
def decide (f : Future L) (o : Outcome) : Except Failure (Option (List (Registration L))) :=
  match f, o with
  | pending waiting, _ => .ok (some waiting)
  | decided _, .cancelled => .ok none
  | decided .cancelled, _ => .ok none
  | decided earlier, _ => .error (.alreadyResolved earlier.state)

/-- A future with one more listener waiting. -/
def wait (f : Future L) (r : Registration L) : Future L :=
  match f with
  | pending waiting => pending (waiting ++ [r])
  | decided o => decided o

/-- A future without the listener of a ticket. -/
def withdraw (f : Future L) (ticket : Nat) : Future L :=
  match f with
  | pending waiting => pending (waiting.filter (·.ticket != ticket))
  | decided o => decided o

end Future

end Docket
