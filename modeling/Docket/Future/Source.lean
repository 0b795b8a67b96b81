import Docket.Future.Basic

/-!
# Sources

The work that a future may stand for. A source is waiting to be started, under
way, finished or cancelled. It can be cancelled only before it is started;
whoever would start a cancelled source finds out that it is, once, and need not
do the work. A finished source never changes again.

A future may follow a source; it is told when the source has finished or was
cancelled.

## Main definitions

* `Source`: A source and the future that follows it.
* `Source.start`, `Source.finish`, `Source.cancel`: What may be done with it.
* `SourceState.outcome?`: How it ended.
-/

namespace Docket

inductive SourceState where
  | waiting
  | running
  | cancelled
  | withdrawn
  | finished (result : Except Failure Value)

/-- A source, with the number of the future that follows it. -/
structure Source where
  state : SourceState
  follower : Option Nat

namespace SourceState

def isRunning : SourceState → Bool
  | running => true
  | _ => false

/-- Whether it was cancelled, and perhaps withdrawn from its queue since. -/
def isCancelled : SourceState → Bool
  | cancelled => true
  | withdrawn => true
  | _ => false

/-- How a source ended, if it has. -/
def outcome? : SourceState → Option Outcome
  | finished (.ok v) => some (.value v)
  | finished (.error e) => some (.failure e)
  | cancelled => some .cancelled
  | withdrawn => some .cancelled
  | _ => none

def isDone (s : SourceState) : Bool := s.outcome?.isSome

end SourceState

namespace Source

/-- A source that waits to be started. -/
def fresh : Source := ⟨.waiting, none⟩

/-- Starts a source: says whether its work is to be done, which it is not if the
    source was cancelled. -/
def start (s : Source) : Except Failure (Bool × Source) :=
  match s.state with
  | .waiting => .ok (true, { s with state := .running })
  | .cancelled => .ok (false, { s with state := .withdrawn })
  | _ => .error (.foreign "RuntimeError" "Future in unexpected state" none)

/-- Finishes a source, which must not be over yet. -/
def finish (s : Source) (result : Except Failure Value) : Except Failure Source :=
  if s.state.isDone then .error (.foreign "InvalidStateError" "" none)
  else .ok { s with state := .finished result }

/-- The source after it is cancelled, or none if there is nothing to be done:
    because it was cancelled before, or because it is too late. -/
def cancel? (s : Source) : Option Source :=
  match s.state with
  | .waiting => some { s with state := .cancelled }
  | _ => none

end Source

end Docket
