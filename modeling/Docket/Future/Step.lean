import Docket.Future.Basic

/-!
# Steps on futures

What can be done with futures, written down: deciding, waiting and listening,
and the same for the sources that futures follow. A listener is written as the
steps it takes when it is told, so steps contain steps; they are data, and what
they do is said by `Docket.Future.Exchange`.

Every listener in a script is told at most once, and so the steps of a script
are taken at most once each. The weight of a script counts them.

## Main definitions

* `Step`, `SourceStep`: What can be done.
* `Step.weight`: The number of steps, those inside listeners included.
-/

namespace Docket

inductive SourceStep where
  | start
  | finish (v : Expr)
  | fail (e : ErrorSpec)
  | cancel
  | state

inductive Step where
  | resolve (v : Expr)
  | reject (v : Expr)
  | cancel
  /-- waits for the outcome, for some time or without limit -/
  | get (timeout : Option Expr)
  | listen (kind : ListenerKind) (name : String) (actions : List Step)
  /-- registers a value as a listener -/
  | listenValue (kind : ListenerKind) (v : Expr)
  | rootFailure
  | query (q : Query)
  /-- waits twice, to compare the two failures -/
  | sameFailure
  /-- waits while other steps are taken -/
  | getWhile (timeout : Expr) (meanwhile : List Step)
  | await
  /-- waits as a task, but not for long -/
  | awaitBriefly
  /-- waits as a task while other steps are taken -/
  | awaitWhile (meanwhile : List Step)
  /-- waits as a task that is cancelled; other steps are taken before it notices -/
  | awaitCancelled (meanwhile : List Step)
  | fresh
  /-- follows a new source, on which some steps are taken before -/
  | follow (before : List SourceStep)
  | source (s : SourceStep)
  /-- has work done that fails or returns its arguments: later or at once -/
  | submit (failure : Option ErrorSpec) (args : List Expr) (keywords : List (String × Expr))
      (now : Bool)
  | runQueued
  | raise (e : ErrorSpec)

instance : Inhabited Step := ⟨.cancel⟩

mutual

/-- The number of steps in a step. -/
def Step.weight : Step → Nat
  | .listen _ _ actions => weights actions + 1
  | .getWhile _ meanwhile => weights meanwhile + 1
  | .awaitWhile meanwhile => weights meanwhile + 1
  | .awaitCancelled meanwhile => weights meanwhile + 1
  | _ => 1

/-- The number of steps in several steps. -/
def weights : List Step → Nat
  | [] => 0
  | s :: rest => s.weight + weights rest

end

/-- Whoever waits to be told: a listener of a script, a source that is to be
    cancelled along with the future, or a task. -/
inductive Listener where
  | scripted (name : String) (actions : List Step)
  | canceller (source : Nat)
  | task

namespace Listener

/-- A listener in full. -/
def display : Listener → String
  | scripted name _ => "<listener " ++ name ++ ">"
  | canceller _ => "<canceller>"
  | task => "<task>"

end Listener

end Docket
