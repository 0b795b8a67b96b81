import Docket.Failure

/-!
# Log records

What the library notes down about its work, for those who follow it closely:
that a document was finalized, that a writer failed, how a future came to its
end and which listeners failed when told. Records say what happened; their
wording is here.

## Main definitions

* `LogRecord`: What happened.
* `LogRecord.source`, `LogRecord.level`, `LogRecord.message`: How it is noted.
-/

namespace Docket

/-- The part of the library that a record comes from. -/
inductive LogSource where
  | compiler
  | encoding
  | future
deriving DecidableEq, Inhabited

inductive LogLevel where
  | debug
  | error
deriving DecidableEq, Inhabited

inductive LogRecord where
  | finalized (e : Encoding) (fields bytes : Nat)
  | encoderFailed (e : Encoding) (cause : Option Failure)
  | transitioned (status : String) (listeners : Nat)
  | ignored (outcome : FutureState) (status : String)
  | listenerFailed (listener status : String) (failure : Failure)

namespace LogRecord

def source : LogRecord → LogSource
  | finalized .. => .compiler
  | encoderFailed .. => .encoding
  | transitioned .. => .future
  | ignored .. => .future
  | listenerFailed .. => .future

/-- A listener that fails is an error; everything else is told for the sake of
    completeness. -/
def level : LogRecord → LogLevel
  | listenerFailed .. => .error
  | _ => .debug

def message : LogRecord → String
  | finalized e fields bytes =>
    "Finalized " ++ e.name ++ " document with " ++ toString fields ++ " fields (" ++
      toString bytes ++ " bytes)"
  | encoderFailed e none => "Encoder for " ++ e.name ++ " failed"
  | encoderFailed e (some cause) => "Encoder for " ++ e.name ++ " failed: " ++ cause.text
  | transitioned status listeners =>
    status ++ " transitioned; notifying " ++ toString listeners ++ " listeners"
  | ignored outcome status => "Ignoring " ++ outcome.name ++ " of cancelled " ++ status
  | listenerFailed listener status _ =>
    "Listener " ++ listener ++ " raised while notifying " ++ status

/-- The class of the failure that a record is about. -/
def failureClass? : LogRecord → Option String
  | listenerFailed _ _ failure => some failure.className
  | _ => none

end LogRecord

end Docket
