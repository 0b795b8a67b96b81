import Docket.Future.History
import Docket.Future.Source
import Docket.Recorder
import Docket.Timeout

/-!
# The exchange of futures

Steps on futures, taken one after another. Telling a listener means taking its
steps, and those may decide futures and so tell other listeners, before the
first one is done. What a step does is therefore defined given how listeners are
told, and how they are told is defined in turn given what their steps do, one
level of listeners inside listeners after the other. No script reaches deeper
than it has steps, since every level takes up a registration and a listener is
told once.

An ordinary error in a listener is noted in the log and concerns no one else. A
request to stop ends the telling, and the listeners after it are never told.

## Main definitions

* `Exchange`: Futures, sources, work in the queue, and what has happened.
* `decideFuture`: Deciding a future and telling those who wait.
* `Step.perform`: Taking a step.
* `tellAt`: Telling a listener, at some level.
* `Exchange.play`: Taking the steps of a script.
-/

namespace Docket

structure Exchange where
  session : Session
  futures : Array (Future Listener)
  sources : Array Source
  /-- the future that steps are about -/
  current : Nat
  /-- the source that steps are about -/
  source : Nat
  /-- work to be done, as the source it is done for and what it comes to -/
  queue : List (Nat × Except Failure Value)
  /-- the failures raised to those who wait: each is a new one and known by its
      place here, which holds the future whose failure it wraps -/
  raised : Array Nat
  tickets : Nat
  history : Array Event

namespace Exchange

/-- One future that nobody listens to. -/
def initial : Exchange := ⟨.initial, #[.fresh], #[], 0, 0, [], #[], 0, #[]⟩

/-- The future that steps are about. -/
def currentFuture (x : Exchange) : Future Listener := x.futures[x.current]?.getD .fresh

/-- Compares a failure that was raised with the last one: whether they are two,
    whether they wrap one failure, and whether its root is one. -/
def compareRaised (x : Exchange) (first : Nat) : Value :=
  let last := x.raised.size - 1
  let same := x.raised[first]? == x.raised[last]?
  .list ([first != last, same, same].map .bool)

end Exchange

/-- Steps taken on an exchange. What was done stays when one fails. -/
abbrev Play := ExceptT Failure (StateM Exchange)

namespace Play

/-- Work on the session of an exchange. -/
def onSession {α : Type} (r : Run α) : Play α := fun x =>
  let (out, s) := r.run.run x.session
  (out, { x with session := s })

def build (e : Expr) : Play Value := onSession (e.build [])

def log (r : LogRecord) : Play Unit := onSession (Run.log r)

/-- Work whose failure is an answer. -/
def attempt {α : Type} (p : Play α) : Play (Except Failure α) := fun x =>
  let (out, x) := p.run.run x
  (.ok out, x)

/-- A reply of work that may fail. -/
def answered (p : Play Reply) : Play Reply := return .ofExcept (← attempt p)

/-- Work whose ordinary errors concern no one. -/
def handling (p : Play Unit) (handle : Failure → Play Unit) : Play Unit := do
  match ← attempt p with
  | .ok () => return ()
  | .error e => if e.isOrdinary then handle e else throw e

def current : Play Nat := return (← get).current

def future (id : Nat) : Play (Future Listener) := return (← get).futures[id]?.getD .fresh

def setFuture (id : Nat) (f : Future Listener) : Play Unit :=
  modify fun x => { x with futures := x.futures.modify id fun _ => f }

def source (id : Nat) : Play Source := return (← get).sources[id]?.getD .fresh

def setSource (id : Nat) (s : Source) : Play Unit :=
  modify fun x => { x with sources := x.sources.modify id fun _ => s }

/-- Makes a future that nobody listens to. -/
def newFuture : Play Nat := do
  let x ← get
  set { x with futures := x.futures.push .fresh }
  return x.futures.size

/-- Makes a source, which steps are about from now on. -/
def newSource : Play Nat := do
  let x ← get
  set { x with sources := x.sources.push .fresh, source := x.sources.size }
  return x.sources.size

/-- Raises the failure of a future, wrapped anew. -/
def raise {α : Type} (id : Nat) (e : Failure) : Play α := do
  modify fun x => { x with raised := x.raised.push id }
  throw e

/-- Notes down what happens. -/
def note (e : Event) : Play Unit := modify fun x => { x with history := x.history.push e }

/-- A registration on a future, with a number of its own. -/
def ticket (future : Nat) (kind : ListenerKind) (l : Listener) :
    Play (Registration Listener) := do
  let x ← get
  let r : Registration Listener := ⟨x.tickets, kind, l⟩
  set { x with tickets := x.tickets + 1 }
  note (.registered future r)
  return r

end Play

open Play

/-- How a registered listener is told the outcome of a future. -/
abbrev Tell := Nat → Outcome → Registration Listener → Play Unit

/-- Tells listeners, one after another. -/
def notify (tell : Tell) (id : Nat) (o : Outcome) : List (Registration Listener) → Play Unit
  | [] => return ()
  | r :: rest => do
    tell id o r
    notify tell id o rest

/-- Decides a future and tells those who wait. Says whether the future was
    decided. -/
def decideFuture (tell : Tell) (id : Nat) (o : Outcome) : Play Bool := do
  let f ← future id
  match ← MonadExcept.ofExcept (f.decide o) with
  | some waiting =>
    let f := Future.decided o
    -- The future is decided before anyone is told, so that listeners find it decided.
    setFuture id f
    note (.decided id o)
    log (.transitioned f.display waiting.length)
    notify tell id o waiting
    return true
  | none =>
    -- Only a cancelled future ignores an outcome. That cancelling came to nothing is not worth a
    -- record.
    if !o.isCancelled then log (.ignored o.state f.display)
    return false

/-- Registers a listener: it waits for the outcome, or is told at once. -/
def register (tell : Tell) (id : Nat) (kind : ListenerKind) (l : Listener) : Play Nat := do
  let r ← ticket id kind l
  let f ← future id
  match f with
  | .pending _ => setFuture id (f.wait r)
  | .decided o => tell id o r
  note (.returned r.ticket)
  return r.ticket

/-- Passes on how a source ended to the future that follows it. That the future
    has been decided otherwise concerns no one. -/
def passOn (tell : Tell) (s : Source) : Play Unit :=
  match s.follower, s.state.outcome? with
  | some id, some o =>
    handling (do
      let r ← attempt (decideFuture tell id o)
      note (.passedOn id r)
      let _ ← MonadExcept.ofExcept r) fun _ => return ()
  | _, _ => return ()

/-- Cancels a source, if it waits to be started. Says whether it is cancelled. -/
def cancelSource (tell : Tell) (id : Nat) : Play Bool := do
  let s ← source id
  match s.cancel? with
  | some s =>
    setSource id s
    passOn tell s
    return true
  | none => return s.state.isCancelled

/-- Finishes a source. -/
def finishSource (tell : Tell) (id : Nat) (result : Except Failure Value) : Play Unit := do
  let s ← MonadExcept.ofExcept ((← source id).finish result)
  setSource id s
  passOn tell s

/-- Has a new future follow a source. The source is cancelled when the future
    is, and the future is told if the source has ended already. -/
def followSource (tell : Tell) (id : Nat) : Play Unit := do
  let f ← newFuture
  let _ ← register tell f .failure (.canceller id)
  let s := { (← source id) with follower := some f }
  setSource id s
  passOn tell s
  modify fun x => { x with current := f }

/-- Starts work and does it. Says whether it was still to be done. -/
def doWork (tell : Tell) (source : Nat) (result : Except Failure Value) : Play Bool := do
  let (wanted, s) ← MonadExcept.ofExcept (← Play.source source).start
  setSource source s
  if wanted then finishSource tell source result
  return wanted

/-- A step on the source that steps are about. -/
def SourceStep.perform (tell : Tell) (s : SourceStep) : Play Reply := do
  match s with
  | .start =>
    let id := (← get).source
    -- A source that was cancelled is not to be started, which is no failure.
    let (wanted, s) ← MonadExcept.ofExcept (← Play.source id).start
    setSource id s
    return .bool wanted
  | .finish v =>
    let v ← build v
    finishSource tell (← get).source (.ok v)
    return .null
  | .fail e =>
    finishSource tell (← get).source (.error e.build)
    return .null
  | .cancel => return .bool (← cancelSource tell (← get).source)
  | .state =>
    let s := (← Play.source (← get).source).state
    return .value (.list ([s.isRunning, s.isDone, s.isCancelled].map .bool))

/-- What a future comes to for someone who waits so long. Waiting without limit
    is waiting for the longest time there is. -/
def waitFor (id : Nat) (limit : Option Binary64) : Play Reply := do
  match (← future id).result? with
  | some (.ok v) => return .value v
  | some (.error e) => raise id e
  | none =>
    throw (.timedOut ((limit.map Timeout.milliseconds).getD (Timeout.longest * 1000)))

/-- The time that a value stands for. -/
def readLimit (timeout : Option Value) : Play (Option Binary64) :=
  MonadExcept.ofExcept (Timeout.ofValue (timeout.getD .null))

/-- Steps that are taken meanwhile begin after five milliseconds. -/
def endsEarly (limit : Option Binary64) : Bool :=
  match limit with
  | some x => decide (x.units < (Binary64.ofRatio false 5 1000).units)
  | none => false

/-- Whether an action failed because something was cancelled: it, or another one
    whose failure it was given. -/
def Outcome.saysCancelled (o : Outcome) : Bool :=
  o.failure?.any fun e => e.kind? == some .cancelled

/-- The names that work cannot be given arguments by. -/
def takenNames : List String := ["cls", "executor", "fn"]

/-- What work comes to: the failure it was made with, or its arguments in order
    and by name. -/
def workResult (failure : Option Failure) (args : List Value) (keywords : List (String × Value)) :
    Except Failure Value :=
  match failure with
  | some e => .error e
  | none =>
    let sorted := keywords.mergeSort fun a b => !decide (b.1 < a.1)
    .ok (.list [.list args, .list (sorted.map fun k => .list [.text k.1, k.2])])

/-- Has work done that a new future stands for. -/
def submitWork (tell : Tell) (result : Except Failure Value) (now : Bool) : Play Unit := do
  let id ← newSource
  if now then
    let _ ← doWork tell id result
  else modify fun x => { x with queue := x.queue ++ [(id, result)] }
  followSource tell id

mutual

/-- Takes a step, given how listeners are told. -/
def Step.perform (tell : Tell) : Step → Play Reply
  | .resolve v => do
    let v ← build v
    return .bool (← decideFuture tell (← current) (.value v))
  | .reject v => do
    match ← build v with
    | .failure e => return .bool (← decideFuture tell (← current) (.failure e))
    | v => throw (.typeError ("error must be an exception, got " ++ v.typeName))
  | .cancel => return .bool (← decideFuture tell (← current) .cancelled)
  | .get timeout => do
    let timeout ← timeout.mapM build
    waitFor (← current) (← readLimit timeout)
  | .listen kind name actions => do
    let _ ← register tell (← current) kind (.scripted name actions)
    return .bool true
  | .listenValue _ v => do
    let _ ← build v
    throw (.typeError "listener must be callable")
  | .rootFailure => return .value (((← future (← current)).rootFailure?.map .failure).getD .null)
  | .query q => return .value ((← future (← current)).answer q)
  | .sameFailure => do
    let id ← current
    match ← attempt (waitFor id (some .zero)) with
    | .error (.actionFailed _) => do
      -- Each wait raises a new failure, which is known by its place: the two are compared by it.
      let first := (← get).raised.size - 1
      let _ ← attempt (waitFor id (some .zero))
      return .value ((← get).compareRaised first)
    | r => return .ofExcept r
  | .getWhile timeout meanwhile => do
    let id ← current
    let timeout ← build timeout
    match ← attempt (readLimit (some timeout)) with
    | .error e =>
      let _ ← performAll tell meanwhile
      throw e
    | .ok limit =>
      -- A wait that is short enough is over before the other steps begin, and they cannot change
      -- what it came to.
      let early ← attempt (waitFor id limit)
      let _ ← performAll tell meanwhile
      if endsEarly limit then MonadExcept.ofExcept early else waitFor id limit
  | .await => do waitFor (← current) none
  | .awaitBriefly => do
    if (← future (← current)).isDone then waitFor (← current) none else return .timedOut
  | .awaitWhile meanwhile => do
    let id ← current
    -- A task registers as a listener, and withdraws when it gives up waiting.
    let ticket ← register tell id .complete .task
    let _ ← performAll tell meanwhile
    let f ← future id
    setFuture id (f.withdraw ticket)
    if f.isDone then waitFor id none else return .timedOut
  | .awaitCancelled meanwhile => do
    let id ← current
    let ticket ← register tell id .complete .task
    let answers ← performAll tell meanwhile
    setFuture id ((← future id).withdraw ticket)
    return .interrupted answers
  | .fresh => do
    let f ← newFuture
    modify fun x => { x with current := f }
    return .null
  | .follow before => do
    let id ← newSource
    let _ ← before.mapM fun s => s.perform tell
    followSource tell id
    return .null
  | .source s => s.perform tell
  | .submit failure args keywords now => do
    let args ← args.mapM build
    let keywords ← keywords.mapM fun k => return (k.1, ← build k.2)
    -- Keywords are passed on to the work, but for those that the call itself takes.
    match keywords.find? fun k => takenNames.contains k.1 with
    | some (name, _) => throw (.typeError
        ("ActionFuture.submit() got multiple values for argument '" ++ name ++ "'"))
    | none =>
      submitWork tell (workResult (failure.map (·.build)) args keywords) now
      return .null
  | .runQueued => do
    match (← get).queue with
    | [] => return .worked false
    | (source, result) :: rest =>
      modify fun x => { x with queue := rest }
      return .worked (← doWork tell source result)
  | .raise e => throw e.build

/-- Takes several steps and answers each. -/
def performAll (tell : Tell) : List Step → Play (List Reply)
  | [] => return []
  | s :: rest => do
    let r ← answered (s.perform tell)
    return r :: (← performAll tell rest)

end

/-- Takes the steps of the listener of a ticket, up to the first one that raises
    an error. -/
def act (tell : Tell) (ticket : Nat) : List Step → Play Unit
  | [] => return ()
  | .raise e :: _ => throw e.build
  | s :: rest => do
    let r ← answered (s.perform tell)
    note (.answered ticket s r)
    act tell ticket rest

/-- What a listener does when it is told. -/
def Listener.call (tell : Tell) (o : Outcome) (args : List Value) (ticket : Nat) :
    Listener → Play Unit
  | .scripted name actions => do
    note (.told ticket name args)
    act tell ticket actions
  | .canceller source => do
    if o.saysCancelled then
      let _ ← cancelSource tell source
    return ()
  | .task => return ()

/-- Tells a listener, given how those are told that are told because of it. An
    ordinary error is noted in the log. -/
def tellWith (tell : Tell) : Tell := fun _ o r =>
  match o.told r.kind with
  | none => return ()
  | some args => handling (r.listener.call tell o args r.ticket) fun e =>
    log (.listenerFailed r.listener.display (Future.decided o : Future Listener).display e)

/-- Tells a listener, with so many levels of listeners inside listeners. -/
def tellAt : Nat → Tell
  | 0 => fun _ _ _ => return ()
  | levels + 1 => tellWith (tellAt levels)

/-- What is known after a step: the answer, the calls made during it, and the
    future that steps are about. -/
structure Played where
  reply : Reply
  calls : List Call
  future : Future Listener

namespace Exchange

/-- Takes one step of a script. -/
def playStep (levels : Nat) (x : Exchange) (s : Step) : Played × Exchange :=
  let (out, after) := (s.perform (tellAt levels)).run.run x
  (⟨.ofExcept out, callsOf (after.history.toList.drop x.history.size), after.currentFuture⟩,
    after)

/-- Takes the steps of a script, one after another. -/
def playFrom (levels : Nat) : Exchange → List Step → List Played × Exchange
  | x, [] => ([], x)
  | x, s :: rest =>
    let (p, x) := playStep levels x s
    let (ps, x) := playFrom levels x rest
    (p :: ps, x)

/-- Takes the steps of a script, with as many levels as there are steps. -/
def play (steps : List Step) : List Played × Exchange :=
  playFrom (weights steps) initial steps

end Exchange

end Docket
