import Workbench.Workspace
import Workbench.Workspace.Reports

/-!
**Sessions.**

A session is a workspace in time: builds may be scheduled for later, requests may wait for a document
to be built, and listeners hear what happens. Time is a number of milliseconds that only moves while a
request waits, and then from one instant at which something is due to the next. One thing happens at a
time; a build lets waiting requests look at the workspace after every document.

A waiting request looks again whenever something happened that may concern it: an invalidation, the end of a
phase, the end of a build, the end of the session, or its own deadline. It gives up once no build is on its
way. Builds, timers and waits are those of a `DocumentBuilder` (`schedule`, `run_update`, `wait_until`).
-/

namespace Workbench

/-- What a request waits for. -/
inductive Aim where
  | reach (target : DocumentState)
  /-- A report of the document, which has to be validated for it. -/
  | report
deriving DecidableEq, Repr

/-- The state that a request needs. -/
def Aim.target : Aim → DocumentState
  | .reach target => target
  | .report => .validated

/-- How a request ended. -/
inductive WaitAnswer where
  | reached
  | report (r : Report)
  | failed (e : BuildError)
deriving DecidableEq, Repr

/-- A request that waits for a document. -/
structure Waiter where
  /-- The name of a request in the background. The one in the foreground has none. -/
  name : Option String
  uri : DocumentUri
  aim : Aim
  /-- When the request is cancelled. -/
  deadline : Option Nat
  /-- Whether something happened since the request last looked. -/
  notified : Bool := true
  answer : Option WaitAnswer := none
deriving DecidableEq, Repr

/-- A build scheduled for an instant. Only the one with the last ticket is carried out. -/
structure Timer where
  due : Nat
  ticket : Nat
deriving DecidableEq, Repr

/-- What listeners hear. -/
inductive Event where
  | invalidated (what : Invalidation)
  /-- A phase ended, which has advanced the documents `uris`. -/
  | phase (phase : Phase) (uris : List DocumentUri)
  /-- A hook was carried out. -/
  | hook
deriving DecidableEq, Repr

/-- What a listener may do in the middle of a build. -/
inductive HookAction where
  | shutdown
  | apply (uri : DocumentUri) (change : Change)
deriving DecidableEq, Repr

/-- An action to be carried out once, at the end of a phase. -/
structure Hook where
  phase : Phase
  action : HookAction
deriving DecidableEq, Repr

structure Session where
  workspace : Workspace
  reports : Reports := {}
  clock : Nat := 0
  /-- The scheduled builds, in the order in which they were scheduled. -/
  timers : List Timer := []
  ticket : Nat := 0
  /-- The number of builds that are scheduled or on their way. -/
  pending : Nat := 0
  waiters : List Waiter := []
  hooks : List Hook := []
  events : List Event := []

namespace Session

/-! ### Waiting requests -/

/-- Lets every waiting request look again (`notify_waiters`). -/
def wake (s : Session) : Session :=
  { s with waiters := s.waiters.map fun x => { x with notified := true } }

/-- Looks whether a request can be answered (`wait_until`). A report is made on the spot. -/
def look (s : Session) (x : Waiter) : Session × Option WaitAnswer :=
  if x.deadline.any (· ≤ s.clock) || s.workspace.shutDown then (s, some (.failed .cancelled))
  else
    match s.workspace.documents.get? x.uri with
    | none => (s, some (.failed .documentNotFound))
    | some d =>
      if x.aim.target ≤ d.state then
        match x.aim with
        | .reach _ => (s, some .reached)
        | .report =>
          let (reports, report) := s.reports.make x.uri (d.editorDiagnostics x.uri)
          ({ s with reports }, some (.report report))
      else if s.pending = 0 then (s, some (.failed .interrupted))
      else (s, none)

/-- Lets requests that were notified look, in turn. -/
def lookAll : List Waiter → Session → Session × List Waiter
  | [], s => (s, [])
  | x :: rest, s =>
    if x.notified && x.answer.isNone then
      let (s, answer) := s.look x
      let (s, rest) := lookAll rest s
      (s, { x with notified := false, answer } :: rest)
    else
      let (s, rest) := lookAll rest s
      (s, x :: rest)

/-- Lets the requests that were notified look. -/
def poll (s : Session) : Session :=
  let (t, waiters) := lookAll s.waiters s
  { t with waiters }

/-! ### Changes -/

/-- Takes over a workspace in which something was invalidated. -/
def takeOver (s : Session) (w : Workspace) (what : Invalidation) : Session :=
  wake { s with
    workspace := w
    reports := s.reports.evict what.touched
    events := s.events ++ [.invalidated what] }

/-- Changes the text of a document. -/
def applyChange (s : Session) (uri : DocumentUri) (change : Change) :
    Session × Except BuildError Unit :=
  match s.workspace.apply uri change with
  | .error e => (s, .error e)
  | .ok (w, what) => (s.takeOver w what, .ok ())

/-- Stops the build on its way, all waiting requests, and those to come. -/
def stop (s : Session) : Session := wake { s with workspace := s.workspace.shutdown }

/-- Carries out the oldest hook of a phase. -/
def runHook (s : Session) (phase : Phase) : Session :=
  match s.hooks.find? (·.phase == phase) with
  | none => s
  | some hook =>
    let s := { s with hooks := s.hooks.erase hook, events := s.events ++ [Event.hook] }
    match hook.action with
    | .shutdown => s.stop
    | .apply uri change => (s.applyChange uri change).1

/-! ### Builds -/

/-- Carries out at most `fuel` steps of a build (`build`). -/
def runSteps : Nat → Build → Session → Session × Except BuildError Unit
  | 0, _, s => (s, .ok ())
  | fuel + 1, b, s =>
    let (w, step) := b.step s.workspace .never
    let s := { s with workspace := w }
    match step with
    | .continues next => runSteps fuel next s.poll
    | .ended phase uris next =>
      let s := { s.wake with events := s.events ++ [Event.phase phase uris] }
      runSteps fuel next (s.runHook phase)
    | .cancelled => (s, .error .cancelled)
    | .complete => (s, .ok ())

/-- Invalidates what changed and what was deleted, and builds the workspace (`run_update`). -/
def rebuild (s : Session) (changed deleted : List DocumentUri) :
    Session × Except BuildError Unit :=
  match s.workspace.begin changed deleted with
  | .error e => (s, .error e)
  | .ok (w, what) =>
    let build := Build.start w w.generation
    runSteps build.agenda.length build (s.takeOver w what)

/-- Counts a build as done. -/
def settlePending (s : Session) : Session := wake { s with pending := s.pending - 1 }

/-! ### Time -/

/-- Carries out a scheduled build, unless a later one was scheduled. -/
def fire (s : Session) (t : Timer) : Session :=
  if t.ticket = s.ticket then (s.rebuild [] []).1.settlePending else s.settlePending

/-- The timers that are due, in the order in which they fire. -/
def dueTimers (s : Session) : List Timer :=
  (s.timers.filter (·.due ≤ s.clock)).mergeSort fun a b => a.due ≤ b.due

/-- Moves the clock to an instant and does all that is due then. -/
def advanceTo (s : Session) (instant : Nat) : Session :=
  let s := { s with
    clock := instant
    waiters := s.waiters.map fun (x : Waiter) =>
      if x.deadline.any (· ≤ instant) then { x with notified := true } else x }
  poll (s.dueTimers.foldl fire { s with timers := s.timers.filter (s.clock < ·.due) })

/-- Does all that can be done without time passing. -/
def settle (s : Session) : Session := s.advanceTo s.clock

/-- The instants at which something is due: a timer or the deadline of a request. -/
def instants (s : Session) : List Nat :=
  s.timers.map (·.due) ++
    (s.waiters.filter (·.answer.isNone)).filterMap (·.deadline)

/-- Moves from instant to instant as long as `goOn` holds of the session and the next instant. -/
def advanceWhile (goOn : Session → Nat → Bool) : Nat → Session → Session
  | 0, s => s
  | fuel + 1, s =>
    match s.instants.min? with
    | none => s
    | some instant =>
      if goOn s instant then advanceWhile goOn fuel (s.advanceTo (max s.clock instant)) else s

/-- Moves from instant to instant. Every instant leaves fewer of them. -/
def advance (s : Session) (goOn : Session → Nat → Bool) : Session :=
  advanceWhile goOn (s.instants.length + 1) s

/-! ### Requests -/

/-- Changes the text of a document, and answers how many bytes it has then. -/
def apply (s : Session) (uri : DocumentUri) (change : Change) :
    Session × Except BuildError Nat :=
  match s.applyChange uri change with
  | (s, .error e) => (s.settle, .error e)
  | (s, .ok ()) => (s.settle, .ok (((s.workspace.documents.get? uri).map (·.byteSize)).getD 0))

/-- Builds the workspace now (`update`). -/
def update (s : Session) (changed deleted : List DocumentUri) :
    Session × Except BuildError Unit :=
  let (s, outcome) := { s with pending := s.pending + 1 }.rebuild changed deleted
  (s.settlePending.settle, outcome)

/-- Schedules a build (`schedule`). It takes the place of one scheduled before. -/
def schedule (s : Session) (ms : Nat) : Session :=
  let ticket := s.ticket + 1
  settle { s with
    ticket
    pending := s.pending + 1
    timers := s.timers ++ [{ due := s.clock + ms, ticket }] }

/-- Lets time pass. -/
def sleep (s : Session) (ms : Nat) : Session :=
  let target := s.clock + ms
  (s.advance fun _ instant => instant ≤ target).advanceTo target

def shutdown (s : Session) : Session := s.stop.settle

def setOptions (s : Session) (options : ValidationOptions) : Session :=
  { s with workspace := { s.workspace with options } }

def addHook (s : Session) (hook : Hook) : Session := { s with hooks := s.hooks ++ [hook] }

/-- The answer to a request, if it has one. -/
def answerOf (s : Session) (name : Option String) : Option WaitAnswer :=
  (s.waiters.find? (·.name == name)).bind (·.answer)

/-- Starts a request. It takes the place of one with the same name. -/
def enlist (s : Session) (x : Waiter) : Session :=
  poll { s with waiters := s.waiters.filter (·.name != x.name) ++ [x] }

/-- Lets time pass until a request is answered, and ends it. -/
def conclude (s : Session) (name : Option String) : Session × Option WaitAnswer :=
  let s := s.advance fun s _ => (s.answerOf name).isNone
  (settle { s with waiters := s.waiters.filter (·.name != name) }, s.answerOf name)

/-- Waits for a document. A request is cancelled after `cancelAfter`. -/
def wait (s : Session) (uri : DocumentUri) (aim : Aim) (cancelAfter : Option Nat) :
    Session × Option WaitAnswer :=
  (s.enlist { name := none, uri, aim, deadline := cancelAfter.map (s.clock + ·) }).conclude none

/-- Waits for a document in the background. -/
def spawnWait (s : Session) (name : String) (uri : DocumentUri) (target : DocumentState)
    (cancelAfter : Option Nat) : Session :=
  settle (s.enlist
    { name := some name, uri, aim := .reach target, deadline := cancelAfter.map (s.clock + ·) })

/-- Waits for a request in the background to be answered, if there is one of that name. -/
def join (s : Session) (name : String) : Session × Option WaitAnswer :=
  if s.waiters.any (·.name == some name) then s.conclude (some name) else (s.settle, none)

/-- Asks for a report of a document (`get_diagnostics`). One that still holds is answered at once. -/
def pull (s : Session) (uri : DocumentUri) (previous : Option String) (cancelAfter : Option Nat) :
    Session × Except BuildError ReportAnswer :=
  match s.reports.cached.get? uri with
  | some report => (s.settle, .ok (.of previous report))
  | none =>
    match s.wait uri .report cancelAfter with
    | (s, some (.report report)) => (s, .ok (.full report))
    | (s, some (.failed e)) => (s, .error e)
    | (s, _) => (s, .error .interrupted)

/-- Takes what listeners have heard since the last time. -/
def takeEvents (s : Session) : Session × List Event := ({ s with events := [] }, s.events)

end Session

end Workbench
