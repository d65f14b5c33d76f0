import RubyRuntime.Session.Executor
import RubyRuntime.Session.Snapshot

/-!
# Calls

How calls that may wait or run callbacks begin: blocking calls, polls, bodies, taking a mutex with
or without regard to errors, finalizer runs and iterations. A call leaves an executor with something
to do and the frames that will receive its outcome.
-/
namespace RubyRuntime.Session

structure Task where
  world : World
  control : Control
  stack : List Frame

namespace World

def give (w : World) (stack : List Frame) (y : Yield) : Task :=
  ⟨w, .give (.ok y), stack⟩

def giveFailure (w : World) (stack : List Frame) (failure : Failure) : Task :=
  ⟨w, .give (.error failure), stack⟩

def giveError (w : World) (stack : List Frame) (e : Error) : Task :=
  w.giveFailure stack (.error e)

def startBlocking (w : World) (stack : List Frame) (wait : Wait) : Task :=
  let previous := (w.thread wait.thread).status
  ⟨w.updateThread wait.thread fun thread => { thread with status := .sleep }, .attempt wait,
    .blocking wait previous :: stack⟩

/-- Cuts the call stack of a thread back to a depth, if one is given. -/
def cutStack (w : World) (t : ThreadId) (depth : Option Nat) : World :=
  match depth with
  | some depth => w.updateThread t fun thread =>
    { thread with stack := thread.stack.truncate depth }
  | none => w

end World

def failureFields : Failure → List (String × Report)
  | .error e => [("error", .text e.className), ("message", .text e.message)]
  | .interrupted =>
    [("error", .text "Interrupted"), ("message", .text "blocking call interrupted")]
  | .lock .notLocked message => [("error", .text "NotLocked"), ("message", .text message)]
  | .lock .notOwner message => [("error", .text "NotOwner"), ("message", .text message)]
  | .panic text => [("error", .text "panic"), ("message", .text text)]

def stepsField (answers : List Report) : List (String × Report) :=
  if answers.isEmpty then [] else [("steps", .list answers)]

/-- How a body ends: with the error of a strict step, else as its ending says. -/
def Ending.outcome (ending : Ending) (strictFailure : Option Error) : Outcome :=
  match strictFailure, ending.panics, ending.raises with
  | some e, _, _ => .error (.error e)
  | none, some text, _ => .error (.panic text)
  | none, none, some e => .error (.error e)
  | none, none, none => .ok (.report ending.value)

def joinReport (outcome : Outcome) (answers : List Report) : Report :=
  let steps := ("steps", Report.list answers)
  match outcome with
  | .ok (.report value) => .record [("value", value), steps]
  | .ok _ => .record [("value", .null), steps]
  | .error (.error e) => .record (failureFields (.error e) ++ [steps])
  | .error _ =>
    .record [("error", .text "fatal"), ("message", .text "thread body panicked"), steps]

namespace BodyRun

/-- Ends a body. A callback reports its event, a thread is finished, pushed stack frames are
dropped. -/
def conclude (run : BodyRun) (strictFailure : Option Error) (w : World) (stack : List Frame) :
    Task :=
  let answers := run.answers.reverse
  let outcome := run.ending.outcome strictFailure
  match run.kind with
  | .callback tag =>
    ⟨w, .give outcome, reportEvent (.record (tag ++ stepsField answers)) stack⟩
  | .thread t =>
    ⟨w.updateSync (·.finishThread t), .finished (joinReport outcome answers), []⟩
  | .block call reports =>
    let event := Report.record (("call", .nat call) :: stepsField answers)
    ⟨w, .give outcome, if reports then reportEvent event stack else stack⟩
  | .frames t depth =>
    let inside := (w.thread t).stack.depth
    let w := w.cutStack t depth
    match outcome with
    | .error failure => w.giveFailure stack failure
    | .ok _ => w.give stack (.report (.record [("inside", .nat inside),
        ("after", .nat (w.thread t).stack.depth), ("steps", .list answers)]))

def proceed (run : BodyRun) (w : World) (stack : List Frame) : Task :=
  match run.remaining with
  | [] => run.conclude none w stack
  | step :: rest =>
    ⟨w, .perform step.op,
      .step { strict := step.isStrict } :: .body { run with remaining := rest } :: stack⟩

end BodyRun

namespace World

def startBody (w : World) (stack : List Frame) (kind : BodyKind) (body : Body) : Task :=
  BodyRun.proceed { kind, remaining := body.steps, ending := body.ending } w stack

def nextAction (w : World) (stack : List Frame) (t : ThreadId) : Task :=
  let (action, thread) := (w.thread t).popAction
  let w := w.updateThread t fun _ => thread
  match action with
  | none => (w.updateSync fun s => { s with safepoints := s.safepoints + 1 }).give stack .unit
  | some (.callback label body) =>
    w.startBody (.polling t :: stack)
      (.callback [("action", .text label), ("on", .textOrNull (w.threadLabel? t))]) body
  | some (.raises e) => w.giveError (.polling t :: stack) (.raised e)
  | some .kills => w.giveError (.polling t :: stack) .killed

def startPoll (w : World) (stack : List Frame) (t : ThreadId) : Task :=
  if (w.thread t).pending then w.nextAction stack t else w.give stack .unit

def recordAnd (w : World) (stack : List Frame) (t : ThreadId) (l : LockId) (outcome : Outcome) :
    Task :=
  match w.sync.record? t l with
  | some sync => ⟨{ w with sync }, .give outcome, stack⟩
  | none => w.giveFailure stack (.panic Sync.notHeld)

/-- Begins to take a mutex for the frame `due`, which will have to record it. -/
def startAcquire (w : World) (stack : List Frame) (t : ThreadId) (l : LockId) (due : Frame) :
    Task :=
  match w.sync.acquire t l with
  | .acquired sync => { w with sync }.give (due :: stack) .unit
  | .busy => w.startBlocking (due :: stack) (.acquire t l)
  | .exhausted => w.giveFailure stack (.panic Sync.holdsExhausted)

/-- Begins to take a mutex; an error while waiting gives it up. -/
def startLock (w : World) (stack : List Frame) (t : ThreadId) (l : LockId) : Task :=
  w.startAcquire stack t l (.acquiring t l)

def startMutex (w : World) (stack : List Frame) (t : ThreadId) (l : LockId) : Task :=
  if w.sync.isHeld t l then w.giveError stack Cause.recursiveLocking.error
  else w.startLock stack t l

def startTryLock (w : World) (stack : List Frame) (t : ThreadId) (l : LockId) : Task :=
  if w.sync.isHeld t l then w.give stack (.flag false)
  else
    match w.sync.acquire t l with
    | .acquired sync => { w with sync }.give (.acquiring t l :: stack) (.flag true)
    | .busy | .exhausted => w.give stack (.flag false)

def startUnlock (w : World) (stack : List Frame) (t : ThreadId) (l : LockId) : Task :=
  match w.sync.checkOwned t l with
  | .ok () => ⟨w, .releasing t l, stack⟩
  | .error e => w.giveError stack e

def unlockPanic (w : World) (t : ThreadId) (l : LockId) (e : LockError) : Failure :=
  .panic (fatalText (w.lockErrorText t l e))

def release (w : World) (stack : List Frame) (t : ThreadId) (l : LockId) : Task :=
  match w.sync.unlockInternal t l with
  | .ok sync => { w with sync }.give stack .unit
  | .error e => w.giveFailure stack (w.unlockPanic t l e)

/-- Sets the holds of a mutex that was taken in spite of errors, records it, and raises the first of
them. -/
def relocked (w : World) (stack : List Frame) (t : ThreadId) (l : LockId) (holds : UInt32)
    (pending : Option Error) : Task :=
  let w := w.updateSync (·.updateLock l (·.setHoldCount t holds))
  w.recordAnd stack t l <| match pending with
    | some e => .error (.error e)
    | none => .ok .unit

def startRelock (w : World) (stack : List Frame) (t : ThreadId) (l : LockId) (holds : UInt32) :
    Task :=
  w.startAcquire stack t l (.relocking t l holds none)

def startSleep (w : World) (stack : List Frame) (t : ThreadId) (timeout : Timeout) : Task :=
  w.startBlocking (.timing w.clock :: stack) (.park t (timeout.deadline w.clock) .entering)

def startMutexSleep (w : World) (stack : List Frame) (t : ThreadId) (l : LockId)
    (timeout : Timeout) : Task :=
  match w.sync.checkOwned t l with
  | .error e => w.giveError stack e
  | .ok () =>
    ⟨w.updateThread t (·.dropWakeUp), .releasing t l, .lyingDown t l timeout :: stack⟩

def startWait (w : World) (stack : List Frame) (t : ThreadId) (l : LockId) (c : ConditionId)
    (timeout : Timeout) : Task :=
  match w.sync.checkOwned t l with
  | .error e => w.giveError stack e
  | .ok () =>
    ⟨w.updateThread t (·.dropWakeUp),
      .condition ⟨t, c, l, timeout.deadline w.clock⟩ .entering none, stack⟩

/-- Ends a body that ran with a mutex. What leaves it by an error or a panic unlocks the mutex only
if it is still held. -/
def guardOver (w : World) (stack : List Frame) (t : ThreadId) (l : LockId) (guard : GuardKind)
    (outcome : Outcome) : Task :=
  match guard, outcome with
  | .synchronize, .ok result => w.startUnlock (.unlocking (.ok result) :: stack) t l
  | .guarded true, .ok _ => w.startUnlock (.unlocking (.ok .unit) :: stack) t l
  | _, outcome =>
    if w.sync.isHeld t l then ⟨w, .releasing t l, .unlocking outcome :: stack⟩
    else ⟨w, .give outcome, stack⟩

def startGuarded (w : World) (stack : List Frame) (t : ThreadId) (l : LockId) (body : Body)
    (guard : GuardKind) : Task :=
  w.startMutex (.entering t l body guard :: stack) t l

def nextFinalizer (w : World) (stack : List Frame) (calls : List (Nat × Finalizer)) (ran : Nat) :
    Task :=
  match calls with
  | [] => w.give stack (.report (.nat ran))
  | (id, finalizer) :: rest =>
    w.startBody (.finalizing rest (ran + 1) :: stack)
      (.callback [("finalizer", .text finalizer.label), ("id", .text (toString id))])
      finalizer.body

def startFinalizers (w : World) (held : List ObjectRef) (stack : List Frame)
    (run : FinalizerRun) : Task :=
  let alive := w.isAlive held
  let (i, space, taken) := match run with
    | .pending name =>
      let i := w.spaceNamed name
      (i, w.space i, (w.space i).finalizers.takeDead alive)
    | .all name =>
      let i := w.spaceNamed name
      (i, w.space i, (w.space i).finalizers.takeAll)
    | .collect name =>
      let i := w.spaceNamed name
      (i, (w.space i).sweep alive, (w.space i).finalizers.takeDead alive)
  (w.setSpace i { space with finalizers := taken.2 }).nextFinalizer stack
    (FinalizerTable.calls taken.1) 0

def reportItems (w : World) : List Value → Report
  | [v] => w.report v
  | vs => .list (vs.map w.report)

def reportCalls (calls : Nat) (stack : List Frame) : List Frame :=
  reportEvent (.record [("calls", .nat calls)]) stack

def nextItem (w : World) (stack : List Frame) (iteration : Iteration) : Task :=
  match iteration.items with
  | [] =>
    w.give (reportCalls iteration.calls stack)
      (.report (.record [("yielded", Report.sorted iteration.yielded.reverse)]))
  | item :: rest =>
    let call := iteration.calls
    let block := iteration.block
    let raises := if call = block.raiseAt then block.raises else none
    let iteration := { iteration with
      current := item
      items := rest
      yielded := w.reportItems item :: iteration.yielded
      calls := call + 1 }
    BodyRun.proceed
      { kind := .block call block.steps.isSome, remaining := block.steps.getD [],
        ending := { raises, panics := none, value := .null } }
      w (.iterating iteration :: stack)

def startEach (w : World) (held : List ObjectRef) (stack : List Frame) (wm : String)
    (what : Yielded) (block : Option (Block Step)) : Task :=
  let (i, w) := w.weakMapNamed wm
  let (pairs, w) := w.weakPairs held i
  let items := pairs.map fun pair => match what with
    | .pairs => [pair.1, pair.2]
    | .keys => [pair.1]
    | .values => [pair.2]
  match block with
  | some block => w.nextItem stack { items, block }
  | none =>
    let stack := reportCalls 0 stack
    if items.isEmpty then w.giveError stack Cause.noBlock.error
    else w.give stack
      (.report (.record [("enumerator", Report.sorted (items.map w.reportItems))]))

end World

end RubyRuntime.Session
