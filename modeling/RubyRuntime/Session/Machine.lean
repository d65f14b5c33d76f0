import RubyRuntime.Session.MutexOps
import RubyRuntime.Session.ObjectOps
import RubyRuntime.Session.QueueOps
import RubyRuntime.Session.StackOps
import RubyRuntime.Session.ThreadOps
import RubyRuntime.Session.WeakOps

/-!
# The session machine

A machine is a world with its executors. `Machine.step` lets one executor take one atomic step:
performing a step that does not wait, entering a critical section, or handing an outcome to the
frame that waits for it. Any order of such steps is a possible run.
-/
namespace RubyRuntime.Session

/-- A world, the executors that run in it, what is shown after each step of the session, and the
executors of spawned threads by name. Executor 0 runs the session. -/
structure Machine where
  world : World
  executors : List Executor
  watched : List Watched
  handles : List (String × Nat) := []

def Awaited.holds (w : World) : Awaited → Bool
  | conditionWaiters name n => (w.sync.condition (w.conditionNamed name).1).waiters == n
  | queueWaiting name n => (w.queue (w.queueNamed name).1).waiting == n
  | boundedWaiting name n =>
    ((w.boundedNamed? name).map fun q => (w.boundedQueue q).waiting) == some n
  | lockWaiting name n => (w.sync.lock (w.lockNamed name).1).waiting == n
  | queueSize name n => (w.queue (w.queueNamed name).1).items.length == n
  | boundedSize name n => ((w.boundedNamed? name).map fun q => (w.boundedQueue q).size) == some n
  | safepoints n => w.sync.safepoints == n
  | unlocked name => !(w.sync.lock (w.lockNamed name).1).isLocked
  | locked name => (w.sync.lock (w.lockNamed name).1).isLocked
  | sleeping name => (w.thread (w.threadNamed name).1).status == .sleep
  | dead name => (w.thread (w.threadNamed name).1).status == .dead

def Awaited.mention (w : World) : Awaited → World
  | conditionWaiters name _ => (w.conditionNamed name).2
  | queueWaiting name _ | queueSize name _ => (w.queueNamed name).2
  | lockWaiting name _ | unlocked name | locked name => (w.lockNamed name).2
  | sleeping name | dead name => (w.threadNamed name).2
  | boundedWaiting _ _ | boundedSize _ _ | safepoints _ => w

def World.callBounded (w : World) (stack : List Frame) (s : String)
    (f : Nat → Task) : Task :=
  match w.boundedNamed? s with
  | some q => f q
  | none => w.giveFailure stack (.panic ("no bounded queue " ++ s))

def CallOp.start (held : List ObjectRef) (w : World) (stack : List Frame) :
    CallOp Body Step → Task
  | .poll name =>
    let (t, w) := w.threadNamed name
    w.startPoll (.showing .null :: stack) t
  | .sleep name timeout =>
    let (t, w) := w.threadNamed name
    w.startSleep (.showing (.slept timeout) :: stack) t timeout
  | .runUntil name script plain =>
    let (t, w) := w.threadNamed name
    w.startBlocking (.showing (.attempts t) :: stack) (.scripted t script plain)
  | .spawn _ _ _ | .join _ => w.give stack .unit
  | .await what => ⟨what.mention w, .awaiting what, stack⟩
  | .lock t m =>
    let (t, l, w) := w.threadAndLock t m
    w.startMutex (.showing .null :: stack) t l
  | .lockInternal t m =>
    let (t, l, w) := w.threadAndLock t m
    w.startLock (.showing .null :: stack) t l
  | .lockEven t m holds =>
    let (t, l, w) := w.threadAndLock t m
    w.startRelock (.showing .null :: stack) t l holds
  | .mutexSleep t m timeout =>
    let (t, l, w) := w.threadAndLock t m
    w.startMutexSleep (.showing (.slept timeout) :: stack) t l timeout
  | .synchronize t m body =>
    let (t, l, w) := w.threadAndLock t m
    w.startGuarded (.showing .shown :: stack) t l body .synchronize
  | .guarded t m body unlock =>
    let (t, l, w) := w.threadAndLock t m
    w.startGuarded (.showing .null :: stack) t l body (.guarded unlock)
  | .rawLock t m =>
    let (t, l, w) := w.threadAndLock t m
    ⟨w, .attempt (.acquire t l), .showing .null :: stack⟩
  | .wait t m cv timeout =>
    let (t, l, w) := w.threadAndLock t m
    let (c, w) := w.conditionNamed cv
    w.startWait (.showing .waited :: stack) t l c timeout
  | .take t q =>
    let (t, w) := w.threadNamed t
    let (q, w) := w.queueNamed q
    w.startBlocking (.showing .taken :: stack) (.take t q none)
  | .pollTimeout t q timeout =>
    let (t, w) := w.threadNamed t
    let (q, w) := w.queueNamed q
    w.startBlocking (.showing .polled :: stack) (.take t q (timeout.deadline w.clock))
  | .pop t q =>
    let (t, w) := w.threadNamed t
    let (q, w) := w.queueNamed q
    w.startBlocking (.showing .popped :: stack) (.take t q none)
  | .popTimeout t q timeout =>
    let (t, w) := w.threadNamed t
    let (q, w) := w.queueNamed q
    w.startBlocking (.showing .popped :: stack) (.take t q (timeout.deadline w.clock))
  | .boundedPut t s v => w.callBounded stack s fun q =>
    let (t, w) := w.threadNamed t
    let (v, w) := w.evaluate v
    w.startBlocking (.showing .flag :: stack) (.put t q v)
  | .boundedTake t s => w.callBounded stack s fun q =>
    let (t, w) := w.threadNamed t
    w.startBlocking (.showing .taken :: stack) (.boundedTake t q none)
  | .boundedPollTimeout t s timeout => w.callBounded stack s fun q =>
    let (t, w) := w.threadNamed t
    w.startBlocking (.showing .polled :: stack) (.boundedTake t q (timeout.deadline w.clock))
  | .boundedPush t s v => w.callBounded stack s fun q =>
    let (t, w) := w.threadNamed t
    let (v, w) := w.evaluate v
    w.startBlocking (.showing .pushed :: stack) (.put t q v)
  | .boundedPop t s => w.callBounded stack s fun q =>
    let (t, w) := w.threadNamed t
    w.startBlocking (.showing .popped :: stack) (.boundedTake t q none)
  | .boundedPopTimeout t s timeout => w.callBounded stack s fun q =>
    let (t, w) := w.threadNamed t
    w.startBlocking (.showing .popped :: stack) (.boundedTake t q (timeout.deadline w.clock))
  | .finalize run => w.startFinalizers held (.showing .shown :: stack) run
  | .each wm what block => w.startEach held (.showing .shown :: stack) wm what block
  | .frame name frames steps forget =>
    let (t, w) := w.threadNamed name
    let depth := if frames.isEmpty || forget then none else some (w.thread t).stack.depth
    let w := w.updateThread t fun thread =>
      { thread with stack := frames.foldl (fun stack frame => stack.push frame) thread.stack }
    BodyRun.proceed
      { kind := .frames t depth, remaining := steps,
        ending := { raises := none, panics := none, value := .null } }
      w (.showing .shown :: stack)

/-- How the result of a sleep is shown: whether it was as long as asked for. -/
def reportSlept (timeout : Timeout) (elapsed : Nat) : Report :=
  match timeout with
  | .forever => .record [("full", .null)]
  | .millis n => .record [("full", .bool (n ≤ elapsed))]
  | .unbounded => .record [("full", .bool false)]

def reportAttempts (w : World) (t : ThreadId) (running : Running) (result : Report) : Report :=
  .record [
    ("attempts", .list (running.attempts.reverse.map fun (cue, status) =>
      .list [.text cue.display, .text status.display])),
    ("resumes", .nat running.resumes), ("result", result),
    ("status", .text (w.thread t).status.display)]

def Showing.apply (w : World) (running : Running) (how : Showing) (outcome : Outcome) : Outcome :=
  let shown := fun r => (.ok (.report r) : Outcome)
  match how, outcome with
  | attempts t, .ok _ => shown (reportAttempts w t running (.text "ok"))
  | attempts t, .error (.error e) =>
    shown (reportAttempts w t running (.record (failureFields (.error e))))
  | _, .error failure => .error failure
  | null, .ok _ => shown .null
  | flag, .ok (.flag b) => shown (.bool b)
  | pushed, .ok (.flag b) =>
    if b then shown .null else .error (.error Cause.queueClosed.error)
  | taken, .ok (.taken (some (.item v))) => shown (w.reportItem (some v))
  | taken, .ok (.taken _) => shown (.text "Closed")
  | polled, .ok (.taken (some (.item v))) => shown (w.reportItem (some v))
  | polled, .ok (.taken (some .closed)) => shown (.text "Closed")
  | polled, .ok (.taken none) => shown (.text "TimedOut")
  | popped, .ok (.taken item) => shown (w.reportItem (item.bind Taken.item?))
  | slept timeout, .ok (.elapsed millis) => shown (reportSlept timeout millis)
  | waited, .ok (.waited result) => shown (.text result.display)
  | _, .ok (.report r) => shown r
  | _, .ok _ => shown .null

def innermost : List Frame → Running
  | .step running :: _ => running
  | _ :: rest => innermost rest
  | [] => { strict := false }

def Running.answer (running : Running) (outcome : Outcome) : Report :=
  let fields := match outcome with
    | .ok (.report r) => [("r", r)]
    | .ok _ => [("r", .null)]
    | .error failure => failureFields failure
  .record (if running.events.isEmpty then fields
    else fields ++ [("ev", .list running.events.reverse)])

/-- What stays of an action's resume callback: a count and an event. -/
def resumed (wait : Wait) (stack : List Frame) : List Frame :=
  match wait with
  | .scripted _ _ false =>
    updateRunning (fun running =>
      let count := running.resumes + 1
      { running with
        resumes := count
        events := .record [("resume", .nat count)] :: running.events }) stack
  | _ => stack

/-- Hands an outcome to a frame. A panic goes past every frame but those that clean up. -/
def Frame.receive (frame : Frame) (w : World) (stack : List Frame) (outcome : Outcome) : Task :=
  match frame, outcome with
  | .step running, outcome =>
    let failure := match outcome with
      | .error (.error e) => if running.strict then some e else none
      | _ => none
    ⟨w, .answer (running.answer outcome) failure, stack⟩
  | .showing how, outcome => ⟨w, .give (how.apply w (innermost stack) outcome), stack⟩
  | .blocking wait previous, .ok result =>
    (w.updateThread wait.thread fun thread => { thread with status := previous }).give stack result
  | .polled wait, .ok _ => w.startBlocking (resumed wait stack) wait
  | .polled wait, .error (.error e) => w.giveError (resumed wait stack) e
  | .polling t, .ok _ => w.nextAction stack t
  | .polling t, .error (.error e) =>
    let w := if (w.thread t).pending then w.updateThread t Signal.interrupting.deliver else w
    (w.updateSync fun s => { s with safepoints := s.safepoints + 1 }).giveError stack e
  | .acquiring t l, .ok result => w.recordAnd stack t l (.ok result)
  | .relocking t l holds pending, .ok _ => w.relocked stack t l holds pending
  | .relocking t l holds pending, .error (.error e) =>
    w.startBlocking (.relocking t l holds (pending.or (some e)) :: stack) (.acquire t l)
  | .waitPolled wait holds, .ok _ => ⟨w, .condition wait (.returning holds none) none, stack⟩
  | .waitPolled wait holds, .error (.error e) =>
    ⟨w, .condition wait (.returning holds (some e)) none, stack⟩
  | .waitOver (.error e), .ok _ | .waitOver (.error e), .error (.error _) => w.giveError stack e
  | .waitOver (.ok result), .ok _ => w.give stack (.waited result)
  | .timing start, .ok _ => w.give stack (.elapsed (w.clock - start))
  | .sleeping t l, .ok (.elapsed millis) => w.startRelock (.sleepOver (.ok millis) :: stack) t l 1
  | .sleeping t l, .error (.error e) => w.startRelock (.sleepOver (.error e) :: stack) t l 1
  | .sleepOver (.error e), .ok _ | .sleepOver (.error e), .error (.error _) => w.giveError stack e
  | .sleepOver (.ok millis), .ok _ => w.give stack (.elapsed millis)
  | .entering t l callback kind, .ok _ =>
    let tag := match kind with
      | .synchronize => [("in", Report.text "sync")]
      | .guarded _ => [("in", .text "guard"), ("same", .bool true)]
    w.startBody (.guarding t l kind :: stack) (.callback tag) callback
  | .guarding t l kind, outcome => w.guardOver stack t l kind outcome
  | .unlocking outcome, .ok _ => ⟨w, .give outcome, stack⟩
  | .lyingDown t l timeout, .ok _ => w.startSleep (.sleeping t l :: stack) t timeout
  | .finalizing calls ran, .ok _ | .finalizing calls ran, .error (.error _) =>
    w.nextFinalizer stack calls ran
  | .iterating iteration, .ok _ => w.nextItem stack iteration
  | .iterating iteration, .error failure =>
    w.giveFailure (World.reportCalls iteration.calls stack) failure
  | _, outcome => ⟨w, .give outcome, stack⟩

def nextStep (w : World) (remaining : List Step) (answers : List Report) : Task :=
  match remaining with
  | [] => ⟨w, .finished (.list answers.reverse), []⟩
  | step :: rest =>
    ⟨w, .perform step.op, [.step { strict := step.isStrict }, .session rest answers]⟩

def addFields (fields : List (String × Report)) : Report → Report
  | .record old => .record (old ++ fields)
  | report => report

def receiveAnswer (watched : List Watched) (held : List ObjectRef) (w : World)
    (stack : List Frame) (report : Report) (failure : Option Error) : Task :=
  match stack with
  | .body run :: stack =>
    let run := { run with answers := report :: run.answers }
    match failure with
    | some e => run.conclude (some e) w stack
    | none => run.proceed w stack
  | .session remaining answers :: _ =>
    let (shown, w) := w.snapshots held watched
    let shown := if watched.isEmpty then [] else [("st", Report.list shown)]
    nextStep w remaining (addFields shown report :: answers)
  | stack => ⟨w, .finished report, stack⟩

def noteAttempt (w : World) (wait : Wait) (stack : List Frame) : List Frame :=
  match wait with
  | .scripted t cues _ =>
    updateRunning (fun running =>
      { running with
        attempts := (cues.head?.getD .ok, (w.thread t).status) :: running.attempts }) stack
  | _ => stack

def afterAttempt (stack : List Frame) (w : World) : Progress → Task
  | .done result => w.give stack result
  | .interrupted wait => ⟨w, .interrupted wait, stack⟩
  | .parked wait ticket wakeAt => ⟨w, .parked wait ticket wakeAt, stack⟩
  | .panics text => w.giveFailure stack (.panic text)

def parkEnd? (wait : ConditionWait) (w : World) : WaitPhase → Option Nat
  | .parked _ _ => some (Wait.sliceEnd w wait.deadline)
  | _ => none

/-- The next step of a condition wait of executor `me`: it leaves the phases that only its caller
can leave, or takes a step of its own. -/
def continueWait (me : Nat) (wait : ConditionWait) (phase : WaitPhase) (w : World)
    (stack : List Frame) : Task :=
  match phase with
  | .polling holds => w.startPoll (.waitPolled wait holds :: stack) wait.thread
  | .relocking holds result =>
    w.startRelock (.waitOver result :: stack) wait.thread wait.lock holds
  | phase =>
    let (phase, sync) := wait.step w.clock me phase w.sync
    let w := { w with sync }
    ⟨w, .condition wait phase (parkEnd? wait w phase), stack⟩

def afterReply (stack : List Frame) (reply : Reply) : Task :=
  ⟨reply.world, .give (reply.result.map Yield.report),
    reply.events.foldl (fun stack event => reportEvent event stack) stack⟩

namespace Machine

def held (m : Machine) : List ObjectRef :=
  m.executors.flatMap (Executor.objects m.world)

def put (m : Machine) (me : Nat) (current : Option ThreadId) (task : Task) : Machine :=
  { m with
    world := task.world
    executors := m.executors.set me ⟨current, task.control, task.stack⟩ }

/-- Starts a thread with a body of its own. A thread whose host thread cannot bear its name is
created and registered, but never starts and goes by no name of the session. -/
def spawn (m : Machine) (me : Nat) (e : Executor) (name : String) (threadName : Option String)
    (body : Body) : Machine :=
  match threadName.bind hostNameRefusal? with
  | some text =>
    let w := m.world.updateSync fun s => (s.createThread threadName).2
    m.put me e.current (w.giveFailure e.stack (.panic text))
  | none =>
    let (t, w) := m.world.newThread name threadName
    let task := w.startBody [] (.thread t) body
    let m := m.put me e.current (task.world.give e.stack .unit)
    { m with
      executors := m.executors ++ [⟨some t, task.control, task.stack⟩]
      handles := setNamed name m.executors.length m.handles }

def perform (m : Machine) (me : Nat) (e : Executor) (op : Op) : Machine :=
  let w := m.world
  let scope : Scope := ⟨me, e.current, m.held⟩
  match op with
  | .thread op =>
    let (reply, current) := op.perform scope w
    m.put me current (afterReply e.stack reply)
  | .mutex op => if op.mustWait w then m else m.put me e.current (op.start w e.stack)
  | .queue op => m.put me e.current (afterReply e.stack (op.perform w))
  | .object op => m.put me e.current (afterReply e.stack (op.perform w))
  | .space op => m.put me e.current (afterReply e.stack (op.perform scope w))
  | .weak op => m.put me e.current (afterReply e.stack (op.perform scope w))
  | .stack op => m.put me e.current (afterReply e.stack (op.perform w))
  | .call (.spawn name threadName body) => m.spawn me e name threadName body
  | .call (.join name) =>
    match m.handles.lookup name with
    | some target => m.put me e.current ⟨w, .joining target, e.stack⟩
    | none => m.put me e.current (w.giveFailure e.stack (.panic ("no handle " ++ name)))
  | .call op => m.put me e.current (op.start scope.held w e.stack)

def result? (m : Machine) (target : Nat) : Option Report :=
  match m.executors[target]? with
  | some ⟨_, .finished result, _⟩ => some result
  | _ => none

/-- One atomic step of executor `me`. An executor that waits for something stays as it is until that
has come about. -/
def step (m : Machine) (me : Nat) : Machine :=
  match m.executors[me]? with
  | none => m
  | some e =>
    let w := m.world
    let next := m.put me e.current
    match e.control with
    | .perform op => m.perform me e op
    | .attempt wait =>
      let stack := noteAttempt w wait e.stack
      let (ticket, w) := w.drawTicket
      let (w, progress) := wait.attempt ticket w
      next (afterAttempt stack w progress)
    | .parked wait old _ =>
      let (ticket, w) := w.drawTicket
      let (w, progress) := wait.resume old ticket w
      next (afterAttempt e.stack w progress)
    | .releasing t l => next (w.release e.stack t l)
    | .interrupted wait =>
      match e.stack with
      | .blocking _ previous :: stack =>
        let w := w.updateThread wait.thread fun thread => { thread with status := previous }
        next (w.startPoll (.polled wait :: stack) wait.thread)
      | stack => next (w.giveFailure stack .interrupted)
    | .condition wait phase _ =>
      next (continueWait me wait phase w e.stack)
    | .awaiting what =>
      if what.holds w then next (w.give e.stack (.report (.bool true))) else m
    | .joining target =>
      match m.result? target with
      | some result => next (w.give e.stack (.report result))
      | none => m
    | .give outcome =>
      match e.stack with
      | frame :: stack => next (frame.receive w stack outcome)
      | [] => next ⟨w, .finished .null, []⟩
    | .answer report failure =>
      next (receiveAnswer m.watched m.held w e.stack report failure)
    | .finished _ => m

end Machine

end RubyRuntime.Session
