import RubyRuntime.Session.World

/-!
# Thread and safepoint steps
-/
namespace RubyRuntime.Session

def threadDebug (label : String) (thread : ThreadRecord Action) : String :=
  let name := match thread.name with
    | some name => "Some(" ++ Text.quote name ++ ")"
    | none => "None"
  "RubyThread \x7b id: ThreadId(" ++ label ++ "), name: " ++ name ++ ", status: " ++
    thread.status.display ++ " \x7d"

def World.threadInfo (w : World) (t : ThreadId) : Report :=
  let thread := w.thread t
  .record [("name", .textOrNull thread.name), ("status", .text thread.status.display),
    ("alive", .bool thread.isAlive), ("owned", .nat thread.ownedLocks.length),
    ("pending", .bool thread.pending), ("depth", .nat thread.stack.depth),
    ("registered", .bool (w.sync.registered.contains t)), ("poll_ms", .nat w.options.pollInterval),
    ("same_safepoints", .bool true)]

def World.changeThread (w : World) (name : String)
    (f : ThreadRecord Action → ThreadRecord Action) : Reply :=
  let (t, w) := w.threadNamed name
  (w.updateThread t f).reply .null

/-- Performs a thread step; also gives the thread that is bound to the executor from now on. -/
def ThreadOp.perform (scope : Scope) (w : World) :
    ThreadOp Body → Reply × Option ThreadId
  | .create name threadName => ((w.newThread name threadName).2.reply .null, scope.current)
  | .attach name =>
    let (t, w) := w.newThread name (some name)
    (w.reply .null, some t)
  | .detach =>
    match scope.current with
    | some t => ((w.updateSync (·.finishThread t)).reply .null, none)
    | none => (w.reply .null, none)
  | .current =>
    (w.reply (.textOrNull (scope.current.bind w.threadLabel?)), scope.current)
  | .info name =>
    let (t, w) := w.threadNamed name
    (w.reply (w.threadInfo t), scope.current)
  | .list =>
    let names := w.sync.registered.map fun t => Report.textOrNull (w.threadLabel? t)
    (w.reply (.record [("names", Report.sorted names), ("len", .nat names.length),
      ("empty", .bool names.isEmpty)]), scope.current)
  | .debug name =>
    let (t, w) := w.threadNamed name
    (w.reply (.text (threadDebug name (w.thread t))), scope.current)
  | .idsIncrease => (w.reply (.list [.bool true, .bool true]), scope.current)
  | .interrupt name => (w.changeThread name Signal.interrupting.deliver, scope.current)
  | .clearWakeUp name => (w.changeThread name (·.dropWakeUp), scope.current)
  | .setWakeUp name => (w.changeThread name Signal.waking.deliver, scope.current)
  | .takeInterrupt name =>
    let (t, w) := w.threadNamed name
    ((w.updateThread t (·.dropInterrupt)).reply (.bool (w.thread t).interrupted), scope.current)
  | .takeWakeUp name =>
    let (t, w) := w.threadNamed name
    ((w.updateThread t (·.dropWakeUp)).reply (.bool (w.thread t).wakeUp), scope.current)
  | .checkInterrupted name =>
    let (t, w) := w.threadNamed name
    let result := if (w.thread t).interrupted then .error .interrupted else .ok .null
    ({ world := w.updateThread t (·.dropInterrupt), result }, scope.current)
  | .wakeUp name =>
    let (t, w) := w.threadNamed name
    if (w.thread t).isAlive then
      ((w.updateThread t Signal.waking.deliver).reply .null, scope.current)
    else (w.fail Cause.deadThread.error, scope.current)
  | .raiseIn name e =>
    let (t, w) := w.threadNamed name
    ((w.updateSync (·.submitIfAlive t (.raises e))).reply .null, scope.current)
  | .kill name =>
    let (t, w) := w.threadNamed name
    ((w.updateSync (·.submitIfAlive t .kills)).reply .null, scope.current)
  | .submit name label body =>
    let (t, w) := w.threadNamed name
    ((w.updateSync (·.submit t (.callback label body))).reply .null, scope.current)
  | .pauseAll label body =>
    ((w.updateSync fun s => s.submitAll s.registered (.callback label body)).reply .null,
      scope.current)
  | .pauseSome names label body =>
    let (ts, w) := names.foldl (fun (ts, w) name =>
      let (t, w) := w.threadNamed name
      (ts ++ [t], w)) (([] : List ThreadId), w)
    ((w.updateSync (·.submitAll ts (.callback label body))).reply .null, scope.current)
  | .stats =>
    (w.reply (.record [("submitted", .nat w.sync.submitted), ("safepoints", .nat w.sync.safepoints),
      ("max_le_total", .bool true)]), scope.current)
  | .resetStats =>
    ((w.updateSync fun s => { s with submitted := 0, safepoints := 0 }).reply .null,
      scope.current)

end RubyRuntime.Session
