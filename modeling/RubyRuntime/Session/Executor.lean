import RubyRuntime.Session.Blocking

/-!
# Executors

An executor runs the steps of the session or of a spawned thread. What it is doing is its control;
what it has still to do is a stack of frames, the innermost first. A frame receives the outcome of
what was started above it.
-/
namespace RubyRuntime.Session

abbrev Outcome := Except Failure Yield

/-- A step in progress: what it has reported, the attempts of its scripted action with the status
seen in each, and how often that action was resumed. The newest entries come first. -/
structure Running where
  strict : Bool
  events : List Report := []
  attempts : List (Cue × Status) := []
  resumes : Nat := 0

/-- Whose steps a body holds, which decides what happens at its end. -/
inductive BodyKind where
  | callback (tag : List (String × Report))
  | thread (t : ThreadId)
  | block (call : Nat) (reports : Bool)
  /-- Steps inside pushed stack frames. However the steps end, the stack is then cut back to the
  given depth; there is none when no frame was pushed or the frames are to stay. -/
  | frames (t : ThreadId) (depth : Option Nat)

structure BodyRun where
  kind : BodyKind
  remaining : List Step
  answers : List Report := []
  ending : Ending

inductive GuardKind where
  | synchronize
  | guarded (unlock : Bool)

inductive Showing where
  | null
  | flag
  | shown
  | taken
  | polled
  | popped
  | pushed
  | slept (timeout : Timeout)
  | waited
  | attempts (t : ThreadId)

/-- An iteration over a weak map: the item that the block is running with, the items left, those
given to the block so far, the block, which may be without a list of steps, and the number of its
calls. -/
structure Iteration where
  current : List Value := []
  items : List (List Value)
  yielded : List Report := []
  block : Block Step
  calls : Nat := 0

/-- What is left to do when the call above has come to its outcome. -/
inductive Frame where
  | session (remaining : List Step) (answers : List Report)
  | body (run : BodyRun)
  | step (running : Running)
  | showing (how : Showing)
  | blocking (wait : Wait) (previous : Status)
  | polled (wait : Wait)
  | polling (t : ThreadId)
  | acquiring (t : ThreadId) (l : LockId)
  /-- A mutex is being taken again, whatever errors come; the first one is kept. -/
  | relocking (t : ThreadId) (l : LockId) (holds : UInt32) (pending : Option Error)
  | waitPolled (wait : ConditionWait) (holds : UInt32)
  /-- A condition wait is over and its lock is being taken again. -/
  | waitOver (result : Except Error WaitOutcome)
  /-- A mutex is being unlocked, which does not change the outcome of the body that it guarded. -/
  | unlocking (outcome : Outcome)
  | lyingDown (t : ThreadId) (l : LockId) (timeout : Timeout)
  | timing (start : Nat)
  | sleeping (t : ThreadId) (l : LockId)
  /-- A sleep is over and the mutex is being taken again. -/
  | sleepOver (result : Except Error Nat)
  | entering (t : ThreadId) (l : LockId) (body : Body) (guard : GuardKind)
  | guarding (t : ThreadId) (l : LockId) (guard : GuardKind)
  /-- Finalizers are running; these are left, and so many have been started. -/
  | finalizing (calls : List (Nat × Finalizer)) (ran : Nat)
  | iterating (iteration : Iteration)

inductive Control where
  | perform (op : Op)
  | attempt (wait : Wait)
  | parked (wait : Wait) (ticket : Ticket) (wakeAt : Option Nat)
  /-- About to drop a hold of a mutex that the thread was seen to hold. -/
  | releasing (t : ThreadId) (l : LockId)
  | interrupted (wait : Wait)
  | condition (wait : ConditionWait) (phase : WaitPhase) (wakeAt : Option Nat)
  | awaiting (what : Awaited)
  | joining (executor : Nat)
  | give (outcome : Outcome)
  | answer (report : Report) (failure : Option Error)
  | finished (result : Report)

structure Executor where
  current : Option ThreadId := none
  control : Control
  stack : List Frame

def Outcome.objects : Outcome → List ObjectRef
  | .ok (.taken (some (.item v))) => objectsOf [v]
  | _ => []

def Control.objects (w : World) : Control → List ObjectRef
  | attempt wait | parked wait _ _ | interrupted wait => wait.objects w
  | give outcome => Outcome.objects outcome
  | _ => []

def Frame.objects (w : World) : Frame → List ObjectRef
  | blocking wait _ | polled wait => wait.objects w
  | unlocking outcome => Outcome.objects outcome
  | iterating iteration => (iteration.current :: iteration.items).flatMap objectsOf
  | _ => []

def Executor.objects (w : World) (e : Executor) : List ObjectRef :=
  e.control.objects w ++ e.stack.flatMap (Frame.objects w)

def updateRunning (f : Running → Running) : List Frame → List Frame
  | [] => []
  | .step running :: rest => .step (f running) :: rest
  | frame :: rest => frame :: updateRunning f rest

def reportEvent (event : Report) : List Frame → List Frame :=
  updateRunning fun running => { running with events := event :: running.events }

end RubyRuntime.Session
