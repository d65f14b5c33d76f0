import RubyRuntime.Session.Calls

/-!
# Mutex, lock and condition steps that do not wait
-/
namespace RubyRuntime.Session

def World.mutexInfo (w : World) (t : ThreadId) (l : LockId) : Report :=
  let lock := w.sync.lock l
  let thread := w.thread t
  .record [("locked", .bool lock.isLocked), ("owned", .bool (lock.isHeldBy t)),
    ("owner", .textOrNull (lock.owner.bind w.threadLabel?)),
    ("holds", .nat (lock.holdCount t).toNat), ("in_list", .bool (thread.ownedLocks.contains l)),
    ("owned_locks", .nat thread.ownedLocks.length), ("waiting", .nat lock.waiting)]

def World.mutexDebug (w : World) (label : String) (l : LockId) : String :=
  let owner := match (w.sync.lock l).owner with
    | some t => "Some(ThreadId(" ++ (w.threadLabel? t).getD "?" ++ "))"
    | none => "None"
  "Mutex \x7b lock: ReentrantLock \x7b id: MutexId(" ++ label ++ "), owner: " ++ owner ++
    " \x7d \x7d"

/-- Whether a step has to wait until nobody is inside the private critical section of its
condition. -/
def MutexOp.mustWait (w : World) : MutexOp → Bool
  | .signal cv | .broadcast cv | .conditionInfo cv =>
    (w.sync.condition (w.conditionNamed cv).1).holder.isSome
  | _ => false

def MutexOp.start (w : World) (stack : List Frame) : MutexOp → Task
  | .unlock t m =>
    let (t, l, w) := w.threadAndLock t m
    w.startUnlock (.showing .null :: stack) t l
  | .checkOwned t m =>
    let (t, l, w) := w.threadAndLock t m
    match w.sync.checkOwned t l with
    | .ok () => w.give stack .unit
    | .error e => w.giveError stack e
  | .unlockInternal t m =>
    let (t, l, w) := w.threadAndLock t m
    w.release stack t l
  | .tryLock t m =>
    let (t, l, w) := w.threadAndLock t m
    w.startTryLock (.showing .flag :: stack) t l
  | .info t m =>
    let (t, l, w) := w.threadAndLock t m
    w.give stack (.report (w.mutexInfo t l))
  | .debug m =>
    let (l, w) := w.lockNamed m
    w.give stack (.report (.text (w.mutexDebug m l)))
  | .dump what => w.giveError stack (Cause.undumpable what).error
  | .rawTry t m =>
    let (t, l, w) := w.threadAndLock t m
    match w.sync.acquire t l with
    | .acquired sync => { w with sync }.give stack (.report (.bool true))
    | .busy => w.give stack (.report (.bool false))
    | .exhausted => w.giveFailure stack (.panic Sync.holdsExhausted)
  | .rawUnlock t m =>
    let (t, l, w) := w.threadAndLock t m
    match (w.sync.lock l).unlock t with
    | .ok lock =>
      (w.updateSync (·.updateLock l fun _ => lock)).give stack (.report (.nat lock.holds.toNat))
    | .error e => w.giveFailure stack (.lock e (w.lockErrorText t l e))
  | .rawRelease t m =>
    let (t, l, w) := w.threadAndLock t m
    (w.updateSync (·.updateLock l (·.releaseFully t))).give stack
      (.report (.nat ((w.sync.lock l).holdCount t).toNat))
  | .rawSetHold t m holds =>
    let (t, l, w) := w.threadAndLock t m
    (w.updateSync (·.updateLock l (·.setHoldCount t holds))).give stack .unit
  | .signal cv =>
    let (c, w) := w.conditionNamed cv
    (w.updateSync (·.updateCondition c (·.signal))).give stack .unit
  | .broadcast cv =>
    let (c, w) := w.conditionNamed cv
    (w.updateSync (·.updateCondition c (·.broadcast))).give stack .unit
  | .conditionInfo cv =>
    let (c, w) := w.conditionNamed cv
    let condition := w.sync.condition c
    w.give stack (.report (.record
      [("waiters", .nat condition.waiters), ("signals", .nat condition.signals)]))

end RubyRuntime.Session
