import RubyRuntime.CallStack

/-!
# Thread records

The state that the runtime keeps for one guest thread: its status, the two flags by which others ask
it to leave a blocking call, the queue of actions it has to run at its next safepoint, the locks it
has on record, and its call stack. Each operation here is one atomic access.
-/
namespace RubyRuntime

abbrev ThreadId := Nat

abbrev LockId := Nat

inductive Status where
  | run
  | sleep
  | dead
  deriving DecidableEq, Repr

def Status.display : Status → String
  | run => "Run"
  | sleep => "Sleep"
  | dead => "Dead"

/-- The text of the panic when a host thread is to bear a name that holds a NUL: the place of the
first one and the bytes of the name. None for any other name. -/
def hostNameRefusal? (name : String) : Option String :=
  let bytes := name.toUTF8.toList
  (bytes.findIdx? (· == 0)).map fun place =>
    "thread name may not contain interior null bytes: NulError(" ++ toString place ++ ", [" ++
      ", ".intercalate (bytes.map fun byte => toString byte.toNat) ++ "])"

/-- What a sleeping thread is parked on: a lock, and the number of notifications sent so far. -/
structure Parker where
  busy : Bool := false
  notices : Nat := 0
  deriving DecidableEq, Repr

structure ThreadRecord (α : Type) where
  name : Option String := none
  status : Status := .run
  wakeUp : Bool := false
  interrupted : Bool := false
  parker : Parker := {}
  actions : List α := []
  pending : Bool := false
  ownedLocks : List LockId := []
  stack : CallStack := {}

namespace ThreadRecord

variable {α : Type}

def isAlive (thread : ThreadRecord α) : Bool :=
  thread.status != .dead

def interrupt (thread : ThreadRecord α) : ThreadRecord α :=
  { thread with interrupted := true }

/-- The thread after its interrupt has been consumed; whether there was one is `interrupted`. -/
def dropInterrupt (thread : ThreadRecord α) : ThreadRecord α :=
  { thread with interrupted := false }

def requestWakeUp (thread : ThreadRecord α) : ThreadRecord α :=
  { thread with wakeUp := true }

def dropWakeUp (thread : ThreadRecord α) : ThreadRecord α :=
  { thread with wakeUp := false }

def setBusy (busy : Bool) (thread : ThreadRecord α) : ThreadRecord α :=
  { thread with parker := { thread.parker with busy } }

def notify (thread : ThreadRecord α) : ThreadRecord α :=
  { thread with parker := { thread.parker with notices := thread.parker.notices + 1 } }

def pushAction (action : α) (thread : ThreadRecord α) : ThreadRecord α :=
  { thread with actions := thread.actions ++ [action] }

def markPending (thread : ThreadRecord α) : ThreadRecord α :=
  { thread with pending := true }

/-- Takes the oldest action. The flag falls when no action is left. -/
def popAction (thread : ThreadRecord α) : Option α × ThreadRecord α :=
  let rest := thread.actions.tail
  (thread.actions.head?,
    { thread with actions := rest, pending := thread.pending && !rest.isEmpty })

def addOwned (lock : LockId) (thread : ThreadRecord α) : ThreadRecord α :=
  if lock ∈ thread.ownedLocks then thread
  else { thread with ownedLocks := thread.ownedLocks ++ [lock] }

def removeOwned (lock : LockId) (thread : ThreadRecord α) : ThreadRecord α :=
  { thread with ownedLocks := thread.ownedLocks.filter (· ≠ lock) }

end ThreadRecord

end RubyRuntime
