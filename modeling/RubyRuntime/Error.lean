/-!
# Errors of the runtime core

An operation fails with an error of one of six built-in classes, with an exception of an arbitrary
class raised by guest code, or because its thread was killed. `Cause` lists every reason for which
the core itself raises, and `Cause.error` holds their wording.
-/
namespace RubyRuntime

structure Exception where
  className : String
  message : String
  deriving DecidableEq, Repr

def Exception.display (e : Exception) : String :=
  e.message ++ " (" ++ e.className ++ ")"

inductive ErrorKind where
  | thread
  | closedQueue
  | argument
  | localJump
  | range
  | type
  deriving DecidableEq, Repr

def ErrorKind.className : ErrorKind → String
  | .thread => "ThreadError"
  | .closedQueue => "ClosedQueueError"
  | .argument => "ArgumentError"
  | .localJump => "LocalJumpError"
  | .range => "RangeError"
  | .type => "TypeError"

inductive Error where
  | core (kind : ErrorKind) (message : String)
  | raised (exception : Exception)
  | killed
  deriving DecidableEq, Repr

namespace Error

def className : Error → String
  | core kind _ => kind.className
  | raised exception => exception.className
  | killed => "ThreadKill"

def message : Error → String
  | core _ message => message
  | raised exception => exception.message
  | killed => ""

def toException (e : Error) : Exception :=
  ⟨e.className, e.message⟩

def display : Error → String
  | killed => "thread killed"
  | e => e.toException.display

end Error

inductive Undumpable where
  | mutex
  | condition
  | queue
  | sizedQueue
  deriving DecidableEq, Repr

inductive Cause where
  | recursiveLocking
  | unlockForeign
  | unlockFree
  | deadThread
  | queueEmpty
  | queueFull
  | queueClosed
  | capacityNotPositive
  | capacityTooBig
  | noBlock
  | uncollectableKey
  /-- A finalizer was asked for on a value that is never collected. -/
  | finalizerOn (inspected : String)
  | notAnId (hex : String)
  | recycledId (hex : String)
  | undumpable (what : Undumpable)
  deriving DecidableEq, Repr

def Cause.error : Cause → Error
  | recursiveLocking => .core .thread "deadlock; recursive locking"
  | unlockForeign =>
    .core .thread "Attempt to unlock a mutex which is locked by another thread/fiber"
  | unlockFree => .core .thread "Attempt to unlock a mutex which is not locked"
  | deadThread => .core .thread "killed thread"
  | queueEmpty => .core .thread "queue empty"
  | queueFull => .core .thread "queue full"
  | queueClosed => .core .closedQueue "queue closed"
  | capacityNotPositive => .core .argument "queue size must be positive"
  | capacityTooBig => .core .argument "queue size too big"
  | noBlock => .core .localJump "no block given"
  | uncollectableKey => .core .argument "WeakKeyMap keys must be garbage collectable"
  | finalizerOn inspected => .core .argument ("cannot define finalizer for " ++ inspected)
  | notAnId hex => .core .range (hex ++ " is not id value")
  | recycledId hex => .core .range (hex ++ " is recycled object")
  | undumpable .mutex => .core .type "no _dump_data is defined for class Thread::Mutex"
  | undumpable .condition => .core .type "can't dump Thread::ConditionVariable"
  | undumpable .queue => .core .type "can't dump Thread::Queue"
  | undumpable .sizedQueue => .core .type "can't dump Thread::SizedQueue"

/-- Text of a broken invariant of the runtime itself, which no caller can rescue. -/
def fatalText (what : String) : String :=
  "garnet fatal error: " ++ what

end RubyRuntime
