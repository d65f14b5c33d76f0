import RubyRuntime.Error
import RubyRuntime.Sync.State

/-!
# Mutexes

A mutex is a lock that refuses to be locked twice by one thread and enters every acquisition into
the owner's list of locks. The steps here do not wait; what a thread does when a mutex is taken is
the business of blocking calls.
-/
namespace RubyRuntime.Sync

variable {α : Type}

def isHeld (t : ThreadId) (l : LockId) (s : Sync α) : Bool :=
  (s.lock l).isHeldBy t

/-- Takes the lock or adds a hold, without an entry in the owner's list. -/
def acquire (t : ThreadId) (l : LockId) (s : Sync α) : Acquisition (Sync α) :=
  ((s.lock l).acquire t).map fun lock => s.updateLock l fun _ => lock

def holdsExhausted : String :=
  "attempt to add with overflow"

def notHeld : String :=
  fatalText "lock is not held after a successful acquisition"

/-- Enters a lock that was just acquired into the owner's list; none if the thread does not hold
it. -/
def record? (t : ThreadId) (l : LockId) (s : Sync α) : Option (Sync α) :=
  if s.isHeld t l then some (s.updateThread t (·.addOwned l)) else none

def checkOwned (t : ThreadId) (l : LockId) (s : Sync α) : Except Error Unit :=
  if s.isHeld t l then .ok ()
  else if (s.lock l).isLocked then .error Cause.unlockForeign.error
  else .error Cause.unlockFree.error

/-- Drops one hold, and the entry in the list with the last. -/
def unlockInternal (t : ThreadId) (l : LockId) (s : Sync α) : Except LockError (Sync α) :=
  match (s.lock l).unlock t with
  | .ok lock =>
    let s := s.updateLock l fun _ => lock
    .ok (if lock.holds = 0 then s.updateThread t (·.removeOwned l) else s)
  | .error e => .error e

end RubyRuntime.Sync
